import SparkleWayland.Audio.Stream

/-!
# Whole frames through the ring (`pcm_sparkle/pcm_sparkle.c`)

ALSA hands the frames of an area to `sparkle_write` until none is left, and each call is cut
short by the period, by the end of the ring and by what ALSA saw to be free; the player cuts
its regions the same way on the other side. All of these cuts fall between frames, so that
the frames counted are the bytes moved. The player's completions may arrive at any time here,
also those of regions that a stop has taken out of the queue.
-/

namespace SparkleWayland

/-! ## Interleaved areas -/

/-- What ALSA passes for its one access type: 32 bits from one frame to the next, and an area
that lies in memory. -/
structure Transfer.Interleaved (t : Transfer) : Prop where
  step : t.step = 32
  inMemory : t.first.toNat + 32 * (t.offset.toNat + t.size.toNat) < 2 ^ 64

/-- The bytes of all its frames. -/
def Transfer.bytes (t : Transfer) : List Byte := t.addr.read t.data (4 * t.size.toNat)

/-- Its first `frames` frames. -/
def Transfer.front (t : Transfer) (frames : UInt64) : Transfer := { t with size := frames }

/-- The transfer that is left after `n` frames. -/
def Transfer.advance (t : Transfer) (n : UInt32) : Transfer :=
  { t with offset := t.offset + n.toUInt64, size := t.size - n.toUInt64 }

theorem Transfer.Interleaved.data_eq {t : Transfer} (h : t.Interleaved) :
    t.data = t.first.toNat / 8 + 4 * t.offset.toNat := by
  have hbound := h.inMemory
  have hstep : (t.step.toUInt64 * t.offset).toNat = 32 * t.offset.toNat := by
    rw [UInt64.toNat_mul, h.step, show (32 : UInt32).toUInt64.toNat = 32 from rfl]
    omega
  rw [Transfer.data, UInt64.toNat_div, UInt64.toNat_add, hstep, UInt32.toNat_toUInt64]
  show (t.first.toNat + 32 * t.offset.toNat) % 2 ^ 64 / 8 = _
  omega

/-- A transfer is its first frames followed by the rest. -/
theorem Transfer.Interleaved.advance {t : Transfer} (h : t.Interleaved) {n : UInt32}
    (hn : n.toNat ≤ t.size.toNat) :
    (t.advance n).Interleaved ∧ (t.advance n).size.toNat = t.size.toNat - n.toNat ∧
      t.bytes = t.addr.read t.data (4 * n.toNat) ++ (t.advance n).bytes := by
  have hbound := h.inMemory
  have hoffset : (t.advance n).offset.toNat = t.offset.toNat + n.toNat := by
    rw [Transfer.advance, UInt64.toNat_add, UInt32.toNat_toUInt64]
    omega
  have hsize : (t.advance n).size.toNat = t.size.toNat - n.toNat := by
    rw [Transfer.advance, UInt64.toNat_sub, UInt32.toNat_toUInt64]
    have := t.size.toNat_lt
    omega
  have hrest : (t.advance n).Interleaved := by
    refine ⟨h.step, ?_⟩
    rw [hoffset, hsize]
    show t.first.toNat + _ < _
    omega
  refine ⟨hrest, hsize, ?_⟩
  have hdata : (t.advance n).data = t.data + 4 * n.toNat := by
    rw [hrest.data_eq, h.data_eq, hoffset]
    show t.first.toNat / 8 + _ = _
    omega
  rw [Transfer.bytes, Transfer.bytes, hsize, hdata,
    show 4 * t.size.toNat = 4 * n.toNat + 4 * (t.size.toNat - n.toNat) by omega]
  simp only [Memory.read, List.range_add, List.map_append, List.map_map, Transfer.advance,
    Function.comp_def, Nat.add_assoc]

/-! ## The plugin, the player and the loop in between -/

/-- The ring and its two users. `given` is the area that ALSA is writing, `transfer` what is
left of it, `added` what the calls for it put into the ring, and `calls` how many there
were. -/
structure Playback where
  ring : RingBuffer
  player : Player
  given : Transfer
  transfer : Transfer
  added : List Byte
  calls : Nat

namespace Playback

/-- The bytes that may be written without overtaking the reader. -/
def free (s : Playback) : Nat :=
  65536 - (s.ring.writePosition - s.ring.readPosition).toNat

inductive Label
  /-- ALSA begins with an area. -/
  | writei (t : Transfer) (interleaved : t.Interleaved)
  /-- It offers the next `frames` frames of it. -/
  | offer (frames : UInt64)
  | setBuffer
  /-- `sparkle_audio::disconnect_client`: the player stops and gives the ring back. -/
  | disconnect
  | start
  | stop
  | check
  /-- The buffer queue is done with a region. -/
  | played
  /-- A completion is delivered. -/
  | callback

def step (s : Playback) : Label → Option Playback
  | .writei t _ => some { s with given := t, transfer := t, added := [], calls := 0 }
  | .offer frames =>
    if 1 ≤ frames.toNat ∧ frames.toNat ≤ s.transfer.size.toNat ∧ 4 * frames.toNat ≤ s.free then
      let written := sparkleWrite s.ring (s.transfer.front frames)
      some { s with
        ring := written.1
        transfer := s.transfer.advance written.2
        added := s.added ++ written.1.stored.drop s.ring.stored.length
        calls := s.calls + 1 }
    else none
  | .setBuffer => some { s with player := { s.player with hasBuffer := true } }
  | .disconnect =>
    some { s with
      player := { (s.player.stop s.ring).1 with hasBuffer := false }
      ring := (s.player.stop s.ring).2 }
  | .start => some { s with player := s.player.start s.ring }
  | .stop => some { s with player := (s.player.stop s.ring).1, ring := (s.player.stop s.ring).2 }
  | .check => some { s with player := s.player.check s.ring }
  | .played =>
    some { s with player := { s.player with
      queue := { s.player.queue with pending := s.player.queue.pending.tail } } }
  | .callback =>
    -- without a buffer a playing player dereferences a null pointer
    if s.player.state = playStatePlaying ∧ s.player.hasBuffer = false then none
    else some { s with
      player := (s.player.callback s.ring).1
      ring := (s.player.callback s.ring).2 }

/-- Nothing to transfer. -/
def nothing : Transfer := ⟨fun _ => 0, 0, 32, 0, 0⟩

theorem nothing_interleaved : nothing.Interleaved := ⟨rfl, by decide⟩

/-- The plugin has initialised a ring, which the player, used before or not, does not have
yet. -/
def Initialised (s : Playback) : Prop :=
  ∃ (data : Memory Byte) (player : Player), player.hasBuffer = false ∧ player.playing = 0 ∧
    s = ⟨RingBuffer.initializeRing ⟨0, 0, 0, data⟩ 65536, player, nothing, nothing, [], 0⟩

/-- All interleavings. -/
def machine : Machine Playback Label := Machine.ofStep Initialised step

/-! ## Both sides keep to whole frames -/

/-- The ring and the player agree on positions at whole frames: what is being played is
unread. -/
structure Shares (ring : RingBuffer) (player : Player) (r w : Nat) : Prop where
  holds : ring.Holds r w
  aligned_read : 4 ∣ r
  aligned_write : 4 ∣ w
  nonneg : 0 ≤ player.playing.toInt
  unread : player.playing.toInt.toNat ≤ w - r
  aligned : 4 ∣ player.playing.toInt.toNat

section Steps

variable {ring : RingBuffer} {player : Player} {r w : Nat}

/-- A player that plays nothing. -/
theorem Shares.idle (h : Shares ring player r w) {player' : Player} (hidle : player'.playing = 0) :
    Shares ring player' r w := by
  have hzero : player'.playing.toInt = 0 := by rw [hidle]; rfl
  exact ⟨h.holds, h.aligned_read, h.aligned_write, by omega, by omega, by omega⟩

/-- Of the player only `playing` matters. -/
theorem Shares.congr (h : Shares ring player r w) {player' : Player}
    (hplaying : player'.playing = player.playing) : Shares ring player' r w := by
  refine ⟨h.holds, h.aligned_read, h.aligned_write, ?_, ?_, ?_⟩ <;> rw [hplaying]
  · exact h.nonneg
  · exact h.unread
  · exact h.aligned

theorem Shares.check (h : Shares ring player r w) : Shares ring (player.check ring) r w := by
  have hr := h.aligned_read
  have hw := h.aligned_write
  rcases player.check_cases h.holds with ⟨heq, -⟩ | ⟨n, hn, hlt, -, -, heq⟩
  · rwa [heq]
  · rw [heq]
    refine ⟨h.holds, hr, hw, ?_, ?_, ?_⟩ <;> dsimp only <;> omega

theorem Shares.callback (h : Shares ring player r w) :
    ∃ r', Shares (player.callback ring).2 (player.callback ring).1 r' w := by
  rw [Player.callback]
  split
  case isTrue => exact ⟨r, h⟩
  case isFalse =>
    have hr := h.aligned_read
    have hw := h.aligned_write
    have hle := h.holds.le
    have hunread := h.unread
    have haligned := h.aligned
    have hfinish := h.holds.readFinish h.nonneg (by omega)
    have hfreed : Shares (ring.readFinish player.playing) { player with playing := 0 }
        (r + player.playing.toInt.toNat) w :=
      ⟨hfinish, by omega, hw, le_refl _, Nat.zero_le _, dvd_zero _⟩
    exact ⟨_, hfreed.check⟩

theorem Shares.start (h : Shares ring player r w) : Shares ring (player.start ring) r w := by
  rw [Player.start]
  split
  case isTrue =>
    have hready : Shares ring { player with state := playStatePlaying, playing := 0 } r w :=
      h.idle rfl
    exact hready.check.congr rfl
  case isFalse => exact h

theorem Shares.stop (h : Shares ring player r w) :
    ∃ r' w', Shares (player.stop ring).2 (player.stop ring).1 r' w' := by
  rw [Player.stop]
  split
  case isTrue =>
    dsimp only
    split
    · have hempty : Shares ring.reset { player with playing := 0 } 0 0 :=
        ⟨h.holds.reset, dvd_zero 4, dvd_zero 4, le_refl _, Nat.zero_le _, dvd_zero _⟩
      exact ⟨0, 0, hempty.idle rfl⟩
    · exact ⟨r, w, h.idle rfl⟩
  case isFalse => exact ⟨r, w, h⟩

/-- What `free` measures. -/
theorem free_eq {s : Playback} (h : s.ring.Holds r w) : s.free = 65536 - (w - r) := by
  rw [free, h.distance]

/-- **A write of whole frames**: it takes at least one frame and no more than it was given,
and what it counts is what it adds to the ring. -/
theorem Shares.write (h : Shares ring player r w) {t : Transfer} (hsome : 1 ≤ t.size.toNat)
    (hfit : 4 * t.size.toNat ≤ 65536 - (w - r)) :
    (1 ≤ (sparkleWrite ring t).2.toNat ∧ (sparkleWrite ring t).2.toNat ≤ t.size.toNat) ∧
      Shares (sparkleWrite ring t).1 player r (w + 4 * (sparkleWrite ring t).2.toNat) ∧
      (sparkleWrite ring t).1.stored =
        ring.stored ++ t.addr.read t.data (4 * (sparkleWrite ring t).2.toNat) := by
  have hw := h.aligned_write
  have hle := h.holds.le
  have hfits := h.holds.fits
  obtain ⟨hlength, hholds, happend⟩ := sparkleWrite_appends h.holds hw t (by omega)
  have haccepted : acceptedBytes ring t =
      t.addr.read t.data (4 * (sparkleWrite ring t).2.toNat) := by
    rw [acceptedBytes, Nat.mul_comm 4]
    rfl
  rw [hlength, ← hlength, haccepted, Memory.length_read] at hholds happend
  rw [haccepted, Memory.length_read] at hlength
  have hunread := h.unread
  refine ⟨by omega, ⟨hholds, h.aligned_read, by omega, h.nonneg, by omega, h.aligned⟩, ?_⟩
  rw [hholds.stored, h.holds.stored]
  exact happend

end Steps

/-! ## Runs -/

/-- The area being written is what was added followed by what is left, and every call took
at least one of its frames. -/
structure Transmits (s : Playback) : Prop where
  interleaved : s.transfer.Interleaved
  bytes : s.given.bytes = s.added ++ s.transfer.bytes
  calls : s.calls + s.transfer.size.toNat ≤ s.given.size.toNat

/-- What holds of every state. -/
def Keeps (s : Playback) : Prop := (∃ r w, Shares s.ring s.player r w) ∧ Transmits s

theorem Initialised.keeps {s : Playback} (h : Initialised s) : Keeps s := by
  obtain ⟨data, player, -, hidle, rfl⟩ := h
  have hzero : player.playing.toInt = 0 := by rw [hidle]; rfl
  refine ⟨⟨0, 0, ⟨rfl, rfl, rfl, le_refl _, Nat.zero_le _⟩, dvd_zero 4, dvd_zero 4, ?_, ?_, ?_⟩,
    nothing_interleaved, rfl, le_refl _⟩ <;> dsimp only <;> omega

/-- An offer takes frames off the transfer and adds their bytes to the ring. -/
theorem offer_keeps {s : Playback} (h : Keeps s) {frames : UInt64} (hsome : 1 ≤ frames.toNat)
    (hsize : frames.toNat ≤ s.transfer.size.toNat) (hfit : 4 * frames.toNat ≤ s.free) :
    ∃ s', s.step (.offer frames) = some s' ∧ Keeps s' ∧
      s'.transfer.size.toNat < s.transfer.size.toNat := by
  obtain ⟨⟨r, w, hshares⟩, hinter, hbytes, hcalls⟩ := h
  rw [free_eq hshares.holds] at hfit
  obtain ⟨⟨hpos, hle⟩, hnext, hstored⟩ :=
    hshares.write (t := s.transfer.front frames) hsome hfit
  obtain ⟨hrest, hleft, hsplit⟩ := hinter.advance (hle.trans hsize)
  refine ⟨_, by rw [step, free_eq hshares.holds, if_pos ⟨hsome, hsize, hfit⟩],
    ⟨⟨r, _, hnext⟩, hrest, ?_, ?_⟩, ?_⟩
  · dsimp only
    rw [hstored, List.drop_left, List.append_assoc, hbytes, hsplit]
    rfl
  · dsimp only at hle ⊢
    omega
  · dsimp only at hle ⊢
    omega

theorem step_keeps {s s' : Playback} {a : Label} (h : Keeps s) (hstep : s.step a = some s') :
    Keeps s' := by
  obtain ⟨⟨r, w, hshares⟩, htransmits⟩ := h
  cases a with
  | writei t hinter =>
    cases hstep
    exact ⟨⟨r, w, hshares⟩, hinter, rfl, (Nat.zero_add _).le⟩
  | offer frames =>
    obtain ⟨⟨hsome, hsize, hfit⟩, -⟩ := Option.ite_none_right_eq_some.mp hstep
    obtain ⟨t, ht, hkeeps, -⟩ := offer_keeps ⟨⟨r, w, hshares⟩, htransmits⟩ hsome hsize hfit
    rw [ht] at hstep
    cases hstep
    exact hkeeps
  | setBuffer =>
    cases hstep
    exact ⟨⟨r, w, hshares.congr rfl⟩, htransmits.1, htransmits.2, htransmits.3⟩
  | disconnect =>
    cases hstep
    obtain ⟨r', w', hstopped⟩ := hshares.stop
    exact ⟨⟨r', w', hstopped.congr rfl⟩, htransmits.1, htransmits.2, htransmits.3⟩
  | start =>
    cases hstep
    exact ⟨⟨r, w, hshares.start⟩, htransmits.1, htransmits.2, htransmits.3⟩
  | stop =>
    cases hstep
    obtain ⟨r', w', hstopped⟩ := hshares.stop
    exact ⟨⟨r', w', hstopped⟩, htransmits.1, htransmits.2, htransmits.3⟩
  | check =>
    cases hstep
    exact ⟨⟨r, w, hshares.check⟩, htransmits.1, htransmits.2, htransmits.3⟩
  | played =>
    cases hstep
    exact ⟨⟨r, w, hshares.congr rfl⟩, htransmits.1, htransmits.2, htransmits.3⟩
  | callback =>
    obtain ⟨-, hstep⟩ := Option.ite_none_left_eq_some.mp hstep
    cases hstep
    obtain ⟨r', hcalled⟩ := hshares.callback
    exact ⟨⟨r', w, hcalled⟩, htransmits.1, htransmits.2, htransmits.3⟩

theorem reaches_keeps {as : List Label} {s : Playback} (h : machine.Reaches as s) : Keeps s :=
  Machine.invariant (I := Keeps) (fun _ hs => Initialised.keeps hs)
    (fun _ _ _ hs hstep => step_keeps hs hstep) h

/-! ## The loop -/

/-- `sparkle_write` for what is left of a transfer, until nothing is: the ring afterwards, if
`fuel` calls are enough. -/
def transferLoop : Nat → RingBuffer → Transfer → Option RingBuffer
  | fuel, ring, t =>
    if t.size = 0 then some ring
    else match fuel with
      | 0 => none
      | fuel + 1 => transferLoop fuel (sparkleWrite ring t).1 (t.advance (sparkleWrite ring t).2)

/-- Where the transfer fits into the ring, as many calls as it has frames are enough. -/
theorem Shares.transferLoop {fuel : Nat} {ring : RingBuffer} {player : Player} {r w : Nat}
    {t : Transfer} (h : Shares ring player r w) (hinter : t.Interleaved)
    (hfit : 4 * t.size.toNat ≤ 65536 - (w - r)) (hfuel : t.size.toNat ≤ fuel) :
    ∃ ring', Playback.transferLoop fuel ring t = some ring' ∧
      ring'.stored = ring.stored ++ t.bytes := by
  induction fuel generalizing ring w t with
  | zero =>
    have hnone : t.size = 0 := UInt64.toNat.inj (by show _ = 0; omega)
    refine ⟨ring, ?_, ?_⟩
    · rw [Playback.transferLoop, if_pos hnone]
    · rw [Transfer.bytes, hnone]
      exact (List.append_nil _).symm
  | succ fuel ih =>
    rw [Playback.transferLoop]
    split
    case isTrue hnone =>
      refine ⟨ring, rfl, ?_⟩
      rw [Transfer.bytes, hnone]
      exact (List.append_nil _).symm
    case isFalse hsome =>
      have hpos : 1 ≤ t.size.toNat := by
        have : t.size.toNat ≠ 0 := fun h0 => hsome (UInt64.toNat.inj h0)
        omega
      obtain ⟨⟨hone, hle⟩, hnext, hstored⟩ := h.write hpos hfit
      obtain ⟨hrest, hleft, hsplit⟩ := hinter.advance hle
      have hrw := h.holds.le
      obtain ⟨ring', hloop, hall⟩ := ih hnext hrest (by omega) (by omega)
      exact ⟨ring', hloop, by rw [hall, hstored, List.append_assoc, ← hsplit]⟩

/-! ## What ALSA may rely on -/

/-- Whole frames, in every state. -/
structure Exact (s : Playback) : Prop where
  /-- Both positions are at a whole frame. -/
  positions : 4 ∣ s.ring.writePosition.toNat ∧ 4 ∣ s.ring.readPosition.toNat
  /-- A call returns at least one frame and no more than it was given, and adds just the bytes
  of the frames it returns. -/
  write : ∀ t : Transfer, 1 ≤ t.size.toNat → frameBytes.toNat * t.size.toNat ≤ s.free →
    (1 ≤ (sparkleWrite s.ring t).2.toNat ∧ (sparkleWrite s.ring t).2.toNat ≤ t.size.toNat) ∧
    ((sparkleWrite s.ring t).1.writePosition - s.ring.writePosition).toNat =
      frameBytes.toNat * (sparkleWrite s.ring t).2.toNat ∧
    (sparkleWrite s.ring t).1.stored = s.ring.stored ++
      t.addr.read t.data (frameBytes.toNat * (sparkleWrite s.ring t).2.toNat)
  /-- No part of a frame is lost in the report of the read position. -/
  pointer : frameBytes.toNat * (sparklePointer s.ring).toNat = s.ring.readPosition.toNat
  /-- What the calls for an area have added are its first frames, whatever the player did
  meanwhile, and no more calls than frames are ever made. -/
  added : s.given.bytes = s.added ++ s.transfer.bytes ∧
    s.calls + s.transfer.size.toNat ≤ s.given.size.toNat
  /-- Where there is room for a frame, the next call brings the area closer to its end. -/
  progress : ∀ frames : UInt64, 1 ≤ frames.toNat → frames.toNat ≤ s.transfer.size.toNat →
    frameBytes.toNat * frames.toNat ≤ s.free → ∃ s', s.step (.offer frames) = some s' ∧
      s'.transfer.size.toNat < s.transfer.size.toNat
  /-- Where an area fits into the ring, calling `sparkle_write` until nothing is left of it ends,
  and has stored the bytes of the area in order. -/
  loop : ∀ t : Transfer, t.Interleaved → frameBytes.toNat * t.size.toNat ≤ s.free →
    ∃ ring, transferLoop t.size.toNat s.ring t = some ring ∧
      ring.stored = s.ring.stored ++ t.bytes

/-- **Frames are never cut**: in every state that the plugin, the player and the resets of the
ring reach. -/
theorem frames_exact {as : List Label} {s : Playback} (h : machine.Reaches as s) : Exact s := by
  have hkeeps := reaches_keeps h
  obtain ⟨⟨r, w, hshares⟩, htransmits⟩ := reaches_keeps h
  have hr := hshares.aligned_read
  have hw := hshares.aligned_write
  have hread : s.ring.readPosition.toNat = r % 2 ^ 64 := by
    rw [hshares.holds.read, UInt64.toNat_ofNat']
  have hwrite : s.ring.writePosition.toNat = w % 2 ^ 64 := by
    rw [hshares.holds.write, UInt64.toNat_ofNat']
  have hframe : frameBytes.toNat = 4 := rfl
  refine ⟨⟨by omega, by omega⟩, fun t hsome hfit => ?_, ?_,
    ⟨htransmits.bytes, htransmits.calls⟩, fun frames hsome hsize hfit => ?_,
    fun t hinter hfit => ?_⟩
  · rw [hframe, free_eq hshares.holds] at hfit
    obtain ⟨hcount, hnext, hstored⟩ := hshares.write hsome hfit
    refine ⟨hcount, ?_, hstored⟩
    rw [hnext.holds.write, hshares.holds.write, UInt64.toNat_sub, UInt64.toNat_ofNat',
      UInt64.toNat_ofNat', hframe]
    have := (sparkleWrite s.ring t).2.toNat_lt
    omega
  · rw [sparklePointer, UInt64.toNat_div, hframe]
    show 4 * (_ / 4) = _
    omega
  · obtain ⟨s', hstep, -, hlt⟩ := offer_keeps hkeeps hsome hsize hfit
    exact ⟨s', hstep, hlt⟩
  · rw [hframe, free_eq hshares.holds] at hfit
    exact hshares.transferLoop hinter hfit (le_refl _)

/-- Two frames, of which the player sees to the first before the second is written. -/
def twoFrames : Transfer := ⟨fun i => BitVec.ofNat 8 (i + 1), 0, 32, 0, 2⟩

theorem frames_exact_two :
    ∃ s, machine.Reaches [.setBuffer, .writei twoFrames ⟨rfl, by decide⟩, .offer 1, .start, .played,
        .callback, .offer 1] s ∧
      Exact s ∧ s.added = [1, 2, 3, 4, 5, 6, 7, 8] ∧ s.ring.stored = [5, 6, 7, 8] := by
  let player : Player := ⟨playStateStopped, 0, false, false, ⟨[], []⟩⟩
  let ring : RingBuffer := RingBuffer.initializeRing ⟨0, 0, 0, fun _ => 0⟩ 65536
  have hrun : (List.foldlM step ⟨ring, player, nothing, nothing, [], 0⟩
      [.setBuffer, .writei twoFrames ⟨rfl, by decide⟩, .offer 1, .start, .played, .callback,
        .offer 1]).map (fun s => (s.added, s.ring.stored)) =
        some ([1, 2, 3, 4, 5, 6, 7, 8], [5, 6, 7, 8]) := by
    decide +kernel
  obtain ⟨s, hs, heq⟩ := Option.map_eq_some_iff.mp hrun
  obtain ⟨hadded, hstored⟩ := Prod.mk.inj heq
  have hreach : machine.Reaches _ s :=
    ⟨_, ⟨fun _ => 0, player, rfl, rfl, rfl⟩, Machine.Path.of_run hs⟩
  exact ⟨s, hreach, frames_exact hreach, hadded, hstored⟩

end Playback

end SparkleWayland

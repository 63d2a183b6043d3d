import SparkleWayland.Audio.Player
import SparkleWayland.Audio.Plugin
import SparkleWayland.Lib.Fifo

/-!
# The audio stream is a FIFO

Between one start of the player and the next stop, the plugin writes, the player
reads, and both only know the two positions in the shared ring. `Streaming` ties
ring and player to a FIFO channel of bytes: what is waiting in the channel is what
is unread in the ring, and the region being played is its front. Each step of the
two programs is a step of the channel, so that what is enqueued is what was
written, in order (`stream_fifo`).
-/

namespace SparkleWayland

/-! ## Ring, player and channel -/

/-- The region handed to the buffer queue is the front of the unread bytes, still
as it was when it was enqueued. -/
structure InFlight (buffer : RingBuffer) (player : Player) (r w : Nat) : Prop where
  nonneg : 0 ≤ player.playing.toInt
  unread : player.playing.toInt.toNat ≤ w - r
  straight : r % 65536 + player.playing.toInt.toNat ≤ 65536
  aligned : 4 ∣ player.playing.toInt.toNat
  idle : player.state ≠ playStatePlaying → player.playing = 0
  pending : player.queue.pending =
    if player.playing = 0 then []
    else [⟨r % 65536, player.playing.toInt.toNat,
      buffer.data.read (r % 65536) player.playing.toInt.toNat⟩]

/-- The ring and the player carry the channel `f`; `before` is what was enqueued
before the channel began. -/
structure Streaming (buffer : RingBuffer) (player : Player) (r w : Nat) (before : List Byte)
    (f : Fifo Byte) : Prop where
  holds : buffer.Holds r w
  aligned_read : 4 ∣ r
  aligned_write : 4 ∣ w
  waiting : f.waiting = buffer.unread r w
  inFlight : InFlight buffer player r w
  enqueued : player.queue.enqueuedBytes =
    before ++ (f.popped ++ f.waiting.take player.playing.toInt.toNat)

section Steps

variable {buffer : RingBuffer} {player : Player} {r w : Nat} {before : List Byte}
  {f : Fifo Byte}

/-- A region that does not cross the end of the ring is a first part of the
unread bytes. -/
theorem take_unread {n : Nat} (hn : n ≤ w - r) (hs : r % 65536 + n ≤ 65536) :
    (buffer.unread r w).take n = buffer.data.read (r % 65536) n := by
  rw [RingBuffer.unread, (buffer.data.cyclic_split _ _ hn).1, Memory.cyclic_eq_read _ hs]

/-- Everything `check` can do: nothing, because the player is not ready or nothing
is unread, or enqueue as much as one period and the end of the ring allow. -/
theorem Player.check_cases (player : Player) (h : buffer.Holds r w) :
    (player.check buffer = player ∧
      ¬ (player.state = playStatePlaying ∧ player.playing = 0 ∧ player.hasBuffer = true ∧
        r < w)) ∨
    ∃ n : Int32, n.toInt = (min (min (w - r) 8192) (65536 - r % 65536) : Nat) ∧ r < w ∧
      player.state = playStatePlaying ∧ player.playing = 0 ∧
      player.check buffer =
        { player with
          queue := player.queue.enqueue
            ⟨r % 65536, n.toInt.toNat, buffer.data.read (r % 65536) n.toInt.toNat⟩
          playing := n } := by
  have havail := h.bytesAvailable
  have hone : Int32.toInt 1 = 1 := rfl
  have hperiod : Int32.toInt 8192 = 8192 := rfl
  rw [check]
  split
  case isFalse hno =>
    refine Or.inl ⟨rfl, ?_⟩
    rintro ⟨hstate, hplay, hbuf, -⟩
    exact hno ⟨hstate, hplay, hbuf⟩
  case isTrue hready =>
    obtain ⟨hstate, hplay, -⟩ := hready
    dsimp only
    -- `bytes_available < 1` is how the code asks whether anything is unread
    by_cases hempty : buffer.bytesAvailable < 1
    · rw [if_pos hempty]
      rw [Int32.lt_iff_toInt_lt] at hempty
      refine Or.inl ⟨rfl, ?_⟩
      rintro ⟨-, -, -, hlt⟩
      omega
    · rw [if_neg hempty]
      rw [Int32.lt_iff_toInt_lt] at hempty
      have hcap : (if buffer.bytesAvailable > 8192 then 8192 else buffer.bytesAvailable).toInt =
          min (w - r : Nat) 8192 := by
        split <;> rename_i hc <;> rw [gt_iff_lt, Int32.lt_iff_toInt_lt] at hc <;> omega
      generalize (if buffer.bytesAvailable > 8192 then 8192 else buffer.bytesAvailable) = capped
        at hcap
      obtain ⟨hoff, hlen⟩ := h.readStart capped
      refine Or.inr ⟨(buffer.readStart capped).2, ?_, by omega, hstate, hplay, ?_⟩
      · rw [hlen, hcap]
        omega
      · rw [hoff, Int.toNat_natCast]

namespace Streaming

/-- `check` moves nothing: it hands the front of the channel to the buffer queue. -/
theorem check (h : Streaming buffer player r w before f) :
    Streaming buffer (player.check buffer) r w before f := by
  rcases player.check_cases h.holds with ⟨heq, -⟩ | ⟨n, hn, hlt, hstate, hplay, heq⟩
  · rwa [heq]
  · have hr := h.aligned_read
    have hw := h.aligned_write
    have hpos : 0 < n.toInt := by omega
    have hne : n ≠ 0 := fun h0 => absurd (h0 ▸ hpos) (by decide)
    have hidle : player.playing.toInt.toNat = 0 := by rw [hplay]; rfl
    have hqueue : player.queue.pending = [] := by rw [h.inFlight.pending, if_pos hplay]
    have htake : f.waiting.take n.toInt.toNat =
        buffer.data.read (r % 65536) n.toInt.toNat := by
      rw [h.waiting]
      exact take_unread (by omega) (by omega)
    rw [heq]
    refine ⟨h.holds, hr, hw, h.waiting, ⟨by dsimp only; omega, by dsimp only; omega,
      by dsimp only; omega, by dsimp only; omega, fun hno => absurd hstate hno, ?_⟩, ?_⟩
    · change player.queue.pending ++ _ = _
      rw [hqueue, if_neg hne]
      rfl
    · rw [BufferQueue.enqueuedBytes_enqueue, h.enqueued, hidle, htake, List.take_zero,
        List.append_nil, List.append_assoc]

/-- A region that was played leaves the channel. -/
theorem regionDone (h : Streaming buffer player r w before f) {player' : Player}
    {buffer' : RingBuffer} (hstep : player.regionDone buffer = some (player', buffer')) :
    ∃ n, Streaming buffer' player' (r + n) w before (f.pop n) ∧ 0 < n := by
  have hr := h.aligned_read
  obtain ⟨h0, hunread, hstraight, haligned, hidle, hpending⟩ := h.inFlight
  by_cases hplay : player.playing = 0
  · rw [if_pos hplay] at hpending
    rw [Player.regionDone, hpending] at hstep
    cases hstep
  · rw [if_neg hplay] at hpending
    have hstate : player.state = playStatePlaying := by
      by_contra hno
      exact hplay (hidle hno)
    have hpos : 0 < player.playing.toInt.toNat := by
      have hne : player.playing.toInt ≠ 0 := fun hz => hplay (Int32.toInt.inj hz)
      omega
    -- `callback` first gives the region back to the ring and then calls `check`
    have hfits := h.holds.le
    have hread := h.holds.readFinish h0 (by omega)
    rw [Player.regionDone, hpending] at hstep
    simp only [Player.callback, hstate, ne_eq, not_true_eq_false, if_false,
      Option.some.injEq, Prod.mk.injEq] at hstep
    obtain ⟨rfl, rfl⟩ := hstep
    refine ⟨player.playing.toInt.toNat, ?_, hpos⟩
    refine Streaming.check ⟨hread, by omega, h.aligned_write, ?_, ?_, ?_⟩
    · rw [Fifo.pop_waiting, h.waiting, RingBuffer.unread,
        (buffer.data.cyclic_split _ _ hunread).2, Nat.sub_sub]
      rfl
    · exact ⟨le_refl _, Nat.zero_le _, by change _ + 0 ≤ _; omega, dvd_zero _, fun _ => rfl,
        by rw [if_pos rfl]⟩
    · change player.queue.enqueuedBytes = _
      rw [h.enqueued, Fifo.pop_popped]
      simp

/-- Starting a player keeps the channel. -/
theorem start (h : Streaming buffer player r w before f) :
    Streaming buffer (player.start buffer) r w before f := by
  rw [Player.start]
  split
  case isFalse => exact h
  case isTrue hstate =>
    have hplay := h.inFlight.idle hstate
    have hzero : ({ player with state := playStatePlaying, playing := 0 } : Player) =
        { player with state := playStatePlaying } := by rw [← hplay]
    have hready : Streaming buffer { player with state := playStatePlaying } r w before f :=
      ⟨h.holds, h.aligned_read, h.aligned_write, h.waiting,
        ⟨h.inFlight.nonneg, h.inFlight.unread, h.inFlight.straight, h.inFlight.aligned,
          fun hno => absurd rfl hno, h.inFlight.pending⟩, h.enqueued⟩
    rw [hzero]
    obtain ⟨hh, har, haw, hwait, ⟨h1, h2, h3, h4, h5, h6⟩, henq⟩ := hready.check
    exact ⟨hh, har, haw, hwait, ⟨h1, h2, h3, h4, h5, h6⟩, henq⟩

/-- Stopping a player that is not stopped empties the ring and begins a new
channel. -/
theorem stop (h : Streaming buffer player r w before f) (hstate : player.state ≠ playStateStopped)
    (hbuf : player.hasBuffer = true) :
    Streaming (player.stop buffer).2 (player.stop buffer).1 0 0 player.queue.enqueuedBytes
      (Fifo.ofWaiting []) := by
  rw [Player.stop, if_pos hstate, if_pos hbuf]
  refine ⟨h.holds.reset, dvd_zero 4, dvd_zero 4, rfl, ⟨le_refl _, Nat.zero_le _, Nat.zero_le _,
    dvd_zero _, fun _ => rfl, by rw [if_pos rfl]; rfl⟩, ?_⟩
  simp [Fifo.ofWaiting]

end Streaming

/-- `sparkle_write`, when the transfer fits into the free part of the ring: it
copies as much of it as one period and the end of the ring allow, and accepts
exactly what it copies. -/
theorem sparkleWrite_eq (h : buffer.Holds r w) (hw : 4 ∣ w) (t : Transfer)
    (hfit : w + 4 * t.size.toNat ≤ r + 65536) :
    let n := min (min (4 * t.size.toNat) 8192) (65536 - w % 65536)
    acceptedBytes buffer t = t.addr.read t.data n ∧
      ∃ k : Int32, k.toInt = (n : Nat) ∧
        (sparkleWrite buffer t).1 =
          ({ buffer with data := buffer.data.copy t.addr (w % 65536) t.data n } :
            RingBuffer).writeFinish k := by
  intro n
  have hle := h.le
  have hperiod : sparklePeriodSize.toInt = 8192 := rfl
  -- the byte count is taken in 64 bits, then squeezed into an `int`
  have hbytes : (t.size * frameBytes.toUInt64).toNat = 4 * t.size.toNat := by
    rw [UInt64.toNat_mul, show frameBytes.toUInt64.toNat = 4 from rfl]
    omega
  have hsize : (UInt64.asInt (t.size * frameBytes.toUInt64)).toInt = (4 * t.size.toNat : Nat) := by
    rw [UInt64.toInt_asInt (by omega), hbytes]
  rw [acceptedBytes, sparkleWrite]
  dsimp only
  have hcap : (if UInt64.asInt (t.size * frameBytes.toUInt64) > sparklePeriodSize then
      sparklePeriodSize else UInt64.asInt (t.size * frameBytes.toUInt64)).toInt =
        min (4 * t.size.toNat : Nat) 8192 := by
    split <;> rename_i hc <;> rw [gt_iff_lt, Int32.lt_iff_toInt_lt] at hc <;> omega
  generalize (if UInt64.asInt (t.size * frameBytes.toUInt64) > sparklePeriodSize then
    sparklePeriodSize else UInt64.asInt (t.size * frameBytes.toUInt64)) = capped at hcap
  obtain ⟨hoff, hlen⟩ := h.writeStart capped
  have hn : (buffer.writeStart capped).2.toInt = (n : Nat) := by
    rw [hlen, hcap]
    omega
  have hcount : (Int32.asUInt64 (buffer.writeStart capped).2).toNat = n := by
    rw [Int32.toNat_asUInt64 (by omega), hn, Int.toNat_natCast]
  -- what is returned are whole frames, which loses nothing of an aligned count
  have hframes : ((buffer.writeStart capped).2.toUInt32 / frameBytes).toNat * frameBytes.toNat =
      n := by
    rw [UInt32.toNat_div, Int32.toNat_toUInt32 (by omega), hn,
      show frameBytes.toNat = 4 from rfl]
    omega
  refine ⟨by rw [hframes], _, hn, ?_⟩
  rw [hoff, hcount, Int.toNat_natCast]

/-- Such a write appends what it accepts to the unread bytes: whole frames, as many as one
period and the end of the ring allow. -/
theorem sparkleWrite_appends (h : buffer.Holds r w) (hw : 4 ∣ w) (t : Transfer)
    (hfit : w + 4 * t.size.toNat ≤ r + 65536) :
    (acceptedBytes buffer t).length = min (min (4 * t.size.toNat) 8192) (65536 - w % 65536) ∧
      (sparkleWrite buffer t).1.Holds r (w + (acceptedBytes buffer t).length) ∧
      (sparkleWrite buffer t).1.unread r (w + (acceptedBytes buffer t).length) =
        buffer.unread r w ++ acceptedBytes buffer t := by
  have hle := h.le
  obtain ⟨haccepted, k, hk, hring⟩ := sparkleWrite_eq h hw t hfit
  generalize hn : min (min (4 * t.size.toNat) 8192) (65536 - w % 65536) = n at *
  have hfinish := (h.withData (buffer.data.copy t.addr (w % 65536) t.data n)).writeFinish
    (n := k) (by omega) (by omega)
  rw [show k.toInt.toNat = n by omega] at hfinish
  rw [hring, haccepted, Memory.length_read]
  refine ⟨rfl, hfinish, ?_⟩
  rw [RingBuffer.unread, show w + n - r = w - r + n by omega]
  exact Memory.cyclic_write (by omega) (by omega) (by omega)

/-- A write that fits into the free part of the ring appends what it accepts to
the channel. -/
theorem Streaming.write (h : Streaming buffer player r w before f) (t : Transfer)
    (hfit : w + 4 * t.size.toNat ≤ r + 65536) :
    Streaming (sparkleWrite buffer t).1 player r (w + (acceptedBytes buffer t).length) before
      (f.push (acceptedBytes buffer t)) := by
  have hw := h.aligned_write
  have hle := h.holds.le
  obtain ⟨hlength, hholds, happend⟩ := sparkleWrite_appends h.holds hw t hfit
  obtain ⟨h0, hunread, hstraight, haligned, hidle, hpending⟩ := h.inFlight
  have hfront : player.playing.toInt.toNat ≤ (buffer.unread r w).length := by
    rw [RingBuffer.unread, Memory.length_cyclic]
    exact hunread
  -- the region being played is a front of what was unread, which the write keeps
  have hregion : (sparkleWrite buffer t).1.data.read (r % 65536) player.playing.toInt.toNat =
      buffer.data.read (r % 65536) player.playing.toInt.toNat := by
    rw [← take_unread (show _ ≤ w + (acceptedBytes buffer t).length - r by omega) hstraight,
      happend, List.take_append_of_le_length hfront, take_unread hunread hstraight]
  refine ⟨hholds, h.aligned_read, by omega, ?_, ⟨h0, by omega, hstraight, haligned, hidle, ?_⟩, ?_⟩
  · rw [Fifo.push_waiting, h.waiting]
    exact happend.symm
  · rw [hpending, hregion]
  · rw [h.enqueued, Fifo.push_popped, Fifo.push_waiting, List.take_append_of_le_length]
    rw [h.waiting]
    exact hfront

end Steps

/-! ## The stream between a start and a stop -/

/-- A report of `sparkle_pointer`, with the number of bytes accepted before it. -/
structure PointerReport where
  frames : UInt64
  accepted : Nat

/-- The two programs around the shared ring, with what `sparkle_pointer` has
reported and what `sparkle_write` has accepted. -/
structure Stream where
  ring : RingBuffer
  player : Player
  reports : List PointerReport
  accepted : List Byte

namespace Stream

/-- One step of either program. -/
inductive Label
  | pointer
  | write (t : Transfer)
  | check
  | callback

/-- What ALSA's ioplug layer offers: by some earlier report of the read position,
the transfer fits into the ring. The difference of two 64-bit positions is
meaningful as long as less than 2^64 bytes were written since the report. -/
def MayOffer (s : Stream) (t : Transfer) : Prop :=
  ∃ o ∈ s.reports, s.accepted.length + 65536 < o.accepted + 2 ^ 64 ∧
    4 * t.size.toNat + (s.ring.writePosition - o.frames * frameBytes.toUInt64).toNat ≤ 65536

instance (s : Stream) (t : Transfer) : Decidable (s.MayOffer t) :=
  inferInstanceAs (Decidable (∃ o ∈ s.reports, _))

/-- The steps, each atomic. -/
def step (s : Stream) : Label → Option Stream
  | .pointer =>
    some { s with reports := ⟨sparklePointer s.ring, s.accepted.length⟩ :: s.reports }
  | .write t =>
    if s.MayOffer t then
      some { s with
        ring := (sparkleWrite s.ring t).1
        accepted := s.accepted ++ acceptedBytes s.ring t }
    else none
  | .check => some { s with player := s.player.check s.ring }
  | .callback =>
    (s.player.regionDone s.ring).map fun q => { s with player := q.1, ring := q.2 }

/-- A player with nothing enqueued is started on a ring of 65536 bytes with
arbitrary frame-aligned positions; what is unread counts as accepted. -/
structure Startable (ring : RingBuffer) (player : Player) : Prop where
  size : ring.size = 65536
  aligned_read : 4 ∣ ring.readPosition.toNat
  aligned_write : 4 ∣ ring.writePosition.toNat
  available : (ring.writePosition - ring.readPosition).toNat ≤ 65536
  state : player.state ≠ playStatePlaying
  playing : player.playing = 0
  queue : player.queue = ⟨[], []⟩
  hasBuffer : player.hasBuffer = true

/-- All interleavings of the two programs from a start on. -/
def machine : Machine Stream Label :=
  Machine.ofStep
    (fun s => ∃ ring player, Startable ring player ∧
      s = ⟨ring, player.start ring, [], ring.stored⟩) step

/-! ## The stream refines a channel -/

/-- An old report is a position the reader has passed, at most one ring and the
bytes accepted since behind the writer. -/
structure Reported (o : PointerReport) (r w accepted : Nat) (position : Nat) : Prop where
  frames : o.frames * frameBytes.toUInt64 = UInt64.ofNat position
  le : position ≤ r
  before : o.accepted ≤ accepted
  reach : w ≤ position + 65536 + (accepted - o.accepted)

/-- What holds of every state: the ring and the player carry a channel into which
exactly the accepted bytes went. -/
def Carries (s : Stream) (f : Fifo Byte) : Prop :=
  ∃ r w, Streaming s.ring s.player r w [] f ∧ f.pushed = s.accepted ∧
    ∀ o ∈ s.reports, ∃ position, Reported o r w s.accepted.length position

/-- `sparkle_pointer` reports the read position itself. -/
theorem sparklePointer_mul {ring : RingBuffer} {r w : Nat} (h : ring.Holds r w) (hr : 4 ∣ r) :
    sparklePointer ring * frameBytes.toUInt64 = UInt64.ofNat r := by
  refine UInt64.toNat.inj ?_
  rw [sparklePointer, UInt64.toNat_mul, UInt64.toNat_div, h.read, UInt64.toNat_ofNat',
    show frameBytes.toUInt64.toNat = 4 from rfl]
  omega

/-- A transfer that ALSA offers fits into the free part of the ring. -/
theorem fits_of_mayOffer {s : Stream} {t : Transfer} {r w : Nat} (h : s.ring.Holds r w)
    (hreports : ∀ o ∈ s.reports, ∃ position, Reported o r w s.accepted.length position)
    (hoffer : s.MayOffer t) : w + 4 * t.size.toNat ≤ r + 65536 := by
  obtain ⟨o, ho, hfresh, hoffered⟩ := hoffer
  obtain ⟨position, hframes, hle, hbefore, hreach⟩ := hreports o ho
  have hrw := h.le
  rw [h.write, hframes, UInt64.toNat_sub, UInt64.toNat_ofNat', UInt64.toNat_ofNat'] at hoffered
  omega

/-- Any frame-aligned positions at most one ring apart are positions that do not wrap. -/
theorem Startable.holds {ring : RingBuffer} {player : Player} (h : Startable ring player) :
    ∃ w, 4 ∣ w ∧ ring.Holds ring.readPosition.toNat w := by
  have hr := h.aligned_read
  have hw := h.aligned_write
  have havail := h.available
  have hrlt := ring.readPosition.toNat_lt
  have hwlt := ring.writePosition.toNat_lt
  have hdist := UInt64.toNat_sub ring.writePosition ring.readPosition
  refine ⟨ring.readPosition.toNat + (ring.writePosition - ring.readPosition).toNat, by omega,
    h.size, UInt64.toNat.inj ?_, UInt64.ofNat_toNat.symm, Nat.le_add_right _ _, by omega⟩
  rw [UInt64.toNat_ofNat']
  omega

theorem start_carries {ring : RingBuffer} {player : Player} (h : Startable ring player) :
    Carries ⟨ring, player.start ring, [], ring.stored⟩ (Fifo.ofWaiting ring.stored) := by
  obtain ⟨w, hw, hholds⟩ := h.holds
  have hidle : player.playing.toInt = 0 := by rw [h.playing]; rfl
  have hready : Streaming ring player ring.readPosition.toNat w []
      (Fifo.ofWaiting ring.stored) := by
    refine ⟨hholds, h.aligned_read, hw, hholds.stored, ⟨by omega, by omega, by omega, by omega,
      fun _ => h.playing, ?_⟩, ?_⟩
    · rw [h.queue, if_pos h.playing]
    · rw [h.queue, hidle]
      rfl
  exact ⟨_, _, hready.start, rfl, fun o ho => nomatch ho⟩

/-- Every step of the two programs is answered by at most one step of the channel. -/
theorem step_carries {s s' : Stream} {a : Label} {f : Fifo Byte} (h : Carries s f)
    (hstep : s.step a = some s') :
    ∃ ops f', (Fifo.machine Byte).Path f ops f' ∧ Carries s' f' := by
  obtain ⟨r, w, hstream, hpushed, hreports⟩ := h
  have hle := hstream.holds.le
  have hfits := hstream.holds.fits
  cases a with
  | pointer =>
    cases hstep
    refine ⟨[], f, .nil, r, w, hstream, hpushed, fun o ho => ?_⟩
    rcases List.mem_cons.mp ho with rfl | ho
    · exact ⟨r, sparklePointer_mul hstream.holds hstream.aligned_read, le_refl _, le_refl _,
        by omega⟩
    · exact hreports o ho
  | write t =>
    simp only [step, Option.ite_none_right_eq_some, Option.some.injEq] at hstep
    obtain ⟨hoffer, rfl⟩ := hstep
    have hfit := fits_of_mayOffer hstream.holds hreports hoffer
    refine ⟨_, _, f.path_push (acceptedBytes s.ring t), r, _, hstream.write t hfit, ?_, ?_⟩
    · rw [Fifo.push_pushed, hpushed]
    · intro o ho
      obtain ⟨position, hframes, hpos, hbefore, hreach⟩ := hreports o ho
      refine ⟨position, hframes, hpos, ?_, ?_⟩ <;> rw [List.length_append] <;> omega
  | check =>
    cases hstep
    exact ⟨[], f, .nil, r, w, hstream.check, hpushed, hreports⟩
  | callback =>
    obtain ⟨⟨player', ring'⟩, hdone, rfl⟩ := Option.map_eq_some_iff.mp hstep
    obtain ⟨n, hnext, -⟩ := hstream.regionDone hdone
    refine ⟨_, _, f.path_pop n, r + n, w, hnext, hpushed, fun o ho => ?_⟩
    obtain ⟨position, hframes, hpos, hbefore, hreach⟩ := hreports o ho
    exact ⟨position, hframes, by omega, hbefore, hreach⟩

/-- **Refinement**: the shared ring with its two programs simulates the channel. -/
def refines : Simulation machine (Fifo.machine Byte) where
  rel := Carries
  start := by
    rintro s ⟨ring, player, hstart, rfl⟩
    exact ⟨_, ⟨_, rfl⟩, start_carries hstart⟩
  step _ _ _ _ h hstep := step_carries h hstep

/-! ## No byte lost, duplicated or reordered -/

/-- What a state of the stream guarantees. -/
structure Sound (s : Stream) : Prop where
  /-- The positions are never more than one ring apart. -/
  available : (s.ring.writePosition - s.ring.readPosition).toNat ≤ 65536
  /-- A region at the buffer queue lies in the unread part of `data`, in one piece. -/
  region : ∀ e ∈ s.player.queue.pending,
    e.offset = s.ring.readPosition.toNat % 65536 ∧ e.offset + e.length ≤ 65536 ∧
      e.length ≤ (s.ring.writePosition - s.ring.readPosition).toNat
  /-- It still holds the bytes it was enqueued with. -/
  intact : ∀ e ∈ s.player.queue.pending, s.ring.data.read e.offset e.length = e.bytes
  /-- What was enqueued is the beginning of what was accepted. -/
  order : s.player.queue.enqueuedBytes <+: s.accepted

theorem Carries.sound {s : Stream} {f : Fifo Byte} (h : Carries s f) : Sound s := by
  obtain ⟨r, w, hstream, hpushed, -⟩ := h
  have hfits := hstream.holds.fits
  have hdist := hstream.holds.distance
  have hregion : ∀ e ∈ s.player.queue.pending,
      e = ⟨r % 65536, s.player.playing.toInt.toNat,
        s.ring.data.read (r % 65536) s.player.playing.toInt.toNat⟩ := by
    intro e he
    rw [hstream.inFlight.pending] at he
    split at he
    · cases he
    · exact List.mem_singleton.mp he
  refine ⟨by omega, fun e he => ?_, fun e he => ?_, ?_⟩
  · rw [hregion e he, hdist, hstream.holds.read, UInt64.toNat_ofNat']
    exact ⟨by dsimp only; omega, hstream.inFlight.straight, hstream.inFlight.unread⟩
  · rw [hregion e he]
  · rw [hstream.enqueued, List.nil_append, ← hpushed]
    exact f.popped_take_prefix_pushed _

/-- **The audio stream is a FIFO**: in every state that any interleaving of the
plugin and the player reaches, no byte was lost, duplicated or reordered, and the
region being played is untouched. -/
theorem stream_sound {as : List Label} {s : Stream} (h : machine.Reaches as s) : Sound s := by
  obtain ⟨-, f, -, hcarries⟩ := refines.reaches h
  exact Carries.sound hcarries

/-- Four bytes written, enqueued and played back. -/
theorem stream_sound_frame :
    ∃ s, machine.Reaches
        [.pointer, .write ⟨fun i => BitVec.ofNat 8 i, 0, 32, 0, 1⟩, .check, .callback] s ∧
      Sound s ∧ s.player.queue.enqueuedBytes = [0, 1, 2, 3] := by
  let ring : RingBuffer := ⟨65536, 0, 0, fun _ => 0⟩
  let player : Player := ⟨playStateStopped, 0, true, false, ⟨[], []⟩⟩
  have hrun : (List.foldlM step ⟨ring, player.start ring, [], ring.stored⟩
      [.pointer, .write ⟨fun i => BitVec.ofNat 8 i, 0, 32, 0, 1⟩, .check, .callback]).map
        (·.player.queue.enqueuedBytes) = some [0, 1, 2, 3] := by
    decide +kernel
  obtain ⟨s, hs, hbytes⟩ := Option.map_eq_some_iff.mp hrun
  have hreach : machine.Reaches _ s :=
    ⟨_, ⟨ring, player, by constructor <;> decide, rfl⟩, Machine.Path.of_run hs⟩
  exact ⟨s, hreach, stream_sound hreach, hbytes⟩

end Stream

end SparkleWayland

import SparkleWayland.Audio.Stream

/-!
# Starting and stopping over the socket (`sparkle_android/sparkle_audio.cpp`)

The plugin sends one code for a start and one for a stop; the service handles
them later, in order, while both sides keep using the shared ring. A stop takes
effect when it is handled: it empties the ring as it finds it then, and nothing
on the way tells it what was written after it was sent. `delivery` is what was
enqueued followed by what will be; handling a stop cuts it off at what was
enqueued, and nothing else shortens it.
-/

namespace SparkleWayland

/-- A code on its way to the service, with the number of bytes accepted before it
was sent. -/
structure Message where
  code : UInt64
  issuedAt : Nat
  deriving DecidableEq

/-- The plugin and the service with the shared ring and the socket between them. -/
structure Session where
  ring : RingBuffer
  player : Player
  messages : List Message
  accepted : List Byte

namespace Session

/-- One step of the plugin (`sendStart`, `sendStop`, `write`) or of the service. -/
inductive Label
  | sendStart
  | sendStop
  | write (t : Transfer)
  | handle
  | check
  | callback

/-- `sparkle_start` and `sparkle_stop`: the code goes into the socket. -/
def send (s : Session) (code : UInt64) : Session :=
  { s with messages := s.messages ++ [⟨code, s.accepted.length⟩] }

/-- What `sparkle_audio::read` does with one code. The code 1, which hands over the
ring, was handled before; every other code makes the service throw. -/
def read (s : Session) (code : UInt64) : Option Session :=
  if code = 2 then some { s with player := s.player.start s.ring }
  else if code = 3 then
    some { s with player := (s.player.stop s.ring).1, ring := (s.player.stop s.ring).2 }
  else none

/-- The steps. A write stays within the free space of the ring; the timer calls
`check` while it runs. -/
def step (s : Session) : Label → Option Session
  | .sendStart => some (s.send 2)
  | .sendStop => some (s.send 3)
  | .write t =>
    if 4 * t.size.toNat + (s.ring.writePosition - s.ring.readPosition).toNat ≤ 65536 then
      some { s with
        ring := (sparkleWrite s.ring t).1
        accepted := s.accepted ++ acceptedBytes s.ring t }
    else none
  | .handle =>
    match s.messages with
    | [] => none
    | m :: rest => { s with messages := rest }.read m.code
  | .check =>
    if s.player.checkTimer then some { s with player := s.player.check s.ring } else none
  | .callback =>
    (s.player.regionDone s.ring).map fun q => { s with player := q.1, ring := q.2 }

/-- A session after the handshake: the plugin has initialised the ring, the
service has stopped the player and handed it the ring. -/
def opened (data : Memory Byte) : Session where
  ring := RingBuffer.initializeRing ⟨0, 0, 0, data⟩ 65536
  player := ⟨playStateStopped, 0, true, false, ⟨[], []⟩⟩
  messages := []
  accepted := []

/-- All interleavings of the two programs. -/
def machine : Machine Session Label :=
  Machine.ofStep (fun s => ∃ data, s = opened data) step

/-- The step handles a stop. -/
def HandlesStop (s : Session) (a : Label) : Prop :=
  a = .handle ∧ ∃ m rest, s.messages = m :: rest ∧ m.code = 3

/-- What holds of every state of a session. -/
structure Carries (s : Session) (r w : Nat) (before : List Byte) (f : Fifo Byte) : Prop where
  stream : Streaming s.ring s.player r w before f
  hasBuffer : s.player.hasBuffer = true
  checkTimer : s.player.state = playStatePlaying → s.player.checkTimer = true

theorem regionDone_keeps {player player' : Player} {ring ring' : RingBuffer}
    (h : player.regionDone ring = some (player', ring')) :
    player'.state = player.state ∧ player'.hasBuffer = player.hasBuffer ∧
      player'.checkTimer = player.checkTimer := by
  rw [Player.regionDone] at h
  split at h
  · cases h
  · have hcalled := congrArg Prod.fst (Option.some.inj h)
    dsimp only at hcalled
    rw [← hcalled]
    exact (Player.callback_keeps _ _).1

/-- Handling a start. -/
theorem start_carries {s : Session} {r w : Nat} {before : List Byte} {f : Fifo Byte}
    (h : Carries s r w before f) :
    Carries { s with player := s.player.start s.ring } r w before f ∧
      (s.player.start s.ring).state = playStatePlaying := by
  have hstream := h.stream.start
  rw [Player.start] at hstream ⊢
  split
  case isTrue hstate =>
    rw [if_pos hstate] at hstream
    obtain ⟨h1, h2, -⟩ :=
      Player.check_keeps { s.player with state := playStatePlaying, playing := 0 } s.ring
    exact ⟨⟨hstream, h2.trans h.hasBuffer, fun _ => rfl⟩, h1⟩
  case isFalse hstate =>
    exact ⟨⟨h.stream, h.hasBuffer, h.checkTimer⟩, Classical.not_not.mp hstate⟩

/-- Every step but the handling of a stop adds to the channel what it accepts, and
takes nothing out that is not enqueued. -/
theorem step_carries {s s' : Session} {a : Label} {r w : Nat} {before : List Byte} {f : Fifo Byte}
    (h : Carries s r w before f) (hstep : s.step a = some s') (hno : ¬ s.HandlesStop a) :
    ∃ r' w' f', Carries s' r' w' before f' ∧
      ∃ new, s'.accepted = s.accepted ++ new ∧ f'.pushed = f.pushed ++ new := by
  have hnothing : ∃ new, s.accepted = s.accepted ++ new ∧ f.pushed = f.pushed ++ new :=
    ⟨[], (List.append_nil _).symm, (List.append_nil _).symm⟩
  cases a with
  | sendStart =>
    cases hstep
    exact ⟨r, w, f, ⟨h.stream, h.hasBuffer, h.checkTimer⟩, hnothing⟩
  | sendStop =>
    cases hstep
    exact ⟨r, w, f, ⟨h.stream, h.hasBuffer, h.checkTimer⟩, hnothing⟩
  | write t =>
    -- the client writes no more than the free space that it sees
    simp only [step, Option.ite_none_right_eq_some, Option.some.injEq] at hstep
    obtain ⟨hfit, rfl⟩ := hstep
    rw [h.stream.holds.distance] at hfit
    have hle := h.stream.holds.le
    exact ⟨r, _, _, ⟨h.stream.write t (by omega), h.hasBuffer, h.checkTimer⟩,
      acceptedBytes s.ring t, rfl, rfl⟩
  | handle =>
    rw [step] at hstep
    split at hstep
    case h_1 => cases hstep
    case h_2 m rest hm =>
      rw [read] at hstep
      split at hstep
      · cases hstep
        -- the message is taken off the queue before it is handled
        have hcarries : Carries { s with messages := rest } r w before f :=
          ⟨h.stream, h.hasBuffer, h.checkTimer⟩
        exact ⟨r, w, f, (start_carries hcarries).1, hnothing⟩
      · -- a stop is excluded, and any other code makes the service throw
        split at hstep
        case isTrue hcode => exact absurd ⟨rfl, m, rest, hm, hcode⟩ hno
        case isFalse => cases hstep
  | check =>
    simp only [step, Option.ite_none_right_eq_some, Option.some.injEq] at hstep
    obtain ⟨-, rfl⟩ := hstep
    obtain ⟨h1, h2, h3⟩ := Player.check_keeps s.player s.ring
    exact ⟨r, w, f, ⟨h.stream.check, h2.trans h.hasBuffer,
      fun hp => h3.trans (h.checkTimer (h1 ▸ hp))⟩, hnothing⟩
  | callback =>
    obtain ⟨⟨player', ring'⟩, hdone, rfl⟩ := Option.map_eq_some_iff.mp hstep
    obtain ⟨n, hnext, -⟩ := h.stream.regionDone hdone
    obtain ⟨h1, h2, h3⟩ := regionDone_keeps hdone
    exact ⟨r + n, w, f.pop n, ⟨hnext, h2.trans h.hasBuffer,
      fun hp => h3.trans (h.checkTimer (h1 ▸ hp))⟩, hnothing⟩

/-- Steps left until a playing player is idle: a region is called back, and where
nothing is being played one has to be enqueued first. -/
def left (s : Session) (r w : Nat) : Nat :=
  2 * (w - r) + if s.player.playing = 0 then 1 else 0

end Session

end SparkleWayland

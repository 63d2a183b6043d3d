import SparkleWayland.Audio.Player
import SparkleWayland.Lib.Checked

/-!
# What the player enqueues (`sparkle_player::check`)

The header of the ring lies in memory that the client maps as well, and the client may
change it whenever it likes. Here `check` is followed through the arithmetic of the
header, where C has no answer for a division by zero and for an `int` that overflows,
up to the arguments of `Enqueue`. It looks at the header twice, and finds two headers.
What is enqueued lies in `data` exactly if the header is `Sane`
(`sharedCheck_inside_iff`), which the one that the plugin writes is.
-/

namespace SparkleWayland

/-- The arguments of `Enqueue`, from `buffer_->data` on; the size is a `SLuint32`. -/
structure EnqueueArguments where
  offset : Int32
  size : UInt32
  deriving DecidableEq, Repr

namespace EnqueueArguments

/-- The region has bytes, and they all lie in `char data[65536]`. -/
def Inside (e : EnqueueArguments) : Prop :=
  0 ≤ e.offset.toInt ∧ 0 < e.size.toNat ∧ e.offset.toInt + e.size.toNat ≤ 65536

end EnqueueArguments

namespace RingBuffer

/-- `were1_ring_buffer_read_start`, of a header that anybody may have written. -/
def sharedReadStart (buffer : RingBuffer) (size : Int32) : Except Undefined (Int32 × Int32) := do
  let position ← modUInt64 buffer.readPosition (Int32.asUInt64 buffer.size)
  let readPosition := UInt64.asInt position
  let max ← subInt buffer.size readPosition
  return (readPosition, if size > max then max else size)

/-- Where all is defined, it is what the ring computes. -/
theorem sharedReadStart_eq_ok_iff {buffer : RingBuffer} {size : Int32} {region : Int32 × Int32} :
    buffer.sharedReadStart size = .ok region ↔
      Int32.asUInt64 buffer.size ≠ 0 ∧
      Defined (buffer.size.toInt - (buffer.readStart size).1.toInt) ∧
      region = buffer.readStart size := by
  rw [sharedReadStart, bind_eq_ok_iff]
  constructor
  · rintro ⟨position, hposition, hrest⟩
    obtain ⟨hne, rfl⟩ := modUInt64_eq_ok_iff.mp hposition
    obtain ⟨max, hmax, hregion⟩ := bind_eq_ok_iff.mp hrest
    obtain ⟨hdefined, rfl⟩ := subInt_eq_ok_iff.mp hmax
    cases hregion
    exact ⟨hne, hdefined, rfl⟩
  · rintro ⟨hne, hdefined, rfl⟩
    refine ⟨_, modUInt64_eq_ok_iff.mpr ⟨hne, rfl⟩, bind_eq_ok_iff.mpr ?_⟩
    exact ⟨_, subInt_eq_ok_iff.mpr ⟨hdefined, rfl⟩, rfl⟩

/-! ## The header -/

/-- What is unread, as an `int`, is less than one; or the ring has a positive size, and
what is read of it ends in `data`. -/
def Sane (first second : RingBuffer) : Prop :=
  let unread := Int.bmod (first.writePosition.toNat - first.readPosition.toNat) (2 ^ 32)
  let position := second.readPosition.toNat % second.size.toInt.toNat
  unread < 1 ∨
    (0 < second.size.toInt ∧
      position + min (min unread.toNat 8192) (second.size.toInt.toNat - position) ≤ 65536)

/-- A ring that is no longer than `data` is sane, wherever its positions are. -/
theorem sane_of_size_le {first second : RingBuffer} (hpos : 0 < second.size.toInt)
    (hle : second.size.toInt ≤ 65536) : Sane first second := by
  refine Or.inr ⟨hpos, ?_⟩
  have hmod := Nat.mod_lt second.readPosition.toNat (show 0 < second.size.toInt.toNat by omega)
  omega

theorem toInt_bytesAvailable (buffer : RingBuffer) :
    buffer.bytesAvailable.toInt =
      Int.bmod (buffer.writePosition.toNat - buffer.readPosition.toNat) (2 ^ 32) := by
  have hread := buffer.readPosition.toNat_lt
  have hlow : (((2 ^ 64 - buffer.readPosition.toNat + buffer.writePosition.toNat) % 2 ^ 64 : Nat)
      : Int) % (2 ^ 32 : Nat) =
        (buffer.writePosition.toNat - buffer.readPosition.toNat : Int) % (2 ^ 32 : Nat) := by
    omega
  rw [bytesAvailable, UInt64.toInt_asInt_eq_bmod, UInt64.toNat_sub, Int.bmod, Int.bmod, hlow]

variable {buffer : RingBuffer} {n : Int32}

theorem asUInt64_size_ne_zero_iff : Int32.asUInt64 buffer.size ≠ 0 ↔ buffer.size.toInt ≠ 0 := by
  refine not_congr ?_
  have hzero : (0 : UInt64) = (0 : Int64).toUInt64 := rfl
  rw [← Int32.toInt_toInt64, Int32.asUInt64, hzero, ← Int64.toInt_zero, Int64.toInt_inj]
  constructor
  · intro h
    simpa using congrArg UInt64.toInt64 h
  · intro h
    rw [h]

/-- Where the size is positive, a region of the ring is read. -/
theorem readStart_of_pos (hsize : 0 < buffer.size.toInt) :
    let position := buffer.readPosition.toNat % buffer.size.toInt.toNat
    (buffer.readStart n).1.toInt = position ∧
      (buffer.readStart n).2.toInt = min n.toInt (buffer.size.toInt - position) := by
  intro position
  have hrange := Int32.toInt_range buffer.size
  have hlt : position < buffer.size.toInt.toNat := Nat.mod_lt _ (by omega)
  have hmod : (buffer.readPosition % Int32.asUInt64 buffer.size).toNat = position := by
    rw [UInt64.toNat_mod, Int32.toNat_asUInt64 hsize.le]
  have hposition : (buffer.readStart n).1.toInt = position := by
    rw [readStart, UInt64.toInt_asInt (by omega), hmod]
  refine ⟨hposition, ?_⟩
  have hroom : (buffer.size - (buffer.readStart n).1).toInt = buffer.size.toInt - position := by
    rw [Int32.toInt_sub_of_range (by omega) (by omega), hposition]
  show (if n > buffer.size - (buffer.readStart n).1 then buffer.size - (buffer.readStart n).1
    else n).toInt = _
  split <;> rename_i h <;> rw [gt_iff_lt, Int32.lt_iff_toInt_lt] at h <;> omega

/-- Where the size is negative, what is read has a negative offset or a negative length. -/
theorem readStart_of_neg (hsize : buffer.size.toInt < 0)
    (hdefined : Defined (buffer.size.toInt - (buffer.readStart n).1.toInt)) :
    (buffer.readStart n).1.toInt < 0 ∨ (buffer.readStart n).2.toInt < 0 := by
  by_cases hposition : (buffer.readStart n).1.toInt < 0
  · exact Or.inl hposition
  · refine Or.inr ?_
    have hroom : (buffer.size - (buffer.readStart n).1).toInt < 0 := by
      rw [Int32.toInt_sub_of_range hdefined.1 hdefined.2]
      omega
    show (if n > buffer.size - (buffer.readStart n).1 then buffer.size - (buffer.readStart n).1
      else n).toInt < 0
    split <;> rename_i h <;> rw [gt_iff_lt, Int32.lt_iff_toInt_lt] at h <;> omega

end RingBuffer

namespace Player

/-- `sparkle_player::check` up to the call of `Enqueue`. The first header is the one that
`were1_ring_buffer_bytes_available` finds, the second the one that
`were1_ring_buffer_read_start` finds. -/
def sharedCheck (player : Player) (first second : RingBuffer) :
    Except Undefined (Option EnqueueArguments) :=
  if player.state = playStatePlaying ∧ player.playing = 0 ∧ player.hasBuffer = true then
    let n := first.bytesAvailable
    if n < 1 then return none
    else do
      let n := if n > 8192 then 8192 else n
      let region ← second.sharedReadStart n
      return some ⟨region.1, region.2.toUInt32⟩
  else return none

/-- Nothing is enqueued, or a region inside `data`. -/
def EnqueuesInside : Except Undefined (Option EnqueueArguments) → Prop
  | .error _ => False
  | .ok none => True
  | .ok (some e) => e.Inside

/-- `check` itself enqueues what is computed here, if the header stays as it is. -/
theorem check_of_sharedCheck {player : Player} {buffer : RingBuffer} {e : EnqueueArguments}
    (h : player.sharedCheck buffer buffer = .ok (some e)) :
    ∃ entry, (player.check buffer).queue = player.queue.enqueue entry ∧
      entry.offset = e.offset.toInt.toNat ∧ (player.check buffer).playing.toUInt32 = e.size := by
  unfold sharedCheck at h
  split at h
  · rename_i hidle
    dsimp only at h
    split at h
    · cases h
    · rename_i hsome
      obtain ⟨region, hregion, hargs⟩ := bind_eq_ok_iff.mp h
      obtain ⟨-, -, rfl⟩ := RingBuffer.sharedReadStart_eq_ok_iff.mp hregion
      cases hargs
      rw [check, if_pos hidle]
      dsimp only
      rw [if_neg hsome]
      exact ⟨_, rfl, rfl, rfl⟩
  · cases h

/-- What is enqueued lies inside if its two numbers, as they were before the conversion,
do. -/
theorem inside_toUInt32_iff {offset length : Int32} :
    (EnqueueArguments.mk offset length.toUInt32).Inside ↔
      0 ≤ offset.toInt ∧ 0 < length.toInt ∧ offset.toInt + length.toInt ≤ 65536 := by
  show 0 ≤ offset.toInt ∧ 0 < length.toUInt32.toNat ∧
    offset.toInt + length.toUInt32.toNat ≤ 65536 ↔ _
  have hrange := Int32.toInt_range length
  by_cases hneg : length.toInt < 0
  · have hvalue := Int32.toNat_toUInt32_of_neg hneg
    omega
  · have hvalue := Int32.toNat_toUInt32 (Int.not_lt.mp hneg)
    omega

/-- The region that is read lies in `data`. -/
def ReadsInside (buffer : RingBuffer) (n : Int32) : Prop :=
  0 < buffer.size.toInt ∧
    let position := buffer.readPosition.toNat % buffer.size.toInt.toNat
    position + min n.toInt.toNat (buffer.size.toInt.toNat - position) ≤ 65536

theorem sharedReadStart_inside_iff {buffer : RingBuffer} {n : Int32} (hn : 0 < n.toInt) :
    (∃ region, buffer.sharedReadStart n = .ok region ∧
      (EnqueueArguments.mk region.1 region.2.toUInt32).Inside) ↔ ReadsInside buffer n := by
  simp only [RingBuffer.sharedReadStart_eq_ok_iff, inside_toUInt32_iff]
  have hrange := Int32.toInt_range buffer.size
  constructor
  · rintro ⟨region, ⟨hne, hdefined, rfl⟩, hoffset, hlength, hend⟩
    have hnonzero := RingBuffer.asUInt64_size_ne_zero_iff.mp hne
    have hpos : 0 < buffer.size.toInt := by
      by_contra hnot
      have := RingBuffer.readStart_of_neg (show buffer.size.toInt < 0 by omega) hdefined
      omega
    obtain ⟨hposition, hread⟩ := RingBuffer.readStart_of_pos (n := n) hpos
    refine ⟨hpos, ?_⟩
    omega
  · rintro ⟨hpos, hle⟩
    obtain ⟨hposition, hread⟩ := RingBuffer.readStart_of_pos (n := n) hpos
    have hlt := Nat.mod_lt buffer.readPosition.toNat (show 0 < buffer.size.toInt.toNat by omega)
    refine ⟨_, ⟨RingBuffer.asUInt64_size_ne_zero_iff.mpr (by omega), ⟨?_, ?_⟩, rfl⟩, ?_, ?_, ?_⟩
    all_goals omega

/-- The least of the unread bytes and the 8192 that are enqueued at a time. -/
theorem toInt_clamped {n : Int32} :
    (if n > 8192 then 8192 else n).toInt = min n.toInt 8192 := by
  have hlimit : Int32.toInt 8192 = 8192 := rfl
  split <;> rename_i h <;> rw [gt_iff_lt, Int32.lt_iff_toInt_lt] at h <;> omega

theorem sane_iff {first second : RingBuffer} :
    RingBuffer.Sane first second ↔
      first.bytesAvailable.toInt < 1 ∨
        ReadsInside second
          (if first.bytesAvailable > 8192 then 8192 else first.bytesAvailable) := by
  have hunread := RingBuffer.toInt_bytesAvailable first
  have hmin (n : Int) : (min n 8192).toNat = min n.toNat 8192 := by omega
  rw [ReadsInside, toInt_clamped, hunread, hmin, RingBuffer.Sane]

/-- A playing, idle player never divides by zero, never overflows and enqueues nothing
outside `data` exactly if the header is sane. -/
theorem sharedCheck_inside_iff (player : Player) (first second : RingBuffer) :
    EnqueuesInside (player.sharedCheck first second) ↔
      (player.state = playStatePlaying ∧ player.playing = 0 ∧ player.hasBuffer = true →
        RingBuffer.Sane first second) := by
  by_cases hidle : player.state = playStatePlaying ∧ player.playing = 0 ∧ player.hasBuffer = true
  · refine Iff.trans ?_ (forall_prop_of_true hidle).symm
    rw [sharedCheck, if_pos hidle, sane_iff]
    dsimp only
    have hone : Int32.toInt 1 = 1 := rfl
    by_cases hnone : first.bytesAvailable < 1
    · rw [if_pos hnone]
      rw [Int32.lt_iff_toInt_lt, hone] at hnone
      exact iff_of_true trivial (Or.inl hnone)
    · rw [if_neg hnone]
      rw [Int32.lt_iff_toInt_lt, hone] at hnone
      have hclamped := toInt_clamped (n := first.bytesAvailable)
      rw [or_iff_right hnone, ← sharedReadStart_inside_iff (by omega)]
      cases second.sharedReadStart _ with
      | error e => simp [EnqueuesInside, bind, Except.bind]
      | ok region => simp [EnqueuesInside, bind, Except.bind, pure, Except.pure]
  · rw [sharedCheck, if_neg hidle]
    exact iff_of_true trivial fun h => absurd h hidle

/-- A player that plays, and has nothing enqueued. -/
def idle : Player := ⟨playStatePlaying, 0, true, true, ⟨[], []⟩⟩

/-- One byte to read in a ring of size 0. -/
theorem zeroSize_undefined :
    let header : RingBuffer := ⟨0, 1, 0, fun _ => 0⟩
    idle.sharedCheck header header = .error .divisionByZero ∧
      ¬ EnqueuesInside (idle.sharedCheck header header) := by
  refine ⟨by decide +kernel, ?_⟩
  intro h
  exact h

end Player

end SparkleWayland

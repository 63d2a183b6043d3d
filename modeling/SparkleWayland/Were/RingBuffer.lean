import SparkleWayland.Lib.FixedWidth
import SparkleWayland.Lib.Ring

/-!
# The shared ring buffer (`were/were1_ring_buffer.c`)

Two 64-bit positions over one data array, moved by the writer and the reader
without any check of their own. `RingBuffer.Holds` ties a ring of 65536 bytes to
stream positions that do not wrap; every operation has one lemma that says what
it does to them.
-/

namespace SparkleWayland

/-- A byte of audio data. -/
abbrev Byte := BitVec 8

/-- `struct were1_ring_buffer`. -/
structure RingBuffer where
  size : Int32
  writePosition : UInt64
  readPosition : UInt64
  data : Memory Byte

namespace RingBuffer

/-! ## The operations -/

/-- `were1_ring_buffer_initialize`. -/
def initializeRing (buffer : RingBuffer) (size : Int32) : RingBuffer :=
  { buffer with size := size, writePosition := 0, readPosition := 0 }

/-- `were1_ring_buffer_write_start`: where in `data` to write, and how much. -/
def writeStart (buffer : RingBuffer) (size : Int32) : Int32 × Int32 :=
  let writePosition := UInt64.asInt (buffer.writePosition % Int32.asUInt64 buffer.size)
  let max := buffer.size - writePosition
  (writePosition, if size > max then max else size)

/-- `were1_ring_buffer_write_finish`. -/
def writeFinish (buffer : RingBuffer) (size : Int32) : RingBuffer :=
  { buffer with writePosition := buffer.writePosition + Int32.asUInt64 size }

/-- `were1_ring_buffer_read_start`: where in `data` to read, and how much. -/
def readStart (buffer : RingBuffer) (size : Int32) : Int32 × Int32 :=
  let readPosition := UInt64.asInt (buffer.readPosition % Int32.asUInt64 buffer.size)
  let max := buffer.size - readPosition
  (readPosition, if size > max then max else size)

/-- `were1_ring_buffer_read_finish`. -/
def readFinish (buffer : RingBuffer) (size : Int32) : RingBuffer :=
  { buffer with readPosition := buffer.readPosition + Int32.asUInt64 size }

/-- `were1_ring_buffer_bytes_available`. -/
def bytesAvailable (buffer : RingBuffer) : Int32 :=
  UInt64.asInt (buffer.writePosition - buffer.readPosition)

/-- `were1_ring_buffer_reset`. -/
def reset (buffer : RingBuffer) : RingBuffer :=
  { buffer with writePosition := 0, readPosition := 0 }

/-! ## Positions that do not wrap -/

/-- A ring of 65536 bytes whose reader stands at stream position `r` and whose
writer stands at `w`, at most one ring ahead. -/
structure Holds (buffer : RingBuffer) (r w : Nat) : Prop where
  size : buffer.size = 65536
  write : buffer.writePosition = UInt64.ofNat w
  read : buffer.readPosition = UInt64.ofNat r
  le : r ≤ w
  fits : w ≤ r + 65536

variable {buffer : RingBuffer} {r w : Nat}

/-- The bytes written and not yet read. -/
def unread (buffer : RingBuffer) (r w : Nat) : List Byte :=
  buffer.data.cyclic 65536 r (w - r)

/-- The bytes between the two 64-bit positions. -/
def stored (buffer : RingBuffer) : List Byte :=
  buffer.data.cyclic 65536 buffer.readPosition.toNat
    (buffer.writePosition - buffer.readPosition).toNat

/-- Adding an `int` to a position moves it. -/
theorem ofNat_add_asUInt64 {p : Nat} {n : Int32} (h : 0 ≤ n.toInt) :
    UInt64.ofNat p + Int32.asUInt64 n = UInt64.ofNat (p + n.toInt.toNat) := by
  refine UInt64.toNat.inj ?_
  rw [UInt64.toNat_add, Int32.toNat_asUInt64 h, UInt64.toNat_ofNat', UInt64.toNat_ofNat',
    Nat.mod_add_mod]

/-- What `% size` and the conversion to `int` make of a position. -/
theorem toInt_asInt_mod (p : Nat) :
    (UInt64.asInt (UInt64.ofNat p % Int32.asUInt64 65536)).toInt = (p % 65536 : Nat) := by
  have hmod : (UInt64.ofNat p % Int32.asUInt64 65536).toNat = p % 65536 := by
    rw [UInt64.toNat_mod, UInt64.toNat_ofNat', show (Int32.asUInt64 65536).toNat = 65536 from rfl,
      Nat.mod_mod_of_dvd _ (by decide)]
  rw [UInt64.toInt_asInt (by omega), hmod]

/-- The room up to the end of the ring, as both `start` operations compute it. -/
theorem toInt_room (p : Nat) (size : Int32) :
    let position := UInt64.asInt (UInt64.ofNat p % Int32.asUInt64 65536)
    (if size > 65536 - position then 65536 - position else size).toInt =
      min size.toInt (65536 - p % 65536 : Nat) := by
  intro position
  have hpos : position.toInt = (p % 65536 : Nat) := toInt_asInt_mod p
  have hsize : Int32.toInt 65536 = 65536 := rfl
  have hroom : (65536 - position).toInt = (65536 - p % 65536 : Nat) := by
    rw [Int32.toInt_sub_of_range (by omega) (by omega), hpos, hsize]
    omega
  split <;> rename_i h <;> rw [gt_iff_lt, Int32.lt_iff_toInt_lt] at h <;> omega

namespace Holds

/-- The distance of the two 64-bit positions is the number of unread bytes. -/
theorem distance (h : buffer.Holds r w) :
    (buffer.writePosition - buffer.readPosition).toNat = w - r := by
  have hle := h.le
  have hfits := h.fits
  rw [h.write, h.read, UInt64.toNat_sub, UInt64.toNat_ofNat', UInt64.toNat_ofNat']
  omega

/-- What lies between the 64-bit positions is what is unread. -/
theorem stored (h : buffer.Holds r w) : buffer.stored = buffer.unread r w := by
  rw [RingBuffer.stored, h.distance, h.read, UInt64.toNat_ofNat']
  refine List.map_congr_left fun i _ => ?_
  rw [Nat.add_mod, Nat.mod_mod_of_dvd _ (by decide), ← Nat.add_mod]

theorem bytesAvailable (h : buffer.Holds r w) :
    buffer.bytesAvailable.toInt = (w - r : Nat) := by
  have hfits := h.fits
  rw [RingBuffer.bytesAvailable, UInt64.toInt_asInt (by rw [h.distance]; omega), h.distance]

theorem writeStart (h : buffer.Holds r w) (size : Int32) :
    (buffer.writeStart size).1.toInt = (w % 65536 : Nat) ∧
      (buffer.writeStart size).2.toInt = min size.toInt (65536 - w % 65536 : Nat) := by
  rw [RingBuffer.writeStart, h.size, h.write]
  exact ⟨toInt_asInt_mod w, toInt_room w size⟩

theorem readStart (h : buffer.Holds r w) (size : Int32) :
    (buffer.readStart size).1.toInt = (r % 65536 : Nat) ∧
      (buffer.readStart size).2.toInt = min size.toInt (65536 - r % 65536 : Nat) := by
  rw [RingBuffer.readStart, h.size, h.read]
  exact ⟨toInt_asInt_mod r, toInt_room r size⟩

theorem writeFinish (h : buffer.Holds r w) {n : Int32} (h0 : 0 ≤ n.toInt)
    (hfit : w + n.toInt.toNat ≤ r + 65536) :
    (buffer.writeFinish n).Holds r (w + n.toInt.toNat) where
  size := h.size
  write := by rw [RingBuffer.writeFinish, h.write, ofNat_add_asUInt64 h0]
  read := h.read
  le := Nat.le_add_right_of_le h.le
  fits := hfit

theorem readFinish (h : buffer.Holds r w) {n : Int32} (h0 : 0 ≤ n.toInt)
    (hle : r + n.toInt.toNat ≤ w) :
    (buffer.readFinish n).Holds (r + n.toInt.toNat) w where
  size := h.size
  write := h.write
  read := by rw [RingBuffer.readFinish, h.read, ofNat_add_asUInt64 h0]
  le := hle
  fits := Nat.le_trans h.fits (by omega)

theorem reset (h : buffer.Holds r w) : buffer.reset.Holds 0 0 where
  size := h.size
  write := rfl
  read := rfl
  le := Nat.le_refl _
  fits := Nat.zero_le _

/-- The data array plays no part. -/
theorem withData (h : buffer.Holds r w) (data : Memory Byte) :
    ({ buffer with data := data } : RingBuffer).Holds r w where
  size := h.size
  write := h.write
  read := h.read
  le := h.le
  fits := h.fits

end Holds

end RingBuffer

end SparkleWayland

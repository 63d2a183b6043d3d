import SparkleWayland.Lib.Memory
import SparkleWayland.Lib.Overwrite

/-!
# Uploading a damaged rectangle (`were/were_upload.cpp`)

The three entries of the `uploader` table. Each walks the rows `y1 ≤ y < y2` in
`uint32_t` arithmetic; `uploader_0` copies a run of bytes per row, `uploader_1`
and `uploader_2` walk a row in 64-bit words, two pixels at a time. The loops
kept under `#if 0` in the same functions, one pixel per 32-bit word, are
`uploader1Pixels` and `uploader2Pixels`.

An image is a byte memory seen through its base pointer. The two row loops are
one definition with the per-word operation as a parameter.
-/

namespace SparkleWayland

/-- The values of `y` in `for (uint32_t y = y1; y < y2; ++y)`. -/
def rows (y1 y2 : UInt32) : List UInt32 :=
  (List.range' y1.toNat (y2.toNat - y1.toNat)).map UInt32.ofNat

theorem mem_rows {y1 y2 y : UInt32} :
    y ∈ rows y1 y2 ↔ y1.toNat ≤ y.toNat ∧ y.toNat < y2.toNat := by
  have h2 := y2.toNat_lt
  constructor
  · intro h
    obtain ⟨n, hn, rfl⟩ := List.mem_map.mp h
    rw [List.mem_range'_1] at hn
    rw [UInt32.toNat_ofNat_of_lt' (show n < 2 ^ 32 by omega)]
    omega
  · rintro ⟨hl, hu⟩
    exact List.mem_map.mpr ⟨y.toNat, List.mem_range'_1.mpr (by omega), UInt32.ofNat_toNat⟩

/-- The rows are visited in increasing order. -/
theorem rows_pairwise (y1 y2 : UInt32) : (rows y1 y2).Pairwise (·.toNat < ·.toNat) := by
  have h2 := y2.toNat_lt
  refine List.pairwise_map.mpr (List.Pairwise.imp_of_mem ?_ (List.pairwise_lt_range' _))
  intro a b ha hb hab
  rw [List.mem_range'_1] at ha hb
  rw [UInt32.toNat_ofNat_of_lt' (show a < 2 ^ 32 by omega),
    UInt32.toNat_ofNat_of_lt' (show b < 2 ^ 32 by omega)]
  exact hab

/-! ## `uploader_0`: one `memcpy` a row -/

/-- The arguments of one `memcpy`, as offsets into the two images. -/
structure CopyCall where
  destination : Nat
  source : Nat
  length : Nat
  deriving DecidableEq, Repr

/-- The `memcpy` of row `y`. The products and `length` are `uint32_t`; the sums
are pointer arithmetic. -/
def uploader0Row (sourceStrideBytes destinationStrideBytes : Int32) (x1 x2 y : UInt32) :
    CopyCall :=
  let offset := x1 * 4
  let length := (x2 - x1) * 4
  { destination := (destinationStrideBytes.toUInt32 * y).toNat + offset.toNat
    source := (sourceStrideBytes.toUInt32 * y).toNat + offset.toNat
    length := length.toNat }

/-- Every `memcpy` that `uploader_0` makes, in order. -/
def uploader0Copies (sourceStrideBytes destinationStrideBytes : Int32)
    (x1 y1 x2 y2 : UInt32) : List CopyCall :=
  (rows y1 y2).map (uploader0Row sourceStrideBytes destinationStrideBytes x1 x2)

/-- `uploader_0`. -/
def uploader0 (destination source : Memory (BitVec 8))
    (sourceStrideBytes destinationStrideBytes : Int32) (x1 y1 x2 y2 : UInt32) :
    Memory (BitVec 8) :=
  (uploader0Copies sourceStrideBytes destinationStrideBytes x1 y1 x2 y2).foldl
    (fun dst c => dst.copy source c.destination c.source c.length) destination

/-- One `memcpy` overwrites the bytes of its destination range. -/
theorem copyCall_overwrites (source : Memory (BitVec 8)) :
    Overwrites (fun (m : Memory (BitVec 8)) p => m p)
      (fun m (c : CopyCall) => m.copy source c.destination c.source c.length)
      (fun c p => c.destination ≤ p ∧ p < c.destination + c.length)
      (fun c p => source (c.source + (p - c.destination))) where
  hit _ _ _ h := if_pos h
  miss _ _ _ h := if_neg h

/-! ## `uploader_1` and `uploader_2`: two pixels per 64-bit word -/

/-- One row of the active loop: 64-bit words `x1 / 2 ≤ x < (x2 + 1) / 2` counted
from the row base `stride * y / 8`. -/
def wordRow (f : BitVec 64 → BitVec 64) (source : Memory (BitVec 8))
    (sourceStrideBytes destinationStrideBytes : Int32) (x1 x2 : UInt32)
    (destination : Memory (BitVec 8)) (y : UInt32) : Memory (BitVec 8) :=
  let sourceBase := (sourceStrideBytes.toUInt32 * y / 8).toNat
  let destinationBase := (destinationStrideBytes.toUInt32 * y / 8).toNat
  (rows (x1 / 2) ((x2 + 1) / 2)).foldl
    (fun dst x => dst.store64 (8 * (destinationBase + x.toNat))
      (f (source.load64 (8 * (sourceBase + x.toNat))))) destination

/-- The active loop of `uploader_1` and `uploader_2`. -/
def wordUploader (f : BitVec 64 → BitVec 64) (destination source : Memory (BitVec 8))
    (sourceStrideBytes destinationStrideBytes : Int32) (x1 y1 x2 y2 : UInt32) :
    Memory (BitVec 8) :=
  (rows y1 y2).foldl (wordRow f source sourceStrideBytes destinationStrideBytes x1 x2)
    destination

/-- What `uploader_1` does to a word: both alpha bytes are set. -/
def alphaWord (v : BitVec 64) : BitVec 64 := v ||| 0xFF000000FF000000#64

/-- What `uploader_2` does to a word: red and blue of both pixels are swapped. -/
def swapWord (v : BitVec 64) : BitVec 64 :=
  ((v >>> 16) &&& 0x000000FF000000FF#64) |||
  ((v <<< 0) &&& 0x0000FF000000FF00#64) |||
  ((v <<< 16) &&& 0x00FF000000FF0000#64)

/-- `uploader_1`. -/
def uploader1 := wordUploader alphaWord

/-- `uploader_2`. -/
def uploader2 := wordUploader swapWord

/-! ## The loops under `#if 0`: one pixel per 32-bit word -/

/-- One row of the disabled loop. Its `y` and `x` are `int`, so that the row base
`stride * y / 4` is a signed product, which does not wrap. -/
def pixelRow (f : BitVec 32 → BitVec 32) (source : Memory (BitVec 8))
    (sourceStrideBytes destinationStrideBytes : Int32) (x1 x2 : UInt32)
    (destination : Memory (BitVec 8)) (y : UInt32) : Memory (BitVec 8) :=
  let sourceBase := (sourceStrideBytes.toInt * y.toNat / 4).toNat
  let destinationBase := (destinationStrideBytes.toInt * y.toNat / 4).toNat
  (rows x1 x2).foldl
    (fun dst x => dst.store32 (4 * (destinationBase + x.toNat))
      (f (source.load32 (4 * (sourceBase + x.toNat))))) destination

/-- The disabled loop of `uploader_1` and `uploader_2`. -/
def pixelUploader (f : BitVec 32 → BitVec 32) (destination source : Memory (BitVec 8))
    (sourceStrideBytes destinationStrideBytes : Int32) (x1 y1 x2 y2 : UInt32) :
    Memory (BitVec 8) :=
  (rows y1 y2).foldl (pixelRow f source sourceStrideBytes destinationStrideBytes x1 x2)
    destination

/-- `source | 0xFF000000`. -/
def alphaPixel (v : BitVec 32) : BitVec 32 := v ||| 0xFF000000#32

/-- Red and blue swapped, the top byte zero. -/
def swapPixel (v : BitVec 32) : BitVec 32 :=
  ((v >>> 16) &&& 0x000000FF#32) |||
  ((v <<< 0) &&& 0x0000FF00#32) |||
  ((v <<< 16) &&& 0x00FF0000#32)

/-- The `#if 0` loop of `uploader_1`. -/
def uploader1Pixels := pixelUploader alphaPixel

/-- The `#if 0` loop over 32-bit words of `uploader_2`. -/
def uploader2Pixels := pixelUploader swapPixel

end SparkleWayland

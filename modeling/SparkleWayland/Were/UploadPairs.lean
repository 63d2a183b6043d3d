import SparkleWayland.Lib.FixedWidth
import SparkleWayland.Lib.Overwrite
import SparkleWayland.Were.Upload
import Mathlib.Tactic.IntervalCases
import Mathlib.Tactic.Linarith

/-!
# Two pixels per word against one pixel per word

`uploader_1` and `uploader_2` walk 64-bit words, the loops they replace walk
32-bit words. The row base `stride * y / 8` drops half a word when `stride * y`
is an odd multiple of four bytes, on the source and the destination
independently, so that the two agree only for some strides and rectangles.
`UploadInput.PairSafe` says which, and `wordUploader_agrees_iff` that it is
exact. Images are looked at pixel by pixel: pixel `p` is the 32-bit word at byte
offset `4 * p`.
-/

namespace SparkleWayland

/-! ## Pixels of an image -/

/-- The 32-bit pixel with linear index `p`. -/
def pixel (m : Memory (BitVec 8)) (p : Nat) : BitVec 32 := m.load32 (4 * p)

theorem pixel_store32 (m : Memory (BitVec 8)) (k p : Nat) (v : BitVec 32) :
    pixel (m.store32 (4 * k) v) p = if p = k then v else pixel m p := by
  unfold pixel
  by_cases h : p = k
  · rw [if_pos h, h, Memory.load32_store32]
  · rw [if_neg h, Memory.load32_store32_of_disjoint _ _ (by omega)]

/-- A 64-bit operation that treats the two pixels of a word alike. -/
def PairsOf (f : BitVec 64 → BitVec 64) (g : BitVec 32 → BitVec 32) : Prop :=
  ∀ hi lo : BitVec 32, f (hi ++ lo) = g hi ++ g lo

/-- Storing a transformed word stores two transformed pixels. -/
theorem pixel_store64 {f : BitVec 64 → BitVec 64} {g : BitVec 32 → BitVec 32}
    (hf : PairsOf f g) (m src : Memory (BitVec 8)) (k j p : Nat) :
    pixel (m.store64 (8 * k) (f (src.load64 (8 * j)))) p =
      if p / 2 = k then g (pixel src (2 * j + p % 2)) else pixel m p := by
  rw [Memory.load64, hf]
  by_cases h : p / 2 = k
  · rw [if_pos h]
    rcases Nat.mod_two_eq_zero_or_one p with h0 | h1
    · have hp : 4 * p = 8 * k := by omega
      rw [pixel, hp, Memory.load32_store64_low, BitVec.extractLsb'_append_eq_right, h0, pixel,
        show 4 * (2 * j + 0) = 8 * j by omega]
    · have hp : 4 * p = 8 * k + 4 := by omega
      rw [pixel, hp, Memory.load32_store64_high, BitVec.extractLsb'_append_eq_left, h1, pixel,
        show 4 * (2 * j + 1) = 8 * j + 4 by omega]
  · rw [if_neg h, pixel, Memory.load32_store64_of_disjoint _ _ (by omega), pixel]

/-! ## The two operations, word by word and pixel by pixel -/

theorem alphaWord_pairs : PairsOf alphaWord alphaPixel := by
  intro hi lo
  have mask : 0xFF000000FF000000#64 = 0xFF000000#32 ++ 0xFF000000#32 := by decide
  rw [alphaWord, mask, BitVec.or_append]
  rfl

theorem shl_and_low (v : BitVec 32) : v <<< 16 &&& 0x000000FF#32 = 0#32 := by
  refine BitVec.eq_of_getLsbD_eq fun i hi => ?_
  interval_cases i <;> simp

theorem ushr_and_high (v : BitVec 32) : v >>> 16 &&& 0x00FF0000#32 = 0#32 := by
  refine BitVec.eq_of_getLsbD_eq fun i hi => ?_
  interval_cases i <;> simp

theorem append_ushr (hi lo : BitVec 32) :
    (hi ++ lo) >>> 16 = (hi >>> 16) ++ (lo >>> 16 ||| hi <<< 16) := by
  refine BitVec.eq_of_getLsbD_eq fun i h => ?_
  simp only [BitVec.getLsbD_append, BitVec.getLsbD_ushiftRight, BitVec.getLsbD_or,
    BitVec.getLsbD_shiftLeft]
  grind

theorem append_shl (hi lo : BitVec 32) :
    (hi ++ lo) <<< 16 = (hi <<< 16 ||| lo >>> 16) ++ (lo <<< 16) := by
  refine BitVec.eq_of_getLsbD_eq fun i h => ?_
  simp only [BitVec.getLsbD_append, BitVec.getLsbD_ushiftRight, BitVec.getLsbD_or,
    BitVec.getLsbD_shiftLeft]
  grind

/-- The masks cut away what a shift carries from one pixel into the other. -/
theorem swapWord_pairs : PairsOf swapWord swapPixel := by
  intro hi lo
  have m1 : 0x000000FF000000FF#64 = 0x000000FF#32 ++ 0x000000FF#32 := by decide
  have m2 : 0x0000FF000000FF00#64 = 0x0000FF00#32 ++ 0x0000FF00#32 := by decide
  have m3 : 0x00FF000000FF0000#64 = 0x00FF0000#32 ++ 0x00FF0000#32 := by decide
  have s0 : (hi ++ lo) <<< 0 = hi <<< 0 ++ lo <<< 0 := by simp only [BitVec.shiftLeft_zero]
  rw [swapWord, append_ushr, append_shl, s0, m1, m2, m3, BitVec.and_append, BitVec.and_append,
    BitVec.and_append, BitVec.or_append, BitVec.or_append, BitVec.and_or_distrib_right,
    BitVec.and_or_distrib_right, shl_and_low, ushr_and_high, BitVec.or_zero, BitVec.or_zero]
  rfl

/-! ## Inputs of an upload -/

/-- The arguments of an upload, with what their callers promise: strides that are
positive multiples of four and at least `4 * width`, images below 4 GiB, and a
rectangle inside the image. -/
structure UploadInput where
  sourceStride : Int32
  destinationStride : Int32
  width : Nat
  height : Nat
  x1 : UInt32
  y1 : UInt32
  x2 : UInt32
  y2 : UInt32
  source_pos : 0 < sourceStride.toInt
  source_dvd : 4 ∣ sourceStride.toInt
  source_width : 4 * (width : Int) ≤ sourceStride.toInt
  source_size : sourceStride.toInt * height < 2 ^ 32
  destination_pos : 0 < destinationStride.toInt
  destination_dvd : 4 ∣ destinationStride.toInt
  destination_width : 4 * (width : Int) ≤ destinationStride.toInt
  destination_size : destinationStride.toInt * height < 2 ^ 32
  x1_le : x1.toNat ≤ x2.toNat
  x2_le : x2.toNat ≤ width
  y1_le : y1.toNat ≤ y2.toNat
  y2_le : y2.toNat ≤ height

/-- The type of the entries of `uploader[]`. -/
abbrev Uploader :=
  Memory (BitVec 8) → Memory (BitVec 8) → Int32 → Int32 → UInt32 → UInt32 → UInt32 → UInt32 →
    Memory (BitVec 8)

namespace UploadInput

/-- Run an uploader on this input. -/
def run (i : UploadInput) (u : Uploader) (dst src : Memory (BitVec 8)) : Memory (BitVec 8) :=
  u dst src i.sourceStride i.destinationStride i.x1 i.y1 i.x2 i.y2

/-- The destination pixel at column `x` of row `y`. -/
def destinationPixel (i : UploadInput) (m : Memory (BitVec 8)) (x y : Nat) : BitVec 32 :=
  m.load32 (i.destinationStride.toInt.toNat * y + 4 * x)

/-- The column and row lie in the rectangle. -/
def Inside (i : UploadInput) (x y : Nat) : Prop :=
  i.x1.toNat ≤ x ∧ x < i.x2.toNat ∧ i.y1.toNat ≤ y ∧ y < i.y2.toNat

/-- On every pair of images, both uploaders store the same value in every
destination pixel of the rectangle. -/
def Agree (i : UploadInput) (fast slow : Uploader) : Prop :=
  ∀ dst src : Memory (BitVec 8), ∀ x y, i.Inside x y →
    i.destinationPixel (i.run fast dst src) x y = i.destinationPixel (i.run slow dst src) x y

/-- When walking 64-bit words is right: the rectangle has no odd row (or no
pixel at all), or both strides are multiples of eight, or neither is and the
right edge is odd; in the last case a rectangle that reaches from the first two
columns to the end of the destination row, with an even row above an odd one,
also needs equal strides. -/
def PairSafe (i : UploadInput) : Prop :=
  i.x2.toNat ≤ i.x1.toNat ∨
  (∀ y, i.y1.toNat ≤ y → y < i.y2.toNat → y % 2 = 0) ∨
  (8 ∣ i.sourceStride.toInt ∧ 8 ∣ i.destinationStride.toInt) ∨
  (¬ 8 ∣ i.sourceStride.toInt ∧ ¬ 8 ∣ i.destinationStride.toInt ∧ i.x2.toNat % 2 = 1 ∧
    (i.sourceStride = i.destinationStride ∨
      ¬ (i.x1.toNat ≤ 1 ∧ 4 * (i.x2.toNat : Int) = i.destinationStride.toInt ∧
        ∃ y, y % 2 = 0 ∧ i.y1.toNat ≤ y ∧ y + 1 < i.y2.toNat)))

/-! ## The geometry in pixels -/

/-- Pixels from one source row to the next. -/
def sourcePitch (i : UploadInput) : Nat := i.sourceStride.toInt.toNat / 4

/-- Pixels from one destination row to the next. -/
def destinationPitch (i : UploadInput) : Nat := i.destinationStride.toInt.toNat / 4

variable (i : UploadInput)

theorem sourceStride_eq : i.sourceStride.toInt = 4 * (i.sourcePitch : Int) := by
  have := i.source_pos
  have := i.source_dvd
  unfold sourcePitch
  omega

theorem destinationStride_eq : i.destinationStride.toInt = 4 * (i.destinationPitch : Int) := by
  have := i.destination_pos
  have := i.destination_dvd
  unfold destinationPitch
  omega

theorem destinationPixel_eq (m : Memory (BitVec 8)) (x y : Nat) :
    i.destinationPixel m x y = pixel m (i.destinationPitch * y + x) := by
  have h := i.destinationStride_eq
  have hs : i.destinationStride.toInt.toNat = 4 * i.destinationPitch := by omega
  rw [destinationPixel, pixel, hs, Nat.mul_add, Nat.mul_assoc]

theorem x2_le_destinationPitch : i.x2.toNat ≤ i.destinationPitch := by
  have := i.destinationStride_eq
  have := i.destination_width
  have := i.x2_le
  omega

theorem destinationPitch_pos : 0 < i.destinationPitch := by
  have := i.destinationStride_eq
  have := i.destination_pos
  omega

/-- Products of a stride and a row number do not wrap. -/
theorem stride_mul_lt {stride : Int32} {pitch height y : Nat}
    (hs : stride.toInt = 4 * (pitch : Int)) (hsize : stride.toInt * height < 2 ^ 32)
    (hy : y < height) : 4 * pitch * y < 2 ^ 32 := by
  have h1 : 4 * pitch * y ≤ 4 * pitch * height := Nat.mul_le_mul_left _ (Nat.le_of_lt hy)
  have h2 : ((4 * pitch * height : Nat) : Int) < 2 ^ 32 := by
    push_cast
    rw [← hs]
    exact hsize
  omega

/-- The `uint32_t` row base in 64-bit words. -/
theorem wordBase_eq {stride : Int32} {pitch height : Nat} {y : UInt32}
    (hs : stride.toInt = 4 * (pitch : Int)) (hsize : stride.toInt * height < 2 ^ 32)
    (hy : y.toNat < height) :
    (stride.toUInt32 * y / 8).toNat = pitch * y.toNat / 2 := by
  have hlt := stride_mul_lt hs hsize hy
  have h0 : stride.toUInt32.toNat = 4 * pitch := by
    rw [Int32.toNat_toUInt32 (by omega)]
    omega
  rw [UInt32.toNat_div, UInt32.toNat_mul_of_lt (by rw [h0]; exact hlt), h0, Nat.mul_assoc]
  show 4 * (pitch * y.toNat) / 8 = _
  omega

/-- The row base of the disabled loop, in pixels. -/
theorem pixelBase_eq {stride : Int32} {pitch : Nat} {y : Nat}
    (hs : stride.toInt = 4 * (pitch : Int)) :
    (stride.toInt * y / 4).toNat = pitch * y := by
  rw [hs, Int.mul_assoc, Int.mul_ediv_cancel_left _ (by decide), ← Int.natCast_mul,
    Int.toNat_natCast]

/-- The rounded-up half of the right edge. -/
theorem half_x2 : ((i.x2 + 1) / 2).toNat = (i.x2.toNat + 1) / 2 := by
  have h1 := i.x2_le_destinationPitch
  have h2 := i.destinationStride_eq
  have h3 := (Int32.toInt_range i.destinationStride).2
  rw [UInt32.toNat_div, UInt32.toNat_add_of_lt (show _ + 1 < _ by omega)]
  rfl

theorem half_x1 : (i.x1 / 2).toNat = i.x1.toNat / 2 := by
  rw [UInt32.toNat_div]
  rfl

/-! ## The word loop, position by position -/

/-- Row `y` of the word loop covers pixel `p`. -/
def WordCovers (y p : Nat) : Prop :=
  i.destinationPitch * y / 2 + i.x1.toNat / 2 ≤ p / 2 ∧
    p / 2 < i.destinationPitch * y / 2 + (i.x2.toNat + 1) / 2

/-- The source pixel that row `y` of the word loop uses for pixel `p`. -/
def wordSource (y p : Nat) : Nat :=
  2 * (i.sourcePitch * y / 2) + (p - 2 * (i.destinationPitch * y / 2))

/-- The word loop overwrites, row by row, pairs of pixels. -/
theorem wordRow_overwrites {f : BitVec 64 → BitVec 64} {g : BitVec 32 → BitVec 32}
    (hf : PairsOf f g) (src : Memory (BitVec 8)) (S D : Int32) (x1 x2 : UInt32) :
    Overwrites pixel (wordRow f src S D x1 x2)
      (fun y p => ∃ x ∈ rows (x1 / 2) ((x2 + 1) / 2),
        p / 2 = (D.toUInt32 * y / 8).toNat + x.toNat)
      (fun y p => g (pixel src (2 * (S.toUInt32 * y / 8).toNat +
        (p - 2 * (D.toUInt32 * y / 8).toNat)))) := by
  refine Overwrites.foldl _ _ (fun y => (⟨?_, ?_⟩ : Overwrites pixel _
    (fun (x : UInt32) p => p / 2 = (D.toUInt32 * y / 8).toNat + x.toNat)
    (fun x p => g (pixel src (2 * ((S.toUInt32 * y / 8).toNat + x.toNat) + p % 2))))) ?_
  · intro m x p hc
    rw [pixel_store64 hf, if_pos hc]
  · intro m x p hc
    rw [pixel_store64 hf, if_neg hc]
  · intro y x _ p hc
    show g (pixel src _) = g (pixel src _)
    congr 2
    omega

theorem wordCovers_iff {y : UInt32} (hy : y.toNat < i.height) (p : Nat) :
    (∃ x ∈ rows (i.x1 / 2) ((i.x2 + 1) / 2),
        p / 2 = (i.destinationStride.toUInt32 * y / 8).toNat + x.toNat) ↔
      i.WordCovers y.toNat p := by
  rw [wordBase_eq i.destinationStride_eq i.destination_size hy, WordCovers]
  constructor
  · rintro ⟨x, hx, hp⟩
    rw [mem_rows, i.half_x1, i.half_x2] at hx
    omega
  · rintro ⟨hl, hu⟩
    have hb := i.x2_le_destinationPitch
    have hs := i.destinationStride_eq
    have hr := (Int32.toInt_range i.destinationStride).2
    have hx : (UInt32.ofNat (p / 2 - i.destinationPitch * y.toNat / 2)).toNat =
        p / 2 - i.destinationPitch * y.toNat / 2 :=
      UInt32.toNat_ofNat_of_lt' (show _ < 2 ^ 32 by omega)
    refine ⟨UInt32.ofNat (p / 2 - i.destinationPitch * y.toNat / 2), mem_rows.mpr ?_, ?_⟩
    · rw [hx, i.half_x1, i.half_x2]
      omega
    · rw [hx]
      omega

section Loop

variable {f : BitVec 64 → BitVec 64} {g : BitVec 32 → BitVec 32} (hf : PairsOf f g)
  (dst src : Memory (BitVec 8))
include hf

/-- After the word loop a pixel holds what the last row covering it stored. -/
theorem pixel_wordUploader_of_last {y p : Nat} (hl : i.y1.toNat ≤ y) (hu : y < i.y2.toNat)
    (hc : i.WordCovers y p) (hlast : ∀ z, y < z → z < i.y2.toNat → ¬ i.WordCovers z p) :
    pixel (i.run (wordUploader f) dst src) p = g (pixel src (i.wordSource y p)) := by
  have hy2 := i.y2_le
  have hlt := i.y2.toNat_lt
  have hy : (UInt32.ofNat y).toNat = y := UInt32.toNat_ofNat_of_lt' (show y < 2 ^ 32 by omega)
  have hyh : (UInt32.ofNat y).toNat < i.height := by omega
  refine ((wordRow_overwrites hf src _ _ _ _).foldl_hit dst (rows_pairwise _ _)
    (mem_rows.mpr (by rw [hy]; exact ⟨hl, hu⟩))
    ((i.wordCovers_iff hyh p).mpr (hy.symm ▸ hc)) ?_).trans ?_
  · intro z hz hyz hcz
    have hzr := mem_rows.mp hz
    rw [hy] at hyz
    exact hlast z.toNat hyz hzr.2 ((i.wordCovers_iff (by omega) p).mp hcz)
  · show g (pixel src _) = g (pixel src _)
    rw [wordBase_eq i.destinationStride_eq i.destination_size hyh,
      wordBase_eq i.sourceStride_eq i.source_size hyh, hy, wordSource]

/-- A pixel no row covers keeps its value. -/
theorem pixel_wordUploader_of_miss {p : Nat}
    (hmiss : ∀ z, i.y1.toNat ≤ z → z < i.y2.toNat → ¬ i.WordCovers z p) :
    pixel (i.run (wordUploader f) dst src) p = pixel dst p := by
  have hy2 := i.y2_le
  refine (wordRow_overwrites hf src _ _ _ _).foldl_miss dst fun z hz hcz => ?_
  have hzr := mem_rows.mp hz
  exact hmiss z.toNat hzr.1 hzr.2 ((i.wordCovers_iff (by omega) p).mp hcz)

end Loop

/-! ## The pixel loop -/

/-- The pixel loop overwrites, row by row, the pixels of the rectangle. -/
theorem pixelRow_overwrites (g : BitVec 32 → BitVec 32) (src : Memory (BitVec 8)) :
    Overwrites pixel (pixelRow g src i.sourceStride i.destinationStride i.x1 i.x2)
      (fun y p => ∃ x ∈ rows i.x1 i.x2, p = i.destinationPitch * y.toNat + x.toNat)
      (fun y p =>
        g (pixel src (i.sourcePitch * y.toNat + (p - i.destinationPitch * y.toNat)))) := by
  have hd : ∀ y : UInt32, (i.destinationStride.toInt * y.toNat / 4).toNat =
      i.destinationPitch * y.toNat := fun y => pixelBase_eq i.destinationStride_eq
  have hs : ∀ y : UInt32, (i.sourceStride.toInt * y.toNat / 4).toNat =
      i.sourcePitch * y.toNat := fun y => pixelBase_eq i.sourceStride_eq
  unfold pixelRow
  simp only [hd, hs]
  refine Overwrites.foldl _ _ (fun y => (⟨?_, ?_⟩ : Overwrites pixel _
    (fun (x : UInt32) p => p = i.destinationPitch * y.toNat + x.toNat)
    (fun x _ => g (pixel src (i.sourcePitch * y.toNat + x.toNat))))) ?_
  · intro m x p hc
    exact (pixel_store32 m _ p _).trans (if_pos hc)
  · intro m x p hc
    exact (pixel_store32 m _ p _).trans (if_neg hc)
  · rintro y x _ p rfl
    show g _ = g _
    rw [Nat.add_sub_cancel_left]

/-- Rows of the destination do not overlap. -/
theorem row_disjoint {x y z : Nat} (hx : x < i.x2.toNat) (hyz : y < z) :
    i.destinationPitch * y + x < i.destinationPitch * z := by
  have h1 := i.x2_le_destinationPitch
  have h2 : i.destinationPitch * (y + 1) ≤ i.destinationPitch * z := Nat.mul_le_mul_left _ hyz
  rw [Nat.mul_succ] at h2
  omega

/-- **The pixel loop** stores the transformed source pixel in every pixel of the
rectangle. -/
theorem pixel_pixelUploader (g : BitVec 32 → BitVec 32) (dst src : Memory (BitVec 8))
    {x y : Nat} (h : i.Inside x y) :
    pixel (i.run (pixelUploader g) dst src) (i.destinationPitch * y + x) =
      g (pixel src (i.sourcePitch * y + x)) := by
  obtain ⟨hx1, hx2, hy1, hy2⟩ := h
  have hltx := i.x2.toNat_lt
  have hlty := i.y2.toNat_lt
  have hx : (UInt32.ofNat x).toNat = x := UInt32.toNat_ofNat_of_lt' (show x < 2 ^ 32 by omega)
  have hy : (UInt32.ofNat y).toNat = y := UInt32.toNat_ofNat_of_lt' (show y < 2 ^ 32 by omega)
  refine ((i.pixelRow_overwrites g src).foldl_hit dst (rows_pairwise _ _)
    (mem_rows.mpr (by rw [hy]; exact ⟨hy1, hy2⟩)) ?_ ?_).trans ?_
  · exact ⟨UInt32.ofNat x, mem_rows.mpr (by rw [hx]; exact ⟨hx1, hx2⟩), by rw [hx, hy]⟩
  · rintro z _ hyz ⟨x', _, he⟩
    have := i.row_disjoint hx2 (hy ▸ hyz)
    omega
  · show g _ = g _
    rw [hy, Nat.add_sub_cancel_left]

/-! ## When the two agree -/

/-- A row of the word loop covers its own pixels of the rectangle, except the
last one when the row starts in the middle of a word and the right edge is even. -/
theorem wordCovers_self {x y : Nat} (h : i.Inside x y)
    (hodd : i.destinationPitch * y % 2 = 1 → i.x2.toNat % 2 = 1) :
    i.WordCovers y (i.destinationPitch * y + x) := by
  obtain ⟨hx1, hx2, -, -⟩ := h
  unfold WordCovers
  generalize i.destinationPitch * y = b at hodd ⊢
  omega

/-- A later row reaches back into a pixel of the rectangle only from the next
row, only into the last pixel of a destination row, and only when the next row
starts in the middle of a word. -/
theorem wordCovers_later {x y z : Nat} (hx2 : x < i.x2.toNat) (hyz : y < z)
    (hc : i.WordCovers z (i.destinationPitch * y + x)) :
    z = y + 1 ∧ x + 1 = i.destinationPitch ∧ i.x1.toNat ≤ 1 ∧
      i.destinationPitch * (y + 1) % 2 = 1 := by
  have hpos := i.destinationPitch_pos
  have hle := i.x2_le_destinationPitch
  have hc := hc.1
  -- two rows further down even a half word earlier is too late
  rcases Nat.lt_or_ge (y + 1) z with hz | hz
  · have hmul : i.destinationPitch * (y + 2) ≤ i.destinationPitch * z :=
      Nat.mul_le_mul_left _ hz
    rw [Nat.mul_add] at hmul
    omega
  · obtain rfl : z = y + 1 := by omega
    rw [Nat.mul_succ] at hc ⊢
    omega

/-- The value that row `y` stores for its own pixel is the right one when source
and destination rows start at the same half of a word. -/
theorem wordSource_self {x y : Nat}
    (hpar : i.sourcePitch * y % 2 = i.destinationPitch * y % 2) :
    i.wordSource y (i.destinationPitch * y + x) = i.sourcePitch * y + x := by
  unfold wordSource
  omega

theorem mul_even {n y : Nat} (h : n % 2 = 0 ∨ y % 2 = 0) : n * y % 2 = 0 := by
  rw [Nat.mul_mod]
  rcases h with h | h <;> simp [h]

theorem mul_odd {n y : Nat} (hn : n % 2 = 1) (hy : y % 2 = 1) : n * y % 2 = 1 := by
  rw [Nat.mul_mod, hn, hy]

/-- For a pixel of the rectangle a safe input aligns the row it lies in. -/
theorem PairSafe.aligned {i : UploadInput} (h : i.PairSafe) {x y : Nat} (hin : i.Inside x y) :
    (i.destinationPitch * y % 2 = 1 → i.x2.toNat % 2 = 1) ∧
      i.sourcePitch * y % 2 = i.destinationPitch * y % 2 := by
  obtain ⟨hx1, hx2, hy1, hy2⟩ := hin
  have hs := i.sourceStride_eq
  have hd := i.destinationStride_eq
  rcases Nat.mod_two_eq_zero_or_one y with hy | hy
  · rw [mul_even (Or.inr hy), mul_even (Or.inr hy)]
    exact ⟨fun h => absurd h (by decide), rfl⟩
  · rcases h with h | h | ⟨h1, h2⟩ | ⟨h1, h2, h3, -⟩
    · omega
    · exact absurd (h y hy1 hy2) (by omega)
    · rw [mul_even (Or.inl (show i.sourcePitch % 2 = 0 by omega)),
        mul_even (Or.inl (show i.destinationPitch % 2 = 0 by omega))]
      exact ⟨fun h => absurd h (by decide), rfl⟩
    · rw [mul_odd (show i.sourcePitch % 2 = 1 by omega) hy,
        mul_odd (show i.destinationPitch % 2 = 1 by omega) hy]
      exact ⟨fun _ => h3, rfl⟩

/-- A safe input in which a later row reaches back has equal strides. -/
theorem PairSafe.pitch_eq {i : UploadInput} (h : i.PairSafe) {x y z : Nat} (hin : i.Inside x y)
    (hyz : y < z) (hz : z < i.y2.toNat) (hc : i.WordCovers z (i.destinationPitch * y + x)) :
    i.sourcePitch = i.destinationPitch := by
  obtain ⟨hx1, hx2, hy1, -⟩ := hin
  obtain ⟨rfl, hlast, hx1', hodd⟩ := i.wordCovers_later hx2 hyz hc
  have hle := i.x2_le_destinationPitch
  have hs := i.sourceStride_eq
  have hd := i.destinationStride_eq
  have hz1 : (y + 1) % 2 = 1 := by
    by_contra hne
    rw [mul_even (Or.inr (show (y + 1) % 2 = 0 by omega))] at hodd
    omega
  have hd1 : i.destinationPitch % 2 = 1 := by
    by_contra hne
    rw [mul_even (Or.inl (show i.destinationPitch % 2 = 0 by omega))] at hodd
    omega
  rcases h with h | h | ⟨-, h2⟩ | ⟨-, -, -, h4 | h4⟩
  · omega
  · exact absurd (h (y + 1) (by omega) hz) (by omega)
  · omega
  · have := congrArg Int32.toInt h4
    omega
  · exact absurd ⟨hx1', by omega, y, by omega, hy1, hz⟩ h4

/-- On a safe input the word loop stores what the pixel loop stores. -/
theorem PairSafe.agree {i : UploadInput} (h : i.PairSafe) {f : BitVec 64 → BitVec 64}
    {g : BitVec 32 → BitVec 32} (hf : PairsOf f g) :
    i.Agree (wordUploader f) (pixelUploader g) := by
  intro dst src x y hin
  obtain ⟨hodd, hpar⟩ := h.aligned hin
  rw [destinationPixel_eq, destinationPixel_eq, i.pixel_pixelUploader g dst src hin]
  have hself := i.wordCovers_self hin hodd
  by_cases hlater : ∃ z, y < z ∧ z < i.y2.toNat ∧
      i.WordCovers z (i.destinationPitch * y + x)
  · -- the next row stores the last pixel again; with equal strides, the same value
    obtain ⟨z, hyz, hz, hc⟩ := hlater
    have heq := h.pitch_eq hin hyz hz hc
    obtain ⟨rfl, -, -, -⟩ := i.wordCovers_later hin.2.1 hyz hc
    rw [i.pixel_wordUploader_of_last hf dst src (by have := hin.2.2.1; omega) hz hc]
    · have hcov := hc.1
      rw [wordSource, heq]
      congr 2
      omega
    · intro z' hz' _ hc'
      obtain ⟨rfl, -⟩ := i.wordCovers_later hin.2.1 (by omega) hc'
      omega
  · rw [i.pixel_wordUploader_of_last hf dst src hin.2.2.1 hin.2.2.2 hself
      fun z hyz hz hc => hlater ⟨z, hyz, hz, hc⟩, i.wordSource_self hpar]

/-! ## Images that tell the two apart -/

/-- An image whose pixels all hold `v`. -/
def constantImage (v : BitVec 32) : Memory (BitVec 8) := fun a => v.extractLsb' (8 * (a % 4)) 8

/-- An image whose pixels are zero, except pixel `q`, which is one. -/
def spikeImage (q : Nat) : Memory (BitVec 8) := fun a => if a = 4 * q then 1 else 0

theorem pixel_constantImage (v : BitVec 32) (p : Nat) : pixel (constantImage v) p = v := by
  have h0 : constantImage v (4 * p) = v.extractLsb' 0 8 := by
    rw [constantImage, show 4 * p % 4 = 0 by omega]
  have byte : ∀ k, k < 4 → constantImage v (4 * p + k) = v.extractLsb' (8 * k) 8 := by
    intro k hk
    rw [constantImage, show (4 * p + k) % 4 = k by omega]
  rw [pixel, Memory.load32, byte 3 (by omega), byte 2 (by omega), byte 1 (by omega), h0]
  exact Memory.extract_bytes v

theorem pixel_spikeImage (q p : Nat) :
    pixel (spikeImage q) p = if p = q then 1#32 else 0#32 := by
  have byte : ∀ k, 0 < k → k < 4 → spikeImage q (4 * p + k) = 0#8 := by
    intro k hk hk'
    exact if_neg (by omega)
  rw [pixel, Memory.load32, byte 3 (by omega) (by omega), byte 2 (by omega) (by omega),
    byte 1 (by omega) (by omega), spikeImage]
  by_cases h : p = q
  · rw [if_pos h, if_pos (by omega)]
    decide
  · rw [if_neg h, if_neg (by omega)]
    decide

section Disagreement

variable {f : BitVec 64 → BitVec 64} {g : BitVec 32 → BitVec 32} (hf : PairsOf f g)
  (hg : g 0#32 ≠ g 1#32)

include hg in
/-- A pixel of the rectangle that is left alone, or takes its value from another
source pixel, is wrong for some images. -/
theorem not_agree_of_other {x y : Nat} (hin : i.Inside x y)
    (h : ∀ dst src, pixel (i.run (wordUploader f) dst src) (i.destinationPitch * y + x) =
        pixel dst (i.destinationPitch * y + x) ∨
      ∃ k, k ≠ i.sourcePitch * y + x ∧
        pixel (i.run (wordUploader f) dst src) (i.destinationPitch * y + x) =
          g (pixel src k)) : ¬ i.Agree (wordUploader f) (pixelUploader g) := by
  intro hagree
  -- the right pixel of the source is the only one that is not zero, and the
  -- destination holds what a zero pixel turns into
  have heq := hagree (constantImage (g 0#32)) (spikeImage (i.sourcePitch * y + x)) x y hin
  rw [destinationPixel_eq, destinationPixel_eq, i.pixel_pixelUploader g _ _ hin,
    pixel_spikeImage, if_pos rfl] at heq
  rcases h (constantImage (g 0#32)) (spikeImage (i.sourcePitch * y + x)) with h | ⟨k, hk, h⟩
  · rw [h, pixel_constantImage] at heq
    exact hg heq
  · rw [h, pixel_spikeImage, if_neg hk] at heq
    exact hg heq

include hf hg

/-- An odd row that starts in the middle of a word misses its last pixel when
the right edge is even. -/
theorem not_agree_of_even_edge (hne : i.x1.toNat < i.x2.toNat) {r : Nat}
    (hl : i.y1.toNat ≤ r) (hu : r < i.y2.toNat) (hr : r % 2 = 1)
    (hd : i.destinationPitch % 2 = 1) (hx2 : i.x2.toNat % 2 = 0) :
    ¬ i.Agree (wordUploader f) (pixelUploader g) := by
  have hin : i.Inside (i.x2.toNat - 1) r := ⟨by omega, by omega, hl, hu⟩
  refine i.not_agree_of_other hg hin fun dst src => Or.inl ?_
  refine i.pixel_wordUploader_of_miss hf dst src fun z _ _ hc => ?_
  have hodd := mul_odd hd hr
  have hle := i.x2_le_destinationPitch
  -- earlier rows end before the pixel, its own row ends one word short of it, and
  -- the row after it is even
  rcases Nat.lt_trichotomy z r with hz | rfl | hz
  · have hmul : i.destinationPitch * (z + 1) ≤ i.destinationPitch * r :=
      Nat.mul_le_mul_left _ hz
    rw [Nat.mul_succ] at hmul
    have := hc.2
    omega
  · have := hc.2
    omega
  · obtain ⟨rfl, -, -, hodd'⟩ := i.wordCovers_later (by omega) hz hc
    rw [mul_even (Or.inr (by omega))] at hodd'
    omega

/-- An odd row takes its pixels from a neighbour when only one of the two images
starts it in the middle of a word. -/
theorem not_agree_of_parity (hne : i.x1.toNat < i.x2.toNat) {r : Nat}
    (hl : i.y1.toNat ≤ r) (hu : r < i.y2.toNat) (hr : r % 2 = 1)
    (hpar : i.sourcePitch % 2 ≠ i.destinationPitch % 2)
    (hx2 : i.destinationPitch % 2 = 1 → i.x2.toNat % 2 = 1) :
    ¬ i.Agree (wordUploader f) (pixelUploader g) := by
  have hin : i.Inside i.x1.toNat r := ⟨Nat.le_refl _, hne, hl, hu⟩
  have hmod : ∀ n : Nat, n * r % 2 = n % 2 := by
    intro n
    rw [Nat.mul_mod, hr, Nat.mul_one, Nat.mod_mod]
  have hs := hmod i.sourcePitch
  have hd := hmod i.destinationPitch
  refine i.not_agree_of_other hg hin fun dst src => Or.inr ⟨_, ?_,
    i.pixel_wordUploader_of_last hf dst src hl hu (i.wordCovers_self hin (hd ▸ hx2)) ?_⟩
  · unfold wordSource
    omega
  · intro z hz _ hc
    obtain ⟨rfl, -, -, hodd⟩ := i.wordCovers_later hne hz hc
    rw [mul_even (Or.inr (by omega))] at hodd
    omega

/-- An odd row below an even one stores the last pixel of that row again, from
the wrong place when the strides differ. -/
theorem not_agree_of_reach (hne : i.x1.toNat < i.x2.toNat) (hx1 : i.x1.toNat ≤ 1)
    (hx2 : i.x2.toNat = i.destinationPitch) (hs : i.sourcePitch % 2 = 1)
    (hd : i.destinationPitch % 2 = 1) (hpitch : i.sourcePitch ≠ i.destinationPitch) {y : Nat}
    (hy : y % 2 = 0) (hl : i.y1.toNat ≤ y) (hu : y + 1 < i.y2.toNat) :
    ¬ i.Agree (wordUploader f) (pixelUploader g) := by
  have hin : i.Inside (i.x2.toNat - 1) y := ⟨by omega, by omega, hl, by omega⟩
  have hso := mul_odd hs (show (y + 1) % 2 = 1 by omega)
  have hdo := mul_odd hd (show (y + 1) % 2 = 1 by omega)
  rw [Nat.mul_succ] at hso hdo
  refine i.not_agree_of_other hg hin fun dst src => Or.inr ⟨_, ?_,
    i.pixel_wordUploader_of_last (y := y + 1) hf dst src (by omega) hu ⟨?_, ?_⟩ ?_⟩
  · unfold wordSource
    rw [Nat.mul_succ, Nat.mul_succ]
    omega
  · rw [Nat.mul_succ]
    omega
  · rw [Nat.mul_succ]
    omega
  · intro z hz _ hc
    obtain ⟨rfl, -⟩ := i.wordCovers_later (show i.x2.toNat - 1 < i.x2.toNat by omega)
      (show y < z by omega) hc
    omega

/-- Only safe inputs make the two loops agree. -/
theorem pairSafe_of_agree (h : i.Agree (wordUploader f) (pixelUploader g)) : i.PairSafe := by
  by_contra hsafe
  unfold PairSafe at hsafe
  simp only [not_or, not_forall, not_le] at hsafe
  obtain ⟨hne, ⟨r, hl, hu, hr⟩, hC, hD⟩ := hsafe
  have hr1 : r % 2 = 1 := by omega
  have hs := i.sourceStride_eq
  have hd := i.destinationStride_eq
  -- three ways to be unsafe with an odd row, each with its own wrong pixel
  by_cases hedge : i.destinationPitch % 2 = 1 → i.x2.toNat % 2 = 1
  · by_cases hpar : i.sourcePitch % 2 = i.destinationPitch % 2
    · have hd1 : i.destinationPitch % 2 = 1 := by omega
      have hD' := fun hstride => hD ⟨by omega, by omega, hedge hd1, hstride⟩
      have hstr : i.sourceStride ≠ i.destinationStride := fun he => hD' (Or.inl he)
      obtain ⟨hx1, hx2, y, hy, hyl, hyu⟩ := not_not.mp fun hno => hD' (Or.inr hno)
      refine i.not_agree_of_reach hf hg hne hx1 (by omega) (by omega) hd1 ?_ hy hyl hyu h
      intro hp
      exact hstr (Int32.toInt.inj (by omega))
    · exact i.not_agree_of_parity hf hg hne hl hu hr1 hpar hedge h
  · rw [Classical.not_imp] at hedge
    exact i.not_agree_of_even_edge hf hg hne hl hu hr1 hedge.1 (by omega) h

end Disagreement

/-- **Pairs against pixels**: the word loop stores what the pixel loop stores, on
all images, exactly on the safe inputs. -/
theorem wordUploader_agrees_iff {f : BitVec 64 → BitVec 64} {g : BitVec 32 → BitVec 32}
    (hf : PairsOf f g) (hg : g 0#32 ≠ g 1#32) :
    i.Agree (wordUploader f) (pixelUploader g) ↔ i.PairSafe :=
  ⟨i.pairSafe_of_agree hf hg, fun h => h.agree hf⟩

/-- Each of the two active loops stores what its disabled sibling stores exactly
on the safe inputs. -/
theorem uploaders_agree_iff :
    (i.Agree uploader1 uploader1Pixels ↔ i.PairSafe) ∧
      (i.Agree uploader2 uploader2Pixels ↔ i.PairSafe) :=
  ⟨i.wordUploader_agrees_iff alphaWord_pairs (by decide),
    i.wordUploader_agrees_iff swapWord_pairs (by decide)⟩

/-- Two rows of three pixels without padding, with the first two pixels of the
second row damaged. -/
def threeByTwo : UploadInput where
  sourceStride := 12
  destinationStride := 12
  width := 3
  height := 2
  x1 := 0
  y1 := 1
  x2 := 2
  y2 := 2
  source_pos := by decide
  source_dvd := by decide
  source_width := by decide
  source_size := by decide
  destination_pos := by decide
  destination_dvd := by decide
  destination_width := by decide
  destination_size := by decide
  x1_le := by decide
  x2_le := by decide
  y1_le := by decide
  y2_le := by decide

/-- The second row starts in the middle of a word, and the words of columns 0
and 1 are stored one column too early. -/
theorem threeByTwo_disagrees :
    ¬ threeByTwo.Agree uploader1 uploader1Pixels ∧
      ¬ threeByTwo.Agree uploader2 uploader2Pixels := by
  have hunsafe : ¬ threeByTwo.PairSafe := by
    rintro (h | h | h | h)
    · exact absurd h (by decide)
    · exact absurd (h 1 (by decide) (by decide)) (by decide)
    · exact absurd h.1 (by decide)
    · exact absurd h.2.2.1 (by decide)
  exact ⟨fun h => hunsafe ((threeByTwo.wordUploader_agrees_iff alphaWord_pairs (by decide)).mp h),
    fun h => hunsafe ((threeByTwo.wordUploader_agrees_iff swapWord_pairs (by decide)).mp h)⟩

end UploadInput

end SparkleWayland

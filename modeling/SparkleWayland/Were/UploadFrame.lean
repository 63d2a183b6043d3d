import SparkleWayland.Were.UploadPairs

/-!
# What walking in 64-bit words touches

The active loops of `uploader_1` and `uploader_2` round the columns outwards to whole
words and the row base down to one, so that they may touch pixels around the rectangle and
words past the end of an image. `WordUpload.FrameKept` is that they do not;
`WordUpload.Safe` says row by row for which rectangles that is so. Images may be of any
size: a row whose offset does not fit into `uint32_t` is looked at where it lands.
-/

namespace SparkleWayland

/-! ## The words a run reads and writes -/

/-- One iteration of the inner loop, as the byte offsets of its two words. -/
structure WordAccess where
  destination : Nat
  source : Nat
  deriving DecidableEq, Repr

/-- The words read and written by the active loop of `uploader_1` and `uploader_2`, in order. -/
def wordAccesses (sourceStrideBytes destinationStrideBytes : Int32) (x1 y1 x2 y2 : UInt32) :
    List WordAccess :=
  (rows y1 y2).flatMap fun y => (rows (x1 / 2) ((x2 + 1) / 2)).map fun x =>
    { destination := 8 * ((destinationStrideBytes.toUInt32 * y / 8).toNat + x.toNat)
      source := 8 * ((sourceStrideBytes.toUInt32 * y / 8).toNat + x.toNat) }

/-- The loop does nothing else with the two images. -/
theorem wordUploader_eq_foldl (f : BitVec 64 → BitVec 64) (dst src : Memory (BitVec 8))
    (S D : Int32) (x1 y1 x2 y2 : UInt32) :
    wordUploader f dst src S D x1 y1 x2 y2 =
      (wordAccesses S D x1 y1 x2 y2).foldl
        (fun m a => m.store64 a.destination (f (src.load64 a.source))) dst := by
  rw [wordUploader, wordAccesses, List.foldl_flatMap]
  congr 1
  funext m y
  rw [wordRow, List.foldl_map]

/-! ## Inputs -/

/-- The arguments of an upload: strides that are multiples of four and at least
`4 * width`, and a rectangle inside the image. -/
structure WordUpload where
  sourceStride : Int32
  destinationStride : Int32
  width : Nat
  height : Nat
  x1 : UInt32
  y1 : UInt32
  x2 : UInt32
  y2 : UInt32
  source_dvd : 4 ∣ sourceStride.toInt
  source_width : 4 * (width : Int) ≤ sourceStride.toInt
  destination_dvd : 4 ∣ destinationStride.toInt
  destination_width : 4 * (width : Int) ≤ destinationStride.toInt
  x1_le : x1.toNat ≤ x2.toNat
  x2_le : x2.toNat ≤ width
  y1_le : y1.toNat ≤ y2.toNat
  y2_le : y2.toNat ≤ height

namespace WordUpload

open UploadInput (wordRow_overwrites constantImage pixel_constantImage)

/-- Run an uploader on this input. -/
def run (i : WordUpload) (u : Uploader) (dst src : Memory (BitVec 8)) : Memory (BitVec 8) :=
  u dst src i.sourceStride i.destinationStride i.x1 i.y1 i.x2 i.y2

/-- The words that a run reads and writes. -/
def accesses (i : WordUpload) : List WordAccess :=
  wordAccesses i.sourceStride i.destinationStride i.x1 i.y1 i.x2 i.y2

/-- The destination pixel at column `x` of row `y`. -/
def destinationPixel (i : WordUpload) (m : Memory (BitVec 8)) (x y : Nat) : BitVec 32 :=
  m.load32 (i.destinationStride.toInt.toNat * y + 4 * x)

/-- The column and row lie in the rectangle. -/
def Inside (i : WordUpload) (x y : Nat) : Prop :=
  i.x1.toNat ≤ x ∧ x < i.x2.toNat ∧ i.y1.toNat ≤ y ∧ y < i.y2.toNat

/-- No word read or written extends past its image, and on every pair of images each
destination pixel outside the rectangle keeps its value. -/
structure FrameKept (i : WordUpload) (u : Uploader) : Prop where
  source : ∀ a ∈ i.accesses, a.source + 8 ≤ i.sourceStride.toInt.toNat * i.height
  destination : ∀ a ∈ i.accesses, a.destination + 8 ≤ i.destinationStride.toInt.toNat * i.height
  frame : ∀ dst src : Memory (BitVec 8), ∀ x < i.width, ∀ y < i.height, ¬ i.Inside x y →
    i.destinationPixel (i.run u dst src) x y = i.destinationPixel dst x y

/-- Pixels from one source row to the next. -/
def sourcePitch (i : WordUpload) : Nat := i.sourceStride.toInt.toNat / 4

/-- Pixels from one destination row to the next. -/
def destinationPitch (i : WordUpload) : Nat := i.destinationStride.toInt.toNat / 4

/-- When row `y` of the rectangle touches nothing it should not. -/
structure RowSafe (i : WordUpload) (y : Nat) : Prop where
  /-- The last row of an image without padding ends in the middle of a word, which an odd right
  edge reads to its end. -/
  source : 4 * i.sourcePitch * y < 2 ^ 32 → y + 1 = i.height → i.x2.toNat % 2 = 1 →
    i.sourcePitch = i.x2.toNat → y % 2 = 1
  /-- A row that begins at a word: both edges are even, or the pixel right of the right edge
  is padding or, with no padding, the first of a row that is uploaded next. -/
  aligned : 4 * i.destinationPitch * y < 2 ^ 32 → i.destinationPitch * y % 2 = 0 →
    i.x1.toNat % 2 = 0 ∧ (i.x2.toNat % 2 = 0 ∨ i.x2.toNat = i.width ∧
      (i.width < i.destinationPitch ∨ i.x1.toNat = 0 ∧ y + 1 < i.y2.toNat))
  /-- A row that begins in the middle of a word is walked from one pixel further left, which
  has to be padding or the last of a row that was uploaded before. -/
  shifted : 4 * i.destinationPitch * y < 2 ^ 32 → i.destinationPitch * y % 2 = 1 →
    i.x1.toNat = 0 ∧ (i.width < i.destinationPitch ∨ i.x2.toNat = i.width ∧ i.y1.toNat < y)
  /-- A row whose offset wraps lands on pixels of the rectangle only. -/
  wrapped : 2 ^ 32 ≤ 4 * i.destinationPitch * y → ∀ x < i.width, ∀ y' < i.height,
    4 * i.destinationPitch * y % 2 ^ 32 / 8 + i.x1.toNat / 2 ≤ (i.destinationPitch * y' + x) / 2 →
    (i.destinationPitch * y' + x) / 2 <
      4 * i.destinationPitch * y % 2 ^ 32 / 8 + (i.x2.toNat + 1) / 2 → i.Inside x y'

/-- The rectangle has no column and an even left edge, or each of its rows is safe. -/
def Safe (i : WordUpload) : Prop :=
  (i.x1 = i.x2 ∧ i.x1.toNat % 2 = 0) ∨ ∀ y, i.y1.toNat ≤ y → y < i.y2.toNat → i.RowSafe y

variable (i : WordUpload)

/-! ## The geometry in pixels -/

theorem sourceStride_eq : i.sourceStride.toInt.toNat = 4 * i.sourcePitch := by
  have := i.source_dvd
  have := i.source_width
  unfold sourcePitch
  omega

theorem destinationStride_eq : i.destinationStride.toInt.toNat = 4 * i.destinationPitch := by
  have := i.destination_dvd
  have := i.destination_width
  unfold destinationPitch
  omega

theorem sourceStride_nonneg : 0 ≤ i.sourceStride.toInt := by
  have := i.source_width
  omega

theorem destinationStride_nonneg : 0 ≤ i.destinationStride.toInt := by
  have := i.destination_width
  omega

theorem toNat_row {y : Nat} (hu : y < i.y2.toNat) : (UInt32.ofNat y).toNat = y :=
  UInt32.toNat_ofNat_of_lt' (lt_trans hu i.y2.toNat_lt)

theorem width_le_sourcePitch : i.width ≤ i.sourcePitch := by
  have := i.sourceStride_eq
  have := i.source_width
  omega

theorem width_le_destinationPitch : i.width ≤ i.destinationPitch := by
  have := i.destinationStride_eq
  have := i.destination_width
  omega

theorem width_lt : i.width < 2 ^ 29 := by
  have := i.destination_width
  have := (Int32.toInt_range i.destinationStride).2
  omega

theorem destinationPixel_eq (m : Memory (BitVec 8)) (x y : Nat) :
    i.destinationPixel m x y = pixel m (i.destinationPitch * y + x) := by
  rw [destinationPixel, pixel, i.destinationStride_eq, Nat.mul_add, Nat.mul_assoc]

/-- The row base in words, from a product that may have wrapped. -/
def rowBase (pitch y : Nat) : Nat := 4 * pitch * y % 2 ^ 32 / 8

theorem rowBase_eq {stride : Int32} {pitch : Nat} (hnonneg : 0 ≤ stride.toInt)
    (hs : stride.toInt.toNat = 4 * pitch) (y : UInt32) :
    (stride.toUInt32 * y / 8).toNat = rowBase pitch y.toNat := by
  rw [UInt32.toNat_div, UInt32.toNat_mul, Int32.toNat_toUInt32 hnonneg, hs]
  rfl

theorem rowBase_of_lt {pitch y : Nat} (h : 4 * pitch * y < 2 ^ 32) :
    rowBase pitch y = pitch * y / 2 := by
  rw [rowBase, Nat.mod_eq_of_lt h, Nat.mul_assoc]
  omega

/-- The words of a row, counted from its base. -/
theorem mem_columns (x : UInt32) : x ∈ rows (i.x1 / 2) ((i.x2 + 1) / 2) ↔
    i.x1.toNat / 2 ≤ x.toNat ∧ x.toNat < (i.x2.toNat + 1) / 2 := by
  have hsmall : i.x2.toNat + (1 : UInt32).toNat < 2 ^ 32 := by
    have := i.x2_le
    have := i.width_lt
    show i.x2.toNat + 1 < _
    omega
  rw [mem_rows, UInt32.toNat_div, UInt32.toNat_div, UInt32.toNat_add_of_lt hsmall]
  rfl

/-- Row `y` touches the words from `rowBase + x1 / 2` to before `rowBase + (x2 + 1) / 2`. -/
def Touches (y p : Nat) : Prop :=
  rowBase i.destinationPitch y + i.x1.toNat / 2 ≤ p / 2 ∧
    p / 2 < rowBase i.destinationPitch y + (i.x2.toNat + 1) / 2

/-- A row that stays inside both images and touches no pixel outside the rectangle. -/
structure RowKept (y : Nat) : Prop where
  source : 2 * (rowBase i.sourcePitch y + (i.x2.toNat + 1) / 2) ≤ i.sourcePitch * i.height
  destination :
    2 * (rowBase i.destinationPitch y + (i.x2.toNat + 1) / 2) ≤ i.destinationPitch * i.height
  frame : ∀ x < i.width, ∀ y' < i.height, i.Touches y (i.destinationPitch * y' + x) → i.Inside x y'

/-- There is a word to walk in every row. -/
def HasWords : Prop := i.x1.toNat / 2 < (i.x2.toNat + 1) / 2

theorem not_hasWords_iff : ¬ i.HasWords ↔ i.x1 = i.x2 ∧ i.x1.toNat % 2 = 0 := by
  have := i.x1_le
  rw [← UInt32.toNat_inj, HasWords]
  omega

/-! ## From rows to runs -/

theorem mem_accesses {a : WordAccess} : a ∈ i.accesses ↔
    ∃ y x : UInt32, (i.y1.toNat ≤ y.toNat ∧ y.toNat < i.y2.toNat) ∧
      (i.x1.toNat / 2 ≤ x.toNat ∧ x.toNat < (i.x2.toNat + 1) / 2) ∧
      a = ⟨8 * (rowBase i.destinationPitch y.toNat + x.toNat),
        8 * (rowBase i.sourcePitch y.toNat + x.toNat)⟩ := by
  have hrows (y : UInt32) :
      y ∈ rows i.y1 i.y2 ↔ i.y1.toNat ≤ y.toNat ∧ y.toNat < i.y2.toNat := mem_rows
  simp only [accesses, wordAccesses, List.mem_flatMap, List.mem_map, hrows, i.mem_columns,
    rowBase_eq i.sourceStride_nonneg i.sourceStride_eq,
    rowBase_eq i.destinationStride_nonneg i.destinationStride_eq]
  constructor
  · rintro ⟨y, hy, x, hx, rfl⟩
    exact ⟨y, x, hy, hx, rfl⟩
  · rintro ⟨y, x, hy, hx, rfl⟩
    exact ⟨y, hy, x, hx, rfl⟩

/-- The words of row `y` that cover pixel `p`. -/
theorem covers_iff {y : UInt32} (p : Nat) :
    (∃ x ∈ rows (i.x1 / 2) ((i.x2 + 1) / 2),
        p / 2 = (i.destinationStride.toUInt32 * y / 8).toNat + x.toNat) ↔ i.Touches y.toNat p := by
  rw [rowBase_eq i.destinationStride_nonneg i.destinationStride_eq, Touches]
  constructor
  · rintro ⟨x, hx, hp⟩
    rw [i.mem_columns] at hx
    omega
  · rintro ⟨hl, hu⟩
    have hx : (UInt32.ofNat (p / 2 - rowBase i.destinationPitch y.toNat)).toNat =
        p / 2 - rowBase i.destinationPitch y.toNat := by
      have := i.x2_le
      have := i.width_lt
      exact UInt32.toNat_ofNat_of_lt' (show _ < 2 ^ 32 by omega)
    refine ⟨UInt32.ofNat (p / 2 - rowBase i.destinationPitch y.toNat),
      (i.mem_columns _).mpr ?_, ?_⟩ <;> rw [hx] <;> omega

section Loop

variable {f : BitVec 64 → BitVec 64} {g : BitVec 32 → BitVec 32} (hf : PairsOf f g)
include hf

/-- A pixel that no row touches keeps its value. -/
theorem pixel_of_untouched (dst src : Memory (BitVec 8)) {p : Nat}
    (h : ∀ y, i.y1.toNat ≤ y → y < i.y2.toNat → ¬ i.Touches y p) :
    pixel (i.run (wordUploader f) dst src) p = pixel dst p := by
  refine (wordRow_overwrites hf src _ _ _ _).foldl_miss dst fun y hy hcovers => ?_
  have hrow := mem_rows.mp hy
  exact h y.toNat hrow.1 hrow.2 ((i.covers_iff p).mp hcovers)

/-- A pixel that some row touches becomes what a zero pixel turns into, if the source has no
others. -/
theorem pixel_of_touched (dst : Memory (BitVec 8)) {y p : Nat} (hl : i.y1.toNat ≤ y)
    (hu : y < i.y2.toNat) (h : i.Touches y p) :
    pixel (i.run (wordUploader f) dst (constantImage 0)) p = g 0 := by
  have hy := i.toNat_row hu
  refine (wordRow_overwrites hf _ _ _ _ _).foldl_agree dst
    ⟨UInt32.ofNat y, mem_rows.mpr ?_, (i.covers_iff p).mpr ?_⟩ fun _ _ _ => ?_
  · rw [hy]
    exact ⟨hl, hu⟩
  · rw [hy]
    exact h
  · rw [pixel_constantImage]

/-- Where there are words to walk, a row of the rectangle gives away what it does. -/
theorem rowKept_of_frameKept (hwords : i.HasWords) (h : i.FrameKept (wordUploader f)) {y : Nat}
    (hl : i.y1.toNat ≤ y) (hu : y < i.y2.toNat) : i.RowKept y := by
  have hy := i.toNat_row hu
  -- the last word of the row
  have hx2 : (i.x2.toNat + 1) / 2 - 1 < 2 ^ 32 := by
    have := i.x2.toNat_lt
    omega
  have hx : (UInt32.ofNat ((i.x2.toNat + 1) / 2 - 1)).toNat = (i.x2.toNat + 1) / 2 - 1 :=
    UInt32.toNat_ofNat_of_lt' hx2
  unfold HasWords at hwords
  have hmem := i.mem_accesses.mpr ⟨UInt32.ofNat y, UInt32.ofNat ((i.x2.toNat + 1) / 2 - 1),
    by rw [hy]; exact ⟨hl, hu⟩, by rw [hx]; omega, rfl⟩
  have hsource := h.source _ hmem
  have hdestination := h.destination _ hmem
  dsimp only at hsource hdestination
  rw [hy, hx] at hsource hdestination
  rw [i.sourceStride_eq, Nat.mul_assoc] at hsource
  rw [i.destinationStride_eq, Nat.mul_assoc] at hdestination
  refine ⟨by omega, by omega, fun x hxw y' hyh htouch => ?_⟩
  by_contra hout
  have hkept := h.frame (constantImage (g 0 + 1)) (constantImage 0) x hxw y' hyh hout
  rw [destinationPixel_eq, destinationPixel_eq, i.pixel_of_touched hf _ hl hu htouch,
    pixel_constantImage] at hkept
  exact absurd hkept (by simp)

/-- Without words nothing is touched. -/
theorem frameKept_of_not_hasWords (hno : ¬ i.HasWords) : i.FrameKept (wordUploader f) := by
  unfold HasWords at hno
  refine ⟨fun a ha => ?_, fun a ha => ?_, fun dst src x _ y _ _ => ?_⟩
  · obtain ⟨y, x, -, hx, -⟩ := i.mem_accesses.mp ha
    omega
  · obtain ⟨y, x, -, hx, -⟩ := i.mem_accesses.mp ha
    omega
  · rw [destinationPixel_eq, destinationPixel_eq]
    refine i.pixel_of_untouched hf dst src fun z _ _ htouch => ?_
    unfold Touches at htouch
    omega

theorem frameKept_of_rowKept (hkept : ∀ y, i.y1.toNat ≤ y → y < i.y2.toNat → i.RowKept y) :
    i.FrameKept (wordUploader f) := by
  refine ⟨fun a ha => ?_, fun a ha => ?_, fun dst src x hx y hy hout => ?_⟩
  · obtain ⟨y, x, hy, hx, rfl⟩ := i.mem_accesses.mp ha
    have := (hkept y.toNat hy.1 hy.2).source
    rw [i.sourceStride_eq, Nat.mul_assoc]
    show 8 * _ + 8 ≤ _
    omega
  · obtain ⟨y, x, hy, hx, rfl⟩ := i.mem_accesses.mp ha
    have := (hkept y.toNat hy.1 hy.2).destination
    rw [i.destinationStride_eq, Nat.mul_assoc]
    show 8 * _ + 8 ≤ _
    omega
  · rw [destinationPixel_eq, destinationPixel_eq]
    exact i.pixel_of_untouched hf dst src fun z hl hu htouch =>
      hout ((hkept z hl hu).frame x hx y hy htouch)

/-- The frame is kept just if every row keeps it. -/
theorem frameKept_iff_rows :
    i.FrameKept (wordUploader f) ↔
      ¬ i.HasWords ∨ ∀ y, i.y1.toNat ≤ y → y < i.y2.toNat → i.RowKept y := by
  constructor
  · intro h
    rw [or_iff_not_imp_left, not_not]
    exact fun hwords y hl hu => i.rowKept_of_frameKept hf hwords h hl hu
  · rintro (hno | hkept)
    · exact i.frameKept_of_not_hasWords hf hno
    · exact i.frameKept_of_rowKept hf hkept

end Loop

/-! ## From rows to arithmetic -/

/-- A row that begins one pixel early or ends one pixel late meets its two neighbours only. -/
theorem near_rows (d y y' x : Nat) (hx : x < d) (hl : d * y ≤ d * y' + x + 1)
    (hu : d * y' + x < d * y + d + 1) :
    y' = y ∨ (y' + 1 = y ∧ x + 1 = d) ∨ (y' = y + 1 ∧ x = 0) := by
  rcases Nat.lt_trichotomy y' y with hlt | heq | hgt
  · have hstep := Nat.mul_le_mul_left d (Nat.succ_le_of_lt hlt)
    rw [Nat.mul_succ] at hstep
    refine Or.inr (Or.inl ⟨?_, by omega⟩)
    by_contra hne
    have hfar := Nat.mul_le_mul_left d (show y' + 2 ≤ y by omega)
    rw [Nat.mul_add] at hfar
    omega
  · exact Or.inl heq
  · have hstep := Nat.mul_le_mul_left d (Nat.succ_le_of_lt hgt)
    rw [Nat.mul_succ] at hstep
    refine Or.inr (Or.inr ⟨?_, by omega⟩)
    by_contra hne
    have hfar := Nat.mul_le_mul_left d (show y + 2 ≤ y' by omega)
    rw [Nat.mul_add] at hfar
    omega

/-- A row whose offset wrapped stays inside the image. -/
theorem wrapped_inside {pitch y : Nat} (hpitch : i.width ≤ pitch) (hy : y < i.height)
    (hwrap : 2 ^ 32 ≤ 4 * pitch * y) :
    2 * (rowBase pitch y + (i.x2.toNat + 1) / 2) ≤ pitch * i.height := by
  have hrow := Nat.mul_le_mul_left pitch (Nat.succ_le_of_lt hy)
  have hx2 := i.x2_le
  have hw := i.width_lt
  have hmod : 4 * pitch * y % 2 ^ 32 ≤ 4 * pitch * y - 2 ^ 32 := by
    rw [Nat.mod_eq_sub_mod hwrap]
    exact Nat.mod_le _ _
  rw [Nat.mul_succ] at hrow
  rw [Nat.mul_assoc] at hmod hwrap
  rw [rowBase, Nat.mul_assoc]
  omega

section Row

variable {i} {y : Nat}

/-- What the source asks of a row. -/
theorem source_iff (hy : y < i.height) :
    2 * (rowBase i.sourcePitch y + (i.x2.toNat + 1) / 2) ≤ i.sourcePitch * i.height ↔
      (4 * i.sourcePitch * y < 2 ^ 32 → y + 1 = i.height → i.x2.toNat % 2 = 1 →
        i.sourcePitch = i.x2.toNat → y % 2 = 1) := by
  have hx2 := i.x2_le
  have hpitch := i.width_le_sourcePitch
  rcases Nat.lt_or_ge (4 * i.sourcePitch * y) (2 ^ 32) with hlt | hwrap
  · rw [rowBase_of_lt hlt]
    constructor
    · intro hkept _ hlast hodd heq
      -- an even row would end half a word before the end of the image
      by_contra heven
      rw [← hlast, Nat.mul_succ] at hkept
      have := UploadInput.mul_even (n := i.sourcePitch) (Or.inr (show y % 2 = 0 by omega))
      omega
    · intro h
      rcases Nat.lt_or_ge (y + 1) i.height with hmore | hlast
      · have hnext := Nat.mul_le_mul_left i.sourcePitch (Nat.succ_le_of_lt hmore)
        rw [Nat.mul_succ, Nat.mul_succ] at hnext
        omega
      · have hlast : y + 1 = i.height := by omega
        rw [← hlast, Nat.mul_succ]
        by_cases hedge : i.x2.toNat % 2 = 1 ∧ i.sourcePitch = i.x2.toNat
        · have := UploadInput.mul_odd (n := i.sourcePitch) (by omega)
            (h hlt hlast hedge.1 hedge.2)
          omega
        · omega
  · exact ⟨fun _ hlt => absurd hlt (by omega), fun _ => i.wrapped_inside hpitch hy hwrap⟩

/-- What a row that begins at a word asks of the rectangle. -/
theorem aligned_of_rowKept (hwords : i.HasWords) (hu : y < i.y2.toNat)
    (hlt : 4 * i.destinationPitch * y < 2 ^ 32) (hparity : i.destinationPitch * y % 2 = 0)
    (h : i.RowKept y) :
    i.x1.toNat % 2 = 0 ∧ (i.x2.toNat % 2 = 0 ∨ i.x2.toNat = i.width ∧
      (i.width < i.destinationPitch ∨ i.x1.toNat = 0 ∧ y + 1 < i.y2.toNat)) := by
  have hx1 := i.x1_le
  have hx2 := i.x2_le
  have hy2 := i.y2_le
  have hpitch := i.width_le_destinationPitch
  have hinside := h.frame
  have hend := h.destination
  simp only [Touches, Inside, rowBase_of_lt hlt] at hinside hend
  unfold HasWords at hwords
  refine ⟨?_, ?_⟩
  · -- the pixel left of an odd edge shares its word
    by_contra hodd
    have := hinside (i.x1.toNat - 1) (by omega) y (by omega) ⟨by omega, by omega⟩
    omega
  · by_contra hbad
    have hodd : i.x2.toNat % 2 = 1 := by omega
    have hwidth : i.x2.toNat = i.width := by
      by_contra hne
      have := hinside i.x2.toNat (by omega) y (by omega) ⟨by omega, by omega⟩
      omega
    have hfull : i.width = i.destinationPitch := by omega
    -- no padding: the next pixel is the first of the next row
    have hmore : y + 1 < i.height := by
      by_contra hlast
      rw [show i.height = y + 1 by omega, Nat.mul_succ] at hend
      omega
    have := hinside 0 (by omega) (y + 1) hmore
      ⟨by rw [Nat.mul_succ]; omega, by rw [Nat.mul_succ]; omega⟩
    omega

/-- What a row that begins in the middle of a word asks of the rectangle. -/
theorem shifted_of_rowKept (hwords : i.HasWords) (hl : i.y1.toNat ≤ y) (hu : y < i.y2.toNat)
    (hlt : 4 * i.destinationPitch * y < 2 ^ 32) (hparity : i.destinationPitch * y % 2 = 1)
    (h : i.RowKept y) :
    i.x1.toNat = 0 ∧ (i.width < i.destinationPitch ∨ i.x2.toNat = i.width ∧ i.y1.toNat < y) := by
  have hx1 := i.x1_le
  have hx2 := i.x2_le
  have hy2 := i.y2_le
  have hpitch := i.width_le_destinationPitch
  have hinside := h.frame
  simp only [Touches, Inside, rowBase_of_lt hlt] at hinside
  unfold HasWords at hwords
  have hzero : i.x1.toNat = 0 := by
    by_contra hne
    have := hinside (i.x1.toNat - 1) (by omega) y (by omega) ⟨by omega, by omega⟩
    omega
  refine ⟨hzero, ?_⟩
  by_contra hbad
  obtain ⟨k, rfl⟩ : ∃ k, y = k + 1 := by
    refine ⟨y - 1, ?_⟩
    have hpos : y ≠ 0 := by
      rintro rfl
      rw [Nat.mul_zero] at hparity
      omega
    omega
  -- no padding: the pixel before the row is the last of the row above
  rw [Nat.mul_succ] at hinside hparity
  have := hinside (i.destinationPitch - 1) (by omega) k (by omega) ⟨by omega, by omega⟩
  omega

/-- A safe row that begins at a word keeps the frame. -/
theorem kept_of_aligned (hl : i.y1.toNat ≤ y) (hu : y < i.y2.toNat)
    (hlt : 4 * i.destinationPitch * y < 2 ^ 32) (hparity : i.destinationPitch * y % 2 = 0)
    (h : i.x1.toNat % 2 = 0 ∧ (i.x2.toNat % 2 = 0 ∨ i.x2.toNat = i.width ∧
      (i.width < i.destinationPitch ∨ i.x1.toNat = 0 ∧ y + 1 < i.y2.toNat))) :
    2 * (rowBase i.destinationPitch y + (i.x2.toNat + 1) / 2) ≤ i.destinationPitch * i.height ∧
      ∀ x < i.width, ∀ y' < i.height, i.Touches y (i.destinationPitch * y' + x) →
        i.Inside x y' := by
  have hx2 := i.x2_le
  have hy2 := i.y2_le
  have hpitch := i.width_le_destinationPitch
  simp only [Touches, Inside, rowBase_of_lt hlt]
  constructor
  · have hrow := Nat.mul_le_mul_left i.destinationPitch (show y + 1 ≤ i.height by omega)
    rw [Nat.mul_succ] at hrow
    rcases Nat.lt_or_ge (y + 1) i.height with hmore | hlast
    · have hnext := Nat.mul_le_mul_left i.destinationPitch (Nat.succ_le_of_lt hmore)
      rw [Nat.mul_succ, Nat.mul_succ] at hnext
      omega
    · omega
  · rintro x hx y' - ⟨hfrom, hto⟩
    rcases near_rows i.destinationPitch y y' x (by omega) (by omega) (by omega) with
      rfl | ⟨rfl, -⟩ | ⟨rfl, rfl⟩
    · omega
    · rw [Nat.mul_succ] at hfrom hparity
      omega
    · rw [Nat.mul_succ] at hto
      omega

/-- A safe row that begins in the middle of a word keeps the frame. -/
theorem kept_of_shifted (hu : y < i.y2.toNat)
    (hlt : 4 * i.destinationPitch * y < 2 ^ 32) (hparity : i.destinationPitch * y % 2 = 1)
    (h : i.x1.toNat = 0 ∧
      (i.width < i.destinationPitch ∨ i.x2.toNat = i.width ∧ i.y1.toNat < y))
    (hl : i.y1.toNat ≤ y) :
    2 * (rowBase i.destinationPitch y + (i.x2.toNat + 1) / 2) ≤ i.destinationPitch * i.height ∧
      ∀ x < i.width, ∀ y' < i.height, i.Touches y (i.destinationPitch * y' + x) →
        i.Inside x y' := by
  have hx2 := i.x2_le
  have hy2 := i.y2_le
  have hpitch := i.width_le_destinationPitch
  simp only [Touches, Inside, rowBase_of_lt hlt]
  constructor
  · have hrow := Nat.mul_le_mul_left i.destinationPitch (show y + 1 ≤ i.height by omega)
    rw [Nat.mul_succ] at hrow
    omega
  · rintro x hx y' - ⟨hfrom, hto⟩
    rcases near_rows i.destinationPitch y y' x (by omega) (by omega) (by omega) with
      rfl | ⟨rfl, hlast⟩ | ⟨rfl, rfl⟩
    · omega
    · omega
    · rw [Nat.mul_succ] at hto
      omega

/-- A row keeps the frame just if it is safe. -/
theorem rowKept_iff (hwords : i.HasWords) (hl : i.y1.toNat ≤ y) (hu : y < i.y2.toNat) :
    i.RowKept y ↔ i.RowSafe y := by
  have hy : y < i.height := lt_of_lt_of_le hu i.y2_le
  constructor
  · intro h
    exact
      { source := (source_iff hy).mp h.source
        aligned := fun hlt hparity => aligned_of_rowKept hwords hu hlt hparity h
        shifted := fun hlt hparity => shifted_of_rowKept hwords hl hu hlt hparity h
        wrapped := fun _ x hx y' hy' hfrom hto => h.frame x hx y' hy' ⟨hfrom, hto⟩ }
  · intro h
    have hsource := (source_iff hy).mpr h.source
    rcases Nat.lt_or_ge (4 * i.destinationPitch * y) (2 ^ 32) with hlt | hwrap
    · rcases Nat.mod_two_eq_zero_or_one (i.destinationPitch * y) with hparity | hparity
      · obtain ⟨hend, hframe⟩ := kept_of_aligned hl hu hlt hparity (h.aligned hlt hparity)
        exact ⟨hsource, hend, hframe⟩
      · obtain ⟨hend, hframe⟩ := kept_of_shifted hu hlt hparity (h.shifted hlt hparity) hl
        exact ⟨hsource, hend, hframe⟩
    · exact ⟨hsource, i.wrapped_inside i.width_le_destinationPitch hy hwrap,
        fun x hx y' hy' htouch => h.wrapped hwrap x hx y' hy' htouch.1 htouch.2⟩

end Row

/-- **The frame of the word loop**: it is kept exactly for the safe inputs. -/
theorem wordUploader_frameKept_iff {f : BitVec 64 → BitVec 64} {g : BitVec 32 → BitVec 32}
    (hf : PairsOf f g) : i.FrameKept (wordUploader f) ↔ i.Safe := by
  rw [i.frameKept_iff_rows hf, i.not_hasWords_iff, Safe]
  by_cases hwords : i.HasWords
  · exact or_congr_right (forall_congr' fun y =>
      forall₂_congr fun hl hu => rowKept_iff hwords hl hu)
  · rw [not_hasWords_iff] at hwords
    exact ⟨fun _ => Or.inl hwords, fun _ => Or.inl hwords⟩

/-- Both active loops keep the frame exactly for the safe inputs. -/
theorem frameKept_iff :
    (i.FrameKept uploader1 ↔ i.Safe) ∧ (i.FrameKept uploader2 ↔ i.Safe) :=
  ⟨i.wordUploader_frameKept_iff alphaWord_pairs, i.wordUploader_frameKept_iff swapWord_pairs⟩

theorem secondOfTwo_x1_le : (1 : UInt32).toNat ≤ (2 : UInt32).toNat := by decide

theorem secondOfTwo_x2_le : (2 : UInt32).toNat ≤ 2 := by decide

/-- One row of two pixels, of which the second is uploaded. -/
def secondOfTwo : WordUpload where
  sourceStride := 8
  destinationStride := 8
  width := 2
  height := 1
  x1 := 1
  y1 := 0
  x2 := 2
  y2 := 1
  source_dvd := by decide
  source_width := by decide
  destination_dvd := by decide
  destination_width := by decide
  x1_le := secondOfTwo_x1_le
  x2_le := secondOfTwo_x2_le
  y1_le := by decide
  y2_le := by decide

/-- The first pixel is in the same word. -/
theorem secondOfTwo_unkept :
    ¬ secondOfTwo.FrameKept uploader1 ∧ ¬ secondOfTwo.FrameKept uploader2 := by
  have hunsafe : ¬ secondOfTwo.Safe := by
    rintro (h | h)
    · exact absurd h.1 (by decide)
    · exact absurd ((h 0 (by decide) (by decide)).aligned (by decide) (by decide)).1 (by decide)
  exact ⟨fun h => hunsafe ((secondOfTwo.wordUploader_frameKept_iff alphaWord_pairs).mp h),
    fun h => hunsafe ((secondOfTwo.wordUploader_frameKept_iff swapWord_pairs).mp h)⟩

end WordUpload

end SparkleWayland

import SparkleWayland.Lib.FixedWidth
import SparkleWayland.Were.Upload
import Mathlib.Tactic.Ring

/-!
# What `uploader_0` does to each pixel (`were/were_upload.cpp`)

Images with a stride are looked at by column and row. Where neither the strides nor the
rectangle make the `uint32_t` arithmetic wrap, the rows that `uploader_0` copies are
those of the rectangle, and they do not touch each other; a pixel of the destination
is then the one of the source, or what it was before.
-/

namespace SparkleWayland

/-- The pixel at column `x` of row `y` of an image whose rows are `stride` bytes apart. -/
def pixelAt (m : Memory (BitVec 8)) (stride x y : Nat) : BitVec 32 := m.load32 (stride * y + 4 * x)

theorem pixelAt_zero (stride x y : Nat) : pixelAt (fun _ => 0) stride x y = 0 := by
  simp [pixelAt, Memory.load32]

/-- Two pixels are equal if their four bytes are. -/
theorem pixelAt_congr {m m' : Memory (BitVec 8)} {stride stride' x x' y y' : Nat}
    (h : ∀ b < 4, m (stride * y + 4 * x + b) = m' (stride' * y' + 4 * x' + b)) :
    pixelAt m stride x y = pixelAt m' stride' x' y' := by
  have h0 := h 0 (by decide)
  have h1 := h 1 (by decide)
  have h2 := h 2 (by decide)
  have h3 := h 3 (by decide)
  simp only [pixelAt, Memory.load32, h1, h2, h3]
  rw [Nat.add_zero, Nat.add_zero] at h0
  rw [h0]

/-- The image of a buffer or a window: rows of at least `width` pixels, and an extent that
fits into 32 bits. -/
structure Fits (stride : Int32) (width height : Nat) : Prop where
  row : 4 * width ≤ stride.toInt
  extent : stride.toInt * height < 2 ^ 32

theorem Fits.toNat {stride : Int32} {width height : Nat} (h : Fits stride width height) :
    0 ≤ stride.toInt ∧ 4 * width ≤ stride.toInt.toNat ∧ stride.toInt.toNat * height < 2 ^ 32 ∧
      stride.toInt.toNat < 2 ^ 31 := by
  have hrow := h.row
  have hextent := h.extent
  have hrange := (Int32.toInt_range stride).2
  have hnonneg : 0 ≤ stride.toInt := by omega
  have hcast : ((stride.toInt.toNat * height : Nat) : Int) = stride.toInt * height := by
    rw [Nat.cast_mul, Int.toNat_of_nonneg hnonneg]
  refine ⟨hnonneg, by omega, ?_, by omega⟩
  rw [← hcast] at hextent
  exact_mod_cast hextent

/-- A product with a row of the image does not wrap. -/
theorem Fits.toNat_mul {stride : Int32} {width height : Nat} (h : Fits stride width height)
    {y : UInt32} (hy : y.toNat < height) :
    (stride.toUInt32 * y).toNat = stride.toInt.toNat * y.toNat := by
  obtain ⟨hnonneg, -, hextent, -⟩ := h.toNat
  have hstride := Int32.toNat_toUInt32 hnonneg
  rw [UInt32.toNat_mul_of_lt, hstride]
  rw [hstride]
  exact lt_of_le_of_lt (Nat.mul_le_mul_left _ hy.le) hextent

section Rectangle

variable {S D : Int32} {w h : Nat} {x1 y1 x2 y2 : UInt32}

/-- The copy of one row of the rectangle. -/
theorem uploader0Row_eq (hS : Fits S w h) (hD : Fits D w h) (hx : x1.toNat ≤ x2.toNat)
    (hw : x2.toNat ≤ w) {y : UInt32} (hy : y.toNat < h) :
    uploader0Row S D x1 x2 y =
      ⟨D.toInt.toNat * y.toNat + 4 * x1.toNat, S.toInt.toNat * y.toNat + 4 * x1.toNat,
        4 * (x2.toNat - x1.toNat)⟩ := by
  obtain ⟨-, hrow, -, hsmall⟩ := hS.toNat
  have hfour : (4 : UInt32).toNat = 4 := rfl
  have hoffset : (x1 * 4).toNat = x1.toNat * 4 := by
    rw [UInt32.toNat_mul_of_lt, hfour]
    rw [hfour]
    omega
  have hsub : (x2 - x1).toNat = x2.toNat - x1.toNat :=
    UInt32.toNat_sub_of_le _ _ (UInt32.le_iff_toNat_le.mpr hx)
  have hlength : ((x2 - x1) * 4).toNat = (x2.toNat - x1.toNat) * 4 := by
    rw [UInt32.toNat_mul_of_lt, hsub, hfour]
    rw [hsub, hfour]
    omega
  rw [uploader0Row, hS.toNat_mul hy, hD.toNat_mul hy, hoffset, hlength, Nat.mul_comm 4 x1.toNat,
    Nat.mul_comm 4]

/-- Where a byte lies in an image whose rows are `d` bytes apart. -/
theorem row_div_mod {d y k : Nat} (hk : k < d) : (d * y + k) / d = y ∧ (d * y + k) % d = k := by
  have hd : 0 < d := lt_of_le_of_lt (Nat.zero_le k) hk
  constructor
  · rw [Nat.mul_add_div hd, Nat.div_eq_of_lt hk, Nat.add_zero]
  · rw [Nat.mul_add_mod, Nat.mod_eq_of_lt hk]

/-- Offset `p` lies in a pixel of the rectangle, in an image whose rows are `stride` bytes
apart. -/
def InRectangle (x1 y1 x2 y2 : UInt32) (stride p : Nat) : Prop :=
  ∃ x y b, (x1.toNat ≤ x ∧ x < x2.toNat) ∧ (y1.toNat ≤ y ∧ y < y2.toNat) ∧ b < 4 ∧
    p = stride * y + 4 * x + b

/-- Byte `b` of column `x` of row `y` lies in the rectangle just if the column and the row do. -/
theorem inRectangle_iff {d : Nat} (hd : 4 * w ≤ d) (hw : x2.toNat ≤ w) {x y b : Nat} (hx : x < w)
    (hb : b < 4) : InRectangle x1 y1 x2 y2 d (d * y + 4 * x + b) ↔
      (x1.toNat ≤ x ∧ x < x2.toNat) ∧ y1.toNat ≤ y ∧ y < y2.toNat := by
  constructor
  · rintro ⟨x', y', b', hx', hy', hb', heq⟩
    -- row and offset in the row are determined by the byte
    have h := row_div_mod (y := y) (show 4 * x + b < d by omega)
    have h' := row_div_mod (y := y') (show 4 * x' + b' < d by omega)
    rw [← Nat.add_assoc, heq] at h
    rw [← Nat.add_assoc] at h'
    have hyy : y = y' := h.1.symm.trans h'.1
    have hoffset : 4 * x + b = 4 * x' + b' := h.2.symm.trans h'.2
    obtain rfl : x = x' := by omega
    exact ⟨hx', hyy ▸ hy'⟩
  · rintro ⟨hcols, hrows⟩
    exact ⟨x, y, b, hcols, hrows, hb, rfl⟩

/-- The copy of row `y` covers the bytes of that row of the rectangle. -/
theorem row_covers_iff (hS : Fits S w h) (hD : Fits D w h) (hx : x1.toNat ≤ x2.toNat)
    (hw : x2.toNat ≤ w) {y : UInt32} (hy : y.toNat < h) (p : Nat) :
    ((uploader0Row S D x1 x2 y).destination ≤ p ∧
        p < (uploader0Row S D x1 x2 y).destination + (uploader0Row S D x1 x2 y).length) ↔
      ∃ x b, (x1.toNat ≤ x ∧ x < x2.toNat) ∧ b < 4 ∧ p = D.toInt.toNat * y.toNat + 4 * x + b := by
  rw [uploader0Row_eq hS hD hx hw hy]
  dsimp only
  constructor
  · rintro ⟨hl, hu⟩
    refine ⟨(p - D.toInt.toNat * y.toNat) / 4, (p - D.toInt.toNat * y.toNat) % 4, ?_, ?_, ?_⟩ <;>
      omega
  · rintro ⟨x, b, hcols, hb, rfl⟩
    omega

/-- **`uploader_0` byte by byte**: it overwrites the bytes of the rectangle, each with the byte
of the source at the same place of the same row. -/
theorem uploader0_overwrites (hS : Fits S w h) (hD : Fits D w h) (hx : x1.toNat ≤ x2.toNat)
    (hw : x2.toNat ≤ w) (hh : y2.toNat ≤ h) (source : Memory (BitVec 8)) :
    Overwrites (fun (m : Memory (BitVec 8)) p => m p)
      (fun m (_ : Unit) => uploader0 m source S D x1 y1 x2 y2)
      (fun _ p => InRectangle x1 y1 x2 y2 D.toInt.toNat p)
      (fun _ p => source (S.toInt.toNat * (p / D.toInt.toNat) + p % D.toInt.toNat)) where
  hit m _ p hin := by
    obtain ⟨x, y, b, hcols, hrows, hb, rfl⟩ := hin
    have hy32 : y < 2 ^ 32 := lt_trans hrows.2 y2.toNat_lt
    have hrow : 4 * x + b < D.toInt.toNat := by
      have := hD.toNat.2.1
      omega
    have hmem : UInt32.ofNat y ∈ rows y1 y2 := by
      rw [mem_rows, UInt32.toNat_ofNat_of_lt' hy32]
      exact hrows
    refine (copyCall_overwrites source).foldl_agree m
      ⟨_, List.mem_map_of_mem hmem, (row_covers_iff hS hD hx hw ?_ _).mpr
        ⟨x, b, hcols, hb, ?_⟩⟩ fun c hc hcover => ?_
    · rw [UInt32.toNat_ofNat_of_lt' hy32]
      omega
    · rw [UInt32.toNat_ofNat_of_lt' hy32]
    · obtain ⟨y', hy', rfl⟩ := List.mem_map.mp hc
      have hyh : y'.toNat < h := lt_of_lt_of_le (mem_rows.mp hy').2 hh
      obtain ⟨x', b', hcols', hb', heq⟩ := (row_covers_iff hS hD hx hw hyh _).mp hcover
      have hrow' : 4 * x' + b' < D.toInt.toNat := by
        have := hD.toNat.2.1
        omega
      rw [uploader0Row_eq hS hD hx hw hyh, heq, Nat.add_assoc (D.toInt.toNat * y'.toNat),
        (row_div_mod hrow').1, (row_div_mod hrow').2]
      exact congrArg source (by dsimp only; omega)
  miss m _ p hout := by
    refine (copyCall_overwrites source).foldl_miss m fun c hc hcover => hout ?_
    obtain ⟨y', hy', rfl⟩ := List.mem_map.mp hc
    have hyh : y'.toNat < h := lt_of_lt_of_le (mem_rows.mp hy').2 hh
    obtain ⟨x, b, hcols, hb, heq⟩ := (row_covers_iff hS hD hx hw hyh p).mp hcover
    exact ⟨x, y'.toNat, b, hcols, mem_rows.mp hy', hb, heq⟩

/-- **`uploader_0` pixel by pixel**: a pixel of the rectangle is that of the source, any other
pixel of the destination is as it was. -/
theorem uploader0_pixelAt (hS : Fits S w h) (hD : Fits D w h) (hx : x1.toNat ≤ x2.toNat)
    (hw : x2.toNat ≤ w) (hh : y2.toNat ≤ h) (destination source : Memory (BitVec 8)) {x y : Nat}
    (hxw : x < w) :
    pixelAt (uploader0 destination source S D x1 y1 x2 y2) D.toInt.toNat x y =
      if (x1.toNat ≤ x ∧ x < x2.toNat) ∧ y1.toNat ≤ y ∧ y < y2.toNat then
        pixelAt source S.toInt.toNat x y
      else pixelAt destination D.toInt.toNat x y := by
  have hover : Overwrites _ (fun m (_ : Unit) => uploader0 m source S D x1 y1 x2 y2) _ _ :=
    uploader0_overwrites hS hD hx hw hh source
  have hiff : ∀ b < 4, InRectangle x1 y1 x2 y2 D.toInt.toNat (D.toInt.toNat * y + 4 * x + b) ↔ _ :=
    fun b hb => inRectangle_iff hD.toNat.2.1 hw hxw hb
  split
  case isTrue hin =>
    refine pixelAt_congr fun b hb => (hover.hit destination () _ ((hiff b hb).mpr hin)).trans ?_
    have hrow : 4 * x + b < D.toInt.toNat := by
      have := hD.toNat.2.1
      omega
    rw [Nat.add_assoc (D.toInt.toNat * y), (row_div_mod hrow).1, (row_div_mod hrow).2,
      ← Nat.add_assoc]
  case isFalse hout =>
    exact pixelAt_congr fun b hb => hover.miss destination () _ fun h => hout ((hiff b hb).mp h)

end Rectangle

/-! ## Several rectangles -/

/-- A rectangle inside an image of `width` by `height` pixels. -/
structure Piece (width height : Nat) where
  x1 : UInt32
  y1 : UInt32
  x2 : UInt32
  y2 : UInt32
  x1_le : x1.toNat ≤ x2.toNat
  x2_le : x2.toNat ≤ width
  y1_le : y1.toNat ≤ y2.toNat
  y2_le : y2.toNat ≤ height

namespace Piece

/-- A piece is given by its corners. -/
def ofCorners {width height : Nat} (x1 y1 x2 y2 : UInt32)
    (h : (x1.toNat ≤ x2.toNat ∧ x2.toNat ≤ width) ∧ y1.toNat ≤ y2.toNat ∧ y2.toNat ≤ height) :
    Piece width height :=
  ⟨x1, y1, x2, y2, h.1.1, h.1.2, h.2.1, h.2.2⟩

variable {S D : Int32} {w h : Nat}

/-- The rectangle is uploaded by `uploader_0`. -/
def upload (r : Piece w h) (S D : Int32) (source destination : Memory (BitVec 8)) :
    Memory (BitVec 8) :=
  uploader0 destination source S D r.x1 r.y1 r.x2 r.y2

/-- Column `x` of row `y` is one of the rectangle. -/
def Has (r : Piece w h) (x y : Nat) : Prop :=
  (r.x1.toNat ≤ x ∧ x < r.x2.toNat) ∧ r.y1.toNat ≤ y ∧ y < r.y2.toNat

/-- Offset `p` lies in a pixel of the rectangle. -/
def Bytes (r : Piece w h) (stride : Int32) (p : Nat) : Prop :=
  InRectangle r.x1 r.y1 r.x2 r.y2 stride.toInt.toNat p

/-- Uploads from one source give each byte the same value, whichever rectangle has it. -/
theorem upload_overwrites (hS : Fits S w h) (hD : Fits D w h) (source : Memory (BitVec 8)) :
    Overwrites (fun (m : Memory (BitVec 8)) p => m p)
      (fun m (r : Piece w h) => r.upload S D source m) (fun r p => r.Bytes D p)
      (fun _ p => source (S.toInt.toNat * (p / D.toInt.toNat) + p % D.toInt.toNat)) where
  hit m r p hin := (uploader0_overwrites hS hD r.x1_le r.x2_le r.y2_le source).hit m () p hin
  miss m r p hout := (uploader0_overwrites hS hD r.x1_le r.x2_le r.y2_le source).miss m () p hout

/-- **Exact uploads**: `uploader_0` gives each pixel of the rectangle the one of the source and
leaves every other byte alone; rectangles uploaded from one source give the same image in any
order. -/
theorem upload_exact (hS : Fits S w h) (hD : Fits D w h) (source destination : Memory (BitVec 8)) :
    (∀ r : Piece w h,
      (∀ x y, r.Has x y → pixelAt (r.upload S D source destination) D.toInt.toNat x y =
        pixelAt source S.toInt.toNat x y) ∧
      ∀ p, ¬ r.Bytes D p → r.upload S D source destination p = destination p) ∧
    ∀ rs rs' : List (Piece w h), rs.Perm rs' →
      rs.foldl (fun m r => r.upload S D source m) destination =
        rs'.foldl (fun m r => r.upload S D source m) destination := by
  have hover := upload_overwrites hS hD source
  refine ⟨fun r => ⟨fun x y hin => ?_, fun p hout => hover.miss destination r p hout⟩, ?_⟩
  · have hxw : x < w := lt_of_lt_of_le hin.1.2 r.x2_le
    rw [upload, uploader0_pixelAt hS hD r.x1_le r.x2_le r.y2_le destination source hxw]
    exact if_pos hin
  · intro rs rs' hperm
    funext p
    exact hover.foldl_eq_of_mem_iff (fun _ _ _ => rfl) (fun r => hperm.mem_iff) destination p

/-- The first pixel of an image of two by two. -/
def first : Piece 2 2 := ofCorners 0 0 1 1 (by decide)

/-- All of an image of two by two. -/
def all : Piece 2 2 := ofCorners 0 0 2 2 (by decide)

/-- Source rows of twelve bytes, the last four of them padding, and destination rows of eight. -/
theorem upload_exact_twoByTwo :
    pixelAt (all.upload 12 8 (BitVec.ofNat 8) fun _ => 0) 8 1 1 = pixelAt (BitVec.ofNat 8) 12 1 1 ∧
      first.upload 12 8 (BitVec.ofNat 8) (fun _ => 0) 4 = 0 ∧
      [first, all].foldl (fun m r => r.upload 12 8 (BitVec.ofNat 8) m) (fun _ => 0) =
        [all, first].foldl (fun m r => r.upload 12 8 (BitVec.ofNat 8) m) fun _ => 0 := by
  obtain ⟨hone, hmany⟩ := upload_exact (S := 12) (D := 8) (w := 2) (h := 2)
    ⟨by decide, by decide⟩ ⟨by decide, by decide⟩ (BitVec.ofNat 8) fun _ => 0
  refine ⟨(hone all).1 1 1 ⟨by decide, by decide⟩, (hone first).2 4 ?_, hmany _ _ (.swap _ _ _)⟩
  rintro ⟨x, y, b, hcols, hrows, hb, heq⟩
  have hx : x < 1 := hcols.2
  have hy : y < 1 := hrows.2
  have heq' : 4 = 8 * y + 4 * x + b := heq
  omega

end Piece

end SparkleWayland

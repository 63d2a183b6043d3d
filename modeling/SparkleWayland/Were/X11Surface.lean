import SparkleWayland.Lib.FixedWidth
import SparkleWayland.Were.Rect
import SparkleWayland.Were.Upload
import Mathlib.Data.List.Basic
import Mathlib.Tactic.Ring

/-!
# From damage requests to copied bytes (`were_x11_surface.cpp`, `sparkle_view.cpp`)

A client's damage requests reach the compositor's surface as `expand` calls; the
next commit limits the accumulated rectangle to the buffer and hands it to the
uploader. `limit` moves each edge in one direction only, so that damage which
lies outside the buffer leaves an inverted rectangle. `EdgesMeet` is what the
rectangles in force must satisfy for the uploader to stay inside the images, and
`update_safe_iff` that nothing less will do.
-/

namespace SparkleWayland

/-! ## The requests -/

/-- The two damage requests of `wl_surface`. -/
inductive DamageRequest
  | damage (x y width height : Int32)
  | damageBuffer (x y width height : Int32)
  deriving DecidableEq, Repr

/-- What the slot of `were_surface::damage` passes to `expand`: `sparkle_surface`
emits that signal for both requests, and the sums wrap. -/
def DamageRequest.rect : DamageRequest → WereRect Int32
  | damage x y width height => ⟨x, y, x + width, y + height⟩
  | damageBuffer x y width height => ⟨x, y, x + width, y + height⟩

/-- `damage_` after the requests since the last update, which reset it. -/
def damaged (requests : List DamageRequest) : WereRect Int32 :=
  accumulate .zero (requests.map DamageRequest.rect)

/-! ## The updates -/

/-- The rectangle that `were_x11_surface::update` hands to the uploader. -/
def x11UpdateRect (damage : WereRect Int32) (full : Bool) (width height : Int32) :
    WereRect Int32 :=
  (if full then damage.expand 0 0 width height else damage).limit width height

/-- The rectangle that `sparkle_view::update` hands to the uploader: the setting
`no_damage` forces a full update. -/
def viewUpdateRect (noDamage : Bool) (damage : WereRect Int32) (full : Bool)
    (width height : Int32) : WereRect Int32 :=
  (if full || noDamage then damage.expand 0 0 width height else damage).limit width height

/-- The copies of `uploader_0` for a rectangle: the corners turn into `uint32_t`,
the destination rows are `width * 4` bytes long. -/
def updateCopies (stride width : Int32) (r : WereRect Int32) : List CopyCall :=
  uploader0Copies stride (width * 4) r.x1.toUInt32 r.y1.toUInt32 r.x2.toUInt32 r.y2.toUInt32

/-- The rectangle lies in a `width` by `height` buffer. -/
def WereRect.Inside (r : WereRect Int32) (width height : Int32) : Prop :=
  0 ≤ r.x1 ∧ r.x1 ≤ r.x2 ∧ r.x2 ≤ width ∧ 0 ≤ r.y1 ∧ r.y1 ≤ r.y2 ∧ r.y2 ≤ height

instance (r : WereRect Int32) (width height : Int32) : Decidable (r.Inside width height) :=
  inferInstanceAs (Decidable (_ ∧ _))

/-- What an update owes to the memory it touches: the rectangle lies in the
buffer, and for every stride the copied ranges lie in the source of
`stride * height` bytes and in the destination of `width * height * 4` bytes. -/
structure UploadSafe (r : WereRect Int32) (width height : Int32) : Prop where
  inside : r.Inside width height
  copies : ∀ stride : Int32, 4 * width.toInt ≤ stride.toInt → ∀ c ∈ updateCopies stride width r,
    ((c.source + c.length : Nat) : Int) ≤ stride.toInt * height.toInt ∧
      ((c.destination + c.length : Nat) : Int) ≤ width.toInt * height.toInt * 4

/-! ## Rectangles inside the buffer are copied safely -/

section Copies

variable {r : WereRect Int32} {width height : Int32}

/-- A rectangle inside the buffer, with its edges as integers. -/
theorem WereRect.inside_iff :
    r.Inside width height ↔
      (0 ≤ r.x1.toInt ∧ r.x1.toInt ≤ r.x2.toInt ∧ r.x2.toInt ≤ width.toInt) ∧
        (0 ≤ r.y1.toInt ∧ r.y1.toInt ≤ r.y2.toInt ∧ r.y2.toInt ≤ height.toInt) := by
  simp only [Inside, Int32.le_iff_toInt_le, and_assoc]
  rfl

/-- A row of the image ends before the image does. -/
theorem row_end_le {stride right y rows : Nat} (hright : right ≤ stride) (hy : y < rows) :
    stride * y + right ≤ stride * rows :=
  calc stride * y + right ≤ stride * y + stride := Nat.add_le_add_left hright _
    _ = stride * (y + 1) := (Nat.mul_succ _ _).symm
    _ ≤ stride * rows := Nat.mul_le_mul_left _ hy

/-- The `memcpy` of one row, without wrapping: the row bases may only be smaller
than the products they stand for. -/
theorem uploader0Row_le (hin : r.Inside width height) (hw : 4 * width.toInt < 2 ^ 31)
    {sourceStride destinationStride : Int32} (hs : 0 ≤ sourceStride.toInt)
    (hd : 0 ≤ destinationStride.toInt) (y : UInt32) :
    let c := uploader0Row sourceStride destinationStride r.x1.toUInt32 r.x2.toUInt32 y
    c.source + c.length ≤ sourceStride.toInt.toNat * y.toNat + 4 * r.x2.toInt.toNat ∧
      c.destination + c.length ≤
        destinationStride.toInt.toNat * y.toNat + 4 * r.x2.toInt.toNat := by
  -- the corners are not negative, so that `uint32_t` keeps their values
  obtain ⟨⟨h0, h12, h2⟩, -⟩ := WereRect.inside_iff.mp hin
  have e1 := Int32.toNat_toUInt32 h0
  have e2 := Int32.toNat_toUInt32 (le_trans h0 h12)
  have es := UInt32.toNat_mul_le sourceStride.toUInt32 y
  have ed := UInt32.toNat_mul_le destinationStride.toUInt32 y
  rw [Int32.toNat_toUInt32 hs] at es
  rw [Int32.toNat_toUInt32 hd] at ed
  have eoff : (r.x1.toUInt32 * 4).toNat = r.x1.toInt.toNat * 4 := by
    rw [UInt32.toNat_mul_of_lt, e1]
    · rfl
    · rw [e1, show (4 : UInt32).toNat = 4 from rfl]
      omega
  have hsub : (r.x2.toUInt32 - r.x1.toUInt32).toNat = r.x2.toInt.toNat - r.x1.toInt.toNat := by
    rw [UInt32.toNat_sub_of_le, e1, e2]
    rw [UInt32.le_iff_toNat_le, e1, e2]
    omega
  have elen : ((r.x2.toUInt32 - r.x1.toUInt32) * 4).toNat =
      (r.x2.toInt.toNat - r.x1.toInt.toNat) * 4 := by
    rw [UInt32.toNat_mul_of_lt, hsub]
    · rfl
    · rw [hsub, show (4 : UInt32).toNat = 4 from rfl]
      omega
  simp only [uploader0Row, eoff, elen]
  omega

/-- Every copy of a rectangle inside the buffer stays inside both images. -/
theorem WereRect.Inside.uploadSafe (hin : r.Inside width height) :
    UploadSafe r width height := by
  refine ⟨hin, fun stride hstride c hc => ?_⟩
  obtain ⟨⟨hx0, hx12, hx2⟩, hy0, hy12, hy2⟩ := WereRect.inside_iff.mp hin
  obtain ⟨y, hy, rfl⟩ := List.mem_map.mp hc
  have hrange := Int32.toInt_range stride
  -- a stride of at least four bytes a pixel is itself an `int`
  have hpitch : (width * 4).toInt = width.toInt * 4 :=
    Int32.toInt_mul_of_range (b := 4) (by change _ ≤ width.toInt * 4; omega)
      (by change width.toInt * 4 < _; omega)
  obtain ⟨hsource, hdestination⟩ := uploader0Row_le (r := r) hin (by omega)
    (show 0 ≤ stride.toInt by omega) (show 0 ≤ (width * 4).toInt by omega) y
  have hylt : y.toNat < height.toInt.toNat := by
    have hlt := (mem_rows.mp hy).2
    rw [Int32.toNat_toUInt32 (le_trans hy0 hy12)] at hlt
    omega
  have hsrc := row_end_le (show 4 * r.x2.toInt.toNat ≤ stride.toInt.toNat by omega) hylt
  have hdst := row_end_le (show 4 * r.x2.toInt.toNat ≤ (width * 4).toInt.toNat by omega) hylt
  have hheight : ((height.toInt.toNat : Nat) : Int) = height.toInt := by omega
  have hsrc' : ((stride.toInt.toNat * height.toInt.toNat : Nat) : Int) =
      stride.toInt * height.toInt := by
    rw [Nat.cast_mul, hheight, Int.toNat_of_nonneg (by omega)]
  have hdst' : (((width * 4).toInt.toNat * height.toInt.toNat : Nat) : Int) =
      width.toInt * height.toInt * 4 := by
    rw [Nat.cast_mul, hheight, Int.toNat_of_nonneg (by omega), hpitch]
    ring
  exact ⟨by omega, by omega⟩

/-- Behind the end of the destination `uploader_0` leaves every byte as it was. -/
theorem UploadSafe.uploader0_outside (h : UploadSafe r width height) {stride : Int32}
    (hstride : 4 * width.toInt ≤ stride.toInt) (destination source : Memory (BitVec 8)) {p : Nat}
    (hp : width.toInt * height.toInt * 4 ≤ p) :
    uploader0 destination source stride (width * 4) r.x1.toUInt32 r.y1.toUInt32 r.x2.toUInt32
      r.y2.toUInt32 p = destination p := by
  refine (copyCall_overwrites source).foldl_miss destination fun c hc hcovers => ?_
  have hend := (h.copies stride hstride c hc).2
  omega

/-- What lies behind the end of the source has no influence on `uploader_0`. -/
theorem UploadSafe.uploader0_source (h : UploadSafe r width height) {stride : Int32}
    (hstride : 4 * width.toInt ≤ stride.toInt) (destination : Memory (BitVec 8))
    {source source' : Memory (BitVec 8)}
    (hsource : ∀ p : Nat, (p : Int) < stride.toInt * height.toInt → source p = source' p) :
    uploader0 destination source stride (width * 4) r.x1.toUInt32 r.y1.toUInt32 r.x2.toUInt32
        r.y2.toUInt32 =
      uploader0 destination source' stride (width * 4) r.x1.toUInt32 r.y1.toUInt32 r.x2.toUInt32
        r.y2.toUInt32 := by
  refine List.foldl_ext _ _ _ fun m c hc => funext fun p => ?_
  have hend := (h.copies stride hstride c hc).1
  unfold Memory.copy
  split
  case isTrue hp => exact hsource _ (by omega)
  case isFalse => rfl

end Copies

/-! ## When the limited rectangle is inside the buffer -/

/-- Along one axis of length `size`, the damage of a group reaches the buffer from
both sides and is not inverted. -/
def AxisMeets (low high : WereRect Int32 → Int32) (g : List (WereRect Int32)) (size : Int32) :
    Prop :=
  (∃ a ∈ g, ∃ b ∈ g, low a ≤ high b) ∧ (∃ a ∈ g, low a ≤ size) ∧ ∃ b ∈ g, 0 ≤ high b

/-- The damage of a group meets the buffer along both axes. -/
def EdgesMeet (g : List (WereRect Int32)) (width height : Int32) : Prop :=
  AxisMeets WereRect.x1 WereRect.x2 g width ∧ AxisMeets WereRect.y1 WereRect.y2 g height

instance (low high : WereRect Int32 → Int32) (g : List (WereRect Int32)) (size : Int32) :
    Decidable (AxisMeets low high g size) :=
  inferInstanceAs (Decidable (_ ∧ _))

instance (g : List (WereRect Int32)) (width height : Int32) :
    Decidable (EdgesMeet g width height) :=
  inferInstanceAs (Decidable (_ ∧ _))

/-- `AxisMeets` through the extreme edges of the group. -/
theorem axisMeets_iff {low high : WereRect Int32 → Int32} {g : List (WereRect Int32)}
    {size : Int32} {l u : Int} (hl : IsLeast (edges low g) l) (hu : IsGreatest (edges high g) u) :
    AxisMeets low high g size ↔ l ≤ u ∧ l ≤ size.toInt ∧ 0 ≤ u := by
  obtain ⟨⟨a, ha, rfl⟩, hleast⟩ := hl
  obtain ⟨⟨b, hb, rfl⟩, hgreatest⟩ := hu
  have low_le : ∀ q ∈ g, (low a).toInt ≤ (low q).toInt := fun q hq => hleast ⟨q, hq, rfl⟩
  have le_high : ∀ q ∈ g, (high q).toInt ≤ (high b).toInt := fun q hq => hgreatest ⟨q, hq, rfl⟩
  simp only [AxisMeets, Int32.le_iff_toInt_le]
  constructor
  · rintro ⟨⟨p, hp, q, hq, hpq⟩, ⟨s, hs, hsize⟩, t, ht, hzero⟩
    exact ⟨(low_le p hp).trans (hpq.trans (le_high q hq)), (low_le s hs).trans hsize,
      le_trans hzero (le_high t ht)⟩
  · rintro ⟨h1, h2, h3⟩
    exact ⟨⟨a, ha, b, hb, h1⟩, ⟨a, ha, h2⟩, b, hb, h3⟩

section Limit

theorem toInt_limit_low (a : Int32) : (if a < 0 then 0 else a).toInt = max a.toInt 0 := by
  have hzero : Int32.toInt 0 = 0 := rfl
  split <;> rename_i h <;> rw [Int32.lt_iff_toInt_lt, hzero] at h <;> omega

theorem toInt_limit_high (a size : Int32) :
    (if a > size then size else a).toInt = min a.toInt size.toInt := by
  split <;> rename_i h <;> rw [gt_iff_lt, Int32.lt_iff_toInt_lt] at h <;> omega

variable {width height : Int32}

/-- A limited rectangle is inside the buffer when no pair of edges has crossed. -/
theorem WereRect.inside_limit_iff (r : WereRect Int32) (hw : 0 ≤ width.toInt)
    (hh : 0 ≤ height.toInt) :
    (r.limit width height).Inside width height ↔
      (r.x1.toInt ≤ r.x2.toInt ∧ r.x1.toInt ≤ width.toInt ∧ 0 ≤ r.x2.toInt) ∧
        (r.y1.toInt ≤ r.y2.toInt ∧ r.y1.toInt ≤ height.toInt ∧ 0 ≤ r.y2.toInt) := by
  rw [inside_iff]
  simp only [limit, toInt_limit_low, toInt_limit_high]
  omega

/-- The limited hull of a group is inside the buffer exactly when the edges of the
group meet it. -/
theorem IsHull.inside_limit_iff {r : WereRect Int32} {g : List (WereRect Int32)}
    (h : IsHull r g) (hw : 0 ≤ width.toInt) (hh : 0 ≤ height.toInt) :
    (r.limit width height).Inside width height ↔ EdgesMeet g width height := by
  rw [r.inside_limit_iff hw hh, EdgesMeet, axisMeets_iff h.left h.right,
    axisMeets_iff h.top h.bottom]

/-- A full update covers exactly the buffer, whatever was accumulated. -/
theorem WereRect.limit_expand_full (r : WereRect Int32) (width height : Int32) :
    (r.expand 0 0 width height).limit width height = ⟨0, 0, width, height⟩ := by
  have hzero : Int32.toInt 0 = 0 := rfl
  have low : ∀ a : Int32, a.toInt ≤ 0 → (if a < 0 then 0 else a) = 0 := fun a ha =>
    Int32.toInt.inj (by rw [toInt_limit_low, hzero]; omega)
  have high : ∀ a size : Int32, size.toInt ≤ a.toInt → (if a > size then size else a) = size :=
    fun a size ha => Int32.toInt.inj (by rw [toInt_limit_high]; omega)
  unfold expand
  split
  · simp only [limit, WereRect.mk.injEq]
    exact ⟨low 0 (by omega), low 0 (by omega), high _ _ le_rfl, high _ _ le_rfl⟩
  · simp only [limit, WereRect.mk.injEq]
    refine ⟨low _ ?_, low _ ?_, high _ _ ?_, high _ _ ?_⟩
    · rw [toInt_ite_lt]
      omega
    · rw [toInt_ite_lt]
      omega
    · rw [toInt_ite_gt]
      omega
    · rw [toInt_ite_gt]
      omega

end Limit

/-! ## The update as a whole -/

/-- A full update, an update without damage, and one whose damage in force meets
the buffer are safe; no other is. -/
theorem x11UpdateRect_safe_iff (requests : List DamageRequest) (full : Bool)
    {width height : Int32} (hw : 1 ≤ width) (hh : 1 ≤ height) :
    UploadSafe (x11UpdateRect (damaged requests) full width height) width height ↔
      full = true ∨ requests = [] ∨
        EdgesMeet (inForce (requests.map DamageRequest.rect)) width height := by
  have hone : Int32.toInt 1 = 1 := rfl
  rw [Int32.le_iff_toInt_le, hone] at hw hh
  have hsafe : ∀ r : WereRect Int32, UploadSafe r width height ↔ r.Inside width height :=
    fun r => ⟨UploadSafe.inside, WereRect.Inside.uploadSafe⟩
  rw [hsafe, x11UpdateRect]
  cases full with
  | true =>
    rw [if_pos rfl, WereRect.limit_expand_full, WereRect.inside_iff]
    refine iff_of_true ⟨⟨le_rfl, ?_, le_rfl⟩, le_rfl, ?_, le_rfl⟩ (Or.inl rfl)
    · exact le_trans zero_le_one hw
    · exact le_trans zero_le_one hh
  | false =>
    rw [if_neg Bool.false_ne_true]
    by_cases hnil : requests = []
    · -- the rectangle is all zero, and the loop over its rows is empty
      subst hnil
      refine iff_of_true ((WereRect.inside_limit_iff _ (by omega) (by omega)).mpr ?_)
        (Or.inr (Or.inl rfl))
      exact ⟨⟨le_rfl, le_trans zero_le_one hw, le_rfl⟩, le_rfl, le_trans zero_le_one hh, le_rfl⟩
    · have hull := accumulate_hull (requests.map DamageRequest.rect)
        (fun h => hnil (List.map_eq_nil_iff.mp h))
      rw [damaged, hull.inside_limit_iff (by omega) (by omega)]
      simp only [hnil, false_or, Bool.false_eq_true]

end SparkleWayland

import SparkleWayland.Were.X11Surface

/-!
# Which pixels the damage reaches

A damage request names a rectangle of pixels. Where its sums do not wrap, the
rectangle that an update hands to the uploader has every pixel of it that the buffer has:
a group of rectangles with a pixel in it does not vanish, and `limit` cuts away
nothing but what lies outside.
-/

namespace SparkleWayland

namespace DamageRequest

def x : DamageRequest → Int32
  | damage x _ _ _ | damageBuffer x _ _ _ => x

def y : DamageRequest → Int32
  | damage _ y _ _ | damageBuffer _ y _ _ => y

def width : DamageRequest → Int32
  | damage _ _ width _ | damageBuffer _ _ width _ => width

def height : DamageRequest → Int32
  | damage _ _ _ height | damageBuffer _ _ _ height => height

theorem rect_eq (q : DamageRequest) : q.rect = ⟨q.x, q.y, q.x + q.width, q.y + q.height⟩ := by
  cases q <;> rfl

/-- The pixel lies in the rectangle that the request names. -/
def Covers (q : DamageRequest) (x y : Nat) : Prop :=
  (q.x.toInt ≤ x ∧ (x : Int) < q.x.toInt + q.width.toInt) ∧
    q.y.toInt ≤ y ∧ (y : Int) < q.y.toInt + q.height.toInt

instance (q : DamageRequest) (x y : Nat) : Decidable (q.Covers x y) :=
  inferInstanceAs (Decidable (_ ∧ _))

/-- The right and the bottom edge of the request are `int`s. -/
def Fits (q : DamageRequest) : Prop :=
  (-2147483648 ≤ q.x.toInt + q.width.toInt ∧ q.x.toInt + q.width.toInt < 2147483648) ∧
    -2147483648 ≤ q.y.toInt + q.height.toInt ∧ q.y.toInt + q.height.toInt < 2147483648

instance (q : DamageRequest) : Decidable q.Fits := inferInstanceAs (Decidable (_ ∧ _))

end DamageRequest

namespace WereRect

/-- The pixel lies in the rectangle. -/
def Contains (r : WereRect Int32) (x y : Nat) : Prop :=
  (r.x1.toInt ≤ x ∧ (x : Int) < r.x2.toInt) ∧ r.y1.toInt ≤ y ∧ (y : Int) < r.y2.toInt

instance (r : WereRect Int32) (x y : Nat) : Decidable (r.Contains x y) :=
  inferInstanceAs (Decidable (_ ∧ _))

end WereRect

theorem DamageRequest.contains_rect_iff {q : DamageRequest} (h : q.Fits) {x y : Nat} :
    q.rect.Contains x y ↔ q.Covers x y := by
  -- no sum of the slot wraps around
  have hx : (q.x + q.width).toInt = q.x.toInt + q.width.toInt := by
    rw [Int32.toInt_add]
    exact Int.bmod_eq_of_le (by have := h.1; omega) (by have := h.1; omega)
  have hy : (q.y + q.height).toInt = q.y.toInt + q.height.toInt := by
    rw [Int32.toInt_add]
    exact Int.bmod_eq_of_le (by have := h.2; omega) (by have := h.2; omega)
  rw [rect_eq, WereRect.Contains, Covers, hx, hy]

/-- A rectangle with a pixel in it stays in force. -/
theorem mem_inForce {qs : List (WereRect Int32)} {q : WereRect Int32} (hq : q ∈ qs) {x y : Nat}
    (hxy : q.Contains x y) : q ∈ inForce qs := by
  induction qs using List.reverseRecOn with
  | nil => cases hq
  | append_singleton qs p ih =>
    rw [inForce_append]
    rcases List.mem_append.mp hq with hq | hq
    · have hin := ih hq
      rw [if_neg]
      · exact List.mem_append_left _ hin
      · -- a vanishing group lies left of all pixels
        rintro ⟨-, -, hright, -⟩
        have hle := hright.2 ⟨q, hin, rfl⟩
        have hlt := hxy.1.2
        omega
    · rw [List.mem_singleton.mp hq]
      split <;> simp

/-- Along one axis, the position lies between the outer edges of a group. -/
def AxisReached (low high : WereRect Int32 → Int32) (g : List (WereRect Int32)) (v : Nat) : Prop :=
  (∃ a ∈ g, (low a).toInt ≤ v) ∧ ∃ b ∈ g, (v : Int) < (high b).toInt

/-- The pixel lies within the outer edges of a group. -/
def Reached (g : List (WereRect Int32)) (x y : Nat) : Prop :=
  AxisReached WereRect.x1 WereRect.x2 g x ∧ AxisReached WereRect.y1 WereRect.y2 g y

instance (low high : WereRect Int32 → Int32) (g : List (WereRect Int32)) (v : Nat) :
    Decidable (AxisReached low high g v) :=
  inferInstanceAs (Decidable (_ ∧ _))

instance (g : List (WereRect Int32)) (x y : Nat) : Decidable (Reached g x y) :=
  inferInstanceAs (Decidable (_ ∧ _))

/-- `AxisReached` through the extreme edges of the group. -/
theorem axisReached_iff {low high : WereRect Int32 → Int32} {g : List (WereRect Int32)}
    {l u : Int} (hl : IsLeast (edges low g) l) (hu : IsGreatest (edges high g) u) {v : Nat} :
    AxisReached low high g v ↔ l ≤ v ∧ v < u := by
  obtain ⟨⟨a, ha, rfl⟩, hleast⟩ := hl
  obtain ⟨⟨b, hb, rfl⟩, hgreatest⟩ := hu
  constructor
  · rintro ⟨⟨p, hp, hpv⟩, q, hq, hqv⟩
    exact ⟨le_trans (hleast ⟨p, hp, rfl⟩) hpv, lt_of_lt_of_le hqv (hgreatest ⟨q, hq, rfl⟩)⟩
  · rintro ⟨hlow, hhigh⟩
    exact ⟨⟨a, ha, hlow⟩, b, hb, hhigh⟩

theorem IsHull.contains_iff {r : WereRect Int32} {g : List (WereRect Int32)} (h : IsHull r g)
    {x y : Nat} : r.Contains x y ↔ Reached g x y := by
  rw [WereRect.Contains, Reached, axisReached_iff h.left h.right, axisReached_iff h.top h.bottom]

/-- A single rectangle in force that has the pixel is enough. -/
theorem reached_of_mem {g : List (WereRect Int32)} {q : WereRect Int32} (hq : q ∈ g) {x y : Nat}
    (hxy : q.Contains x y) : Reached g x y :=
  ⟨⟨⟨q, hq, hxy.1.1⟩, q, hq, hxy.1.2⟩, ⟨q, hq, hxy.2.1⟩, q, hq, hxy.2.2⟩

/-! ## The rectangle of an update -/

section Update

variable {requests : List DamageRequest} {width height : Int32}

/-- Cutting a rectangle to the buffer keeps the pixels that the buffer has. -/
theorem WereRect.contains_limit_iff (r : WereRect Int32) {x y : Nat}
    (hx : (x : Int) < width.toInt) (hy : (y : Int) < height.toInt) :
    (r.limit width height).Contains x y ↔ r.Contains x y := by
  simp only [Contains, limit, toInt_limit_low, toInt_limit_high]
  omega

/-- The pixels of the buffer that a partial update uploads. -/
theorem contains_x11UpdateRect_iff {x y : Nat} (hx : (x : Int) < width.toInt)
    (hy : (y : Int) < height.toInt) :
    (x11UpdateRect (damaged requests) false width height).Contains x y ↔
      Reached (inForce (requests.map DamageRequest.rect)) x y := by
  rw [x11UpdateRect, if_neg Bool.false_ne_true, WereRect.contains_limit_iff _ hx hy]
  by_cases hnil : requests = []
  · -- the zero rectangle has no pixel
    subst hnil
    refine iff_of_false ?_ ?_
    · rintro ⟨⟨-, hlt⟩, -⟩
      exact absurd hlt (Int.not_lt.mpr (Int.natCast_nonneg x))
    · rintro ⟨⟨⟨a, ha, -⟩, -⟩, -⟩
      cases ha
  · exact (accumulate_hull _ fun h => hnil (List.map_eq_nil_iff.mp h)).contains_iff

/-- A request whose edges are `int`s is uploaded. -/
theorem reached_of_covers {q : DamageRequest} (hq : q ∈ requests) (hfits : q.Fits) {x y : Nat}
    (hxy : q.Covers x y) : Reached (inForce (requests.map DamageRequest.rect)) x y := by
  have hrect := (DamageRequest.contains_rect_iff hfits).mpr hxy
  exact reached_of_mem (mem_inForce (List.mem_map_of_mem hq) hrect) hrect

/-- A full update uploads the whole buffer. -/
theorem contains_x11UpdateRect_full (damage : WereRect Int32) {x y : Nat}
    (hx : (x : Int) < width.toInt) (hy : (y : Int) < height.toInt) :
    (x11UpdateRect damage true width height).Contains x y := by
  rw [x11UpdateRect, if_pos rfl, WereRect.limit_expand_full]
  exact ⟨⟨Int.natCast_nonneg x, hx⟩, Int.natCast_nonneg y, hy⟩

/-- A rectangle that was cut to the buffer and has a pixel of it lies inside. -/
theorem inside_of_contains {damage : WereRect Int32} {full : Bool} {x y : Nat}
    (h : (x11UpdateRect damage full width height).Contains x y) :
    (x11UpdateRect damage full width height).Inside width height := by
  rw [WereRect.inside_iff]
  revert h
  simp only [x11UpdateRect, WereRect.Contains, WereRect.limit, toInt_limit_low, toInt_limit_high]
  omega

end Update

end SparkleWayland

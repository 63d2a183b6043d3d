import SparkleWayland.Were.Damage

/-!
# Is all damage kept?

The slots of `damage` add the extent of a request to its origin in `int`. A client that
says "from here to the end" with an extent of `INT_MAX` has its right or bottom edge wrap
around, and the request then reaches nowhere. `damageKept_iff` says when the damaged
rectangle has every pixel of the surface that was asked for all the same: the other
requests have to make up for those whose edges do not fit.
-/

namespace SparkleWayland

namespace DamageRequest

/-- The request has pixels on a surface of this size. -/
def Visible (q : DamageRequest) (width height : Int32) : Prop :=
  max q.x.toInt 0 < min (q.x.toInt + q.width.toInt) width.toInt ∧
    max q.y.toInt 0 < min (q.y.toInt + q.height.toInt) height.toInt

/-- The outer edges of the group lie around the pixels that the request has on the
surface. -/
def Surrounded (q : DamageRequest) (width height : Int32) (g : List (WereRect Int32)) : Prop :=
  ((∃ a ∈ g, a.x1.toInt ≤ max q.x.toInt 0) ∧
      ∃ b ∈ g, min (q.x.toInt + q.width.toInt) width.toInt ≤ b.x2.toInt) ∧
    (∃ a ∈ g, a.y1.toInt ≤ max q.y.toInt 0) ∧
      ∃ b ∈ g, min (q.y.toInt + q.height.toInt) height.toInt ≤ b.y2.toInt

instance (q : DamageRequest) (width height : Int32) : Decidable (q.Visible width height) :=
  inferInstanceAs (Decidable (_ ∧ _))

instance (q : DamageRequest) (width height : Int32) (g : List (WereRect Int32)) :
    Decidable (q.Surrounded width height g) :=
  inferInstanceAs (Decidable ((_ ∧ _) ∧ _ ∧ _))

end DamageRequest

/-- The damaged rectangle, cut to the surface, has every pixel of the surface that lies in
one of the requests. -/
def DamageKept (requests : List DamageRequest) (width height : Int32) : Prop :=
  ∀ q ∈ requests, ∀ x y : Nat, (x : Int) < width.toInt → (y : Int) < height.toInt →
    q.Covers x y → ((damaged requests).limit width height).Contains x y

/-- Where the edges of a visible request wrap around, the requests in force surround it. -/
def MadeUpFor (requests : List DamageRequest) (width height : Int32) : Prop :=
  ∀ q ∈ requests, q.Visible width height → ¬ q.Fits →
    q.Surrounded width height (inForce (requests.map DamageRequest.rect))

section Axis

variable {low high : WereRect Int32 → Int32} {g : List (WereRect Int32)}

/-- A group reaches all positions of an interval if its outer edges lie around it. -/
theorem axisReached_interval_iff {l u : Int} (h : max l 0 < u) :
    (∀ v : Nat, l ≤ v → (v : Int) < u → AxisReached low high g v) ↔
      (∃ a ∈ g, (low a).toInt ≤ max l 0) ∧ ∃ b ∈ g, u ≤ (high b).toInt := by
  constructor
  · intro hall
    -- the first and the last position of the interval
    have hfirst := hall (max l 0).toNat (by omega) (by omega)
    have hlast := hall (u - 1).toNat (by omega) (by omega)
    obtain ⟨a, ha, hle⟩ := hfirst.1
    obtain ⟨b, hb, hlt⟩ := hlast.2
    exact ⟨⟨a, ha, by omega⟩, b, hb, by omega⟩
  · rintro ⟨⟨a, ha, hle⟩, b, hb, hge⟩ v hlow hhigh
    exact ⟨⟨a, ha, by omega⟩, b, hb, by omega⟩

end Axis

variable {requests : List DamageRequest} {q : DamageRequest} {width height : Int32}

/-- The pixels of a request on the surface, one axis at a time. -/
theorem DamageRequest.covers_all_iff {P Q : Nat → Prop} (hvisible : q.Visible width height) :
    (∀ x y : Nat, (x : Int) < width.toInt → (y : Int) < height.toInt → q.Covers x y →
        P x ∧ Q y) ↔
      (∀ x : Nat, q.x.toInt ≤ x → (x : Int) < min (q.x.toInt + q.width.toInt) width.toInt →
          P x) ∧
        ∀ y : Nat, q.y.toInt ≤ y → (y : Int) < min (q.y.toInt + q.height.toInt) height.toInt →
          Q y := by
  obtain ⟨hx, hy⟩ := hvisible
  constructor
  · intro h
    refine ⟨fun x hlow hhigh => ?_, fun y hlow hhigh => ?_⟩
    · exact (h x (max q.y.toInt 0).toNat (by omega) (by omega)
        ⟨⟨hlow, by omega⟩, by omega, by omega⟩).1
    · exact (h (max q.x.toInt 0).toNat y (by omega) (by omega)
        ⟨⟨by omega, by omega⟩, hlow, by omega⟩).2
  · rintro ⟨hP, hQ⟩ x y hxw hyh ⟨⟨hxl, hxr⟩, hyl, hyr⟩
    exact ⟨hP x hxl (by omega), hQ y hyl (by omega)⟩

/-- A visible request is reached by a group just if it is surrounded by it. -/
theorem DamageRequest.surrounded_iff {g : List (WereRect Int32)}
    (hvisible : q.Visible width height) :
    (∀ x y : Nat, (x : Int) < width.toInt → (y : Int) < height.toInt → q.Covers x y →
      Reached g x y) ↔ q.Surrounded width height g := by
  refine (DamageRequest.covers_all_iff hvisible).trans ?_
  rw [axisReached_interval_iff hvisible.1, axisReached_interval_iff hvisible.2]
  rfl

/-- A request with a pixel on the surface is visible. -/
theorem DamageRequest.visible_of_covers {x y : Nat} (hx : (x : Int) < width.toInt)
    (hy : (y : Int) < height.toInt) (hxy : q.Covers x y) : q.Visible width height := by
  obtain ⟨⟨hxl, hxr⟩, hyl, hyr⟩ := hxy
  exact ⟨by omega, by omega⟩

/-- No damage is lost exactly if the requests in force make up for those whose right or
bottom edge is no `int`. -/
theorem damageKept_iff (requests : List DamageRequest) (width height : Int32) :
    DamageKept requests width height ↔ MadeUpFor requests width height := by
  have hcut (x y : Nat) (hx : (x : Int) < width.toInt) (hy : (y : Int) < height.toInt) :
      ((damaged requests).limit width height).Contains x y ↔
        Reached (inForce (requests.map DamageRequest.rect)) x y := by
    rw [← contains_x11UpdateRect_iff hx hy, x11UpdateRect, if_neg Bool.false_ne_true]
  constructor
  · intro hkept q hq hvisible _
    refine (DamageRequest.surrounded_iff hvisible).mp fun x y hx hy hxy => ?_
    exact (hcut x y hx hy).mp (hkept q hq x y hx hy hxy)
  · intro hmade q hq x y hx hy hxy
    rw [hcut x y hx hy]
    by_cases hfits : q.Fits
    · exact reached_of_covers hq hfits hxy
    · have hvisible := DamageRequest.visible_of_covers hx hy hxy
      have hall := (DamageRequest.surrounded_iff hvisible).mpr (hmade q hq hvisible hfits)
      exact hall x y hx hy hxy

/-- The requests of clients that stay within `int` are all kept. -/
theorem madeUpFor_of_fits (h : ∀ q ∈ requests, q.Fits) : MadeUpFor requests width height :=
  fun q hq _ hnot => absurd (h q hq) hnot

/-- From the second column on, as far as an `int` goes. -/
def toTheRight : DamageRequest := .damage 1 0 2147483647 1

theorem toTheRight_lost : ¬ DamageKept [toTheRight] 2 2 := by
  intro h
  have hpixel := h toTheRight (List.mem_singleton_self _) 1 0 (by decide) (by decide) (by decide)
  revert hpixel
  decide

end SparkleWayland

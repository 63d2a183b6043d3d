import Mathlib.Order.Bounds.Basic
import Mathlib.Order.Bounds.Image
import Mathlib.Order.Interval.Set.Basic
import Mathlib.Data.Int.Order.Basic
import Mathlib.Data.List.Induction

/-!
# Damage rectangles (`were/math/were_rect.h`)

`were_rect<T>` accumulates damage: `expand` widens the rectangle by another
one, `limit` cuts it to a surface, and the rectangle whose four edges are zero
doubles as "no damage". That encoding is why the accumulated rectangle is not
simply the hull of all requests: whenever the hull happens to be all zero, the
next request starts afresh. `inForce` is the group of rectangles that still
count, and `accumulate_hull` says that the accumulator holds exactly the extreme
edges of that group.
-/

namespace SparkleWayland

/-- `were_rect<T>`. -/
structure WereRect (T : Type) where
  x1 : T
  y1 : T
  x2 : T
  y2 : T
  deriving DecidableEq, Repr

namespace WereRect

variable {T : Type} [OfNat T 0] [DecidableEq T] [LT T] [DecidableLT T]

/-- The default constructor; `reset` stores the same value. -/
def zero : WereRect T := ⟨0, 0, 0, 0⟩

/-- `were_rect::empty`. -/
def empty (r : WereRect T) : Bool :=
  decide (r.x1 = 0) && decide (r.y1 = 0) && decide (r.x2 = 0) && decide (r.y2 = 0)

/-- `were_rect::expand`. -/
def expand (r : WereRect T) (x1 y1 x2 y2 : T) : WereRect T :=
  if r.empty then ⟨x1, y1, x2, y2⟩
  else
    { x1 := if x1 < r.x1 then x1 else r.x1
      y1 := if y1 < r.y1 then y1 else r.y1
      x2 := if x2 > r.x2 then x2 else r.x2
      y2 := if y2 > r.y2 then y2 else r.y2 }

/-- `were_rect::limit`. -/
def limit (r : WereRect T) (width height : T) : WereRect T :=
  { x1 := if r.x1 < 0 then 0 else r.x1
    y1 := if r.y1 < 0 then 0 else r.y1
    x2 := if r.x2 > width then width else r.x2
    y2 := if r.y2 > height then height else r.y2 }

omit [LT T] [DecidableLT T] in
theorem empty_iff (r : WereRect T) : r.empty = true ↔ r = zero := by
  obtain ⟨x1, y1, x2, y2⟩ := r
  simp [empty, zero, and_assoc]

/-- Expanding "no damage" stores the new rectangle. -/
theorem expand_zero (x1 y1 x2 y2 : T) :
    (zero : WereRect T).expand x1 y1 x2 y2 = ⟨x1, y1, x2, y2⟩ :=
  if_pos ((empty_iff _).mpr rfl)

end WereRect

/-! ## The hull of a group of rectangles -/

section Hull

/-- The values an edge takes in a group of rectangles. -/
def edges (edge : WereRect Int32 → Int32) (g : List (WereRect Int32)) : Set Int :=
  {v | ∃ q ∈ g, (edge q).toInt = v}

theorem edges_append (edge : WereRect Int32 → Int32) (g : List (WereRect Int32))
    (q : WereRect Int32) : edges edge (g ++ [q]) = insert (edge q).toInt (edges edge g) := by
  ext v
  constructor
  · rintro ⟨p, hp, hv⟩
    rcases List.mem_append.mp hp with hp | hp
    · exact Or.inr ⟨p, hp, hv⟩
    · exact Or.inl (List.mem_singleton.mp hp ▸ hv.symm)
  · rintro (hv | ⟨p, hp, hv⟩)
    · exact ⟨q, List.mem_append_right _ (List.mem_singleton_self q), hv.symm⟩
    · exact ⟨p, List.mem_append_left _ hp, hv⟩

theorem edges_singleton (edge : WereRect Int32 → Int32) (q : WereRect Int32) :
    edges edge [q] = {(edge q).toInt} := by
  ext v
  simp [edges, eq_comm]

/-- `r` holds the extreme edges of the group `g`: the least left and top, the
greatest right and bottom edge. -/
structure IsHull (r : WereRect Int32) (g : List (WereRect Int32)) : Prop where
  left : IsLeast (edges WereRect.x1 g) r.x1.toInt
  top : IsLeast (edges WereRect.y1 g) r.y1.toInt
  right : IsGreatest (edges WereRect.x2 g) r.x2.toInt
  bottom : IsGreatest (edges WereRect.y2 g) r.y2.toInt

theorem isHull_singleton (q : WereRect Int32) : IsHull q [q] := by
  constructor <;> rw [edges_singleton]
  · exact isLeast_singleton
  · exact isLeast_singleton
  · exact isGreatest_singleton
  · exact isGreatest_singleton

theorem toInt_ite_lt (a b : Int32) :
    (if a < b then a else b).toInt = min a.toInt b.toInt := by
  split
  · rename_i h
    exact (min_eq_left (Int32.lt_iff_toInt_lt.mp h).le).symm
  · rename_i h
    exact (min_eq_right (not_lt.mp fun h' => h (Int32.lt_iff_toInt_lt.mpr h'))).symm

theorem toInt_ite_gt (a b : Int32) :
    (if a > b then a else b).toInt = max a.toInt b.toInt := by
  split
  · rename_i h
    exact (max_eq_left (Int32.lt_iff_toInt_lt.mp h).le).symm
  · rename_i h
    exact (max_eq_right (not_lt.mp fun h' => h (Int32.lt_iff_toInt_lt.mpr h'))).symm

/-- Expanding a rectangle that is not "no damage" widens the hull by one member. -/
theorem IsHull.expand {r : WereRect Int32} {g : List (WereRect Int32)} (h : IsHull r g)
    (hne : r.empty = false) (q : WereRect Int32) :
    IsHull (r.expand q.x1 q.y1 q.x2 q.y2) (g ++ [q]) := by
  have he : r.expand q.x1 q.y1 q.x2 q.y2 = _ := if_neg (by simp [hne])
  rw [he]
  constructor <;> rw [edges_append] <;> simp only [toInt_ite_lt, toInt_ite_gt]
  · exact h.left.insert _
  · exact h.top.insert _
  · exact h.right.insert _
  · exact h.bottom.insert _

/-- The group has extreme edges that are all zero, so that its hull is the
rectangle which stands for "no damage". -/
def Vanishing (g : List (WereRect Int32)) : Prop :=
  IsLeast (edges WereRect.x1 g) 0 ∧ IsLeast (edges WereRect.y1 g) 0 ∧
    IsGreatest (edges WereRect.x2 g) 0 ∧ IsGreatest (edges WereRect.y2 g) 0

theorem isLeast_edges_iff (edge : WereRect Int32 → Int32) (g : List (WereRect Int32)) :
    IsLeast (edges edge g) 0 ↔ (∃ q ∈ g, (edge q).toInt = 0) ∧ ∀ q ∈ g, 0 ≤ (edge q).toInt :=
  and_congr_right fun _ => ⟨fun h q hq => h ⟨q, hq, rfl⟩, fun h _ ⟨q, hq, hv⟩ => hv ▸ h q hq⟩

theorem isGreatest_edges_iff (edge : WereRect Int32 → Int32) (g : List (WereRect Int32)) :
    IsGreatest (edges edge g) 0 ↔
      (∃ q ∈ g, (edge q).toInt = 0) ∧ ∀ q ∈ g, (edge q).toInt ≤ 0 :=
  and_congr_right fun _ => ⟨fun h q hq => h ⟨q, hq, rfl⟩, fun h _ ⟨q, hq, hv⟩ => hv ▸ h q hq⟩

instance : DecidablePred Vanishing := fun g =>
  decidable_of_iff _ (and_congr (isLeast_edges_iff _ g) (and_congr (isLeast_edges_iff _ g)
    (and_congr (isGreatest_edges_iff _ g) (isGreatest_edges_iff _ g)))).symm

theorem toInt_eq_zero {a : Int32} : a.toInt = 0 ↔ a = 0 :=
  ⟨fun h => Int32.toInt.inj h, fun h => by rw [h]; rfl⟩

/-- A hull is "no damage" exactly when its group vanishes. -/
theorem IsHull.empty_iff {r : WereRect Int32} {g : List (WereRect Int32)} (h : IsHull r g) :
    r.empty = true ↔ Vanishing g := by
  rw [WereRect.empty_iff]
  constructor
  · rintro rfl
    exact ⟨h.left, h.top, h.right, h.bottom⟩
  · rintro ⟨hl, ht, hr, hb⟩
    have e1 := toInt_eq_zero.mp (h.left.unique hl)
    have e2 := toInt_eq_zero.mp (h.top.unique ht)
    have e3 := toInt_eq_zero.mp (h.right.unique hr)
    have e4 := toInt_eq_zero.mp (h.bottom.unique hb)
    obtain ⟨x1, y1, x2, y2⟩ := r
    subst e1 e2 e3 e4
    rfl

end Hull

/-! ## Accumulation -/

/-- The rectangle after a list of `expand` calls on `r`. -/
def accumulate (r : WereRect Int32) (qs : List (WereRect Int32)) : WereRect Int32 :=
  qs.foldl (fun r q => r.expand q.x1 q.y1 q.x2 q.y2) r

theorem accumulate_append (r : WereRect Int32) (qs : List (WereRect Int32))
    (q : WereRect Int32) :
    accumulate r (qs ++ [q]) = (accumulate r qs).expand q.x1 q.y1 q.x2 q.y2 := by
  rw [accumulate, accumulate, List.foldl_append]
  rfl

/-- The rectangles that still count: a group whose extreme edges are all zero is
forgotten by the next rectangle. -/
def inForce (qs : List (WereRect Int32)) : List (WereRect Int32) :=
  qs.foldl (fun g q => if Vanishing g then [q] else g ++ [q]) []

theorem inForce_append (qs : List (WereRect Int32)) (q : WereRect Int32) :
    inForce (qs ++ [q]) = if Vanishing (inForce qs) then [q] else inForce qs ++ [q] := by
  rw [inForce, List.foldl_append]
  rfl

/-- **Accumulation**: after any rectangles at all, the accumulator holds the
extreme edges of the ones in force. -/
theorem accumulate_hull (qs : List (WereRect Int32)) (hne : qs ≠ []) :
    IsHull (accumulate .zero qs) (inForce qs) := by
  induction qs using List.reverseRecOn with
  | nil => exact absurd rfl hne
  | append_singleton qs q ih =>
    rw [accumulate_append, inForce_append]
    by_cases hqs : qs = []
    · subst hqs
      have hno : ¬ Vanishing [] := fun h => by
        obtain ⟨p, hp, -⟩ := h.1.1
        cases hp
      rw [show inForce [] = [] from rfl, if_neg hno]
      exact (WereRect.expand_zero q.x1 q.y1 q.x2 q.y2) ▸ isHull_singleton q
    · have hull := ih hqs
      by_cases hv : Vanishing (inForce qs)
      · rw [if_pos hv, (WereRect.empty_iff _).mp (hull.empty_iff.mpr hv), WereRect.expand_zero]
        exact isHull_singleton q
      · rw [if_neg hv]
        exact hull.expand (Bool.eq_false_iff.mpr fun h => hv (hull.empty_iff.mp h)) q

end SparkleWayland

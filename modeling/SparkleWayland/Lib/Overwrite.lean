import Mathlib.Data.List.Induction

/-!
# Loops of overwrites

A loop whose body `step` gives the positions it covers a new value and leaves
every other position alone. Seen through `view`, the state after the loop holds
at each position the value of the last iteration that covered it
(`Overwrites.foldl_hit`), or the value from before the loop if none did
(`Overwrites.foldl_miss`).
-/

namespace SparkleWayland

universe u v w x

/-- One iteration `i` sets the positions it covers to `val i` and no others. -/
structure Overwrites {M : Type u} {I : Type v} {P : Type w} {V : Type x}
    (view : M → P → V) (step : M → I → M) (covers : I → P → Prop) (val : I → P → V) : Prop where
  hit : ∀ m i p, covers i p → view (step m i) p = val i p
  miss : ∀ m i p, ¬ covers i p → view (step m i) p = view m p

namespace Overwrites

variable {M : Type u} {I : Type v} {P : Type w} {V : Type x} {view : M → P → V}
  {step : M → I → M} {covers : I → P → Prop} {val : I → P → V}

/-- A position no iteration covers keeps its value. -/
theorem foldl_miss (h : Overwrites view step covers val) {l : List I} {p : P} (m : M)
    (hl : ∀ i ∈ l, ¬ covers i p) : view (l.foldl step m) p = view m p := by
  induction l generalizing m with
  | nil => rfl
  | cons i l ih =>
    rw [List.foldl_cons, ih _ fun j hj => hl j (List.mem_cons_of_mem _ hj)]
    exact h.miss m i p (hl i List.mem_cons_self)

/-- A position holds the value of the last iteration that covers it. -/
theorem foldl_hit (h : Overwrites view step covers val) {r : I → I → Prop} {l : List I}
    {i : I} {p : P} (m : M) (hr : l.Pairwise r) (hi : i ∈ l) (hc : covers i p)
    (hlast : ∀ j ∈ l, r i j → ¬ covers j p) : view (l.foldl step m) p = val i p := by
  induction l using List.reverseRecOn with
  | nil => cases hi
  | append_singleton l k ih =>
    rw [List.foldl_append]
    obtain ⟨hl, -, hk⟩ := List.pairwise_append.mp hr
    show view (step (l.foldl step m) k) p = val i p
    rcases List.mem_append.mp hi with hi | hi
    · have hik : r i k := hk i hi k (List.mem_singleton_self k)
      rw [h.miss _ _ _ (hlast k (List.mem_append_right _ (List.mem_singleton_self k)) hik)]
      exact ih hl hi fun j hj => hlast j (List.mem_append_left _ hj)
    · obtain rfl := List.mem_singleton.mp hi
      exact h.hit _ _ _ hc

/-- Where all iterations that cover a position agree on its value, the order of
the iterations does not matter. -/
theorem foldl_agree (h : Overwrites view step covers val) {l : List I} {p : P} {v : V} (m : M)
    (hex : ∃ i ∈ l, covers i p) (hv : ∀ i ∈ l, covers i p → val i p = v) :
    view (l.foldl step m) p = v := by
  induction l using List.reverseRecOn with
  | nil =>
    obtain ⟨i, hi, -⟩ := hex
    cases hi
  | append_singleton l k ih =>
    rw [List.foldl_append]
    show view (step (l.foldl step m) k) p = v
    by_cases hk : covers k p
    · rw [h.hit _ _ _ hk]
      exact hv k (List.mem_append_right _ (List.mem_singleton_self k)) hk
    · rw [h.miss _ _ _ hk]
      obtain ⟨i, hi, hc⟩ := hex
      rcases List.mem_append.mp hi with hi | hi
      · exact ih ⟨i, hi, hc⟩ fun j hj => hv j (List.mem_append_left _ hj)
      · exact absurd (List.mem_singleton.mp hi ▸ hc) hk

/-- Where the value of a position does not depend on the iteration, only which iterations there
are matters, neither their order nor how often each is made. -/
theorem foldl_eq_of_mem_iff (h : Overwrites view step covers val) {value : P → V}
    (hv : ∀ i p, covers i p → val i p = value p) {l l' : List I} (hl : ∀ i, i ∈ l ↔ i ∈ l') (m : M)
    (p : P) : view (l.foldl step m) p = view (l'.foldl step m) p := by
  by_cases hc : ∃ i ∈ l, covers i p
  · obtain ⟨i, hi, hcovers⟩ := hc
    rw [h.foldl_agree m ⟨i, hi, hcovers⟩ fun j _ hj => hv j p hj,
      h.foldl_agree m ⟨i, (hl i).mp hi, hcovers⟩ fun j _ hj => hv j p hj]
  · have hmiss : ∀ i ∈ l, ¬ covers i p := fun i hi hcovers => hc ⟨i, hi, hcovers⟩
    rw [h.foldl_miss m hmiss, h.foldl_miss m fun i hi => hmiss i ((hl i).mpr hi)]

/-- A loop of overwrites is itself one overwrite, provided that all iterations
which cover a position agree on its value. -/
theorem foldl {J : Type v} (items : J → List I) {step' : J → M → I → M}
    {covers' : J → I → P → Prop} {val' : J → I → P → V} (whole : J → P → V)
    (h : ∀ j, Overwrites view (step' j) (covers' j) (val' j))
    (hv : ∀ j, ∀ i ∈ items j, ∀ p, covers' j i p → val' j i p = whole j p) :
    Overwrites view (fun m j => (items j).foldl (step' j) m)
      (fun j p => ∃ i ∈ items j, covers' j i p) whole where
  hit m j _ hc := (h j).foldl_agree m hc fun i hi => hv j i hi _
  miss m j _ hno := (h j).foldl_miss m fun i hi hc => hno ⟨i, hi, hc⟩

end Overwrites

end SparkleWayland

import Mathlib.Data.List.Basic
import Mathlib.Data.List.Nodup

/-!
# Lists made of batches

A list to which every element of another list contributes a batch: `L.flatMap f`.
What treats all of a batch alike can be done to the contributors instead, and a loop
over the entries is a loop over the contributors. `foldlM_mono` is the rule for a
loop whose body may fail less often.
-/

namespace SparkleWayland

namespace Batches

universe u v w

variable {α : Type u} {β : Type v} {σ : Type w}

/-- Keeping or dropping whole batches. -/
theorem filter_flatMap {f : α → List β} {L : List α} {keep : β → Bool} {keepAll : α → Bool}
    (h : ∀ c ∈ L, ∀ y ∈ f c, keep y = keepAll c) :
    (L.flatMap f).filter keep = (L.filter keepAll).flatMap f := by
  induction L with
  | nil => rfl
  | cons c L ih =>
    have hc : ∀ y ∈ f c, keep y = keepAll c := h c List.mem_cons_self
    rw [List.flatMap_cons, List.filter_append, ih fun d hd => h d (List.mem_cons_of_mem _ hd)]
    cases hkeep : keepAll c with
    | true =>
      rw [List.filter_cons_of_pos hkeep, List.flatMap_cons,
        List.filter_eq_self.mpr fun y hy => (hc y hy).trans hkeep]
    | false =>
      rw [List.filter_cons_of_neg (by simp [hkeep]),
        List.filter_eq_nil_iff.mpr fun y hy => by simp [hc y hy, hkeep]]
      rfl

/-- Where an entry tells who contributed it, nothing is there twice. -/
theorem nodup_flatMap {f : α → List β} (contributor : β → α) {L : List α} (hL : L.Nodup)
    (hf : ∀ c, (f c).Nodup) (hcontributor : ∀ c, ∀ y ∈ f c, contributor y = c) :
    (L.flatMap f).Nodup := by
  refine List.nodup_flatMap.mpr ⟨fun c _ => hf c, hL.imp fun {c d} hne y hc hd => hne ?_⟩
  rw [← hcontributor c y hc, ← hcontributor d y hd]

/-- What is kept of one batch only. -/
theorem filter_flatMap_of_mem {f : α → List β} {keep : β → Bool} {L : List α} (hL : L.Nodup)
    {a : α} (ha : a ∈ L) (h : ∀ c ∈ L, ∀ y ∈ f c, keep y = true → c = a) :
    (L.flatMap f).filter keep = (f a).filter keep := by
  obtain ⟨before, after, rfl⟩ := List.append_of_mem ha
  have hnone : ∀ l : List α, a ∉ l → l ⊆ before ++ a :: after →
      (l.flatMap f).filter keep = [] := by
    intro l hl hsub
    refine List.filter_eq_nil_iff.mpr fun y hy hkeep => ?_
    obtain ⟨c, hc, hyc⟩ := List.mem_flatMap.mp hy
    exact hl (h c (hsub hc) y hyc hkeep ▸ hc)
  have hperm := List.nodup_append'.mp hL
  have hbefore : a ∉ before := fun hmem => hperm.2.2 hmem List.mem_cons_self
  have hafter : a ∉ after := (List.nodup_cons.mp hperm.2.1).1
  rw [List.flatMap_append, List.flatMap_cons, List.filter_append, List.filter_append,
    hnone before hbefore (List.subset_append_left _ _),
    hnone after hafter fun x hx => List.mem_append_right _ (List.mem_cons_of_mem a hx),
    List.append_nil, List.nil_append]

/-- A loop over the entries is a loop over the batches. -/
theorem foldlM_flatMap (f : σ → β → Option σ) (g : α → List β) (l : List α) (s : σ) :
    (l.flatMap g).foldlM f s = l.foldlM (fun s a => (g a).foldlM f s) s := by
  induction l generalizing s with
  | nil => rfl
  | cons a l ih =>
    rw [List.flatMap_cons, List.foldlM_append, List.foldlM_cons]
    exact bind_congr fun u => ih u

/-- A loop succeeds with the same result if its body does. -/
theorem foldlM_mono {f g : σ → α → Option σ} (h : ∀ s a s', f s a = some s' → g s a = some s')
    {l : List α} {s s' : σ} (hl : l.foldlM f s = some s') : l.foldlM g s = some s' := by
  induction l generalizing s with
  | nil => exact hl
  | cons a l ih =>
    rw [List.foldlM_cons] at hl ⊢
    obtain ⟨u, hu, hrest⟩ := Option.bind_eq_some_iff.mp hl
    exact Option.bind_eq_some_iff.mpr ⟨u, h _ _ _ hu, ih hrest⟩

end Batches

end SparkleWayland

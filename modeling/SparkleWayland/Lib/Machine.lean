import Mathlib.Data.List.Basic

/-!
# Labelled machines

Small-step systems with named steps, the runs they have, and the proof rules
every development over them uses: an invariant that holds at the start
and along every step holds in every state a run reaches (`Machine.invariant`),
and a forward simulation carries every run of one machine to a run of another
(`Simulation.reaches`).

`Machine.guarded` restricts a machine to the steps that meet a condition on the
state before the step; results "for every run whose steps all meet the
condition" are results about the guarded machine. `Machine.reaches_guarded_iff`
says when the condition is exact, and `Machine.guarded_exact` when it is as far as
what may still come is concerned.
-/

namespace SparkleWayland

universe u v w x

/-- A labelled machine: where runs may start, and what one step may do. -/
structure Machine (σ : Type u) (α : Type v) where
  start : σ → Prop
  step : σ → α → σ → Prop

namespace Machine

variable {σ : Type u} {α : Type v}

/-- `M.Path s as t`: the labels `as`, performed in order from `s`, lead to `t`. -/
inductive Path (M : Machine σ α) (s : σ) : List α → σ → Prop
  | nil : Path M s [] s
  | snoc {t u : σ} {as : List α} {a : α} :
      Path M s as t → M.step t a u → Path M s (as ++ [a]) u

/-- `M.Reaches as s`: some run of `M` performs `as` and ends in `s`. -/
def Reaches (M : Machine σ α) (as : List α) (s : σ) : Prop :=
  ∃ s₀, M.start s₀ ∧ M.Path s₀ as s

/-- `M` with only those steps whose label and state before the step meet `ok`. -/
def guarded (M : Machine σ α) (ok : σ → α → Prop) : Machine σ α where
  start := M.start
  step s a t := ok s a ∧ M.step s a t

/-- The machine of a step function. -/
def ofStep (start : σ → Prop) (step : σ → α → Option σ) : Machine σ α where
  start := start
  step s a t := step s a = some t

variable {M : Machine σ α}

theorem Path.single {s t : σ} {a : α} (h : M.step s a t) : M.Path s [a] t :=
  show M.Path s ([] ++ [a]) t from Path.nil.snoc h

theorem Path.trans {s t u : σ} {as bs : List α} (h : M.Path s as t)
    (h' : M.Path t bs u) : M.Path s (as ++ bs) u := by
  induction h' with
  | nil => simpa using h
  | snoc _ hstep ih =>
    rw [← List.append_assoc]
    exact ih.snoc hstep

/-- Performing labels one after the other with a function that steps, where it gives a result,
is a path. -/
theorem Path.of_foldlM {step : σ → α → Option σ}
    (hstep : ∀ s a t, step s a = some t → M.step s a t) {as : List α} {s t : σ}
    (h : as.foldlM step s = some t) : M.Path s as t := by
  induction as generalizing s with
  | nil =>
    cases h
    exact Path.nil
  | cons a as ih =>
    rw [List.foldlM_cons] at h
    obtain ⟨u, hu, hrest⟩ := Option.bind_eq_some_iff.mp h
    exact (Path.single (hstep s a u hu)).trans (ih hrest)

/-- A run of a step function is a path. -/
theorem Path.of_run {start : σ → Prop} {step : σ → α → Option σ} {as : List α} {s t : σ}
    (h : as.foldlM step s = some t) : (ofStep start step).Path s as t :=
  Path.of_foldlM (fun _ _ _ h => h) h

/-- A run of a step function that checks a condition first is a guarded path. -/
theorem Path.of_guarded_run {start : σ → Prop} {step : σ → α → Option σ} {ok : σ → α → Prop}
    [∀ s, DecidablePred (ok s)] {as : List α} {s t : σ}
    (h : as.foldlM (fun s a => if ok s a then step s a else none) s = some t) :
    ((ofStep start step).guarded ok).Path s as t :=
  Path.of_foldlM (fun _ _ _ hst => Option.ite_none_right_eq_some.mp hst) h

/-- Performing labels one after the other with a function that never fails is a path. -/
theorem Path.foldl {f : σ → α → σ} (h : ∀ s a, M.step s a (f s a)) (as : List α) (s : σ) :
    M.Path s as (as.foldl f s) := by
  induction as generalizing s with
  | nil => exact Path.nil
  | cons a as ih => exact (Path.single (h s a)).trans (ih (f s a))

/-- What every step preserves, a path preserves. -/
theorem Path.preserves {I : σ → Prop} (hstep : ∀ s a t, I s → M.step s a t → I t)
    {s t : σ} {as : List α} (h : M.Path s as t) (hs : I s) : I t := by
  induction h with
  | nil => exact hs
  | snoc _ hst ih => exact hstep _ _ _ ih hst

theorem Reaches.start {s : σ} (h : M.start s) : M.Reaches [] s :=
  ⟨s, h, Path.nil⟩

theorem Reaches.next {s t : σ} {as : List α} {a : α} (h : M.Reaches as s)
    (hst : M.step s a t) : M.Reaches (as ++ [a]) t := by
  obtain ⟨s₀, h₀, hp⟩ := h
  exact ⟨s₀, h₀, hp.snoc hst⟩

/-- **Invariant rule**: what holds at every start and is preserved by every
step holds in every state a run reaches. -/
theorem invariant {I : σ → Prop} (hstart : ∀ s, M.start s → I s)
    (hstep : ∀ s a t, I s → M.step s a t → I t) {as : List α} {s : σ}
    (h : M.Reaches as s) : I s := by
  obtain ⟨s₀, h₀, hp⟩ := h
  exact hp.preserves hstep (hstart s₀ h₀)

/-- A guarded run is a run. -/
theorem Path.of_guarded {ok : σ → α → Prop} {s t : σ} {as : List α}
    (h : (M.guarded ok).Path s as t) : M.Path s as t := by
  induction h with
  | nil => exact Path.nil
  | snoc _ hst ih => exact ih.snoc hst.2

theorem Reaches.of_guarded {ok : σ → α → Prop} {s : σ} {as : List α}
    (h : (M.guarded ok).Reaches as s) : M.Reaches as s := by
  obtain ⟨s₀, h₀, hp⟩ := h
  exact ⟨s₀, h₀, hp.of_guarded⟩

/-- **Guard rule**: where, under an invariant, a step ends well exactly if the state
before it was well and met the condition, the runs that end well are the guarded ones. -/
theorem reaches_guarded_iff {I good : σ → Prop} {ok : σ → α → Prop}
    (hstart : ∀ s, M.start s → I s ∧ good s) (hinv : ∀ s a t, I s → M.step s a t → I t)
    (hstep : ∀ s a t, I s → M.step s a t → (good t ↔ good s ∧ ok s a)) {as : List α} {s : σ} :
    M.Reaches as s ∧ good s ↔ (M.guarded ok).Reaches as s := by
  constructor
  · rintro ⟨⟨s₀, h₀, hpath⟩, hgood⟩
    refine ⟨s₀, h₀, ?_⟩
    induction hpath with
    | nil => exact .nil
    | snoc hpath hst ih =>
      have hI := hpath.preserves hinv (hstart s₀ h₀).1
      obtain ⟨hbefore, hok⟩ := (hstep _ _ _ hI hst).mp hgood
      exact (ih hbefore).snoc ⟨hok, hst⟩
  · intro h
    have hboth : I s ∧ good s := by
      refine invariant (M := M.guarded ok) hstart ?_ h
      rintro s a t ⟨hI, hgood⟩ ⟨hok, hst⟩
      exact ⟨hinv _ _ _ hI hst, (hstep _ _ _ hI hst).mpr ⟨hgood, hok⟩⟩
    exact ⟨h.of_guarded, hboth.2⟩

/-- Some path from here ends badly. -/
def Fails (M : Machine σ α) (good : σ → Prop) (s : σ) : Prop :=
  ∃ as t, M.Path s as t ∧ ¬good t

theorem fails_of_not {good : σ → Prop} {s : σ} (h : ¬good s) : M.Fails good s :=
  ⟨[], s, .nil, h⟩

theorem guarded_fails_of_step {good : σ → Prop} {ok : σ → α → Prop} {s t : σ} {a : α}
    (hst : M.step s a t) (hok : ok s a) (h : (M.guarded ok).Fails good t) :
    (M.guarded ok).Fails good s := by
  obtain ⟨as, u, hpath, hbad⟩ := h
  have hfirst : (M.guarded ok).Path s [a] t := Path.single ⟨hok, hst⟩
  exact ⟨[a] ++ as, u, hfirst.trans hpath, hbad⟩

/-- **Exact guards**: where the condition keeps an invariant under which all is well, and a step
that does not meet it can be followed by guarded steps to where all is not, the guarded runs
are well, and they are so behind a next step exactly if it meets the condition. -/
theorem guarded_exact {I good : σ → Prop} {ok : σ → α → Prop} (hstart : ∀ s, M.start s → I s)
    (hstep : ∀ s a t, I s → ok s a → M.step s a t → I t) (hgood : ∀ s, I s → good s)
    (hfails : ∀ s a t, I s → ¬ok s a → M.step s a t → (M.guarded ok).Fails good t)
    {as : List α} {s : σ} (h : (M.guarded ok).Reaches as s) :
    good s ∧ ∀ a t, M.step s a t →
      ((∀ bs u, (M.guarded ok).Path t bs u → good u) ↔ ok s a) := by
  have hkeep : ∀ s a t, I s → (M.guarded ok).step s a t → I t :=
    fun s a t hs hst => hstep s a t hs hst.1 hst.2
  have hs : I s := invariant (M := M.guarded ok) hstart hkeep h
  refine ⟨hgood s hs, fun a t hst => ⟨fun hall => ?_, fun hok bs u hpath => ?_⟩⟩
  · by_contra hnot
    obtain ⟨bs, u, hpath, hbad⟩ := hfails s a t hs hnot hst
    exact hbad (hall bs u hpath)
  · exact hgood u (hpath.preserves hkeep (hstep s a t hs hok hst))

/-- A run that ends with `a`, cut before one of its labels. -/
theorem snoc_eq_cut_iff {as before after : List α} {a b : α} :
    as ++ [a] = before ++ b :: after ↔
      (after = [] ∧ as = before ∧ a = b) ∨
        ∃ after', after = after' ++ [a] ∧ as = before ++ b :: after' := by
  rcases after.eq_nil_or_concat with rfl | ⟨after', c, rfl⟩
  · simp
  · rw [List.concat_eq_append, ← List.cons_append, ← List.append_assoc]
    constructor
    · intro h
      obtain ⟨rfl, hc⟩ := List.append_inj' h rfl
      cases hc
      exact Or.inr ⟨after', rfl, rfl⟩
    · rintro (⟨hnil, -⟩ | ⟨after'', heq, rfl⟩)
      · simp at hnil
      · obtain ⟨rfl, hc⟩ := List.append_inj' heq rfl
        cases hc
        rfl

end Machine

/-- A forward simulation: related starts, and every step of `M` answered by a
path of `N` that restores the relation. -/
structure Simulation {σ : Type u} {α : Type v} {τ : Type w} {β : Type x}
    (M : Machine σ α) (N : Machine τ β) where
  rel : σ → τ → Prop
  start : ∀ s, M.start s → ∃ t, N.start t ∧ rel s t
  step : ∀ s t a s', rel s t → M.step s a s' → ∃ bs t', N.Path t bs t' ∧ rel s' t'

/-- **Simulation rule**: every state `M` reaches is related to one `N` reaches. -/
theorem Simulation.reaches {σ : Type u} {α : Type v} {τ : Type w} {β : Type x}
    {M : Machine σ α} {N : Machine τ β} (R : Simulation M N) {as : List α} {s : σ}
    (h : M.Reaches as s) : ∃ bs t, N.Reaches bs t ∧ R.rel s t := by
  obtain ⟨s₀, h₀, hp⟩ := h
  induction hp with
  | nil =>
    obtain ⟨t, ht, hrel⟩ := R.start _ h₀
    exact ⟨[], t, Machine.Reaches.start ht, hrel⟩
  | snoc _ hst ih =>
    obtain ⟨bs, t, ⟨t₀, ht₀, htp⟩, hrel⟩ := ih
    obtain ⟨cs, t', hcs, hrel'⟩ := R.step _ _ _ _ hrel hst
    exact ⟨bs ++ cs, t', ⟨t₀, ht₀, htp.trans hcs⟩, hrel'⟩

end SparkleWayland

import SparkleWayland.Were.Collapse

/-!
# How often a disintegrator runs (`were/were_capability_integrator.cpp`)

`disintegrate` looks at `state_` before it runs the disintegrators and changes it behind
them. A disintegrator runs foreign code: the one of `were_capability_collapse` emits
`destroyed`, and the slots may collapse what they like. A collapse of an object that is
collapsing further up the call stack finds `state_` as it was, and runs the
disintegrators again. `ranOnce_guarded_iff` says that this is the only way: a disintegrator
runs twice exactly if an object is collapsed within its own collapse.

Here a collapse is a frame on a stack, and every step is the call of a collapse or the
return of a disintegrator; which collapses are called, from where and how often is open.
-/

namespace SparkleWayland

/-- Objects in the course of their collapses. A frame of the stack is an object with the
number of its disintegrators that come after the one that is running. -/
structure Collapses (Obj : Type) where
  state : Obj → IntegrationState
  stack : List (Obj × Nat)
  runs : Obj → Nat → Nat

namespace Collapses

variable {Obj : Type} [DecidableEq Obj]

/-- The disintegrators run from the one added last to the one that
`were_capability_collapse` added, the number 0. -/
def run (s : Collapses Obj) (x : Obj) (i : Nat) : Collapses Obj :=
  { s with
    stack := (x, i) :: s.stack
    runs := Function.update s.runs x (Function.update (s.runs x) i (s.runs x i + 1)) }

/-- What happens: an object is integrated, a collapse is called, by the code of a
disintegrator or by any other, or the disintegrator on top of the stack returns. -/
inductive Label (Obj : Type) where
  | integrate (x : Obj)
  | collapse (x : Obj)
  | done

/-- One step. `others` says how many disintegrators an object has besides that of
`were_capability_collapse`. -/
def step (others : Obj → Nat) (s : Collapses Obj) : Label Obj → Option (Collapses Obj)
  | .integrate x =>
    if s.state x = .initial then
      some { s with state := Function.update s.state x .integrated }
    else none
  | .collapse x =>
    if s.state x = .integrated then some (s.run x (others x)) else some s
  | .done =>
    match s.stack with
    | [] => none
    | (x, 0) :: rest =>
      some { s with state := Function.update s.state x .disintegrated, stack := rest }
    | (x, i + 1) :: rest => some ({ s with stack := rest }.run x i)

/-- Objects that have yet to be integrated. -/
def fresh : Collapses Obj := ⟨fun _ => .initial, [], fun _ _ => 0⟩

def machine (others : Obj → Nat) : Machine (Collapses Obj) (Label Obj) :=
  Machine.ofStep (fun s => s = fresh) (step others)

/-- No disintegrator has run twice, and those of a disintegrated object have all run. -/
def RanOnce (others : Obj → Nat) (s : Collapses Obj) : Prop :=
  (∀ x i, s.runs x i ≤ 1) ∧
    ∀ x, s.state x = .disintegrated → ∀ i ≤ others x, s.runs x i = 1

/-- The object is collapsing. -/
def Collapsing (s : Collapses Obj) (x : Obj) : Prop := ∃ i, (x, i) ∈ s.stack

/-- No object is collapsed within its own collapse. Where the object is not integrated, the
call does nothing. -/
def Outside (s : Collapses Obj) : Label Obj → Prop
  | .collapse x => s.state x = .integrated → ¬ s.Collapsing x
  | _ => True

/-! ## What holds of every state -/

/-- The stack and the counts agree. -/
structure Counted (others : Obj → Nat) (s : Collapses Obj) : Prop where
  untouched : ∀ x, s.state x ≠ .disintegrated → ¬ s.Collapsing x → ∀ i, s.runs x i = 0
  integrated : ∀ x, s.Collapsing x → s.state x ≠ .initial
  /-- Of a collapsing object the running disintegrator and those before it have run. -/
  begun : ∀ x i, (x, i) ∈ s.stack → i ≤ others x ∧ ∀ j, i ≤ j → j ≤ others x → 1 ≤ s.runs x j
  finished : ∀ x, s.state x = .disintegrated → ∀ i ≤ others x, 1 ≤ s.runs x i
  /-- As long as nothing has run twice, every collapse has its own object. -/
  apart : (∀ x i, s.runs x i ≤ 1) →
    (s.stack.map Prod.fst).Nodup ∧ ∀ x i, (x, i) ∈ s.stack → ∀ j < i, s.runs x j = 0

variable {others : Obj → Nat} {s t : Collapses Obj}

omit [DecidableEq Obj] in
theorem fresh_counted : (fresh : Collapses Obj).Counted others where
  untouched _ _ _ _ := rfl
  integrated := by rintro x ⟨i, hmem⟩; cases hmem
  begun := nofun
  finished := nofun
  apart _ := ⟨List.nodup_nil, nofun⟩

omit [DecidableEq Obj] in
theorem Counted.ranOnce_iff (h : s.Counted others) :
    s.RanOnce others ↔ ∀ x i, s.runs x i ≤ 1 := by
  refine ⟨fun hran => hran.1, fun hle => ⟨hle, fun x hx i hi => ?_⟩⟩
  have := h.finished x hx i hi
  have := hle x i
  omega

@[simp] theorem run_runs_self (s : Collapses Obj) (x : Obj) (i : Nat) :
    (s.run x i).runs x i = s.runs x i + 1 := by
  simp [run]

theorem run_runs_of_ne (s : Collapses Obj) {x y : Obj} {i j : Nat} (h : y ≠ x ∨ j ≠ i) :
    (s.run x i).runs y j = s.runs y j := by
  by_cases hy : y = x
  · subst hy
    have hj : j ≠ i := h.resolve_left fun hne => hne rfl
    simp [run, hj]
  · simp [run, hy]

theorem le_run_runs (s : Collapses Obj) (x y : Obj) (i j : Nat) :
    s.runs y j ≤ (s.run x i).runs y j := by
  by_cases h : y = x ∧ j = i
  · obtain ⟨rfl, rfl⟩ := h
    simp
  · exact Nat.le_of_eq (run_runs_of_ne s (not_and_or.mp h)).symm

/-- What has not run before has now run once. -/
theorem run_runs_le {s : Collapses Obj} {x : Obj} {i : Nat} (honce : ∀ y j, s.runs y j ≤ 1)
    (hzero : s.runs x i = 0) (y : Obj) (j : Nat) : (s.run x i).runs y j ≤ 1 := by
  by_cases h : y = x ∧ j = i
  · obtain ⟨rfl, rfl⟩ := h
    exact Nat.le_of_eq ((run_runs_self s y j).trans (congrArg Nat.succ hzero))
  · rw [run_runs_of_ne s (not_and_or.mp h)]
    exact honce y j

theorem run_collapsing (s : Collapses Obj) (x y : Obj) (i : Nat) :
    (s.run x i).Collapsing y ↔ y = x ∨ s.Collapsing y := by
  simp only [Collapsing, run, List.mem_cons, Prod.mk.injEq]
  constructor
  · rintro ⟨j, ⟨rfl, -⟩ | hmem⟩
    · exact Or.inl rfl
    · exact Or.inr ⟨j, hmem⟩
  · rintro (rfl | ⟨j, hmem⟩)
    · exact ⟨i, Or.inl ⟨rfl, rfl⟩⟩
    · exact ⟨j, Or.inr hmem⟩

/-! ## One step -/

/-- An object is integrated. -/
theorem Counted.integrate (h : s.Counted others) {x : Obj} (hx : s.state x = .initial) :
    ({ s with state := Function.update s.state x .integrated } : Collapses Obj).Counted others := by
  refine ⟨fun y hy hno => ?_, fun y hcollapsing => ?_, h.begun, fun y hy => ?_, h.apart⟩
  · by_cases hyx : y = x
    · subst hyx
      exact h.untouched y (by rw [hx]; nofun) hno
    · simp only [Function.update_of_ne hyx] at hy
      exact h.untouched y hy hno
  · by_cases hyx : y = x
    · subst hyx
      exact absurd hx (h.integrated y hcollapsing)
    · simp only [Function.update_of_ne hyx]
      exact h.integrated y hcollapsing
  · by_cases hyx : y = x
    · subst hyx
      simp only [Function.update_self, reduceCtorEq] at hy
    · simp only [Function.update_of_ne hyx] at hy
      exact h.finished y hy

/-- A disintegrator of `x` begins to run: the last one, in a new frame, or the next one, in
the place of a frame that was on top. -/
theorem Counted.run (h : s.Counted others) {x : Obj} {i : Nat} {rest : List (Obj × Nat)}
    (hrest : rest.Sublist s.stack) (hothers : ∀ y j, y ≠ x → (y, j) ∈ s.stack → (y, j) ∈ rest)
    (hx : s.state x ≠ .initial) (hi : i ≤ others x)
    (hbefore : ∀ j, i < j → j ≤ others x → 1 ≤ s.runs x j)
    (hapart : (∀ y j, (s.run x i).runs y j ≤ 1) →
      (∀ j, (x, j) ∉ rest) ∧ ∀ j < i, s.runs x j = 0) :
    (({ s with stack := rest } : Collapses Obj).run x i).Counted others := by
  have hgrows := le_run_runs s x
  refine ⟨fun y hy hno j => ?_, fun y hcollapsing => ?_, fun y j hmem => ?_, fun y hy j hj => ?_,
    fun honce => ?_⟩
  · obtain ⟨hne, hno⟩ := not_or.mp (fun hor => hno ((run_collapsing _ x y i).mpr hor))
    rw [run_runs_of_ne _ (Or.inl hne)]
    exact h.untouched y hy (fun ⟨k, hmem⟩ => hno ⟨k, hothers y k hne hmem⟩) j
  · rcases (run_collapsing _ x y i).mp hcollapsing with rfl | ⟨k, hmem⟩
    · exact hx
    · exact h.integrated y ⟨k, hrest.subset hmem⟩
  · rcases List.mem_cons.mp hmem with hnew | hold
    · cases hnew
      refine ⟨hi, fun k hik hk => ?_⟩
      rcases Nat.eq_or_lt_of_le hik with rfl | hlt
      · rw [run_runs_self]
        exact Nat.succ_pos _
      · exact Nat.le_trans (hbefore k hlt hk) (hgrows x i k)
    · obtain ⟨hle, hbegun⟩ := h.begun y j (hrest.subset hold)
      exact ⟨hle, fun k hjk hk => Nat.le_trans (hbegun k hjk hk) (hgrows y i k)⟩
  · exact Nat.le_trans (h.finished y hy j hj) (hgrows y i j)
  · obtain ⟨hno, hzero⟩ := hapart honce
    obtain ⟨hnodup, hlow⟩ := h.apart fun y j => Nat.le_trans (hgrows y i j) (honce y j)
    refine ⟨List.nodup_cons.mpr ⟨fun hmem => ?_, hnodup.sublist (hrest.map _)⟩,
      fun y j hmem k hk => ?_⟩
    · obtain ⟨⟨y, j⟩, hframe, rfl⟩ := List.mem_map.mp hmem
      exact hno j hframe
    · rcases List.mem_cons.mp hmem with hnew | hold
      · cases hnew
        rw [run_runs_of_ne _ (Or.inr (Nat.ne_of_lt hk))]
        exact hzero k hk
      · have hne : y ≠ x := by
          rintro rfl
          exact hno j hold
        rw [run_runs_of_ne _ (Or.inl hne)]
        exact hlow y j (hrest.subset hold) k hk

/-- The last disintegrator to run returns, and the object is marked. -/
theorem Counted.finish (h : s.Counted others) {x : Obj} {rest : List (Obj × Nat)}
    (hstack : s.stack = (x, 0) :: rest) :
    ({ s with state := Function.update s.state x .disintegrated, stack := rest } :
      Collapses Obj).Counted others := by
  have hsub : ∀ y j, (y, j) ∈ rest → (y, j) ∈ s.stack := fun y j hmem => by
    rw [hstack]
    exact List.mem_cons_of_mem _ hmem
  refine ⟨fun y hy hno i => ?_, fun y hcollapsing => ?_,
    fun y i hmem => h.begun y i (hsub y i hmem), fun y hy i hi => ?_, fun honce => ?_⟩
  · have hyx : y ≠ x := by
      rintro rfl
      exact hy (Function.update_self ..)
    simp only [Function.update_of_ne hyx] at hy
    refine h.untouched y hy ?_ i
    rintro ⟨j, hmem⟩
    rw [hstack] at hmem
    rcases List.mem_cons.mp hmem with hnew | hold
    · cases hnew
      exact hyx rfl
    · exact hno ⟨j, hold⟩
  · by_cases hyx : y = x
    · rw [hyx]
      simp
    · obtain ⟨j, hmem⟩ := hcollapsing
      simp only [Function.update_of_ne hyx]
      exact h.integrated y ⟨j, hsub y j hmem⟩
  · by_cases hyx : y = x
    · subst hyx
      exact (h.begun y 0 (by rw [hstack]; exact List.mem_cons_self)).2 i (Nat.zero_le i) hi
    · simp only [Function.update_of_ne hyx] at hy
      exact h.finished y hy i hi
  · obtain ⟨hnodup, hlow⟩ := h.apart honce
    rw [hstack] at hnodup
    exact ⟨(List.nodup_cons.mp hnodup).2, fun y i hmem => hlow y i (hsub y i hmem)⟩

/-- A collapse is called. It runs a disintegrator again if the object is collapsing already. -/
theorem Counted.collapse (h : s.Counted others) {x : Obj} (hx : s.state x = .integrated) :
    (s.run x (others x)).Counted others ∧
      ((∀ y j, (s.run x (others x)).runs y j ≤ 1) ↔
        (∀ y j, s.runs y j ≤ 1) ∧ ¬ s.Collapsing x) := by
  have hno (honce : ∀ y j, (s.run x (others x)).runs y j ≤ 1) : ¬ s.Collapsing x := by
    -- the disintegrator that runs first has run in the collapse further down
    rintro ⟨i, hmem⟩
    obtain ⟨hi, hbegun⟩ := h.begun x i hmem
    have hran := hbegun (others x) hi (Nat.le_refl _)
    have htwice := honce x (others x)
    rw [run_runs_self] at htwice
    omega
  have hzero (hout : ¬ s.Collapsing x) : ∀ j, s.runs x j = 0 :=
    h.untouched x (by rw [hx]; nofun) hout
  refine ⟨?_, fun honce => ⟨?_, hno honce⟩, ?_⟩
  · refine h.run (List.Sublist.refl _) (fun _ _ _ hmem => hmem) (by rw [hx]; nofun)
      (Nat.le_refl _) (fun j hlt hle => absurd hlt (Nat.not_lt.mpr hle)) fun honce => ?_
    exact ⟨fun j hmem => hno honce ⟨j, hmem⟩, fun j _ => hzero (hno honce) j⟩
  · exact fun y j => Nat.le_trans (le_run_runs s x y _ j) (honce y j)
  · rintro ⟨honce, hout⟩
    exact run_runs_le honce (hzero hout _)

/-- A disintegrator returns, and the next one runs. -/
theorem Counted.next (h : s.Counted others) {x : Obj} {i : Nat} {rest : List (Obj × Nat)}
    (hstack : s.stack = (x, i + 1) :: rest) :
    (({ s with stack := rest } : Collapses Obj).run x i).Counted others ∧
      ((∀ y j, (s.run x i).runs y j ≤ 1) ↔ ∀ y j, s.runs y j ≤ 1) := by
  have hmem : (x, i + 1) ∈ s.stack := by
    rw [hstack]
    exact List.mem_cons_self
  obtain ⟨hle, hbegun⟩ := h.begun x (i + 1) hmem
  have hbefore (honce : ∀ y j, (s.run x i).runs y j ≤ 1) : ∀ y j, s.runs y j ≤ 1 :=
    fun y j => Nat.le_trans (le_run_runs s x y i j) (honce y j)
  refine ⟨?_, hbefore, fun honce => ?_⟩
  · refine h.run (by rw [hstack]; exact List.sublist_cons_self _ _) (fun y j hy hin => ?_)
      (h.integrated x ⟨_, hmem⟩) (Nat.le_of_succ_le hle) (fun j hlt hj => hbegun j hlt hj)
      fun honce => ?_
    · rw [hstack] at hin
      rcases List.mem_cons.mp hin with hnew | hold
      · cases hnew
        exact absurd rfl hy
      · exact hold
    · obtain ⟨hnodup, hlow⟩ := h.apart (hbefore honce)
      rw [hstack] at hnodup
      refine ⟨fun j hin => ?_, fun j hj => hlow x (i + 1) hmem j (Nat.lt_succ_of_lt hj)⟩
      exact (List.nodup_cons.mp hnodup).1 (List.mem_map.mpr ⟨(x, j), hin, rfl⟩)
  · exact run_runs_le honce ((h.apart honce).2 x (i + 1) hmem i (Nat.lt_succ_self i))

/-- Every step keeps the counts; and what has run twice has done so because an object was
collapsed within its own collapse. -/
theorem step_counted (h : s.Counted others) {a : Label Obj} (hstep : s.step others a = some t) :
    t.Counted others ∧
      ((∀ x i, t.runs x i ≤ 1) ↔ (∀ x i, s.runs x i ≤ 1) ∧ s.Outside a) := by
  cases a with
  | integrate x =>
    obtain ⟨hx, ht⟩ := Option.ite_none_right_eq_some.mp hstep
    cases ht
    exact ⟨h.integrate hx, (and_iff_left trivial).symm⟩
  | collapse x =>
    simp only [step] at hstep
    split at hstep
    · rename_i hx
      cases hstep
      obtain ⟨hcounted, honce⟩ := h.collapse hx
      refine ⟨hcounted, honce.trans (and_congr_right fun _ => ?_)⟩
      exact ⟨fun hout _ => hout, fun hout => hout hx⟩
    · rename_i hx
      cases hstep
      exact ⟨h, (and_iff_left fun hintegrated => absurd hintegrated hx).symm⟩
  | done =>
    simp only [step] at hstep
    split at hstep
    · cases hstep
    · rename_i x rest hstack
      cases hstep
      exact ⟨h.finish hstack, (and_iff_left trivial).symm⟩
    · rename_i x i rest hstack
      cases hstep
      obtain ⟨hcounted, honce⟩ := h.next hstack
      exact ⟨hcounted, honce.trans (and_iff_left trivial).symm⟩

/-- **Once**: in a run no disintegrator runs twice, and those of every object that is
disintegrated in the end run exactly once, just if no object is collapsed within its own
collapse. -/
theorem ranOnce_guarded_iff (others : Obj → Nat) (as : List (Label Obj)) (s : Collapses Obj) :
    (machine others).Reaches as s ∧ s.RanOnce others ↔
      ((machine others).guarded Outside).Reaches as s := by
  refine @Machine.reaches_guarded_iff _ _ (machine others) (Counted others) (RanOnce others)
    Outside ?_ ?_ ?_ as s
  · rintro s rfl
    exact ⟨fresh_counted, fresh_counted.ranOnce_iff.mpr fun _ _ => Nat.zero_le _⟩
  · intro s a t hs hstep
    exact (step_counted hs hstep).1
  · intro s a t hs hstep
    obtain ⟨ht, honce⟩ := step_counted hs hstep
    rw [ht.ranOnce_iff, hs.ranOnce_iff]
    exact honce

/-! ## Linked objects -/

/-- The calls of a list of connections, each a run if its collapses are, are a run. -/
theorem path_of_calls {collapse : Objects Obj → Obj → Option (Objects Obj)}
    (hcollapse : ∀ o x o', collapse o x = some o' → ∀ stack runs, ∃ as runs',
      (machine fun _ => 0).Path ⟨o.state, stack, runs⟩ as ⟨o'.state, stack, runs'⟩)
    {ys : List (SignalConnection Obj)} {o o' : Objects Obj}
    (h : ys.foldlM (Objects.call collapse) o = some o') (stack : List (Obj × Nat))
    (runs : Obj → Nat → Nat) :
    ∃ as runs', (machine fun _ => 0).Path ⟨o.state, stack, runs⟩ as ⟨o'.state, stack, runs'⟩ := by
  induction ys generalizing o runs with
  | nil =>
    cases h
    exact ⟨[], runs, .nil⟩
  | cons y ys ih =>
    rw [List.foldlM_cons] at h
    obtain ⟨u, hcall, hrest⟩ := Option.bind_eq_some_iff.mp h
    have hone : ∃ as runs',
        (machine fun _ => 0).Path ⟨o.state, stack, runs⟩ as ⟨u.state, stack, runs'⟩ := by
      unfold Objects.call at hcall
      split at hcall
      · exact hcollapse _ _ _ hcall stack runs
      · cases hcall
        exact ⟨[], runs, .nil⟩
      · cases hcall
        exact ⟨[], runs, .nil⟩
    obtain ⟨as, runs₁, hpath⟩ := hone
    obtain ⟨bs, runs₂, hpath'⟩ := ih hrest runs₁
    exact ⟨as ++ bs, runs₂, hpath.trans hpath'⟩

/-- A collapse of linked objects, as `Objects.disintegrate` has it, is a run from its call to
its return: the objects have no disintegrators but that of `were_capability_collapse`, and the
calls in between are those of the links. -/
theorem path_of_disintegrate {fuel : Nat} {o o' : Objects Obj} {x : Obj}
    (h : o.disintegrate fuel x = some o') (stack : List (Obj × Nat)) (runs : Obj → Nat → Nat) :
    ∃ as runs', (machine fun _ => 0).Path ⟨o.state, stack, runs⟩ as
      ⟨o'.state, stack, runs'⟩ := by
  induction fuel generalizing o o' x stack runs with
  | zero => cases h
  | succ fuel ih =>
    unfold Objects.disintegrate at h
    split at h
    · rename_i hx
      obtain ⟨u, hcalls, rfl⟩ := Option.map_eq_some_iff.mp h
      let s : Collapses Obj := ⟨o.state, stack, runs⟩
      have hcall : (machine fun _ => 0).Path s [.collapse x] (s.run x 0) :=
        .single (if_pos hx)
      obtain ⟨as, runs', hpath⟩ :=
        path_of_calls (fun _ _ _ hc => ih hc) hcalls ((x, 0) :: stack) (s.run x 0).runs
      have hdone : (machine fun _ => 0).Path ⟨u.state, (x, 0) :: stack, runs'⟩ [.done]
          ⟨Function.update u.state x .disintegrated, stack, runs'⟩ := .single rfl
      exact ⟨_, runs', (hcall.trans hpath).trans hdone⟩
    · rename_i hx
      cases h
      exact ⟨[.collapse x], runs, .single (if_neg hx)⟩

/-- Two objects that are linked to each other: the collapse of the first collapses the second,
and that the first again. -/
def linkedTwo : List (Label Bool) :=
  [.integrate true, .integrate false, .collapse true, .collapse false, .collapse true]

theorem linkedTwo_twice :
    ¬ ∀ as s, (machine fun _ : Bool => 0).Reaches as s → s.RanOnce fun _ => 0 := by
  intro h
  have hrun : (linkedTwo.foldlM (step fun _ => 0) fresh).map (fun s => s.runs true 0) = some 2 := by
    decide
  obtain ⟨s, hs, htwice⟩ := Option.map_eq_some_iff.mp hrun
  have hle := (h linkedTwo s ⟨fresh, rfl, Machine.Path.of_run hs⟩).1 true 0
  omega

end Collapses

end SparkleWayland

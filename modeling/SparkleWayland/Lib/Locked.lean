import Mathlib.Logic.Function.Basic
import SparkleWayland.Lib.Machine

/-!
# A value behind a lock

Threads update one value. An update takes the lock, reads the value, publishes what it makes of it,
and gives the lock back, and between any two of these steps other threads may go on.
`Locked.serial` says that the updates take effect one after the other, in the order in
which they have got the lock, and each of them once.
-/

namespace SparkleWayland

universe u v w

/-- Where a thread is in an update. -/
inductive Turn (σ : Type v) (υ : Type w) where
  | outside
  | locked (u : υ)
  | copied (u : υ) (copy : σ)
  | published (u : υ)

/-- The value, the thread that has the lock, where each thread is, and the updates that have been
published. -/
structure Locked (τ : Type u) (σ : Type v) (υ : Type w) where
  value : σ
  holder : Option τ
  turn : τ → Turn σ υ
  log : List (τ × υ)

inductive LockedLabel (τ : Type u) (υ : Type w) where
  | lock (t : τ) (u : υ)
  | copy (t : τ)
  | publish (t : τ)
  | unlock (t : τ)

namespace Locked

variable {τ : Type u} {σ : Type v} {υ : Type w} [DecidableEq τ] {apply : υ → σ → σ}
  {s s' : Locked τ σ υ} {t : τ} {u : υ}

/-- One step of a thread. -/
def step (apply : υ → σ → σ) (s : Locked τ σ υ) : LockedLabel τ υ → Option (Locked τ σ υ)
  | .lock t u =>
    match s.holder, s.turn t with
    | none, .outside =>
      some { s with holder := some t, turn := Function.update s.turn t (.locked u) }
    | _, _ => none
  | .copy t =>
    match s.turn t with
    | .locked u => some { s with turn := Function.update s.turn t (.copied u s.value) }
    | _ => none
  | .publish t =>
    match s.turn t with
    | .copied u copy =>
      some { s with
        value := apply u copy
        turn := Function.update s.turn t (.published u)
        log := s.log ++ [(t, u)] }
    | _ => none
  | .unlock t =>
    match s.turn t with
    | .published _ =>
      some { s with holder := none, turn := Function.update s.turn t .outside }
    | _ => none

/-- A value that no thread has locked. -/
def fresh (value : σ) : Locked τ σ υ := ⟨value, none, fun _ => .outside, []⟩

def machine (apply : υ → σ → σ) (value : σ) : Machine (Locked τ σ υ) (LockedLabel τ υ) :=
  Machine.ofStep (· = fresh value) (step apply)

/-- What each step does, and when. -/
inductive Step (apply : υ → σ → σ) : Locked τ σ υ → LockedLabel τ υ → Locked τ σ υ → Prop where
  | lock {s : Locked τ σ υ} {t : τ} {u : υ} (hholder : s.holder = none)
      (hturn : s.turn t = .outside) :
      Step apply s (.lock t u)
        { s with holder := some t, turn := Function.update s.turn t (.locked u) }
  | copy {s : Locked τ σ υ} {t : τ} {u : υ} (hturn : s.turn t = .locked u) :
      Step apply s (.copy t) { s with turn := Function.update s.turn t (.copied u s.value) }
  | publish {s : Locked τ σ υ} {t : τ} {u : υ} {copy : σ} (hturn : s.turn t = .copied u copy) :
      Step apply s (.publish t) { s with
        value := apply u copy
        turn := Function.update s.turn t (.published u)
        log := s.log ++ [(t, u)] }
  | unlock {s : Locked τ σ υ} {t : τ} {u : υ} (hturn : s.turn t = .published u) :
      Step apply s (.unlock t)
        { s with holder := none, turn := Function.update s.turn t .outside }

theorem Step.of_step {a : LockedLabel τ υ} (h : s.step apply a = some s') : Step apply s a s' := by
  cases a with
  | lock t u =>
    rw [step] at h
    split at h
    · cases h
      exact .lock ‹_› ‹_›
    · cases h
  | copy t =>
    rw [step] at h
    split at h
    · cases h
      exact .copy ‹_›
    · cases h
  | publish t =>
    rw [step] at h
    split at h
    · cases h
      exact .publish ‹_›
    · cases h
  | unlock t =>
    rw [step] at h
    split at h
    · cases h
      exact .unlock ‹_›
    · cases h

/-! ## One at a time -/

/-- One thread is inside, with the value as it is if it has read it; and the value is what the
published updates make of it. -/
structure Ordered (apply : υ → σ → σ) (value : σ) (s : Locked τ σ υ) : Prop where
  alone : ∀ t, s.holder ≠ some t → s.turn t = .outside
  inside : ∀ t, s.holder = some t → s.turn t ≠ .outside
  copy : ∀ t u copy, s.turn t = .copied u copy → copy = s.value
  value : s.value = s.log.foldl (fun value p => apply p.2 value) value

variable {value : σ}

theorem Ordered.holder_eq (h : s.Ordered apply value) (ht : s.turn t ≠ .outside) :
    s.holder = some t :=
  Decidable.byContradiction fun hne => ht (h.alone t hne)

omit [DecidableEq τ] in
theorem ordered_fresh : (fresh value : Locked τ σ υ).Ordered apply value where
  alone _ _ := rfl
  inside _ h := by cases h
  copy _ _ _ h := by cases h
  value := rfl

/-- Where one thread is inside, the others are not. -/
theorem Ordered.update_of_ne (h : s.Ordered apply value) (ht : s.holder = none ∨ s.holder = some t)
    (turn : Turn σ υ) {t' : τ} (hne : t' ≠ t) : Function.update s.turn t turn t' = .outside := by
  rw [Function.update_of_ne hne]
  refine h.alone t' fun hholder => ?_
  rcases ht with ht | ht
  · cases ht.symm.trans hholder
  · exact hne (Option.some.inj (hholder.symm.trans ht))

/-- A thread gets the lock, or goes on with it. -/
theorem Ordered.go (h : s.Ordered apply value) (ht : s.holder = none ∨ s.holder = some t)
    {turn : Turn σ υ} (hturn : turn ≠ .outside) {s' : Locked τ σ υ} (hholder : s'.holder = some t)
    (hturns : s'.turn = Function.update s.turn t turn)
    (hcopy : ∀ u copy, turn = .copied u copy → copy = s'.value)
    (hvalue : s'.value = s'.log.foldl (fun value p => apply p.2 value) value) :
    s'.Ordered apply value where
  alone t' hne := by
    rw [hturns]
    refine h.update_of_ne ht turn fun heq => hne ?_
    rw [heq, hholder]
  inside t' heq := by
    cases hholder.symm.trans heq
    rw [hturns, Function.update_self]
    exact hturn
  copy t' u copy hturn' := by
    rw [hturns] at hturn'
    by_cases heq : t' = t
    · rw [heq, Function.update_self] at hturn'
      exact hcopy u copy hturn'
    · cases (h.update_of_ne ht turn heq).symm.trans hturn'
  value := hvalue

/-- A thread gives it back. -/
theorem Ordered.leave (h : s.Ordered apply value) (ht : s.holder = some t) :
    Ordered apply value { s with holder := none, turn := Function.update s.turn t .outside } := by
  have houtside : ∀ t', Function.update s.turn t .outside t' = .outside := by
    intro t'
    by_cases heq : t' = t
    · rw [heq, Function.update_self]
    · exact h.update_of_ne (Or.inr ht) .outside heq
  refine ⟨fun t' _ => houtside t', fun t' heq => ?_, fun t' u copy hcopy => ?_, h.value⟩
  · cases heq
  · cases (houtside t').symm.trans hcopy

/-- **Step** -/
theorem Ordered.step (h : s.Ordered apply value) {a : LockedLabel τ υ}
    (hstep : s.step apply a = some s') : s'.Ordered apply value := by
  cases Step.of_step hstep with
  | @lock t u hholder hturn =>
    exact h.go (Or.inl hholder) (by rintro ⟨⟩) rfl rfl (by rintro _ _ ⟨⟩) h.value
  | @copy t u hturn =>
    have ht := h.holder_eq (t := t) (by rw [hturn]; rintro ⟨⟩)
    exact h.go (Or.inr ht) (by rintro ⟨⟩) ht rfl (by rintro _ _ ⟨⟩; rfl) h.value
  | @publish t u copy hturn =>
    have ht := h.holder_eq (t := t) (by rw [hturn]; rintro ⟨⟩)
    have houtside : Turn.published u ≠ (.outside : Turn σ υ) := by rintro ⟨⟩
    refine h.go (Or.inr ht) houtside ht rfl (by rintro _ _ ⟨⟩) ?_
    rw [List.foldl_append, ← h.value, ← h.copy t u copy hturn]
    rfl
  | @unlock t u hturn => exact h.leave (h.holder_eq (t := t) (by rw [hturn]; rintro ⟨⟩))

/-! ## In the order of the lock -/

/-- The update of a thread that has not published it. -/
def pendingAt (t : τ) : Turn σ υ → List (τ × υ)
  | .locked u | .copied u _ => [(t, u)]
  | .outside | .published _ => []

/-- The update that has the lock and has not been published. -/
def pending (s : Locked τ σ υ) : List (τ × υ) :=
  s.holder.elim [] fun t => pendingAt t (s.turn t)

/-- The update that a label gives the lock to. -/
def locks : LockedLabel τ υ → Option (τ × υ)
  | .lock t u => some (t, u)
  | .copy _ | .publish _ | .unlock _ => none

omit [DecidableEq τ] in
theorem turn_of_mem_pending (h : (t, u) ∈ s.pending) : s.turn t ≠ .outside := by
  rw [pending] at h
  cases hholder : s.holder with
  | none => simp [hholder] at h
  | some t' =>
    rw [hholder, Option.elim_some] at h
    intro hturn
    cases hturn' : s.turn t' <;> simp [hturn', pendingAt] at h
    all_goals
      obtain ⟨rfl, -⟩ := h
      cases hturn.symm.trans hturn'

/-- All that a step does to the value and to the updates. -/
theorem Ordered.cases (h : s.Ordered apply value) {a : LockedLabel τ υ}
    (hstep : s.step apply a = some s') :
    (∃ t u, a = .lock t u ∧ s.pending = [] ∧ s'.pending = [(t, u)] ∧ s'.value = s.value ∧
        s'.log = s.log) ∨
      (∃ t u, a = .publish t ∧ s.pending = [(t, u)] ∧ s'.pending = [] ∧
        s'.value = apply u s.value ∧ s'.log = s.log ++ [(t, u)]) ∨
      (∃ t, a = .copy t ∨ a = .unlock t) ∧ s'.pending = s.pending ∧ s'.value = s.value ∧
        s'.log = s.log := by
  cases Step.of_step hstep with
  | @lock t u hholder hturn =>
    refine Or.inl ⟨t, u, rfl, ?_, ?_, rfl, rfl⟩ <;> simp [pending, pendingAt, hholder]
  | @copy t u hturn =>
    have hholder := h.holder_eq (t := t) (by rw [hturn]; rintro ⟨⟩)
    refine Or.inr (Or.inr ⟨⟨t, Or.inl rfl⟩, ?_, rfl, rfl⟩)
    simp [pending, pendingAt, hholder, hturn]
  | @publish t u copy hturn =>
    have hholder := h.holder_eq (t := t) (by rw [hturn]; rintro ⟨⟩)
    refine Or.inr (Or.inl ⟨t, u, rfl, ?_, ?_, by rw [h.copy t u copy hturn], rfl⟩) <;>
      simp [pending, pendingAt, hholder, hturn]
  | @unlock t u hturn =>
    have hholder := h.holder_eq (t := t) (by rw [hturn]; rintro ⟨⟩)
    refine Or.inr (Or.inr ⟨⟨t, Or.inr rfl⟩, ?_, rfl, rfl⟩)
    simp [pending, pendingAt, hholder, hturn]

/-- A step gives the lock to an update, or leaves those that have had it as they are. -/
theorem Ordered.locks (h : s.Ordered apply value) {a : LockedLabel τ υ}
    (hstep : s.step apply a = some s') :
    s'.log ++ s'.pending = s.log ++ s.pending ++ (Locked.locks a).toList := by
  rcases h.cases hstep with ⟨t, u, rfl, hpending, hpending', -, hlog⟩ |
    ⟨t, u, rfl, hpending, hpending', -, hlog⟩ | ⟨⟨t, rfl | rfl⟩, hpending, -, hlog⟩
  · rw [hlog, hpending, hpending', List.append_nil]
    rfl
  · rw [hlog, hpending, hpending', List.append_nil]
    exact (List.append_nil _).symm
  all_goals
    rw [hlog, hpending]
    exact (List.append_nil _).symm

/-- **Serial**: however the threads go on, one is inside at a time, what it has read is
the value; the updates that have got the lock are published in that order, but for the one that is
pending, and the value is what they make of the first one. -/
theorem serial {as : List (LockedLabel τ υ)} (h : (machine apply value).Reaches as s) :
    s.Ordered apply value ∧ as.filterMap Locked.locks = s.log ++ s.pending := by
  obtain ⟨s₀, rfl, hpath⟩ := h
  induction hpath with
  | nil => exact ⟨ordered_fresh, rfl⟩
  | snoc _ hstep ih =>
    refine ⟨ih.1.step hstep, ?_⟩
    rw [List.filterMap_append, ih.2, ih.1.locks hstep]
    rfl

/-- A thread that has the lock can always go on. -/
theorem Ordered.progress (h : s.Ordered apply value) (ht : s.holder = some t) :
    ∃ a, (a = .copy t ∨ a = .publish t ∨ a = .unlock t) ∧ (s.step apply a).isSome := by
  cases hturn : s.turn t with
  | outside => exact absurd hturn (h.inside t ht)
  | locked u => exact ⟨.copy t, Or.inl rfl, by simp [Locked.step, hturn]⟩
  | copied u copy => exact ⟨.publish t, Or.inr (Or.inl rfl), by simp [Locked.step, hturn]⟩
  | published u => exact ⟨.unlock t, Or.inr (Or.inr rfl), by simp [Locked.step, hturn]⟩

end Locked

end SparkleWayland

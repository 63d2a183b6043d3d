import SparkleWayland.Lib.Machine

/-!
# Families of components

The state of a family is the list of its members. A step either makes a member, or lets
one of those there are act by itself; the others stay as they are. What each action of a
member keeps, the family keeps, and a condition that is exact for the actions of one member
is exact for the runs of the family (`Family.reaches_guarded_iff`): the interleaving does
not matter.
-/

namespace SparkleWayland

universe u v w

/-- How members are made, seeing those there are, and how one of them acts. Making may come
to nothing. -/
structure Family (σ : Type u) (α : Type v) (β : Type w) where
  make : List σ → β → Option (Option σ)
  act : σ → α → Option σ

/-- The steps of a family: the members are numbered in the order in which they were made. -/
inductive FamilyLabel (α : Type v) (β : Type w) where
  | make (b : β)
  | act (i : Nat) (a : α)
  deriving DecidableEq

namespace Family

variable {σ : Type u} {α : Type v} {β : Type w}

def step (F : Family σ α β) (ms : List σ) : FamilyLabel α β → Option (List σ)
  | .make b => (F.make ms b).map fun made => ms ++ made.toList
  | .act i a => ms[i]?.bind fun m => (F.act m a).map (ms.set i)

/-- The runs of the family, from no member on. -/
def machine (F : Family σ α β) : Machine (List σ) (FamilyLabel α β) :=
  .ofStep (· = []) F.step

/-- A condition on the making of a member and on the actions of one. -/
def Allowed (okMake : β → Prop) (ok : σ → α → Prop) (ms : List σ) : FamilyLabel α β → Prop
  | .make b => okMake b
  | .act i a => ∀ m, ms[i]? = some m → ok m a

/-- Under an invariant of the members, the condition says which of them are made well, and
which actions leave a member well that was so. -/
structure Exact (F : Family σ α β) (I good : σ → Prop) (okMake : β → Prop)
    (ok : σ → α → Prop) : Prop where
  made : ∀ ms b m, F.make ms b = some (some m) → I m ∧ (good m ↔ okMake b)
  nothing : ∀ ms b, F.make ms b = some none → okMake b
  acted : ∀ m a m', I m → F.act m a = some m' → I m' ∧ (good m' ↔ good m ∧ ok m a)

/-- The members before the numbered one and those behind it stay when it is replaced. -/
theorem exists_split {ms : List σ} {i : Nat} {m : σ} (h : ms[i]? = some m) :
    ∃ before after, ms = before ++ m :: after ∧
      ∀ m', ms.set i m' = before ++ m' :: after := by
  obtain ⟨hlt, rfl⟩ := List.getElem?_eq_some_iff.mp h
  have hset : ∀ m', ms.set i m' = ms.take i ++ m' :: ms.drop (i + 1) := by
    intro m'
    rw [List.set_eq_take_append_cons_drop, if_pos hlt]
  refine ⟨_, _, ?_, hset⟩
  rw [← hset, List.set_getElem_self]

theorem forall_mem_split {P : σ → Prop} {before after : List σ} {m : σ} :
    (∀ x ∈ before ++ m :: after, P x) ↔ (∀ x ∈ before, P x) ∧ P m ∧ ∀ x ∈ after, P x := by
  rw [List.forall_mem_append, List.forall_mem_cons]

variable {F : Family σ α β} {I good : σ → Prop} {okMake : β → Prop} {ok : σ → α → Prop}

/-- One step of the family. -/
theorem Exact.step (h : F.Exact I good okMake ok) {ms ms' : List σ} {l : FamilyLabel α β}
    (hI : ∀ m ∈ ms, I m) (hstep : F.step ms l = some ms') :
    (∀ m ∈ ms', I m) ∧
      ((∀ m ∈ ms', good m) ↔ (∀ m ∈ ms, good m) ∧ Allowed okMake ok ms l) := by
  cases l with
  | make b =>
    obtain ⟨made, hmade, rfl⟩ := Option.map_eq_some_iff.mp hstep
    cases made with
    | none =>
      rw [Option.toList_none, List.append_nil]
      exact ⟨hI, (and_iff_left (h.nothing ms b hmade)).symm⟩
    | some m =>
      obtain ⟨hm, hgood⟩ := h.made ms b m hmade
      rw [Option.toList_some, List.forall_mem_append, List.forall_mem_append,
        List.forall_mem_singleton, List.forall_mem_singleton]
      exact ⟨⟨hI, hm⟩, and_congr_right fun _ => hgood⟩
  | act i a =>
    obtain ⟨m, hm, hacts⟩ := Option.bind_eq_some_iff.mp hstep
    obtain ⟨m', hact, rfl⟩ := Option.map_eq_some_iff.mp hacts
    obtain ⟨before, after, hms, hset⟩ := exists_split hm
    have hallowed : Allowed okMake ok ms (.act i a : FamilyLabel α β) ↔ ok m a :=
      ⟨fun hall => hall m hm, fun hok x hx => by
        rw [hm] at hx
        cases hx
        exact hok⟩
    rw [hallowed, hset]
    rw [hms] at hI ⊢
    rw [forall_mem_split] at hI
    obtain ⟨hm', hgood⟩ := h.acted m a m' hI.2.1 hact
    rw [forall_mem_split, forall_mem_split, forall_mem_split, hgood]
    exact ⟨⟨hI.1, hm', hI.2.2⟩, by tauto⟩

/-- **Family rule**: the runs in which every member ends well are those whose steps all meet
the condition. -/
theorem Exact.reaches_guarded_iff (h : F.Exact I good okMake ok) {as : List (FamilyLabel α β)}
    {ms : List σ} :
    F.machine.Reaches as ms ∧ (∀ m ∈ ms, good m) ↔
      (F.machine.guarded (Allowed okMake ok)).Reaches as ms := by
  have hstart : ∀ ms, F.machine.start ms → (∀ m ∈ ms, I m) ∧ ∀ m ∈ ms, good m := by
    rintro _ rfl
    exact ⟨List.forall_mem_nil _, List.forall_mem_nil _⟩
  exact Machine.reaches_guarded_iff hstart (fun _ _ _ hI hstep => (h.step hI hstep).1)
    fun _ _ _ hI hstep => (h.step hI hstep).2

/-- The invariant of the members holds in every state that is reached. -/
theorem Exact.invariant (h : F.Exact I good okMake ok) {as : List (FamilyLabel α β)}
    {ms : List σ} (hms : F.machine.Reaches as ms) : ∀ m ∈ ms, I m := by
  refine Machine.invariant (M := F.machine) (I := fun ms : List σ => ∀ m ∈ ms, I m) ?_ ?_ hms
  · rintro _ rfl
    exact List.forall_mem_nil _
  · exact fun ms a ms' hI hstep => (h.step hI hstep).1

end Family

end SparkleWayland

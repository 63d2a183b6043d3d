import SparkleWayland.Sparkle.Teardown

/-!
# Sending through a held pointer (`sparkle_common/sparkle_resource.h`)

The generated `send_` functions ask `valid()` and then hand `resource()` to libwayland; whoever
holds a pointer may call them whenever foreign code has control. `valid()` is a null test:
`destroy_` clears `resource_`, but the slot of `destroyed` unlinks the listener that would
call `destroy_` and leaves `resource_` as it is. `alive_guarded_iff` says that the pointer may be
trusted as long as the resource is not destroyed after the object was collapsed.
-/

namespace SparkleWayland

variable {Obj : Type} [DecidableEq Obj]

/-- A resource whose wrapper is held, with what the calls of `send_` functions so far came to. -/
structure Sending (Obj : Type) where
  object : Teardown Obj
  results : List (Except Fault Unit)

namespace Sending

/-- The wrapper. There is only one resource, so that its number does not matter. -/
def wrapper (s : Sending Obj) : SparkleResource := s.object.view 0

inductive Label (Obj : Type) where
  | teardown (a : Teardown.Label Obj)
  | send

def step (x : Obj) (id : Nat) (s : Sending Obj) : Label Obj → Option (Sending Obj)
  | .teardown a => (s.object.step x id a).map fun object => { s with object := object }
  | .send =>
    if s.object.Outside then
      some { s with results := s.wrapper.send (fun _ => !s.object.gone) :: s.results }
    else none

def machine (x : Obj) (id : Nat) : Machine (Sending Obj) (Label Obj) :=
  Machine.ofStep (fun s => (Teardown.machine x id).start s.object ∧ s.results = []) (step x id)

/-- The resource of a valid wrapper has not been destroyed, and no send met a resource that
had been. -/
structure Alive (s : Sending Obj) : Prop where
  valid : s.wrapper.valid = true → s.object.gone = false
  sent : ∀ r ∈ s.results, r = .ok ()

/-- libwayland destroys the resource before anybody collapses the object. -/
def DestroysFirst (s : Sending Obj) : Label Obj → Prop
  | .teardown .destroyResource => s.object.collapsed = false
  | _ => True

variable {x : Obj} {id : Nat} {s t : Sending Obj} {a : Label Obj}

omit [DecidableEq Obj] in
theorem valid_iff : s.wrapper.valid = true ↔ s.object.resource = true := by
  unfold wrapper Teardown.view SparkleResource.valid
  cases s.object.resource <;> simp

omit [DecidableEq Obj] in
/-- What a send comes to. -/
theorem send_eq_ok_iff : s.wrapper.send (fun _ => !s.object.gone) = .ok () ↔
    (s.wrapper.valid = true → s.object.gone = false) := by
  unfold wrapper Teardown.view
  cases s.object.resource <;> cases s.object.gone <;>
    simp [SparkleResource.send, SparkleResource.valid, SparkleResource.get, deref, bind,
      Except.bind, pure, Except.pure]

/-! ## What becomes of the pointer -/

/-- The emission leaves the pointer alone. -/
theorem next_pointer {o o' : Teardown Obj} (hnext : o.next x id = some o') :
    o'.resource = o.resource ∧ o'.gone = o.gone := by
  have hslot : ∀ q : Teardown Obj, q.slot.resource = q.resource ∧ q.slot.gone = q.gone := by
    intro q
    rw [Teardown.slot]
    split <;> exact ⟨rfl, rfl⟩
  rw [Teardown.next] at hnext
  split at hnext
  · cases hnext
  · cases hnext
    exact ⟨rfl, rfl⟩
  · dsimp only at hnext
    split at hnext
    · cases hnext
      exact ⟨rfl, rfl⟩
    · split at hnext <;> cases hnext
      · exact hslot _
      · exact ⟨rfl, rfl⟩
      · exact ⟨rfl, rfl⟩

/-- Only the destruction of the resource changes it. -/
theorem step_pointer {o o' : Teardown Obj} {a : Teardown.Label Obj} (ha : a ≠ .destroyResource)
    (hstep : o.step x id a = some o') : o'.resource = o.resource ∧ o'.gone = o.gone := by
  cases a with
  | destroyResource => exact absurd rfl ha
  | next => exact next_pointer hstep
  | collapse =>
    obtain ⟨-, hstep⟩ := Option.ite_none_right_eq_some.mp hstep
    cases hstep
    rw [Teardown.collapse]
    split <;> exact ⟨rfl, rfl⟩
  | connect y =>
    obtain ⟨-, hstep⟩ := Option.ite_none_right_eq_some.mp hstep
    cases hstep
    exact ⟨rfl, rfl⟩
  | remove id' =>
    obtain ⟨-, hstep⟩ := Option.ite_none_right_eq_some.mp hstep
    cases hstep
    exact ⟨rfl, rfl⟩

omit [DecidableEq Obj] in
theorem destroy_pointer (o : Teardown Obj) :
    o.destroyResource.gone = true ∧
      o.destroyResource.resource = if o.linked then false else o.resource := by
  rw [Teardown.destroyResource]
  split
  · rw [Teardown.destroy_, Teardown.collapse]
    split <;> exact ⟨rfl, rfl⟩
  · exact ⟨rfl, rfl⟩

/-- The pointer is cleared only when the resource is destroyed. -/
structure Tracks (x : Obj) (id : Nat) (o : Teardown Obj) : Prop where
  phase : o.Phase x id
  cleared : o.resource = false → o.gone = true

theorem Tracks.step {o o' : Teardown Obj} {a : Teardown.Label Obj} (h : Tracks x id o)
    (hstep : o.step x id a = some o') : Tracks x id o' := by
  refine ⟨Teardown.step_phase h.phase hstep, fun hcleared => ?_⟩
  by_cases ha : a = .destroyResource
  · subst ha
    obtain ⟨-, hstep⟩ := Option.ite_none_right_eq_some.mp hstep
    cases hstep
    exact (destroy_pointer o).1
  · obtain ⟨hresource, hgone⟩ := step_pointer ha hstep
    rw [hgone]
    exact h.cleared (hresource ▸ hcleared)

/-- The listener is where it was as long as nothing has happened, and in no list once the
object was collapsed. -/
theorem Tracks.linked_iff {o : Teardown Obj} (h : Tracks x id o) (houtside : o.Outside)
    (hgone : o.gone = false) : o.linked = true ↔ o.collapsed = false := by
  obtain ⟨honce, hnotBefore, hasSoonAs, -, hlinked⟩ := h.phase.balanced
  rw [hlinked]
  constructor
  · intro hnone
    by_contra hcollapsed
    have hone := hasSoonAs houtside (Or.inl (eq_true_of_ne_false hcollapsed))
    omega
  · intro hnone
    by_contra hsome
    rcases hnotBefore (Nat.pos_of_ne_zero hsome) with hcollapsed | hgone'
    · exact absurd (hnone.symm.trans hcollapsed) (by decide)
    · exact absurd (hgone.symm.trans hgone') (by decide)

/-- The destruction of the resource leaves the pointer good exactly if nobody has collapsed the
object. -/
theorem destroy_good_iff {o o' : Teardown Obj} (h : Tracks x id o)
    (hstep : o.step x id .destroyResource = some o') :
    o.gone = false ∧
      ((o'.resource = true → o'.gone = false) ↔ o.collapsed = false) := by
  obtain ⟨⟨houtside, hgone⟩, hstep⟩ := Option.ite_none_right_eq_some.mp hstep
  cases hstep
  obtain ⟨hdestroyed, hpointer⟩ := destroy_pointer o
  have hresource : o.resource = true := by
    by_contra hnull
    exact absurd (hgone.symm.trans (h.cleared (eq_false_of_ne_true hnull))) (by decide)
  refine ⟨hgone, ?_⟩
  rw [hpointer, hdestroyed, ← h.linked_iff houtside hgone, hresource]
  cases o.linked <;> simp

/-! ## The steps -/

omit [DecidableEq Obj] in
theorem alive_iff : s.Alive ↔ (s.object.resource = true → s.object.gone = false) ∧
    ∀ r ∈ s.results, r = .ok () := by
  constructor
  · intro h
    exact ⟨fun hresource => h.valid (valid_iff.mpr hresource), h.sent⟩
  · rintro ⟨hvalid, hsent⟩
    exact ⟨fun h => hvalid (valid_iff.mp h), hsent⟩

/-- A step ends well exactly if the state before it was well and the resource is not destroyed
behind a collapse. -/
theorem step_alive_iff (h : Tracks x id s.object) (hstep : s.step x id a = some t) :
    t.Alive ↔ s.Alive ∧ s.DestroysFirst a := by
  cases a with
  | send =>
    obtain ⟨-, hstep⟩ := Option.ite_none_right_eq_some.mp hstep
    cases hstep
    refine ⟨fun halive => ⟨⟨halive.valid, fun r hr => ?_⟩, trivial⟩, fun halive => ?_⟩
    · exact halive.sent r (List.mem_cons_of_mem _ hr)
    · refine ⟨halive.1.valid, fun r hr => ?_⟩
      rcases List.mem_cons.mp hr with rfl | hold
      · exact send_eq_ok_iff.mpr halive.1.valid
      · exact halive.1.sent r hold
  | teardown a =>
    obtain ⟨o, ho, rfl⟩ := Option.map_eq_some_iff.mp hstep
    rw [alive_iff, alive_iff]
    by_cases ha : a = .destroyResource
    · subst ha
      obtain ⟨hgone, hgood⟩ := destroy_good_iff h ho
      rw [hgood]
      exact ⟨fun ⟨hfirst, hsent⟩ => ⟨⟨fun _ => hgone, hsent⟩, hfirst⟩,
        fun ⟨⟨_, hsent⟩, hfirst⟩ => ⟨hfirst, hsent⟩⟩
    · obtain ⟨hresource, hgone⟩ := step_pointer ha ho
      have htrue : s.DestroysFirst (.teardown a) := by
        cases a <;> first | exact trivial | exact absurd rfl ha
      rw [hresource, hgone]
      exact ⟨fun hgood => ⟨hgood, htrue⟩, fun hgood => hgood.1⟩

theorem step_tracks (h : Tracks x id s.object) (hstep : s.step x id a = some t) :
    Tracks x id t.object := by
  cases a with
  | send =>
    obtain ⟨-, hstep⟩ := Option.ite_none_right_eq_some.mp hstep
    cases hstep
    exact h
  | teardown a =>
    obtain ⟨o, ho, rfl⟩ := Option.map_eq_some_iff.mp hstep
    exact h.step ho

theorem start_tracks (h : (machine x id).start s) : Tracks x id s.object ∧ s.Alive := by
  obtain ⟨⟨others, hforeign, hobject⟩, hresults⟩ := h
  rw [alive_iff, hobject, hresults]
  exact ⟨⟨.before hforeign, nofun⟩, fun _ => rfl, nofun⟩

/-- **Valid pointers**: in a run that may collapse the object, destroy the resource and send in any
order and nesting, valid wrappers have a live resource and every send meets one, exactly if
the resource is not destroyed after the object was collapsed. -/
theorem alive_guarded_iff {as : List (Label Obj)} {s : Sending Obj} :
    (machine x id).Reaches as s ∧ s.Alive ↔
      ((machine x id).guarded DestroysFirst).Reaches as s :=
  Machine.reaches_guarded_iff (I := fun s => Tracks x id s.object) (fun _ h => start_tracks h)
    (fun _ _ _ h hstep => step_tracks h hstep) (fun _ _ _ h hstep => step_alive_iff h hstep)

/-- The application collapses the object, the slot and its two breakers run, then the client
destroys the resource, and somebody sends. -/
def collapsedFirst : List (Label Nat) :=
  [.teardown .collapse, .teardown .next, .teardown .next, .teardown .next, .teardown .next,
    .teardown .destroyResource, .send]

theorem collapsedFirst_sent :
    ∃ s, (machine 0 0).Reaches collapsedFirst s ∧ ¬ s.Alive ∧ s.wrapper.valid = true ∧
      s.object.gone = true ∧ s.results = [.error .destroyedResource] := by
  have hrun : (collapsedFirst.foldlM (step 0 0) ⟨Teardown.integrated 0 0 [], []⟩).map
      (fun s => ((s.wrapper.valid, s.object.gone), s.results)) =
        some ((true, true), [.error .destroyedResource]) := by
    decide +kernel
  obtain ⟨s, hs, heq⟩ := Option.map_eq_some_iff.mp hrun
  obtain ⟨hpointer, hresults⟩ := Prod.mk.inj heq
  obtain ⟨hvalid, hgone⟩ := Prod.mk.inj hpointer
  refine ⟨s, ⟨_, ⟨⟨[], nofun, rfl⟩, rfl⟩, Machine.Path.of_run hs⟩, fun h => ?_, hvalid, hgone,
    hresults⟩
  exact absurd ((h.valid hvalid).symm.trans hgone) (by decide)

end Sending

end SparkleWayland

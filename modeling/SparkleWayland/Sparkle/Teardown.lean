import SparkleWayland.Lib.Machine
import SparkleWayland.Sparkle.Resource
import SparkleWayland.Were.Connections

/-!
# Letting a resource go (`sparkle_common/sparkle_resource.cpp`)

The integrator of a `sparkle_resource` takes a reference for libwayland and adds a destroy
listener. There are two ways to give the reference back: the application collapses the
object, and the slot of `destroyed` that the integrator connected unlinks the listener; or
libwayland destroys the resource, and `destroy_` forgets it and collapses the object. Both
may happen, in any order, from within each other and more than once.

The slot and its two breakers come first in `destroyed`, for the integrator of
`sparkle_resource` is the first to connect anything to the object. So the slot
has run, and has been removed, before any foreign code gets control (`Phase`).
What foreign code does then is open: collapses of this object and of others, connections
made and broken, the destruction of the resource. `released_once` says that the
reference is given back exactly once, as soon as one of the two has happened.
-/

namespace SparkleWayland

variable {Obj : Type} [DecidableEq Obj]

/-- An emission of `destroyed` in progress: the connections yet to be called, and whether
the one called last is foreign code that is still running. -/
structure Emission (Obj : Type) where
  todo : List (SignalConnection Obj)
  foreign : Bool

/-- An integrated `sparkle_resource`. `collapsed` and `gone` are history: a collapse was called,
libwayland destroyed the resource. The three numbers count the releases of the extra
reference, the calls of `wl_list_remove` and the calls of `destroy_`. -/
structure Teardown (Obj : Type) where
  /-- `resource_` is not null. -/
  resource : Bool
  /-- `listener_` is in the list of the resource. -/
  linked : Bool
  released : Nat
  unlinked : Nat
  fired : Nat
  state : IntegrationState
  destroyed : List (SignalConnection Obj)
  stack : List (Emission Obj)
  collapsed : Bool
  gone : Bool

namespace Teardown

/-- The entries that the integrator's `connect` made, with the ids from `id` on. -/
def own (x : Obj) (id : Nat) : Connection Obj := .make x .destroyed x id

def ownEntries (x : Obj) (id : Nat) : List (SignalConnection Obj) :=
  Signals.entriesOf ⟨x, .destroyed⟩ (own x id)

/-- An entry that another `connect` made. -/
def Foreign (x : Obj) (id : Nat) (y : SignalConnection Obj) : Prop :=
  y.call.connection ≠ own x id ∧ (y.id < id ∨ id + 2 < y.id)

instance (x : Obj) (id : Nat) (y : SignalConnection Obj) : Decidable (Foreign x id y) :=
  inferInstanceAs (Decidable (_ ∧ _))

/-! ## What the code does -/

/-- The slot of `destroyed`. -/
def slot (s : Teardown Obj) : Teardown Obj :=
  if s.resource then
    { s with linked := false, unlinked := s.unlinked + 1, released := s.released + 1 }
  else s

/-- The breaker of the slot's connection. -/
def breaker (x : Obj) (id : Nat) (s : Teardown Obj) : Teardown Obj :=
  { s with
    destroyed := s.destroyed.filter fun y =>
      y.id ≠ (own x id).pcId ∧ y.id ≠ (own x id).sbId ∧ y.id ≠ (own x id).cbId }

/-- `collapse`: an emission begins with the list that it finds. -/
def collapse (s : Teardown Obj) : Teardown Obj :=
  if s.state = .integrated then
    { s with collapsed := true, stack := ⟨s.destroyed, false⟩ :: s.stack }
  else { s with collapsed := true }

/-- `sparkle_resource::destroy_`, called by libwayland. -/
def destroy_ (s : Teardown Obj) : Teardown Obj :=
  { s with resource := false, fired := s.fired + 1, released := s.released + 1 }.collapse

/-- libwayland destroys the resource: its list is emptied, and the listener called if it was
in there. -/
def destroyResource (s : Teardown Obj) : Teardown Obj :=
  if s.linked then { s with gone := true, linked := false }.destroy_
  else { s with gone := true }

/-- The next connection of the emission on top is called, or the emission ends and the
object is marked. -/
def next (x : Obj) (id : Nat) (s : Teardown Obj) : Option (Teardown Obj) :=
  match s.stack with
  | [] => none
  | ⟨[], _⟩ :: rest => some { s with state := .disintegrated, stack := rest }
  | ⟨y :: todo, _⟩ :: rest =>
    let foreign := { s with stack := ⟨todo, true⟩ :: rest }
    let ours := { s with stack := ⟨todo, false⟩ :: rest }
    if y.call.connection ≠ own x id then some foreign
    else
      match y.call with
      | .call _ => some ours.slot
      | .queuedCall _ => some ours
      | .breaker _ => some (ours.breaker x id)

/-- Foreign code has control: nothing is emitted, or the connection called last is foreign. -/
def Outside (s : Teardown Obj) : Prop := ∀ e rest, s.stack = e :: rest → e.foreign = true

instance (s : Teardown Obj) : Decidable s.Outside :=
  decidable_of_iff (∀ e ∈ s.stack.head?, e.foreign = true) (by
    cases h : s.stack with
    | nil => simp [Outside, h]
    | cons e rest => simp [Outside, h])

inductive Label (Obj : Type) where
  | collapse
  | destroyResource
  | connect (y : SignalConnection Obj)
  | remove (id : Nat)
  | next

/-- One step: the emission goes on, or foreign code does something. -/
def step (x : Obj) (id : Nat) (s : Teardown Obj) : Label Obj → Option (Teardown Obj)
  | .collapse => if s.Outside then some s.collapse else none
  | .destroyResource => if s.Outside ∧ s.gone = false then some s.destroyResource else none
  | .connect y =>
    if s.Outside ∧ Foreign x id y then some { s with destroyed := s.destroyed ++ [y] } else none
  | .remove id' =>
    if s.Outside ∧ (id' < id ∨ id + 2 < id') then
      some { s with destroyed := s.destroyed.filter fun y => y.id ≠ id' }
    else none
  | .next => s.next x id

/-- A resource behind its integrator, with what else has been connected to `destroyed`. -/
def integrated (x : Obj) (id : Nat) (others : List (SignalConnection Obj)) : Teardown Obj where
  resource := true
  linked := true
  released := 0
  unlinked := 0
  fired := 0
  state := .integrated
  destroyed := ownEntries x id ++ others
  stack := []
  collapsed := false
  gone := false

def machine (x : Obj) (id : Nat) : Machine (Teardown Obj) (Label Obj) :=
  Machine.ofStep
    (fun s => ∃ others, (∀ y ∈ others, Foreign x id y) ∧ s = integrated x id others) (step x id)

/-! ## Giving the reference back -/

/-- The extra reference is given back once, as soon as the object was collapsed or the
resource destroyed and not before; the listener is unlinked or fired, once. -/
structure Balanced (s : Teardown Obj) : Prop where
  once : s.released ≤ 1
  notBefore : 0 < s.released → s.collapsed = true ∨ s.gone = true
  asSoonAs : s.Outside → s.collapsed = true ∨ s.gone = true → s.released = 1
  listener : s.unlinked + s.fired = s.released
  linked : s.linked = true ↔ s.released = 0

/-! ## The phases of a run -/

/-- The entries of the emission of a resource that is let go. -/
def ownBreakers (x : Obj) (id : Nat) : List (SignalConnection Obj) :=
  [⟨.breaker (own x id), id + 1⟩, ⟨.breaker (own x id), id + 2⟩]

theorem ownEntries_eq (x : Obj) (id : Nat) :
    ownEntries x id = ⟨.call (own x id), id⟩ :: ownBreakers x id := by
  simp [ownEntries, Signals.entriesOf, own, Connection.make, Connection.signal, ownBreakers]

/-- The slot is in no list any more. -/
def SlotGone (x : Obj) (id : Nat) (ys : List (SignalConnection Obj)) : Prop :=
  ∀ y ∈ ys, y.call ≠ .call (own x id)

/-- The reference has been given back. -/
structure LetGo (x : Obj) (id : Nat) (s : Teardown Obj) : Prop where
  happened : s.collapsed = true ∨ s.gone = true
  released : s.released = 1
  listener : s.unlinked + s.fired = 1
  linked : s.linked = false
  /-- The slot finds `resource_` null, or is not called again. -/
  silent : s.resource = true →
    SlotGone x id s.destroyed ∧ ∀ e ∈ s.stack, SlotGone x id e.todo
  marked : s.stack = [] → s.state = .disintegrated

/-- Where a run stands: nothing has happened; a collapse was called, and the slot is about to
run; it has run, and its breaker is about to; the reference has been given back. -/
inductive Phase (x : Obj) (id : Nat) : Teardown Obj → Prop
  | before {others : List (SignalConnection Obj)} (h : ∀ y ∈ others, Foreign x id y) :
      Phase x id (integrated x id others)
  | called {others : List (SignalConnection Obj)} (h : ∀ y ∈ others, Foreign x id y) :
      Phase x id { integrated x id others with
        collapsed := true
        stack := [⟨ownEntries x id ++ others, false⟩] }
  | unlinked {others : List (SignalConnection Obj)} (h : ∀ y ∈ others, Foreign x id y) :
      Phase x id { integrated x id others with
        collapsed := true
        linked := false
        unlinked := 1
        released := 1
        stack := [⟨ownBreakers x id ++ others, false⟩] }
  | letGo {s : Teardown Obj} (h : s.LetGo x id) : Phase x id s

variable {x : Obj} {id : Nat} {s t : Teardown Obj}

omit [DecidableEq Obj] in
theorem slotGone_foreign {others : List (SignalConnection Obj)}
    (h : ∀ y ∈ others, Foreign x id y) : SlotGone x id others := by
  intro y hy hcall
  exact (h y hy).1 (by rw [hcall]; rfl)

/-- The breaker takes the slot away. -/
theorem slotGone_breaker {others : List (SignalConnection Obj)}
    (h : ∀ y ∈ others, Foreign x id y) :
    SlotGone x id ((ownEntries x id ++ others).filter fun y =>
      y.id ≠ (own x id).pcId ∧ y.id ≠ (own x id).sbId ∧ y.id ≠ (own x id).cbId) := by
  intro y hy
  obtain ⟨hmem, hids⟩ := List.mem_filter.mp hy
  rw [ownEntries_eq] at hmem
  rcases List.mem_append.mp hmem with hours | hother
  · rcases List.mem_cons.mp hours with rfl | hbreaker
    · simp [own, Connection.make] at hids
    · rcases List.mem_cons.mp hbreaker with rfl | hlast
      · nofun
      · rw [List.mem_singleton.mp hlast]
        nofun
  · exact slotGone_foreign h y hother

omit [DecidableEq Obj] in
theorem SlotGone.filter {ys : List (SignalConnection Obj)} (h : SlotGone x id ys)
    (keep : SignalConnection Obj → Bool) : SlotGone x id (ys.filter keep) :=
  fun y hy => h y (List.mem_of_mem_filter hy)

omit [DecidableEq Obj] in
/-- A collapse after the reference was given back. -/
theorem LetGo.collapse (h : s.LetGo x id) : s.collapse.LetGo x id := by
  unfold Teardown.collapse
  split
  · rename_i hstate
    refine ⟨Or.inl rfl, h.released, h.listener, h.linked, fun hresource => ?_, nofun⟩
    obtain ⟨hlist, hstack⟩ := h.silent hresource
    refine ⟨hlist, fun e he => ?_⟩
    rcases List.mem_cons.mp he with rfl | hold
    · exact hlist
    · exact hstack e hold
  · exact ⟨Or.inl rfl, h.released, h.listener, h.linked, h.silent, h.marked⟩

/-- The emission goes on after the reference was given back. -/
theorem LetGo.next (h : s.LetGo x id) (hnext : s.next x id = some t) : t.LetGo x id := by
  unfold Teardown.next at hnext
  split at hnext
  · cases hnext
  · rename_i rest hstack
    cases hnext
    refine ⟨h.happened, h.released, h.listener, h.linked, fun hresource => ?_, fun _ => rfl⟩
    obtain ⟨hlist, hall⟩ := h.silent hresource
    exact ⟨hlist, fun e he => hall e (by rw [hstack]; exact List.mem_cons_of_mem _ he)⟩
  · rename_i y todo called rest hstack
    have hsilent (foreign : Bool) (hresource : s.resource = true) :
        SlotGone x id s.destroyed ∧
          ∀ e ∈ (⟨todo, foreign⟩ :: rest : List (Emission Obj)), SlotGone x id e.todo := by
      obtain ⟨hlist, hall⟩ := h.silent hresource
      rw [hstack] at hall
      refine ⟨hlist, fun e he => ?_⟩
      rcases List.mem_cons.mp he with rfl | hold
      · exact fun z hz => hall _ List.mem_cons_self z (List.mem_cons_of_mem _ hz)
      · exact hall e (List.mem_cons_of_mem _ hold)
    have hkept (foreign : Bool) :
        ({ s with stack := ⟨todo, foreign⟩ :: rest } : Teardown Obj).LetGo x id :=
      ⟨h.happened, h.released, h.listener, h.linked, hsilent foreign, nofun⟩
    dsimp only at hnext
    split at hnext
    · cases hnext
      exact hkept true
    · rename_i hown
      have hconnection := not_not.mp hown
      split at hnext
      · rename_i c hcall
        cases hnext
        -- the slot finds that there is nothing to give back
        have hnull : s.resource = false := by
          by_contra hresource
          have hgone := ((h.silent (eq_true_of_ne_false hresource)).2 ⟨y :: todo, called⟩
            (by rw [hstack]; exact List.mem_cons_self)) y List.mem_cons_self
          rw [hcall] at hconnection hgone
          exact hgone (congrArg Slot.call hconnection)
        rw [slot, if_neg (by simp [hnull])]
        exact hkept false
      · cases hnext
        exact hkept false
      · cases hnext
        obtain ⟨-, -, -, -, hsilent', -⟩ := hkept false
        refine ⟨h.happened, h.released, h.listener, h.linked, fun hresource => ?_, nofun⟩
        obtain ⟨hlist, hall⟩ := hsilent' hresource
        exact ⟨hlist.filter _, hall⟩

omit [DecidableEq Obj] in
/-- Where the connection called last is not foreign, no foreign code has control. -/
theorem not_outside {todo : List (SignalConnection Obj)} {rest : List (Emission Obj)}
    (hstack : s.stack = ⟨todo, false⟩ :: rest) : ¬ s.Outside := by
  intro h
  cases h _ _ hstack

/-- The destruction of the resource before anything else has happened. -/
theorem destroyResource_letGo {others : List (SignalConnection Obj)} :
    (integrated x id others).destroyResource.LetGo x id :=
  ⟨Or.inr rfl, rfl, rfl, rfl, nofun, nofun⟩

omit [DecidableEq Obj] in
/-- The destruction of the resource after the reference was given back. -/
theorem LetGo.destroyResource (h : s.LetGo x id) : s.destroyResource.LetGo x id := by
  rw [Teardown.destroyResource, if_neg (by simp [h.linked])]
  exact ⟨Or.inr rfl, h.released, h.listener, h.linked, h.silent, h.marked⟩

omit [DecidableEq Obj] in
/-- Foreign connections come and go. -/
theorem LetGo.destroyed (h : s.LetGo x id) {ys : List (SignalConnection Obj)}
    (hys : SlotGone x id s.destroyed → SlotGone x id ys) :
    ({ s with destroyed := ys } : Teardown Obj).LetGo x id :=
  ⟨h.happened, h.released, h.listener, h.linked,
    fun hresource => ⟨hys (h.silent hresource).1, (h.silent hresource).2⟩, h.marked⟩

/-- What foreign code may do to the other connections of a resource nothing has happened
to. -/
theorem remove_own {others : List (SignalConnection Obj)} {id' : Nat}
    (hid : id' < id ∨ id + 2 < id') :
    (ownEntries x id ++ others).filter (fun y => y.id ≠ id') =
      ownEntries x id ++ others.filter fun y => y.id ≠ id' := by
  have h0 : id ≠ id' := by omega
  have h1 : id + 1 ≠ id' := by omega
  have h2 : id + 2 ≠ id' := by omega
  rw [List.filter_append, ownEntries_eq]
  simp [ownBreakers, h0, h1, h2]

/-- The emission goes on where a collapse was called first: the slot runs, and then its
breaker. -/
theorem next_called {others : List (SignalConnection Obj)} (h : ∀ y ∈ others, Foreign x id y)
    (hnext : ({ integrated x id others with
        collapsed := true
        stack := [⟨ownEntries x id ++ others, false⟩] } : Teardown Obj).next x id = some t) :
    t.Phase x id := by
  rw [ownEntries_eq] at hnext
  simp only [Teardown.next, List.cons_append, Slot.connection, ne_eq, not_true_eq_false,
    if_false, Option.some.injEq] at hnext
  subst hnext
  exact .unlinked h

theorem next_unlinked {others : List (SignalConnection Obj)} (h : ∀ y ∈ others, Foreign x id y)
    (hnext : ({ integrated x id others with
        collapsed := true
        linked := false
        unlinked := 1
        released := 1
        stack := [⟨ownBreakers x id ++ others, false⟩] } : Teardown Obj).next x id = some t) :
    t.Phase x id := by
  simp only [Teardown.next, ownBreakers, List.cons_append, List.nil_append, Slot.connection, ne_eq,
    not_true_eq_false, if_false, Option.some.injEq] at hnext
  subst hnext
  refine .letGo ⟨Or.inl rfl, rfl, rfl, rfl, fun _ => ⟨slotGone_breaker h, ?_⟩, nofun⟩
  intro e he y hy
  rw [List.mem_singleton.mp he] at hy
  rcases List.mem_cons.mp hy with rfl | hother
  · nofun
  · exact slotGone_foreign h y hother

/-- Another connection is made. -/
theorem connect_phase (h : s.Phase x id) {y : SignalConnection Obj} (houtside : s.Outside)
    (hforeign : Foreign x id y) :
    ({ s with destroyed := s.destroyed ++ [y] } : Teardown Obj).Phase x id := by
  have hone : ∀ z ∈ [y], Foreign x id z := fun z hz => List.mem_singleton.mp hz ▸ hforeign
  cases h with
  | before h =>
    have hall : ∀ z ∈ _ ++ [y], Foreign x id z := fun z hz =>
      (List.mem_append.mp hz).elim (h z) (hone z)
    have hbefore := Phase.before hall
    rwa [integrated, ← List.append_assoc] at hbefore
  | called h => exact absurd houtside (not_outside rfl)
  | unlinked h => exact absurd houtside (not_outside rfl)
  | letGo h =>
    refine .letGo (h.destroyed fun hgone z hz => ?_)
    exact (List.mem_append.mp hz).elim (hgone z) (slotGone_foreign hone z)

/-- Another connection is broken. -/
theorem remove_phase (h : s.Phase x id) {id' : Nat} (houtside : s.Outside)
    (hid : id' < id ∨ id + 2 < id') :
    ({ s with destroyed := s.destroyed.filter fun y => y.id ≠ id' } : Teardown Obj).Phase x id := by
  cases h with
  | @before others h =>
    have hall : ∀ y ∈ others.filter fun y => y.id ≠ id', Foreign x id y :=
      fun y hy => h y (List.mem_of_mem_filter hy)
    have hbefore := Phase.before hall
    rwa [integrated, ← remove_own hid] at hbefore
  | called h => exact absurd houtside (not_outside rfl)
  | unlinked h => exact absurd houtside (not_outside rfl)
  | letGo h => exact .letGo (h.destroyed fun hgone => hgone.filter _)

/-- **Step**: every step leads from one phase to the same or a later one. -/
theorem step_phase (h : s.Phase x id) {a : Label Obj} (hstep : s.step x id a = some t) :
    t.Phase x id := by
  cases a with
  | collapse =>
    obtain ⟨houtside, ht⟩ := Option.ite_none_right_eq_some.mp hstep
    cases ht
    cases h with
    | before h => exact .called h
    | called h => exact absurd houtside (not_outside rfl)
    | unlinked h => exact absurd houtside (not_outside rfl)
    | letGo h => exact .letGo h.collapse
  | destroyResource =>
    obtain ⟨⟨houtside, -⟩, ht⟩ := Option.ite_none_right_eq_some.mp hstep
    cases ht
    cases h with
    | before h => exact .letGo destroyResource_letGo
    | called h => exact absurd houtside (not_outside rfl)
    | unlinked h => exact absurd houtside (not_outside rfl)
    | letGo h => exact .letGo h.destroyResource
  | connect y =>
    obtain ⟨⟨houtside, hforeign⟩, ht⟩ := Option.ite_none_right_eq_some.mp hstep
    cases ht
    exact connect_phase h houtside hforeign
  | remove id' =>
    obtain ⟨⟨houtside, hid⟩, ht⟩ := Option.ite_none_right_eq_some.mp hstep
    cases ht
    exact remove_phase h houtside hid
  | next =>
    cases h with
    | before h => cases hstep
    | called h => exact next_called h hstep
    | unlinked h => exact next_unlinked h hstep
    | letGo h => exact .letGo (h.next hstep)

/-- **Phases**: every run is in one of the phases. -/
theorem reaches_phase {as : List (Label Obj)} (h : (machine x id).Reaches as s) :
    s.Phase x id := by
  refine Machine.invariant (I := Phase x id) ?_ ?_ h
  · rintro s ⟨others, hothers, rfl⟩
    exact .before hothers
  · intro s a t hs hstep
    exact step_phase hs hstep

theorem Phase.balanced (h : s.Phase x id) : s.Balanced := by
  cases h with
  | before h =>
    exact ⟨Nat.zero_le _, nofun, fun _ h => by simp [integrated] at h, rfl, by simp [integrated]⟩
  | called h =>
    exact ⟨Nat.zero_le _, nofun, fun houtside => absurd houtside (not_outside rfl), rfl,
      by simp [integrated]⟩
  | unlinked h =>
    exact ⟨Nat.le_refl _, fun _ => Or.inl rfl, fun _ _ => rfl, rfl, by simp⟩
  | letGo h =>
    refine ⟨Nat.le_of_eq h.released, fun _ => h.happened, fun _ _ => h.released, ?_, ?_⟩
    · rw [h.listener, h.released]
    · simp [h.linked, h.released]

/-- **The reference**: in every run, whatever collapses the object and destroys the resource, in
whatever order and nesting, the extra reference is given back once, as soon as one of the
two has happened, and the listener is unlinked or fired once. -/
theorem released_once {as : List (Label Obj)} (h : (machine x id).Reaches as s) : s.Balanced :=
  (reaches_phase h).balanced

/-- A foreign connection of the object 1 to the resource 0. -/
def linkedToOne : SignalConnection Nat := ⟨.call (.make 0 .destroyed 1 3), 3⟩

/-- From within a collapse the foreign call collapses the resource again, and destroys it. -/
def nested : List (Label Nat) :=
  [.collapse, .next, .next, .next, .next, .collapse, .next, .destroyResource, .next, .next]

theorem nested_once :
    ∃ s, (machine 0 0).Reaches nested s ∧ (s.released, s.unlinked, s.fired) = (1, 1, 0) ∧
      s.Balanced := by
  have hrun : (nested.foldlM (step 0 0) (integrated 0 0 [linkedToOne])).map
      (fun s => (s.released, s.unlinked, s.fired)) = some (1, 1, 0) := by
    decide +kernel
  obtain ⟨s, hs, hcounts⟩ := Option.map_eq_some_iff.mp hrun
  have hreaches : (machine 0 0).Reaches nested s :=
    ⟨_, ⟨[linkedToOne], by decide, rfl⟩, Machine.Path.of_run hs⟩
  exact ⟨s, hreaches, hcounts, released_once hreaches⟩

/-! ## The wrapper between two events -/

/-- The wrapper of resource `r`, as its surface sees it. -/
def view (r : Nat) (s : Teardown Obj) : SparkleResource where
  resource := if s.resource then some r else none
  listening := s.linked
  integrated := s.state = .integrated

/-- Where nothing is emitted, the wrapper is as it was made, or as `SparkleResource.collapse`
or `SparkleResource.destroy_` leaves it. -/
theorem view_of_quiet {as : List (Label Obj)} (h : (machine x id).Reaches as s)
    (hquiet : s.stack = []) (r : Nat) {live : Nat → Bool} (hlive : live r = true) :
    let made : SparkleResource := ⟨some r, true, true⟩
    s.view r = made ∨ made.collapse live = .ok (s.view r) ∨ s.view r = made.destroy_ := by
  intro made
  cases reaches_phase h with
  | before => exact Or.inl rfl
  | called => cases hquiet
  | unlinked => cases hquiet
  | letGo h =>
    have hstate := h.marked hquiet
    cases hresource : s.resource with
    | true =>
      refine Or.inr (Or.inl ?_)
      simp [made, SparkleResource.collapse, SparkleResource.deref_ok hlive, view, hresource,
        h.linked, hstate, bind, Except.bind, pure, Except.pure]
    | false =>
      refine Or.inr (Or.inr ?_)
      simp [SparkleResource.destroy_, view, hresource, h.linked, hstate]

end Teardown

end SparkleWayland

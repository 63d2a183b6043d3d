import Mathlib.Tactic.Common

/-!
# Wrapped Wayland resources (`sparkle_common/sparkle_resource.cpp`)

A `sparkle_resource` wraps a `wl_resource` that the client can destroy at any
time. It listens to the destruction and then forgets the resource; from there on
`resource()` throws. Every use of a `wl_resource` by libwayland goes through
`deref`, which says what the use runs into when there is nothing, or nothing any
more, behind the pointer.
-/

namespace SparkleWayland

/-- How a handler goes wrong. -/
inductive Fault
  /-- A `were_exception` is thrown. -/
  | wereException
  /-- `value()` of an empty optional. -/
  | badOptionalAccess
  /-- A null `wl_resource` is dereferenced. -/
  | nullResource
  /-- A destroyed `wl_resource` is dereferenced. -/
  | destroyedResource
  deriving DecidableEq, Repr

/-- libwayland follows a `wl_resource` pointer. -/
def deref (live : Nat → Bool) : Option Nat → Except Fault Unit
  | none => .error .nullResource
  | some r => if live r then .ok () else .error .destroyedResource

/-- `sparkle_resource`: the pointer, whether the listener is linked to the
resource, and whether the wrapper was not collapsed yet. -/
structure SparkleResource where
  resource : Option Nat
  listening : Bool
  integrated : Bool
  deriving DecidableEq, Repr

namespace SparkleResource

/-- The constructor of an existing resource with its integrator, which hands the
pointer to `wl_resource_add_destroy_listener`. -/
def wrap (live : Nat → Bool) (resource : Option Nat) : Except Fault SparkleResource := do
  deref live resource
  return ⟨resource, true, true⟩

/-- `sparkle_resource::resource`. -/
def get (w : SparkleResource) : Except Fault Nat :=
  match w.resource with
  | none => .error .wereException
  | some r => .ok r

/-- `sparkle_resource::valid`. -/
def valid (w : SparkleResource) : Bool := w.resource.isSome

/-- The generated `send_` functions post an event while the wrapper is valid. -/
def send (live : Nat → Bool) (w : SparkleResource) : Except Fault Unit := do
  if w.valid then
    let r ← w.get
    deref live (some r)

/-- `collapse`: the slot of `destroyed` unlinks the listener from the resource. -/
def collapse (live : Nat → Bool) (w : SparkleResource) : Except Fault SparkleResource := do
  if w.integrated = false then return w
  if w.resource.isSome then
    deref live w.resource
    return { w with listening := false, integrated := false }
  return { w with integrated := false }

/-- `sparkle_resource::destroy_`: the resource is forgotten and the wrapper
collapses, with nothing left to unlink. -/
def destroy_ (w : SparkleResource) : SparkleResource :=
  { w with resource := none, listening := false, integrated := false }

/-- The destruction of resource `r` as the wrapper sees it. -/
def notify (r : Nat) (w : SparkleResource) : SparkleResource :=
  if w.listening ∧ w.resource = some r then w.destroy_ else w

/-- A wrapper never holds on to a destroyed resource: as long as it has one, it is
live and the listener is linked. -/
def Faithful (live : Nat → Bool) (w : SparkleResource) : Prop :=
  ∀ r, w.resource = some r → live r = true ∧ w.listening = true

variable {live : Nat → Bool} {w : SparkleResource}

theorem deref_ok {r : Nat} (h : live r = true) : deref live (some r) = .ok () :=
  if_pos h

theorem Faithful.send (h : w.Faithful live) : w.send live = .ok () := by
  rcases hr : w.resource with _ | r
  · simp [SparkleResource.send, valid, hr]
    rfl
  · simp [SparkleResource.send, valid, get, hr, bind, Except.bind, deref_ok (h r hr).1]

theorem Faithful.collapse (h : w.Faithful live) : ∃ w', w.collapse live = .ok w' := by
  rcases hr : w.resource with _ | r
  · cases hi : w.integrated <;> simp [SparkleResource.collapse, hr, hi] <;> exact ⟨_, rfl⟩
  · cases hi : w.integrated <;>
      simp [SparkleResource.collapse, hr, hi, bind, Except.bind, deref_ok (h r hr).1] <;>
      exact ⟨_, rfl⟩

/-- Wrapping succeeds for live resources. -/
theorem wrap_live {r : Nat} (h : live r = true) :
    wrap live (some r) = .ok ⟨some r, true, true⟩ := by
  simp [wrap, deref_ok h, bind, Except.bind, pure, Except.pure]

theorem wrap_null : wrap live none = .error .nullResource := rfl

theorem faithful_wrapped {r : Nat} (h : live r = true) :
    (⟨some r, true, true⟩ : SparkleResource).Faithful live := by
  rintro _ ⟨⟩
  exact ⟨h, rfl⟩

/-- Destroying a resource keeps its wrapper faithful. -/
theorem Faithful.notify (h : w.Faithful live) (r : Nat) :
    (w.notify r).Faithful (Function.update live r false) := by
  intro r' hr'
  rw [SparkleResource.notify] at hr' ⊢
  split at hr'
  · cases hr'
  · rename_i hno
    obtain ⟨hlive, hlistening⟩ := h r' hr'
    have hne : r' ≠ r := fun he => hno ⟨hlistening, he ▸ hr'⟩
    rw [Function.update_of_ne hne, if_neg hno]
    exact ⟨hlive, hlistening⟩

/-- A wrapper stays faithful when resources are created. -/
theorem Faithful.mono {live' : Nat → Bool} (h : w.Faithful live)
    (hle : ∀ r, live r = true → live' r = true) : w.Faithful live' :=
  fun r hr => ⟨hle r (h r hr).1, (h r hr).2⟩

end SparkleResource

end SparkleWayland

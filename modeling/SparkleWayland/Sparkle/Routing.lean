import SparkleWayland.Lib.Batches
import SparkleWayland.Sparkle.Input

/-!
# Exactly once to every device (`sparkle_common/sparkle.cpp`, `sparkle_common/sparkle_surface.cpp`)

Which connections there are is settled by which objects are live (`Sparkle.Wanted`): those of
`sparkle` to seats and shells, those of shell surfaces and devices to `sparkle`, and those of each
shell surface to the devices of its client. Every request keeps it so, each of them made once
(`Sparkle.Routed`), and none of them throws. An emission on a shell surface then comes once to
every device that it is for.
-/

namespace SparkleWayland

/-! ## Names -/

theorem DeviceKind.created_injective : Function.Injective DeviceKind.created := by
  intro k k' h
  cases k <;> cases k' <;> first | rfl | cases h

theorem DeviceKind.created_ne_surfaceCreated (kind : DeviceKind) :
    kind.created ≠ surfaceCreated := by
  cases kind <;> decide

theorem DeviceKind.created_ne_destroyed (kind : DeviceKind) : kind.created ≠ .destroyed := by
  cases kind <;> decide

theorem surfaceCreated_ne_destroyed : surfaceCreated ≠ .destroyed := nofun

theorem shellSurfaceCreated_ne_destroyed : shellSurfaceCreated ≠ .destroyed := nofun

theorem InputSignal.name_injective : Function.Injective InputSignal.name := by
  intro i j h
  cases i <;> cases j <;> first | rfl | cases h

theorem InputSignal.name_ne_destroyed (i : InputSignal) : i.name ≠ .destroyed := by
  cases i <;> decide

/-- The signals that a registration connects to a device. -/
def DeviceKind.inputs : DeviceKind → List InputSignal
  | keyboard => [.keyDown, .keyUp]
  | pointer => [.pointerButtonDown, .pointerButtonUp, .pointerMotion, .pointerEnter, .pointerLeave]
  | touch => [.touchDown, .touchUp, .touchMotion]

theorem DeviceKind.mem_inputs {kind : DeviceKind} {i : InputSignal} :
    i ∈ kind.inputs ↔ i.kind = kind := by
  cases kind <;> cases i <;> decide

theorem DeviceKind.inputs_nodup (kind : DeviceKind) : kind.inputs.Nodup := by
  cases kind <;> decide

namespace Sparkle

variable {Client : Type}

/-! ## Wires -/

/-- The source, the signal and the context of a connection. -/
abbrev Wire := SparkleObject × SignalName × SparkleObject

/-- The connections there are, in the order in which they were made. -/
def Wires (s : Sparkle Client) (ws : List Wire) : Prop :=
  ∃ L, s.signals.Holds s.nextId L ∧ L.map (fun c => (c.source, c.name, c.context)) = ws

theorem wires_connect {s : Sparkle Client} {ws : List Wire} (h : s.Wires ws)
    (source context : SparkleObject) {name : SignalName} (hname : name ≠ .destroyed) :
    (s.connect source name context).Wires (ws ++ [(source, name, context)]) := by
  obtain ⟨L, hL, rfl⟩ := h
  exact ⟨_, hL.connect source context hname, by rw [List.map_append]; rfl⟩

theorem wires_destroy {s : Sparkle Client} {ws : List Wire} (h : s.Wires ws) (o : SparkleObject) :
    (s.destroy o).Wires (ws.filter fun w => w.1 ≠ o ∧ w.2.2 ≠ o) := by
  obtain ⟨L, hL, rfl⟩ := h
  exact ⟨_, hL.collapse o, by rw [List.filter_map]; rfl⟩

theorem contexts_eq {s : Sparkle Client} {ws : List Wire} (h : s.Wires ws) (o : SparkleObject)
    {name : SignalName} (hname : name ≠ .destroyed) :
    s.contexts o name = (ws.filter fun w => w.1 = o ∧ w.2.1 = name).map fun w => w.2.2 := by
  obtain ⟨L, hL, rfl⟩ := h
  rw [contexts, hL.contexts_eq o hname, List.filter_map, List.map_map]
  congr 1
  refine List.filter_congr fun c _ => ?_
  simp only [Connection.signal, Signal.mk.injEq, Function.comp_apply]

/-! ## What is added -/

/-- `s'` differs from `s` by the wires `new`, and by what has been called. -/
structure Grows (s s' : Sparkle Client) (new : List Wire) : Prop where
  resource : s'.resource = s.resource
  shellSurface : s'.shellSurface = s.shellSurface
  wires : ∀ {ws}, s.Wires ws → s'.Wires (ws ++ new)

theorem Grows.refl (s : Sparkle Client) : Grows s s [] :=
  ⟨rfl, rfl, fun h => by rwa [List.append_nil]⟩

theorem Grows.trans {s s' s'' : Sparkle Client} {new new' : List Wire} (h : Grows s s' new)
    (h' : Grows s' s'' new') : Grows s s'' (new ++ new') where
  resource := h'.resource.trans h.resource
  shellSurface := h'.shellSurface.trans h.shellSurface
  wires hws := by
    rw [← List.append_assoc]
    exact h'.wires (h.wires hws)

/-- What is called leaves the wires as they are. -/
theorem Grows.called {s s' : Sparkle Client} {new : List Wire} (h : Grows s s' new)
    (calls : List (SparkleObject × DeviceCall)) : Grows s { s' with calls := calls } new :=
  ⟨h.resource, h.shellSurface, h.wires⟩

theorem grows_connect (s : Sparkle Client) (source context : SparkleObject) {name : SignalName}
    (hname : name ≠ .destroyed) :
    Grows s (s.connect source name context) [(source, name, context)] :=
  ⟨rfl, rfl, fun h => wires_connect h source context hname⟩

/-- Signals connected one after the other. -/
theorem grows_connects {α : Type} (source context : SparkleObject) {name : α → SignalName}
    (hname : ∀ a, name a ≠ .destroyed) (as : List α) (s : Sparkle Client) :
    Grows s (as.foldl (fun s a => s.connect source (name a) context) s)
      (as.map fun a => (source, name a, context)) := by
  induction as generalizing s with
  | nil => exact Grows.refl s
  | cons a as ih => exact (grows_connect s source context (hname a)).trans (ih _)

/-- Slots that run one after the other, where each adds wires that depend only on the live
resources. -/
theorem grows_foldlM {α : Type} {f : Sparkle Client → α → Option (Sparkle Client)}
    {R : SparkleObject → Option Client} {new : α → List Wire} {as : List α}
    (hf : ∀ s, s.resource = R → ∀ a ∈ as, ∃ s', f s a = some s' ∧ Grows s s' (new a))
    {s : Sparkle Client} (hs : s.resource = R) :
    ∃ s', as.foldlM f s = some s' ∧ Grows s s' (as.flatMap new) := by
  induction as generalizing s with
  | nil => exact ⟨s, rfl, Grows.refl s⟩
  | cons a as ih =>
    obtain ⟨s', hs', hgrows⟩ := hf s hs a List.mem_cons_self
    obtain ⟨s'', hs'', hgrows'⟩ :=
      ih (fun s hs b hb => hf s hs b (List.mem_cons_of_mem a hb)) (hgrows.resource.trans hs)
    refine ⟨s'', ?_, hgrows.trans hgrows'⟩
    rw [List.foldlM_cons, hs']
    exact hs''

/-! ## Registrations -/

section Registration

variable [DecidableEq Client]

/-- The wires of a registration. -/
def registration (resource : SparkleObject → Option Client) :
    SparkleObject → SparkleObject → List Wire
  | .surface surface, .device kind n =>
    if resource (.device kind n) = resource (.surface surface) then
      kind.inputs.map fun i => (.surface surface, i.name, .device kind n)
    else []
  | _, _ => []

theorem grows_register {s : Sparkle Client} {surface : Nat} {device : SparkleObject}
    (hdevice : s.resource device ≠ none) (hsurface : s.resource (.surface surface) ≠ none)
    (inputs : List InputSignal) (enter : Bool) :
    ∃ s', s.register surface device inputs enter = some s' ∧
      Grows s s' (if s.resource device = s.resource (.surface surface) then
        inputs.map fun i => (.surface surface, i.name, device) else []) := by
  obtain ⟨client, hclient⟩ := Option.ne_none_iff_exists'.mp hdevice
  obtain ⟨client', hclient'⟩ := Option.ne_none_iff_exists'.mp hsurface
  have hgrows := grows_connects (.surface surface) device InputSignal.name_ne_destroyed inputs s
  simp only [register, hclient, hclient', Option.bind_eq_bind, Option.bind_some, Option.some.injEq]
  by_cases heq : client = client'
  · rw [if_neg (not_not_intro heq), if_pos heq]
    cases enter with
    | false => exact ⟨_, rfl, hgrows⟩
    | true => exact ⟨_, rfl, hgrows.called _⟩
  · rw [if_pos heq, if_neg heq]
    exact ⟨s, rfl, Grows.refl s⟩

/-- **Registration**: it does not throw, and connects what the device is for if the clients
are the same. -/
theorem grows_registerDevice {s : Sparkle Client} {surface n : Nat} {kind : DeviceKind}
    (hdevice : s.resource (.device kind n) ≠ none)
    (hsurface : s.resource (.surface surface) ≠ none) :
    ∃ s', s.registerDevice surface kind n = some s' ∧
      Grows s s' (registration s.resource (.surface surface) (.device kind n)) := by
  cases kind with
  | keyboard => exact grows_register hdevice hsurface _ _
  | pointer => exact grows_register hdevice hsurface _ _
  | touch => exact grows_register hdevice hsurface _ _

theorem mem_registration {resource : SparkleObject → Option Client} {a b : SparkleObject}
    {w : Wire} : w ∈ registration resource a b ↔
      ∃ surface kind n, a = .surface surface ∧ b = .device kind n ∧ resource b = resource a ∧
        ∃ i : InputSignal, i.kind = kind ∧ w = (a, i.name, b) := by
  constructor
  · intro h
    unfold registration at h
    split at h
    case h_1 surface kind n =>
      split at h
      case isTrue heq =>
        obtain ⟨i, hi, rfl⟩ := List.mem_map.mp h
        exact ⟨surface, kind, n, rfl, rfl, heq, i, DeviceKind.mem_inputs.mp hi, rfl⟩
      case isFalse => cases h
    case h_2 => cases h
  · -- conversely, every input signal for the device is among its `inputs`
    rintro ⟨surface, kind, n, rfl, rfl, heq, i, hi, rfl⟩
    rw [registration, if_pos heq]
    exact List.mem_map.mpr ⟨i, DeviceKind.mem_inputs.mpr hi, rfl⟩

theorem registration_nodup (resource : SparkleObject → Option Client) (a b : SparkleObject) :
    (registration resource a b).Nodup := by
  unfold registration
  split
  case h_1 surface kind n =>
    split
    case isTrue =>
      refine List.Nodup.map (fun i j h => ?_) kind.inputs_nodup
      exact InputSignal.name_injective (congrArg (fun w : Wire => w.2.1) h)
    case isFalse => exact List.nodup_nil
  case h_2 => exact List.nodup_nil

/-- One device is registered by many surfaces. -/
theorem registrations_device_nodup (resource : SparkleObject → Option Client)
    {os : List SparkleObject} (hos : os.Nodup) (device : SparkleObject) :
    (os.flatMap fun o => registration resource o device).Nodup := by
  refine Batches.nodup_flatMap (fun w => w.1) hos (fun o => registration_nodup _ _ _)
    fun o w hw => ?_
  obtain ⟨_, _, _, -, -, -, i, -, rfl⟩ := mem_registration.mp hw
  rfl

/-- One surface registers many devices. -/
theorem registrations_surface_nodup (resource : SparkleObject → Option Client)
    {os : List SparkleObject} (hos : os.Nodup) (surface : SparkleObject) :
    (os.flatMap fun o => registration resource surface o).Nodup := by
  refine Batches.nodup_flatMap (fun w => w.2.2) hos (fun o => registration_nodup _ _ _)
    fun o w hw => ?_
  obtain ⟨_, _, _, -, -, -, i, -, rfl⟩ := mem_registration.mp hw
  rfl

end Registration

/-! ## What is wanted -/

/-- The wires that the live objects ask for. -/
def Wanted (s : Sparkle Client) : Wire → Prop
  | (.seat n, name, .sparkle) =>
    s.resource (.seat n) ≠ none ∧ ∃ kind : DeviceKind, name = kind.created
  | (.shell n, name, .sparkle) => s.resource (.shell n) ≠ none ∧ name = shellSurfaceCreated
  | (.sparkle, name, .surface surface) =>
    (s.resource (.surface surface) ≠ none ∧ s.shellSurface surface = true) ∧
      ∃ kind : DeviceKind, name = kind.created
  | (.sparkle, name, .device kind n) =>
    s.resource (.device kind n) ≠ none ∧ name = surfaceCreated
  | (.surface surface, name, .device kind n) =>
    (s.resource (.surface surface) ≠ none ∧ s.shellSurface surface = true) ∧
      s.resource (.device kind n) = s.resource (.surface surface) ∧
        ∃ i : InputSignal, i.kind = kind ∧ name = i.name
  | _ => False

/-- What is live except for `sparkle`. -/
theorem Wanted.live {s : Sparkle Client} {w : Wire} (h : s.Wanted w) :
    (w.1 = .sparkle ∨ s.resource w.1 ≠ none) ∧ (w.2.2 = .sparkle ∨ s.resource w.2.2 ≠ none) := by
  unfold Wanted at h
  split at h
  · exact ⟨Or.inr h.1, Or.inl rfl⟩
  · exact ⟨Or.inr h.1, Or.inl rfl⟩
  · exact ⟨Or.inl rfl, Or.inr h.1.1⟩
  · exact ⟨Or.inl rfl, Or.inr h.1⟩
  · refine ⟨Or.inr h.1.1, Or.inr ?_⟩
    rw [h.2.1]
    exact h.1.1
  · exact h.elim

/-- Wires are wanted as before where nothing changed at their ends. -/
theorem wanted_congr {s s' : Sparkle Client} {w : Wire} (hsource : s'.resource w.1 = s.resource w.1)
    (hcontext : s'.resource w.2.2 = s.resource w.2.2)
    (hshell : ∀ surface, w.1 = .surface surface ∨ w.2.2 = .surface surface →
      s'.shellSurface surface = s.shellSurface surface) : s'.Wanted w ↔ s.Wanted w := by
  obtain ⟨a, name, b⟩ := w
  cases a <;> cases b <;> simp_all [Wanted]

/-! ## The ends of wires -/

section Ends

variable {s : Sparkle Client} {w : Wire} {n : Nat}

theorem wanted_seat_iff : s.Wanted w ∧ (w.1 = .seat n ∨ w.2.2 = .seat n) ↔
    s.resource (.seat n) ≠ none ∧ ∃ kind : DeviceKind, w = (.seat n, kind.created, .sparkle) := by
  obtain ⟨a, name, b⟩ := w
  constructor
  · rintro ⟨h, rfl | rfl⟩
    · cases b <;> simp_all [Wanted]
    · cases a <;> simp_all [Wanted]
  · rintro ⟨hlive, kind, h⟩
    cases h
    exact ⟨⟨hlive, kind, rfl⟩, Or.inl rfl⟩

theorem wanted_shell_iff : s.Wanted w ∧ (w.1 = .shell n ∨ w.2.2 = .shell n) ↔
    s.resource (.shell n) ≠ none ∧ w = (.shell n, shellSurfaceCreated, .sparkle) := by
  obtain ⟨a, name, b⟩ := w
  constructor
  · rintro ⟨h, rfl | rfl⟩
    · cases b <;> simp_all [Wanted]
    · cases a <;> simp_all [Wanted]
  · rintro ⟨hlive, h⟩
    cases h
    exact ⟨⟨hlive, rfl⟩, Or.inl rfl⟩

theorem wanted_surface_iff : s.Wanted w ∧ (w.1 = .surface n ∨ w.2.2 = .surface n) ↔
    (s.resource (.surface n) ≠ none ∧ s.shellSurface n = true) ∧
      ((∃ kind : DeviceKind, w = (.sparkle, kind.created, .surface n)) ∨
        ∃ kind m, s.resource (.device kind m) = s.resource (.surface n) ∧
          ∃ i : InputSignal, i.kind = kind ∧ w = (.surface n, i.name, .device kind m)) := by
  obtain ⟨a, name, b⟩ := w
  constructor
  · rintro ⟨h, rfl | rfl⟩
    · cases b with
      | device kind m =>
        obtain ⟨hlive, heq, i, hi, rfl⟩ := h
        exact ⟨hlive, Or.inr ⟨kind, m, heq, i, hi, rfl⟩⟩
      | sparkle | seat | shell | surface => exact h.elim
    · cases a with
      | sparkle =>
        obtain ⟨hlive, kind, rfl⟩ := h
        exact ⟨hlive, Or.inl ⟨kind, rfl⟩⟩
      | seat | shell | surface | device => exact h.elim
  · rintro ⟨hlive, ⟨kind, h⟩ | ⟨kind, m, heq, i, hi, h⟩⟩
    · cases h
      exact ⟨⟨hlive, kind, rfl⟩, Or.inr rfl⟩
    · cases h
      exact ⟨⟨hlive, heq, i, hi, rfl⟩, Or.inl rfl⟩

theorem wanted_device_iff {kind : DeviceKind} :
    s.Wanted w ∧ (w.1 = .device kind n ∨ w.2.2 = .device kind n) ↔
      s.resource (.device kind n) ≠ none ∧
        (w = (.sparkle, surfaceCreated, .device kind n) ∨
          ∃ surface, s.shellSurface surface = true ∧
            s.resource (.device kind n) = s.resource (.surface surface) ∧
              ∃ i : InputSignal, i.kind = kind ∧
                w = (.surface surface, i.name, .device kind n)) := by
  obtain ⟨a, name, b⟩ := w
  constructor
  · rintro ⟨h, rfl | rfl⟩
    · cases b <;> exact h.elim
    · cases a with
      | sparkle =>
        obtain ⟨hlive, rfl⟩ := h
        exact ⟨hlive, Or.inl rfl⟩
      | surface surface =>
        obtain ⟨⟨hlive, hshell⟩, heq, i, hi, rfl⟩ := h
        rw [← heq] at hlive
        exact ⟨hlive, Or.inr ⟨surface, hshell, heq, i, hi, rfl⟩⟩
      | seat | shell | device => exact h.elim
  · rintro ⟨hlive, h | ⟨surface, hshell, heq, i, hi, h⟩⟩
    · cases h
      exact ⟨⟨hlive, rfl⟩, Or.inr rfl⟩
    · cases h
      rw [heq] at hlive
      exact ⟨⟨⟨hlive, hshell⟩, heq, i, hi, rfl⟩, Or.inr rfl⟩

end Ends

/-! ## The invariant -/

/-- Every wire that is wanted is there once, and no others are. -/
structure Routed (s : Sparkle Client) (ws : List Wire) : Prop where
  sparkle : s.resource .sparkle = none
  wires : s.Wires ws
  nodup : ws.Nodup
  mem_iff : ∀ w, w ∈ ws ↔ s.Wanted w

theorem routed_started : Routed (started : Sparkle Client) [] where
  sparkle := rfl
  wires := ⟨[], Signals.holds_nil 0, rfl⟩
  nodup := List.nodup_nil
  mem_iff w := by
    refine ⟨fun h => absurd h List.not_mem_nil, fun h => ?_⟩
    obtain ⟨a, name, b⟩ := w
    cases a <;> cases b <;> simp [Wanted, started] at h

section Contexts

variable {s : Sparkle Client} {ws : List Wire}

theorem Routed.mem_contexts (h : Routed s ws) {o context : SparkleObject} {name : SignalName}
    (hname : name ≠ .destroyed) : context ∈ s.contexts o name ↔ s.Wanted (o, name, context) := by
  rw [contexts_eq h.wires o hname, ← h.mem_iff]
  constructor
  · intro hmem
    obtain ⟨w, hkept, rfl⟩ := List.mem_map.mp hmem
    obtain ⟨hw, hends⟩ := List.mem_filter.mp hkept
    obtain ⟨rfl, rfl⟩ := of_decide_eq_true hends
    exact hw
  · intro hw
    exact List.mem_map.mpr ⟨_, List.mem_filter.mpr ⟨hw, decide_eq_true ⟨rfl, rfl⟩⟩, rfl⟩

theorem Routed.nodup_contexts (h : Routed s ws) (o : SparkleObject) {name : SignalName}
    (hname : name ≠ .destroyed) : (s.contexts o name).Nodup := by
  rw [contexts_eq h.wires o hname]
  refine List.Nodup.map_on ?_ (h.nodup.filter _)
  intro w hw w' hw' hcontext
  obtain ⟨hsource, hname⟩ := of_decide_eq_true (List.mem_filter.mp hw).2
  obtain ⟨hsource', hname'⟩ := of_decide_eq_true (List.mem_filter.mp hw').2
  exact Prod.ext (hsource.trans hsource'.symm) (Prod.ext (hname.trans hname'.symm) hcontext)

end Contexts

/-! ## Requests -/

section Requests

variable {s s' : Sparkle Client} {ws new : List Wire}

/-- **One object at a time**: where no wire at an object was wanted before a step, the step has to
add those that are wanted after it. -/
theorem Routed.add (h : Routed s ws) {o : SparkleObject} (ho : o ≠ .sparkle)
    (hbefore : ∀ w, s.Wanted w → ¬ (w.1 = o ∨ w.2.2 = o))
    (hresource : ∀ p, p ≠ o → s'.resource p = s.resource p)
    (hshell : ∀ n, .surface n ≠ o → s'.shellSurface n = s.shellSurface n)
    (hwires : s'.Wires (ws ++ new)) (hnodup : new.Nodup)
    (hnew : ∀ w, w ∈ new ↔ s'.Wanted w ∧ (w.1 = o ∨ w.2.2 = o)) : Routed s' (ws ++ new) where
  sparkle := (hresource _ ho.symm).trans h.sparkle
  wires := hwires
  nodup := by
    refine List.nodup_append'.mpr ⟨h.nodup, hnodup, fun w hw hw' => ?_⟩
    -- an old wire is not at `o`, a new one is
    exact hbefore w ((h.mem_iff w).mp hw) ((hnew w).mp hw').2
  mem_iff w := by
    rw [List.mem_append, h.mem_iff, hnew]
    by_cases hends : w.1 = o ∨ w.2.2 = o
    · have hnot : ¬ s.Wanted w := fun hw => hbefore w hw hends
      simp only [hnot, hends, false_or, and_true]
    · obtain ⟨hsource, hcontext⟩ := not_or.mp hends
      have hsame : s'.Wanted w ↔ s.Wanted w := by
        refine wanted_congr (hresource _ hsource) (hresource _ hcontext) fun n hn => hshell n ?_
        rintro rfl
        exact hends hn
      simp only [hsame, hends, and_false, or_false]

/-- No wire is wanted at an object that is not live. -/
theorem not_wanted {o : SparkleObject} (ho : o ≠ .sparkle) (hnone : s.resource o = none) (w : Wire)
    (hw : s.Wanted w) : ¬ (w.1 = o ∨ w.2.2 = o) := by
  rintro (rfl | rfl)
  · exact hw.live.1.elim ho (absurd hnone)
  · exact hw.live.2.elim ho (absurd hnone)

theorem create_live (s : Sparkle Client) (o : SparkleObject) (client : Client) :
    (s.create o client).resource o ≠ none :=
  Option.ne_none_iff_exists'.mpr ⟨client, Function.update_self _ _ _⟩

theorem create_resource_of_ne (s : Sparkle Client) {o p : SparkleObject} (hp : p ≠ o)
    (client : Client) : (s.create o client).resource p = s.resource p :=
  Function.update_of_ne hp _ _

theorem mem_kinds (kind : DeviceKind) : kind ∈ [DeviceKind.keyboard, .pointer, .touch] := by
  cases kind <;> decide

theorem kinds_nodup : [DeviceKind.keyboard, .pointer, .touch].Nodup := by
  decide

/-- The wires that are connected for every kind of device. -/
theorem mem_kinds_map {source context : SparkleObject} {w : Wire} :
    (w ∈ [DeviceKind.keyboard, .pointer, .touch].map fun kind => (source, kind.created, context)) ↔
      ∃ kind : DeviceKind, w = (source, kind.created, context) := by
  rw [List.mem_map]
  constructor
  · rintro ⟨kind, -, rfl⟩
    exact ⟨kind, rfl⟩
  · rintro ⟨kind, rfl⟩
    exact ⟨kind, mem_kinds kind, rfl⟩

theorem kinds_map_nodup (source context : SparkleObject) :
    ([DeviceKind.keyboard, .pointer, .touch].map fun kind =>
      ((source, kind.created, context) : Wire)).Nodup := by
  refine List.Nodup.map (fun kind kind' h => ?_) kinds_nodup
  exact DeviceKind.created_injective (congrArg (fun w : Wire => w.2.1) h)

/-- **Seat** -/
theorem Routed.bindSeat (h : Routed s ws) {n : Nat} (hn : s.resource (.seat n) = none)
    (client : Client) : ∃ ws', Routed (s.bindSeat n client) ws' := by
  have hgrows := grows_connects (.seat n) .sparkle DeviceKind.created_ne_destroyed
    [.keyboard, .pointer, .touch] (s.create (.seat n) client)
  refine ⟨_, h.add (o := .seat n) nofun (not_wanted nofun hn) (fun p hp => ?_) (fun m _ => ?_)
    (hgrows.wires h.wires) (kinds_map_nodup _ _) fun w => ?_⟩
  · exact (congrFun hgrows.resource p).trans (create_resource_of_ne s hp client)
  · exact congrFun hgrows.shellSurface m
  · have hlive : (s.bindSeat n client).resource (.seat n) ≠ none := by
      rw [Sparkle.bindSeat, hgrows.resource]
      exact create_live s _ client
    rw [mem_kinds_map, wanted_seat_iff]
    exact (and_iff_right hlive).symm

/-- **Shell** -/
theorem Routed.bindShell (h : Routed s ws) {n : Nat} (hn : s.resource (.shell n) = none)
    (client : Client) : ∃ ws', Routed (s.bindShell n client) ws' := by
  have hgrows := grows_connect (s.create (.shell n) client) (.shell n) .sparkle
    shellSurfaceCreated_ne_destroyed
  refine ⟨_, h.add (o := .shell n) nofun (not_wanted nofun hn) (fun p hp => ?_) (fun m _ => ?_)
    (hgrows.wires h.wires) (List.nodup_singleton _) fun w => ?_⟩
  · exact (congrFun hgrows.resource p).trans (create_resource_of_ne s hp client)
  · exact congrFun hgrows.shellSurface m
  · have hlive : (s.bindShell n client).resource (.shell n) ≠ none := by
      rw [Sparkle.bindShell, hgrows.resource]
      exact create_live s _ client
    rw [List.mem_singleton, wanted_shell_iff]
    exact (and_iff_right hlive).symm

/-- **Surface**: nothing is connected yet. -/
theorem Routed.createSurface (h : Routed s ws) {n : Nat} (hn : s.resource (.surface n) = none)
    (client : Client) : ∃ ws', Routed (s.createSurface n client) ws' := by
  have hwires : (s.createSurface n client).Wires (ws ++ []) := by
    rw [List.append_nil]
    exact h.wires
  refine ⟨_, h.add (o := .surface n) nofun (not_wanted nofun hn) (fun p hp => ?_) (fun m hm => ?_)
    hwires List.nodup_nil fun w => ?_⟩
  · exact create_resource_of_ne s hp client
  · exact Function.update_of_ne (fun heq => hm (congrArg SparkleObject.surface heq)) _ _
  · have hshell : (s.createSurface n client).shellSurface n = false := Function.update_self _ _ _
    rw [wanted_surface_iff, hshell]
    simp

/-- What `sparkle` alone is connected to. -/
theorem Routed.contexts_eq_sparkle (h : Routed s ws) {o : SparkleObject} {name : SignalName}
    (hname : name ≠ .destroyed)
    (hwanted : ∀ context, s.Wanted (o, name, context) ↔ context = .sparkle) :
    s.contexts o name = [.sparkle] := by
  refine List.perm_singleton.mp ?_
  refine (List.perm_ext_iff_of_nodup (h.nodup_contexts o hname)
    (List.nodup_singleton _)).mpr fun context => ?_
  rw [h.mem_contexts hname, hwanted, List.mem_singleton]

theorem Routed.contexts_seat (h : Routed s ws) {n : Nat} (hn : s.resource (.seat n) ≠ none)
    (kind : DeviceKind) : s.contexts (.seat n) kind.created = [.sparkle] := by
  refine h.contexts_eq_sparkle kind.created_ne_destroyed fun context => ?_
  constructor
  · intro hw
    cases context with
    | sparkle => rfl
    | seat | shell | surface | device => exact hw.elim
  · rintro rfl
    exact ⟨hn, kind, rfl⟩

theorem Routed.contexts_shell (h : Routed s ws) {n : Nat} (hn : s.resource (.shell n) ≠ none) :
    s.contexts (.shell n) shellSurfaceCreated = [.sparkle] := by
  refine h.contexts_eq_sparkle shellSurfaceCreated_ne_destroyed fun context => ?_
  constructor
  · intro hw
    cases context with
    | sparkle => rfl
    | seat | shell | surface | device => exact hw.elim
  · rintro rfl
    exact ⟨hn, rfl⟩

/-- The shell surfaces are connected to the signals that tell of new devices. -/
theorem Routed.mem_contexts_created (h : Routed s ws) (kind : DeviceKind) {o : SparkleObject} :
    o ∈ s.contexts .sparkle kind.created ↔ ∃ surface, o = .surface surface ∧
      s.resource (.surface surface) ≠ none ∧ s.shellSurface surface = true := by
  rw [h.mem_contexts kind.created_ne_destroyed]
  constructor
  · intro hw
    cases o with
    | surface surface => exact ⟨surface, rfl, hw.1⟩
    | device kind' n => exact absurd hw.2 kind.created_ne_surfaceCreated
    | sparkle | seat | shell => exact hw.elim
  · rintro ⟨surface, rfl, hlive⟩
    exact ⟨hlive, kind, rfl⟩

/-- The devices are connected to the signal that tells of new shell surfaces. -/
theorem Routed.mem_contexts_surfaceCreated (h : Routed s ws) {o : SparkleObject} :
    o ∈ s.contexts .sparkle surfaceCreated ↔ ∃ kind n, o = .device kind n ∧
      s.resource (.device kind n) ≠ none := by
  rw [h.mem_contexts surfaceCreated_ne_destroyed]
  constructor
  · intro hw
    cases o with
    | device kind n => exact ⟨kind, n, rfl, hw.1⟩
    | surface surface =>
      obtain ⟨-, kind, hkind⟩ := hw
      exact absurd hkind.symm kind.created_ne_surfaceCreated
    | sparkle | seat | shell => exact hw.elim
  · rintro ⟨kind, n, rfl, hlive⟩
    exact ⟨hlive, rfl⟩

/-- Wires to other signals do not take part in an emission. -/
theorem Grows.contexts_eq (hgrows : Grows s s' new) (hwires : s.Wires ws) (o : SparkleObject)
    {name : SignalName} (hname : name ≠ .destroyed) (hnew : ∀ w ∈ new, w.2.1 ≠ name) :
    s'.contexts o name = s.contexts o name := by
  have hnone : new.filter (fun w => w.1 = o ∧ w.2.1 = name) = [] :=
    List.filter_eq_nil_iff.mpr fun w hw hkept => hnew w hw (of_decide_eq_true hkept).2
  rw [Sparkle.contexts_eq (hgrows.wires hwires) o hname, Sparkle.contexts_eq hwires o hname,
    List.filter_append, hnone, List.append_nil]

section Slots

variable [DecidableEq Client]

/-- The emission of a new device: every shell surface registers it. -/
theorem grows_emitDeviceCreated {kind : DeviceKind} {n : Nat}
    (hdevice : s.resource (.device kind n) ≠ none)
    (hsurfaces : ∀ o ∈ s.contexts .sparkle kind.created, ∃ surface, o = .surface surface ∧
      s.resource (.surface surface) ≠ none) :
    ∃ s', s.emitDeviceCreated kind n = some s' ∧ Grows s s'
      ((s.contexts .sparkle kind.created).flatMap fun o =>
        registration s.resource o (.device kind n)) := by
  refine grows_foldlM (R := s.resource) (fun t ht o ho => ?_) rfl
  obtain ⟨surface, rfl, hsurface⟩ := hsurfaces o ho
  rw [← ht] at hdevice hsurface ⊢
  exact grows_registerDevice hdevice hsurface

/-- The emission of a new shell surface: it registers every device. -/
theorem grows_emitSurfaceCreated {surface : Nat} (hsurface : s.resource (.surface surface) ≠ none)
    (hdevices : ∀ o ∈ s.contexts .sparkle surfaceCreated, ∃ kind n, o = .device kind n ∧
      s.resource (.device kind n) ≠ none) :
    ∃ s', s.emitSurfaceCreated surface = some s' ∧ Grows s s'
      ((s.contexts .sparkle surfaceCreated).flatMap fun o =>
        registration s.resource (.surface surface) o) := by
  refine grows_foldlM (R := s.resource) (fun t ht o ho => ?_) rfl
  obtain ⟨kind, n, rfl, hdevice⟩ := hdevices o ho
  rw [← ht] at hdevice hsurface ⊢
  exact grows_registerDevice hdevice hsurface

/-- **The slot for a new device**: `sparkle` is connected to it, and every shell surface
registers it. -/
theorem grows_newDevice {kind : DeviceKind} {n : Nat} (hwires : s.Wires ws)
    (hdevice : s.resource (.device kind n) ≠ none)
    (hsurfaces : ∀ o ∈ s.contexts .sparkle kind.created, ∃ surface, o = .surface surface ∧
      s.resource (.surface surface) ≠ none) :
    ∃ s', (s.connect .sparkle surfaceCreated (.device kind n)).emitDeviceCreated kind n = some s' ∧
      Grows s s' ((.sparkle, surfaceCreated, .device kind n) ::
        (s.contexts .sparkle kind.created).flatMap fun o =>
          registration s.resource o (.device kind n)) := by
  have hconnect := grows_connect s .sparkle (.device kind n) surfaceCreated_ne_destroyed
  have hcontexts := hconnect.contexts_eq hwires .sparkle kind.created_ne_destroyed fun w hw => by
    rw [List.mem_singleton.mp hw]
    exact kind.created_ne_surfaceCreated.symm
  rw [← hcontexts] at hsurfaces ⊢
  rw [← hconnect.resource] at hdevice hsurfaces
  obtain ⟨s', hs', hemit⟩ := grows_emitDeviceCreated hdevice hsurfaces
  exact ⟨s', hs', hconnect.trans hemit⟩

/-- **The slot for a new shell surface**: `sparkle` is connected to it for every kind of device,
and it registers every device. -/
theorem grows_newSurface (surface : Nat) (hwires : s.Wires ws)
    (hsurface : s.resource (.surface surface) ≠ none)
    (hdevices : ∀ o ∈ s.contexts .sparkle surfaceCreated, ∃ kind n, o = .device kind n ∧
      s.resource (.device kind n) ≠ none) :
    ∃ s', ([DeviceKind.keyboard, .pointer, .touch].foldl
        (fun s kind => s.connect .sparkle kind.created (.surface surface)) s).emitSurfaceCreated
          surface = some s' ∧
      Grows s s' ([DeviceKind.keyboard, .pointer, .touch].map
        (fun kind => (.sparkle, kind.created, .surface surface)) ++
        (s.contexts .sparkle surfaceCreated).flatMap fun o =>
          registration s.resource (.surface surface) o) := by
  have hconnect := grows_connects .sparkle (.surface surface) DeviceKind.created_ne_destroyed
    [.keyboard, .pointer, .touch] s
  have hcontexts := hconnect.contexts_eq hwires .sparkle surfaceCreated_ne_destroyed fun w hw => by
    obtain ⟨kind, rfl⟩ := mem_kinds_map.mp hw
    exact kind.created_ne_surfaceCreated
  rw [← hcontexts] at hdevices ⊢
  rw [← hconnect.resource] at hsurface hdevices ⊢
  obtain ⟨s', hs', hemit⟩ := grows_emitSurfaceCreated hsurface hdevices
  exact ⟨s', hs', hconnect.trans hemit⟩

/-- **Device**: it is wired to every shell surface of its client, and `sparkle` to it. -/
theorem Routed.getDevice (h : Routed s ws) {seat n : Nat} {kind : DeviceKind} {client : Client}
    (hseat : s.resource (.seat seat) = some client) (hn : s.resource (.device kind n) = none) :
    ∃ s' ws', s.getDevice seat kind n = some s' ∧ Routed s' ws' := by
  have hlive := create_live s (.device kind n) client
  have hsurface : ∀ m, (s.create (.device kind n) client).resource (.surface m) =
      s.resource (.surface m) := fun m => create_resource_of_ne s (by nofun) client
  have hsurfaces : ∀ o ∈ s.contexts .sparkle kind.created, ∃ surface, o = .surface surface ∧
      (s.create (.device kind n) client).resource (.surface surface) ≠ none := by
    intro o ho
    obtain ⟨surface, rfl, hlive, -⟩ := (h.mem_contexts_created kind).mp ho
    rw [← hsurface] at hlive
    exact ⟨surface, rfl, hlive⟩
  obtain ⟨s', hs', hgrows⟩ := grows_newDevice (s := s.create (.device kind n) client) h.wires hlive
    hsurfaces
  refine ⟨s', _, ?_, h.add (o := .device kind n) nofun (not_wanted nofun hn)
    (fun p hp => (congrFun hgrows.resource p).trans (create_resource_of_ne s hp client))
    (fun m _ => congrFun hgrows.shellSurface m) (hgrows.wires h.wires) ?_ fun w => ?_⟩
  · -- `sparkle` alone listens to the seat
    have hcontexts : (s.create (.device kind n) client).contexts (.seat seat) kind.created =
        [.sparkle] := h.contexts_seat (Option.ne_none_iff_exists'.mpr ⟨client, hseat⟩) kind
    simp only [Sparkle.getDevice, hseat, hcontexts, Option.bind_eq_bind, Option.bind_some,
      List.foldlM_cons, List.foldlM_nil, hs']
    rfl
  · -- the first wire comes from `sparkle`, those of the registrations from surfaces
    refine List.nodup_cons.mpr ⟨fun hmem => ?_,
      registrations_device_nodup _ (h.nodup_contexts _ kind.created_ne_destroyed) _⟩
    obtain ⟨o, -, hw⟩ := List.mem_flatMap.mp hmem
    obtain ⟨_, _, _, rfl, -, -, i, -, heq⟩ := mem_registration.mp hw
    cases heq
  · rw [wanted_device_iff, hgrows.resource, hgrows.shellSurface, List.mem_cons, List.mem_flatMap]
    refine (or_congr_right ?_).trans (and_iff_right hlive).symm
    -- a registration connects something just where the clients are the same
    constructor
    · rintro ⟨o, ho, hw⟩
      obtain ⟨surface, rfl, -, hshell⟩ := (h.mem_contexts_created kind).mp ho
      obtain ⟨_, _, _, -, heq, hclient, i, hi, rfl⟩ := mem_registration.mp hw
      cases heq
      exact ⟨surface, hshell, hclient, i, hi, rfl⟩
    · rintro ⟨surface, hshell, hclient, i, hi, rfl⟩
      refine ⟨.surface surface, (h.mem_contexts_created kind).mpr ⟨surface, rfl, ?_, hshell⟩,
        mem_registration.mpr ⟨surface, kind, n, rfl, rfl, hclient, i, hi, rfl⟩⟩
      rw [← hsurface, ← hclient]
      exact hlive

/-- **Shell surface**: it is wired to every device of its client, and `sparkle` to it. -/
theorem Routed.getShellSurface (h : Routed s ws) {shell surface : Nat}
    (hshell : s.resource (.shell shell) ≠ none) (hsurface : s.resource (.surface surface) ≠ none)
    (hnot : s.shellSurface surface = false) :
    ∃ s' ws', s.getShellSurface shell surface = some s' ∧ Routed s' ws' := by
  obtain ⟨s', hs', hgrows⟩ := grows_newSurface surface h.wires
    (s := { s with shellSurface := Function.update s.shellSurface surface true }) hsurface
    fun o ho => h.mem_contexts_surfaceCreated.mp ho
  refine ⟨s', _, ?_, h.add (o := .surface surface) nofun (fun w hw hends => ?_)
    (fun p _ => congrFun hgrows.resource p) (fun m hm => ?_) (hgrows.wires h.wires) ?_ fun w => ?_⟩
  · have hcontexts : ({ s with shellSurface := Function.update s.shellSurface surface true } :
        Sparkle Client).contexts (.shell shell) shellSurfaceCreated = [.sparkle] :=
      h.contexts_shell hshell
    simp only [Sparkle.getShellSurface, hcontexts, List.foldlM_cons, List.foldlM_nil, hs']
    rfl
  · -- a surface that is no shell surface yet has no wires
    obtain ⟨⟨-, htrue⟩, -⟩ := wanted_surface_iff.mp ⟨hw, hends⟩
    rw [hnot] at htrue
    cases htrue
  · rw [hgrows.shellSurface]
    exact Function.update_of_ne (fun heq => hm (congrArg SparkleObject.surface heq)) _ _
  · refine List.nodup_append'.mpr ⟨kinds_map_nodup _ _,
      registrations_surface_nodup _ (h.nodup_contexts _ surfaceCreated_ne_destroyed) _,
      fun w hw hmem => ?_⟩
    obtain ⟨kind, rfl⟩ := mem_kinds_map.mp hw
    obtain ⟨o, -, hw⟩ := List.mem_flatMap.mp hmem
    obtain ⟨_, _, _, -, -, -, i, -, heq⟩ := mem_registration.mp hw
    cases heq
  · have hlive : s'.resource (.surface surface) ≠ none ∧ s'.shellSurface surface = true := by
      rw [hgrows.resource, hgrows.shellSurface]
      exact ⟨hsurface, Function.update_self _ _ _⟩
    rw [wanted_surface_iff, List.mem_append, List.mem_flatMap, mem_kinds_map]
    refine (or_congr_right ?_).trans (and_iff_right hlive).symm
    rw [hgrows.resource]
    constructor
    · rintro ⟨o, ho, hw⟩
      obtain ⟨kind, n, rfl, -⟩ := h.mem_contexts_surfaceCreated.mp ho
      obtain ⟨_, _, _, -, heq, hclient, i, hi, rfl⟩ := mem_registration.mp hw
      cases heq
      exact ⟨kind, n, hclient, i, hi, rfl⟩
    · rintro ⟨kind, n, hclient, i, hi, rfl⟩
      refine ⟨.device kind n, h.mem_contexts_surfaceCreated.mpr ⟨kind, n, rfl, ?_⟩,
        mem_registration.mpr ⟨surface, kind, n, rfl, rfl, hclient, i, hi, rfl⟩⟩
      rw [hclient]
      exact hsurface

end Slots

/-- **Destroy**: the wires at the object are gone, and no others. -/
theorem Routed.destroy (h : Routed s ws) {o : SparkleObject} (ho : s.resource o ≠ none) :
    ∃ ws', Routed (s.destroy o) ws' := by
  have hne : o ≠ .sparkle := by
    rintro rfl
    exact ho h.sparkle
  have hnone : (s.destroy o).resource o = none := Function.update_self _ _ _
  have hkeep : ∀ p, p ≠ o → (s.destroy o).resource p = s.resource p := fun p hp =>
    Function.update_of_ne hp _ _
  refine ⟨_, (hkeep _ hne.symm).trans h.sparkle, wires_destroy h.wires o, h.nodup.filter _,
    fun w => ?_⟩
  rw [List.mem_filter, h.mem_iff, decide_eq_true_iff]
  by_cases hends : w.1 = o ∨ w.2.2 = o
  · have hgone : ¬ (s.destroy o).Wanted w := fun hw => not_wanted hne hnone w hw hends
    simp only [hgone, ← not_or, hends, not_true_eq_false, and_false]
  · obtain ⟨hsource, hcontext⟩ := not_or.mp hends
    rw [wanted_congr (hkeep _ hsource) (hkeep _ hcontext) fun _ _ => rfl]
    exact and_iff_left ⟨hsource, hcontext⟩

end Requests

/-! ## Runs -/

section Runs

variable [DecidableEq Client]

/-- **Step**: nothing that clients may do throws, and the invariant is kept. -/
theorem Routed.handle {s : Sparkle Client} {ws : List Wire} (h : Routed s ws) {a : Label Client}
    (ha : s.Possible a) : ∃ t ws', s.handle a = some t ∧ Routed t ws' := by
  cases a with
  | bindSeat n client =>
    obtain ⟨ws', h'⟩ := h.bindSeat ha client
    exact ⟨_, ws', rfl, h'⟩
  | bindShell n client =>
    obtain ⟨ws', h'⟩ := h.bindShell ha client
    exact ⟨_, ws', rfl, h'⟩
  | createSurface n client =>
    obtain ⟨ws', h'⟩ := h.createSurface ha client
    exact ⟨_, ws', rfl, h'⟩
  | getDevice seat kind n =>
    obtain ⟨⟨client, hseat⟩, hn⟩ := ha
    exact h.getDevice hseat hn
  | getShellSurface shell surface =>
    obtain ⟨⟨client, hshell, hsurface⟩, hnot⟩ := ha
    exact h.getShellSurface (Option.ne_none_iff_exists'.mpr ⟨client, hshell⟩)
      (Option.ne_none_iff_exists'.mpr ⟨client, hsurface⟩) hnot
  | destroy o =>
    obtain ⟨client, ho⟩ := ha
    obtain ⟨ws', h'⟩ := h.destroy (o := o) (Option.ne_none_iff_exists'.mpr ⟨client, ho⟩)
    exact ⟨_, ws', rfl, h'⟩
  | input surface input =>
    exact ⟨_, ws, rfl, h.sparkle, h.wires, h.nodup, fun w =>
      (h.mem_iff w).trans (wanted_congr rfl rfl fun _ _ => rfl)⟩

theorem routed {as : List (Label Client)} {s : Sparkle Client} (h : machine.Reaches as s) :
    ∃ ws, Routed s ws := by
  refine Machine.invariant (I := fun s => ∃ ws, Routed s ws) ?_ ?_ h
  · rintro s rfl
    exact ⟨[], routed_started⟩
  · rintro s a t ⟨ws, hs⟩ ⟨ha, hst⟩
    obtain ⟨t', ws', ht', h'⟩ := hs.handle ha
    rw [hst] at ht'
    cases ht'
    exact ⟨ws', h'⟩

omit [DecidableEq Client] in
/-- The slots of an input signal are those of the devices of the client that it is for. -/
theorem Routed.mem_contexts_input {s : Sparkle Client} {ws : List Wire} (h : Routed s ws)
    {surface : Nat} {client : Client} (hsurface : s.resource (.surface surface) = some client)
    (hshell : s.shellSurface surface = true) (i : InputSignal) {o : SparkleObject} :
    o ∈ s.contexts (.surface surface) i.name ↔
      ∃ n, o = .device i.kind n ∧ s.resource o = some client := by
  rw [h.mem_contexts i.name_ne_destroyed]
  constructor
  · intro hw
    cases o with
    | device kind n =>
      obtain ⟨-, heq, j, rfl, hj⟩ := hw
      cases InputSignal.name_injective hj
      exact ⟨n, rfl, heq.trans hsurface⟩
    | sparkle | seat | shell | surface => exact hw.elim
  · rintro ⟨n, rfl, hn⟩
    exact ⟨⟨Option.ne_none_iff_exists'.mpr ⟨client, hsurface⟩, hshell⟩, hn.trans hsurface.symm, i,
      rfl, rfl⟩

/-- **Routing**: in every run nothing that clients may do throws, and an emission on a live shell
surface comes exactly once to each live device that it is for of the client of the surface, and
to nothing else. -/
theorem forwarded_once {as : List (Label Client)} {s : Sparkle Client}
    (h : machine.Reaches as s) :
    (∀ a, s.Possible a → ∃ t, machine.step s a t) ∧
      ∀ {surface : Nat} {client : Client} {input : Input} {t : Sparkle Client},
        s.resource (.surface surface) = some client → s.shellSurface surface = true →
        machine.step s (.input surface input) t →
          ∃ made, t.calls = s.calls ++ made ∧
            (∀ n, s.resource (.device input.signal.kind n) = some client →
              made.filter (fun m => m.1 = .device input.signal.kind n) =
                [(.device input.signal.kind n, input.call surface)]) ∧
            ∀ m ∈ made, ∃ n, m.1 = .device input.signal.kind n ∧ s.resource m.1 = some client := by
  obtain ⟨ws, hs⟩ := routed h
  constructor
  · intro a ha
    obtain ⟨t, ws', ht, -⟩ := hs.handle ha
    exact ⟨t, ha, ht⟩
  · rintro surface client input t hsurface hshell ⟨-, hst⟩
    cases hst
    have hmem {o : SparkleObject} := hs.mem_contexts_input hsurface hshell input.signal (o := o)
    refine ⟨s.forward surface input, rfl, fun n hn => ?_, fun m hm => ?_⟩
    · -- the device listens by one slot
      have honce : (s.contexts (.surface surface) input.signal.name).count
          (.device input.signal.kind n) = 1 :=
        List.count_eq_one_of_mem (hs.nodup_contexts _ input.signal.name_ne_destroyed)
          (hmem.mpr ⟨n, rfl, hn⟩)
      rw [forward, List.filter_map]
      show ((s.contexts (.surface surface) input.signal.name).filter
        (fun o => o = .device input.signal.kind n)).map _ = _
      rw [List.filter_eq, honce]
      rfl
    · obtain ⟨o, ho, rfl⟩ := List.mem_map.mp hm
      exact hmem.mp ho

end Runs

/-- A client whose keyboards come before and after its shell surface, one of them released, and
another client. -/
def twoClients : List (Label Bool) :=
  [.bindSeat 0 true, .bindSeat 1 false, .bindShell 0 true, .createSurface 0 true,
    .getDevice 0 .keyboard 0, .getDevice 1 .keyboard 1, .getDevice 0 .keyboard 2,
    .getShellSurface 0 0, .getDevice 0 .keyboard 3, .destroy (.device .keyboard 2)]

theorem twoClients_forwarded : ∃ s t made, machine.Reaches twoClients s ∧
    machine.step s (.input 0 (.keyDown 38)) t ∧ t.calls = s.calls ++ made ∧
    made.filter (fun m => m.1 = .device .keyboard 0) = [(.device .keyboard 0, .keyPress 38)] ∧
    made.filter (fun m => m.1 = .device .keyboard 3) = [(.device .keyboard 3, .keyPress 38)] := by
  have hsome : (run twoClients).isSome = true := by decide +kernel
  obtain ⟨s, hs⟩ := Option.isSome_iff_exists.mp hsome
  have hlive : ∀ o ∈ [SparkleObject.surface 0, .device .keyboard 0, .device .keyboard 3],
      (run twoClients).bind (fun s => s.resource o) = some true := by decide +kernel
  have hshell : (run twoClients).map (fun s => s.shellSurface 0) = some true := by decide +kernel
  rw [hs] at hlive hshell
  obtain ⟨hsurface, hfirst, hlast⟩ : s.resource (.surface 0) = some true ∧
      s.resource (.device .keyboard 0) = some true ∧
      s.resource (.device .keyboard 3) = some true := by simpa using hlive
  have hboth := forwarded_once (reaches_of_run hs)
  obtain ⟨t, hst⟩ := hboth.1 (.input 0 (.keyDown 38)) ⟨⟨true, hsurface⟩, by simpa using hshell⟩
  obtain ⟨made, hmade, honce, -⟩ := hboth.2 hsurface (by simpa using hshell) hst
  exact ⟨s, t, made, reaches_of_run hs, hst, hmade, honce 0 hfirst, honce 3 hlast⟩

end Sparkle

end SparkleWayland

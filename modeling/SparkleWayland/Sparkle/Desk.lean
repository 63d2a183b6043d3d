import SparkleWayland.Sparkle.Routing

/-!
# Devices and surfaces without signals (`sparkle_common/sparkle.cpp`)

A `Desk` is what the signals of `sparkle`, its seats, its shells and its surfaces are there for:
it knows the shell surfaces and the devices in the order in which they were made, and whoever is
new meets all those of its client that are already there. `desk_refined` says that the
connections come to that: in every run the calls on devices are those of the desk, in the same
order, the calls on different devices among them.
-/

namespace SparkleWayland

/-- The object of a device. -/
def deviceObject (x : DeviceKind × Nat) : SparkleObject := .device x.1 x.2

/-- What a registration calls: a touch device is not told of the surface. -/
def greeting (surface : Nat) : DeviceKind × Nat → List (SparkleObject × DeviceCall)
  | (.touch, _) => []
  | (.keyboard, n) => [(.device .keyboard n, .enter surface)]
  | (.pointer, n) => [(.device .pointer n, .enter surface)]

/-- The shell surfaces and the devices that are live, the oldest first. -/
structure Desk (Client : Type) where
  resource : SparkleObject → Option Client
  shellSurfaces : List Nat
  devices : List (DeviceKind × Nat)
  calls : List (SparkleObject × DeviceCall)

namespace Desk

variable {Client : Type} [DecidableEq Client]

def empty : Desk Client := ⟨fun _ => none, [], [], []⟩

/-- Those devices of a kind that are of the client of a surface. -/
def listeners (resource : SparkleObject → Option Client) (devices : List (DeviceKind × Nat))
    (surface : Nat) (kind : DeviceKind) : List (DeviceKind × Nat) :=
  devices.filter fun x => x.1 = kind ∧ resource (deviceObject x) = resource (.surface surface)

/-- A device and a surface, where they are of one client. -/
def meeting (resource : SparkleObject → Option Client) (surface : Nat) (x : DeviceKind × Nat) :
    List (SparkleObject × DeviceCall) :=
  if resource (deviceObject x) = resource (.surface surface) then greeting surface x else []

def handle (d : Desk Client) : Sparkle.Label Client → Desk Client
  | .bindSeat n client =>
    { d with resource := Function.update d.resource (.seat n) (some client) }
  | .bindShell n client =>
    { d with resource := Function.update d.resource (.shell n) (some client) }
  | .createSurface n client =>
    { d with resource := Function.update d.resource (.surface n) (some client) }
  | .getDevice seat kind n =>
    let resource := Function.update d.resource (.device kind n) (d.resource (.seat seat))
    { d with
      resource := resource
      devices := d.devices ++ [(kind, n)]
      calls := d.calls ++
        d.shellSurfaces.flatMap fun surface => meeting resource surface (kind, n) }
  | .getShellSurface _ surface =>
    { d with
      shellSurfaces := d.shellSurfaces ++ [surface]
      calls := d.calls ++ d.devices.flatMap (meeting d.resource surface) }
  | .destroy o =>
    { d with
      resource := Function.update d.resource o none
      shellSurfaces := d.shellSurfaces.filter fun n => .surface n ≠ o
      devices := d.devices.filter fun x => deviceObject x ≠ o }
  | .input surface input =>
    { d with calls := d.calls ++
        (listeners d.resource d.devices surface input.signal.kind).map fun x =>
          (deviceObject x, input.call surface) }

theorem listeners_congr {resource resource' : SparkleObject → Option Client}
    {devices : List (DeviceKind × Nat)} {surface : Nat}
    (hdevices : ∀ x ∈ devices, resource' (deviceObject x) = resource (deviceObject x))
    (hsurface : resource' (.surface surface) = resource (.surface surface)) (kind : DeviceKind) :
    listeners resource' devices surface kind = listeners resource devices surface kind :=
  List.filter_congr fun x hx => by rw [hdevices x hx, hsurface]

theorem listeners_concat (resource : SparkleObject → Option Client)
    (devices : List (DeviceKind × Nat)) (x : DeviceKind × Nat) (surface : Nat) (kind : DeviceKind) :
    listeners resource (devices ++ [x]) surface kind = listeners resource devices surface kind ++
      if x.1 = kind ∧ resource (deviceObject x) = resource (.surface surface) then [x] else [] := by
  rw [listeners, List.filter_append]
  congr 1
  by_cases hx : x.1 = kind ∧ resource (deviceObject x) = resource (.surface surface)
  · rw [if_pos hx, List.filter_cons_of_pos (by simpa using hx), List.filter_nil]
  · rw [if_neg hx, List.filter_cons_of_neg (by simpa using hx), List.filter_nil]

end Desk

namespace Sparkle

variable {Client : Type}

/-! ## Contexts -/

section Contexts

variable {s s' : Sparkle Client} {ws new : List Wire}

/-- New wires come last. -/
theorem Grows.contexts_append (hgrows : Grows s s' new) (hwires : s.Wires ws) (o : SparkleObject)
    {name : SignalName} (hname : name ≠ .destroyed) :
    s'.contexts o name = s.contexts o name ++
      (new.filter fun w => w.1 = o ∧ w.2.1 = name).map fun w => w.2.2 := by
  rw [Sparkle.contexts_eq (hgrows.wires hwires) o hname, Sparkle.contexts_eq hwires o hname,
    List.filter_append, List.map_append]

/-- What is destroyed neither emits nor listens. -/
theorem destroy_contexts (hwires : s.Wires ws) {o p : SparkleObject} (hne : o ≠ p)
    {name : SignalName} (hname : name ≠ .destroyed) :
    (s.destroy p).contexts o name = (s.contexts o name).filter fun c => c ≠ p := by
  rw [Sparkle.contexts_eq (wires_destroy hwires p) o hname, Sparkle.contexts_eq hwires o hname,
    List.filter_map, List.filter_filter, List.filter_filter]
  congr 1
  refine List.filter_congr fun w _ => ?_
  simp only [Function.comp_apply, ne_eq, decide_not, Bool.decide_and]
  by_cases hw : w.1 = o
  · subst hw
    simp [hne, Bool.and_comm]
  · simp [hw]

end Contexts

/-! ## Calls -/

section Calls

variable [DecidableEq Client] {s s' : Sparkle Client}

omit [DecidableEq Client] in
theorem connects_calls_eq {α : Type} (source context : SparkleObject) (name : α → SignalName)
    (as : List α) (s : Sparkle Client) :
    (as.foldl (fun s a => s.connect source (name a) context) s).calls = s.calls := by
  induction as generalizing s with
  | nil => rfl
  | cons a as ih => exact ih _

/-- A registration calls what a meeting does. -/
theorem registerDevice_calls {surface n : Nat} {kind : DeviceKind}
    (h : s.registerDevice surface kind n = some s') : s'.resource = s.resource ∧
      s'.calls = s.calls ++ Desk.meeting s.resource surface (kind, n) := by
  have hregister : ∀ {inputs enter}, s.register surface (.device kind n) inputs enter = some s' →
      s'.resource = s.resource ∧ s'.calls = s.calls ++
        if s.resource (.device kind n) = s.resource (.surface surface) then
          if enter then [(.device kind n, .enter surface)] else [] else [] := by
    intro inputs enter h
    obtain ⟨client, hclient, h⟩ := Option.bind_eq_some_iff.mp h
    obtain ⟨client', hclient', h⟩ := Option.bind_eq_some_iff.mp h
    have hresource := (grows_connects (.surface surface) (.device kind n)
      InputSignal.name_ne_destroyed inputs s).resource
    rw [hclient, hclient']
    by_cases heq : client = client'
    · rw [if_neg (not_not_intro heq)] at h
      rw [if_pos (congrArg some heq)]
      cases enter <;>
      · cases h
        exact ⟨hresource, by simp [connects_calls_eq]⟩
    · rw [if_pos heq] at h
      cases h
      exact ⟨rfl, by simp [heq]⟩
  cases kind <;> exact hregister h

omit [DecidableEq Client] in
/-- Slots that run one after the other. -/
theorem foldlM_calls {α : Type} {f : Sparkle Client → α → Option (Sparkle Client)}
    {R : SparkleObject → Option Client} {g : α → List (SparkleObject × DeviceCall)} {as : List α}
    (hf : ∀ s s', s.resource = R → ∀ a ∈ as, f s a = some s' →
      s'.resource = R ∧ s'.calls = s.calls ++ g a)
    (hs : s.resource = R) (h : as.foldlM f s = some s') :
    s'.calls = s.calls ++ as.flatMap g := by
  induction as generalizing s with
  | nil =>
    cases h
    simp
  | cons a as ih =>
    rw [List.foldlM_cons] at h
    obtain ⟨s₁, hfirst, hrest⟩ := Option.bind_eq_some_iff.mp h
    obtain ⟨hresource, hcalls⟩ := hf s s₁ hs a List.mem_cons_self hfirst
    rw [ih (fun s s' hs b hb => hf s s' hs b (List.mem_cons_of_mem a hb)) hresource hrest, hcalls,
      List.flatMap_cons, List.append_assoc]

end Calls

/-! ## The desk of a server -/

theorem inputs_filter (kind : DeviceKind) (i : InputSignal) :
    (kind.inputs.filter fun j => j.name = i.name) = if i.kind = kind then [i] else [] := by
  cases kind <;> cases i <;> decide

section Mirrors

variable [DecidableEq Client] {s s' : Sparkle Client} {ws ws' : List Wire} {d : Desk Client}

/-- What a registration makes listen to a signal. -/
theorem registration_filter (resource : SparkleObject → Option Client) (surface : Nat)
    (x : DeviceKind × Nat) (i : InputSignal) :
    ((registration resource (.surface surface) (deviceObject x)).filter
      (fun w => w.1 = .surface surface ∧ w.2.1 = i.name)).map (fun w => w.2.2) =
      if x.1 = i.kind ∧ resource (deviceObject x) = resource (.surface surface) then
        [deviceObject x] else [] := by
  obtain ⟨kind, n⟩ := x
  show ((if resource (.device kind n) = _ then _ else []).filter _).map _ = _
  by_cases hclient : resource (.device kind n) = resource (.surface surface)
  · have hfilter : (fun w : Wire => decide (w.1 = .surface surface ∧ w.2.1 = i.name)) ∘
        (fun j : InputSignal => (SparkleObject.surface surface, j.name, .device kind n)) =
        fun j => decide (j.name = i.name) := by
      funext j
      simp
    rw [if_pos hclient, List.filter_map, hfilter, inputs_filter]
    by_cases hkind : i.kind = kind
    · simp [hkind, deviceObject, hclient]
    · simp [hkind, deviceObject, Ne.symm hkind]
  · simp [hclient, deviceObject]

/-- The wires of a registration come from the surface. -/
theorem source_of_registration {resource : SparkleObject → Option Client} {a b : SparkleObject}
    {w : Wire} (h : w ∈ registration resource a b) : w.1 = a := by
  obtain ⟨_, _, _, -, -, -, _, -, rfl⟩ := mem_registration.mp h
  rfl

/-- Registrations connect nothing to what is no surface. -/
theorem registrations_filter_sparkle {α : Type} {f : α → List Wire} {l : List α}
    (hf : ∀ a ∈ l, ∀ w ∈ f a, w.1 ≠ .sparkle) (name : SignalName) :
    (l.flatMap f).filter (fun w => w.1 = .sparkle ∧ w.2.1 = name) = [] := by
  refine List.filter_eq_nil_iff.mpr fun w hw hkept => ?_
  obtain ⟨a, ha, hw⟩ := List.mem_flatMap.mp hw
  exact hf a ha w hw (of_decide_eq_true hkept).1

theorem surface_injective : Function.Injective SparkleObject.surface := by
  rintro m n ⟨⟩
  rfl

/-- The desk knows what is connected, in the order in which it was. -/
structure Mirrors (s : Sparkle Client) (ws : List Wire) (d : Desk Client) : Prop where
  routed : Routed s ws
  resource : d.resource = s.resource
  created : ∀ kind : DeviceKind, s.contexts .sparkle kind.created = d.shellSurfaces.map .surface
  surfaceCreated : s.contexts .sparkle surfaceCreated = d.devices.map deviceObject
  inputs : ∀ surface ∈ d.shellSurfaces, ∀ i : InputSignal,
    s.contexts (.surface surface) i.name =
      (Desk.listeners d.resource d.devices surface i.kind).map deviceObject
  calls : s.calls = d.calls

theorem Mirrors.mem_shellSurfaces (h : Mirrors s ws d) {surface : Nat} :
    surface ∈ d.shellSurfaces ↔
      s.resource (.surface surface) ≠ none ∧ s.shellSurface surface = true := by
  have hmem := h.routed.mem_contexts_created .keyboard (o := .surface surface)
  rw [h.created] at hmem
  constructor
  · intro hsurface
    obtain ⟨surface', heq, hlive⟩ := hmem.mp (List.mem_map_of_mem hsurface)
    cases heq
    exact hlive
  · intro hlive
    obtain ⟨surface', hsurface, heq⟩ := List.mem_map.mp (hmem.mpr ⟨surface, rfl, hlive⟩)
    cases heq
    exact hsurface

theorem Mirrors.live_of_mem_devices (h : Mirrors s ws d) {x : DeviceKind × Nat}
    (hx : x ∈ d.devices) : s.resource (deviceObject x) ≠ none := by
  have hmem : deviceObject x ∈ s.contexts .sparkle SparkleWayland.surfaceCreated := by
    rw [h.surfaceCreated]
    exact List.mem_map_of_mem hx
  obtain ⟨kind, n, heq, hlive⟩ := h.routed.mem_contexts_surfaceCreated.mp hmem
  rw [heq]
  exact hlive

theorem Mirrors.nodup_shellSurfaces (h : Mirrors s ws d) : d.shellSurfaces.Nodup := by
  have hnodup := h.routed.nodup_contexts .sparkle (DeviceKind.created_ne_destroyed .keyboard)
  rw [h.created] at hnodup
  exact List.Nodup.of_map _ hnodup

/-! ## Steps -/

/-- A new object that is neither a device nor a shell surface, and what is connected to it. -/
theorem Mirrors.create (h : Mirrors s ws d) (hs' : Routed s' ws') {o : SparkleObject}
    {client : Client} {new : List Wire}
    (hresource : s'.resource = Function.update s.resource o (some client))
    (hwires : s'.Wires (ws ++ new)) (hnew : ∀ w ∈ new, w.1 = o) (hsparkle : o ≠ .sparkle)
    (hdevice : ∀ x ∈ d.devices, deviceObject x ≠ o) (hshell : ∀ n ∈ d.shellSurfaces, .surface n ≠ o)
    (hcalls : s'.calls = s.calls) :
    Mirrors s' ws' { d with resource := Function.update d.resource o (some client) } := by
  have hsame : ∀ {p name}, p ≠ o → name ≠ .destroyed → s'.contexts p name = s.contexts p name := by
    intro p name hp hname
    have hnone : new.filter (fun w => w.1 = p ∧ w.2.1 = name) = [] :=
      List.filter_eq_nil_iff.mpr fun w hw hkept => hp ((of_decide_eq_true hkept).1 ▸ hnew w hw)
    rw [contexts_eq hwires p hname, contexts_eq h.routed.wires p hname, List.filter_append, hnone,
      List.append_nil]
  refine ⟨hs', ?_, fun kind => ?_, ?_, fun surface hsurface i => ?_, hcalls.trans h.calls⟩
  · rw [hresource, h.resource]
  · rw [hsame hsparkle.symm kind.created_ne_destroyed, h.created]
  · rw [hsame hsparkle.symm surfaceCreated_ne_destroyed, h.surfaceCreated]
  · rw [hsame (hshell surface hsurface) i.name_ne_destroyed, h.inputs surface hsurface]
    congr 1
    exact (Desk.listeners_congr (fun x hx => Function.update_of_ne (hdevice x hx) _ _)
      (Function.update_of_ne (hshell surface hsurface) _ _) i.kind).symm

/-- What a new device is connected to. -/
abbrev newDevice (resource : SparkleObject → Option Client) (surfaces : List Nat)
    (x : DeviceKind × Nat) : List Wire :=
  (.sparkle, surfaceCreated, deviceObject x) ::
    (surfaces.map SparkleObject.surface).flatMap fun o => registration resource o (deviceObject x)

section NewDevice

variable {surfaces : List Nat} {kind : DeviceKind} {n : Nat}

/-- It listens to `sparkle` for shell surfaces, and is no such one. -/
theorem Grows.newDevice_sparkle (hwires : s.Wires ws)
    (hgrows : Grows s s' (newDevice s.resource surfaces (kind, n))) :
    (∀ kind' : DeviceKind, s'.contexts .sparkle kind'.created =
      s.contexts .sparkle kind'.created) ∧
    s'.contexts .sparkle surfaceCreated =
      s.contexts .sparkle surfaceCreated ++ [.device kind n] := by
  have hnosparkle := registrations_filter_sparkle
    (f := fun o => registration s.resource o (deviceObject (kind, n)))
    (l := surfaces.map .surface) fun o ho w hw => by
      obtain ⟨surface, -, rfl⟩ := List.mem_map.mp ho
      rw [source_of_registration hw]
      rintro ⟨⟩
  constructor
  · intro kind'
    rw [hgrows.contexts_append hwires .sparkle kind'.created_ne_destroyed,
      List.filter_cons_of_neg, hnosparkle, List.map_nil, List.append_nil]
    simpa using kind'.created_ne_surfaceCreated.symm
  · rw [hgrows.contexts_append hwires .sparkle surfaceCreated_ne_destroyed,
      List.filter_cons_of_pos, hnosparkle]
    · rfl
    · simp

/-- It listens to the surfaces of its client, behind those that do so already. -/
theorem Grows.newDevice_inputs (hwires : s.Wires ws) (hsurfaces : surfaces.Nodup)
    (hgrows : Grows s s' (newDevice s.resource surfaces (kind, n))) {surface : Nat}
    (hsurface : surface ∈ surfaces) (i : InputSignal) :
    s'.contexts (.surface surface) i.name = s.contexts (.surface surface) i.name ++
      if kind = i.kind ∧ s.resource (.device kind n) = s.resource (.surface surface) then
        [.device kind n] else [] := by
  rw [hgrows.contexts_append hwires _ i.name_ne_destroyed, List.filter_cons_of_neg (by simp),
    Batches.filter_flatMap_of_mem (hsurfaces.map surface_injective)
      (List.mem_map_of_mem hsurface) fun o _ w hw hkept => ?_]
  · exact congrArg (_ ++ ·) (registration_filter s.resource surface (kind, n) i)
  · rw [← source_of_registration hw]
    exact (of_decide_eq_true hkept).1

/-- Each surface meets it, the first one first. -/
theorem newDevice_calls (hwires : s.Wires ws)
    (hcreated : s.contexts .sparkle kind.created = surfaces.map .surface)
    (hemit : (s.connect .sparkle surfaceCreated (.device kind n)).emitDeviceCreated kind n =
      some s') :
    s'.calls = s.calls ++
      surfaces.flatMap fun surface => Desk.meeting s.resource surface (kind, n) := by
  have hcontexts : (s.connect .sparkle surfaceCreated (.device kind n)).contexts .sparkle
      kind.created = surfaces.map .surface := by
    rw [(grows_connect _ _ _ surfaceCreated_ne_destroyed).contexts_eq hwires .sparkle
      kind.created_ne_destroyed fun w hw => ?_]
    · exact hcreated
    · rw [List.mem_singleton.mp hw]
      exact kind.created_ne_surfaceCreated.symm
  rw [emitDeviceCreated, hcontexts, List.foldlM_map] at hemit
  have hcalls := foldlM_calls (R := s.resource)
    (g := fun surface => Desk.meeting s.resource surface (kind, n))
    (fun t t' ht surface _ hregister => ?_) (by rfl) hemit
  · exact hcalls
  · obtain ⟨hresource, hcalls⟩ := registerDevice_calls hregister
    rw [ht] at hresource hcalls
    exact ⟨hresource, hcalls⟩

end NewDevice

/-- **Device**: the shell surfaces of its client meet it, the oldest first. -/
theorem Mirrors.getDevice (h : Mirrors s ws d) (hs' : Routed s' ws') {seat n : Nat}
    {kind : DeviceKind} {client : Client} (hseat : s.resource (.seat seat) = some client)
    (hn : s.resource (.device kind n) = none) (hget : s.getDevice seat kind n = some s') :
    Mirrors s' ws' (d.handle (.getDevice seat kind n)) := by
  have hother : ∀ {p}, p ≠ .device kind n →
      (s.create (.device kind n) client).resource p = s.resource p :=
    fun hp => create_resource_of_ne s hp client
  have hcontexts : (s.create (.device kind n) client).contexts (.seat seat) kind.created =
      [.sparkle] := h.routed.contexts_seat (Option.ne_none_iff_exists'.mpr ⟨client, hseat⟩) kind
  simp only [Sparkle.getDevice, hseat, hcontexts, Option.bind_eq_bind, Option.bind_some,
    List.foldlM_cons, List.foldlM_nil, Option.bind_eq_some_iff, Option.pure_def,
    Option.some.injEq, exists_eq_right] at hget
  have hcreated : (s.create (.device kind n) client).contexts .sparkle kind.created =
      d.shellSurfaces.map .surface := h.created kind
  have hsurfaces : ∀ o ∈ (s.create (.device kind n) client).contexts .sparkle kind.created,
      ∃ surface, o = .surface surface ∧
        (s.create (.device kind n) client).resource (.surface surface) ≠ none := by
    intro o ho
    rw [hcreated] at ho
    obtain ⟨surface, hsurface, rfl⟩ := List.mem_map.mp ho
    refine ⟨surface, rfl, ?_⟩
    rw [hother (p := .surface surface) (fun heq => SparkleObject.noConfusion heq)]
    exact (h.mem_shellSurfaces.mp hsurface).1
  obtain ⟨s₁, hs₁, hgrows⟩ := grows_newDevice (s := s.create (.device kind n) client)
    h.routed.wires (create_live s (.device kind n) client) hsurfaces
  cases hget.symm.trans hs₁
  rw [hcreated] at hgrows
  have hresource : Function.update d.resource (.device kind n) (d.resource (.seat seat)) =
      (s.create (.device kind n) client).resource := by
    rw [h.resource, hseat]
    rfl
  obtain ⟨hkinds, hdevices⟩ :=
    Grows.newDevice_sparkle (s := s.create (.device kind n) client) h.routed.wires hgrows
  refine ⟨hs', hresource.trans hgrows.resource.symm, fun kind' => (hkinds kind').trans
    (h.created kind'), ?_, fun surface hsurface i => ?_, ?_⟩
  · rw [hdevices]
    show s.contexts .sparkle SparkleWayland.surfaceCreated ++ [deviceObject (kind, n)] = _
    rw [h.surfaceCreated]
    show _ = (d.devices ++ [(kind, n)]).map deviceObject
    rw [List.map_append]
    rfl
  · have hnew : ∀ x ∈ d.devices, deviceObject x ≠ .device kind n := by
      intro x hx heq
      exact h.live_of_mem_devices hx (heq ▸ hn)
    have hold : (s.create (.device kind n) client).contexts (.surface surface) i.name =
        (Desk.listeners d.resource d.devices surface i.kind).map deviceObject :=
      h.inputs surface hsurface i
    rw [Grows.newDevice_inputs (s := s.create (.device kind n) client) h.routed.wires
      h.nodup_shellSurfaces hgrows hsurface, hold]
    show _ = (Desk.listeners (Function.update d.resource (.device kind n)
      (d.resource (.seat seat))) (d.devices ++ [(kind, n)]) surface i.kind).map deviceObject
    rw [hresource, Desk.listeners_concat, List.map_append,
      Desk.listeners_congr (fun x hx => hother (hnew x hx)) (hother (by rintro ⟨⟩)), h.resource,
      apply_ite (List.map deviceObject)]
    rfl
  · rw [newDevice_calls (s := s.create (.device kind n) client) h.routed.wires hcreated hget]
    show s.calls ++ _ = d.calls ++ d.shellSurfaces.flatMap fun surface =>
      Desk.meeting (Function.update d.resource (.device kind n) (d.resource (.seat seat))) surface
        (kind, n)
    rw [hresource, h.calls]

/-- What a signal that tells of devices is connected to first. -/
theorem kinds_filter (surface : Nat) (kind : DeviceKind) :
    (([DeviceKind.keyboard, .pointer, .touch].map fun kind =>
      ((.sparkle, kind.created, .surface surface) : Wire)).filter fun w =>
        w.1 = .sparkle ∧ w.2.1 = kind.created) = [(.sparkle, kind.created, .surface surface)] := by
  cases kind <;> rfl

/-- The registrations of all devices by one surface. -/
theorem registrations_filter (resource : SparkleObject → Option Client) (surface : Nat)
    (devices : List (DeviceKind × Nat)) (i : InputSignal) :
    (((devices.map deviceObject).flatMap fun o => registration resource (.surface surface) o).filter
      (fun w => w.1 = .surface surface ∧ w.2.1 = i.name)).map (fun w => w.2.2) =
      (Desk.listeners resource devices surface i.kind).map deviceObject := by
  induction devices with
  | nil => rfl
  | cons x devices ih =>
    rw [List.map_cons, List.flatMap_cons, List.filter_append, List.map_append, ih,
      registration_filter, Desk.listeners, Desk.listeners, List.filter_cons]
    by_cases hx : x.1 = i.kind ∧ resource (deviceObject x) = resource (.surface surface)
    · rw [if_pos hx, if_pos (by simpa using hx)]
      rfl
    · rw [if_neg hx, if_neg (by simpa using hx)]
      rfl

/-- What a new shell surface is connected to. -/
abbrev newSurface (resource : SparkleObject → Option Client) (surface : Nat)
    (devices : List (DeviceKind × Nat)) : List Wire :=
  [DeviceKind.keyboard, .pointer, .touch].map
      (fun kind => (.sparkle, kind.created, .surface surface)) ++
    (devices.map deviceObject).flatMap fun o => registration resource (.surface surface) o

section NewSurface

variable {devices : List (DeviceKind × Nat)} {surface : Nat}

/-- It listens to `sparkle` for devices, and is no such one. -/
theorem Grows.newSurface_sparkle (hwires : s.Wires ws)
    (hgrows : Grows s s' (newSurface s.resource surface devices)) :
    (∀ kind : DeviceKind, s'.contexts .sparkle kind.created =
      s.contexts .sparkle kind.created ++ [.surface surface]) ∧
    s'.contexts .sparkle surfaceCreated = s.contexts .sparkle surfaceCreated := by
  have hnosparkle := registrations_filter_sparkle
    (f := fun o => registration s.resource (.surface surface) o)
    (l := devices.map deviceObject) fun o ho w hw => by
      rw [source_of_registration hw]
      rintro ⟨⟩
  constructor
  · intro kind
    rw [hgrows.contexts_append hwires .sparkle kind.created_ne_destroyed, List.filter_append,
      kinds_filter, hnosparkle, List.append_nil]
    rfl
  · rw [hgrows.contexts_append hwires .sparkle surfaceCreated_ne_destroyed, List.filter_append,
      hnosparkle, List.filter_eq_nil_iff.mpr, List.append_nil, List.map_nil, List.append_nil]
    intro w hw hkept
    obtain ⟨kind, rfl⟩ := mem_kinds_map.mp hw
    exact kind.created_ne_surfaceCreated (of_decide_eq_true hkept).2

/-- The devices of its client listen to it, and to the other surfaces as before. -/
theorem Grows.newSurface_inputs (hwires : s.Wires ws)
    (hgrows : Grows s s' (newSurface s.resource surface devices)) (i : InputSignal) :
    s'.contexts (.surface surface) i.name = s.contexts (.surface surface) i.name ++
        (Desk.listeners s.resource devices surface i.kind).map deviceObject ∧
      ∀ surface', surface' ≠ surface →
        s'.contexts (.surface surface') i.name = s.contexts (.surface surface') i.name := by
  have hkinds : ∀ surface', ([DeviceKind.keyboard, .pointer, .touch].map
      (fun kind => ((.sparkle, kind.created, .surface surface) : Wire))).filter
        (fun w => w.1 = .surface surface' ∧ w.2.1 = i.name) = [] := by
    intro surface'
    refine List.filter_eq_nil_iff.mpr fun w hw hkept => ?_
    obtain ⟨kind, rfl⟩ := mem_kinds_map.mp hw
    cases (of_decide_eq_true hkept).1
  constructor
  · rw [hgrows.contexts_append hwires _ i.name_ne_destroyed, List.filter_append, hkinds,
      List.nil_append, registrations_filter]
  · intro surface' hne
    rw [hgrows.contexts_append hwires _ i.name_ne_destroyed, List.filter_append, hkinds,
      List.nil_append, List.filter_eq_nil_iff.mpr, List.map_nil, List.append_nil]
    intro w hw hkept
    obtain ⟨o, -, hw⟩ := List.mem_flatMap.mp hw
    have hsource := (of_decide_eq_true hkept).1
    rw [source_of_registration hw] at hsource
    exact hne (surface_injective hsource).symm

/-- It meets each device, the first one first. -/
theorem newSurface_calls (hwires : s.Wires ws)
    (hdevices : s.contexts .sparkle surfaceCreated = devices.map deviceObject)
    (hemit : ([DeviceKind.keyboard, .pointer, .touch].foldl (fun s kind =>
      s.connect .sparkle kind.created (.surface surface)) s).emitSurfaceCreated surface =
        some s') :
    s'.calls = s.calls ++ devices.flatMap (Desk.meeting s.resource surface) := by
  have hconnects := grows_connects .sparkle (.surface surface) DeviceKind.created_ne_destroyed
    [.keyboard, .pointer, .touch] s
  have hcontexts : ([DeviceKind.keyboard, .pointer, .touch].foldl (fun s kind =>
      s.connect .sparkle kind.created (.surface surface)) s).contexts .sparkle surfaceCreated =
        devices.map deviceObject := by
    rw [hconnects.contexts_eq hwires .sparkle surfaceCreated_ne_destroyed fun w hw => ?_]
    · exact hdevices
    · obtain ⟨kind, rfl⟩ := mem_kinds_map.mp hw
      exact kind.created_ne_surfaceCreated
  rw [emitSurfaceCreated, hcontexts, List.foldlM_map] at hemit
  have hcalls := foldlM_calls (R := s.resource) (g := Desk.meeting s.resource surface)
    (fun t t' ht x _ hregister => ?_) hconnects.resource hemit
  · rw [hcalls, connects_calls_eq]
  · obtain ⟨hresource, hcalls⟩ : t'.resource = t.resource ∧
        t'.calls = t.calls ++ Desk.meeting t.resource surface x := registerDevice_calls hregister
    rw [ht] at hresource hcalls
    exact ⟨hresource, hcalls⟩

end NewSurface

/-- **Shell surface**: it meets the devices of its client, the oldest first. -/
theorem Mirrors.getShellSurface (h : Mirrors s ws d) (hs' : Routed s' ws') {shell surface : Nat}
    (hshell : s.resource (.shell shell) ≠ none) (hsurface : s.resource (.surface surface) ≠ none)
    (hnot : s.shellSurface surface = false) (hget : s.getShellSurface shell surface = some s') :
    Mirrors s' ws' (d.handle (.getShellSurface shell surface)) := by
  let s₁ : Sparkle Client :=
    { s with shellSurface := Function.update s.shellSurface surface true }
  have hcontexts : s₁.contexts (.shell shell) shellSurfaceCreated = [.sparkle] :=
    h.routed.contexts_shell hshell
  replace hget : ([DeviceKind.keyboard, .pointer, .touch].foldl (fun s kind =>
      s.connect .sparkle kind.created (.surface surface)) s₁).emitSurfaceCreated surface =
      some s' := by
    have hget' : (s₁.contexts (.shell shell) shellSurfaceCreated).foldlM _ s₁ = some s' := hget
    rw [hcontexts, List.foldlM_cons] at hget'
    obtain ⟨t, ht, hget'⟩ := Option.bind_eq_some_iff.mp hget'
    cases hget'
    exact ht
  have hcreated : s₁.contexts .sparkle SparkleWayland.surfaceCreated =
      d.devices.map deviceObject := h.surfaceCreated
  have hdevices : ∀ o ∈ s₁.contexts .sparkle SparkleWayland.surfaceCreated,
      ∃ kind n, o = .device kind n ∧ s₁.resource (.device kind n) ≠ none :=
    fun o ho => h.routed.mem_contexts_surfaceCreated.mp ho
  obtain ⟨s₂, hs₂, hgrows⟩ := grows_newSurface (s := s₁) surface h.routed.wires hsurface hdevices
  cases hget.symm.trans hs₂
  rw [hcreated] at hgrows
  obtain ⟨hkinds, hsparkle⟩ := Grows.newSurface_sparkle (s := s₁) h.routed.wires hgrows
  refine ⟨hs', h.resource.trans hgrows.resource.symm, fun kind => ?_, hsparkle.trans hcreated,
    fun surface' hsurface' i => ?_, ?_⟩
  · have hold : s₁.contexts .sparkle kind.created = d.shellSurfaces.map .surface := h.created kind
    rw [hkinds, hold]
    show _ = (d.shellSurfaces ++ [surface]).map SparkleObject.surface
    rw [List.map_append]
    rfl
  · obtain ⟨hself, hothers⟩ := Grows.newSurface_inputs (s := s₁) h.routed.wires hgrows i
    rcases eq_or_ne surface' surface with rfl | hne
    · -- nothing listened to it before
      have hold : s₁.contexts (.surface surface') i.name = [] := by
        refine List.eq_nil_iff_forall_not_mem.mpr fun o ho => ?_
        have hw := (h.routed.mem_contexts i.name_ne_destroyed).mp ho
        obtain ⟨⟨-, htrue⟩, -⟩ := wanted_surface_iff.mp ⟨hw, Or.inl rfl⟩
        rw [hnot] at htrue
        cases htrue
      rw [hself, hold, List.nil_append]
      show _ = (Desk.listeners d.resource d.devices surface' i.kind).map deviceObject
      rw [h.resource]
    · have hmem : surface' ∈ d.shellSurfaces :=
        (List.mem_append.mp hsurface').resolve_right fun hmem => hne (List.mem_singleton.mp hmem)
      exact (hothers surface' hne).trans (h.inputs surface' hmem i)
  · rw [newSurface_calls (s := s₁) h.routed.wires hcreated hget]
    show s.calls ++ d.devices.flatMap (Desk.meeting s.resource surface) =
      d.calls ++ d.devices.flatMap (Desk.meeting d.resource surface)
    rw [h.calls, h.resource]

/-- **Destroy**: what is left keeps its order. -/
theorem Mirrors.destroy (h : Mirrors s ws d) {o : SparkleObject} (hs' : Routed (s.destroy o) ws')
    (ho : s.resource o ≠ none) : Mirrors (s.destroy o) ws' (d.handle (.destroy o)) := by
  have hne : SparkleObject.sparkle ≠ o := by
    rintro rfl
    exact ho h.routed.sparkle
  have hfilter : ∀ {α : Type} (f : α → SparkleObject) (as : List α),
      (as.map f).filter (fun c => c ≠ o) = (as.filter fun a => f a ≠ o).map f :=
    fun f as => List.filter_map
  refine ⟨hs', ?_, fun kind => ?_, ?_, fun surface hsurface i => ?_, h.calls⟩
  · show Function.update d.resource o none = Function.update s.resource o none
    rw [h.resource]
  · rw [destroy_contexts h.routed.wires hne kind.created_ne_destroyed, h.created, hfilter]
    rfl
  · rw [destroy_contexts h.routed.wires hne surfaceCreated_ne_destroyed, h.surfaceCreated, hfilter]
    rfl
  · obtain ⟨hmem, hkept⟩ := List.mem_filter.mp hsurface
    have hother : SparkleObject.surface surface ≠ o := of_decide_eq_true hkept
    rw [destroy_contexts h.routed.wires hother i.name_ne_destroyed, h.inputs surface hmem, hfilter]
    congr 1
    show _ = Desk.listeners (Function.update d.resource o none)
      (d.devices.filter fun x => deviceObject x ≠ o) surface i.kind
    rw [Desk.listeners_congr (fun x hx => ?_) (Function.update_of_ne hother _ _), Desk.listeners,
      Desk.listeners, List.filter_filter, List.filter_filter]
    · exact List.filter_congr fun x _ => Bool.and_comm _ _
    · exact Function.update_of_ne (of_decide_eq_true (List.mem_filter.mp hx).2) _ _

/-- **Step**: what the server does, the desk does. -/
theorem Mirrors.handle (h : Mirrors s ws d) {a : Label Client} (ha : s.Possible a)
    (hst : s.handle a = some s') : ∃ ws', Mirrors s' ws' (d.handle a) := by
  obtain ⟨t, ws', ht, hrouted⟩ := h.routed.handle ha
  rw [hst] at ht
  cases ht
  refine ⟨ws', ?_⟩
  cases a with
  | bindSeat n client =>
    cases hst
    have hgrows := grows_connects (.seat n) .sparkle DeviceKind.created_ne_destroyed
      [.keyboard, .pointer, .touch] (s.create (.seat n) client)
    refine h.create hrouted hgrows.resource (hgrows.wires h.routed.wires) (fun w hw => ?_) nofun
      (fun _ _ => nofun) (fun _ _ => nofun) (connects_calls_eq ..)
    obtain ⟨kind, rfl⟩ := mem_kinds_map.mp hw
    rfl
  | bindShell n client =>
    cases hst
    have hgrows := grows_connect (s.create (.shell n) client) (.shell n) .sparkle
      shellSurfaceCreated_ne_destroyed
    refine h.create hrouted hgrows.resource (hgrows.wires h.routed.wires) (fun w hw => ?_) nofun
      (fun _ _ => nofun) (fun _ _ => nofun) rfl
    rw [List.mem_singleton.mp hw]
  | createSurface n client =>
    cases hst
    have hwires : (s.createSurface n client).Wires (ws ++ []) := by
      rw [List.append_nil]
      exact h.routed.wires
    refine h.create hrouted rfl hwires (List.forall_mem_nil _) nofun (fun _ _ => nofun)
      (fun m hm heq => ?_) rfl
    exact (h.mem_shellSurfaces.mp hm).1 (heq ▸ ha)
  | getDevice seat kind n =>
    obtain ⟨⟨client, hseat⟩, hn⟩ := ha
    exact h.getDevice hrouted hseat hn hst
  | getShellSurface shell surface =>
    obtain ⟨⟨client, hshell, hsurface⟩, hnot⟩ := ha
    exact h.getShellSurface hrouted (Option.ne_none_iff_exists'.mpr ⟨client, hshell⟩)
      (Option.ne_none_iff_exists'.mpr ⟨client, hsurface⟩) hnot hst
  | destroy o =>
    obtain ⟨client, ho⟩ := ha
    cases hst
    exact h.destroy hrouted (Option.ne_none_iff_exists'.mpr ⟨client, ho⟩)
  | input surface input =>
    obtain ⟨⟨client, hsurface⟩, hshell⟩ := ha
    cases hst
    have hmem : surface ∈ d.shellSurfaces :=
      h.mem_shellSurfaces.mpr ⟨Option.ne_none_iff_exists'.mpr ⟨client, hsurface⟩, hshell⟩
    refine ⟨hrouted, h.resource, h.created, h.surfaceCreated, h.inputs, ?_⟩
    show s.calls ++ (s.contexts _ _).map _ = d.calls ++ _
    rw [h.calls, h.inputs surface hmem, List.map_map]
    rfl

end Mirrors

/-- The desk that a run leads to. -/
def desk [DecidableEq Client] (as : List (Label Client)) : Desk Client :=
  as.foldl Desk.handle .empty

section Runs

variable [DecidableEq Client]

theorem mirrors_desk {as : List (Label Client)} {s : Sparkle Client} (h : machine.Reaches as s) :
    ∃ ws, Mirrors s ws (desk as) := by
  obtain ⟨s₀, rfl, hpath⟩ := h
  induction hpath with
  | nil =>
    refine ⟨[], routed_started, rfl, fun kind => ?_, ?_, fun surface hsurface => ?_, rfl⟩
    · rw [contexts_eq routed_started.wires _ kind.created_ne_destroyed]
      rfl
    · rw [contexts_eq routed_started.wires _ surfaceCreated_ne_destroyed]
      rfl
    · cases hsurface
  | snoc _ hstep ih =>
    obtain ⟨ws, hs⟩ := ih
    obtain ⟨ws', ht⟩ := hs.handle hstep.1 hstep.2
    refine ⟨ws', ?_⟩
    rw [desk, List.foldl_append]
    exact ht

/-- **Refinement**: in every run the connections call what the desk calls, in its order, and the
live objects are those that it knows. -/
theorem desk_refined {as : List (Label Client)} {s : Sparkle Client} (h : machine.Reaches as s) :
    s.calls = (desk as).calls ∧ s.resource = (desk as).resource ∧
      ∀ surface, surface ∈ (desk as).shellSurfaces ↔
        s.resource (.surface surface) ≠ none ∧ s.shellSurface surface = true := by
  obtain ⟨ws, hs⟩ := mirrors_desk h
  exact ⟨hs.calls, hs.resource.symm, fun surface => hs.mem_shellSurfaces⟩

/-- A keyboard and a touch device between two shell surfaces, the first of which goes. -/
def twoSurfaces : List (Label Bool) :=
  [.bindSeat 0 true, .bindShell 0 true, .createSurface 0 true, .createSurface 1 true,
    .getShellSurface 0 0, .getDevice 0 .keyboard 0, .getDevice 0 .touch 0, .getShellSurface 0 1,
    .input 1 (.touchDown 0 5 5), .destroy (.surface 0), .getDevice 0 .keyboard 1,
    .input 1 (.keyDown 38)]

theorem desk_refined_twoSurfaces : ∃ s, machine.Reaches twoSurfaces s ∧ s.calls =
    [(.device .keyboard 0, .enter 0), (.device .keyboard 0, .enter 1),
      (.device .touch 0, .down 1 0 5 5), (.device .keyboard 1, .enter 1),
      (.device .keyboard 0, .keyPress 38), (.device .keyboard 1, .keyPress 38)] := by
  have hsome : (run twoSurfaces).isSome = true := by decide +kernel
  obtain ⟨s, hs⟩ := Option.isSome_iff_exists.mp hsome
  obtain ⟨hcalls, -⟩ := desk_refined (reaches_of_run hs)
  exact ⟨s, reaches_of_run hs, hcalls.trans (by decide +kernel)⟩

end Runs

end Sparkle

end SparkleWayland

import SparkleWayland.Sparkle.Desk

/-!
# What one device is told (`sparkle_common/sparkle.cpp`, `sparkle_common/sparkle_surface.cpp`)

While a device is live, it hears of its own client and of nothing else: of every shell surface when
it is made, and of all input of its kind on them. `device_history` says so of every run, and that
it hears in the order in which things happen.
-/

namespace SparkleWayland

namespace Desk

variable {Client : Type} [DecidableEq Client]

/-- What a device of the client hears of a label. -/
def hears (d : Desk Client) (x : DeviceKind × Nat) (client : Client) :
    Sparkle.Label Client → List DeviceCall
  | .getShellSurface _ surface =>
    if d.resource (.surface surface) = some client then (greeting surface x).map Prod.snd else []
  | .input surface input =>
    if input.signal.kind = x.1 ∧ d.resource (.surface surface) = some client then
      [input.call surface]
    else []
  | _ => []

/-- What it hears while labels are performed. -/
def heard (x : DeviceKind × Nat) (client : Client) (d : Desk Client) :
    List (Sparkle.Label Client) → List DeviceCall
  | [] => []
  | a :: as => d.hears x client a ++ heard x client (d.handle a) as

theorem heard_concat (x : DeviceKind × Nat) (client : Client) (d : Desk Client)
    (as : List (Sparkle.Label Client)) (a : Sparkle.Label Client) :
    heard x client d (as ++ [a]) =
      heard x client d as ++ (as.foldl handle d).hears x client a := by
  induction as generalizing d with
  | nil => exact List.append_nil _
  | cons b as ih => exact (congrArg (_ ++ ·) (ih _)).trans (List.append_assoc _ _ _).symm

/-- The inputs of a kind on the surfaces of a client. -/
def inputsOf (kind : DeviceKind) (client : Client) (d : Desk Client) :
    List (Sparkle.Label Client) → List (Nat × Input)
  | [] => []
  | .input surface input :: as =>
    if input.signal.kind = kind ∧ d.resource (.surface surface) = some client then
      (surface, input) :: inputsOf kind client (d.handle (.input surface input)) as
    else inputsOf kind client (d.handle (.input surface input)) as
  | a :: as => inputsOf kind client (d.handle a) as

/-- What a device hears of input, and what besides. -/
theorem heard_flatMap {β : Type} (events : DeviceCall → List β) (x : DeviceKind × Nat)
    (client : Client)
    (hgreeting : ∀ surface, ((greeting surface x).map Prod.snd).flatMap events = [])
    (d : Desk Client) (as : List (Sparkle.Label Client)) :
    (heard x client d as).flatMap events =
      (inputsOf x.1 client d as).flatMap fun p => events (p.2.call p.1) := by
  induction as generalizing d with
  | nil => rfl
  | cons a as ih =>
    rw [heard, List.flatMap_append, ih]
    cases a with
    | input surface input =>
      rw [inputsOf, hears]
      split
      · simp only [List.flatMap_cons, List.flatMap_nil, List.append_nil]
      · rfl
    | getShellSurface shell surface =>
      rw [inputsOf, hears]
      · split
        · rw [hgreeting]
          rfl
        · rfl
      · rintro _ _ ⟨⟩
    | bindSeat | bindShell | createSurface | getDevice | destroy => rfl

/-- The calls on one device. -/
def callsOn (o : SparkleObject) (calls : List (SparkleObject × DeviceCall)) : List DeviceCall :=
  (calls.filter fun c => c.1 = o).map Prod.snd

theorem callsOn_append (o : SparkleObject) (calls calls' : List (SparkleObject × DeviceCall)) :
    callsOn o (calls ++ calls') = callsOn o calls ++ callsOn o calls' := by
  rw [callsOn, List.filter_append, List.map_append]
  rfl

theorem callsOn_eq_nil {o : SparkleObject} {calls : List (SparkleObject × DeviceCall)}
    (h : ∀ c ∈ calls, c.1 ≠ o) : callsOn o calls = [] := by
  rw [callsOn, List.filter_eq_nil_iff.mpr fun c hc heq => h c hc (of_decide_eq_true heq)]
  rfl

theorem fst_of_greeting {surface : Nat} {x : DeviceKind × Nat} {c : SparkleObject × DeviceCall}
    (h : c ∈ greeting surface x) : c.1 = deviceObject x := by
  obtain ⟨kind, n⟩ := x
  cases kind with
  | touch => cases h
  | keyboard | pointer =>
    rw [List.mem_singleton.mp h]
    rfl

theorem fst_of_meeting {resource : SparkleObject → Option Client} {surface : Nat}
    {x : DeviceKind × Nat} {c : SparkleObject × DeviceCall} (h : c ∈ meeting resource surface x) :
    c.1 = deviceObject x := by
  rw [meeting] at h
  split at h
  · exact fst_of_greeting h
  · cases h

theorem deviceObject_injective : Function.Injective deviceObject := by
  rintro ⟨k, m⟩ ⟨k', n⟩ h
  cases h
  rfl

/-- One device is in one batch. -/
theorem callsOn_flatMap {devices : List (DeviceKind × Nat)} (hdevices : devices.Nodup)
    {x : DeviceKind × Nat} (hx : x ∈ devices)
    {f : DeviceKind × Nat → List (SparkleObject × DeviceCall)}
    (hf : ∀ y ∈ devices, ∀ c ∈ f y, c.1 = deviceObject y) :
    callsOn (deviceObject x) (devices.flatMap f) = (f x).map Prod.snd := by
  rw [callsOn, Batches.filter_flatMap_of_mem hdevices hx fun y hy c hc heq =>
    deviceObject_injective ((hf y hy c hc).symm.trans (of_decide_eq_true heq)),
    List.filter_eq_self.mpr fun c hc => decide_eq_true (hf x hx c hc)]

end Desk

namespace Sparkle

open Desk

variable {Client : Type} [DecidableEq Client] {s t : Sparkle Client} {ws : List Wire}
  {d : Desk Client}

theorem Mirrors.mem_devices (h : Mirrors s ws d) {x : DeviceKind × Nat} :
    x ∈ d.devices ↔ s.resource (deviceObject x) ≠ none := by
  refine ⟨h.live_of_mem_devices, fun hlive => ?_⟩
  have hmem := h.routed.mem_contexts_surfaceCreated.mpr ⟨x.1, x.2, rfl, hlive⟩
  rw [h.surfaceCreated] at hmem
  obtain ⟨y, hy, heq⟩ := List.mem_map.mp hmem
  rwa [← deviceObject_injective heq]

theorem Mirrors.nodup_devices (h : Mirrors s ws d) : d.devices.Nodup := by
  have hnodup := h.routed.nodup_contexts .sparkle surfaceCreated_ne_destroyed
  rw [h.surfaceCreated] at hnodup
  exact List.Nodup.of_map _ hnodup

/-- **Step**: a live device hears what it should, and stays. -/
theorem Mirrors.hears (h : Mirrors s ws d) {a : Label Client} (ha : s.Possible a)
    {x : DeviceKind × Nat} {client : Client} (hx : s.resource (deviceObject x) = some client)
    (hkeep : ∀ o, a = .destroy o → o ≠ deviceObject x) :
    callsOn (deviceObject x) (d.handle a).calls =
      callsOn (deviceObject x) d.calls ++ d.hears x client a ∧
    (d.handle a).resource (deviceObject x) = some client := by
  rw [← h.resource] at hx
  have hmem : x ∈ d.devices := by
    rw [h.mem_devices, ← h.resource, hx]
    exact Option.some_ne_none client
  have hnew : ∀ o client', o ≠ deviceObject x →
      Function.update d.resource o client' (deviceObject x) = some client := by
    intro o client' ho
    rw [Function.update_of_ne ho.symm, hx]
  cases a with
  | bindSeat n client' => exact ⟨(List.append_nil _).symm, hnew (.seat n) (some client') nofun⟩
  | bindShell n client' => exact ⟨(List.append_nil _).symm, hnew (.shell n) (some client') nofun⟩
  | createSurface n client' =>
    exact ⟨(List.append_nil _).symm, hnew (.surface n) (some client') nofun⟩
  | getDevice seat kind n =>
    have hne : SparkleObject.device kind n ≠ deviceObject x := by
      intro heq
      rw [h.resource, ← heq, ha.2] at hx
      cases hx
    refine ⟨?_, hnew _ _ hne⟩
    show callsOn _ (d.calls ++ d.shellSurfaces.flatMap _) = _
    rw [callsOn_append]
    refine congrArg (_ ++ ·) (callsOn_eq_nil fun c hc heq => ?_)
    obtain ⟨surface, -, hc⟩ := List.mem_flatMap.mp hc
    exact hne ((fst_of_meeting hc).symm.trans heq)
  | getShellSurface shell surface =>
    refine ⟨?_, hx⟩
    show callsOn _ (d.calls ++ d.devices.flatMap (meeting d.resource surface)) = _
    rw [callsOn_append, callsOn_flatMap h.nodup_devices hmem fun y _ c hc => fst_of_meeting hc,
      meeting, hx]
    congr 1
    by_cases hclient : d.resource (.surface surface) = some client
    · rw [if_pos hclient.symm, Desk.hears, if_pos hclient]
    · rw [if_neg (Ne.symm hclient), Desk.hears, if_neg hclient]
      rfl
  | destroy o => exact ⟨(List.append_nil _).symm, hnew o none (hkeep o rfl)⟩
  | input surface input =>
    refine ⟨?_, hx⟩
    show callsOn _ (d.calls ++ (listeners d.resource d.devices surface input.signal.kind).map _) = _
    rw [callsOn_append, List.map_eq_flatMap]
    congr 1
    rw [Desk.hears]
    by_cases hlistens : input.signal.kind = x.1 ∧ d.resource (.surface surface) = some client
    · have hx' : x ∈ listeners d.resource d.devices surface input.signal.kind :=
        List.mem_filter.mpr ⟨hmem, decide_eq_true ⟨hlistens.1.symm, hx.trans hlistens.2.symm⟩⟩
      have hnodup : (listeners d.resource d.devices surface input.signal.kind).Nodup :=
        h.nodup_devices.filter _
      rw [if_pos hlistens, callsOn_flatMap hnodup hx' fun y _ c hc => ?_]
      · rfl
      · rw [List.mem_singleton.mp hc]
    · rw [if_neg hlistens]
      refine callsOn_eq_nil fun c hc heq => ?_
      obtain ⟨y, hy, hc⟩ := List.mem_flatMap.mp hc
      rw [List.mem_singleton.mp hc] at heq
      cases deviceObject_injective heq
      obtain ⟨hkind, hclient⟩ := of_decide_eq_true (List.mem_filter.mp hy).2
      exact hlistens ⟨hkind.symm, hclient ▸ hx⟩

/-- **Run**: it hears what it should, in order, and the desk is still mirrored. -/
theorem Mirrors.heard (h : Mirrors s ws d) {bs : List (Label Client)} (hpath : machine.Path s bs t)
    {x : DeviceKind × Nat} {client : Client} (hx : s.resource (deviceObject x) = some client)
    (hkeep : Label.destroy (deviceObject x) ∉ bs) :
    (∃ ws', Mirrors t ws' (bs.foldl Desk.handle d)) ∧
      t.resource (deviceObject x) = some client ∧
      callsOn (deviceObject x) t.calls =
        callsOn (deviceObject x) s.calls ++ Desk.heard x client d bs := by
  induction hpath with
  | nil => exact ⟨⟨ws, h⟩, hx, (List.append_nil _).symm⟩
  | @snoc bs u v a _ hstep ih =>
    rw [List.mem_append, not_or] at hkeep
    obtain ⟨⟨ws', hu⟩, hlive, hcalls⟩ := ih hkeep.1
    obtain ⟨ws'', hv⟩ := hu.handle hstep.1 hstep.2
    have hdestroy : ∀ o, a = .destroy o → o ≠ deviceObject x := by
      rintro o rfl rfl
      exact hkeep.2 (List.mem_singleton_self _)
    obtain ⟨hmore, hlive'⟩ := hu.hears hstep.1 hlive hdestroy
    rw [← hv.resource, List.foldl_append]
    refine ⟨⟨ws'', hv⟩, hlive', ?_⟩
    rw [hv.calls, heard_concat, ← List.append_assoc, ← hcalls, hu.calls]
    exact hmore

/-- **Histories**: in every run a device that is live, and stays so, is called for what it should
hear, for all of it and in order, and for nothing else. -/
theorem device_history {as bs : List (Label Client)} (hs : machine.Reaches as s)
    (hpath : machine.Path s bs t) {x : DeviceKind × Nat} {client : Client}
    (hx : s.resource (deviceObject x) = some client)
    (hkeep : Label.destroy (deviceObject x) ∉ bs) :
    callsOn (deviceObject x) t.calls =
      callsOn (deviceObject x) s.calls ++ heard x client (desk as) bs ∧
    t.resource (deviceObject x) = some client := by
  obtain ⟨ws, hmirrors⟩ := mirrors_desk hs
  obtain ⟨-, hlive, hcalls⟩ := hmirrors.heard hpath hx hkeep
  exact ⟨hcalls, hlive⟩

theorem device_history_twoSurfaces : ∃ s t, machine.Reaches (twoSurfaces.take 6) s ∧
    machine.Path s (twoSurfaces.drop 6) t ∧
    callsOn (.device .keyboard 0) t.calls =
      callsOn (.device .keyboard 0) s.calls ++ [.enter 1, .keyPress 38] := by
  have hsome : (run (twoSurfaces.take 6)).isSome = true := by decide +kernel
  obtain ⟨s, hs⟩ := Option.isSome_iff_exists.mp hsome
  have hrest : ((run (twoSurfaces.take 6)).bind fun s => (twoSurfaces.drop 6).foldlM
      (fun s a => if s.Possible a then s.handle a else none) s).isSome = true := by decide +kernel
  have hlive : (run (twoSurfaces.take 6)).bind (fun s => s.resource (.device .keyboard 0)) =
      some true := by decide +kernel
  rw [hs, Option.bind_some] at hrest hlive
  obtain ⟨t, ht⟩ := Option.isSome_iff_exists.mp hrest
  have hpath : machine.Path s (twoSurfaces.drop 6) t := by
    refine Machine.Path.of_foldlM (fun s a t hst => ?_) ht
    exact Option.ite_none_right_eq_some.mp hst
  have hreaches := reaches_of_run hs
  obtain ⟨hcalls, -⟩ := device_history hreaches hpath (x := (.keyboard, 0)) hlive
    (by simp [twoSurfaces, deviceObject])
  exact ⟨s, t, hreaches, hpath, hcalls.trans (congrArg _ (by decide +kernel))⟩

end Sparkle

end SparkleWayland

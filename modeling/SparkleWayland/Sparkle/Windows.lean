import Mathlib.Data.List.Nodup
import SparkleWayland.Sparkle.Hearing

/-!
# From the X server to the client (`were/were_x11_surface.cpp`, `were/were_x11_compositor.cpp`)

Each shell surface gets a window, and every `were_x11_surface` looks at every event of the X server
and emits what concerns its window. `typed_delivered` says what comes of that at the devices: in
whatever run of the server a device is called for the input in the windows of its client, and for
all of it. A button that `button_map` has no entry for is read outside of it:
`process_defined_iff` says when.
-/

namespace SparkleWayland

/-- `button_map` of `were_x11_surface.cpp` -/
def x11ButtonMap : List Int32 := [0, btnLeft, btnMiddle, btnRight, btnGearUp, btnGearDown]

/-- The events that `were_x11_surface::process` tells apart, the window apart. -/
inductive X11Event where
  | expose
  | buttonPress (detail : UInt8)
  | buttonRelease (detail : UInt8)
  | motionNotify (x y : Int16)
  | enterNotify
  | leaveNotify
  | keyPress (detail : UInt8)
  | keyRelease (detail : UInt8)
  | other
  deriving DecidableEq, Repr

/-- What `process` emits for an event of its window. There is no result where `button_map` has no
entry. -/
def X11Event.emits : X11Event → Option (List Input)
  | expose | other => some []
  | buttonPress detail =>
    (x11ButtonMap[detail.toNat]?).map fun button => [.pointerButtonDown button]
  | buttonRelease detail =>
    (x11ButtonMap[detail.toNat]?).map fun button => [.pointerButtonUp button]
  | motionNotify x y => some [.pointerMotion x.toInt32 y.toInt32]
  | enterNotify => some [.pointerEnter]
  | leaveNotify => some [.pointerLeave]
  | keyPress detail => some [.keyDown (Int32.ofNat detail.toNat)]
  | keyRelease detail => some [.keyUp (Int32.ofNat detail.toNat)]

/-- The windows and the surfaces that they are of, in the order in which they were made. -/
abbrev Screen := List (UInt32 × Nat)

namespace Screen

/-- A `were_x11_surface` looks whether the window is its own. -/
def slot (window : UInt32) (e : X11Event) (inputs : List (Nat × Input)) (w : UInt32 × Nat) :
    Option (List (Nat × Input)) :=
  if w.1 = window then e.emits.map fun more => inputs ++ more.map fun i => (w.2, i)
  else some inputs

/-- The emission of `event1`. -/
def emits (screen : Screen) (window : UInt32) (e : X11Event) : Option (List (Nat × Input)) :=
  screen.foldlM (slot window e) []

/-- The surface that a window is of. -/
def surfaceOf (screen : Screen) (window : UInt32) : Option Nat :=
  (screen.find? fun w => w.1 = window).map Prod.snd

end Screen

/-- The server with its windows. -/
structure X11Server (Client : Type) where
  sparkle : Sparkle Client
  screen : Screen

/-- What a client does, a shell surface and its window apart, and what the X server sends. -/
inductive X11Label (Client : Type) where
  | client (a : Sparkle.Label Client)
  | shellSurface (shell surface : Nat) (window : UInt32)
  | event (window : UInt32) (e : X11Event)

namespace X11Label

variable {Client : Type}

/-- What comes of it at `sparkle`. There is no result where a table has no entry; a window is
not made twice. -/
def labels (screen : Screen) : X11Label Client → Option (List (Sparkle.Label Client))
  | client (.getShellSurface _ _) | client (.input _ _) => none
  | client a => some [a]
  | shellSurface shell surface window =>
    if window ∈ screen.map Prod.fst then none else some [.getShellSurface shell surface]
  | event window e =>
    (screen.emits window e).map fun inputs => inputs.map fun p => .input p.1 p.2

/-- The windows then: that of a surface goes with it. -/
def screen (screen : Screen) : X11Label Client → Screen
  | client (.destroy o) => screen.filter fun w => .surface w.2 ≠ o
  | client _ | event _ _ => screen
  | shellSurface _ surface window => screen ++ [(window, surface)]

end X11Label

namespace X11Server

variable {Client : Type} [DecidableEq Client]

/-- `sparkle` performs labels one after the other. -/
def perform (s : Sparkle Client) (as : List (Sparkle.Label Client)) : Option (Sparkle Client) :=
  as.foldlM (fun s a => if s.Possible a then s.handle a else none) s

def step (s : X11Server Client) (a : X11Label Client) : Option (X11Server Client) :=
  (a.labels s.screen).bind fun labels =>
    (perform s.sparkle labels).map fun sparkle => ⟨sparkle, a.screen s.screen⟩

def machine : Machine (X11Server Client) (X11Label Client) :=
  Machine.ofStep (· = ⟨.started, []⟩) step

end X11Server

/-! ## What is typed -/

namespace Desk

variable {Client : Type} [DecidableEq Client]

/-- The desk after a label of the server. -/
def handleX11 (d : Desk Client) (screen : Screen) (a : X11Label Client) : Desk Client :=
  ((a.labels screen).getD []).foldl handle d

/-- What a device of the client hears of a label of the server. -/
def hearsX11 (d : Desk Client) (screen : Screen) (x : DeviceKind × Nat) (client : Client) :
    X11Label Client → List DeviceCall
  | .client _ => []
  | .shellSurface _ surface _ =>
    if d.resource (.surface surface) = some client then (greeting surface x).map Prod.snd else []
  | .event window e =>
    (screen.surfaceOf window).elim [] fun surface =>
      if d.resource (.surface surface) = some client then
        ((e.emits.getD []).filter fun i => i.signal.kind = x.1).map fun i => i.call surface
      else []

/-- What it hears while labels are performed. -/
def heardX11 (x : DeviceKind × Nat) (client : Client) (d : Desk Client) (screen : Screen) :
    List (X11Label Client) → List DeviceCall
  | [] => []
  | a :: as =>
    d.hearsX11 screen x client a ++ heardX11 x client (d.handleX11 screen a) (a.screen screen) as

/-- The desk and the windows after several labels. -/
def lookX11 (d : Desk Client) (screen : Screen) (as : List (X11Label Client)) :
    Desk Client × Screen :=
  as.foldl (fun p a => (p.1.handleX11 p.2 a, a.screen p.2)) (d, screen)

theorem lookX11_concat (d : Desk Client) (screen : Screen) (as : List (X11Label Client))
    (a : X11Label Client) : lookX11 d screen (as ++ [a]) =
      ((lookX11 d screen as).1.handleX11 (lookX11 d screen as).2 a,
        a.screen (lookX11 d screen as).2) :=
  List.foldl_append

theorem heardX11_concat (x : DeviceKind × Nat) (client : Client) (d : Desk Client)
    (screen : Screen) (as : List (X11Label Client)) (a : X11Label Client) :
    heardX11 x client d screen (as ++ [a]) = heardX11 x client d screen as ++
      (lookX11 d screen as).1.hearsX11 (lookX11 d screen as).2 x client a := by
  induction as generalizing d screen with
  | nil => exact List.append_nil _
  | cons b as ih => exact (congrArg (_ ++ ·) (ih ..)).trans (List.append_assoc ..).symm

/-- What a device hears of inputs on one surface. -/
theorem heard_inputs (x : DeviceKind × Nat) (client : Client) (surface : Nat) (inputs : List Input)
    (d : Desk Client) : heard x client d (inputs.map fun i => .input surface i) =
      if d.resource (.surface surface) = some client then
        (inputs.filter fun i => i.signal.kind = x.1).map fun i => i.call surface
      else [] := by
  induction inputs generalizing d with
  | nil => exact (ite_self _).symm
  | cons i inputs ih =>
    have hresource : (d.handle (.input surface i)).resource = d.resource := rfl
    rw [List.map_cons, heard, ih, hears, hresource]
    by_cases hclient : d.resource (.surface surface) = some client
    · by_cases hkind : i.signal.kind = x.1
      · rw [if_pos ⟨hkind, hclient⟩, if_pos hclient, if_pos hclient,
          List.filter_cons_of_pos (by simpa using hkind)]
        rfl
      · rw [if_neg (not_and_of_not_left _ hkind), if_pos hclient, if_pos hclient,
          List.filter_cons_of_neg (by simpa using hkind)]
        rfl
    · rw [if_neg (not_and_of_not_right _ hclient), if_neg hclient, if_neg hclient]
      rfl

end Desk

/-! ## Events -/

namespace X11Event

end X11Event

namespace Screen

variable {screen : Screen} {window : UInt32} {surface : Nat}

theorem mem_of_surfaceOf (h : screen.surfaceOf window = some surface) :
    (window, surface) ∈ screen := by
  obtain ⟨w, hw, rfl⟩ := Option.map_eq_some_iff.mp h
  have hwindow : w.1 = window := by simpa using List.find?_some hw
  exact hwindow ▸ List.mem_of_find?_eq_some hw

/-- Nobody else has the window. -/
theorem foldlM_slot_of_notMem (e : X11Event) (h : window ∉ screen.map Prod.fst)
    (inputs : List (Nat × Input)) : screen.foldlM (slot window e) inputs = some inputs := by
  induction screen with
  | nil => rfl
  | cons w screen ih =>
    rw [List.map_cons, List.mem_cons, not_or] at h
    rw [List.foldlM_cons, slot, if_neg (Ne.symm h.1)]
    exact ih h.2

/-- Where no two surfaces have one window, the event concerns one surface, or none. -/
theorem emits_eq (h : (screen.map Prod.fst).Nodup) (window : UInt32) (e : X11Event) :
    screen.emits window e = (screen.surfaceOf window).elim (some []) fun surface =>
      e.emits.map fun inputs => inputs.map fun i => (surface, i) := by
  induction screen with
  | nil => rfl
  | cons w screen ih =>
    rw [List.map_cons, List.nodup_cons] at h
    by_cases hw : w.1 = window
    · subst hw
      rw [emits, List.foldlM_cons, slot, if_pos rfl, surfaceOf, List.find?_cons_of_pos (by simp)]
      cases he : e.emits with
      | none => rfl
      | some inputs => exact foldlM_slot_of_notMem e h.1 _
    · rw [emits, List.foldlM_cons, slot, if_neg hw, surfaceOf,
        List.find?_cons_of_neg (by simpa using hw)]
      exact ih h.2

end Screen

namespace X11Server

variable {Client : Type} [DecidableEq Client] {s t : X11Server Client} {ws : List Sparkle.Wire}
  {d : Desk Client}

/-- The server mirrors a desk, and each shell surface has one window. -/
structure Tiled (s : X11Server Client) (ws : List Sparkle.Wire) (d : Desk Client) : Prop where
  mirrors : Sparkle.Mirrors s.sparkle ws d
  nodup : (s.screen.map Prod.fst).Nodup
  surfaces : s.screen.map Prod.snd = d.shellSurfaces

/-- What `sparkle` performs is a path of it. -/
theorem path_of_perform {s t : Sparkle Client} {as : List (Sparkle.Label Client)}
    (h : perform s as = some t) : Sparkle.machine.Path s as t :=
  Machine.Path.of_foldlM (fun _ _ _ hst => Option.ite_none_right_eq_some.mp hst) h

/-- A window is of a surface that is there. -/
theorem Tiled.live (h : Tiled s ws d) {window : UInt32} {surface : Nat}
    (hwindow : s.screen.surfaceOf window = some surface) :
    (∃ client, s.sparkle.resource (.surface surface) = some client) ∧
      s.sparkle.shellSurface surface = true := by
  have hmem : surface ∈ d.shellSurfaces := by
    rw [← h.surfaces]
    exact List.mem_map_of_mem (Screen.mem_of_surfaceOf hwindow)
  obtain ⟨hlive, hshell⟩ := h.mirrors.mem_shellSurfaces.mp hmem
  exact ⟨Option.ne_none_iff_exists'.mp hlive, hshell⟩

/-- **Run**: what `sparkle` mirrors after labels, the desk does. -/
theorem mirrors_perform {s t : Sparkle Client} (h : Sparkle.Mirrors s ws d)
    {as : List (Sparkle.Label Client)} (hperform : perform s as = some t) :
    ∃ ws', Sparkle.Mirrors t ws' (as.foldl Desk.handle d) := by
  induction as generalizing s d ws with
  | nil =>
    cases hperform
    exact ⟨ws, h⟩
  | cons a as ih =>
    rw [X11Server.perform, List.foldlM_cons] at hperform
    obtain ⟨u, hu, hrest⟩ := Option.bind_eq_some_iff.mp hperform
    obtain ⟨ha, hu⟩ := Option.ite_none_right_eq_some.mp hu
    obtain ⟨ws', hmirrors⟩ := h.handle ha hu
    exact ih hmirrors hrest

/-- What comes of a label at `sparkle`, and the windows then. -/
theorem step_eq_some_iff {a : X11Label Client} : s.step a = some t ↔
    ∃ labels, a.labels s.screen = some labels ∧ perform s.sparkle labels = some t.sparkle ∧
      t.screen = a.screen s.screen := by
  rw [step, Option.bind_eq_some_iff]
  refine exists_congr fun labels => and_congr_right fun _ => ?_
  rw [Option.map_eq_some_iff]
  constructor
  · rintro ⟨sparkle, hperform, rfl⟩
    exact ⟨hperform, rfl⟩
  · rintro ⟨hperform, hscreen⟩
    exact ⟨t.sparkle, hperform, by rw [← hscreen]⟩

/-- Inputs leave the shell surfaces as they are. -/
theorem shellSurfaces_inputs (inputs : List (Nat × Input)) (d : Desk Client) :
    ((inputs.map fun p => Sparkle.Label.input p.1 p.2).foldl Desk.handle d).shellSurfaces =
      d.shellSurfaces := by
  induction inputs generalizing d with
  | nil => rfl
  | cons p inputs ih => exact ih _

/-- **Step** -/
theorem Tiled.step (h : Tiled s ws d) {a : X11Label Client} (hstep : s.step a = some t) :
    ∃ ws', Tiled t ws' (d.handleX11 s.screen a) := by
  obtain ⟨labels, hlabels, hperform, hscreen⟩ := step_eq_some_iff.mp hstep
  obtain ⟨ws', hmirrors⟩ := mirrors_perform h.mirrors hperform
  have hdesk : d.handleX11 s.screen a = labels.foldl Desk.handle d := by
    rw [Desk.handleX11, hlabels]
    rfl
  refine ⟨ws', hdesk ▸ hmirrors, ?_, ?_⟩
  · rw [hscreen]
    cases a with
    | client a =>
      cases a with
      | destroy o => exact h.nodup.sublist (List.filter_sublist.map _)
      | bindSeat | bindShell | createSurface | getDevice | getShellSurface | input =>
        exact h.nodup
    | shellSurface shell surface window =>
      obtain ⟨hnew, -⟩ := Option.ite_none_left_eq_some.mp hlabels
      rw [X11Label.screen, List.map_append]
      exact h.nodup.append (List.nodup_singleton _) (List.disjoint_singleton.mpr hnew)
    | event window e => exact h.nodup
  · rw [hscreen, hdesk]
    cases a with
    | client a =>
      cases a with
      | destroy o =>
        cases hlabels
        show (s.screen.filter _).map Prod.snd = d.shellSurfaces.filter _
        rw [← h.surfaces, List.filter_map]
        rfl
      | bindSeat | bindShell | createSurface | getDevice =>
        cases hlabels
        exact h.surfaces
      | getShellSurface | input => cases hlabels
    | shellSurface shell surface window =>
      obtain ⟨-, heq⟩ := Option.ite_none_left_eq_some.mp hlabels
      cases heq
      show (s.screen ++ [(window, surface)]).map Prod.snd = d.shellSurfaces ++ [surface]
      rw [← h.surfaces, List.map_append]
      rfl
    | event window e =>
      obtain ⟨inputs, -, rfl⟩ := Option.map_eq_some_iff.mp hlabels
      rw [shellSurfaces_inputs]
      exact h.surfaces

/-- **Run**: a tiled server stays so, with the desk and the windows that the labels lead to. -/
theorem Tiled.run (h : Tiled s ws d) {bs : List (X11Label Client)} (hpath : machine.Path s bs t) :
    (∃ ws', Tiled t ws' (Desk.lookX11 d s.screen bs).1) ∧
      t.screen = (Desk.lookX11 d s.screen bs).2 := by
  induction hpath with
  | nil => exact ⟨⟨ws, h⟩, rfl⟩
  | snoc _ hstep ih =>
    obtain ⟨⟨ws', hu⟩, hscreen⟩ := ih
    obtain ⟨ws'', hv⟩ := hu.step hstep
    obtain ⟨_, -, -, hscreen'⟩ := step_eq_some_iff.mp hstep
    rw [Desk.lookX11_concat, ← hscreen]
    exact ⟨⟨ws'', hv⟩, hscreen'⟩

theorem tiled_reaches {as : List (X11Label Client)} (h : machine.Reaches as s) :
    (∃ ws, Tiled s ws (Desk.lookX11 .empty [] as).1) ∧
      s.screen = (Desk.lookX11 (.empty : Desk Client) [] as).2 := by
  obtain ⟨s₀, rfl, hpath⟩ := h
  obtain ⟨ws, hws⟩ := Sparkle.mirrors_desk (Machine.Reaches.start (M := Sparkle.machine)
    (rfl : (Sparkle.started : Sparkle Client) = Sparkle.started))
  have hstarted : Tiled ⟨Sparkle.started, []⟩ ws Desk.empty := ⟨hws, List.nodup_nil, rfl⟩
  exact hstarted.run hpath

/-- **Step**: what a live device hears of a label is what it hears of what comes of it. -/
theorem Tiled.hears (h : Tiled s ws d) {a : X11Label Client} (hstep : s.step a = some t)
    {x : DeviceKind × Nat} {client : Client}
    (hx : s.sparkle.resource (deviceObject x) = some client)
    (hkeep : a ≠ .client (.destroy (deviceObject x))) :
    t.sparkle.resource (deviceObject x) = some client ∧
      Desk.callsOn (deviceObject x) t.sparkle.calls =
        Desk.callsOn (deviceObject x) s.sparkle.calls ++ d.hearsX11 s.screen x client a := by
  obtain ⟨labels, hlabels, hperform, -⟩ := step_eq_some_iff.mp hstep
  have hboth : Sparkle.Label.destroy (deviceObject x) ∉ labels ∧
      Desk.heard x client d labels = d.hearsX11 s.screen x client a := by
    cases a with
    | client a =>
      cases a with
      | destroy o =>
        cases hlabels
        exact ⟨fun hmem => hkeep (congrArg _ (List.mem_singleton.mp hmem).symm), rfl⟩
      | bindSeat | bindShell | createSurface | getDevice =>
        cases hlabels
        exact ⟨by simp, rfl⟩
      | getShellSurface | input => cases hlabels
    | shellSurface shell surface window =>
      obtain ⟨-, heq⟩ := Option.ite_none_left_eq_some.mp hlabels
      cases heq
      exact ⟨by simp, List.append_nil _⟩
    | event window e =>
      obtain ⟨inputs, hinputs, rfl⟩ := Option.map_eq_some_iff.mp hlabels
      refine ⟨by simp, ?_⟩
      rw [Screen.emits_eq h.nodup] at hinputs
      rw [Desk.hearsX11]
      cases hwindow : s.screen.surfaceOf window with
      | none =>
        rw [hwindow] at hinputs
        cases hinputs
        rfl
      | some surface =>
        rw [hwindow] at hinputs
        obtain ⟨own, hown, rfl⟩ := Option.map_eq_some_iff.mp hinputs
        rw [List.map_map, hown]
        exact Desk.heard_inputs x client surface own d
  obtain ⟨-, hlive, hcalls⟩ := h.mirrors.heard (path_of_perform hperform) hx hboth.1
  exact ⟨hlive, hboth.2 ▸ hcalls⟩

/-- **Delivery**: in every run of the server a device that is live, and stays so, is called for
all the input of its kind in the windows of its client, in the order in which it
comes, for the shell surfaces of its client when they are made, and for nothing else. -/
theorem typed_delivered {as bs : List (X11Label Client)} (hs : machine.Reaches as s)
    (hpath : machine.Path s bs t) {x : DeviceKind × Nat} {client : Client}
    (hx : s.sparkle.resource (deviceObject x) = some client)
    (hkeep : .client (.destroy (deviceObject x)) ∉ bs) :
    t.sparkle.resource (deviceObject x) = some client ∧
      Desk.callsOn (deviceObject x) t.sparkle.calls =
        Desk.callsOn (deviceObject x) s.sparkle.calls ++
          Desk.heardX11 x client (Desk.lookX11 .empty [] as).1 s.screen bs := by
  obtain ⟨⟨ws, hws⟩, -⟩ := tiled_reaches hs
  induction hpath with
  | nil => exact ⟨hx, (List.append_nil _).symm⟩
  | @snoc bs u v a hpath hstep ih =>
    rw [List.mem_append, not_or] at hkeep
    obtain ⟨hlive, hcalls⟩ := ih hkeep.1
    obtain ⟨⟨ws', hu⟩, hscreen⟩ := hws.run hpath
    obtain ⟨hlive', hcalls'⟩ := hu.hears hstep hlive fun heq =>
      hkeep.2 (List.mem_singleton.mpr heq.symm)
    refine ⟨hlive', ?_⟩
    rw [hcalls', hcalls, Desk.heardX11_concat, hscreen, List.append_assoc]

/-- A client with a keyboard and a window. -/
def oneWindow : List (X11Label Bool) :=
  [.client (.bindSeat 0 true), .client (.bindShell 0 true), .client (.createSurface 0 true),
    .client (.createSurface 1 true), .client (.getDevice 0 .keyboard 0), .shellSurface 0 0 7]

/-- Keys in this window, in none and in another one. -/
def keysInWindows : List (X11Label Bool) :=
  [.event 7 (.keyPress 38), .event 8 (.keyPress 30), .event 7 (.buttonPress 1),
    .shellSurface 0 1 8, .event 8 (.keyPress 30)]

theorem oneWindow_keysInWindows : ∃ s t : X11Server Bool, machine.Reaches oneWindow s ∧
    machine.Path s keysInWindows t ∧ s.sparkle.resource (.device .keyboard 0) = some true ∧
    s.screen = [(7, 0)] ∧
    Desk.heardX11 (.keyboard, 0) true (Desk.lookX11 .empty [] oneWindow).1 s.screen
      keysInWindows = [.keyPress 38, .enter 1, .keyPress 30] := by
  have hsome : (oneWindow.foldlM step ⟨.started, []⟩).isSome = true := by decide +kernel
  obtain ⟨s, hs⟩ := Option.isSome_iff_exists.mp hsome
  have hrest : ((oneWindow.foldlM step ⟨.started, []⟩).bind fun s =>
      keysInWindows.foldlM step s).isSome = true := by decide +kernel
  have hlive : (oneWindow.foldlM step ⟨.started, []⟩).map (fun s =>
      (s.sparkle.resource (.device .keyboard 0), s.screen)) = some (some true, [(7, 0)]) := by
    decide +kernel
  rw [hs, Option.bind_some] at hrest
  rw [hs, Option.map_some, Option.some.injEq, Prod.mk.injEq] at hlive
  obtain ⟨t, ht⟩ := Option.isSome_iff_exists.mp hrest
  refine ⟨s, t, ⟨_, rfl, Machine.Path.of_run hs⟩, Machine.Path.of_run ht, hlive.1, hlive.2, ?_⟩
  rw [hlive.2]
  decide +kernel

theorem typed_delivered_oneWindow : ∃ s t : X11Server Bool, machine.Reaches oneWindow s ∧
    machine.Path s keysInWindows t ∧ Desk.callsOn (.device .keyboard 0) t.sparkle.calls =
      Desk.callsOn (.device .keyboard 0) s.sparkle.calls ++
        [.keyPress 38, .enter 1, .keyPress 30] := by
  obtain ⟨s, t, hs, hpath, hlive, -, hheard⟩ := oneWindow_keysInWindows
  obtain ⟨-, hcalls⟩ := typed_delivered hs hpath (x := (.keyboard, 0)) hlive
    (by simp [keysInWindows])
  exact ⟨s, t, hs, hpath, hcalls.trans (congrArg _ hheard)⟩

end X11Server

end SparkleWayland

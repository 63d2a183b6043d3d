import SparkleWayland.Lib.Machine
import SparkleWayland.Were.Connections

/-!
# Who gets the input (`sparkle_common/sparkle.cpp`, `sparkle_common/sparkle_surface.cpp`)

A client binds seats and shells, asks its seats for keyboards, pointers and touch devices, and
makes some of its surfaces shell surfaces. `sparkle` brings devices and surfaces together:
each shell surface is connected to the signals that tell of new devices, and each device to
the one that tells of new shell surfaces, and whichever comes second is registered with all
that came before. A registration connects the input signals of a surface to a device
of the same client.

All objects live on one thread. An object is known by its number as long as its
resource is live; the number may be used again.
-/

namespace SparkleWayland

inductive DeviceKind where
  | keyboard
  | pointer
  | touch
  deriving DecidableEq, Repr

/-- The objects whose signals take part. -/
inductive SparkleObject where
  | sparkle
  | seat (n : Nat)
  | shell (n : Nat)
  | surface (n : Nat)
  | device (kind : DeviceKind) (n : Nat)
  deriving DecidableEq, Repr

/-! ## Signals -/

/-- `sparkle::surface_created` -/
def surfaceCreated : SignalName := .own 0

/-- `keyboard_created`, `pointer_created` and `touch_created`, of `sparkle` and `sparkle_seat` -/
def DeviceKind.created : DeviceKind → SignalName
  | keyboard => .own 1
  | pointer => .own 2
  | touch => .own 3

/-- `sparkle_shell::shell_surface_created` -/
def shellSurfaceCreated : SignalName := .own 4

/-- The signals of `were_surface` that carry input. -/
inductive InputSignal where
  | keyDown
  | keyUp
  | pointerButtonDown
  | pointerButtonUp
  | pointerMotion
  | pointerEnter
  | pointerLeave
  | touchDown
  | touchUp
  | touchMotion
  deriving DecidableEq, Repr

namespace InputSignal

def name : InputSignal → SignalName
  | keyDown => .own 5
  | keyUp => .own 6
  | pointerButtonDown => .own 7
  | pointerButtonUp => .own 8
  | pointerMotion => .own 9
  | pointerEnter => .own 10
  | pointerLeave => .own 11
  | touchDown => .own 12
  | touchUp => .own 13
  | touchMotion => .own 14

/-- The devices that the signal is for. -/
def kind : InputSignal → DeviceKind
  | keyDown | keyUp => .keyboard
  | pointerButtonDown | pointerButtonUp | pointerMotion | pointerEnter | pointerLeave => .pointer
  | touchDown | touchUp | touchMotion => .touch

end InputSignal

/-! ## Input -/

/-- `BTN_LEFT` of `linux/input-event-codes.h`, and those that follow. -/
def btnLeft : Int32 := 0x110

def btnRight : Int32 := 0x111

def btnMiddle : Int32 := 0x112

def btnGearDown : Int32 := 0x150

def btnGearUp : Int32 := 0x151

/-- What a view emits on a surface. -/
inductive Input where
  | keyDown (code : Int32)
  | keyUp (code : Int32)
  | pointerButtonDown (button : Int32)
  | pointerButtonUp (button : Int32)
  | pointerMotion (x y : Int32)
  | pointerEnter
  | pointerLeave
  | touchDown (id x y : Int32)
  | touchUp (id x y : Int32)
  | touchMotion (id x y : Int32)
  deriving DecidableEq, Repr

/-- The methods of `sparkle_keyboard`, `sparkle_pointer` and `sparkle_touch` that are called. -/
inductive DeviceCall where
  | keyPress (code : Int32)
  | keyRelease (code : Int32)
  | buttonDown (button : Int32)
  | buttonUp (button : Int32)
  | motion (x y : Int32)
  | enter (surface : Nat)
  | leave (surface : Nat)
  | down (surface : Nat) (id x y : Int32)
  | up (surface : Nat) (id x y : Int32)
  | touchMotion (surface : Nat) (id x y : Int32)
  deriving DecidableEq, Repr

namespace Input

def signal : Input → InputSignal
  | keyDown _ => .keyDown
  | keyUp _ => .keyUp
  | pointerButtonDown _ => .pointerButtonDown
  | pointerButtonUp _ => .pointerButtonUp
  | pointerMotion _ _ => .pointerMotion
  | pointerEnter => .pointerEnter
  | pointerLeave => .pointerLeave
  | touchDown _ _ _ => .touchDown
  | touchUp _ _ _ => .touchUp
  | touchMotion _ _ _ => .touchMotion

/-- What the slot that a registration connected calls. -/
def call (surface : Nat) : Input → DeviceCall
  | keyDown code => .keyPress code
  | keyUp code => .keyRelease code
  | pointerButtonDown button => .buttonDown button
  | pointerButtonUp button => .buttonUp button
  | pointerMotion x y => .motion x y
  | pointerEnter => .enter surface
  | pointerLeave => .leave surface
  | touchDown id x y => .down surface id x y
  | touchUp id x y => .up surface id x y
  | touchMotion id x y => .touchMotion surface id x y

end Input

/-! ## The server -/

/-- `sparkle` with the objects of its clients. `resource` has the client of each live resource,
and `calls` what was called on devices. -/
structure Sparkle (Client : Type) where
  resource : SparkleObject → Option Client
  shellSurface : Nat → Bool
  signals : Signals SparkleObject
  nextId : Nat
  calls : List (SparkleObject × DeviceCall)

namespace Sparkle

variable {Client : Type}

/-- `were::connect` -/
def connect (s : Sparkle Client) (source : SparkleObject) (name : SignalName)
    (context : SparkleObject) : Sparkle Client :=
  let c := Connection.make source name context s.nextId
  { s with signals := s.signals.connect c (.call c), nextId := s.nextId + 3 }

/-- The objects whose slots an emission runs. -/
def contexts (s : Sparkle Client) (source : SparkleObject) (name : SignalName) :
    List SparkleObject :=
  s.signals.contexts ⟨source, name⟩

section Registration

variable [DecidableEq Client]

/-- What `register_keyboard`, `register_pointer` and `register_touch` of a surface do. `client()`
throws if the resource is gone. -/
def register (s : Sparkle Client) (surface : Nat) (device : SparkleObject)
    (inputs : List InputSignal) (enter : Bool) : Option (Sparkle Client) := do
  let client ← s.resource device
  let client' ← s.resource (.surface surface)
  -- `if (keyboard->client() != client()) return`
  if client ≠ client' then return s
  let s := inputs.foldl (fun s input => s.connect (.surface surface) input.name device) s
  return if enter then { s with calls := s.calls ++ [(device, .enter surface)] } else s

/-- `sparkle_surface::register_keyboard` -/
def registerKeyboard (s : Sparkle Client) (surface keyboard : Nat) : Option (Sparkle Client) :=
  s.register surface (.device .keyboard keyboard) [.keyDown, .keyUp] true

/-- `sparkle_surface::register_pointer` -/
def registerPointer (s : Sparkle Client) (surface pointer : Nat) : Option (Sparkle Client) :=
  s.register surface (.device .pointer pointer)
    [.pointerButtonDown, .pointerButtonUp, .pointerMotion, .pointerEnter, .pointerLeave] true

/-- `sparkle_surface::register_touch` -/
def registerTouch (s : Sparkle Client) (surface touch : Nat) : Option (Sparkle Client) :=
  s.register surface (.device .touch touch) [.touchDown, .touchUp, .touchMotion] false

def registerDevice (s : Sparkle Client) (surface : Nat) :
    DeviceKind → Nat → Option (Sparkle Client)
  | .keyboard, n => s.registerKeyboard surface n
  | .pointer, n => s.registerPointer surface n
  | .touch, n => s.registerTouch surface n

/-- The emission of `keyboard_created`, `pointer_created` or `touch_created` of `sparkle`: the
surfaces it is connected to register the device. -/
def emitDeviceCreated (s : Sparkle Client) (kind : DeviceKind) (n : Nat) :
    Option (Sparkle Client) :=
  (s.contexts .sparkle kind.created).foldlM (fun s context =>
    match context with
    | .surface surface => s.registerDevice surface kind n
    | _ => none) s

/-- The emission of `surface_created` of `sparkle`: the devices it is connected to are
registered. -/
def emitSurfaceCreated (s : Sparkle Client) (surface : Nat) : Option (Sparkle Client) :=
  (s.contexts .sparkle surfaceCreated).foldlM (fun s context =>
    match context with
    | .device kind n => s.registerDevice surface kind n
    | _ => none) s

/-! ## Requests -/

/-- A new resource. -/
def create (s : Sparkle Client) (o : SparkleObject) (client : Client) : Sparkle Client :=
  { s with resource := Function.update s.resource o (some client) }

/-- The slot of `sparkle` for a new seat. -/
def bindSeat (s : Sparkle Client) (n : Nat) (client : Client) : Sparkle Client :=
  [DeviceKind.keyboard, .pointer, .touch].foldl
    (fun s kind => s.connect (.seat n) kind.created .sparkle) (s.create (.seat n) client)

/-- The slot of `sparkle` for a new shell. -/
def bindShell (s : Sparkle Client) (n : Nat) (client : Client) : Sparkle Client :=
  (s.create (.shell n) client).connect (.shell n) shellSurfaceCreated .sparkle

def createSurface (s : Sparkle Client) (n : Nat) (client : Client) : Sparkle Client :=
  { s.create (.surface n) client with shellSurface := Function.update s.shellSurface n false }

/-- The slots of `get_keyboard`, `get_pointer` and `get_touch` of a seat. The seat emits the
new device, and `sparkle`, connected to it, its own signal. -/
def getDevice (s : Sparkle Client) (seat : Nat) (kind : DeviceKind) (n : Nat) :
    Option (Sparkle Client) := do
  let client ← s.resource (.seat seat)
  let s := s.create (.device kind n) client
  (s.contexts (.seat seat) kind.created).foldlM (fun s context =>
    match context with
    -- the slot that `sparkle` connected when the seat was bound
    | .sparkle => (s.connect .sparkle surfaceCreated (.device kind n)).emitDeviceCreated kind n
    | _ => none) s

/-- The slot of `get_shell_surface` of a shell. -/
def getShellSurface (s : Sparkle Client) (shell surface : Nat) : Option (Sparkle Client) :=
  let s := { s with shellSurface := Function.update s.shellSurface surface true }
  (s.contexts (.shell shell) shellSurfaceCreated).foldlM (fun s context =>
    match context with
    -- the slot that `sparkle` connected when the shell was bound
    | .sparkle =>
      ([DeviceKind.keyboard, .pointer, .touch].foldl
        (fun s kind => s.connect .sparkle kind.created (.surface surface)) s).emitSurfaceCreated
          surface
    | _ => none) s

/-- A resource is destroyed, by a `release` or `destroy` of the client or with the client: its
object collapses. -/
def destroy (s : Sparkle Client) (o : SparkleObject) : Sparkle Client :=
  { s with resource := Function.update s.resource o none, signals := s.signals.collapse o }

/-- The emission of an input signal on a surface, and what it calls on which devices. -/
def forward (s : Sparkle Client) (surface : Nat) (input : Input) :
    List (SparkleObject × DeviceCall) :=
  (s.contexts (.surface surface) input.signal.name).map fun o => (o, input.call surface)

/-! ## Runs -/

inductive Label (Client : Type) where
  | bindSeat (n : Nat) (client : Client)
  | bindShell (n : Nat) (client : Client)
  | createSurface (n : Nat) (client : Client)
  | getDevice (seat : Nat) (kind : DeviceKind) (n : Nat)
  | getShellSurface (shell surface : Nat)
  | destroy (o : SparkleObject)
  | input (surface : Nat) (input : Input)

/-- What clients may do: requests of live resources that make new ones, and a shell surface once
for each surface. -/
def Possible (s : Sparkle Client) : Label Client → Prop
  | .bindSeat n _ => s.resource (.seat n) = none
  | .bindShell n _ => s.resource (.shell n) = none
  | .createSurface n _ => s.resource (.surface n) = none
  | .getDevice seat kind n =>
    (∃ client, s.resource (.seat seat) = some client) ∧ s.resource (.device kind n) = none
  | .getShellSurface shell surface =>
    (∃ client, s.resource (.shell shell) = some client ∧
      s.resource (.surface surface) = some client) ∧ s.shellSurface surface = false
  | .destroy o => ∃ client, s.resource o = some client
  | .input surface _ =>
    (∃ client, s.resource (.surface surface) = some client) ∧ s.shellSurface surface = true

instance (s : Sparkle Client) (o : SparkleObject) :
    Decidable (∃ client, s.resource o = some client) :=
  decidable_of_iff ((s.resource o).isSome = true) Option.isSome_iff_exists

instance (s : Sparkle Client) (o p : SparkleObject) :
    Decidable (∃ client, s.resource o = some client ∧ s.resource p = some client) :=
  decidable_of_iff ((s.resource o).isSome = true ∧ s.resource p = s.resource o) <| by
    rw [Option.isSome_iff_exists]
    constructor
    · rintro ⟨⟨client, ho⟩, hp⟩
      exact ⟨client, ho, hp.trans ho⟩
    · rintro ⟨client, ho, hp⟩
      exact ⟨⟨client, ho⟩, hp.trans ho.symm⟩

instance (s : Sparkle Client) : DecidablePred s.Possible
  | .bindSeat n _ => inferInstanceAs (Decidable (s.resource (.seat n) = none))
  | .bindShell n _ => inferInstanceAs (Decidable (s.resource (.shell n) = none))
  | .createSurface n _ => inferInstanceAs (Decidable (s.resource (.surface n) = none))
  | .getDevice seat kind n => inferInstanceAs (Decidable
      ((∃ client, s.resource (.seat seat) = some client) ∧ s.resource (.device kind n) = none))
  | .getShellSurface shell surface => inferInstanceAs (Decidable
      ((∃ client, s.resource (.shell shell) = some client ∧
        s.resource (.surface surface) = some client) ∧ s.shellSurface surface = false))
  | .destroy o => inferInstanceAs (Decidable (∃ client, s.resource o = some client))
  | .input surface _ => inferInstanceAs (Decidable
      ((∃ client, s.resource (.surface surface) = some client) ∧ s.shellSurface surface = true))

/-- What the server does. There is no result if a slot throws. -/
def handle (s : Sparkle Client) : Label Client → Option (Sparkle Client)
  | .bindSeat n client => some (s.bindSeat n client)
  | .bindShell n client => some (s.bindShell n client)
  | .createSurface n client => some (s.createSurface n client)
  | .getDevice seat kind n => s.getDevice seat kind n
  | .getShellSurface shell surface => s.getShellSurface shell surface
  | .destroy o => some (s.destroy o)
  | .input surface input => some { s with calls := s.calls ++ s.forward surface input }

/-- The server before its first client. -/
def started : Sparkle Client := ⟨fun _ => none, fun _ => false, fun _ => [], 0, []⟩

def machine : Machine (Sparkle Client) (Label Client) where
  start s := s = started
  step s a t := s.Possible a ∧ s.handle a = some t

/-- The state that labels lead to, if they can be performed. -/
def run (as : List (Label Client)) : Option (Sparkle Client) :=
  as.foldlM (fun s a => if s.Possible a then s.handle a else none) started

theorem reaches_of_run {as : List (Label Client)} {s : Sparkle Client} (h : run as = some s) :
    machine.Reaches as s := by
  refine ⟨started, rfl, Machine.Path.of_foldlM (fun s a t hst => ?_) h⟩
  by_cases ha : s.Possible a
  · rw [if_pos ha] at hst
    exact ⟨ha, hst⟩
  · rw [if_neg ha] at hst
    cases hst

end Registration

end Sparkle

end SparkleWayland

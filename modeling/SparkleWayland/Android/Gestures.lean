import SparkleWayland.Lib.Machine
import SparkleWayland.Lib.Sessions
import SparkleWayland.Sparkle.Input

/-!
# From Android's input events to native calls (`SparkleView.java`, `sparkle_view.cpp`)

`SparkleView` turns touches, strokes of a stylus and mouse buttons into calls of the native
side, which looks up the buttons in `button_map`. While the volume key is held, a touch
is a press of the right button; `rmb_down_` remembers until the end of the gesture that it
began so. But there is one `rmb_down_` for touchscreen and stylus, moves do not consult it,
a cancelled gesture is not handled at all, and the codes of a mouse's buttons are passed on as they
are. `proper_guarded_iff` says which events do no harm.

`touchscreen`, `stylus` and `mouse` are history: what is in progress, and how it began.
-/

namespace SparkleWayland

/-! ## The native side -/

/-- `button_map` of `sparkle_view.cpp` -/
def buttonMap : List Int32 := [0, btnLeft, btnRight, 0, btnMiddle, btnGearUp, btnGearDown]

/-- The entry that `pointer_button_down` and `pointer_button_up` read. There is none outside
of the table. -/
def buttonMapAt (button : Int32) : Option Int32 :=
  if 0 ≤ button.toInt then buttonMap[button.toInt.toNat]? else none

/-- The native methods that carry input. -/
inductive NativeCall (F : Type) where
  | keyDown (code : Int32)
  | keyUp (code : Int32)
  | pointerButtonDown (button : Int32)
  | pointerButtonUp (button : Int32)
  | pointerMotion (x y : F)
  | touchDown (id : Int32) (x y : F)
  | touchUp (id : Int32) (x y : F)
  | touchMotion (id : Int32) (x y : F)
  deriving DecidableEq, Repr

/-! ## Events -/

/-- The actions of a `MotionEvent`. -/
inductive MotionAction where
  | down
  | up
  | move
  | cancel
  | hoverMove
  | scroll
  | buttonPress
  | buttonRelease
  | other
  deriving DecidableEq, Repr

/-- A `MotionEvent`, with coordinates in `F`. -/
structure MotionEvent (F : Type) where
  source : Int32
  action : MotionAction
  x : F
  y : F
  buttonState : Int32
  actionButton : Int32
  /-- `AXIS_VSCROLL` is positive. -/
  scrollsUp : Bool

/-- A `KeyEvent`, with the key code that `onKeyDown` and `onKeyUp` get. -/
structure KeyEvent where
  keyCode : Int32
  source : Int32

/-- `SOURCE_TOUCHSCREEN` of `InputDevice`, and those that follow. -/
def sourceTouchscreen : Int32 := 0x1002

def sourceMouse : Int32 := 0x2002

def sourceStylus : Int32 := 0x4002

/-- `BUTTON_STYLUS_PRIMARY` -/
def buttonStylusPrimary : Int32 := 32

/-- `KEYCODE_BACK` -/
def keycodeBack : Int32 := 4

/-- `KEYCODE_VOLUME_DOWN` -/
def keycodeVolumeDown : Int32 := 25

def hasSource (sources source : Int32) : Bool := sources &&& source == source

/-- The branches of `onMotionEvent`. -/
inductive MotionSource where
  | touchscreen
  | stylus
  | mouse
  deriving DecidableEq, Repr

variable {F : Type}

/-- The branch that `onMotionEvent` takes. -/
def MotionEvent.branch (event : MotionEvent F) : Option MotionSource :=
  if hasSource event.source sourceTouchscreen then some .touchscreen
  else if hasSource event.source sourceStylus then some .stylus
  else if hasSource event.source sourceMouse then some .mouse
  else none

/-! ## The view -/

/-- The fields of a `SparkleView` that its input handlers use. -/
structure SparkleView where
  native : UInt64
  rmb : Bool
  rmbDown : Bool

/-- What a handler leaves behind: the view, the native calls it made, and what it returned. -/
structure Handled (F : Type) where
  view : SparkleView
  calls : List (NativeCall F)
  result : Bool

namespace SparkleView

/-- A stylus is put down as the right button. -/
def rightButton (view : SparkleView) (event : MotionEvent F) : Bool :=
  view.rmb || event.buttonState &&& buttonStylusPrimary == buttonStylusPrimary

/-- `onMotionEvent`, for the touchscreen -/
def onTouchscreen (view : SparkleView) (event : MotionEvent F) : Handled F :=
  match event.action with
  | .down =>
    if view.rmb then
      ⟨{ view with rmbDown := true }, [.pointerMotion event.x event.y, .pointerButtonDown 2], true⟩
    else ⟨view, [.touchDown 0 event.x event.y], true⟩
  | .up =>
    if view.rmbDown then ⟨{ view with rmbDown := false }, [.pointerButtonUp 2], true⟩
    else ⟨view, [.touchUp 0 event.x event.y], true⟩
  | .hoverMove => ⟨view, [.pointerMotion event.x event.y], true⟩
  | .move => ⟨view, [.touchMotion 0 event.x event.y], true⟩
  | _ => ⟨view, [], false⟩

/-- `onMotionEvent`, for a stylus -/
def onStylus (view : SparkleView) (event : MotionEvent F) : Handled F :=
  match event.action with
  | .down =>
    if view.rightButton event then
      ⟨{ view with rmbDown := true }, [.pointerMotion event.x event.y, .pointerButtonDown 2], true⟩
    else ⟨view, [.pointerMotion event.x event.y, .pointerButtonDown 1], true⟩
  | .up =>
    if view.rmbDown then ⟨{ view with rmbDown := false }, [.pointerButtonUp 2], true⟩
    else ⟨view, [.pointerButtonUp 1], true⟩
  | .hoverMove => ⟨view, [.pointerMotion event.x event.y], true⟩
  | .move => ⟨view, [.pointerMotion event.x event.y], true⟩
  | _ => ⟨view, [], false⟩

/-- `onMotionEvent`, for a mouse -/
def onMouse (view : SparkleView) (event : MotionEvent F) : Handled F :=
  match event.action with
  | .buttonPress => ⟨view, [.pointerButtonDown event.actionButton], true⟩
  | .buttonRelease => ⟨view, [.pointerButtonUp event.actionButton], true⟩
  | .hoverMove => ⟨view, [.pointerMotion event.x event.y], true⟩
  | .move => ⟨view, [.pointerMotion event.x event.y], true⟩
  | .scroll =>
    if event.scrollsUp then ⟨view, [.pointerButtonDown 5, .pointerButtonUp 5], true⟩
    else ⟨view, [.pointerButtonDown 6, .pointerButtonUp 6], true⟩
  | _ => ⟨view, [], false⟩

def onMotionEvent (view : SparkleView) (event : MotionEvent F) : Handled F :=
  if view.native = 0 then ⟨view, [], false⟩
  else
    match event.branch with
    | some .touchscreen => view.onTouchscreen event
    | some .stylus => view.onStylus event
    | some .mouse => view.onMouse event
    | none => ⟨view, [], false⟩

/-- `onKeyDown`. Hiding the view and the software keyboard take no native calls. -/
def onKeyDown (view : SparkleView) (event : KeyEvent) : Handled F :=
  if view.native = 0 then ⟨view, [], false⟩
  else if event.keyCode = keycodeBack ∧ hasSource event.source sourceMouse then
    ⟨view, [.pointerButtonDown 2], true⟩
  else if event.keyCode = keycodeVolumeDown then
    ⟨{ view with rmb := true }, [.keyDown event.keyCode], true⟩
  else ⟨view, [.keyDown event.keyCode], true⟩

def onKeyUp (view : SparkleView) (event : KeyEvent) : Handled F :=
  if view.native = 0 then ⟨view, [], false⟩
  else if event.keyCode = keycodeBack ∧ hasSource event.source sourceMouse then
    ⟨view, [.pointerButtonUp 2], true⟩
  else if event.keyCode = keycodeVolumeDown then
    ⟨{ view with rmb := false }, [.keyUp event.keyCode], true⟩
  else ⟨view, [.keyUp event.keyCode], true⟩

end SparkleView

/-! ## What well-formed calls are -/

namespace NativeCall

/-- What a call does to touch 0. -/
def touchToken : NativeCall F → Option (SessionToken Unit)
  | touchDown id _ _ => if id = 0 then some (.opens ()) else none
  | touchMotion id _ _ => if id = 0 then some .within else none
  | touchUp id _ _ => if id = 0 then some (.closes ()) else none
  | _ => none

/-- What a call does to a button. -/
def pressToken (button : Int32) : NativeCall F → Option (SessionToken Unit)
  | pointerButtonDown b => if b = button then some (.opens ()) else none
  | pointerButtonUp b => if b = button then some (.closes ()) else none
  | _ => none

/-- The index that a call passes to `button_map`. -/
def index : NativeCall F → Option Int32
  | pointerButtonDown button => some button
  | pointerButtonUp button => some button
  | _ => none

end NativeCall

/-- The calls for touch 0. -/
def touches (calls : List (NativeCall F)) : List (SessionToken Unit) :=
  calls.filterMap NativeCall.touchToken

/-- The calls for a button. -/
def presses (button : Int32) (calls : List (NativeCall F)) : List (SessionToken Unit) :=
  calls.filterMap (NativeCall.pressToken button)

/-- The calls so far are well formed: each touch goes down, moves and goes up, each button goes
down and up, and the buttons are in the table. -/
structure WellFormedCalls (calls : List (NativeCall F)) : Prop where
  touches : ∃ rest, touches calls ++ rest ∈ Sessions.language Unit
  presses : ∀ button, ∃ rest, presses button calls ++ rest ∈ Sessions.language Unit
  indices : ∀ button ∈ calls.filterMap NativeCall.index, (buttonMapAt button).isSome

/-- No touch and no button is left down. -/
structure CompleteCalls (calls : List (NativeCall F)) : Prop where
  touches : touches calls ∈ Sessions.language Unit
  presses : ∀ button, presses button calls ∈ Sessions.language Unit

/-! ## Keeping the balance -/

section Tokens

variable {calls : List (NativeCall F)} {c : NativeCall F} {e : SessionToken Unit} {button : Int32}

theorem touches_concat_of_none (h : c.touchToken = none) :
    touches (calls ++ [c]) = touches calls := by
  simp [touches, h]

theorem touches_concat (h : c.touchToken = some e) :
    touches (calls ++ [c]) = touches calls ++ [e] := by
  simp [touches, h]

theorem presses_concat_of_none (h : c.pressToken button = none) :
    presses button (calls ++ [c]) = presses button calls := by
  simp [presses, h]

theorem presses_concat (h : c.pressToken button = some e) :
    presses button (calls ++ [c]) = presses button calls ++ [e] := by
  simp [presses, h]

end Tokens

/-- What the calls so far leave down: touch 0, and the buttons in `held`. -/
structure Balance (calls : List (NativeCall F)) (touching : Bool) (held : Int32 → Prop) : Prop where
  touches : Sessions.scan (touches calls) = some (if touching then some () else none)
  down : ∀ b, held b → Sessions.scan (presses b calls) = some (some ())
  up : ∀ b, ¬held b → Sessions.scan (presses b calls) = some none
  indices : ∀ b ∈ calls.filterMap NativeCall.index, (buttonMapAt b).isSome

namespace Balance

variable {calls : List (NativeCall F)} {touching touching' : Bool} {held held' : Int32 → Prop}

theorem wellFormed (h : Balance calls touching held) : WellFormedCalls calls where
  touches := Sessions.exists_append_mem_iff.mpr ⟨_, h.touches⟩
  presses b := by
    by_cases hb : held b
    · exact Sessions.exists_append_mem_iff.mpr ⟨_, h.down b hb⟩
    · exact Sessions.exists_append_mem_iff.mpr ⟨_, h.up b hb⟩
  indices := h.indices

theorem complete (h : Balance calls false held) (hnone : ∀ b, ¬held b) : CompleteCalls calls where
  touches := Sessions.mem_language_iff.mpr h.touches
  presses b := Sessions.mem_language_iff.mpr (h.up b (hnone b))

theorem congr (h : Balance calls touching held) (hiff : ∀ b, held' b ↔ held b) :
    Balance calls touching held' where
  touches := h.touches
  down b hb := h.down b ((hiff b).mp hb)
  up b hb := h.up b fun hheld => hb ((hiff b).mpr hheld)
  indices := h.indices

/-- A call for no button. -/
theorem noButton (h : Balance calls touching held) {c : NativeCall F}
    (hp : ∀ b, c.pressToken b = none) (hi : c.index = none)
    (ht : Sessions.scan (SparkleWayland.touches (calls ++ [c])) =
      some (if touching' then some () else none)) : Balance (calls ++ [c]) touching' held where
  touches := ht
  down b hb := by rw [presses_concat_of_none (hp b), h.down b hb]
  up b hb := by rw [presses_concat_of_none (hp b), h.up b hb]
  indices := by simpa [hi] using h.indices

/-- A call for touch 0. -/
theorem touch (h : Balance calls touching held) {c : NativeCall F} {e : SessionToken Unit}
    (ht : c.touchToken = some e) (hp : ∀ b, c.pressToken b = none) (hi : c.index = none)
    (hnext : Sessions.next (if touching then some () else none) e =
      some (if touching' then some () else none)) : Balance (calls ++ [c]) touching' held := by
  refine h.noButton hp hi ?_
  rw [touches_concat ht, Sessions.scan_concat, h.touches]
  exact hnext

/-- A call for neither. -/
theorem other (h : Balance calls touching held) {c : NativeCall F} (ht : c.touchToken = none)
    (hp : ∀ b, c.pressToken b = none) (hi : c.index = none) :
    Balance (calls ++ [c]) touching held := by
  refine h.noButton hp hi ?_
  rw [touches_concat_of_none ht, h.touches]

theorem touchDown (h : Balance calls false held) (x y : F) :
    Balance (calls ++ [.touchDown 0 x y]) true held :=
  h.touch rfl (fun _ => rfl) rfl rfl

theorem touchMotion (h : Balance calls true held) (x y : F) :
    Balance (calls ++ [.touchMotion 0 x y]) true held :=
  h.touch rfl (fun _ => rfl) rfl rfl

theorem touchUp (h : Balance calls true held) (x y : F) :
    Balance (calls ++ [.touchUp 0 x y]) false held :=
  h.touch rfl (fun _ => rfl) rfl rfl

theorem pointerMotion (h : Balance calls touching held) (x y : F) :
    Balance (calls ++ [.pointerMotion x y]) touching held :=
  h.other rfl (fun _ => rfl) rfl

/-- A call for a button in the table. -/
theorem ofButton (h : Balance calls touching held) {c : NativeCall F} {button : Int32}
    {e : SessionToken Unit} {o : Option Unit} (hp : c.pressToken button = some e)
    (hother : ∀ b, b ≠ button → c.pressToken b = none) (ht : c.touchToken = none)
    (hi : c.index = some button) (hindex : (buttonMapAt button).isSome)
    (hnext : (Sessions.scan (presses button calls)).bind (fun o => Sessions.next o e) = some o)
    (hheld' : held' button ↔ o = some ()) (hrest : ∀ b, b ≠ button → (held' b ↔ held b)) :
    Balance (calls ++ [c]) touching held' := by
  have hbutton : Sessions.scan (presses button (calls ++ [c])) = some o := by
    rw [presses_concat hp, Sessions.scan_concat, hnext]
  refine ⟨?_, fun b hb => ?_, fun b hb => ?_, fun b hb => ?_⟩
  · rw [touches_concat_of_none ht, h.touches]
  · by_cases hne : b = button
    · subst hne
      rw [hbutton, hheld'.mp hb]
    · rw [presses_concat_of_none (hother b hne), h.down b ((hrest b hne).mp hb)]
  · by_cases hne : b = button
    · subst hne
      cases o with
      | none => exact hbutton
      | some u => exact absurd (hheld'.mpr rfl) hb
    · rw [presses_concat_of_none (hother b hne), h.up b fun hheld => hb ((hrest b hne).mpr hheld)]
  · rw [List.filterMap_append, List.mem_append] at hb
    rcases hb with hold | hnew
    · exact h.indices b hold
    · rw [List.filterMap_cons_some hi] at hnew
      rwa [List.mem_singleton.mp hnew]

/-- A button goes down. -/
theorem press (h : Balance calls touching held) {button : Int32} (hfree : ¬held button)
    (hindex : (buttonMapAt button).isSome) (hheld' : ∀ b, held' b ↔ b = button ∨ held b) :
    Balance (calls ++ [.pointerButtonDown button]) touching held' := by
  refine h.ofButton (if_pos rfl) (fun b hne => if_neg (Ne.symm hne)) rfl rfl hindex ?_
    (iff_of_true ((hheld' button).mpr (Or.inl rfl)) rfl) fun b hne => ?_
  · rw [h.up button hfree]
    rfl
  · rw [hheld', or_iff_right hne]

/-- A button goes up. -/
theorem release (h : Balance calls touching held) {button : Int32} (hdown : held button)
    (hindex : (buttonMapAt button).isSome) (hheld' : ∀ b, held' b ↔ b ≠ button ∧ held b) :
    Balance (calls ++ [.pointerButtonUp button]) touching held' := by
  refine h.ofButton (o := none) (if_pos rfl) (fun b hne => if_neg (Ne.symm hne)) rfl rfl hindex ?_
    (iff_of_false (fun hb => ((hheld' button).mp hb).1 rfl) nofun) fun b hne => ?_
  · rw [h.down button hdown]
    rfl
  · rw [hheld', and_iff_right hne]

end Balance

/-! ## Runs -/

/-- A view and what it is in the middle of. -/
structure Gestures (F : Type) where
  view : SparkleView
  /-- A gesture on the touchscreen, and whether it began as a press of the right button. -/
  touchscreen : Option Bool
  /-- A gesture with the stylus, and the button that it began with. -/
  stylus : Option Int32
  /-- The buttons of the mouse that are held. -/
  mouse : List Int32
  calls : List (NativeCall F)

namespace Gestures

/-- What is in progress behind an event. -/
def progress (s : Gestures F) (event : MotionEvent F) : Gestures F :=
  match event.branch, event.action with
  | some .touchscreen, .down => { s with touchscreen := some s.view.rmb }
  | some .touchscreen, .up | some .touchscreen, .cancel => { s with touchscreen := none }
  | some .stylus, .down => { s with stylus := some (if s.view.rightButton event then 2 else 1) }
  | some .stylus, .up | some .stylus, .cancel => { s with stylus := none }
  | some .mouse, .buttonPress => { s with mouse := event.actionButton :: s.mouse }
  | some .mouse, .buttonRelease => { s with mouse := s.mouse.filter (· ≠ event.actionButton) }
  | _, _ => s

@[simp] theorem progress_calls (s : Gestures F) (event : MotionEvent F) :
    (s.progress event).calls = s.calls := by
  unfold progress
  split <;> rfl

/-- The event may come next: a gesture is `DOWN MOVE* (UP | CANCEL)`, and a button that is pressed
is released before it is pressed again. -/
def Admits (s : Gestures F) (event : MotionEvent F) : Prop :=
  match event.branch, event.action with
  | some .touchscreen, .down => s.touchscreen = none
  | some .touchscreen, .move | some .touchscreen, .up | some .touchscreen, .cancel =>
    s.touchscreen ≠ none
  | some .stylus, .down => s.stylus = none
  | some .stylus, .move | some .stylus, .up | some .stylus, .cancel => s.stylus ≠ none
  | some .mouse, .buttonPress => event.actionButton ∉ s.mouse
  | some .mouse, .buttonRelease => event.actionButton ∈ s.mouse
  | _, _ => True

instance (s : Gestures F) (event : MotionEvent F) : Decidable (s.Admits event) := by
  unfold Admits
  split <;> infer_instance

/-- What the system delivers. -/
inductive Label (F : Type) where
  | motion (event : MotionEvent F)
  | keyDown (event : KeyEvent)
  | keyUp (event : KeyEvent)

/-- The state behind a handler. -/
def handled (s : Gestures F) (h : Handled F) : Gestures F :=
  { s with view := h.view, calls := s.calls ++ h.calls }

section Handled

variable (s : Gestures F) (h : Handled F)

@[simp] theorem handled_view : (s.handled h).view = h.view := rfl

@[simp] theorem handled_touchscreen : (s.handled h).touchscreen = s.touchscreen := rfl

@[simp] theorem handled_stylus : (s.handled h).stylus = s.stylus := rfl

@[simp] theorem handled_mouse : (s.handled h).mouse = s.mouse := rfl

@[simp] theorem handled_calls : (s.handled h).calls = s.calls ++ h.calls := rfl

end Handled

/-- One event. A mouse's own key for going back is left out. -/
def step (s : Gestures F) : Label F → Option (Gestures F)
  | .motion event =>
    if s.Admits event then some ((s.progress event).handled (s.view.onMotionEvent event)) else none
  | .keyDown event =>
    if event.keyCode = keycodeBack ∧ hasSource event.source sourceMouse then none
    else some (s.handled (s.view.onKeyDown event))
  | .keyUp event =>
    if event.keyCode = keycodeBack ∧ hasSource event.source sourceMouse then none
    else some (s.handled (s.view.onKeyUp event))

/-- A view that has been given its native side. -/
def shown (native : UInt64) : Gestures F := ⟨⟨native, false, false⟩, none, none, [], []⟩

def machine : Machine (Gestures F) (Label F) :=
  Machine.ofStep (fun s => ∃ native, native ≠ 0 ∧ s = shown native) step

/-- Nothing is in progress. -/
def Idle (s : Gestures F) : Prop := s.touchscreen = none ∧ s.stylus = none ∧ s.mouse = []

/-- The calls are well formed, and complete where nothing is in progress. -/
structure Proper (s : Gestures F) : Prop where
  wellFormed : WellFormedCalls s.calls
  complete : s.Idle → CompleteCalls s.calls

/-- Something that is in progress began with the button. -/
def Holds (s : Gestures F) (button : Int32) : Prop :=
  (s.touchscreen = some true ∧ button = 2) ∨ s.stylus = some button ∨ button ∈ s.mouse

instance (s : Gestures F) (button : Int32) : Decidable (s.Holds button) :=
  inferInstanceAs (Decidable (_ ∨ _))

@[simp] theorem holds_handled (s : Gestures F) (h : Handled F) (button : Int32) :
    (s.handled h).Holds button ↔ s.Holds button := Iff.rfl

/-- The event does no harm: a gesture is not cancelled, and ends as `rmb_down_` has it; one that
began as a press of the right button does not move on the touchscreen; a button is not pressed while
something else holds it, and is in the table. -/
def Harmless (s : Gestures F) : Label F → Prop
  | .motion event =>
    match event.branch, event.action with
    | some .touchscreen, .down => s.view.rmb = true → ¬s.Holds 2
    | some .touchscreen, .move => s.touchscreen = some false
    | some .touchscreen, .up => s.touchscreen = some s.view.rmbDown
    | some .touchscreen, .cancel => False
    | some .stylus, .down => ¬s.Holds (if s.view.rightButton event then 2 else 1)
    | some .stylus, .up => s.stylus = some (if s.view.rmbDown then 2 else 1)
    | some .stylus, .cancel => False
    | some .mouse, .buttonPress =>
      (buttonMapAt event.actionButton).isSome ∧ ¬s.Holds event.actionButton
    | some .mouse, .scroll => ¬s.Holds (if event.scrollsUp then 5 else 6)
    | _, _ => True
  | _ => True

instance (s : Gestures F) : DecidablePred s.Harmless
  | .motion event => by
    unfold Harmless
    dsimp only
    split <;> infer_instance
  | .keyDown _ => .isTrue trivial
  | .keyUp _ => .isTrue trivial

/-- Runs of harmless events. -/
def careful : Machine (Gestures F) (Label F) := machine.guarded Harmless

/-! ## Harmless events -/

/-- What is in progress is what the calls have left down, and nothing holds a button twice. -/
structure Tracks (s : Gestures F) : Prop where
  native : s.view.native ≠ 0
  balance : Balance s.calls (decide (s.touchscreen = some false)) s.Holds
  touchscreen : s.touchscreen = some true → s.stylus ≠ some 2 ∧ 2 ∉ s.mouse
  stylus : ∀ b, s.stylus = some b → (b = 1 ∨ b = 2) ∧ b ∉ s.mouse
  mouse : ∀ b ∈ s.mouse, (buttonMapAt b).isSome
  rmbDown : s.view.rmbDown = true ↔ s.touchscreen = some true ∨ s.stylus = some 2

variable {s t : Gestures F} {event : MotionEvent F}

theorem Tracks.proper (h : s.Tracks) : s.Proper where
  wellFormed := h.balance.wellFormed
  complete := by
    rintro ⟨htouchscreen, hstylus, hmouse⟩
    have hbalance := h.balance
    rw [htouchscreen] at hbalance
    refine hbalance.complete fun b hb => ?_
    simp [Holds, htouchscreen, hstylus, hmouse] at hb

/-- Where a handler makes no calls for touches and buttons. -/
theorem Tracks.neutral (h : s.Tracks) {handled : Handled F}
    (hnative : handled.view.native = s.view.native)
    (hrmbDown : handled.view.rmbDown = s.view.rmbDown)
    (hcalls : handled.calls = [] ∨ ∃ c : NativeCall F, handled.calls = [c] ∧ c.touchToken = none ∧
      (∀ b, c.pressToken b = none) ∧ c.index = none) : (s.handled handled).Tracks where
  native := hnative ▸ h.native
  balance := by
    rcases hcalls with hnil | ⟨c, hone, ht, hp, hi⟩
    · show Balance (s.calls ++ handled.calls) _ _
      rw [hnil, List.append_nil]
      exact h.balance
    · show Balance (s.calls ++ handled.calls) _ _
      rw [hone]
      exact h.balance.other ht hp hi
  touchscreen := h.touchscreen
  stylus := h.stylus
  mouse := h.mouse
  rmbDown := hrmbDown ▸ h.rmbDown

/-- A touch begins. -/
theorem Tracks.touchscreen_down (h : s.Tracks) (hnone : s.touchscreen = none)
    (hfree : s.view.rmb = true → ¬s.Holds 2) (hdown : event.action = .down) :
    ({ s with touchscreen := some s.view.rmb }.handled (s.view.onTouchscreen event)).Tracks := by
  have hbalance := h.balance
  rw [hnone] at hbalance
  rw [SparkleView.onTouchscreen, hdown]
  dsimp only
  by_cases hrmb : s.view.rmb = true
  · rw [if_pos hrmb, hrmb]
    have hheld := hfree hrmb
    obtain ⟨-, hrest⟩ := not_or.mp hheld
    obtain ⟨hstylus, hmouse⟩ := not_or.mp hrest
    refine ⟨h.native, ?_, fun _ => ⟨hstylus, hmouse⟩, h.stylus, h.mouse,
      iff_of_true rfl (Or.inl rfl)⟩
    show Balance (s.calls ++ ([.pointerMotion event.x event.y] ++ [.pointerButtonDown 2])) false _
    rw [← List.append_assoc]
    refine (hbalance.pointerMotion _ _).press hheld (by decide) fun b => ?_
    simp [Holds, hnone]
  · rw [if_neg hrmb, Bool.not_eq_true _ |>.mp hrmb]
    refine ⟨h.native, ?_, nofun, h.stylus, h.mouse, ?_⟩
    · refine (hbalance.touchDown event.x event.y).congr fun b => ?_
      simp [Holds, hnone]
    · simpa [hnone] using h.rmbDown

/-- A touch ends as it began. -/
theorem Tracks.touchscreen_up (h : s.Tracks) (hmode : s.touchscreen = some s.view.rmbDown)
    (hup : event.action = .up) :
    ({ s with touchscreen := none }.handled (s.view.onTouchscreen event)).Tracks := by
  have hbalance := h.balance
  rw [SparkleView.onTouchscreen, hup]
  dsimp only
  by_cases hrmbDown : s.view.rmbDown = true
  · rw [hrmbDown] at hmode
    rw [if_pos hrmbDown]
    obtain ⟨hstylus, hmouse⟩ := h.touchscreen hmode
    refine ⟨h.native, ?_, nofun, h.stylus, h.mouse, ?_⟩
    · rw [hmode] at hbalance
      refine hbalance.release (Or.inl ⟨hmode, rfl⟩) (by decide) fun b => ?_
      simp only [Holds, handled_touchscreen, handled_stylus, handled_mouse, hmode, reduceCtorEq,
        false_and, false_or, true_and]
      constructor
      · rintro (hb | hb)
        · exact ⟨fun heq => hstylus (heq ▸ hb), Or.inr (Or.inl hb)⟩
        · exact ⟨fun heq => hmouse (heq ▸ hb), Or.inr (Or.inr hb)⟩
      · rintro ⟨hne, hb⟩
        exact hb.resolve_left hne
    · simpa using hstylus
  · rw [Bool.not_eq_true _ |>.mp hrmbDown] at hmode
    rw [if_neg hrmbDown]
    rw [hmode] at hbalance
    refine ⟨h.native, ?_, nofun, h.stylus, h.mouse, ?_⟩
    · refine (hbalance.touchUp event.x event.y).congr fun b => ?_
      simp [Holds, hmode]
    · simpa [hmode] using h.rmbDown

/-- A stroke of the stylus begins. -/
theorem Tracks.stylus_down (h : s.Tracks) (hnone : s.stylus = none)
    (hfree : ¬s.Holds (if s.view.rightButton event then 2 else 1)) (hdown : event.action = .down) :
    ({ s with stylus := some (if s.view.rightButton event then 2 else 1) }.handled
      (s.view.onStylus event)).Tracks := by
  have hmotion := h.balance.pointerMotion event.x event.y
  rw [SparkleView.onStylus, hdown]
  dsimp only
  by_cases hright : s.view.rightButton event = true
  · rw [if_pos hright] at hfree
    rw [if_pos hright, if_pos hright]
    obtain ⟨htouchscreen, hrest⟩ := not_or.mp hfree
    refine ⟨h.native, ?_, fun htrue => absurd ⟨htrue, rfl⟩ htouchscreen, ?_, h.mouse,
      iff_of_true rfl (Or.inr rfl)⟩
    · show Balance (s.calls ++ ([.pointerMotion event.x event.y] ++ [.pointerButtonDown 2])) _ _
      rw [← List.append_assoc]
      refine hmotion.press hfree (by decide) fun b => ?_
      simp only [Holds, handled_touchscreen, handled_stylus, handled_mouse, hnone,
        Option.some.injEq, reduceCtorEq, false_or, eq_comm (a := b)]
      exact or_left_comm
    · rintro b ⟨⟩
      exact ⟨Or.inr rfl, (not_or.mp hrest).2⟩
  · rw [if_neg hright] at hfree
    rw [if_neg hright, if_neg hright]
    have hrest := (not_or.mp (not_or.mp hfree).2).2
    refine ⟨h.native, ?_, fun htrue => ⟨nofun, (h.touchscreen htrue).2⟩, ?_, h.mouse, ?_⟩
    · show Balance (s.calls ++ ([.pointerMotion event.x event.y] ++ [.pointerButtonDown 1])) _ _
      rw [← List.append_assoc]
      refine hmotion.press hfree (by decide) fun b => ?_
      simp only [Holds, handled_touchscreen, handled_stylus, handled_mouse, hnone,
        Option.some.injEq, reduceCtorEq, false_or, eq_comm (a := b)]
      exact or_left_comm
    · rintro b ⟨⟩
      exact ⟨Or.inl rfl, hrest⟩
    · simpa [hnone] using h.rmbDown

/-- A stroke of the stylus ends as it began. -/
theorem Tracks.stylus_up (h : s.Tracks)
    (hmode : s.stylus = some (if s.view.rmbDown then 2 else 1)) (hup : event.action = .up) :
    ({ s with stylus := none }.handled (s.view.onStylus event)).Tracks := by
  have hrelease : ∀ button, s.stylus = some button → (s.touchscreen = some true → button ≠ 2) →
      Balance (s.calls ++ [.pointerButtonUp button]) (decide (s.touchscreen = some false))
        ({ s with stylus := none } : Gestures F).Holds := by
    intro button hbutton htouchscreen
    obtain ⟨hindex, hmouse⟩ := h.stylus button hbutton
    refine h.balance.release (Or.inr (Or.inl hbutton))
      (hindex.elim (fun heq => heq ▸ by decide) fun heq => heq ▸ by decide) fun b => ?_
    simp only [Holds, hbutton, Option.some.injEq, reduceCtorEq, false_or]
    constructor
    · rintro (⟨htrue, rfl⟩ | hb)
      · exact ⟨fun heq => htouchscreen htrue heq.symm, Or.inl ⟨htrue, rfl⟩⟩
      · exact ⟨fun heq => hmouse (heq ▸ hb), Or.inr (Or.inr hb)⟩
    · rintro ⟨hne, htrue | heq | hb⟩
      · exact Or.inl htrue
      · exact absurd heq.symm hne
      · exact Or.inr hb
  rw [SparkleView.onStylus, hup]
  dsimp only
  by_cases hrmbDown : s.view.rmbDown = true
  · rw [if_pos hrmbDown] at hmode
    rw [if_pos hrmbDown]
    have htouchscreen : s.touchscreen ≠ some true := fun htrue => (h.touchscreen htrue).1 hmode
    refine ⟨h.native, hrelease 2 hmode fun htrue => absurd htrue htouchscreen,
      fun htrue => absurd htrue htouchscreen, nofun, h.mouse, ?_⟩
    simpa using htouchscreen
  · rw [if_neg hrmbDown] at hmode
    rw [if_neg hrmbDown]
    refine ⟨h.native, hrelease 1 hmode fun _ => by decide,
      fun htrue => ⟨nofun, (h.touchscreen htrue).2⟩, nofun, h.mouse, ?_⟩
    simpa [hmode] using h.rmbDown

/-- A button of the mouse is pressed. -/
theorem Tracks.mouse_press (h : s.Tracks) (hindex : (buttonMapAt event.actionButton).isSome)
    (hfree : ¬s.Holds event.actionButton) (hpress : event.action = .buttonPress) :
    ({ s with mouse := event.actionButton :: s.mouse }.handled (s.view.onMouse event)).Tracks := by
  rw [SparkleView.onMouse, hpress]
  refine ⟨h.native, ?_, fun htrue => ?_, fun b hb => ?_, fun b hb => ?_, h.rmbDown⟩
  · refine h.balance.press hfree hindex fun b => ?_
    simp only [Holds, handled_touchscreen, handled_stylus, handled_mouse, List.mem_cons]
    grind
  · obtain ⟨hstylus, hmouse⟩ := h.touchscreen htrue
    refine ⟨hstylus, fun hmem => ?_⟩
    rcases List.mem_cons.mp hmem with heq | hold
    · exact hfree (Or.inl ⟨htrue, heq.symm⟩)
    · exact hmouse hold
  · obtain ⟨hindex, hmouse⟩ := h.stylus b hb
    refine ⟨hindex, fun hmem => ?_⟩
    rcases List.mem_cons.mp hmem with heq | hold
    · exact hfree (Or.inr (Or.inl (heq ▸ hb)))
    · exact hmouse hold
  · rcases List.mem_cons.mp hb with heq | hold
    · exact heq ▸ hindex
    · exact h.mouse b hold

/-- A button of the mouse is released. -/
theorem Tracks.mouse_release (h : s.Tracks) (hmem : event.actionButton ∈ s.mouse)
    (hrelease : event.action = .buttonRelease) :
    ({ s with mouse := s.mouse.filter (· ≠ event.actionButton) }.handled
      (s.view.onMouse event)).Tracks := by
  rw [SparkleView.onMouse, hrelease]
  refine ⟨h.native, ?_, fun htrue => ?_, fun b hb => ?_, fun b hb => ?_, h.rmbDown⟩
  · refine h.balance.release (Or.inr (Or.inr hmem)) (h.mouse _ hmem) fun b => ?_
    simp only [Holds, handled_touchscreen, handled_stylus, handled_mouse, List.mem_filter,
      decide_eq_true_eq]
    constructor
    · rintro (⟨htrue, rfl⟩ | hb | ⟨hb, hne⟩)
      · exact ⟨fun heq => (h.touchscreen htrue).2 (heq ▸ hmem), Or.inl ⟨htrue, rfl⟩⟩
      · exact ⟨fun heq => (h.stylus b hb).2 (heq ▸ hmem), Or.inr (Or.inl hb)⟩
      · exact ⟨hne, Or.inr (Or.inr hb)⟩
    · rintro ⟨hne, htrue | hb | hb⟩
      · exact Or.inl htrue
      · exact Or.inr (Or.inl hb)
      · exact Or.inr (Or.inr ⟨hb, hne⟩)
  · obtain ⟨hstylus, hmouse⟩ := h.touchscreen htrue
    exact ⟨hstylus, fun hin => hmouse (List.mem_of_mem_filter hin)⟩
  · obtain ⟨hindex, hmouse⟩ := h.stylus b hb
    exact ⟨hindex, fun hin => hmouse (List.mem_of_mem_filter hin)⟩
  · exact h.mouse b (List.mem_of_mem_filter hb)

/-- The wheel is turned. -/
theorem Tracks.mouse_scroll (h : s.Tracks)
    (hfree : ¬s.Holds (if event.scrollsUp then 5 else 6)) (hscroll : event.action = .scroll) :
    (s.handled (s.view.onMouse event)).Tracks := by
  have hturn : ∀ button : Int32, ¬s.Holds button → (buttonMapAt button).isSome →
      Balance (s.calls ++ ([.pointerButtonDown button] ++ [.pointerButtonUp button]))
        (decide (s.touchscreen = some false)) s.Holds := by
    intro button hbutton hindex
    have hpressed : Balance (s.calls ++ [.pointerButtonDown button])
        (decide (s.touchscreen = some false)) (fun b => b = button ∨ s.Holds b) :=
      h.balance.press hbutton hindex fun b => Iff.rfl
    rw [← List.append_assoc]
    refine hpressed.release (Or.inl rfl) hindex fun b => ⟨fun hb => ⟨?_, Or.inr hb⟩, ?_⟩
    · rintro rfl
      exact hbutton hb
    · rintro ⟨hne, hb⟩
      exact hb.resolve_left hne
  rw [SparkleView.onMouse, hscroll]
  dsimp only
  by_cases hup : event.scrollsUp = true
  · rw [if_pos hup] at hfree
    rw [if_pos hup]
    exact ⟨h.native, hturn 5 hfree (by decide), h.touchscreen, h.stylus, h.mouse, h.rmbDown⟩
  · rw [if_neg hup] at hfree
    rw [if_neg hup]
    exact ⟨h.native, hturn 6 hfree (by decide), h.touchscreen, h.stylus, h.mouse, h.rmbDown⟩

theorem Tracks.onTouchscreen (h : s.Tracks) (hbranch : event.branch = some .touchscreen)
    (hadmits : s.Admits event) (hok : s.Harmless (.motion event)) :
    ((s.progress event).handled (s.view.onTouchscreen event)).Tracks := by
  simp only [Admits, Harmless, progress, hbranch] at hadmits hok ⊢
  cases haction : event.action with
  | down =>
    rw [haction] at hadmits hok
    exact h.touchscreen_down hadmits hok haction
  | up =>
    rw [haction] at hok
    exact h.touchscreen_up hok haction
  | move =>
    rw [haction] at hok
    have hbalance := h.balance
    rw [decide_eq_true hok] at hbalance
    rw [SparkleView.onTouchscreen, haction]
    refine ⟨h.native, ?_, h.touchscreen, h.stylus, h.mouse, h.rmbDown⟩
    rw [handled_touchscreen, decide_eq_true hok]
    exact hbalance.touchMotion event.x event.y
  | cancel =>
    rw [haction] at hok
    exact absurd hok id
  | hoverMove =>
    rw [SparkleView.onTouchscreen, haction]
    exact h.neutral rfl rfl (Or.inr ⟨_, rfl, rfl, fun _ => rfl, rfl⟩)
  | _ =>
    rw [SparkleView.onTouchscreen, haction]
    exact h.neutral rfl rfl (Or.inl rfl)

theorem Tracks.onStylus (h : s.Tracks) (hbranch : event.branch = some .stylus)
    (hadmits : s.Admits event) (hok : s.Harmless (.motion event)) :
    ((s.progress event).handled (s.view.onStylus event)).Tracks := by
  simp only [Admits, Harmless, progress, hbranch] at hadmits hok ⊢
  cases haction : event.action with
  | down =>
    rw [haction] at hadmits hok
    exact h.stylus_down hadmits hok haction
  | up =>
    rw [haction] at hok
    exact h.stylus_up hok haction
  | cancel =>
    rw [haction] at hok
    exact absurd hok id
  | move | hoverMove =>
    rw [SparkleView.onStylus, haction]
    exact h.neutral rfl rfl (Or.inr ⟨_, rfl, rfl, fun _ => rfl, rfl⟩)
  | _ =>
    rw [SparkleView.onStylus, haction]
    exact h.neutral rfl rfl (Or.inl rfl)

theorem Tracks.onMouse (h : s.Tracks) (hbranch : event.branch = some .mouse)
    (hadmits : s.Admits event) (hok : s.Harmless (.motion event)) :
    ((s.progress event).handled (s.view.onMouse event)).Tracks := by
  simp only [Admits, Harmless, progress, hbranch] at hadmits hok ⊢
  cases haction : event.action with
  | buttonPress =>
    rw [haction] at hok
    exact h.mouse_press hok.1 hok.2 haction
  | buttonRelease =>
    rw [haction] at hadmits
    exact h.mouse_release hadmits haction
  | scroll =>
    rw [haction] at hok
    exact h.mouse_scroll hok haction
  | move | hoverMove =>
    rw [SparkleView.onMouse, haction]
    exact h.neutral rfl rfl (Or.inr ⟨_, rfl, rfl, fun _ => rfl, rfl⟩)
  | _ =>
    rw [SparkleView.onMouse, haction]
    exact h.neutral rfl rfl (Or.inl rfl)

theorem Tracks.motion (h : s.Tracks) (hadmits : s.Admits event)
    (hok : s.Harmless (.motion event)) :
    ((s.progress event).handled (s.view.onMotionEvent event)).Tracks := by
  rw [SparkleView.onMotionEvent, if_neg h.native]
  cases hbranch : event.branch with
  | none =>
    have hsame : s.progress event = s := by simp [progress, hbranch]
    rw [hsame]
    exact h.neutral rfl rfl (Or.inl rfl)
  | some source =>
    cases source with
    | touchscreen => exact h.onTouchscreen hbranch hadmits hok
    | stylus => exact h.onStylus hbranch hadmits hok
    | mouse => exact h.onMouse hbranch hadmits hok

/-- The keys only change `rmb_`. -/
theorem Tracks.key (h : s.Tracks) (rmb : Bool) {c : NativeCall F} {result : Bool}
    (ht : c.touchToken = none) (hp : ∀ b, c.pressToken b = none) (hi : c.index = none) :
    (s.handled ⟨{ s.view with rmb := rmb }, [c], result⟩).Tracks :=
  h.neutral rfl rfl (Or.inr ⟨c, rfl, ht, hp, hi⟩)

theorem onKeyDown_eq (hnative : s.view.native ≠ 0) {event : KeyEvent}
    (hback : ¬(event.keyCode = keycodeBack ∧ hasSource event.source sourceMouse)) :
    s.view.onKeyDown (F := F) event =
      ⟨{ s.view with rmb := s.view.rmb || event.keyCode == keycodeVolumeDown },
        [.keyDown event.keyCode], true⟩ := by
  rw [SparkleView.onKeyDown, if_neg hnative, if_neg hback]
  split
  case isTrue heq => simp [heq]
  case isFalse hne => rw [beq_false_of_ne hne, Bool.or_false]

theorem onKeyUp_eq (hnative : s.view.native ≠ 0) {event : KeyEvent}
    (hback : ¬(event.keyCode = keycodeBack ∧ hasSource event.source sourceMouse)) :
    s.view.onKeyUp (F := F) event =
      ⟨{ s.view with rmb := s.view.rmb && event.keyCode != keycodeVolumeDown },
        [.keyUp event.keyCode], true⟩ := by
  rw [SparkleView.onKeyUp, if_neg hnative, if_neg hback]
  split
  case isTrue heq => simp [heq]
  case isFalse hne => rw [bne_iff_ne.mpr hne, Bool.and_true]

theorem Tracks.step (h : s.Tracks) {a : Label F} (hok : s.Harmless a)
    (hstep : s.step a = some t) : t.Tracks := by
  cases a with
  | motion event =>
    obtain ⟨hadmits, ht⟩ := Option.ite_none_right_eq_some.mp hstep
    cases ht
    exact h.motion hadmits hok
  | keyDown event =>
    obtain ⟨hback, ht⟩ := Option.ite_none_left_eq_some.mp hstep
    rw [onKeyDown_eq h.native hback] at ht
    cases ht
    exact h.key _ rfl (fun _ => rfl) rfl
  | keyUp event =>
    obtain ⟨hback, ht⟩ := Option.ite_none_left_eq_some.mp hstep
    rw [onKeyUp_eq h.native hback] at ht
    cases ht
    exact h.key _ rfl (fun _ => rfl) rfl

theorem tracks_shown {native : UInt64} (h : native ≠ 0) : (shown native : Gestures F).Tracks where
  native := h
  balance := ⟨rfl, fun b hb => by simp [Holds, shown] at hb, fun _ _ => rfl, nofun⟩
  touchscreen := nofun
  stylus := nofun
  mouse := nofun
  rmbDown := by simp [shown]

/-! ## Harmful events -/

theorem fails_of_calls (h : ¬WellFormedCalls s.calls) : careful.Fails Proper s :=
  Machine.fails_of_not fun hproper => h hproper.wellFormed

section Calls

variable {calls : List (NativeCall F)} {button : Int32}

/-- A second touch. -/
theorem not_wellFormed_touchDown (h : Sessions.scan (touches calls) = some (some ())) (x y : F) :
    ¬WellFormedCalls (calls ++ [.touchDown 0 x y]) := by
  intro hwell
  obtain ⟨o, ho⟩ := Sessions.exists_append_mem_iff.mp hwell.touches
  rw [touches_concat (e := .opens ()) rfl, Sessions.scan_concat, h] at ho
  cases ho

/-- A move without a touch. -/
theorem not_wellFormed_touchMotion (h : Sessions.scan (touches calls) = some none) (x y : F) :
    ¬WellFormedCalls (calls ++ [.touchMotion 0 x y]) := by
  intro hwell
  obtain ⟨o, ho⟩ := Sessions.exists_append_mem_iff.mp hwell.touches
  rw [touches_concat (e := .within) rfl, Sessions.scan_concat, h] at ho
  cases ho

/-- A button that is pressed while it is down. -/
theorem not_wellFormed_press (h : Sessions.scan (presses button calls) = some (some ()))
    (rest : List (NativeCall F)) :
    ¬WellFormedCalls (calls ++ [.pointerButtonDown button] ++ rest) := by
  intro hwell
  obtain ⟨o, ho⟩ := Sessions.exists_append_mem_iff.mp (hwell.presses button)
  have hpress : NativeCall.pressToken (F := F) button (.pointerButtonDown button) =
      some (.opens ()) := if_pos rfl
  rw [presses, List.filterMap_append, ← presses, presses_concat hpress, Sessions.scan_append,
    Sessions.scan_concat, h] at ho
  cases ho

end Calls

/-- The volume key sets `rmb_` either way. -/
theorem key_step (hnative : s.view.native ≠ 0) (rmb : Bool) : ∃ a c,
    s.Harmless a ∧ s.step a = some (s.handled ⟨{ s.view with rmb := rmb }, [c], true⟩) ∧
      c.touchToken = none ∧ ∀ b, c.pressToken b = none := by
  have hback : ¬(keycodeVolumeDown = keycodeBack ∧ hasSource 0 sourceMouse) := by decide
  cases rmb with
  | true =>
    refine ⟨.keyDown ⟨keycodeVolumeDown, 0⟩, .keyDown keycodeVolumeDown, trivial, ?_, rfl,
      fun _ => rfl⟩
    rw [step, if_neg hback, onKeyDown_eq hnative hback]
    simp
  | false =>
    refine ⟨.keyUp ⟨keycodeVolumeDown, 0⟩, .keyUp keycodeVolumeDown, trivial, ?_, rfl,
      fun _ => rfl⟩
    rw [step, if_neg hback, onKeyUp_eq hnative hback]
    simp

theorem branch_touchscreen (h : event.source = sourceTouchscreen) :
    event.branch = some .touchscreen := by
  rw [MotionEvent.branch, h, if_pos (by decide)]

theorem branch_stylus (h : event.source = sourceStylus) : event.branch = some .stylus := by
  rw [MotionEvent.branch, h, if_neg (by decide), if_pos (by decide)]

/-- The next touch, where one was never lifted. -/
theorem spoiled_touch (hnative : s.view.native ≠ 0) (hnone : s.touchscreen = none)
    (hdown : Sessions.scan (touches s.calls) = some (some ())) (x y : F) :
    careful.Fails Proper s := by
  obtain ⟨a, c, hok, hstep, ht, -⟩ := key_step hnative false
  refine Machine.guarded_fails_of_step hstep hok ?_
  have hbranch : (⟨sourceTouchscreen, .down, x, y, 0, 0, false⟩ : MotionEvent F).branch = _ :=
    branch_touchscreen rfl
  refine Machine.guarded_fails_of_step
    (a := .motion ⟨sourceTouchscreen, .down, x, y, 0, 0, false⟩) (if_pos ?_) ?_
    (fails_of_calls ?_)
  · simpa [Admits, hbranch] using hnone
  · simp [Harmless, hbranch]
  · have hcalls := not_wellFormed_touchDown (by rw [touches_concat_of_none ht, hdown]) x y
    simpa [SparkleView.onMotionEvent, SparkleView.onTouchscreen, hnative, hbranch] using hcalls

/-- The next press of the right button on the touchscreen, where one was never released. -/
theorem spoiled_right (hnative : s.view.native ≠ 0) (hnone : s.touchscreen = none)
    (hfree : ¬s.Holds 2) (hdown : Sessions.scan (presses 2 s.calls) = some (some ())) (x y : F) :
    careful.Fails Proper s := by
  obtain ⟨a, c, hok, hstep, -, hp⟩ := key_step hnative true
  refine Machine.guarded_fails_of_step hstep hok ?_
  have hbranch : (⟨sourceTouchscreen, .down, x, y, 0, 0, false⟩ : MotionEvent F).branch = _ :=
    branch_touchscreen rfl
  refine Machine.guarded_fails_of_step
    (a := .motion ⟨sourceTouchscreen, .down, x, y, 0, 0, false⟩) (if_pos ?_) ?_
    (fails_of_calls ?_)
  · simpa [Admits, hbranch] using hnone
  · simpa [Harmless, hbranch] using hfree
  · have hstill : Sessions.scan (presses 2 (s.calls ++ [c] ++ [.pointerMotion x y])) =
        some (some ()) := by
      rw [presses_concat_of_none rfl, presses_concat_of_none (hp 2), hdown]
    have hcalls := not_wellFormed_press hstill []
    simpa [SparkleView.onMotionEvent, SparkleView.onTouchscreen, hnative, hbranch] using hcalls

/-- The next stroke of the stylus, where its button was never released. -/
theorem spoiled_stylus (hnative : s.view.native ≠ 0) (hnone : s.stylus = none) (right : Bool)
    (hfree : ¬s.Holds (if right then 2 else 1))
    (hdown : Sessions.scan (presses (if right then 2 else 1) s.calls) = some (some ())) (x y : F) :
    careful.Fails Proper s := by
  obtain ⟨a, c, hok, hstep, -, hp⟩ := key_step hnative right
  refine Machine.guarded_fails_of_step hstep hok ?_
  have hbranch : (⟨sourceStylus, .down, x, y, 0, 0, false⟩ : MotionEvent F).branch = _ :=
    branch_stylus rfl
  have hright : ({ s.view with rmb := right } : SparkleView).rightButton
      (⟨sourceStylus, .down, x, y, 0, 0, false⟩ : MotionEvent F) = right := by
    have hstate : ((0 : Int32) &&& buttonStylusPrimary == buttonStylusPrimary) = false := by decide
    rw [SparkleView.rightButton, hstate, Bool.or_false]
  refine Machine.guarded_fails_of_step
    (a := .motion ⟨sourceStylus, .down, x, y, 0, 0, false⟩) (if_pos ?_) ?_ (fails_of_calls ?_)
  · simpa [Admits, hbranch] using hnone
  · simpa [Harmless, hbranch, hright] using hfree
  · have hstill : Sessions.scan (presses (if right then 2 else 1)
        (s.calls ++ [c] ++ [.pointerMotion x y])) = some (some ()) := by
      rw [presses_concat_of_none rfl, presses_concat_of_none (hp _), hdown]
    have hcalls := not_wellFormed_press hstill []
    cases right <;>
      simpa [SparkleView.onMotionEvent, SparkleView.onStylus, hnative, hbranch, hright] using hcalls

theorem Tracks.spoiled_press (h : s.Tracks) {button : Int32} (hheld : s.Holds button)
    (calls rest : List (NativeCall F)) (hp : ∀ c ∈ calls, c.pressToken button = none)
    (ht : t.calls = s.calls ++ (calls ++ ([.pointerButtonDown button] ++ rest))) :
    careful.Fails Proper t := by
  refine fails_of_calls ?_
  rw [ht, ← List.append_assoc, ← List.append_assoc]
  refine not_wellFormed_press ?_ rest
  rw [presses, List.filterMap_append, List.filterMap_eq_nil_iff.mpr hp, List.append_nil]
  exact h.balance.down button hheld

/-- A gesture on the touchscreen that goes on, or ends, as it should not. -/
theorem Tracks.spoiled_touchscreen (h : s.Tracks) (hbranch : event.branch = some .touchscreen)
    (hadmits : s.Admits event) (hharm : ¬s.Harmless (.motion event)) :
    careful.Fails Proper ((s.progress event).handled (s.view.onTouchscreen event)) := by
  simp only [Admits, Harmless, hbranch] at hadmits hharm
  cases haction : event.action with
  | down =>
    rw [haction] at hharm
    obtain ⟨hrmb, hheld⟩ := Classical.not_imp.mp hharm
    rw [SparkleView.onTouchscreen, haction]
    dsimp only
    rw [if_pos hrmb]
    refine h.spoiled_press (not_not.mp hheld) [.pointerMotion event.x event.y] []
      (by simp [NativeCall.pressToken]) ?_
    simp
  | move =>
    rw [haction] at hharm
    rw [SparkleView.onTouchscreen, haction]
    have hup := h.balance.touches
    rw [decide_eq_false hharm] at hup
    refine fails_of_calls ?_
    rw [handled_calls, progress_calls]
    exact not_wellFormed_touchMotion hup event.x event.y
  | up =>
    rw [haction] at hadmits hharm
    obtain ⟨right, hmode⟩ := Option.ne_none_iff_exists'.mp hadmits
    have hne : s.touchscreen ≠ some s.view.rmbDown := hharm
    rw [hmode, Ne, Option.some.injEq] at hne
    rw [SparkleView.onTouchscreen, haction]
    dsimp only
    cases right with
    | true => exact absurd (h.rmbDown.mpr (Or.inl hmode)).symm hne
    | false =>
      -- it is the stroke of a stylus that is ended
      have hrmbDown : s.view.rmbDown = true := (Bool.eq_false_or_eq_true _).resolve_right
        fun hfalse => hne hfalse.symm
      rw [if_pos hrmbDown]
      refine spoiled_touch h.native ?_ ?_ event.x event.y
      · simp [progress, hbranch, haction]
      · have hdown := h.balance.touches
        rw [decide_eq_true hmode] at hdown
        rw [handled_calls, progress_calls, touches_concat_of_none rfl, hdown]
        rfl
  | cancel =>
    rw [haction] at hadmits
    obtain ⟨right, hmode⟩ := Option.ne_none_iff_exists'.mp hadmits
    rw [SparkleView.onTouchscreen, haction]
    dsimp only
    have hgone : (s.progress event).touchscreen = none := by simp [progress, hbranch, haction]
    cases right with
    | true =>
      have hheld : s.Holds 2 := Or.inl ⟨hmode, rfl⟩
      refine spoiled_right h.native hgone ?_ ?_ event.x event.y
      · simpa [Holds, progress, hbranch, haction] using h.touchscreen hmode
      · simpa using h.balance.down 2 hheld
    | false =>
      have hdown := h.balance.touches
      rw [decide_eq_true hmode] at hdown
      refine spoiled_touch h.native hgone ?_ event.x event.y
      simpa using hdown
  | _ =>
    rw [haction] at hharm
    exact absurd trivial hharm

/-- The same of the stylus. -/
theorem Tracks.spoiled_stroke (h : s.Tracks) (hbranch : event.branch = some .stylus)
    (hadmits : s.Admits event) (hharm : ¬s.Harmless (.motion event)) :
    careful.Fails Proper ((s.progress event).handled (s.view.onStylus event)) := by
  simp only [Admits, Harmless, hbranch] at hadmits hharm
  cases haction : event.action with
  | down =>
    rw [haction] at hharm
    have hheld := not_not.mp hharm
    rw [SparkleView.onStylus, haction]
    dsimp only
    refine h.spoiled_press hheld [.pointerMotion event.x event.y] []
      (by simp [NativeCall.pressToken]) ?_
    cases hright : s.view.rightButton event <;> simp
  | up =>
    rw [haction] at hadmits hharm
    obtain ⟨button, hmode⟩ := Option.ne_none_iff_exists'.mp hadmits
    obtain ⟨hbutton, hmouse⟩ := h.stylus button hmode
    rw [SparkleView.onStylus, haction]
    dsimp only
    rcases hbutton with rfl | rfl
    · -- it is the press of the right button on the touchscreen that is ended
      have hrmbDown : s.view.rmbDown = true := by
        by_contra hfalse
        rw [if_neg hfalse] at hharm
        exact hharm hmode
      rw [if_pos hrmbDown]
      refine spoiled_stylus h.native ?_ false ?_ ?_ event.x event.y
      · simp [progress, hbranch, haction]
      · simpa [Holds, progress, hbranch, haction] using hmouse
      · have hdown := h.balance.down 1 (Or.inr (Or.inl hmode))
        rw [handled_calls, progress_calls]
        exact (congrArg _ (presses_concat_of_none rfl)).trans hdown
    · rw [if_pos (h.rmbDown.mpr (Or.inr hmode))] at hharm
      exact absurd hmode hharm
  | cancel =>
    rw [haction] at hadmits
    obtain ⟨button, hmode⟩ := Option.ne_none_iff_exists'.mp hadmits
    obtain ⟨hbutton, hmouse⟩ := h.stylus button hmode
    have hdown := h.balance.down button (Or.inr (Or.inl hmode))
    have hgone : (s.progress event).stylus = none := by simp [progress, hbranch, haction]
    rw [SparkleView.onStylus, haction]
    dsimp only
    rcases hbutton with rfl | rfl
    · refine spoiled_stylus h.native hgone false ?_ (by simpa using hdown) event.x event.y
      simpa [Holds, progress, hbranch, haction] using hmouse
    · have hother : s.touchscreen ≠ some true := fun htrue => (h.touchscreen htrue).1 hmode
      refine spoiled_stylus h.native hgone true ?_ (by simpa using hdown) event.x event.y
      simpa [Holds, progress, hbranch, haction] using ⟨hother, hmouse⟩
  | _ =>
    rw [haction] at hharm
    exact absurd trivial hharm

/-- The same of the mouse. -/
theorem Tracks.spoiled_mouse (h : s.Tracks) (hbranch : event.branch = some .mouse)
    (hharm : ¬s.Harmless (.motion event)) :
    careful.Fails Proper ((s.progress event).handled (s.view.onMouse event)) := by
  simp only [Harmless, hbranch] at hharm
  cases haction : event.action with
  | buttonPress =>
    rw [haction] at hharm
    rw [SparkleView.onMouse, haction]
    by_cases hindex : (buttonMapAt event.actionButton).isSome
    · have hheld := not_not.mp fun hfree => hharm ⟨hindex, hfree⟩
      refine h.spoiled_press hheld [] [] (by simp) ?_
      simp
    · refine fails_of_calls fun hwell => hindex (hwell.indices _ ?_)
      simp [NativeCall.index]
  | scroll =>
    rw [haction] at hharm
    have hheld := not_not.mp hharm
    rw [SparkleView.onMouse, haction]
    dsimp only
    refine h.spoiled_press hheld [] [.pointerButtonUp (if event.scrollsUp then 5 else 6)]
      (by simp) ?_
    cases event.scrollsUp <;> simp
  | _ =>
    rw [haction] at hharm
    exact absurd trivial hharm

theorem spoiled_of_not_harmless (h : s.Tracks) {a : Label F} (hharm : ¬s.Harmless a)
    (hstep : s.step a = some t) :
    careful.Fails Proper t := by
  cases a with
  | motion event =>
    obtain ⟨hadmits, ht⟩ := Option.ite_none_right_eq_some.mp hstep
    cases ht
    rw [SparkleView.onMotionEvent, if_neg h.native]
    cases hbranch : event.branch with
    | none => exact absurd (by simp [Harmless, hbranch]) hharm
    | some source =>
      cases source with
      | touchscreen => exact h.spoiled_touchscreen hbranch hadmits hharm
      | stylus => exact h.spoiled_stroke hbranch hadmits hharm
      | mouse => exact h.spoiled_mouse hbranch hharm
  | keyDown event => exact absurd trivial hharm
  | keyUp event => exact absurd trivial hharm

/-- **Gestures**: in every run of harmless events the calls are well formed, and complete where
nothing is in progress; and a next event keeps it so, however such a run goes on, exactly if it
is harmless. -/
theorem proper_guarded_iff {as : List (Label F)} (h : careful.Reaches as s) :
    s.Proper ∧ ∀ a t, machine.step s a t →
      ((∀ bs u, careful.Path t bs u → u.Proper) ↔ s.Harmless a) := by
  refine Machine.guarded_exact (I := Tracks) ?_ ?_ (fun s hs => hs.proper) ?_ h
  · rintro s ⟨native, hnative, rfl⟩
    exact tracks_shown hnative
  · intro s a t hs hok hstep
    exact hs.step hok hstep
  · intro s a t hs hharm hstep
    exact spoiled_of_not_harmless hs hharm hstep

/-- An event of a touchscreen at the origin. -/
def touchEvent (action : MotionAction) : Label Nat :=
  .motion ⟨sourceTouchscreen, action, 0, 0, 0, 0, false⟩

/-- An event of a mouse. -/
def mouseEvent (action : MotionAction) (button : Int32) : Label Nat :=
  .motion ⟨sourceMouse, action, 0, 0, 0, button, false⟩

/-- The volume key goes down in the middle of a touch, and stays down for the next one; a mouse is
clicked in between. -/
def tapped : List (Label Nat) :=
  [touchEvent .down, .keyDown ⟨keycodeVolumeDown, 0⟩, touchEvent .move, touchEvent .up,
    mouseEvent .buttonPress 4, touchEvent .down, .keyUp ⟨keycodeVolumeDown, 0⟩,
    mouseEvent .buttonRelease 4, touchEvent .up]

theorem tapped_proper :
    ∃ s : Gestures Nat, careful.Reaches tapped s ∧
      s.calls = [.touchDown 0 0 0, .keyDown 25, .touchMotion 0 0 0, .touchUp 0 0 0,
        .pointerButtonDown 4, .pointerMotion 0 0, .pointerButtonDown 2, .keyUp 25,
        .pointerButtonUp 4, .pointerButtonUp 2] ∧ s.Proper := by
  have hrun : (tapped.foldlM (fun s a => if Harmless s a then step s a else none)
      (shown 1)).map Gestures.calls =
      some [.touchDown 0 0 0, .keyDown 25, .touchMotion 0 0 0, .touchUp 0 0 0,
        .pointerButtonDown 4, .pointerMotion 0 0, .pointerButtonDown 2, .keyUp 25,
        .pointerButtonUp 4, .pointerButtonUp 2] := by
    decide +kernel
  obtain ⟨s, hs, hcalls⟩ := Option.map_eq_some_iff.mp hrun
  have hreaches : careful.Reaches tapped s :=
    ⟨_, ⟨1, by decide, rfl⟩, Machine.Path.of_guarded_run hs⟩
  exact ⟨s, hreaches, hcalls, (proper_guarded_iff hreaches).1⟩

/-- While the volume key is held, a finger moves. -/
def dragged : List (Label Nat) :=
  [.keyDown ⟨keycodeVolumeDown, 0⟩, touchEvent .down, touchEvent .move, touchEvent .up]

theorem dragged_motion :
    ∃ s : Gestures Nat, machine.Reaches dragged s ∧
      s.calls = [.keyDown 25, .pointerMotion 0 0, .pointerButtonDown 2, .touchMotion 0 0 0,
        .pointerButtonUp 2] ∧ ¬s.Proper := by
  have hrun : (dragged.foldlM step (shown 1)).map Gestures.calls =
      some [.keyDown 25, .pointerMotion 0 0, .pointerButtonDown 2, .touchMotion 0 0 0,
        .pointerButtonUp 2] := by
    decide +kernel
  obtain ⟨s, hs, hcalls⟩ := Option.map_eq_some_iff.mp hrun
  refine ⟨s, ⟨_, ⟨1, by decide, rfl⟩, Machine.Path.of_run hs⟩, hcalls, fun hproper => ?_⟩
  -- the calls for touch 0 are a single move
  have htouches := hproper.wellFormed.touches
  rw [hcalls, Sessions.exists_append_mem_iff] at htouches
  obtain ⟨o, ho⟩ := htouches
  cases ho

end Gestures

end SparkleWayland

import SparkleWayland.Android.Native
import SparkleWayland.Sparkle.Hearing

/-!
# From the screen to the client (`sparkle_common/sparkle_touch.h`, `sparkle_keyboard.h`)

What a view emits on its surface comes to the devices of the client, and they send it on: a touch
device puts a frame behind each event, and a keyboard takes 8 from the key. Between what
Android delivers and what the client receives stand the view's handlers, the native methods, the
signals of the surface and the registrations. `touches_delivered` and `keys_delivered` go all the
way: what is well formed on one side is so on the other, in whatever run of the server.
-/

namespace SparkleWayland

/-- The events of `wl_touch`. -/
inductive TouchEvent where
  | down (surface : Nat) (id x y : Int32)
  | up (id : Int32)
  | motion (id x y : Int32)
  | frame
  deriving DecidableEq, Repr

/-- The events of `wl_keyboard`. -/
inductive KeyboardEvent where
  | enter (surface : Nat)
  | leave (surface : Nat)
  | key (key : Int32) (pressed : Bool)
  deriving DecidableEq, Repr

/-- `wl_fixed_from_int` -/
def fixedFromInt (i : Int32) : Int32 := i * 256

/-- What the methods of `sparkle_touch` send. -/
def SparkleTouch.events : DeviceCall → List TouchEvent
  | .down surface id x y => [.down surface id (fixedFromInt x) (fixedFromInt y), .frame]
  | .up _ id _ _ => [.up id, .frame]
  | .touchMotion _ id x y => [.motion id (fixedFromInt x) (fixedFromInt y), .frame]
  | _ => []

/-- What the methods of `sparkle_keyboard` send. -/
def SparkleKeyboard.events : DeviceCall → List KeyboardEvent
  | .keyPress code => [.key (code - 8) true]
  | .keyRelease code => [.key (code - 8) false]
  | .enter surface => [.enter surface]
  | .leave surface => [.leave surface]
  | _ => []

/-! ## What a client should receive -/

/-- What an event does to touch 0. -/
def TouchEvent.token : TouchEvent → Option (SessionToken Unit)
  | down _ id _ _ => if id = 0 then some (.opens ()) else none
  | motion id _ _ => if id = 0 then some .within else none
  | up id => if id = 0 then some (.closes ()) else none
  | frame => none

/-- The touch that an event is for. -/
def TouchEvent.id? : TouchEvent → Option Int32
  | down _ id _ _ | motion id _ _ | up id => some id
  | frame => none

/-- What an event does to a key. -/
def KeyboardEvent.token (key : Int32) : KeyboardEvent → Option (SessionToken Unit)
  | .key k pressed => if k = key then some (if pressed then .opens () else .closes ()) else none
  | _ => none

/-- The trace of a touch device: one touch that goes down, moves and goes up, and then the next one,
with a frame behind every event. -/
structure TouchTrace (trace : List TouchEvent) : Prop where
  framed : ∃ events : List TouchEvent, .frame ∉ events ∧
    trace = events.flatMap fun e => [e, .frame]
  single : ∀ e ∈ trace, ∀ id, e.id? = some id → id = 0
  sessions : ∃ rest, trace.filterMap TouchEvent.token ++ rest ∈ Sessions.language Unit

/-! ## What a view emits -/

section View

variable {F : Type} {toInt : F → Int32}

/-- What an input does to touch 0. -/
def Input.touchToken : Input → Option (SessionToken Unit)
  | touchDown id _ _ => if id = 0 then some (.opens ()) else none
  | touchMotion id _ _ => if id = 0 then some .within else none
  | touchUp id _ _ => if id = 0 then some (.closes ()) else none
  | _ => none

/-- The touch that an input is for. -/
def Input.touchId? : Input → Option Int32
  | touchDown id _ _ | touchMotion id _ _ | touchUp id _ _ => some id
  | _ => none

def NativeCall.touchId? : NativeCall F → Option Int32
  | touchDown id _ _ | touchMotion id _ _ | touchUp id _ _ => some id
  | _ => none

/-- One call emits what it is for. -/
theorem NativeCall.emits_touch {c : NativeCall F} {new : List Input}
    (h : c.emits toInt = some new) :
    new.filterMap Input.touchToken = c.touchToken.toList ∧
      ∀ i ∈ new, ∀ id, i.touchId? = some id → c.touchId? = some id := by
  cases c with
  | keyDown code | keyUp code =>
    obtain ⟨x, -, rfl⟩ := Option.map_eq_some_iff.mp h
    split
    · exact ⟨rfl, fun i hi id hid => by rw [List.mem_singleton.mp hi] at hid; cases hid⟩
    · exact ⟨rfl, fun i hi => by cases hi⟩
  | pointerButtonDown button | pointerButtonUp button =>
    obtain ⟨x, -, rfl⟩ := Option.map_eq_some_iff.mp h
    exact ⟨rfl, fun i hi id hid => by rw [List.mem_singleton.mp hi] at hid; cases hid⟩
  | pointerMotion x y =>
    cases h
    exact ⟨rfl, fun i hi id hid => by rw [List.mem_singleton.mp hi] at hid; cases hid⟩
  | touchDown k x y | touchUp k x y | touchMotion k x y =>
    cases h
    refine ⟨?_, fun i hi id hid => by rw [List.mem_singleton.mp hi] at hid; exact hid⟩
    by_cases hk : k = 0 <;> simp [Input.touchToken, NativeCall.touchToken, hk]

/-- What is emitted is what was called, touch by touch. -/
theorem emitted_touches {calls : List (NativeCall F)} {inputs : List Input}
    (h : emitted toInt calls = some inputs) :
    inputs.filterMap Input.touchToken = touches calls ∧
      ∀ i ∈ inputs, ∀ id, i.touchId? = some id → ∃ c ∈ calls, c.touchId? = some id := by
  induction calls using List.reverseRecOn generalizing inputs with
  | nil =>
    cases h
    exact ⟨rfl, fun i hi => by cases hi⟩
  | append_singleton calls c ih =>
    rw [emitted_concat] at h
    obtain ⟨before, hbefore, h⟩ := Option.bind_eq_some_iff.mp h
    obtain ⟨new, hnew, rfl⟩ := Option.map_eq_some_iff.mp h
    obtain ⟨htokens, hids⟩ := ih hbefore
    obtain ⟨htoken, hid⟩ := NativeCall.emits_touch hnew
    refine ⟨?_, fun i hi id hidi => ?_⟩
    · rw [List.filterMap_append, htokens, htoken, touches, touches, List.filterMap_append]
      cases htouch : c.touchToken <;> simp [htouch]
    · rcases List.mem_append.mp hi with hi | hi
      · obtain ⟨c', hc', hid'⟩ := hids i hi id hidi
        exact ⟨c', List.mem_append_left _ hc', hid'⟩
      · exact ⟨c, List.mem_concat_self, hid i hi id hidi⟩

/-- The handlers know of one touch. -/
theorem SparkleView.onMotionEvent_touchId (view : SparkleView) (event : MotionEvent F) :
    ∀ c ∈ (view.onMotionEvent event).calls, ∀ id, c.touchId? = some id → id = 0 := by
  have htouchscreen : ∀ c ∈ (view.onTouchscreen event).calls, ∀ id, c.touchId? = some id →
      id = 0 := by
    unfold SparkleView.onTouchscreen
    split <;> first | split <;> simp [NativeCall.touchId?] | simp [NativeCall.touchId?]
  have hstylus : ∀ c ∈ (view.onStylus event).calls, ∀ id, c.touchId? = some id → id = 0 := by
    unfold SparkleView.onStylus
    split <;> first | split <;> simp [NativeCall.touchId?] | simp [NativeCall.touchId?]
  have hmouse : ∀ c ∈ (view.onMouse event).calls, ∀ id, c.touchId? = some id → id = 0 := by
    unfold SparkleView.onMouse
    split <;> first | split <;> simp [NativeCall.touchId?] | simp [NativeCall.touchId?]
  unfold SparkleView.onMotionEvent
  split
  · simp
  · split
    · exact htouchscreen
    · exact hstylus
    · exact hmouse
    · simp

theorem SparkleView.key_touchId (view : SparkleView) (event : KeyEvent) :
    (∀ c ∈ (view.onKeyDown event : Handled F).calls, c.touchId? = none) ∧
      ∀ c ∈ (view.onKeyUp event : Handled F).calls, c.touchId? = none := by
  constructor
  · unfold SparkleView.onKeyDown
    repeat' split
    all_goals simp [NativeCall.touchId?]
  · unfold SparkleView.onKeyUp
    repeat' split
    all_goals simp [NativeCall.touchId?]

theorem Gestures.touchId_eq {es : List (Gestures.Label F)} {g : Gestures F}
    (h : Gestures.machine.Reaches es g) : ∀ c ∈ g.calls, ∀ id, c.touchId? = some id → id = 0 := by
  refine Machine.invariant
    (I := fun g : Gestures F => ∀ c ∈ g.calls, ∀ id, c.touchId? = some id → id = 0) ?_ ?_ h
  · rintro _ ⟨native, -, rfl⟩ c hc
    cases hc
  · intro g a g' hg hstep c hc id hid
    cases a with
    | motion event =>
      obtain ⟨-, hg'⟩ := Option.ite_none_right_eq_some.mp hstep
      cases hg'
      rw [Gestures.handled_calls, Gestures.progress_calls] at hc
      rcases List.mem_append.mp hc with hc | hc
      · exact hg c hc id hid
      · exact g.view.onMotionEvent_touchId event c hc id hid
    | keyDown event =>
      obtain ⟨-, hg'⟩ := Option.ite_none_left_eq_some.mp hstep
      cases hg'
      rcases List.mem_append.mp hc with hc | hc
      · exact hg c hc id hid
      · rw [(g.view.key_touchId event).1 c hc] at hid
        cases hid
    | keyUp event =>
      obtain ⟨-, hg'⟩ := Option.ite_none_left_eq_some.mp hstep
      cases hg'
      rcases List.mem_append.mp hc with hc | hc
      · exact hg c hc id hid
      · rw [(g.view.key_touchId event).2 c hc] at hid
        cases hid

end View

/-! ## All the way -/

section Delivery

variable {Client : Type} [DecidableEq Client] {F : Type} {toInt : F → Int32}
  {as bs : List (Sparkle.Label Client)} {s t : Sparkle Client} {client : Client}

/-- The inputs of a kind among those of a view, as they come to the surface. -/
def onSurface (surface : Nat) (kind : DeviceKind) (inputs : List Input) : List (Nat × Input) :=
  (inputs.filter fun i => i.signal.kind = kind).map fun i => (surface, i)

/-- An input for a touch device makes it send an event and a frame. -/
theorem touch_events (surface : Nat) {i : Input} (hi : i.signal.kind = .touch) :
    ∃ e, e ≠ .frame ∧ SparkleTouch.events (i.call surface) = [e, .frame] ∧
      e.token = i.touchToken ∧ e.id? = i.touchId? := by
  cases i with
  | touchDown id x y => exact ⟨.down surface id _ _, nofun, rfl, rfl, rfl⟩
  | touchUp id x y => exact ⟨.up id, nofun, rfl, rfl, rfl⟩
  | touchMotion id x y => exact ⟨.motion id _ _, nofun, rfl, rfl, rfl⟩
  | keyDown | keyUp | pointerButtonDown | pointerButtonUp | pointerMotion | pointerEnter
  | pointerLeave => cases hi

/-- An input of another kind is for no touch. -/
theorem touchToken_of_ne {i : Input} (hi : i.signal.kind ≠ .touch) : i.touchToken = none := by
  cases i with
  | touchDown | touchUp | touchMotion => exact absurd rfl hi
  | keyDown | keyUp | pointerButtonDown | pointerButtonUp | pointerMotion | pointerEnter
  | pointerLeave => rfl

/-- What a touch device sends for the inputs of a view. -/
theorem touchTrace_of_inputs (surface : Nat) {inputs : List Input}
    (hids : ∀ i ∈ inputs, ∀ id, i.touchId? = some id → id = 0)
    (hsessions : ∃ rest, inputs.filterMap Input.touchToken ++ rest ∈ Sessions.language Unit) :
    TouchTrace ((onSurface surface .touch inputs).flatMap fun p =>
        SparkleTouch.events (p.2.call p.1)) ∧
      ((onSurface surface .touch inputs).flatMap fun p =>
        SparkleTouch.events (p.2.call p.1)).filterMap TouchEvent.token =
          inputs.filterMap Input.touchToken := by
  have hall : ∃ events : List TouchEvent, .frame ∉ events ∧
      ((onSurface surface .touch inputs).flatMap fun p => SparkleTouch.events (p.2.call p.1)) =
        events.flatMap (fun e => [e, .frame]) ∧
      (∀ e ∈ events, ∀ id, e.id? = some id → id = 0) ∧
      events.filterMap TouchEvent.token = inputs.filterMap Input.touchToken := by
    clear hsessions
    induction inputs with
    | nil => exact ⟨[], List.not_mem_nil, rfl, List.forall_mem_nil _, rfl⟩
    | cons i inputs ih =>
      obtain ⟨events, hframe, hevents, hid, htoken⟩ :=
        ih fun j hj => hids j (List.mem_cons_of_mem i hj)
      by_cases hi : i.signal.kind = .touch
      · obtain ⟨e, hne, he, hetoken, heid⟩ := touch_events surface hi
        refine ⟨e :: events, ?_, ?_, ?_, ?_⟩
        · exact fun hmem => (List.mem_cons.mp hmem).elim (fun heq => hne heq.symm) hframe
        · rw [onSurface, List.filter_cons_of_pos (by simpa using hi), List.map_cons,
            List.flatMap_cons, List.flatMap_cons, he]
          exact congrArg (_ ++ ·) hevents
        · refine List.forall_mem_cons.mpr ⟨fun id hid => ?_, hid⟩
          exact hids i List.mem_cons_self id (heid ▸ hid)
        · rw [List.filterMap_cons, List.filterMap_cons, htoken, hetoken]
      · refine ⟨events, hframe, ?_, hid, ?_⟩
        · rw [onSurface, List.filter_cons_of_neg (by simpa using hi)]
          exact hevents
        · rw [htoken, List.filterMap_cons, touchToken_of_ne hi]
  obtain ⟨events, hframe, hevents, hid, htoken⟩ := hall
  rw [hevents]
  have htokens : (events.flatMap fun e => [e, TouchEvent.frame]).filterMap TouchEvent.token =
      inputs.filterMap Input.touchToken := by
    rw [← htoken]
    clear hframe hevents hid htoken
    induction events with
    | nil => rfl
    | cons e events ih =>
      have hnone : TouchEvent.frame.token = none := rfl
      rw [List.flatMap_cons, List.filterMap_append, ih]
      cases he : e.token <;> simp [he, hnone]
  refine ⟨⟨⟨events, hframe, rfl⟩, fun e he id hide => ?_, htokens ▸ hsessions⟩, htokens⟩
  obtain ⟨e', he', hmem⟩ := List.mem_flatMap.mp he
  rcases List.mem_cons.mp hmem with rfl | hmem
  · exact hid _ he' id hide
  · rw [List.mem_singleton.mp hmem] at hide
    cases hide

/-- **Touches**: in every run of the server in which a touch device stays, and the touches on the
surfaces of its client are those of one view on which all is harmless, what it sends is
well formed, and complete where the view is idle. -/
theorem touches_delivered (hs : Sparkle.machine.Reaches as s)
    (hpath : Sparkle.machine.Path s bs t) {n surface : Nat}
    (hlive : s.resource (.device .touch n) = some client)
    (hkeep : Sparkle.Label.destroy (.device .touch n) ∉ bs) {es : List (Gestures.Label F)}
    {g : Gestures F} (hg : Gestures.careful.Reaches es g) {inputs : List Input}
    (hinputs : emitted toInt g.calls = some inputs)
    (hdelivered : Desk.inputsOf .touch client (Sparkle.desk as) bs =
      onSurface surface .touch inputs) :
    ∃ calls, Desk.callsOn (.device .touch n) t.calls =
        Desk.callsOn (.device .touch n) s.calls ++ calls ∧
      TouchTrace (calls.flatMap SparkleTouch.events) ∧
      (g.Idle → (calls.flatMap SparkleTouch.events).filterMap TouchEvent.token ∈
        Sessions.language Unit) := by
  have hproper : g.Proper := by
    refine Gestures.Tracks.proper (Machine.invariant (M := Gestures.careful) ?_ ?_ hg)
    · rintro g ⟨native, hnative, rfl⟩
      exact Gestures.tracks_shown hnative
    · exact fun g a g' hg hstep => hg.step hstep.1 hstep.2
  obtain ⟨htokens, hids⟩ := emitted_touches hinputs
  have hzero : ∀ i ∈ inputs, ∀ id, i.touchId? = some id → id = 0 := by
    intro i hi id hid
    obtain ⟨c, hc, hcid⟩ := hids i hi id hid
    exact Gestures.touchId_eq hg.of_guarded c hc id hcid
  obtain ⟨htrace, htraced⟩ := touchTrace_of_inputs surface hzero
    (by rw [htokens]; exact hproper.wellFormed.touches)
  obtain ⟨ws, hmirrors⟩ := Sparkle.mirrors_desk hs
  obtain ⟨-, -, hcalls⟩ := hmirrors.heard hpath (x := (.touch, n)) hlive hkeep
  have hheard := Desk.heard_flatMap SparkleTouch.events (.touch, n) client (fun _ => rfl)
    (Sparkle.desk as) bs
  rw [hdelivered] at hheard
  rw [← hheard] at htrace htraced
  refine ⟨_, hcalls, htrace, fun hidle => ?_⟩
  rw [htraced, htokens]
  exact (hproper.complete hidle).touches

/-- What a keyboard sends for an input. -/
theorem key_events (surface : Nat) (key : Int32) (i : Input) (hi : i.signal.kind = .keyboard) :
    (SparkleKeyboard.events (i.call surface)).filterMap (KeyboardEvent.token key) =
      (i.keyToken (key + 8)).toList := by
  have hkey : ∀ code : Int32, code - 8 = key ↔ code = key + 8 :=
    fun _ => Int32.sub_eq_iff_eq_add
  cases i with
  | keyDown code | keyUp code =>
    by_cases hcode : code = key + 8 <;>
      simp [SparkleKeyboard.events, Input.call, KeyboardEvent.token, Input.keyToken, hkey, hcode]
  | pointerButtonDown | pointerButtonUp | pointerMotion | pointerEnter | pointerLeave | touchDown
  | touchUp | touchMotion => cases hi

/-- An input of another kind is for no key. -/
theorem keyToken_of_ne {i : Input} (key : Int32) (hi : i.signal.kind ≠ .keyboard) :
    i.keyToken key = none := by
  cases i with
  | keyDown | keyUp => exact absurd rfl hi
  | pointerButtonDown | pointerButtonUp | pointerMotion | pointerEnter | pointerLeave | touchDown
  | touchUp | touchMotion => rfl

theorem keyTrace_of_inputs (surface : Nat) (key : Int32) (inputs : List Input) :
    ((onSurface surface .keyboard inputs).flatMap fun p =>
      (SparkleKeyboard.events (p.2.call p.1)).filterMap (KeyboardEvent.token key)) =
        keyTokens (key + 8) inputs := by
  induction inputs with
  | nil => rfl
  | cons i inputs ih =>
    rw [keyTokens, List.filterMap_cons, ← keyTokens, ← ih]
    by_cases hi : i.signal.kind = .keyboard
    · rw [onSurface, List.filter_cons_of_pos (by simpa using hi), List.map_cons, List.flatMap_cons,
        key_events surface key i hi]
      cases i.keyToken (key + 8) <;> rfl
    · rw [onSurface, List.filter_cons_of_neg (by simpa using hi), keyToken_of_ne _ hi]
      rfl

/-- **Keys**: in every run of the server in which a keyboard stays, and the keys on the surfaces of
its client are those of one view for which the codes held have different keys, each key
that it sends goes down and up, and none is left down where no code is held. -/
theorem keys_delivered (hs : Sparkle.machine.Reaches as s)
    (hpath : Sparkle.machine.Path s bs t) {n surface : Nat}
    (hlive : s.resource (.device .keyboard n) = some client)
    (hkeep : Sparkle.Label.destroy (.device .keyboard n) ∉ bs) {es : List Keys.Label} {k : Keys F}
    (hk : Keys.typing.Reaches es k) {inputs : List Input}
    (hinputs : emitted toInt k.calls = some inputs)
    (hdelivered : Desk.inputsOf .keyboard client (Sparkle.desk as) bs =
      onSurface surface .keyboard inputs) :
    ∃ calls, Desk.callsOn (.device .keyboard n) t.calls =
        Desk.callsOn (.device .keyboard n) s.calls ++ calls ∧ ∀ key,
      (∃ rest, (calls.flatMap SparkleKeyboard.events).filterMap (KeyboardEvent.token key) ++ rest ∈
        Sessions.language Unit) ∧
      (k.held = [] → (calls.flatMap SparkleKeyboard.events).filterMap (KeyboardEvent.token key) ∈
        Sessions.language Unit) := by
  have hproper : k.Proper toInt := by
    refine Keys.Tracks.proper (Machine.invariant (M := Keys.typing) ?_ ?_ hk)
    · rintro k ⟨native, hnative, rfl⟩
      exact Keys.tracks_start hnative
    · intro k a k' hk hstep
      cases a with
      | down event => exact hk.down hstep.1 hstep.2
      | up event => exact hk.up hstep.2
  obtain ⟨inputs', hinputs', hkeys⟩ := hproper
  cases hinputs.symm.trans hinputs'
  obtain ⟨ws, hmirrors⟩ := Sparkle.mirrors_desk hs
  obtain ⟨-, -, hcalls⟩ := hmirrors.heard hpath (x := (.keyboard, n)) hlive hkeep
  refine ⟨_, hcalls, fun key => ?_⟩
  have hheard := Desk.heard_flatMap
    (fun c => (SparkleKeyboard.events c).filterMap (KeyboardEvent.token key)) (.keyboard, n) client
    (fun _ => rfl) (Sparkle.desk as) bs
  rw [hdelivered, keyTrace_of_inputs] at hheard
  rw [List.filterMap_flatMap, hheard]
  exact hkeys (key + 8)

end Delivery

/-- A client with a touch device, a keyboard and a shell surface. -/
def oneClient : List (Sparkle.Label Bool) :=
  [.bindSeat 0 true, .bindShell 0 true, .createSurface 0 true, .getDevice 0 .touch 0,
    .getDevice 0 .keyboard 0, .getShellSurface 0 0]

/-- A tap and a key, while the client gets another touch device. -/
def tapAndKey : List (Sparkle.Label Bool) :=
  [.input 0 (.touchDown 0 7 7), .getDevice 0 .touch 1, .input 0 (.keyDown 38),
    .input 0 (.touchUp 0 7 7), .input 0 (.keyUp 38)]

theorem oneClient_tapAndKey : ∃ s t, Sparkle.machine.Reaches oneClient s ∧
    Sparkle.machine.Path s tapAndKey t ∧ s.resource (.device .touch 0) = some true ∧
    s.resource (.device .keyboard 0) = some true := by
  have hsome : (Sparkle.run oneClient).isSome = true := by decide +kernel
  obtain ⟨s, hs⟩ := Option.isSome_iff_exists.mp hsome
  have hrest : ((Sparkle.run oneClient).bind fun s => tapAndKey.foldlM
      (fun s a => if s.Possible a then s.handle a else none) s).isSome = true := by decide +kernel
  have hlive : (Sparkle.run oneClient).map (fun s =>
      (s.resource (.device .touch 0), s.resource (.device .keyboard 0))) =
      some (some true, some true) := by decide +kernel
  rw [hs, Option.bind_some] at hrest
  rw [hs, Option.map_some, Option.some.injEq, Prod.mk.injEq] at hlive
  obtain ⟨t, ht⟩ := Option.isSome_iff_exists.mp hrest
  refine ⟨s, t, Sparkle.reaches_of_run hs, Machine.Path.of_foldlM (fun s a t hst => ?_) ht, hlive⟩
  exact Option.ite_none_right_eq_some.mp hst

theorem touches_delivered_tapAndKey : ∃ (s t : Sparkle Bool) (calls : List DeviceCall),
    Sparkle.machine.Reaches oneClient s ∧ Sparkle.machine.Path s tapAndKey t ∧
    Desk.callsOn (.device .touch 0) t.calls = Desk.callsOn (.device .touch 0) s.calls ++ calls ∧
    TouchTrace (calls.flatMap SparkleTouch.events) := by
  obtain ⟨s, t, hs, hpath, htouch, -⟩ := oneClient_tapAndKey
  have hrun : ([Gestures.touchEvent .down, Gestures.touchEvent .up].foldlM
      (fun s a => if Gestures.Harmless s a then Gestures.step s a else none)
      (Gestures.shown 1)).map Gestures.calls = some [.touchDown 0 0 0, .touchUp 0 0 0] := by
    decide +kernel
  obtain ⟨g, hg, hcalls⟩ := Option.map_eq_some_iff.mp hrun
  have hreaches : Gestures.careful.Reaches [Gestures.touchEvent .down, Gestures.touchEvent .up] g :=
    ⟨_, ⟨1, by decide, rfl⟩, Machine.Path.of_guarded_run hg⟩
  have hinputs : emitted (fun _ => 7) g.calls = some [.touchDown 0 7 7, .touchUp 0 7 7] := by
    rw [hcalls]
    rfl
  have hdelivered : Desk.inputsOf .touch true (Sparkle.desk oneClient) tapAndKey =
      onSurface 0 .touch [.touchDown 0 7 7, .touchUp 0 7 7] := by decide +kernel
  obtain ⟨calls, hmade, htrace, -⟩ := touches_delivered hs hpath htouch (by simp [tapAndKey])
    hreaches hinputs hdelivered
  exact ⟨s, t, calls, hs, hpath, hmade, htrace⟩

theorem keys_delivered_tapAndKey : ∃ (s t : Sparkle Bool) (calls : List DeviceCall),
    Sparkle.machine.Reaches oneClient s ∧ Sparkle.machine.Path s tapAndKey t ∧
    Desk.callsOn (.device .keyboard 0) t.calls =
      Desk.callsOn (.device .keyboard 0) s.calls ++ calls ∧
    (calls.flatMap SparkleKeyboard.events).filterMap (KeyboardEvent.token 30) ∈
      Sessions.language Unit := by
  obtain ⟨s, t, hs, hpath, -, hkeyboard⟩ := oneClient_tapAndKey
  have hrun : ([.down ⟨29, 0⟩, .up ⟨29, 0⟩].foldlM
      (fun s a => if Keys.Distinct s a then Keys.step s a else none)
      (⟨⟨1, false, false⟩, [], []⟩ : Keys Nat)).map (fun s => (s.held, s.calls)) =
      some ([], [.keyDown 29, .keyUp 29]) := by
    decide +kernel
  obtain ⟨k, hk, hcalls⟩ := Option.map_eq_some_iff.mp hrun
  obtain ⟨hheld, hcalls⟩ := Prod.mk.inj hcalls
  have hreaches : Keys.typing.Reaches [.down ⟨29, 0⟩, .up ⟨29, 0⟩] k :=
    ⟨_, ⟨1, by decide, rfl⟩, Machine.Path.of_guarded_run hk⟩
  have hinputs : emitted (fun _ => 7) k.calls = some [.keyDown 38, .keyUp 38] := by
    rw [hcalls]
    decide +kernel
  have hdelivered : Desk.inputsOf .keyboard true (Sparkle.desk oneClient) tapAndKey =
      onSurface 0 .keyboard [.keyDown 38, .keyUp 38] := by decide +kernel
  obtain ⟨calls, hmade, hkeys⟩ := keys_delivered hs hpath hkeyboard (by simp [tapAndKey]) hreaches
    hinputs hdelivered
  exact ⟨s, t, calls, hs, hpath, hmade, (hkeys 30).2 hheld⟩

end SparkleWayland

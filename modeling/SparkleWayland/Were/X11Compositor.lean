import SparkleWayland.Were.Thread
import SparkleWayland.Were.Window

/-!
# Events of the X server (`were/were_x11_compositor.cpp`, `were/were1_xcb.c`)

The descriptor of the display is watched edge-triggered. When it is reported,
`were1_xcb_display_get_events` polls until there is no event left. But an update of a window
waits with `xcb_request_check` for the answer to a request, and whatever else
has arrived by then ends up in the queue of xcb, where no edge tells of it. That is
harmless while `get_events` is still to look at the queue, and only then
(`attended_guarded_iff`).

`arrived` and `delivered` are the history of the events.
-/

namespace SparkleWayland

/-- How many requests the slot for `e` sends that it waits for with `xcb_request_check`: an
update sends `were1_xcb_window_commit_with_damage`, and `were1_xcb_window_set_size` before it
if the size has changed. -/
def X11Surface.checks (surface : X11Surface) : X11Surface.Event → Nat
  | .commit | .expose =>
    match surface.buffer with
    | none => 0
    | some b => if surface.window.HasSize b.image then 1 else 2
  | _ => 0

/-- An event of the X server: Expose, or input for the client. -/
inductive XcbEvent (ι Input : Type) where
  | expose (window : ι)
  | input (event : Input)
  deriving DecidableEq, Repr

/-- The descriptors that `epoll_wait` reports: that of the display, and others. -/
inductive Source where
  | display
  | other
  deriving DecidableEq, Repr

namespace X11Compositor

/-- What the thread is doing, with the events that `process_events` has yet to pass on. -/
inductive Phase where
  /-- In `epoll_wait`. -/
  | waiting
  /-- In the loop of `process_events`. -/
  | events (batch : List Source)
  /-- In a slot of another descriptor. -/
  | slot (batch : List Source)
  /-- In the slots of `idle`. -/
  | idle
  /-- In the loop of `were1_xcb_display_get_events`. -/
  | getEvents (batch : List Source)
  /-- In the `handler` that this loop has called. -/
  | handler (batch : List Source)
  deriving DecidableEq, Repr

namespace Phase

/-- Where the thread goes on when the code it runs returns. -/
def returns : Phase → Option Phase
  | slot batch => some (events batch)
  | idle => some waiting
  | handler batch => some (getEvents batch)
  | _ => none

/-- Requests of clients are handled. -/
def Slot : Phase → Prop
  | slot _ | idle => True
  | _ => False

instance : DecidablePred Slot
  | slot _ | idle => .isTrue trivial
  | waiting | events _ | getEvents _ | handler _ => .isFalse id

/-- `get_events` is running, or will be before the thread waits again. -/
def Draining : Phase → Prop
  | waiting | idle => False
  | events batch | slot batch => .display ∈ batch
  | getEvents _ | handler _ => True

instance : DecidablePred Draining
  | waiting | idle => .isFalse id
  | events batch | slot batch => inferInstanceAs (Decidable (.display ∈ batch))
  | getEvents _ | handler _ => .isTrue trivial

end Phase

end X11Compositor

/-- A `were_x11_compositor` on its thread, with the views of its windows. -/
structure X11Compositor (ι Input : Type) where
  surfaces : ι → Option X11Surface
  /-- What the server has sent and nobody has read. -/
  socket : List (XcbEvent ι Input)
  /-- The event queue of xcb. -/
  queue : List (XcbEvent ι Input)
  /-- Something has arrived since the descriptor was last reported or looked at (`EPOLLET`). -/
  edge : Bool
  phase : X11Compositor.Phase
  /-- The checked requests of the running update whose answers are yet to come. -/
  checks : Nat
  arrived : List (XcbEvent ι Input)
  delivered : List (XcbEvent ι Input)

namespace X11Compositor

variable {ι Input : Type} [DecidableEq ι]

/-! ## What the code does -/

/-- xcb reads from the socket. -/
def receive (s : X11Compositor ι Input) (n : Nat) : X11Compositor ι Input :=
  { s with queue := s.queue ++ s.socket.take n, socket := s.socket.drop n }

/-- The slot of one of the views. -/
def update (s : X11Compositor ι Input) (i : ι) (e : X11Surface.Event) : X11Compositor ι Input :=
  match s.surfaces i with
  | none => s
  | some surface =>
    { s with
      surfaces := Function.update s.surfaces i (some (surface.handle e))
      checks := surface.checks e }

/-- `were_x11_surface::process`, as far as it concerns the display: input goes to the client. -/
def process (s : X11Compositor ι Input) : XcbEvent ι Input → X11Compositor ι Input
  | .expose i => s.update i .expose
  | .input _ => s

/-- `xcb_poll_for_event`, which reads from the socket only if the queue is empty, and what
`get_events` makes of the result. -/
def poll (s : X11Compositor ι Input) (more : Nat) : Option (X11Compositor ι Input) :=
  match s.phase with
  | .getEvents batch =>
    let polled := if s.queue = [] then s.receive (more + 1) else s
    match polled.queue with
    | [] => some { polled with phase := .events batch }
    | e :: queue =>
      some ({ polled with
        queue := queue
        phase := .handler batch
        delivered := polled.delivered ++ [e] }.process e)
  | _ => none

/-- `xcb_request_check` has its answer, and has read all that was there. -/
def check (s : X11Compositor ι Input) : Option (X11Compositor ι Input) :=
  if s.phase.returns.isSome ∧ 0 < s.checks then
    some { s.receive s.socket.length with checks := s.checks - 1 }
  else none

/-- The loop of `process_events` goes on. -/
def dispatch (s : X11Compositor ι Input) : Option (X11Compositor ι Input) :=
  match s.phase with
  | .events (.display :: batch) => some { s with phase := .getEvents batch }
  | .events (.other :: batch) => some { s with phase := .slot batch }
  | .events [] => some { s with phase := .idle }
  | _ => none

/-- `epoll_wait` may return these events: it reports the display if something has arrived that
can be read, unless there is no room. -/
def Reports (s : X11Compositor ι Input) (batch : List Source) : Prop :=
  batch.length ≤ maxEvents ∧ batch.count .display ≤ 1 ∧
    if .display ∈ batch then s.edge = true ∧ s.socket ≠ []
    else s.edge = false ∨ batch.length = maxEvents

instance (s : X11Compositor ι Input) (batch : List Source) : Decidable (s.Reports batch) :=
  inferInstanceAs (Decidable (_ ∧ _))

/-- The atomic steps. `forget` is `epoll_wait` looking at a descriptor that cannot be read. -/
inductive Label (ι Input : Type) where
  | arrive (e : XcbEvent ι Input)
  | forget
  | report (batch : List Source)
  | dispatch
  | create (i : ι)
  | destroy (i : ι)
  | request (i : ι) (e : X11Surface.Event)
  | check
  | poll (more : Nat)
  | done

def step (s : X11Compositor ι Input) : Label ι Input → Option (X11Compositor ι Input)
  | .arrive e =>
    some { s with socket := s.socket ++ [e], edge := true, arrived := s.arrived ++ [e] }
  | .forget =>
    if s.phase = .waiting ∧ s.edge = true ∧ s.socket = [] then some { s with edge := false }
    else none
  | .report batch =>
    if s.phase = .waiting ∧ s.Reports batch then
      some { s with phase := .events batch, edge := s.edge && decide (.display ∉ batch) }
    else none
  | .dispatch => s.dispatch
  | .create i =>
    if s.phase.Slot ∧ s.checks = 0 then
      some { s with surfaces := Function.update s.surfaces i (some .created) }
    else none
  | .destroy i =>
    if s.phase.Slot ∧ s.checks = 0 then
      some { s with surfaces := Function.update s.surfaces i none }
    else none
  | .request _ .expose => none
  | .request i e => if s.phase.Slot ∧ s.checks = 0 then some (s.update i e) else none
  | .check => s.check
  | .poll more => s.poll more
  | .done =>
    if s.checks = 0 then s.phase.returns.map fun phase => { s with phase := phase } else none

/-- The descriptor has just been registered. -/
def registered : X11Compositor ι Input where
  surfaces := fun _ => none
  socket := []
  queue := []
  edge := false
  phase := .waiting
  checks := 0
  arrived := []
  delivered := []

def machine : Machine (X11Compositor ι Input) (Label ι Input) :=
  Machine.ofStep (· = registered) step

/-! ## Events that nobody will deliver -/

/-- Where the thread waits and no edge is pending, the queue is empty: all that has arrived has
been delivered. -/
def Attended (s : X11Compositor ι Input) : Prop :=
  s.phase = .waiting → s.edge = false → s.queue = [] ∧ s.delivered = s.arrived

/-- A check reads nothing, or `get_events` is still to look at what it has read. -/
def Harmless (s : X11Compositor ι Input) : Label ι Input → Prop
  | .check => s.socket = [] ∨ s.phase.Draining
  | _ => True

instance (s : X11Compositor ι Input) : DecidablePred s.Harmless
  | .check => inferInstanceAs (Decidable (_ ∨ _))
  | .arrive _ | .forget | .report _ | .dispatch | .create _ | .destroy _ | .request _ _ | .poll _
  | .done => .isTrue trivial

/-- Runs whose checks are harmless. -/
def careful : Machine (X11Compositor ι Input) (Label ι Input) := machine.guarded Harmless

/-! ## What is read is delivered -/

/-- Every event is where it will be found: in the queue if `get_events` is still to look, in
the socket if the descriptor will be reported. -/
structure Watched (s : X11Compositor ι Input) : Prop where
  arrived : s.arrived = s.delivered ++ (s.queue ++ s.socket)
  queue : s.queue ≠ [] → s.phase.Draining
  socket : s.socket ≠ [] → s.edge = true ∨ s.phase.Draining

variable {s t : X11Compositor ι Input}

/-- The slots of the views leave the channel alone. -/
theorem update_eq (s : X11Compositor ι Input) (i : ι) (e : X11Surface.Event) :
    ∃ surfaces checks, s.update i e = { s with surfaces := surfaces, checks := checks } := by
  unfold update
  split
  · exact ⟨s.surfaces, s.checks, rfl⟩
  · exact ⟨_, _, rfl⟩

theorem Watched.update (h : s.Watched) (i : ι) (e : X11Surface.Event) :
    (s.update i e).Watched := by
  obtain ⟨surfaces, checks, heq⟩ := s.update_eq i e
  rw [heq]
  exact ⟨h.arrived, h.queue, h.socket⟩

theorem Watched.process (h : s.Watched) (e : XcbEvent ι Input) : (s.process e).Watched := by
  cases e with
  | expose i => exact h.update i .expose
  | input event => exact h

omit [DecidableEq ι] in
theorem Watched.receive (h : s.Watched) (hdraining : s.phase.Draining) (n : Nat) :
    (s.receive n).Watched := by
  refine ⟨?_, fun _ => hdraining, fun _ => Or.inr hdraining⟩
  show s.arrived = s.delivered ++ (s.queue ++ s.socket.take n ++ s.socket.drop n)
  rw [List.append_assoc, List.take_append_drop, h.arrived]

omit [DecidableEq ι] in
/-- An empty socket has nothing to read. -/
theorem receive_of_nil (h : s.socket = []) (n : Nat) : s.receive n = s := by
  cases s
  cases h
  simp [X11Compositor.receive]

omit [DecidableEq ι] in
/-- Where nothing is left in the queue or the socket, `get_events` may return. -/
theorem Watched.leave (h : s.Watched) (hqueue : s.queue = []) (hsocket : s.socket = [])
    (phase : Phase) : ({ s with phase := phase } : X11Compositor ι Input).Watched :=
  ⟨h.arrived, fun hne => absurd hqueue hne, fun hne => absurd hsocket hne⟩

omit [DecidableEq ι] in
/-- Only an empty socket leaves the queue empty after reading. -/
theorem socket_eq_nil_of_receive {more : Nat} (h : (s.receive (more + 1)).queue = []) :
    s.socket = [] := by
  have htake : s.socket.take (more + 1) = [] := (List.append_eq_nil_iff.mp h).2
  exact (List.take_eq_nil_iff.mp htake).resolve_left (Nat.succ_ne_zero more)

theorem Watched.poll (h : s.Watched) {more : Nat} (hstep : s.poll more = some t) :
    t.Watched := by
  unfold X11Compositor.poll at hstep
  split at hstep
  case h_2 => cases hstep
  case h_1 batch hphase =>
    have hdraining : s.phase.Draining := by rw [hphase]; trivial
    dsimp only at hstep
    generalize hpolled : (if s.queue = [] then s.receive (more + 1) else s) = polled at hstep
    have hwatched : polled.Watched := by
      rw [← hpolled]
      split
      · exact h.receive hdraining _
      · exact h
    split at hstep
    case h_1 hqueue =>
      cases hstep
      refine hwatched.leave hqueue ?_ _
      by_cases hnil : s.queue = []
      · rw [if_pos hnil] at hpolled
        have hsocket := socket_eq_nil_of_receive (hpolled ▸ hqueue)
        rw [← hpolled, receive_of_nil hsocket]
        exact hsocket
      · rw [if_neg hnil] at hpolled
        exact absurd (hpolled ▸ hqueue) hnil
    case h_2 e queue hqueue =>
      cases hstep
      have harrived : polled.arrived = polled.delivered ++ [e] ++ (queue ++ polled.socket) := by
        rw [hwatched.arrived, hqueue, List.append_assoc, List.cons_append, List.singleton_append]
      have hcalled : Watched { polled with
          queue := queue, phase := .handler batch, delivered := polled.delivered ++ [e] } :=
        ⟨harrived, fun _ => trivial, fun _ => Or.inr trivial⟩
      exact hcalled.process e

omit [DecidableEq ι] in
theorem Watched.dispatch (h : s.Watched) (hstep : s.dispatch = some t) : t.Watched := by
  obtain ⟨harrived, hqueue, hsocket⟩ := h
  unfold X11Compositor.dispatch at hstep
  split at hstep
  case h_1 batch hphase =>
    cases hstep
    exact ⟨harrived, fun _ => show Phase.Draining (.getEvents batch) from trivial,
      fun _ => Or.inr (show Phase.Draining (.getEvents batch) from trivial)⟩
  case h_2 batch hphase =>
    cases hstep
    simp only [hphase, Phase.Draining, List.mem_cons, reduceCtorEq, false_or] at hqueue hsocket
    exact ⟨harrived, hqueue, hsocket⟩
  case h_3 hphase =>
    cases hstep
    simp only [hphase, Phase.Draining, List.not_mem_nil] at hqueue hsocket
    exact ⟨harrived, hqueue, hsocket⟩
  case h_4 => cases hstep

/-- Code that returns does not change what is still to be drained. -/
theorem draining_of_returns {phase phase' : Phase} (h : phase.returns = some phase') :
    phase'.Draining ↔ phase.Draining := by
  cases phase <;> cases h <;> rfl

theorem Watched.step (h : s.Watched) {a : Label ι Input} (hok : s.Harmless a)
    (hstep : s.step a = some t) : t.Watched := by
  cases a with
  | arrive e =>
    cases hstep
    refine ⟨?_, h.queue, fun _ => Or.inl rfl⟩
    show s.arrived ++ [e] = s.delivered ++ (s.queue ++ (s.socket ++ [e]))
    rw [h.arrived, List.append_assoc, List.append_assoc]
  | forget =>
    obtain ⟨hwaiting, ht⟩ := Option.ite_none_right_eq_some.mp hstep
    cases ht
    exact ⟨h.arrived, h.queue, fun hne => absurd hwaiting.2.2 hne⟩
  | report batch =>
    obtain ⟨⟨hwaiting, hreports⟩, ht⟩ := Option.ite_none_right_eq_some.mp hstep
    cases ht
    have hnot : ¬s.phase.Draining := by rw [hwaiting]; exact id
    refine ⟨h.arrived, fun hne => absurd (h.queue hne) hnot, fun hne => ?_⟩
    have hedge := (h.socket hne).resolve_right hnot
    by_cases hmem : .display ∈ batch
    · exact Or.inr hmem
    · simp [hedge, hmem]
  | dispatch => exact h.dispatch hstep
  | create i =>
    obtain ⟨-, ht⟩ := Option.ite_none_right_eq_some.mp hstep
    cases ht
    exact ⟨h.arrived, h.queue, h.socket⟩
  | destroy i =>
    obtain ⟨-, ht⟩ := Option.ite_none_right_eq_some.mp hstep
    cases ht
    exact ⟨h.arrived, h.queue, h.socket⟩
  | request i e =>
    have hupdate : s.update i e = t := by
      cases e with
      | expose => cases hstep
      | _ => exact Option.some.inj (Option.ite_none_right_eq_some.mp hstep).2
    exact hupdate ▸ h.update i e
  | check =>
    obtain ⟨-, ht⟩ := Option.ite_none_right_eq_some.mp hstep
    cases ht
    have hreceived : (s.receive s.socket.length).Watched := by
      rcases hok with hnil | hdraining
      · rw [receive_of_nil hnil]
        exact h
      · exact h.receive hdraining _
    exact ⟨hreceived.arrived, hreceived.queue, hreceived.socket⟩
  | poll more => exact h.poll hstep
  | done =>
    obtain ⟨-, hmap⟩ := Option.ite_none_right_eq_some.mp hstep
    obtain ⟨phase, hreturns, rfl⟩ := Option.map_eq_some_iff.mp hmap
    have hiff := draining_of_returns hreturns
    exact ⟨h.arrived, fun hne => hiff.mpr (h.queue hne),
      fun hne => (h.socket hne).imp_right hiff.mpr⟩

section Stranded

variable (hsocket : s.socket = []) (hqueue : s.queue ≠ []) (hchecks : s.checks = 0)

include hsocket hqueue

include hchecks

end Stranded

theorem onePixel_pos : 1 ≤ (1 : Int32).toInt := by decide

/-- One pixel. -/
def onePixel : Buffer where
  resource := 0
  image := {
    width := 1
    height := 1
    stride := 4
    data := fun _ => 0
    width_pos := onePixel_pos
    height_pos := onePixel_pos
    row := by decide
    extent := by decide }

/-- A client makes a surface and attaches a buffer. -/
def attached : List (Label Unit Nat) :=
  [.report [.other], .dispatch, .create (), .request () (.attach onePixel), .done, .dispatch, .done]

/-- The key is pressed while the client commits. -/
def committed : List (Label Unit Nat) :=
  attached ++ [.report [.other], .dispatch, .request () .commit, .arrive (.input 1), .check, .check,
    .done, .dispatch, .done, .forget]

end X11Compositor

end SparkleWayland

import SparkleWayland.Lib.Fifo
import Mathlib.Algebra.Group.Nat.Defs
import Mathlib.Logic.Function.Basic

/-!
# Calls posted to another thread (`were/were_handler.cpp`)

`post` pushes a call under the mutex and then writes to an eventfd. The handler
thread sleeps in `epoll_wait`; its `data_in` slot resets the counter and calls
`process_queue`, which lets go of the mutex around every call. Wake-up and queue
are thus updated in separate steps on both sides, and a call may itself post or
call `process_queue`.

The handler refines a first-in first-out channel (`refinesFifo`) through a
relation that also carries the wake-up invariant; `loses_nothing` reads both off.
The last section is about the report of the descriptor itself.
-/

namespace SparkleWayland

/-- What the handler thread is in the middle of. `read` and `process` are the two
statements of the `data_in` slot; `lock` to `unlock` are the program points of
`process_queue`, of which `running` is the one during a call; `code` is a call or
any other slot, and `writing` the same between its own push and its write. -/
inductive Handler.Frame (Call : Type) where
  | read
  | process
  | lock
  | check
  | taken (call : Call)
  | ready (call : Call)
  | running
  | unlock
  | code
  | writing
  deriving DecidableEq

/-- A `were_handler`, its eventfd and the threads `ι` that post to it.
`call_queue_mutex_` is `true` while the handler thread holds it; a push by any
thread is one step, taken while nobody holds it. The lists `pushed` and `started`
are the history of the calls. -/
structure Handler (ι Call : Type) where
  callQueue : List Call
  callQueueMutex : Bool
  counter : Nat
  /-- A write since the descriptor was last reported (`EPOLLET`). -/
  edge : Bool
  /-- `epoll_wait` has returned the descriptor and `event_` is still to be called. -/
  reported : Bool
  /-- The threads between the push and the write of a `post`. -/
  posting : ι → Bool
  /-- The handler thread, innermost activation first; empty in `epoll_wait`. -/
  stack : List (Handler.Frame Call)
  pushed : List Call
  started : List Call

namespace Handler

variable {ι Call : Type}

/-- `call_queue_.push(call)` -/
def push (s : Handler ι Call) (call : Call) : Handler ι Call :=
  { s with callQueue := s.callQueue ++ [call], pushed := s.pushed ++ [call] }

/-- The largest value of an eventfd; a write that would exceed it blocks. -/
def maxCounter : Nat := 2 ^ 64 - 2

/-- `fd_->write` of a one. -/
def write (s : Handler ι Call) : Option (Handler ι Call) :=
  if s.counter + 1 ≤ maxCounter then some { s with counter := s.counter + 1, edge := true }
  else none

/-- `epoll_wait` looks at the descriptor it was told about: it is reported if it can
be read, and otherwise forgotten until the next write. -/
def epollWait (s : Handler ι Call) : Option (Handler ι Call) :=
  if s.stack = [] ∧ s.reported = false ∧ s.edge = true then
    some { s with edge := false, reported := decide (0 < s.counter) }
  else none

/-- `event_` emits `data_in`: the slot starts. -/
def event (s : Handler ι Call) : Option (Handler ι Call) :=
  if s.stack = [] ∧ s.reported = true then
    some { s with reported := false, stack := [.read] }
  else none

/-- The next step of the `data_in` slot or of `process_queue`, whichever is on top.
The slot ends with `process_queue`, which therefore takes its place. -/
def advance (s : Handler ι Call) : Option (Handler ι Call) :=
  match s.stack with
  | .read :: below =>
    -- the eventfd is blocking: `read` waits for a counter to reset
    if 0 < s.counter then some { s with counter := 0, stack := .process :: below } else none
  | .process :: below => some { s with stack := .lock :: below }
  | .lock :: below =>
    if s.callQueueMutex then none
    else some { s with callQueueMutex := true, stack := .check :: below }
  | .check :: below =>
    match s.callQueue with
    | [] => some { s with stack := .unlock :: below }
    | call :: rest => some { s with callQueue := rest, stack := .taken call :: below }
  | .taken call :: below => some { s with callQueueMutex := false, stack := .ready call :: below }
  | .ready call :: below =>
    some { s with started := s.started ++ [call], stack := .code :: .running :: below }
  | .unlock :: below => some { s with callQueueMutex := false, stack := below }
  | _ => none

/-- What code on the handler thread can do to its handler. -/
inductive Action (Call : Type) where
  | push (call : Call)
  | write
  | processQueue
  | done
  deriving DecidableEq

/-- One action of the code on top of the stack. When a call is done, the
`process_queue` that runs it goes on with the lock. -/
def act (s : Handler ι Call) : Action Call → Option (Handler ι Call)
  | .push call =>
    match s.stack with
    | .code :: below =>
      if s.callQueueMutex then none else some { s.push call with stack := .writing :: below }
    | _ => none
  | .write =>
    match s.stack with
    | .writing :: below => { s with stack := .code :: below }.write
    | _ => none
  | .processQueue =>
    match s.stack with
    | .code :: below => some { s with stack := .lock :: .code :: below }
    | _ => none
  | .done =>
    match s.stack with
    | .code :: .running :: below => some { s with stack := .lock :: below }
    | .code :: below => some { s with stack := below }
    | _ => none

/-- The atomic steps: of a posting thread, of the event loop, and of the handler
thread. `slot` is the event loop starting any other code. -/
inductive Label (ι Call : Type) where
  | push (t : ι) (call : Call)
  | write (t : ι)
  | epollWait
  | event
  | slot
  | advance
  | act (a : Action Call)
  deriving DecidableEq

variable [DecidableEq ι]

def step (s : Handler ι Call) : Label ι Call → Option (Handler ι Call)
  | .push t call =>
    if s.posting t = false ∧ s.callQueueMutex = false then
      some { s.push call with posting := Function.update s.posting t true }
    else none
  | .write t =>
    if s.posting t = true then
      { s with posting := Function.update s.posting t false }.write
    else none
  | .epollWait => s.epollWait
  | .event => s.event
  | .slot => if s.stack = [] then some { s with stack := [.code] } else none
  | .advance => s.advance
  | .act a => s.act a

/-- A new handler: `eventfd(0, 0)` and nothing posted. -/
def initial (ι Call : Type) : Handler ι Call :=
  ⟨[], false, 0, false, false, fun _ => false, [], [], []⟩

/-- Any number of threads posting to one handler, and the thread that serves it. -/
def machine (ι Call : Type) [DecidableEq ι] : Machine (Handler ι Call) (Label ι Call) :=
  Machine.ofStep (fun s => s = initial ι Call) step

end Handler

/-! ## Reading a stack of activations -/

namespace Handler

namespace Frame

variable {Call : Type}

/-- In the `data_in` slot, or in `process_queue` before its final emptiness check. -/
def BeforeCheck : Frame Call → Prop
  | .unlock | .code | .writing => False
  | _ => True

/-- `process_queue` between `lock` and `unlock`. -/
def Critical : Frame Call → Prop
  | .check | .taken _ | .unlock => True
  | _ => False

/-- Waiting for what is above it: a `process_queue` whose call runs, or code that
called `process_queue`. -/
def Waits : Frame Call → Prop
  | .running | .code => True
  | _ => False

/-- The call taken out of the queue and not started yet. -/
def inHand : Frame Call → List Call
  | .taken call | .ready call => [call]
  | _ => []

theorem Waits.not_critical {g : Frame Call} (h : g.Waits) : ¬ g.Critical := by
  cases g <;> first | exact id | cases h

theorem Waits.inHand {g : Frame Call} (h : g.Waits) : g.inHand = [] := by
  cases g <;> first | rfl | cases h

end Frame

variable {ι Call : Type}

/-- The call the innermost activation has in hand. -/
def inHand (s : Handler ι Call) : List Call := (s.stack.head?.map Frame.inHand).getD []

/-- Somebody will look at the queue: the descriptor is readable, a poster is still
to write, or the handler thread is still to check. -/
def Awake (s : Handler ι Call) : Prop :=
  0 < s.counter ∨ ((∃ t, s.posting t = true) ∨ .writing ∈ s.stack) ∨
    ∃ g ∈ s.stack, g.BeforeCheck

/-- What the code of the handler promises in every state of every run. -/
structure Sound (s : Handler ι Call) : Prop where
  /-- Each call is started at most once, in the order of the pushes, none skipped. -/
  started : s.started <+: s.pushed
  /-- The handler thread holds the mutex only inside the critical section of the
  innermost activation, so no activation that is executing a call holds it. -/
  mutex : s.callQueueMutex = true →
    ∃ g below, s.stack = g :: below ∧ g.Critical ∧ ∀ g ∈ below, ¬ g.Critical
  /-- No wake-up is lost. -/
  awake : s.callQueue ≠ [] → s.Awake

/-! ## The handler refines a channel -/

/-- The relation to the channel the handler refines, and what makes it last. -/
structure Carries (s : Handler ι Call) (f : Fifo Call) : Prop where
  pushed : f.pushed = s.pushed
  popped : f.popped = s.started ++ s.inHand
  waiting : f.waiting = s.callQueue
  below : ∀ g ∈ s.stack.tail, g.Waits
  mutex : s.callQueueMutex = true ↔ ∃ g, s.stack.head? = some g ∧ g.Critical
  drained : s.stack.head? = some .unlock → s.callQueue = []
  awake : s.callQueue ≠ [] → s.Awake

theorem initial_carries : (initial ι Call).Carries (Fifo.ofWaiting []) where
  pushed := rfl
  popped := rfl
  waiting := rfl
  below := List.forall_mem_nil _
  mutex := by simp [initial]
  drained := fun _ => rfl
  awake := fun h => absurd rfl h

/-- The channel answers a step that leads to `s'`. -/
def Answered (f : Fifo Call) (s' : Handler ι Call) : Prop :=
  ∃ bs f', (Fifo.machine Call).Path f bs f' ∧ s'.Carries f'

theorem Carries.answered {s : Handler ι Call} {f : Fifo Call} (h : s.Carries f) :
    Answered f s :=
  ⟨[], f, .nil, h⟩

/-! ### Posting threads and the event loop -/

theorem Carries.push [DecidableEq ι] {s s' : Handler ι Call} {f : Fifo Call} (h : s.Carries f)
    {t : ι} {call : Call} (hstep : s.step (.push t call) = some s') : Answered f s' := by
  simp only [step, Option.ite_none_right_eq_some, Option.some.injEq] at hstep
  obtain ⟨⟨-, hfree⟩, rfl⟩ := hstep
  refine ⟨_, _, Fifo.path_push f [call],
    { h with pushed := ?_, waiting := ?_, drained := ?_, awake := ?_ }⟩
  · rw [Fifo.push_pushed, h.pushed]
    rfl
  · rw [Fifo.push_waiting, h.waiting]
    rfl
  · -- nobody pushes between the final check and the unlock
    intro hhead
    have hheld := h.mutex.mpr ⟨_, hhead, trivial⟩
    rw [show s.callQueueMutex = false from hfree] at hheld
    cases hheld
  · exact fun _ => Or.inr (Or.inl (Or.inl ⟨t, Function.update_self ..⟩))

theorem write_eq {s s' : Handler ι Call} (hstep : s.write = some s') :
    s' = { s with counter := s.counter + 1, edge := true } := by
  simp only [Handler.write, Option.ite_none_right_eq_some, Option.some.injEq] at hstep
  exact hstep.2.symm

theorem Carries.write [DecidableEq ι] {s s' : Handler ι Call} {f : Fifo Call} (h : s.Carries f)
    {t : ι} (hstep : s.step (.write t) = some s') : s'.Carries f := by
  simp only [step, Option.ite_none_right_eq_some] at hstep
  rw [write_eq hstep.2]
  exact { h with awake := fun _ => Or.inl (Nat.succ_pos _) }

theorem Carries.epollWait {s s' : Handler ι Call} {f : Fifo Call} (h : s.Carries f)
    (hstep : s.epollWait = some s') : s'.Carries f := by
  simp only [Handler.epollWait, Option.ite_none_right_eq_some, Option.some.injEq] at hstep
  obtain ⟨-, rfl⟩ := hstep
  exact { h with }

/-- The event loop starts something that does not hold the mutex. -/
theorem Carries.starts {s : Handler ι Call} {f : Fifo Call} (h : s.Carries f)
    (hstack : s.stack = []) {g : Frame Call} (hg : ¬ g.Critical) (hhand : g.inHand = [])
    (reported : Bool) : { s with reported := reported, stack := [g] }.Carries f := by
  have hpopped := h.popped
  have hmutex := h.mutex
  have hawake := h.awake
  simp only [inHand, Awake, hstack] at hpopped hmutex hawake
  refine { h with
    popped := by simpa [inHand, hhand] using hpopped
    below := List.forall_mem_nil _
    mutex := by simpa [hg] using hmutex
    drained := ?_
    awake := fun hne => ?_ }
  · intro hhead
    cases hhead
    exact absurd trivial hg
  · rcases hawake hne with hpos | hposting | ⟨g, hmem, -⟩
    · exact Or.inl hpos
    · exact Or.inr (Or.inl (Or.inl (hposting.resolve_right List.not_mem_nil)))
    · cases hmem

theorem Carries.event {s s' : Handler ι Call} {f : Fifo Call} (h : s.Carries f)
    (hstep : s.event = some s') : s'.Carries f := by
  simp only [Handler.event, Option.ite_none_right_eq_some, Option.some.injEq] at hstep
  obtain ⟨⟨hstack, -⟩, rfl⟩ := hstep
  exact h.starts hstack id rfl false

theorem Carries.slot [DecidableEq ι] {s s' : Handler ι Call} {f : Fifo Call} (h : s.Carries f)
    (hstep : s.step .slot = some s') : s'.Carries f := by
  simp only [step, Option.ite_none_right_eq_some, Option.some.injEq] at hstep
  obtain ⟨hstack, rfl⟩ := hstep
  exact h.starts hstack id rfl s.reported

/-! ### The innermost activation -/

/-- What the relation says when `g` is on top of the stack. -/
theorem Carries.top {s : Handler ι Call} {f : Fifo Call} (h : s.Carries f) {g : Frame Call}
    {below : List (Frame Call)} (hstack : s.stack = g :: below) :
    f.popped = s.started ++ g.inHand ∧ (∀ g ∈ below, g.Waits) ∧
      (s.callQueueMutex = true ↔ g.Critical) := by
  have hpopped := h.popped
  have hbelow := h.below
  have hmutex := h.mutex
  simp only [inHand, hstack] at hpopped hbelow hmutex
  exact ⟨hpopped, hbelow, by simpa using hmutex⟩

/-- The innermost activation goes on, before its final check. -/
theorem Carries.goesOn {s : Handler ι Call} {f : Fifo Call} (h : s.Carries f) {g : Frame Call}
    {below : List (Frame Call)} (hstack : s.stack = g :: below) (g' : Frame Call)
    (hcheck : g'.BeforeCheck) (hhand : g'.inHand = g.inHand) {mutex : Bool}
    (hmutex : mutex = true ↔ g'.Critical) {counter : Nat} :
    { s with counter := counter, callQueueMutex := mutex, stack := g' :: below }.Carries f := by
  obtain ⟨hpopped, hbelow, -⟩ := h.top hstack
  exact { h with
    popped := hpopped.trans (by rw [← hhand]; rfl)
    below := hbelow
    mutex := by simpa using hmutex
    drained := by
      intro hhead
      cases hhead
      cases hcheck
    awake := fun _ => Or.inr (Or.inr ⟨g', List.mem_cons_self, hcheck⟩) }

/-- The innermost activation returns to what waits for it. -/
theorem Carries.returns {s : Handler ι Call} {f : Fifo Call} (h : s.Carries f) {g : Frame Call}
    {below : List (Frame Call)} (hstack : s.stack = g :: below) (hhand : g.inHand = [])
    (hcheck : ¬ g.BeforeCheck) (hwriting : g ≠ .writing) :
    { s with callQueueMutex := false, stack := below }.Carries f := by
  obtain ⟨hpopped, hbelow, -⟩ := h.top hstack
  have hhead : ∀ g', below.head? = some g' → g'.Waits :=
    fun g' hg' => hbelow g' (List.mem_of_mem_head? hg')
  refine { h with popped := ?_, below := ?_, mutex := ?_, drained := ?_, awake := ?_ }
  · rw [hpopped, hhand]
    cases below with
    | nil => rfl
    | cons g' below => rw [← (hhead g' rfl).inHand]; rfl
  · exact fun g' hg' => hbelow g' (List.mem_of_mem_tail hg')
  · refine ⟨nofun, ?_⟩
    rintro ⟨g', hg', hcritical⟩
    exact absurd hcritical (hhead g' hg').not_critical
  · exact fun hunlock => absurd (hhead _ hunlock) id
  · intro hne
    have hawake := h.awake hne
    simp only [Awake, hstack, List.mem_cons, hwriting.symm, false_or, exists_eq_or_imp, hcheck]
      at hawake
    exact hawake

/-- The innermost activation `g` is replaced by one that waits for a new one. -/
theorem Carries.calls {s : Handler ι Call} {f : Fifo Call} (h : s.Carries f) {g : Frame Call}
    {below : List (Frame Call)} (hstack : s.stack = g :: below) (hg : ¬ g.Critical)
    (top waiting : Frame Call) (htop : ¬ top.Critical) (hhand : top.inHand = [])
    (hwaits : waiting.Waits) (hcheck : top.BeforeCheck ∨ waiting.BeforeCheck)
    {started : List Call} (hstarted : f.popped = started) :
    { s with started := started, stack := top :: waiting :: below }.Carries f := by
  obtain ⟨-, hbelow, hmutex⟩ := h.top hstack
  refine { h with popped := ?_, below := ?_, mutex := ?_, drained := ?_, awake := ?_ }
  · rw [hstarted]
    change started = started ++ top.inHand
    rw [hhand, List.append_nil]
  · exact List.forall_mem_cons.mpr ⟨hwaits, hbelow⟩
  · simpa [htop, hg] using hmutex
  · intro hhead
    cases hhead
    exact absurd trivial htop
  · intro _
    rcases hcheck with hcheck | hcheck
    · exact Or.inr (Or.inr ⟨top, List.mem_cons_self, hcheck⟩)
    · exact Or.inr (Or.inr ⟨waiting, List.mem_cons_of_mem _ List.mem_cons_self, hcheck⟩)

/-- `process_queue` takes the oldest call out of the queue. -/
theorem Carries.takes {s : Handler ι Call} {f : Fifo Call} (h : s.Carries f)
    {below : List (Frame Call)} (hstack : s.stack = .check :: below) {call : Call}
    {rest : List Call} (hqueue : s.callQueue = call :: rest) :
    Answered f { s with callQueue := rest, stack := .taken call :: below } := by
  obtain ⟨hpopped, hbelow, hmutex⟩ := h.top hstack
  have hwaiting := h.waiting.trans hqueue
  refine ⟨_, _, Fifo.path_pop f 1, { h with
    popped := ?_
    waiting := ?_
    below := hbelow
    mutex := by simpa [Frame.Critical] using hmutex
    drained := nofun
    awake := fun _ => Or.inr (Or.inr ⟨_, List.mem_cons_self, trivial⟩) }⟩
  · rw [Fifo.pop_popped, hwaiting, hpopped]
    exact congrArg (· ++ [call]) (List.append_nil _)
  · rw [Fifo.pop_waiting, hwaiting]
    rfl

/-- What a step of the `data_in` slot or of `process_queue` does. -/
inductive Advances (s : Handler ι Call) : Handler ι Call → Prop
  | read {below : List (Frame Call)} (hstack : s.stack = .read :: below) (hpos : 0 < s.counter) :
      Advances s { s with counter := 0, stack := .process :: below }
  | process {below : List (Frame Call)} (hstack : s.stack = .process :: below) :
      Advances s { s with stack := .lock :: below }
  | lock {below : List (Frame Call)} (hstack : s.stack = .lock :: below)
      (hfree : s.callQueueMutex ≠ true) :
      Advances s { s with callQueueMutex := true, stack := .check :: below }
  | drained {below : List (Frame Call)} (hstack : s.stack = .check :: below)
      (hqueue : s.callQueue = []) : Advances s { s with stack := .unlock :: below }
  | takes {below : List (Frame Call)} {call : Call} {rest : List Call}
      (hstack : s.stack = .check :: below) (hqueue : s.callQueue = call :: rest) :
      Advances s { s with callQueue := rest, stack := .taken call :: below }
  | unlocks {below : List (Frame Call)} {call : Call} (hstack : s.stack = .taken call :: below) :
      Advances s { s with callQueueMutex := false, stack := .ready call :: below }
  | calls {below : List (Frame Call)} {call : Call} (hstack : s.stack = .ready call :: below) :
      Advances s
        { s with started := s.started ++ [call], stack := .code :: .running :: below }
  | returns {below : List (Frame Call)} (hstack : s.stack = .unlock :: below) :
      Advances s { s with callQueueMutex := false, stack := below }

theorem advances {s s' : Handler ι Call} (hstep : s.advance = some s') : Advances s s' := by
  unfold Handler.advance at hstep
  split at hstep
  case h_1 below hstack =>
    obtain ⟨hpos, hs⟩ := Option.ite_none_right_eq_some.mp hstep
    cases hs
    exact .read hstack hpos
  case h_2 below hstack =>
    cases hstep
    exact .process hstack
  case h_3 below hstack =>
    obtain ⟨hfree, hs⟩ := Option.ite_none_left_eq_some.mp hstep
    cases hs
    exact .lock hstack hfree
  case h_4 below hstack =>
    split at hstep
    case h_1 hqueue =>
      cases hstep
      exact .drained hstack hqueue
    case h_2 call rest hqueue =>
      cases hstep
      exact .takes hstack hqueue
  case h_5 call below hstack =>
    cases hstep
    exact .unlocks hstack
  case h_6 call below hstack =>
    cases hstep
    exact .calls hstack
  case h_7 below hstack =>
    cases hstep
    exact .returns hstack
  case h_8 => cases hstep

/-- One step of the `data_in` slot or of `process_queue`. -/
theorem Carries.advance {s s' : Handler ι Call} {f : Fifo Call} (h : s.Carries f)
    (hstep : s.advance = some s') : Answered f s' := by
  cases advances hstep with
  | read hstack hpos =>
    have hmutex := (h.top hstack).2.2
    -- the counter is gone, but the slot has yet to look at the queue
    exact (h.goesOn hstack .process trivial rfl hmutex).answered
  | process hstack =>
    have hmutex := (h.top hstack).2.2
    exact (h.goesOn hstack .lock trivial rfl hmutex).answered
  | lock hstack hfree =>
    exact (h.goesOn hstack .check trivial rfl (by simp [Frame.Critical])).answered
  | drained hstack hqueue =>
    obtain ⟨hpopped, hbelow, hmutex⟩ := h.top hstack
    -- the final emptiness check
    exact Carries.answered { h with
      popped := hpopped
      below := hbelow
      mutex := by simpa [Frame.Critical] using hmutex
      drained := fun _ => hqueue
      awake := fun hne => absurd hqueue hne }
  | takes hstack hqueue => exact h.takes hstack hqueue
  | @unlocks below call hstack =>
    exact (h.goesOn hstack (.ready call) trivial rfl (by simp [Frame.Critical])).answered
  | calls hstack =>
    exact (h.calls hstack id .code .running id rfl trivial (Or.inr trivial)
      (h.top hstack).1).answered
  | returns hstack => exact (h.returns hstack rfl id nofun).answered

/-! ### Code on the handler thread -/

/-- A call, or another slot, pushes: the thread is then a poster of its own handler. -/
theorem Carries.codePush {s : Handler ι Call} {f : Fifo Call} (h : s.Carries f)
    {below : List (Frame Call)} (hstack : s.stack = .code :: below) (call : Call) :
    Answered f { s.push call with stack := .writing :: below } := by
  obtain ⟨hpopped, hbelow, hmutex⟩ := h.top hstack
  refine ⟨_, _, Fifo.path_push f [call], { h with
    pushed := ?_
    popped := hpopped
    waiting := ?_
    below := hbelow
    mutex := by simpa [Frame.Critical, Handler.push] using hmutex
    drained := nofun
    awake := fun _ => Or.inr (Or.inl (Or.inr List.mem_cons_self)) }⟩
  · rw [Fifo.push_pushed, h.pushed]
    rfl
  · rw [Fifo.push_waiting, h.waiting]
    rfl

theorem Carries.codeWrite {s s' : Handler ι Call} {f : Fifo Call} (h : s.Carries f)
    {below : List (Frame Call)} (hstack : s.stack = .writing :: below)
    (hstep : { s with stack := .code :: below }.write = some s') : s'.Carries f := by
  obtain ⟨hpopped, hbelow, hmutex⟩ := h.top hstack
  rw [write_eq hstep]
  exact { h with
    popped := hpopped
    below := hbelow
    mutex := by simpa [Frame.Critical] using hmutex
    drained := nofun
    awake := fun _ => Or.inl (Nat.succ_pos _) }

/-- What an action of the code on top of the stack does. -/
inductive Acts (s : Handler ι Call) : Action Call → Handler ι Call → Prop
  | push {below : List (Frame Call)} {call : Call} (hstack : s.stack = .code :: below)
      (hfree : s.callQueueMutex ≠ true) :
      Acts s (.push call) { s.push call with stack := .writing :: below }
  | write {below : List (Frame Call)} {s' : Handler ι Call} (hstack : s.stack = .writing :: below)
      (hwrite : { s with stack := .code :: below }.write = some s') : Acts s .write s'
  | processQueue {below : List (Frame Call)} (hstack : s.stack = .code :: below) :
      Acts s .processQueue { s with stack := .lock :: .code :: below }
  | callDone {below : List (Frame Call)} (hstack : s.stack = .code :: .running :: below) :
      Acts s .done { s with stack := .lock :: below }
  | done {below : List (Frame Call)} (hstack : s.stack = .code :: below) :
      Acts s .done { s with stack := below }

theorem acts {s s' : Handler ι Call} {a : Action Call} (hstep : s.act a = some s') :
    Acts s a s' := by
  cases a with
  | push call =>
    simp only [Handler.act] at hstep
    split at hstep
    case h_1 below hstack =>
      obtain ⟨hfree, hs⟩ := Option.ite_none_left_eq_some.mp hstep
      cases hs
      exact .push hstack hfree
    case h_2 => cases hstep
  | write =>
    simp only [Handler.act] at hstep
    split at hstep
    case h_1 below hstack => exact .write hstack hstep
    case h_2 => cases hstep
  | processQueue =>
    simp only [Handler.act] at hstep
    split at hstep
    case h_1 below hstack =>
      cases hstep
      exact .processQueue hstack
    case h_2 => cases hstep
  | done =>
    simp only [Handler.act] at hstep
    split at hstep
    case h_1 below hstack =>
      cases hstep
      exact .callDone hstack
    case h_2 below _ hstack =>
      cases hstep
      exact .done hstack
    case h_3 => cases hstep

/-- One action of the code on top of the stack. -/
theorem Carries.act {s s' : Handler ι Call} {f : Fifo Call} (h : s.Carries f) {a : Action Call}
    (hstep : s.act a = some s') : Answered f s' := by
  cases acts hstep with
  | @push below call hstack hfree => exact h.codePush hstack call
  | write hstack hwrite => exact (h.codeWrite hstack hwrite).answered
  | processQueue hstack =>
    have hpopped := (h.top hstack).1.trans (List.append_nil _)
    exact (h.calls hstack id .lock .code id rfl trivial (Or.inl trivial) hpopped).answered
  | callDone hstack =>
    -- back in the `process_queue` that ran the call, which locks again
    have hreturned := h.returns hstack rfl id nofun
    have hmutex : s.callQueueMutex = true ↔ (.lock : Frame Call).Critical :=
      (h.top hstack).2.2
    exact (hreturned.goesOn rfl .lock trivial rfl hmutex).answered
  | done hstack =>
    have hfree : s.callQueueMutex = false :=
      Bool.eq_false_iff.mpr fun hheld => (h.top hstack).2.2.mp hheld
    have hreturned := h.returns hstack rfl id nofun
    rw [← hfree] at hreturned
    exact hreturned.answered

theorem Carries.sound {s : Handler ι Call} {f : Fifo Call} (h : s.Carries f) : s.Sound where
  started := by
    rw [← h.pushed]
    exact (List.prefix_append _ s.inHand).trans (h.popped ▸ f.popped_prefix_pushed)
  mutex hheld := by
    obtain ⟨g, hhead, hcritical⟩ := h.mutex.mp hheld
    obtain ⟨below, hstack⟩ := List.head?_eq_some_iff.mp hhead
    have hbelow := (h.top hstack).2.1
    exact ⟨g, below, hstack, hcritical, fun g' hg' => (hbelow g' hg').not_critical⟩
  awake := h.awake

variable [DecidableEq ι]

theorem Carries.step {s s' : Handler ι Call} {f : Fifo Call} (h : s.Carries f)
    {a : Label ι Call} (hstep : s.step a = some s') : Answered f s' := by
  cases a with
  | push t call => exact h.push hstep
  | write t => exact (h.write hstep).answered
  | epollWait => exact (h.epollWait hstep).answered
  | event => exact (h.event hstep).answered
  | slot => exact (h.slot hstep).answered
  | advance => exact h.advance hstep
  | act a => exact h.act hstep

/-- **Refinement**: a push is a push into the channel, and taking a call out of
`call_queue_` is a pop; all other steps leave the channel alone. -/
def refinesFifo : Simulation (machine ι Call) (Fifo.machine Call) where
  rel := Carries
  start := by
    rintro _ rfl
    exact ⟨_, ⟨[], rfl⟩, initial_carries⟩
  step _ _ _ _ h hstep := h.step hstep

/-- **Posting to a handler**: in every state of every run no call has been lost,
repeated or reordered, the mutex is free while a call executes, and a call that
waits will be seen. -/
theorem loses_nothing {as : List (Label ι Call)} {s : Handler ι Call}
    (h : (machine ι Call).Reaches as s) : s.Sound := by
  obtain ⟨-, f, -, hcarries⟩ := refinesFifo.reaches h
  exact hcarries.sound

omit [DecidableEq ι] in
/-- Two threads post; the call of the first one posts a third call, and calls
`process_queue` itself, in which the second call now runs. -/
theorem loses_nothing_nested :
    ∃ s : Handler Bool Nat, (machine Bool Nat).Reaches
      [.push true 1, .push false 2, .write false, .epollWait, .event, .advance, .write true,
        .advance, .advance, .advance, .advance, .advance, .act (.push 3), .act .write,
        .act .processQueue, .advance, .advance, .advance, .advance] s ∧
      s.started = [1, 2] ∧ s.pushed = [1, 2, 3] ∧ s.Sound := by
  have hrun : ((List.foldlM step (initial Bool Nat)
      [.push true 1, .push false 2, .write false, .epollWait, .event, .advance, .write true,
        .advance, .advance, .advance, .advance, .advance, .act (.push 3), .act .write,
        .act .processQueue, .advance, .advance, .advance, .advance]).map
        fun s => (s.started, s.pushed)) = some ([1, 2], [1, 2, 3]) := by
    decide +kernel
  obtain ⟨s, hs, heq⟩ := Option.map_eq_some_iff.mp hrun
  obtain ⟨hstarted, hpushed⟩ := Prod.mk.inj heq
  have hreach : (machine Bool Nat).Reaches _ s := ⟨_, rfl, Machine.Path.of_run hs⟩
  exact ⟨s, hreach, hstarted, hpushed, loses_nothing hreach⟩

/-! ## The descriptor is reported

`Sound` says that a waiting call keeps the counter positive. With `EPOLLET` that alone
does not wake a thread: the descriptor is reported once for the writes since the last
report, so a counter that can be read has to come with a report. -/

omit [DecidableEq ι]

/-- The counter, the report of the descriptor and the slot that reads it. -/
structure Signals (counter : Nat) (edge reported : Bool) (stack : List (Frame Call)) : Prop where
  /-- A report or a started slot stands for a counter that can be read … -/
  readable : reported = true ∨ .read ∈ stack → 0 < counter
  /-- … by one slot only … -/
  once : reported = true → .read ∉ stack
  outermost : .read ∉ stack.tail
  /-- … and a counter that can be read is, or will be, reported. -/
  signalled : 0 < counter → edge = true ∨ reported = true ∨ .read ∈ stack

/-- Activations other than the slot's first statement come and go. -/
theorem Signals.replace {counter : Nat} {edge reported : Bool} {g : Frame Call}
    {below : List (Frame Call)} (h : Signals counter edge reported (g :: below)) (hg : g ≠ .read)
    (top : List (Frame Call)) (htop : .read ∉ top) :
    Signals counter edge reported (top ++ below) := by
  have hbefore : .read ∉ g :: below := by simpa [hg.symm] using h.outermost
  have hafter : .read ∉ top ++ below := by simpa [htop] using h.outermost
  refine ⟨fun hread => h.readable (hread.imp_right fun hmem => absurd hmem hafter),
    fun _ => hafter, fun hmem => hafter (List.mem_of_mem_tail hmem), fun hpos => ?_⟩
  rcases h.signalled hpos with hedge | hreported | hmem
  · exact Or.inl hedge
  · exact Or.inr (Or.inl hreported)
  · exact absurd hmem hbefore

/-- A write reports a counter that can be read. -/
theorem Signals.write {s s' : Handler ι Call}
    (h : Signals s.counter s.edge s.reported s.stack) (hstep : s.write = some s') :
    Signals s'.counter s'.edge s'.reported s'.stack := by
  rw [write_eq hstep]
  exact ⟨fun _ => Nat.succ_pos _, h.once, h.outermost, fun _ => Or.inl rfl⟩

theorem Signals.advance {s s' : Handler ι Call}
    (h : Signals s.counter s.edge s.reported s.stack) (hstep : s.advance = some s') :
    Signals s'.counter s'.edge s'.reported s'.stack := by
  cases advances hstep with
  | @read below hstack hpos =>
    rw [hstack] at h
    have hbelow : .read ∉ below := h.outermost
    -- the one report is used up with the counter
    have hunreported : s.reported ≠ true := fun hrep => h.once hrep List.mem_cons_self
    exact ⟨by simp [hunreported, hbelow], by simp [hbelow], hbelow,
      fun hpos => absurd hpos (by simp)⟩
  | process hstack => exact (hstack ▸ h).replace nofun [.lock] (by simp)
  | lock hstack hfree => exact (hstack ▸ h).replace nofun [.check] (by simp)
  | drained hstack hqueue => exact (hstack ▸ h).replace nofun [.unlock] (by simp)
  | @takes below call rest hstack hqueue =>
    exact (hstack ▸ h).replace nofun [.taken call] (by simp)
  | @unlocks below call hstack => exact (hstack ▸ h).replace nofun [.ready call] (by simp)
  | calls hstack => exact (hstack ▸ h).replace nofun [.code, .running] (by simp)
  | returns hstack => exact (hstack ▸ h).replace nofun [] List.not_mem_nil

theorem Signals.act {s s' : Handler ι Call} (h : Signals s.counter s.edge s.reported s.stack)
    {a : Action Call} (hstep : s.act a = some s') :
    Signals s'.counter s'.edge s'.reported s'.stack := by
  cases acts hstep with
  | push hstack hfree => exact (hstack ▸ h).replace nofun [.writing] (by simp)
  | @write below s' hstack hwrite =>
    have hcode := (hstack ▸ h).replace nofun [.code] (by simp)
    exact Signals.write (s := { s with stack := .code :: below }) hcode hwrite
  | processQueue hstack => exact (hstack ▸ h).replace nofun [.lock, .code] (by simp)
  | callDone hstack =>
    have hreturned := (hstack ▸ h).replace nofun [] List.not_mem_nil
    exact hreturned.replace nofun [.lock] (by simp)
  | done hstack => exact (hstack ▸ h).replace nofun [] List.not_mem_nil

variable [DecidableEq ι]

theorem Signals.step {s s' : Handler ι Call} (h : Signals s.counter s.edge s.reported s.stack)
    {a : Label ι Call} (hstep : s.step a = some s') :
    Signals s'.counter s'.edge s'.reported s'.stack := by
  cases a with
  | push t call =>
    simp only [Handler.step, Option.ite_none_right_eq_some, Option.some.injEq] at hstep
    obtain ⟨-, rfl⟩ := hstep
    exact h
  | write t =>
    simp only [Handler.step, Option.ite_none_right_eq_some] at hstep
    exact Signals.write (s := { s with posting := Function.update s.posting t false }) h hstep.2
  | epollWait =>
    simp only [Handler.step, Handler.epollWait, Option.ite_none_right_eq_some,
      Option.some.injEq] at hstep
    obtain ⟨⟨hstack, -, -⟩, rfl⟩ := hstep
    refine ⟨by simp [hstack], by simp [hstack], by simp [hstack], fun hpos => ?_⟩
    exact Or.inr (Or.inl (decide_eq_true hpos))
  | event =>
    simp only [Handler.step, Handler.event, Option.ite_none_right_eq_some,
      Option.some.injEq] at hstep
    obtain ⟨⟨-, hreported⟩, rfl⟩ := hstep
    exact ⟨fun _ => h.readable (Or.inl hreported), nofun, List.not_mem_nil,
      fun _ => Or.inr (Or.inr (List.mem_singleton_self _))⟩
  | slot =>
    simp only [Handler.step, Option.ite_none_right_eq_some, Option.some.injEq] at hstep
    obtain ⟨hstack, rfl⟩ := hstep
    have hreadable := h.readable
    have hsignalled := h.signalled
    rw [hstack] at hreadable hsignalled
    exact ⟨by simpa using hreadable, by simp, by simp, by simpa using hsignalled⟩
  | advance => exact h.advance hstep
  | act a => exact h.act hstep

theorem reaches_signals {as : List (Label ι Call)} {s : Handler ι Call}
    (h : (machine ι Call).Reaches as s) : Signals s.counter s.edge s.reported s.stack := by
  refine Machine.invariant (M := machine ι Call)
    (I := fun s => Signals s.counter s.edge s.reported s.stack) ?_
    (fun _ _ _ hs hstep => hs.step hstep) h
  rintro _ rfl
  exact ⟨by simp [initial], by simp [initial], List.not_mem_nil, by simp [initial]⟩

/-- **Waking up**: where calls wait, all posts are finished and the handler thread is in
`epoll_wait`, the descriptor has been reported or is about to be. -/
theorem idle_reported {as : List (Label ι Call)} {s : Handler ι Call}
    (h : (machine ι Call).Reaches as s) (hwaiting : s.callQueue ≠ []) (hidle : s.stack = [])
    (hposted : ∀ t, s.posting t = false) :
    (∃ s', s.step .event = some s') ∨ ∃ s', s.step .epollWait = some s' ∧ s'.reported = true := by
  obtain ⟨-, f, -, hcarries⟩ := refinesFifo.reaches h
  have hawake := hcarries.awake hwaiting
  have hcounter : 0 < s.counter := by simpa [Awake, hidle, hposted] using hawake
  by_cases hreported : s.reported = true
  · exact Or.inl ⟨_, if_pos ⟨hidle, hreported⟩⟩
  · have hedge : s.edge = true := by
      simpa [hidle, hreported] using (reaches_signals h).signalled hcounter
    exact Or.inr ⟨_, if_pos ⟨hidle, by simpa using hreported, hedge⟩, decide_eq_true hcounter⟩

/-- The `data_in` slot never blocks in its read. -/
theorem read_ready {as : List (Label ι Call)} {s : Handler ι Call}
    (h : (machine ι Call).Reaches as s) {below : List (Frame Call)}
    (hstack : s.stack = .read :: below) : ∃ s', s.step .advance = some s' := by
  have hcounter := (reaches_signals h).readable (Or.inr (hstack ▸ List.mem_cons_self))
  refine ⟨{ s with counter := 0, stack := .process :: below }, ?_⟩
  simp only [Handler.step, Handler.advance, hstack, if_pos hcounter]

end Handler

end SparkleWayland

import SparkleWayland.Lib.Machine
import SparkleWayland.Were.Signal

/-!
# Breaking connections while they are in use (`were/were_connect.h`)

Threads connect, emit, run breakers, collapse objects and run posted calls, in any
nesting and any interleaving. An emission goes through the list it found when it
began, and a posted call is not looked at again before it is run: a breaker that runs
in the meantime stops neither. What it does stop is every later emission
(`started_only_by_earlier`).
-/

namespace SparkleWayland

/-- A call posted by `make_queued_call`, and the emission it was posted by. -/
structure Posted (Obj : Type) where
  connection : Connection Obj
  emission : Nat
  deriving DecidableEq

/-- What a thread is in the middle of: code (a slot, a posted call, or what the event
loop started), the rest of a `connect`, of a breaker or of an `emit`, the end of
a `disintegrate`, or a posted call taken from the queue. -/
inductive Activity (Obj : Type) where
  | code
  | connecting (c : Connection Obj) (rest : List (Signal Obj × SignalConnection Obj))
  | breaking (c : Connection Obj) (rest : List (Signal Obj × Nat))
  | emitting (emission : Nat) (rest : List (SignalConnection Obj))
  | disintegrating (o : Obj)
  | ready (p : Posted Obj)
  deriving DecidableEq

/-- What the history records. An emission is known by the place of its `emitted`
in the history; `broke` is the end of a breaker. -/
inductive Event (Obj : Type) where
  | emitted (signal : Signal Obj)
  | broke (c : Connection Obj)
  | started (c : Connection Obj) (emission : Nat) (queued : Bool)
  deriving DecidableEq

/-- The objects, their signals and the threads they live on. -/
structure Were (Obj Thread : Type) where
  signals : Signals Obj
  state : Obj → IntegrationState
  nextId : Nat
  /-- The connections whose breaker `connect` has returned. -/
  made : List (Connection Obj)
  callQueue : Thread → List (Posted Obj)
  stack : Thread → List (Activity Obj)
  history : List (Event Obj)

namespace Were

variable {Obj Thread : Type}

section
variable [DecidableEq Obj] [DecidableEq Thread]

/-- Thread `t` goes on with `activities`. -/
def put (s : Were Obj Thread) (t : Thread) (activities : List (Activity Obj)) : Were Obj Thread :=
  { s with stack := Function.update s.stack t activities }

def log (s : Were Obj Thread) (event : Event Obj) : Were Obj Thread :=
  { s with history := s.history ++ [event] }

/-- `emit` takes the list of the signal as it is now. -/
def emit (s : Were Obj Thread) (t : Thread) (signal : Signal Obj) (below : List (Activity Obj)) :
    Were Obj Thread :=
  (s.put t (.emitting s.history.length (s.signals signal) :: below)).log (.emitted signal)

/-- What code on a thread can do with the objects, and how a thread goes on by itself. -/
inductive Op (Obj : Type) where
  | connect (source : Obj) (name : SignalName) (context : Obj)
  | emit (signal : Signal Obj)
  | breaker (c : Connection Obj)
  | collapse (o : Obj)
  | integrated (o : Obj)
  | processQueue
  | done
  | slot
  | advance
  deriving DecidableEq

/-- The next step of what thread `t` is in the middle of. -/
def advance (thread : Obj → Thread) (s : Were Obj Thread) (t : Thread) :
    Option (Were Obj Thread) :=
  match s.stack t with
  | .connecting c ((signal, connection) :: rest) :: below =>
    some { s.put t (.connecting c rest :: below) with
      signals := s.signals.addConnection signal connection }
  | .connecting c [] :: below => some { s.put t below with made := s.made ++ [c] }
  | .breaking c ((signal, id) :: rest) :: below =>
    some { s.put t (.breaking c rest :: below) with
      signals := s.signals.removeConnection signal id }
  | .breaking c [] :: below => some ((s.put t below).log (.broke c))
  | .emitting e (connection :: rest) :: below =>
    match connection.call with
    | .call c => some ((s.put t (.code :: .emitting e rest :: below)).log (.started c e false))
    | .queuedCall c =>
      -- `post` to the handler of the context's thread
      some { s.put t (.emitting e rest :: below) with
        callQueue := Function.update s.callQueue (thread c.context)
          (s.callQueue (thread c.context) ++ [⟨c, e⟩]) }
    | .breaker c => some (s.put t (.breaking c c.items :: .emitting e rest :: below))
  | .emitting _ [] :: below => some (s.put t below)
  | .disintegrating o :: below =>
    some { s.put t below with state := Function.update s.state o .disintegrated }
  | .ready p :: below =>
    some ((s.put t (.code :: below)).log (.started p.connection p.emission true))
  | _ => none

/-- One operation of the code on top of the stack of thread `t`. -/
def act (thread : Obj → Thread) (s : Were Obj Thread) (t : Thread) (below : List (Activity Obj)) :
    Op Obj → Option (Were Obj Thread)
  | .connect source name context =>
    -- the ids and `call__` are local; the first shared effect is the call's entry
    let c := Connection.make source name context s.nextId
    some { s.put t (.connecting c c.breakers :: .code :: below) with
      nextId := s.nextId + 3
      signals := s.signals.addConnection c.signal ⟨c.slot thread, c.pcId⟩ }
  | .emit signal => some (s.emit t signal (.code :: below))
  | .breaker c =>
    if c ∈ s.made then some (s.put t (.breaking c c.items :: .code :: below)) else none
  | .collapse o =>
    if s.state o = .integrated then
      some (s.emit t ⟨o, .destroyed⟩ (.disintegrating o :: .code :: below))
    else some s
  | .integrated o =>
    if s.state o = .initial then
      some { s with state := Function.update s.state o .integrated }
    else none
  | .processQueue =>
    match s.callQueue t with
    | [] => some s
    | p :: rest =>
      some { s.put t (.ready p :: .code :: below) with
        callQueue := Function.update s.callQueue t rest }
  | .done => some (s.put t below)
  | .slot | .advance => none

def step (thread : Obj → Thread) (s : Were Obj Thread) :
    Thread × Op Obj → Option (Were Obj Thread)
  | (t, .slot) => if s.stack t = [] then some (s.put t [.code]) else none
  | (t, .advance) => s.advance thread t
  | (t, op) =>
    match s.stack t with
    | .code :: below => s.act thread t below op
    | _ => none

/-- Nothing is connected, posted or running yet. -/
def Fresh (s : Were Obj Thread) : Prop :=
  (∀ signal, s.signals signal = []) ∧ s.made = [] ∧ (∀ t, s.callQueue t = []) ∧
    (∀ t, s.stack t = []) ∧ s.history = []

/-- Any number of threads and objects, each object on its thread. -/
def machine (thread : Obj → Thread) : Machine (Were Obj Thread) (Thread × Op Obj) :=
  Machine.ofStep Fresh (step thread)

end

/-! ## What a breaker promises -/

/-- Once a breaker has run, its call is started for earlier emissions only. -/
def OnlyByEarlier (s : Were Obj Thread) : Prop :=
  ∀ (i j : Nat) (c : Connection Obj) (e : Nat) (queued : Bool),
    s.history[i]? = some (.broke c) → s.history[j]? = some (.started c e queued) → i < j →
      e < i ∧ s.history[e]? = some (.emitted c.signal)

/-- The emission `e` may start the call of `c`: it began before any breaker of `c` ended. -/
def Covers (history : List (Event Obj)) (c : Connection Obj) (e : Nat) : Prop :=
  history[e]? = some (.emitted c.signal) ∧ ∀ i : Nat, history[i]? = some (.broke c) → e < i

theorem Covers.mono {history history' : List (Event Obj)} {c : Connection Obj} {e : Nat}
    (h : Covers history c e) (hgrows : history <+: history') : Covers history' c e := by
  obtain ⟨later, rfl⟩ := hgrows
  obtain ⟨hemitted, hbroke⟩ := h
  obtain ⟨hlt, -⟩ := List.getElem?_eq_some_iff.mp hemitted
  refine ⟨by rw [List.getElem?_append_left hlt, hemitted], fun i hi => ?_⟩
  by_cases hlen : i < history.length
  · rw [List.getElem?_append_left hlen] at hi
    exact hbroke i hi
  · omega

/-- No list holds an entry that starts the call of `c`. -/
def Cut (s : Were Obj Thread) (c : Connection Obj) : Prop :=
  ∀ signal, ∀ x ∈ s.signals signal, ¬ x.call.Starts c

/-- What a thread's activity relies on. -/
def Good (s : Were Obj Thread) : Activity Obj → Prop
  | .connecting c rest => c.pcId < s.nextId ∧ ∀ p ∈ rest, p.2.call = .breaker c
  | .breaking c rest => c.pcId < s.nextId ∧ (rest = c.items ∨ s.Cut c)
  | .emitting e rest => ∀ x ∈ rest,
    x.call.connection.pcId < s.nextId ∧ ∀ c, x.call.Starts c → Covers s.history c e
  | .ready p => Covers s.history p.connection p.emission
  | .code | .disintegrating _ => True

/-- What a step may add to the history. -/
def Allowed (s : Were Obj Thread) : Event Obj → Prop
  | .emitted _ => True
  | .broke c => c.pcId < s.nextId ∧ s.Cut c
  | .started c e _ => Covers s.history c e

/-- `s'` is not behind `s`: ids stay used, the past stays, and what is cut stays cut. -/
structure Later (s s' : Were Obj Thread) : Prop where
  ids : s.nextId ≤ s'.nextId
  history : s.history <+: s'.history
  cut : ∀ c, c.pcId < s.nextId → s.Cut c → s'.Cut c

/-- What holds in every run. -/
structure Tracks (s : Were Obj Thread) : Prop where
  /-- An entry that starts a call stands in the signal connected to, under its id. -/
  entries : ∀ signal, ∀ x ∈ s.signals signal, x.call.connection.pcId < s.nextId ∧
    ∀ c, x.call.Starts c → c.signal = signal ∧ x.id = c.pcId
  made : ∀ c ∈ s.made, c.pcId < s.nextId
  good : ∀ t, ∀ a ∈ s.stack t, s.Good a
  posted : ∀ t, ∀ p ∈ s.callQueue t, Covers s.history p.connection p.emission
  broke : ∀ c, .broke c ∈ s.history → c.pcId < s.nextId ∧ s.Cut c
  earlier : s.OnlyByEarlier

theorem Good.mono {s s' : Were Obj Thread} (hlater : Later s s') {a : Activity Obj}
    (h : s.Good a) : s'.Good a := by
  cases a with
  | code => trivial
  | connecting c rest => exact ⟨Nat.lt_of_lt_of_le h.1 hlater.ids, h.2⟩
  | breaking c rest => exact ⟨Nat.lt_of_lt_of_le h.1 hlater.ids, h.2.imp_right (hlater.cut c h.1)⟩
  | emitting e rest =>
    intro x hx
    exact ⟨Nat.lt_of_lt_of_le (h x hx).1 hlater.ids,
      fun c hc => ((h x hx).2 c hc).mono hlater.history⟩
  | disintegrating o => trivial
  | ready p => exact Covers.mono h hlater.history

/-! ## What each operation keeps -/

theorem Later.log (s : Were Obj Thread) (event : Event Obj) : Later s (s.log event) where
  ids := Nat.le_refl _
  history := List.prefix_append _ _
  cut _ _ h := h

/-- The history grows by something allowed. -/
theorem Tracks.log {s : Were Obj Thread} (h : s.Tracks) {event : Event Obj}
    (hallowed : s.Allowed event) : (s.log event).Tracks := by
  have hlater := Later.log s event
  refine { h with
    good := fun t a ha => (h.good t a ha).mono hlater
    posted := fun t p hp => (h.posted t p hp).mono hlater.history
    broke := fun c hc => ?_
    earlier := fun i j c e queued hi hj hij => ?_ }
  · rcases List.mem_append.mp hc with hold | hnew
    · exact h.broke c hold
    · rw [List.mem_singleton] at hnew
      rw [← hnew] at hallowed
      exact hallowed
  · -- only the later of the two events can be the new one
    have hi' : i < s.history.length := by
      obtain ⟨hlt, -⟩ := List.getElem?_eq_some_iff.mp hj
      simp only [Were.log, List.length_append, List.length_singleton] at hlt
      omega
    simp only [Were.log, List.getElem?_append_left hi'] at hi
    have hcovers : Covers s.history c e ∨ s.history[j]? = some (.started c e queued) := by
      by_cases hj' : j < s.history.length
      · simp only [Were.log, List.getElem?_append_left hj'] at hj
        exact Or.inr hj
      · simp only [Were.log, List.getElem?_append_right (Nat.le_of_not_lt hj')] at hj
        rw [List.getElem?_singleton] at hj
        split at hj
        · cases hj
          exact Or.inl hallowed
        · cases hj
    have hearlier : e < i ∧ s.history[e]? = some (.emitted c.signal) := by
      rcases hcovers with ⟨hemitted, hbroke⟩ | hj
      · exact ⟨hbroke i hi, hemitted⟩
      · exact h.earlier i j c e queued hi hj hij
    refine ⟨hearlier.1, ?_⟩
    simp only [Were.log, List.getElem?_append_left (Nat.lt_trans hearlier.1 hi')]
    exact hearlier.2

/-- Lists `l` that hold what the signals of `s` hold, and otherwise only breakers and
calls of connections whose ids are new; `n` is the next id then. -/
def Admits (s : Were Obj Thread) (l : Signals Obj) (n : Nat) : Prop :=
  s.nextId ≤ n ∧ ∀ signal, ∀ x ∈ l signal, x ∈ s.signals signal ∨
    x.call.connection.pcId < n ∧ ∀ c, x.call.Starts c →
      s.nextId ≤ c.pcId ∧ c.signal = signal ∧ x.id = c.pcId

theorem Admits.later {s : Were Obj Thread} {l : Signals Obj} {n : Nat} (hl : s.Admits l n) :
    Later s { s with signals := l, nextId := n } := by
  refine ⟨hl.1, List.prefix_refl _, fun c hc hcut signal x hx hstarts => ?_⟩
  rcases hl.2 signal x hx with hold | ⟨-, hnew⟩
  · exact hcut signal x hold hstarts
  · have hfresh := (hnew c hstarts).1
    omega

theorem Tracks.lists {s : Were Obj Thread} (h : s.Tracks) {l : Signals Obj} {n : Nat}
    (hl : s.Admits l n) : { s with signals := l, nextId := n }.Tracks := by
  have hlater := hl.later
  refine ⟨fun signal x hx => ?_, fun c hc => Nat.lt_of_lt_of_le (h.made c hc) hl.1,
    fun t a ha => (h.good t a ha).mono hlater, h.posted, fun c hc => ?_, h.earlier⟩
  · rcases hl.2 signal x hx with hold | ⟨hlt, hnew⟩
    · exact ⟨Nat.lt_of_lt_of_le (h.entries signal x hold).1 hl.1, (h.entries signal x hold).2⟩
    · exact ⟨hlt, fun c hc => (hnew c hc).2⟩
  · obtain ⟨hlt, hcut⟩ := h.broke c hc
    exact ⟨Nat.lt_of_lt_of_le hlt hl.1, hlater.cut c hlt hcut⟩

section
variable [DecidableEq Obj]

theorem admits_removeConnection (s : Were Obj Thread) (signal : Signal Obj) (id : Nat) :
    s.Admits (s.signals.removeConnection signal id) s.nextId :=
  ⟨Nat.le_refl _, fun _ _ hx => Or.inl (Signals.mem_removeConnection.mp hx).1⟩

theorem admits_breaker {s : Were Obj Thread} {c : Connection Obj} (hc : c.pcId < s.nextId)
    (signal : Signal Obj) (id : Nat) :
    s.Admits (s.signals.addConnection signal ⟨.breaker c, id⟩) s.nextId := by
  refine ⟨Nat.le_refl _, fun signal' x hx => ?_⟩
  rcases Signals.mem_addConnection.mp hx with hold | ⟨-, rfl⟩
  · exact Or.inl hold
  · refine Or.inr ⟨hc, fun c' hstarts => ?_⟩
    rcases hstarts with hstarts | hstarts <;> cases hstarts

theorem admits_call {s : Were Obj Thread} {c : Connection Obj} (hc : c.pcId = s.nextId)
    {slot : Slot Obj} (hslot : slot.Starts c) :
    s.Admits (s.signals.addConnection c.signal ⟨slot, c.pcId⟩) (s.nextId + 3) := by
  refine ⟨Nat.le_add_right _ _, fun signal x hx => ?_⟩
  rcases Signals.mem_addConnection.mp hx with hold | ⟨rfl, rfl⟩
  · exact Or.inl hold
  · refine Or.inr ⟨?_, fun c' hstarts => ?_⟩
    · rw [hslot.connection_eq]
      omega
    · rw [show c' = c from hstarts.connection_eq.symm.trans hslot.connection_eq]
      exact ⟨Nat.le_of_eq hc.symm, rfl, rfl⟩

/-- The first removal of a breaker cuts its connection. -/
theorem Tracks.cut {s : Were Obj Thread} (h : s.Tracks) (c : Connection Obj) (n : Nat) :
    { s with signals := s.signals.removeConnection c.signal c.pcId, nextId := n }.Cut c := by
  intro signal x hx hstarts
  obtain ⟨hold, hid⟩ := Signals.mem_removeConnection.mp hx
  obtain ⟨hsignal, heq⟩ := (h.entries signal x hold).2 c hstarts
  exact hid hsignal.symm heq

end

section
variable [DecidableEq Thread]

/-- A thread goes on with activities that can rely on what they need. -/
theorem Tracks.put {s : Were Obj Thread} (h : s.Tracks) {t : Thread}
    {activities : List (Activity Obj)} (hgood : ∀ a ∈ activities, s.Good a) :
    (s.put t activities).Tracks := by
  refine { h with good := fun t' a ha => ?_ }
  by_cases ht : t' = t
  · subst ht
    simp only [Were.put, Function.update_self] at ha
    exact hgood a ha
  · simp only [Were.put, Function.update_of_ne ht] at ha
    exact h.good t' a ha

/-- A queue of calls is replaced by one whose calls may be started. -/
theorem Tracks.queue {s : Were Obj Thread} (h : s.Tracks) {t : Thread}
    {posted : List (Posted Obj)}
    (hposted : ∀ p ∈ posted, Covers s.history p.connection p.emission) :
    { s with callQueue := Function.update s.callQueue t posted }.Tracks := by
  refine { h with posted := fun t' p hp => ?_ }
  by_cases ht : t' = t
  · subst ht
    simp only [Function.update_self] at hp
    exact hposted p hp
  · simp only [Function.update_of_ne ht] at hp
    exact h.posted t' p hp

/-- An emission takes a list that nothing has cut. -/
theorem Tracks.emit {s : Were Obj Thread} (h : s.Tracks) {t : Thread} (signal : Signal Obj)
    {below : List (Activity Obj)} (hbelow : ∀ a ∈ below, s.Good a) :
    (s.emit t signal below).Tracks := by
  have hlog : (s.log (.emitted signal)).Tracks := h.log trivial
  refine hlog.put ?_
  rintro a (- | ⟨-, ha⟩)
  · intro x hx
    refine ⟨(h.entries signal x hx).1, fun c hc => ⟨?_, fun i hi => ?_⟩⟩
    · rw [((h.entries signal x hx).2 c hc).1]
      simp [Were.log]
    · exfalso
      have hmem : .broke c ∈ s.history := by
        simpa [Were.log] using List.mem_of_getElem? hi
      exact (h.broke c hmem).2 signal x hx hc
  · exact (hbelow a ha).mono (Later.log s _)

end

/-! ## Every run -/

theorem Fresh.tracks {s : Were Obj Thread} (h : s.Fresh) : s.Tracks := by
  obtain ⟨hsignals, hmade, hqueue, hstack, hhistory⟩ := h
  exact ⟨by simp [hsignals], by simp [hmade], by simp [hstack], by simp [hqueue],
    by simp [hhistory], by simp [OnlyByEarlier, hhistory]⟩

section
variable [DecidableEq Obj] [DecidableEq Thread] {thread : Obj → Thread}

/-- `connect` adds the next of its breakers. -/
theorem Tracks.connecting {s : Were Obj Thread} (h : s.Tracks) {t : Thread} {c : Connection Obj}
    {signal : Signal Obj} {connection : SignalConnection Obj}
    {rest : List (Signal Obj × SignalConnection Obj)} {below : List (Activity Obj)}
    (hstack : s.stack t = .connecting c ((signal, connection) :: rest) :: below) :
    { s.put t (.connecting c rest :: below) with
      signals := s.signals.addConnection signal connection }.Tracks := by
  have hgood := h.good t
  rw [hstack, List.forall_mem_cons] at hgood
  obtain ⟨⟨hlt, hbreakers⟩, hbelow⟩ := hgood
  obtain ⟨hcall, hrest⟩ := List.forall_mem_cons.mp hbreakers
  obtain ⟨slot, id⟩ := connection
  cases hcall
  have hadmits := admits_breaker hlt signal id
  exact (h.lists hadmits).put (List.forall_mem_cons.mpr
    ⟨⟨hlt, hrest⟩, fun a ha => (hbelow a ha).mono hadmits.later⟩)

/-- A breaker removes the next of its items; the first of them is the call. -/
theorem Tracks.breaking {s : Were Obj Thread} (h : s.Tracks) {t : Thread} {c : Connection Obj}
    {signal : Signal Obj} {id : Nat} {rest : List (Signal Obj × Nat)}
    {below : List (Activity Obj)}
    (hstack : s.stack t = .breaking c ((signal, id) :: rest) :: below) :
    { s.put t (.breaking c rest :: below) with
      signals := s.signals.removeConnection signal id }.Tracks := by
  have hgood := h.good t
  rw [hstack, List.forall_mem_cons] at hgood
  obtain ⟨⟨hlt, hitems⟩, hbelow⟩ := hgood
  have hadmits := admits_removeConnection s signal id
  refine (h.lists hadmits).put (List.forall_mem_cons.mpr
    ⟨⟨hlt, Or.inr ?_⟩, fun a ha => (hbelow a ha).mono hadmits.later⟩)
  rcases hitems with hfirst | hcut
  · cases hfirst
    exact h.cut c s.nextId
  · exact hadmits.later.cut c hlt hcut

omit [DecidableEq Obj] in
/-- An emission comes to the next entry of the list it found. -/
theorem Tracks.emitting {s : Were Obj Thread} (h : s.Tracks) {t : Thread} {e : Nat}
    {connection : SignalConnection Obj} {rest : List (SignalConnection Obj)}
    {below : List (Activity Obj)}
    (hstack : s.stack t = .emitting e (connection :: rest) :: below) :
    (∀ activities, (∀ a ∈ activities, s.Good a) →
      (s.put t (activities ++ .emitting e rest :: below)).Tracks) ∧
    connection.call.connection.pcId < s.nextId ∧
    ∀ c, connection.call.Starts c → Covers s.history c e := by
  have hgood := h.good t
  rw [hstack, List.forall_mem_cons] at hgood
  obtain ⟨hemitting, hbelow⟩ := hgood
  obtain ⟨⟨hlt, hcovers⟩, hrest⟩ := List.forall_mem_cons.mp hemitting
  refine ⟨fun activities ha => h.put (List.forall_mem_append.mpr ⟨ha, ?_⟩), hlt, hcovers⟩
  exact List.forall_mem_cons.mpr ⟨hrest, hbelow⟩

/-- What a thread is in the middle of keeps the invariant. -/
theorem Tracks.advance {s s' : Were Obj Thread} (h : s.Tracks) {t : Thread}
    (hstep : s.advance thread t = some s') : s'.Tracks := by
  have hgood := h.good t
  unfold Were.advance at hstep
  split at hstep
  case h_1 hstack =>
    cases hstep
    exact h.connecting hstack
  case h_2 c below hstack =>
    cases hstep
    rw [hstack, List.forall_mem_cons] at hgood
    have hput : (s.put t below).Tracks := h.put hgood.2
    exact { hput with
      made := List.forall_mem_append.mpr ⟨h.made, List.forall_mem_singleton.mpr hgood.1.1⟩ }
  case h_3 hstack =>
    cases hstep
    exact h.breaking hstack
  case h_4 c below hstack =>
    cases hstep
    rw [hstack, List.forall_mem_cons] at hgood
    obtain ⟨⟨hlt, hitems⟩, hbelow⟩ := hgood
    have hput : (s.put t below).Tracks := h.put hbelow
    -- no item is left, so the call has been removed
    exact hput.log ⟨hlt, hitems.resolve_left nofun⟩
  case h_5 e connection rest below hstack =>
    obtain ⟨hput, hlt, hcovers⟩ := h.emitting hstack
    split at hstep
    case h_1 c hcall =>
      cases hstep
      have hcode := hput [.code] (List.forall_mem_singleton.mpr trivial)
      exact hcode.log (hcovers c (Or.inl hcall))
    case h_2 c hcall =>
      cases hstep
      have hgoesOn := hput [] (List.forall_mem_nil _)
      refine hgoesOn.queue (List.forall_mem_append.mpr ⟨h.posted _, ?_⟩)
      exact List.forall_mem_singleton.mpr (hcovers c (Or.inr hcall))
    case h_3 c hcall =>
      cases hstep
      rw [hcall] at hlt
      exact hput [.breaking c c.items] (List.forall_mem_singleton.mpr ⟨hlt, Or.inl rfl⟩)
  case h_6 e below hstack =>
    cases hstep
    rw [hstack, List.forall_mem_cons] at hgood
    exact h.put hgood.2
  case h_7 o below hstack =>
    cases hstep
    rw [hstack, List.forall_mem_cons] at hgood
    have hput : (s.put t below).Tracks := h.put hgood.2
    exact { hput with }
  case h_8 p below hstack =>
    cases hstep
    rw [hstack, List.forall_mem_cons] at hgood
    obtain ⟨hcovers, hbelow⟩ := hgood
    have hput : (s.put t (.code :: below)).Tracks :=
      h.put (List.forall_mem_cons.mpr ⟨trivial, hbelow⟩)
    exact hput.log hcovers
  case h_9 => cases hstep

/-- So does everything code can do. -/
theorem Tracks.act {s s' : Were Obj Thread} (h : s.Tracks) {t : Thread}
    {below : List (Activity Obj)} (hstack : s.stack t = .code :: below) {op : Op Obj}
    (hstep : s.act thread t below op = some s') : s'.Tracks := by
  have hgood := h.good t
  rw [hstack] at hgood
  have hbelow : ∀ a ∈ below, s.Good a := (List.forall_mem_cons.mp hgood).2
  cases op with
  | connect source name context =>
    cases hstep
    have hadmits := admits_call (s := s) (c := Connection.make source name context s.nextId)
      rfl (Connection.slot_starts thread _)
    refine (h.lists hadmits).put (List.forall_mem_cons.mpr
      ⟨⟨Nat.lt_add_of_pos_right (by decide), ?_⟩, fun a ha => (hgood a ha).mono hadmits.later⟩)
    rintro p (- | ⟨-, - | ⟨-, hp⟩⟩)
    · rfl
    · rfl
    · cases hp
  | emit signal =>
    cases hstep
    exact h.emit signal hgood
  | breaker c =>
    simp only [Were.act, Option.ite_none_right_eq_some, Option.some.injEq] at hstep
    obtain ⟨hmade, rfl⟩ := hstep
    exact h.put (List.forall_mem_cons.mpr ⟨⟨h.made c hmade, Or.inl rfl⟩, hgood⟩)
  | collapse o =>
    simp only [Were.act] at hstep
    split at hstep
    · cases hstep
      exact h.emit _ (List.forall_mem_cons.mpr ⟨trivial, hgood⟩)
    · cases hstep
      exact h
  | integrated o =>
    simp only [Were.act, Option.ite_none_right_eq_some, Option.some.injEq] at hstep
    obtain ⟨-, rfl⟩ := hstep
    exact { h with }
  | processQueue =>
    simp only [Were.act] at hstep
    split at hstep
    · cases hstep
      exact h
    · case h_2 p rest hqueue =>
        cases hstep
        have hposted := h.posted t
        rw [hqueue, List.forall_mem_cons] at hposted
        have hput : (s.put t (.ready p :: .code :: below)).Tracks :=
          h.put (List.forall_mem_cons.mpr ⟨hposted.1, hgood⟩)
        exact hput.queue hposted.2
  | done =>
    cases hstep
    exact h.put hbelow
  | slot => cases hstep
  | advance => cases hstep

theorem Tracks.step {s s' : Were Obj Thread} (h : s.Tracks) {a : Thread × Op Obj}
    (hstep : s.step thread a = some s') : s'.Tracks := by
  obtain ⟨t, op⟩ := a
  unfold Were.step at hstep
  split at hstep
  · simp only [Option.ite_none_right_eq_some, Option.some.injEq] at hstep
    obtain ⟨-, rfl⟩ := hstep
    exact h.put (List.forall_mem_singleton.mpr trivial)
  · exact h.advance hstep
  · split at hstep
    case h_1 hstack => exact h.act hstack hstep
    case h_2 => cases hstep

end

/-- Two objects on two threads, before anything is connected. -/
def twoObjects : Were Bool Bool :=
  ⟨fun _ => [], fun _ => .integrated, 0, [], fun _ => [], fun _ => [], []⟩

end Were

end SparkleWayland

import Mathlib.Logic.Function.Basic
import Mathlib.Data.List.Basic

/-!
# Signals and connections (`were/were_signal.h`, `were/were_connect.h`)

A `were_signal` is an immutable list that `add_connection` and
`remove_connection` replace; `emit` goes through the list it found. A connection
puts three entries into such lists: its call into the signal, and its breaker
into the `destroyed` signals of source and context. The breaker removes the three.

Ids are drawn from an atomic counter of 64 bits. It is a natural number here: no run
draws 2^64 ids.
-/

namespace SparkleWayland

/-- The signals of an object: `were_capability_collapse::destroyed` and its own. -/
inductive SignalName where
  | destroyed
  | own (k : Nat)
  deriving DecidableEq

structure Signal (Obj : Type) where
  object : Obj
  name : SignalName
  deriving DecidableEq

/-- What `were::connect` was called with and the three ids it drew. -/
structure Connection (Obj : Type) where
  source : Obj
  name : SignalName
  context : Obj
  pcId : Nat
  sbId : Nat
  cbId : Nat
  deriving DecidableEq

/-- The functions `connect` puts into the lists: the call as it was passed or
wrapped by `make_queued_call`, and the breaker. -/
inductive Slot (Obj : Type) where
  | call (c : Connection Obj)
  | queuedCall (c : Connection Obj)
  | breaker (c : Connection Obj)
  deriving DecidableEq

/-- `were_signal_connection` -/
structure SignalConnection (Obj : Type) where
  call : Slot Obj
  id : Nat
  deriving DecidableEq

namespace Slot

variable {Obj : Type}

/-- The connection a slot belongs to. -/
def connection : Slot Obj → Connection Obj
  | .call c | .queuedCall c | .breaker c => c

/-- The slot runs the call of `c`, now or through the handler of the context's thread. -/
def Starts (slot : Slot Obj) (c : Connection Obj) : Prop := slot = .call c ∨ slot = .queuedCall c

theorem Starts.connection_eq {slot : Slot Obj} {c : Connection Obj} (h : slot.Starts c) :
    slot.connection = c := by
  rcases h with rfl | rfl <;> rfl

end Slot

/-- `integration_state` -/
inductive IntegrationState where
  | initial
  | integrated
  | disintegrated
  deriving DecidableEq

/-- The `connections_` of every signal. -/
abbrev Signals (Obj : Type) := Signal Obj → List (SignalConnection Obj)

namespace Signals

variable {Obj : Type} [DecidableEq Obj]

def addConnection (l : Signals Obj) (signal : Signal Obj) (connection : SignalConnection Obj) :
    Signals Obj :=
  Function.update l signal (l signal ++ [connection])

def removeConnection (l : Signals Obj) (signal : Signal Obj) (id : Nat) : Signals Obj :=
  Function.update l signal ((l signal).filter fun connection => connection.id ≠ id)

theorem mem_addConnection {l : Signals Obj} {signal signal' : Signal Obj}
    {connection x : SignalConnection Obj} :
    x ∈ l.addConnection signal connection signal' ↔
      x ∈ l signal' ∨ signal' = signal ∧ x = connection := by
  unfold addConnection
  by_cases h : signal' = signal
  · subst h
    simp
  · simp [h]

theorem mem_removeConnection {l : Signals Obj} {signal signal' : Signal Obj} {id : Nat}
    {x : SignalConnection Obj} :
    x ∈ l.removeConnection signal id signal' ↔
      x ∈ l signal' ∧ (signal' = signal → x.id ≠ id) := by
  unfold removeConnection
  by_cases h : signal' = signal
  · subst h
    simp
  · simp [h]

end Signals

namespace Connection

variable {Obj : Type}

/-- The connection that `connect` makes when the next id is `id`. -/
def make (source : Obj) (name : SignalName) (context : Obj) (id : Nat) : Connection Obj :=
  ⟨source, name, context, id, id + 1, id + 2⟩

/-- The signal connected to. -/
def signal (c : Connection Obj) : Signal Obj := ⟨c.source, c.name⟩

/-- `were_breaker::items_` -/
def items (c : Connection Obj) : List (Signal Obj × Nat) :=
  [(c.signal, c.pcId), (⟨c.source, .destroyed⟩, c.sbId), (⟨c.context, .destroyed⟩, c.cbId)]

/-- `call__`: the call itself if both objects live on one thread. -/
def slot {Thread : Type} [DecidableEq Thread] (thread : Obj → Thread) (c : Connection Obj) :
    Slot Obj :=
  if thread c.context = thread c.source then .call c else .queuedCall c

/-- The breaker's entries in the lists of the source and of the context. -/
def breakers (c : Connection Obj) : List (Signal Obj × SignalConnection Obj) :=
  [(⟨c.source, .destroyed⟩, ⟨.breaker c, c.sbId⟩), (⟨c.context, .destroyed⟩, ⟨.breaker c, c.cbId⟩)]

theorem slot_starts {Thread : Type} [DecidableEq Thread] (thread : Obj → Thread)
    (c : Connection Obj) : (c.slot thread).Starts c := by
  unfold slot
  split
  · exact Or.inl rfl
  · exact Or.inr rfl

end Connection

namespace Signals

variable {Obj : Type} [DecidableEq Obj]

/-- The three entries `connect` makes, when nothing comes in between. -/
def connect (l : Signals Obj) (c : Connection Obj) (slot : Slot Obj) : Signals Obj :=
  ((c.signal, ⟨slot, c.pcId⟩) :: c.breakers).foldl (fun l e => l.addConnection e.1 e.2) l

/-- `were_breaker::operator()`, when nothing comes in between. -/
def breaker (l : Signals Obj) (c : Connection Obj) : Signals Obj :=
  c.items.foldl (fun l item => l.removeConnection item.1 item.2) l

theorem addConnection_apply (l : Signals Obj) (signal signal' : Signal Obj)
    (connection : SignalConnection Obj) :
    l.addConnection signal connection signal' =
      l signal' ++ if signal = signal' then [connection] else [] := by
  unfold addConnection
  by_cases h : signal' = signal
  · subst h
    simp
  · simp [h, Ne.symm h]

theorem removeConnection_apply (l : Signals Obj) (signal signal' : Signal Obj) (id : Nat) :
    l.removeConnection signal id signal' =
      (l signal').filter fun connection => ¬ (signal = signal' ∧ connection.id = id) := by
  unfold removeConnection
  by_cases h : signal' = signal
  · subst h
    simp
  · simp [h, Ne.symm h]

end Signals

end SparkleWayland

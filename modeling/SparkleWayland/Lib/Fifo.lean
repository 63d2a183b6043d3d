import SparkleWayland.Lib.Machine

/-!
# First-in first-out channels

What a queue between a producer and a consumer is for, apart from any way of
storing it: everything ever put in, everything ever taken out, and what is
still waiting, tied together by the field `balance` so that a channel which
loses, repeats or reorders an element cannot be built. `Fifo.machine` is the
channel as a labelled machine, the target of refinement proofs about concrete
queues.
-/

namespace SparkleWayland

universe u

/-- A channel together with its whole history. -/
@[ext]
structure Fifo (α : Type u) where
  pushed : List α
  popped : List α
  waiting : List α
  balance : pushed = popped ++ waiting

namespace Fifo

variable {α : Type u}

/-- A channel in which `xs` is waiting and from which nothing was taken. -/
def ofWaiting (xs : List α) : Fifo α where
  pushed := xs
  popped := []
  waiting := xs
  balance := rfl

/-- Put `xs` in, in order. -/
def push (f : Fifo α) (xs : List α) : Fifo α where
  pushed := f.pushed ++ xs
  popped := f.popped
  waiting := f.waiting ++ xs
  balance := by rw [f.balance, List.append_assoc]

/-- Take the `n` oldest waiting elements out (all of them if there are fewer). -/
def pop (f : Fifo α) (n : Nat) : Fifo α where
  pushed := f.pushed
  popped := f.popped ++ f.waiting.take n
  waiting := f.waiting.drop n
  balance := by rw [List.append_assoc, List.take_append_drop, f.balance]

@[simp] theorem push_pushed (f : Fifo α) (xs : List α) :
    (f.push xs).pushed = f.pushed ++ xs := rfl
@[simp] theorem push_popped (f : Fifo α) (xs : List α) : (f.push xs).popped = f.popped := rfl
@[simp] theorem push_waiting (f : Fifo α) (xs : List α) :
    (f.push xs).waiting = f.waiting ++ xs := rfl
@[simp] theorem pop_popped (f : Fifo α) (n : Nat) :
    (f.pop n).popped = f.popped ++ f.waiting.take n := rfl
@[simp] theorem pop_waiting (f : Fifo α) (n : Nat) :
    (f.pop n).waiting = f.waiting.drop n := rfl

/-- What came out is a prefix of what went in. -/
theorem popped_prefix_pushed (f : Fifo α) : f.popped <+: f.pushed :=
  ⟨f.waiting, f.balance.symm⟩

/-- What came out, followed by any first part of what is waiting, is a prefix
of what went in. -/
theorem popped_take_prefix_pushed (f : Fifo α) (n : Nat) :
    f.popped ++ f.waiting.take n <+: f.pushed :=
  (f.pop n).popped_prefix_pushed

/-- The two operations, as labels. -/
inductive Op (α : Type u) where
  | push (xs : List α)
  | pop (n : Nat)

/-- The channel as a machine: it may start with anything waiting. -/
def machine (α : Type u) : Machine (Fifo α) (Op α) where
  start f := ∃ xs, f = ofWaiting xs
  step f op g :=
    match op with
    | .push xs => g = f.push xs
    | .pop n => g = f.pop n

theorem path_push (f : Fifo α) (xs : List α) :
    (machine α).Path f [.push xs] (f.push xs) :=
  Machine.Path.single (M := machine α) rfl

theorem path_pop (f : Fifo α) (n : Nat) : (machine α).Path f [.pop n] (f.pop n) :=
  Machine.Path.single (M := machine α) rfl

end Fifo

end SparkleWayland

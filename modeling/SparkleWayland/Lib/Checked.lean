import SparkleWayland.Lib.FixedWidth

/-!
# Arithmetic that C may leave undefined

An operation on `int` or on `uint64_t` gives its result, or the reason why there is none.
The lemmas say when it does, so that a computation of several steps is taken apart with
`bind_eq_ok_iff`.
-/

namespace SparkleWayland

/-- What C leaves undefined. -/
inductive Undefined where
  | divisionByZero
  | overflow
  deriving DecidableEq, Repr

/-- A number that an `int` holds. -/
def Defined (n : Int) : Prop := -2147483648 ≤ n ∧ n < 2147483648

instance (n : Int) : Decidable (Defined n) := inferInstanceAs (Decidable (_ ∧ _))

/-- An `int` difference. -/
def subInt (a b : Int32) : Except Undefined Int32 :=
  if Defined (a.toInt - b.toInt) then .ok (a - b) else .error .overflow

/-- An `int` product. -/
def mulInt (a b : Int32) : Except Undefined Int32 :=
  if Defined (a.toInt * b.toInt) then .ok (a * b) else .error .overflow

/-- An `int` quotient, rounded towards zero. That of `INT_MIN` and -1 is no `int`. -/
def divInt (a b : Int32) : Except Undefined Int32 :=
  if b.toInt = 0 then .error .divisionByZero
  else if Defined (a.toInt.tdiv b.toInt) then .ok (a / b)
  else .error .overflow

/-- A remainder of `uint64_t`. -/
def modUInt64 (a b : UInt64) : Except Undefined UInt64 :=
  if b = 0 then .error .divisionByZero else .ok (a % b)

theorem subInt_eq_ok_iff {a b c : Int32} :
    subInt a b = .ok c ↔ Defined (a.toInt - b.toInt) ∧ c = a - b := by
  unfold subInt
  split <;> simp_all [eq_comm]

theorem modUInt64_eq_ok_iff {a b c : UInt64} : modUInt64 a b = .ok c ↔ b ≠ 0 ∧ c = a % b := by
  unfold modUInt64
  split <;> simp_all [eq_comm]

/-- A product is told by its value. -/
theorem mulInt_eq_ok_iff {a b c : Int32} :
    mulInt a b = .ok c ↔ Defined (a.toInt * b.toInt) ∧ c.toInt = a.toInt * b.toInt := by
  unfold mulInt
  split
  case isTrue h =>
    have hvalue := Int32.toInt_mul_of_range h.1 h.2
    rw [and_iff_right h, ← hvalue, Int32.toInt_inj, Except.ok.injEq, eq_comm]
  case isFalse h => exact iff_of_false (by simp) fun hc => h hc.1

theorem divInt_eq_ok_iff {a b c : Int32} :
    divInt a b = .ok c ↔
      b.toInt ≠ 0 ∧ Defined (a.toInt.tdiv b.toInt) ∧ c.toInt = a.toInt.tdiv b.toInt := by
  unfold divInt
  split
  case isTrue hzero => exact iff_of_false (by simp) fun hc => hc.1 hzero
  case isFalse hzero =>
    split
    case isTrue h =>
      have hvalue := Int32.toInt_div_of_range h.1 h.2
      rw [and_iff_right hzero, and_iff_right h, ← hvalue, Int32.toInt_inj, Except.ok.injEq,
        eq_comm]
    case isFalse h => exact iff_of_false (by simp) fun hc => h hc.2.1

/-- A step after another one succeeds if both do. -/
theorem bind_eq_ok_iff {ε α β : Type} {x : Except ε α} {f : α → Except ε β} {b : β} :
    (x >>= f) = .ok b ↔ ∃ a, x = .ok a ∧ f a = .ok b := by
  cases x with
  | error e => simp [bind, Except.bind]
  | ok a => simp [bind, Except.bind]

end SparkleWayland

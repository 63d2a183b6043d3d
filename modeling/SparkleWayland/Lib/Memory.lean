import Mathlib.Tactic.Common

/-!
# Flat memories

Memory as seen through one base pointer: a cell for every offset. Reading a run
of cells (`read`), copying between two memories (`copy`), and little-endian 32-
and 64-bit words over byte cells (`load32`, `load64`, `store32`, `store64`). The
memory is unbounded: which offsets belong to an object is a property of the accesses,
stated where the object is known.
-/

namespace SparkleWayland

universe u

/-- A cell for every offset from a base pointer. -/
abbrev Memory (β : Type u) := Nat → β

namespace Memory

variable {β : Type u}

/-- The `n` cells from offset `a` on. -/
def read (m : Memory β) (a n : Nat) : List β :=
  (List.range n).map fun i => m (a + i)

/-- `memcpy`: the `n` cells of `src` from `s` on, to the offsets of `dst` from `d` on. -/
def copy (dst src : Memory β) (d s n : Nat) : Memory β :=
  fun i => if d ≤ i ∧ i < d + n then src (s + (i - d)) else dst i

@[simp] theorem length_read (m : Memory β) (a n : Nat) : (m.read a n).length = n := by
  simp [read]

/-! ## Little-endian words over bytes -/

section Words

variable (m : Memory (BitVec 8))

/-- The 32-bit word at byte offset `a`. -/
def load32 (a : Nat) : BitVec 32 := m (a + 3) ++ m (a + 2) ++ m (a + 1) ++ m a

/-- The 64-bit word at byte offset `a`. -/
def load64 (a : Nat) : BitVec 64 := m.load32 (a + 4) ++ m.load32 a

/-- Store a 32-bit word at byte offset `a`. -/
def store32 (a : Nat) (v : BitVec 32) : Memory (BitVec 8) :=
  fun i => if a ≤ i ∧ i < a + 4 then v.extractLsb' (8 * (i - a)) 8 else m i

/-- Store a 64-bit word at byte offset `a`. -/
def store64 (a : Nat) (v : BitVec 64) : Memory (BitVec 8) :=
  (m.store32 a (v.extractLsb' 0 32)).store32 (a + 4) (v.extractLsb' 32 32)

/-- A word is the concatenation of its four bytes. -/
theorem extract_bytes (v : BitVec 32) :
    v.extractLsb' 24 8 ++ v.extractLsb' 16 8 ++ v.extractLsb' 8 8 ++ v.extractLsb' 0 8 = v := by
  rw [BitVec.extractLsb'_append_extractLsb'_eq_extractLsb' (show 24 = 16 + 8 from rfl),
    BitVec.extractLsb'_append_extractLsb'_eq_extractLsb' (show 16 = 8 + 8 from rfl),
    BitVec.extractLsb'_append_extractLsb'_eq_extractLsb' (show 8 = 0 + 8 from rfl)]
  exact BitVec.extractLsb'_eq_self

@[simp] theorem load32_store32 (a : Nat) (v : BitVec 32) : (m.store32 a v).load32 a = v := by
  have byte : ∀ k, k < 4 → m.store32 a v (a + k) = v.extractLsb' (8 * k) 8 := by
    intro k hk
    rw [store32, if_pos (by omega), Nat.add_sub_cancel_left]
  have b0 : m.store32 a v a = v.extractLsb' 0 8 := byte 0 (by omega)
  rw [load32, byte 3 (by omega), byte 2 (by omega), byte 1 (by omega), b0]
  exact extract_bytes v

theorem load32_store32_of_disjoint {a b : Nat} (v : BitVec 32) (h : b + 4 ≤ a ∨ a + 4 ≤ b) :
    (m.store32 a v).load32 b = m.load32 b := by
  have byte : ∀ k, k < 4 → m.store32 a v (b + k) = m (b + k) := by
    intro k hk
    rw [store32, if_neg (by omega)]
  have b0 : m.store32 a v b = m b := byte 0 (by omega)
  rw [load32, byte 3 (by omega), byte 2 (by omega), byte 1 (by omega), b0, load32]

/-- The lower half of a stored 64-bit word. -/
theorem load32_store64_low (a : Nat) (v : BitVec 64) :
    (m.store64 a v).load32 a = v.extractLsb' 0 32 := by
  rw [store64, load32_store32_of_disjoint _ _ (Or.inl (Nat.le_refl _)), load32_store32]

/-- The upper half of a stored 64-bit word. -/
theorem load32_store64_high (a : Nat) (v : BitVec 64) :
    (m.store64 a v).load32 (a + 4) = v.extractLsb' 32 32 := by
  rw [store64, load32_store32]

theorem load32_store64_of_disjoint {a b : Nat} (v : BitVec 64) (h : b + 4 ≤ a ∨ a + 8 ≤ b) :
    (m.store64 a v).load32 b = m.load32 b := by
  rw [store64, load32_store32_of_disjoint _ _ (by omega),
    load32_store32_of_disjoint _ _ (by omega)]

end Words

end Memory

end SparkleWayland

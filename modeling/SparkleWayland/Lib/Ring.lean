import SparkleWayland.Lib.Memory
import Mathlib.Data.Nat.ModEq

/-!
# Cyclic storage

A memory of `S` cells used as a ring: the element at stream position `p` lives in
cell `p % S`. Positions grow without bound; only the window of the last `S` of
them is stored. `cyclic` is the stream between two positions, and the lemmas say
how it splits, when it is one straight run of cells, and what a straight copy
into the free part does to it.
-/

namespace SparkleWayland

namespace Memory

universe u

variable {β : Type u}

/-- The `n` elements of the stream from position `r` on, in a ring of `S` cells. -/
def cyclic (m : Memory β) (S r n : Nat) : List β :=
  (List.range n).map fun i => m ((r + i) % S)

@[simp] theorem length_cyclic (m : Memory β) (S r n : Nat) : (m.cyclic S r n).length = n := by
  simp [cyclic]

theorem cyclic_add (m : Memory β) (S r n k : Nat) :
    m.cyclic S r (n + k) = m.cyclic S r n ++ m.cyclic S (r + n) k := by
  simp [cyclic, List.range_add, Nat.add_assoc]

/-- A stream is taken apart at any of its positions. -/
theorem cyclic_split (m : Memory β) (S r : Nat) {k n : Nat} (h : k ≤ n) :
    (m.cyclic S r n).take k = m.cyclic S r k ∧
      (m.cyclic S r n).drop k = m.cyclic S (r + k) (n - k) := by
  obtain ⟨d, rfl⟩ := Nat.exists_eq_add_of_le h
  rw [cyclic_add, Nat.add_sub_cancel_left]
  exact ⟨List.take_left' (length_cyclic _ _ _ _), List.drop_left' (length_cyclic _ _ _ _)⟩

/-- A position inside a straight run is found by plain addition. -/
theorem mod_add_of_straight {S w j : Nat} (h : w % S + j < S) : (w + j) % S = w % S + j := by
  rw [Nat.add_mod, Nat.mod_eq_of_lt (show j < S by omega), Nat.mod_eq_of_lt h]

/-- Up to the end of the ring the stream is a straight run of cells. -/
theorem cyclic_eq_read (m : Memory β) {S r n : Nat} (h : r % S + n ≤ S) :
    m.cyclic S r n = m.read (r % S) n := by
  refine List.map_congr_left fun i hi => ?_
  have hlt := List.mem_range.mp hi
  rw [mod_add_of_straight (show r % S + i < S by omega)]

/-- Positions less than `S` apart live in different cells. -/
theorem mod_ne_of_lt {S p d : Nat} (hd : 0 < d) (hS : d < S) : p % S ≠ (p + d) % S := by
  intro h
  have hmod : p + 0 ≡ p + d [MOD S] := h
  have hdvd := (Nat.ModEq.add_left_cancel' p hmod).symm
  rw [Nat.ModEq, Nat.mod_eq_of_lt hS, Nat.zero_mod] at hdvd
  omega

variable {dst src : Memory β} {S w s n : Nat}

/-- A straight copy puts the copied cells into the stream at its position. -/
theorem cyclic_copy (h : w % S + n ≤ S) :
    (dst.copy src (w % S) s n).cyclic S w n = src.read s n := by
  refine List.map_congr_left fun i hi => ?_
  have hlt := List.mem_range.mp hi
  rw [mod_add_of_straight (show w % S + i < S by omega), copy,
    if_pos (by omega), Nat.add_sub_cancel_left]

/-- A straight copy behind the stored stream leaves it alone as long as both fit
into the ring. -/
theorem cyclic_copy_of_fits {r k : Nat} (hw : w = r + k) (h : w % S + n ≤ S) (hfit : k + n ≤ S) :
    (dst.copy src (w % S) s n).cyclic S r k = dst.cyclic S r k := by
  refine List.map_congr_left fun i hi => ?_
  have hlt := List.mem_range.mp hi
  rw [copy, if_neg]
  rintro ⟨hl, hu⟩
  obtain ⟨j, hj⟩ := Nat.exists_eq_add_of_le hl
  have hcell : (r + i) % S = (r + i + (k - i + j)) % S := by
    rw [hj, ← mod_add_of_straight (show w % S + j < S by omega), hw,
      show r + k + j = r + i + (k - i + j) by omega]
  exact mod_ne_of_lt (show 0 < k - i + j by omega) (by omega) hcell

/-- **Writing to a ring** appends to the stored stream. -/
theorem cyclic_write {r k : Nat} (hw : w = r + k) (h : w % S + n ≤ S) (hfit : k + n ≤ S) :
    (dst.copy src (w % S) s n).cyclic S r (k + n) = dst.cyclic S r k ++ src.read s n := by
  rw [cyclic_add, cyclic_copy_of_fits hw h hfit, ← hw, cyclic_copy h]

end Memory

end SparkleWayland

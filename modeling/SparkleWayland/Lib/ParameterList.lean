import Mathlib.Data.List.DropRight

/-!
# Parameter lists as text

The parameters in the text of a declaration are what stands between its commas. A parameter is
its type followed by its name, with blanks around the two that mean nothing. `piece_join`
says what types a list has that was written one parameter after the other, however many
blanks stand behind the commas, and also if there are commas in the parameters.
-/

namespace SparkleWayland

universe u

/-- The characters of a declaration. -/
structure ParameterLexis (α : Type u) where
  comma : α
  blank : α → Bool
  word : α → Bool
  comma_not_blank : blank comma = false

namespace ParameterLexis

variable {α : Type u} (x : ParameterLexis α)

/-- Without the blanks at both ends. -/
def trim (text : List α) : List α := (text.dropWhile x.blank).rdropWhile x.blank

/-- A parameter without its name. -/
def typeOf (parameter : List α) : List α :=
  ((x.trim parameter).rdropWhile x.word).rdropWhile x.blank

variable {x} in
theorem typeOf_blank_append {blanks parameter : List α} (h : ∀ c ∈ blanks, x.blank c = true) :
    x.typeOf (blanks ++ parameter) = x.typeOf parameter := by
  rw [typeOf, typeOf, trim, trim, List.dropWhile_append_of_pos h]

/-- A parameter, and others that were written behind it, each after a comma and blanks. -/
def join (first : List α) (rest : List (List α × List α)) : List α :=
  first ++ rest.flatMap fun p => x.comma :: (p.1 ++ p.2)

variable [BEq α]

/-- The types of what may be several parameters. -/
def piece (text : List α) : List (List α) := (text.splitOn x.comma).map x.typeOf

/-- The types of the parameters in the text of a list. -/
def types (text : List α) : List (List α) := if text.isEmpty then [] else x.piece text

variable {x} [LawfulBEq α]

/-- Blanks before a text change none of its types. -/
theorem piece_blank_append {blanks text : List α} (h : ∀ c ∈ blanks, x.blank c = true) :
    x.piece (blanks ++ text) = x.piece text := by
  have hblanks : x.comma ∉ blanks := by
    intro hmem
    have hblank := h _ hmem
    rw [x.comma_not_blank] at hblank
    cases hblank
  rw [piece, piece]
  by_cases hcomma : x.comma ∈ text
  · -- the blanks are in the first of the parts
    obtain ⟨first, rest, rfl, hfirst⟩ := List.eq_append_cons_of_mem hcomma
    have hnot : x.comma ∉ blanks ++ first := by
      rw [List.mem_append]
      exact not_or.mpr ⟨hblanks, hfirst⟩
    rw [← List.append_assoc, List.splitOn_append_cons_self_of_not_mem hnot,
      List.splitOn_append_cons_self_of_not_mem hfirst, List.map_cons, List.map_cons,
      typeOf_blank_append h]
  · have hnot : x.comma ∉ blanks ++ text := by
      rw [List.mem_append]
      exact not_or.mpr ⟨hblanks, hcomma⟩
    rw [List.splitOn_eq_singleton hnot, List.splitOn_eq_singleton hcomma, List.map_singleton,
      List.map_singleton, typeOf_blank_append h]

/-- A comma separates. -/
theorem piece_append_comma (text text' : List α) :
    x.piece (text ++ x.comma :: text') = x.piece text ++ x.piece text' := by
  rw [piece, List.splitOn_append_cons_self, List.map_append]
  rfl

/-- A comma and blanks separate. -/
theorem piece_append_separator {blanks : List α} (text text' : List α)
    (h : ∀ c ∈ blanks, x.blank c = true) :
    x.piece (text ++ x.comma :: (blanks ++ text')) = x.piece text ++ x.piece text' := by
  rw [piece_append_comma, piece_blank_append h]

/-- **Joined parameters** have the types that they have apart. -/
theorem piece_join {first : List α} {rest : List (List α × List α)}
    (h : ∀ p ∈ rest, ∀ c ∈ p.1, x.blank c = true) :
    x.piece (x.join first rest) = x.piece first ++ rest.flatMap fun p => x.piece p.2 := by
  induction rest generalizing first with
  | nil =>
    rw [join, List.flatMap_nil, List.flatMap_nil, List.append_nil, List.append_nil]
  | cons p rest ih =>
    obtain ⟨hp, hrest⟩ := List.forall_mem_cons.mp h
    have hsplit : x.join first (p :: rest) =
        first ++ x.comma :: (p.1 ++ x.join p.2 rest) := by
      rw [join, join, List.flatMap_cons, List.cons_append, List.append_assoc]
    rw [hsplit, piece_append_separator _ _ hp, ih hrest, List.flatMap_cons]

omit [LawfulBEq α] in
/-- There is one type more than there are commas. -/
theorem length_piece (text : List α) : (x.piece text).length = text.count x.comma + 1 := by
  rw [piece, List.length_map]
  induction text with
  | nil => rfl
  | cons c text ih =>
    rw [List.splitOn_cons_eq_if_modifyHead, List.count_cons]
    split
    · rw [List.length_cons, ih]
    · rw [List.length_modifyHead, ih, Nat.add_zero]

end ParameterLexis

end SparkleWayland

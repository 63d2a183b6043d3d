import Mathlib.Data.List.Basic

/-!
# Regular expressions with groups

Patterns over any alphabet: characters of a class, greedy repetitions of one, sequences,
alternatives and capturing groups. `attempts` is the backtracking matcher: all ways to match
a pattern at the start of a text, in the order in which they are tried. `regexMatch` takes the
first that leaves nothing over, as `std::regex_match` does.

What a pattern matches is said by the relation `Matches`, without an order. The matcher
finds just that (`mem_attempts_iff`), and where the groups of a match are determined by
the text, the order does not matter (`regexMatch_eq_some_iff`).
-/

namespace SparkleWayland

universe u

/-- A pattern. `many p` is the greedy repetition of the class `p`. -/
inductive Regex (α : Type u) where
  | empty
  | one (p : α → Bool)
  | many (p : α → Bool)
  | seq (r s : Regex α)
  | alt (r s : Regex α)
  | group (r : Regex α)

namespace Regex

variable {α : Type u}

/-- A class, repeated at least once. -/
def plus (p : α → Bool) : Regex α := .seq (.one p) (.many p)

/-- A fixed text. -/
def literal [DecidableEq α] : List α → Regex α
  | [] => .empty
  | c :: cs => .seq (.one (· = c)) (literal cs)

/-! ## What a pattern matches -/

/-- `Matches r text groups`: the pattern matches the whole text and captures the groups, in
the order of their opening brackets. -/
inductive Matches : Regex α → List α → List (List α) → Prop
  | empty : Matches .empty [] []
  | one {p : α → Bool} {c : α} : p c = true → Matches (.one p) [c] []
  | many {p : α → Bool} {text : List α} : (∀ c ∈ text, p c = true) → Matches (.many p) text []
  | seq {r s : Regex α} {text text' : List α} {groups groups' : List (List α)} :
      Matches r text groups → Matches s text' groups' →
        Matches (.seq r s) (text ++ text') (groups ++ groups')
  | left {r s : Regex α} {text : List α} {groups : List (List α)} :
      Matches r text groups → Matches (.alt r s) text groups
  | right {r s : Regex α} {text : List α} {groups : List (List α)} :
      Matches s text groups → Matches (.alt r s) text groups
  | group {r : Regex α} {text : List α} {groups : List (List α)} :
      Matches r text groups → Matches (.group r) text (text :: groups)

section Inversion

variable {r s : Regex α} {text : List α} {groups : List (List α)}

theorem matches_empty_iff : Matches .empty text groups ↔ text = [] ∧ groups = [] := by
  constructor
  · rintro ⟨⟩
    exact ⟨rfl, rfl⟩
  · rintro ⟨rfl, rfl⟩
    exact .empty

theorem matches_one_iff {p : α → Bool} :
    Matches (.one p) text groups ↔ (∃ c, p c = true ∧ text = [c]) ∧ groups = [] := by
  constructor
  · rintro ⟨⟩
    exact ⟨⟨_, ‹_›, rfl⟩, rfl⟩
  · rintro ⟨⟨c, hc, rfl⟩, rfl⟩
    exact .one hc

theorem matches_many_iff {p : α → Bool} :
    Matches (.many p) text groups ↔ (∀ c ∈ text, p c = true) ∧ groups = [] := by
  constructor
  · rintro ⟨⟩
    exact ⟨‹_›, rfl⟩
  · rintro ⟨h, rfl⟩
    exact .many h

theorem matches_seq_iff : Matches (.seq r s) text groups ↔
    ∃ a b g h, text = a ++ b ∧ groups = g ++ h ∧ Matches r a g ∧ Matches s b h := by
  constructor
  · rintro ⟨⟩
    exact ⟨_, _, _, _, rfl, rfl, ‹_›, ‹_›⟩
  · rintro ⟨a, b, g, h, rfl, rfl, hr, hs⟩
    exact .seq hr hs

theorem matches_alt_iff :
    Matches (.alt r s) text groups ↔ Matches r text groups ∨ Matches s text groups := by
  constructor
  · rintro ⟨⟩
    · exact Or.inl ‹_›
    · exact Or.inr ‹_›
  · rintro (h | h)
    · exact .left h
    · exact .right h

theorem matches_group_iff :
    Matches (.group r) text groups ↔ ∃ g, groups = text :: g ∧ Matches r text g := by
  constructor
  · rintro ⟨⟩
    exact ⟨_, rfl, ‹_›⟩
  · rintro ⟨g, rfl, h⟩
    exact .group h

theorem matches_plus_iff {p : α → Bool} :
    Matches (plus p) text groups ↔ text ≠ [] ∧ (∀ c ∈ text, p c = true) ∧ groups = [] := by
  rw [plus, matches_seq_iff]
  constructor
  · rintro ⟨a, b, g, h, rfl, rfl, ha, hb⟩
    obtain ⟨⟨c, hc, rfl⟩, rfl⟩ := matches_one_iff.mp ha
    obtain ⟨hall, rfl⟩ := matches_many_iff.mp hb
    exact ⟨List.cons_ne_nil _ _, List.forall_mem_cons.mpr ⟨hc, hall⟩, rfl⟩
  · rintro ⟨hne, hall, rfl⟩
    obtain ⟨c, cs, rfl⟩ := List.exists_cons_of_ne_nil hne
    obtain ⟨hc, hcs⟩ := List.forall_mem_cons.mp hall
    exact ⟨[c], cs, [], [], rfl, rfl, .one hc, .many hcs⟩

theorem matches_literal_iff [DecidableEq α] {cs : List α} :
    Matches (literal cs) text groups ↔ text = cs ∧ groups = [] := by
  induction cs generalizing text groups with
  | nil => exact matches_empty_iff
  | cons c cs ih =>
    rw [literal, matches_seq_iff]
    constructor
    · rintro ⟨a, b, g, h, rfl, rfl, ha, hb⟩
      obtain ⟨⟨d, hd, rfl⟩, rfl⟩ := matches_one_iff.mp ha
      obtain ⟨rfl, rfl⟩ := ih.mp hb
      exact ⟨congrArg (· :: b) (of_decide_eq_true hd), rfl⟩
    · rintro ⟨rfl, rfl⟩
      exact ⟨[c], cs, [], [], rfl, rfl, .one (decide_eq_true rfl), ih.mpr ⟨rfl, rfl⟩⟩

end Inversion

/-! ## The matcher -/

/-- One way to match a pattern at the start of a text. -/
structure Attempt (α : Type u) where
  text : List α
  groups : List (List α)
  rest : List α

/-- A repetition takes as many characters as it can, and gives back one after the other. -/
def longest (p : α → Bool) : List α → List (Attempt α)
  | [] => [⟨[], [], []⟩]
  | c :: cs =>
    if p c then (longest p cs).map (fun a => { a with text := c :: a.text }) ++ [⟨[], [], c :: cs⟩]
    else [⟨[], [], c :: cs⟩]

/-- All ways to match the pattern at the start, in the order in which they are tried. -/
def attempts : Regex α → List α → List (Attempt α)
  | .empty, text => [⟨[], [], text⟩]
  | .one _, [] => []
  | .one p, c :: cs => if p c then [⟨[c], [], cs⟩] else []
  | .many p, text => longest p text
  | .seq r s, text => (attempts r text).flatMap fun a =>
      (attempts s a.rest).map fun b => ⟨a.text ++ b.text, a.groups ++ b.groups, b.rest⟩
  | .alt r s, text => attempts r text ++ attempts s text
  | .group r, text => (attempts r text).map fun a => { a with groups := a.text :: a.groups }

/-- `std::regex_match`: the groups of the first way to match the whole text. -/
def regexMatch (r : Regex α) (text : List α) : Option (List (List α)) :=
  ((attempts r text).find? fun a => a.rest.isEmpty).map Attempt.groups

theorem mem_longest_iff {p : α → Bool} {text : List α} {a : Attempt α} :
    a ∈ longest p text ↔ text = a.text ++ a.rest ∧ Matches (.many p) a.text a.groups := by
  rw [matches_many_iff]
  obtain ⟨t, g, rest⟩ := a
  induction text generalizing t with
  | nil =>
    rw [longest, List.mem_singleton, Attempt.mk.injEq]
    constructor
    · rintro ⟨rfl, rfl, rfl⟩
      exact ⟨rfl, fun c hc => (List.not_mem_nil hc).elim, rfl⟩
    · rintro ⟨htext, -, rfl⟩
      obtain ⟨ht, hrest⟩ := List.append_eq_nil_iff.mp htext.symm
      exact ⟨ht, rfl, hrest⟩
  | cons c cs ih =>
    -- the way that takes nothing, which is tried last
    have hstop : (⟨t, g, rest⟩ : Attempt α) = ⟨[], [], c :: cs⟩ ↔
        t = [] ∧ c :: cs = t ++ rest ∧ g = [] := by
      rw [Attempt.mk.injEq]
      constructor
      · rintro ⟨rfl, rfl, rfl⟩
        exact ⟨rfl, rfl, rfl⟩
      · rintro ⟨rfl, hrest, rfl⟩
        exact ⟨rfl, rfl, hrest.symm⟩
    rw [longest]
    split
    case isTrue hc =>
      rw [List.mem_append, List.mem_singleton, hstop, List.mem_map]
      constructor
      · rintro (⟨⟨t', g', rest'⟩, ha, heq⟩ | ⟨rfl, htext, rfl⟩)
        · obtain ⟨rfl, rfl, rfl⟩ := Attempt.mk.inj heq
          obtain ⟨htext, hall, hg⟩ := (ih t').mp ha
          exact ⟨congrArg (c :: ·) htext, List.forall_mem_cons.mpr ⟨hc, hall⟩, hg⟩
        · exact ⟨htext, fun c hc => (List.not_mem_nil hc).elim, rfl⟩
      · rintro ⟨htext, hall, rfl⟩
        cases t with
        | nil => exact Or.inr ⟨rfl, htext, rfl⟩
        | cons d t =>
          obtain ⟨rfl, htext⟩ := List.cons.inj htext
          exact Or.inl ⟨⟨t, [], rest⟩,
            (ih t).mpr ⟨htext, (List.forall_mem_cons.mp hall).2, rfl⟩, rfl⟩
    case isFalse hc =>
      -- a character outside the class leaves that way only
      rw [List.mem_singleton, hstop]
      constructor
      · rintro ⟨rfl, htext, rfl⟩
        exact ⟨htext, fun c hc => (List.not_mem_nil hc).elim, rfl⟩
      · rintro ⟨htext, hall, rfl⟩
        cases t with
        | nil => exact ⟨rfl, htext, rfl⟩
        | cons d t =>
          obtain ⟨rfl, -⟩ := List.cons.inj htext
          exact absurd (hall c List.mem_cons_self) hc

/-- **The matcher** finds all matches of a prefix and no others. -/
theorem mem_attempts_iff {r : Regex α} {text : List α} {a : Attempt α} :
    a ∈ attempts r text ↔ text = a.text ++ a.rest ∧ Matches r a.text a.groups := by
  obtain ⟨t, g, rest⟩ := a
  induction r generalizing text t g rest with
  | empty =>
    rw [attempts, List.mem_singleton, Attempt.mk.injEq, matches_empty_iff]
    constructor
    · rintro ⟨rfl, rfl, rfl⟩
      exact ⟨rfl, rfl, rfl⟩
    · rintro ⟨rfl, rfl, rfl⟩
      exact ⟨rfl, rfl, rfl⟩
  | one p =>
    rw [matches_one_iff]
    cases text with
    | nil =>
      refine iff_of_false (List.not_mem_nil) ?_
      rintro ⟨htext, ⟨c, -, rfl⟩, -⟩
      cases htext
    | cons c cs =>
      rw [attempts]
      constructor
      · intro ha
        split at ha
        case isTrue hc =>
          cases List.mem_singleton.mp ha
          exact ⟨rfl, ⟨c, hc, rfl⟩, rfl⟩
        case isFalse => cases ha
      · rintro ⟨htext, ⟨d, hd, rfl⟩, rfl⟩
        cases htext
        rw [if_pos hd]
        exact List.mem_singleton_self _
  | many p => exact mem_longest_iff
  | seq r s ihr ihs =>
    -- the second pattern starts where the first one stopped
    rw [attempts, matches_seq_iff, List.mem_flatMap]
    constructor
    · rintro ⟨⟨t₁, g₁, rest₁⟩, ha, hb⟩
      obtain ⟨⟨t₂, g₂, rest₂⟩, hb, heq⟩ := List.mem_map.mp hb
      obtain ⟨rfl, hr⟩ := (ihr _ _ _).mp ha
      obtain ⟨hrest, hs⟩ := (ihs _ _ _).mp hb
      cases heq
      dsimp only at hrest ⊢
      exact ⟨by rw [hrest, List.append_assoc], _, _, _, _, rfl, rfl, hr, hs⟩
    · rintro ⟨htext, a, b, g₁, g₂, rfl, rfl, hr, hs⟩
      dsimp only at htext
      refine ⟨⟨a, g₁, b ++ rest⟩, (ihr _ _ _).mpr ⟨?_, hr⟩, ?_⟩
      · rw [htext, List.append_assoc]
      · exact List.mem_map.mpr ⟨⟨b, g₂, rest⟩, (ihs _ _ _).mpr ⟨rfl, hs⟩, rfl⟩
  | alt r s ihr ihs =>
    rw [attempts, List.mem_append, ihr, ihs, matches_alt_iff, and_or_left]
  | group r ih =>
    -- a group comes before those that it encloses
    rw [attempts, matches_group_iff, List.mem_map]
    constructor
    · rintro ⟨⟨t', g', rest'⟩, ha, heq⟩
      obtain ⟨rfl, hr⟩ := (ih _ _ _).mp ha
      cases heq
      exact ⟨rfl, g', rfl, hr⟩
    · dsimp only
      rintro ⟨htext, g', rfl, hr⟩
      exact ⟨⟨t, g', rest⟩, (ih _ _ _).mpr ⟨htext, hr⟩, rfl⟩

section Whole

variable {r : Regex α} {text : List α} {groups : List (List α)}

theorem matches_of_regexMatch (h : regexMatch r text = some groups) : Matches r text groups := by
  obtain ⟨a, ha, rfl⟩ := Option.map_eq_some_iff.mp h
  obtain ⟨htext, hr⟩ := mem_attempts_iff.mp (List.mem_of_find?_eq_some ha)
  have hrest := List.isEmpty_iff.mp (List.find?_some (p := fun a : Attempt α => a.rest.isEmpty) ha)
  rwa [htext, hrest, List.append_nil]

/-- `regexMatch` fails just if there is no match. -/
theorem regexMatch_eq_none_iff : regexMatch r text = none ↔ ∀ groups, ¬ Matches r text groups := by
  rw [regexMatch, Option.map_eq_none_iff, List.find?_eq_none]
  constructor
  · intro h groups hr
    refine h ⟨text, groups, []⟩ (mem_attempts_iff.mpr ⟨(List.append_nil _).symm, hr⟩) rfl
  · -- a way that leaves nothing over is a match of the whole text
    intro h a ha hrest
    obtain ⟨htext, hr⟩ := mem_attempts_iff.mp ha
    rw [List.isEmpty_iff.mp hrest, List.append_nil] at htext
    exact h a.groups (htext ▸ hr)

/-- Where the groups are determined by the text, `regexMatch` gives them. -/
theorem regexMatch_eq_some_iff (hunique : ∀ g h, Matches r text g → Matches r text h → g = h) :
    regexMatch r text = some groups ↔ Matches r text groups := by
  refine ⟨matches_of_regexMatch, fun hr => ?_⟩
  cases hfound : regexMatch r text with
  | none => exact absurd hr (regexMatch_eq_none_iff.mp hfound groups)
  | some g => rw [hunique g groups (matches_of_regexMatch hfound) hr]

end Whole

/-- Behind a run of characters of a class, up to the first character that is not in it. -/
theorem append_cons_inj {p : α → Bool} {a b s t : List α} {c d : α} (ha : ∀ x ∈ a, p x = true)
    (hb : ∀ x ∈ b, p x = true) (hc : p c = false) (hd : p d = false)
    (h : a ++ c :: s = b ++ d :: t) : a = b ∧ c = d ∧ s = t := by
  induction a generalizing b with
  | nil =>
    cases b with
    | nil =>
      obtain ⟨rfl, rfl⟩ := List.cons.inj h
      exact ⟨rfl, rfl, rfl⟩
    | cons y b =>
      obtain ⟨rfl, -⟩ := List.cons.inj h
      exact absurd (hb c List.mem_cons_self) (Bool.eq_false_iff.mp hc)
  | cons x a ih =>
    cases b with
    | nil =>
      obtain ⟨rfl, -⟩ := List.cons.inj h
      exact absurd (ha x List.mem_cons_self) (Bool.eq_false_iff.mp hd)
    | cons y b =>
      obtain ⟨rfl, htail⟩ := List.cons.inj h
      obtain ⟨rfl, hrest⟩ := ih (List.forall_mem_cons.mp ha).2 (List.forall_mem_cons.mp hb).2 htail
      exact ⟨rfl, hrest⟩

end Regex

end SparkleWayland

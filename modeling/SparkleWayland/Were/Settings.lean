import SparkleWayland.Lib.Regex
import Mathlib.Data.List.Induction
import Mathlib.Logic.Function.Basic

/-!
# The settings file (`were/were_settings.cpp`)

`were_settings` reads a file of lines. Four handlers are tried on each line, every one of
them, and a line that none of them matches is an error. `Line` is what the handlers
match, so that a line is accepted by one of them at most. `load_iff` says which files are
loaded and what is in the map afterwards.

A character is one `char` of the file.
-/

namespace SparkleWayland

/-! ## The handlers -/

/-- `std::variant<std::string, bool, int, double>`. A `double` is given by its bits. -/
inductive SettingsValue where
  | string (s : List Char)
  | bool (b : Bool)
  | int (n : Int32)
  | double (bits : UInt64)
  deriving DecidableEq, Repr

/-- `settings_` -/
abbrev SettingsMap : Type := List Char → Option SettingsValue

/-- What is thrown: `were_exception`, `std::out_of_range` by `std::stoi`, and
`std::bad_variant_access` by `std::get`. -/
inductive SettingsException where
  | wereException
  | outOfRange
  | badVariantAccess
  deriving DecidableEq, Repr

namespace Settings

/-- `\w` -/
def wordChar (c : Char) : Bool := c.isAlphanum || c = '_'

/-- `\d` -/
def digitChar (c : Char) : Bool := c.isDigit

/-- `.` -/
def anyChar (c : Char) : Bool := c ≠ '\n' && c ≠ '\r'

/-- `struct were_settings_handler` -/
structure Handler where
  re : Regex Char
  f : List (List Char) → SettingsMap → Except SettingsException SettingsMap

/-- `match.str(n)` for a group -/
def str (groups : List (List Char)) (n : Nat) : List Char := groups.getD (n - 1) []

/-- The value of a decimal numeral. -/
def decimal (digits : List Char) : Nat :=
  digits.foldl (fun n c => 10 * n + (c.toNat - '0'.toNat)) 0

/-- `std::stoi` of a string of digits -/
def stoi (digits : List Char) : Except SettingsException Int32 :=
  if decimal digits ≤ 2147483647 then .ok (Int32.ofNat (decimal digits)) else .error .outOfRange

/-- `settings_[key] = value` -/
def assign (settings : SettingsMap) (key : List Char) (value : SettingsValue) : SettingsMap :=
  Function.update settings key (some value)

/-- `(\w+) = `, and what comes behind it -/
def assignment (value : Regex Char) : Regex Char :=
  .seq (.group (.plus wordChar)) (.seq (.literal [' ', '=', ' ']) value)

/-- `#.*` -/
def commentHandler : Handler where
  re := .seq (.literal ['#']) (.many anyChar)
  f _ settings := .ok settings

/-- `(\w+) = (\d+);` -/
def numberHandler : Handler where
  re := assignment (.seq (.group (.plus digitChar)) (.literal [';']))
  f groups settings := do
    let n ← stoi (str groups 2)
    return assign settings (str groups 1) (.int n)

/-- `(\w+) = (true|false);` -/
def booleanHandler : Handler where
  re := assignment (.seq (.group (.alt (.literal ['t', 'r', 'u', 'e'])
    (.literal ['f', 'a', 'l', 's', 'e']))) (.literal [';']))
  f groups settings :=
    if str groups 2 = ['t', 'r', 'u', 'e'] then .ok (assign settings (str groups 1) (.bool true))
    else if str groups 2 = ['f', 'a', 'l', 's', 'e'] then
      .ok (assign settings (str groups 1) (.bool false))
    else .error .wereException

/-- `(\w+) = "(.+)";` -/
def stringHandler : Handler where
  re := assignment (.seq (.literal ['"']) (.seq (.group (.plus anyChar)) (.literal ['"', ';'])))
  f groups settings := .ok (assign settings (str groups 1) (.string (str groups 2)))

/-- `handlers_`, as the constructor registers them -/
def handlers : List Handler := [commentHandler, numberHandler, booleanHandler, stringHandler]

/-! ## Loading -/

/-- What a call did: whether it threw, and the map that it left. -/
abbrev Outcome : Type := Except SettingsException Unit × SettingsMap

/-- The loop of `were_settings::process_line`: the value of `ok` behind it, and the map. -/
def runHandlers (line : List Char) :
    List Handler → Bool → SettingsMap → Except SettingsException Bool × SettingsMap
  | [], ok, settings => (.ok ok, settings)
  | handler :: hs, ok, settings =>
    match Regex.regexMatch handler.re line with
    | none => runHandlers line hs ok settings
    | some groups =>
      match handler.f groups settings with
      | .ok settings => runHandlers line hs true settings
      | .error e => (.error e, settings)

/-- `were_settings::process_line` -/
def processLine (line : List Char) (settings : SettingsMap) : Outcome :=
  match runHandlers line handlers false settings with
  | (.ok true, settings) => (.ok (), settings)
  | (.ok false, settings) => (.error .wereException, settings)
  | (.error e, settings) => (.error e, settings)

/-- The lines that `std::getline` delivers one after the other. -/
def lines : List Char → List (List Char)
  | [] => []
  | c :: cs =>
    if c = '\n' then [] :: lines cs
    else
      match lines cs with
      | [] => [[c]]
      | line :: rest => (c :: line) :: rest

/-- The loop of `were_settings::load` -/
def processLines : List (List Char) → SettingsMap → Outcome
  | [], settings => (.ok (), settings)
  | line :: rest, settings =>
    match processLine line settings with
    | (.ok (), settings) => processLines rest settings
    | (.error e, settings) => (.error e, settings)

/-- `settings_.clear()` -/
def cleared : SettingsMap := fun _ => none

/-- `were_settings::load` between `lock` and `unlock`; whatever was in the map is cleared. There
is no `file` if it cannot be opened. -/
def load (file : Option (List Char)) : Outcome :=
  match file with
  | none => (.error .wereException, cleared)
  | some content => processLines (lines content) cleared

/-! ## What the handlers match -/

/-- A key. -/
structure Key where
  chars : List Char
  nonempty : chars ≠ []
  word : ∀ c ∈ chars, wordChar c = true

/-- The digits of a number. -/
structure Digits where
  chars : List Char
  nonempty : chars ≠ []
  digits : ∀ c ∈ chars, digitChar c = true

/-- The text of a comment: it has no carriage return, and, as a part of a line, no
line feed. -/
structure Remark where
  chars : List Char
  any : ∀ c ∈ chars, anyChar c = true

/-- The text of a string. It may have quotes and semicolons. -/
structure Quoted extends Remark where
  nonempty : chars ≠ []

/-- The four forms of a line. -/
inductive Form where
  | comment
  | number
  | boolean
  | string
  deriving DecidableEq, Repr

def Form.handler : Form → Handler
  | comment => commentHandler
  | number => numberHandler
  | boolean => booleanHandler
  | string => stringHandler

/-- A line that one of the handlers matches. -/
inductive Line where
  | comment (rest : Remark)
  | number (key : Key) (digits : Digits)
  | boolean (key : Key) (value : Bool)
  | string (key : Key) (text : Quoted)

/-- `key = value` -/
def equation (key : Key) (value : List Char) : List Char := key.chars ++ ' ' :: '=' :: ' ' :: value

/-- `true` or `false` -/
def word : Bool → List Char
  | true => ['t', 'r', 'u', 'e']
  | false => ['f', 'a', 'l', 's', 'e']

namespace Line

def form : Line → Form
  | comment _ => .comment
  | number _ _ => .number
  | boolean _ _ => .boolean
  | string _ _ => .string

/-- The characters of the line. -/
def render : Line → List Char
  | comment rest => '#' :: rest.chars
  | number key digits => equation key (digits.chars ++ [';'])
  | boolean key value => equation key (word value ++ [';'])
  | string key text => equation key ('"' :: (text.chars ++ ['"', ';']))

/-- The groups that the handler gets. -/
def groups : Line → List (List Char)
  | comment _ => []
  | number key digits => [key.chars, digits.chars]
  | boolean key value => [key.chars, word value]
  | string key text => [key.chars, text.chars]

end Line

section Matching

open Regex

variable {line : List Char} {g : List (List Char)}

theorem matches_assignment_iff {value : Regex Char} :
    Matches (assignment value) line g ↔
      ∃ key : Key, ∃ rest h,
        line = equation key rest ∧ g = key.chars :: h ∧ Matches value rest h := by
  rw [assignment, matches_seq_iff]
  constructor
  · rintro ⟨a, b, g, h, rfl, rfl, hkey, hrest⟩
    obtain ⟨g', rfl, hplus⟩ := matches_group_iff.mp hkey
    obtain ⟨hne, hword, rfl⟩ := matches_plus_iff.mp hplus
    obtain ⟨c, d, g, h, rfl, rfl, hliteral, hvalue⟩ := matches_seq_iff.mp hrest
    obtain ⟨rfl, rfl⟩ := matches_literal_iff.mp hliteral
    exact ⟨⟨a, hne, hword⟩, d, h, rfl, rfl, hvalue⟩
  · rintro ⟨key, rest, h, rfl, rfl, hvalue⟩
    refine ⟨key.chars, _, [key.chars], h, rfl, rfl, ?_, ?_⟩
    · exact .group (matches_plus_iff.mpr ⟨key.nonempty, key.word, rfl⟩)
    · exact .seq (matches_literal_iff.mpr ⟨rfl, rfl⟩) hvalue

/-- A group with a fixed text behind it. -/
theorem matches_group_literal_iff {r : Regex Char} {cs : List Char} :
    Matches (.seq (.group r) (.literal cs)) line g ↔
      ∃ a h, line = a ++ cs ∧ g = a :: h ∧ Matches r a h := by
  rw [matches_seq_iff]
  constructor
  · rintro ⟨a, b, g, h, rfl, rfl, hgroup, hliteral⟩
    obtain ⟨g', rfl, hr⟩ := matches_group_iff.mp hgroup
    obtain ⟨rfl, rfl⟩ := matches_literal_iff.mp hliteral
    exact ⟨a, g', rfl, List.append_nil _, hr⟩
  · rintro ⟨a, h, rfl, rfl, hr⟩
    exact ⟨a, cs, a :: h, [], rfl, (List.append_nil _).symm, .group hr,
      matches_literal_iff.mpr ⟨rfl, rfl⟩⟩

theorem matches_word_iff {a : List Char} :
    Matches (.alt (.literal ['t', 'r', 'u', 'e']) (.literal ['f', 'a', 'l', 's', 'e'])) a g ↔
      ∃ value, a = word value ∧ g = [] := by
  rw [matches_alt_iff, matches_literal_iff, matches_literal_iff]
  constructor
  · rintro (h | h)
    · exact ⟨true, h⟩
    · exact ⟨false, h⟩
  · rintro ⟨value, h⟩
    cases value with
    | true => exact Or.inl h
    | false => exact Or.inr h

/-- **The handlers** match the lines of their form, and capture their parts. -/
theorem matches_handler_iff (f : Form) :
    Matches f.handler.re line g ↔ ∃ l : Line, l.form = f ∧ line = l.render ∧ g = l.groups := by
  cases f with
  | comment =>
    change Matches (.seq (.literal ['#']) (.many anyChar)) line g ↔ _
    rw [matches_seq_iff]
    constructor
    · rintro ⟨a, b, g, h, rfl, rfl, ha, hb⟩
      obtain ⟨rfl, rfl⟩ := matches_literal_iff.mp ha
      obtain ⟨hany, rfl⟩ := matches_many_iff.mp hb
      exact ⟨.comment ⟨b, hany⟩, rfl, rfl, rfl⟩
    · rintro ⟨l, hform, rfl, rfl⟩
      cases l with
      | comment rest =>
        exact ⟨['#'], rest.chars, [], [], rfl, rfl, matches_literal_iff.mpr ⟨rfl, rfl⟩,
          .many rest.any⟩
      | _ => cases hform
  | number =>
    change Matches (assignment _) line g ↔ _
    rw [matches_assignment_iff]
    constructor
    · rintro ⟨key, rest, h, rfl, rfl, hvalue⟩
      obtain ⟨a, h, rfl, rfl, hdigits⟩ := matches_group_literal_iff.mp hvalue
      obtain ⟨hne, hall, rfl⟩ := matches_plus_iff.mp hdigits
      exact ⟨.number key ⟨a, hne, hall⟩, rfl, rfl, rfl⟩
    · rintro ⟨l, hform, rfl, rfl⟩
      cases l with
      | number key digits =>
        refine ⟨key, _, _, rfl, rfl, matches_group_literal_iff.mpr ⟨_, [], rfl, rfl, ?_⟩⟩
        exact matches_plus_iff.mpr ⟨digits.nonempty, digits.digits, rfl⟩
      | _ => cases hform
  | boolean =>
    change Matches (assignment _) line g ↔ _
    rw [matches_assignment_iff]
    constructor
    · rintro ⟨key, rest, h, rfl, rfl, hvalue⟩
      obtain ⟨a, h, rfl, rfl, hword⟩ := matches_group_literal_iff.mp hvalue
      obtain ⟨value, rfl, rfl⟩ := matches_word_iff.mp hword
      exact ⟨.boolean key value, rfl, rfl, rfl⟩
    · rintro ⟨l, hform, rfl, rfl⟩
      cases l with
      | boolean key value =>
        refine ⟨key, _, _, rfl, rfl, matches_group_literal_iff.mpr ⟨_, [], rfl, rfl, ?_⟩⟩
        exact matches_word_iff.mpr ⟨value, rfl, rfl⟩
      | _ => cases hform
  | string =>
    change Matches (assignment _) line g ↔ _
    rw [matches_assignment_iff]
    constructor
    · rintro ⟨key, rest, h, rfl, rfl, hvalue⟩
      obtain ⟨a, b, g, h, rfl, rfl, hquote, hrest⟩ := matches_seq_iff.mp hvalue
      obtain ⟨rfl, rfl⟩ := matches_literal_iff.mp hquote
      obtain ⟨a, h, rfl, rfl, htext⟩ := matches_group_literal_iff.mp hrest
      obtain ⟨hne, hall, rfl⟩ := matches_plus_iff.mp htext
      exact ⟨.string key ⟨⟨a, hall⟩, hne⟩, rfl, rfl, rfl⟩
    · rintro ⟨l, hform, rfl, rfl⟩
      cases l with
      | string key text =>
        refine ⟨key, _, _, rfl, rfl, .seq (matches_literal_iff.mpr ⟨rfl, rfl⟩) ?_⟩
        refine matches_group_literal_iff.mpr ⟨text.chars, [], rfl, rfl, ?_⟩
        exact matches_plus_iff.mpr ⟨text.nonempty, text.any, rfl⟩
      | _ => cases hform

theorem equation_inj {key key' : Key} {value value' : List Char}
    (h : equation key value = equation key' value') : key = key' ∧ value = value' := by
  obtain ⟨hkey, -, hrest⟩ := append_cons_inj key.word key'.word (by decide) (by decide) h
  obtain ⟨a, _, _⟩ := key
  obtain ⟨b, _, _⟩ := key'
  obtain rfl : a = b := hkey
  exact ⟨rfl, by simpa using hrest⟩

theorem equation_ne_comment (key : Key) (value rest : List Char) :
    equation key value ≠ '#' :: rest := by
  obtain ⟨a, hne, hword⟩ := key
  obtain ⟨c, cs, rfl⟩ := List.exists_cons_of_ne_nil hne
  intro h
  have hc := hword c List.mem_cons_self
  rw [(List.cons.inj h).1] at hc
  exact absurd hc (by decide)

/-- What begins with a digit is neither a word nor a string. -/
theorem digits_append_ne (digits : Digits) (s t : List Char) {c : Char} (hc : digitChar c = false) :
    digits.chars ++ s ≠ c :: t := by
  obtain ⟨a, hne, hall⟩ := digits
  obtain ⟨d, ds, rfl⟩ := List.exists_cons_of_ne_nil hne
  intro h
  have hd := hall d List.mem_cons_self
  rw [(List.cons.inj h).1, hc] at hd
  cases hd

/-- No line has two forms, nor two parts in a form. -/
theorem render_injective {l l' : Line} (h : l.render = l'.render) : l = l' := by
  cases l with
  | comment rest =>
    cases l' with
    | comment rest' =>
      obtain ⟨a, _⟩ := rest
      obtain ⟨b, _⟩ := rest'
      cases h
      rfl
    | _ => exact absurd h.symm (equation_ne_comment _ _ _)
  -- digits end at the semicolon, and neither a word nor a quote starts with one
  | number key digits =>
    cases l' with
    | comment rest => exact absurd h (equation_ne_comment _ _ _)
    | number key' digits' =>
      obtain ⟨rfl, hvalue⟩ := equation_inj h
      obtain ⟨a, _, _⟩ := digits
      obtain ⟨b, _, _⟩ := digits'
      cases List.append_cancel_right hvalue
      rfl
    | boolean key' value =>
      have hvalue := (equation_inj h).2
      cases value with
      | true => exact absurd hvalue (digits_append_ne _ _ _ (by decide))
      | false => exact absurd hvalue (digits_append_ne _ _ _ (by decide))
    | string key' text =>
      exact absurd (equation_inj h).2 (digits_append_ne _ _ _ (by decide))
  | boolean key value =>
    cases l' with
    | comment rest => exact absurd h (equation_ne_comment _ _ _)
    | number key' digits =>
      have hvalue := (equation_inj h).2.symm
      cases value with
      | true => exact absurd hvalue (digits_append_ne _ _ _ (by decide))
      | false => exact absurd hvalue (digits_append_ne _ _ _ (by decide))
    | boolean key' value' =>
      obtain ⟨rfl, hvalue⟩ := equation_inj h
      obtain rfl : value = value' := by revert hvalue; cases value <;> cases value' <;> decide
      rfl
    | string key' text =>
      have hvalue := (equation_inj h).2
      cases value with
      | true => exact absurd (List.cons.inj hvalue).1 (by decide)
      | false => exact absurd (List.cons.inj hvalue).1 (by decide)
  -- the text is what stands before the last two characters
  | string key text =>
    cases l' with
    | comment rest => exact absurd h (equation_ne_comment _ _ _)
    | number key' digits =>
      exact absurd (equation_inj h).2.symm (digits_append_ne _ _ _ (by decide))
    | boolean key' value =>
      have hvalue := (equation_inj h).2
      cases value with
      | true => exact absurd (List.cons.inj hvalue).1 (by decide)
      | false => exact absurd (List.cons.inj hvalue).1 (by decide)
    | string key' text' =>
      obtain ⟨rfl, hvalue⟩ := equation_inj h
      obtain ⟨⟨a, _⟩, _⟩ := text
      obtain ⟨⟨b, _⟩, _⟩ := text'
      cases List.append_cancel_right (List.cons.inj hvalue).2
      rfl

/-- Of the handlers, a line is matched by that of its form. -/
theorem regexMatch_render (f : Form) (l : Line) :
    regexMatch f.handler.re l.render = if f = l.form then some l.groups else none := by
  split
  case isTrue hform =>
    -- the groups are told by the line, which has one form only
    refine (regexMatch_eq_some_iff ?_).mpr ((matches_handler_iff f).mpr ⟨l, hform.symm, rfl, rfl⟩)
    intro g h hg hh
    obtain ⟨l₁, -, hl₁, rfl⟩ := (matches_handler_iff f).mp hg
    obtain ⟨l₂, -, hl₂, rfl⟩ := (matches_handler_iff f).mp hh
    rw [← render_injective hl₁, ← render_injective hl₂]
  case isFalse hform =>
    refine regexMatch_eq_none_iff.mpr fun g hg => ?_
    obtain ⟨l', hform', hl', -⟩ := (matches_handler_iff f).mp hg
    exact hform (render_injective hl' ▸ hform'.symm)

end Matching

/-! ## What a line does -/

/-- The assignment that the line makes. -/
def Line.assigns : Line → Option (List Char × SettingsValue)
  | .comment _ => none
  | .number key digits => some (key.chars, .int (Int32.ofNat (decimal digits.chars)))
  | .boolean key value => some (key.chars, .bool value)
  | .string key text => some (key.chars, .string text.chars)

/-- A number is at most `INT_MAX`. -/
def Line.InRange : Line → Prop
  | .number _ digits => decimal digits.chars ≤ 2147483647
  | _ => True

instance : (l : Line) → Decidable l.InRange
  | .number _ _ => inferInstanceAs (Decidable (_ ≤ _))
  | .comment _ | .boolean _ _ | .string _ _ => .isTrue trivial

/-- The map behind the line. -/
def Line.perform (l : Line) (settings : SettingsMap) : SettingsMap :=
  match l.assigns with
  | none => settings
  | some (key, value) => assign settings key value

/-- The handler of the form assigns what the line says, or throws. -/
theorem handler_render (l : Line) (settings : SettingsMap) :
    l.form.handler.f l.groups settings =
      if l.InRange then .ok (l.perform settings) else .error .outOfRange := by
  cases l with
  | comment rest => rfl
  | number key digits =>
    -- `std::stoi` throws if the number is not an `int`
    change (stoi digits.chars >>= fun n => .ok (assign settings key.chars (.int n))) =
      if decimal digits.chars ≤ 2147483647 then _ else _
    rw [stoi]
    split
    · rfl
    · rfl
  | boolean key value => cases value <;> rfl
  | string key text => rfl

/-- Of handlers of different forms, the one for the form of the line runs. -/
theorem runHandlers_render (l : Line) {forms : List Form} (hforms : forms.Nodup) (ok : Bool)
    (settings : SettingsMap) :
    runHandlers l.render (forms.map Form.handler) ok settings =
      if l.form ∈ forms then
        if l.InRange then (.ok true, l.perform settings) else (.error .outOfRange, settings)
      else (.ok ok, settings) := by
  induction forms generalizing ok settings with
  | nil => rfl
  | cons f forms ih =>
    obtain ⟨hnot, hrest⟩ := List.nodup_cons.mp hforms
    rw [List.map_cons, runHandlers, regexMatch_render]
    by_cases hf : f = l.form
    · subst hf
      rw [if_pos rfl, if_pos List.mem_cons_self]
      dsimp only
      rw [handler_render]
      by_cases hrange : l.InRange
      · rw [if_pos hrange, if_pos hrange]
        -- the handlers behind it have other forms
        exact (ih hrest true _).trans (if_neg hnot)
      · rw [if_neg hrange, if_neg hrange]
    · rw [if_neg hf]
      dsimp only
      rw [ih hrest]
      simp only [List.mem_cons, Ne.symm hf, false_or]

theorem runHandlers_other {line : List Char} (h : ∀ l : Line, line ≠ l.render)
    (forms : List Form) (ok : Bool) (settings : SettingsMap) :
    runHandlers line (forms.map Form.handler) ok settings = (.ok ok, settings) := by
  induction forms with
  | nil => rfl
  | cons f forms ih =>
    have hnone : Regex.regexMatch f.handler.re line = none := by
      refine Regex.regexMatch_eq_none_iff.mpr fun g hg => ?_
      obtain ⟨l, -, hl, -⟩ := (matches_handler_iff f).mp hg
      exact h l hl
    rw [List.map_cons, runHandlers, hnone]
    exact ih

/-- The forms in the order of their handlers. -/
def Form.all : List Form := [.comment, .number, .boolean, .string]

theorem handlers_eq : handlers = Form.all.map Form.handler := rfl

theorem Form.mem_all (f : Form) : f ∈ Form.all := by
  cases f <;> decide

/-- A line with a form is handled by the handler of that form. -/
theorem processLine_render (l : Line) (settings : SettingsMap) :
    processLine l.render settings =
      if l.InRange then (.ok (), l.perform settings) else (.error .outOfRange, settings) := by
  rw [processLine, handlers_eq, runHandlers_render l (by decide), if_pos (Form.mem_all l.form)]
  by_cases hrange : l.InRange
  · rw [if_pos hrange, if_pos hrange]
  · rw [if_neg hrange, if_neg hrange]

/-- A line without a form is an error. -/
theorem processLine_other {line : List Char} (h : ∀ l : Line, line ≠ l.render)
    (settings : SettingsMap) : processLine line settings = (.error .wereException, settings) := by
  rw [processLine, handlers_eq, runHandlers_other h]

/-! ## What a file does -/

/-- A line that is accepted. -/
def Accepted (line : List Char) : Prop := ∃ l : Line, l.InRange ∧ line = l.render

/-- The value that the last assignment to the key gives it. -/
def lastAssigned (ls : List Line) (key : List Char) : Option SettingsValue :=
  ls.reverse.findSome? fun l => l.assigns.bind fun a => if a.1 = key then some a.2 else none

theorem perform_apply (l : Line) (settings : SettingsMap) (key : List Char) :
    l.perform settings key =
      (l.assigns.bind fun a => if a.1 = key then some a.2 else none).or (settings key) := by
  rw [Line.perform]
  cases l.assigns with
  | none => rfl
  | some a =>
    obtain ⟨k, v⟩ := a
    by_cases h : k = key
    · subst h
      simp [assign]
    · simp [assign, h, Ne.symm h]

/-- The map behind some lines: what they assigned last, and otherwise what there was. -/
theorem foldl_perform (ls : List Line) (settings : SettingsMap) (key : List Char) :
    ls.foldl (fun settings l => l.perform settings) settings key =
      (lastAssigned ls key).or (settings key) := by
  induction ls using List.reverseRecOn with
  | nil => rfl
  | append_singleton ls l ih =>
    rw [List.foldl_append, List.foldl_cons, List.foldl_nil, perform_apply, ih, lastAssigned,
      lastAssigned, List.reverse_append, List.reverse_singleton, List.singleton_append,
      List.findSome?_cons]
    cases l.assigns.bind fun a => if a.1 = key then some a.2 else none with
    | none => rfl
    | some v => rfl

theorem processLines_ok_iff {rest : List (List Char)} {settings settings' : SettingsMap} :
    processLines rest settings = (.ok (), settings') ↔
      ∃ ls : List Line, (∀ l ∈ ls, l.InRange) ∧ rest = ls.map Line.render ∧
        settings' = ls.foldl (fun settings l => l.perform settings) settings := by
  induction rest generalizing settings with
  | nil =>
    constructor
    · intro h
      cases h
      exact ⟨[], fun l hl => (List.not_mem_nil hl).elim, rfl, rfl⟩
    · rintro ⟨ls, -, hls, rfl⟩
      rw [List.map_eq_nil_iff.mp hls.symm]
      rfl
  | cons line rest ih =>
    rw [processLines]
    by_cases hform : ∃ l : Line, line = l.render
    · obtain ⟨l, rfl⟩ := hform
      rw [processLine_render]
      by_cases hrange : l.InRange
      · rw [if_pos hrange]
        dsimp only
        rw [ih]
        constructor
        · rintro ⟨ls, hls, rfl, rfl⟩
          exact ⟨l :: ls, List.forall_mem_cons.mpr ⟨hrange, hls⟩, rfl, rfl⟩
        · rintro ⟨ls, hls, hrender, rfl⟩
          obtain ⟨l', ls, rfl, hl, rfl⟩ := List.map_eq_cons_iff.mp hrender.symm
          cases render_injective hl
          exact ⟨ls, (List.forall_mem_cons.mp hls).2, rfl, rfl⟩
      · rw [if_neg hrange]
        refine iff_of_false (by simp) ?_
        rintro ⟨ls, hls, hrender, -⟩
        obtain ⟨l', ls, rfl, hl, -⟩ := List.map_eq_cons_iff.mp hrender.symm
        cases render_injective hl
        exact hrange (List.forall_mem_cons.mp hls).1
    · rw [processLine_other (not_exists.mp hform)]
      refine iff_of_false (by simp) ?_
      rintro ⟨ls, -, hrender, -⟩
      obtain ⟨l, ls, rfl, hl, -⟩ := List.map_eq_cons_iff.mp hrender.symm
      exact hform ⟨l, hl.symm⟩

/-- Accepted lines, as a list. -/
theorem accepted_iff_map {ls : List (List Char)} :
    (∀ line ∈ ls, Accepted line) ↔
      ∃ lines : List Line, (∀ l ∈ lines, l.InRange) ∧ ls = lines.map Line.render := by
  induction ls with
  | nil =>
    exact ⟨fun _ => ⟨[], fun l hl => (List.not_mem_nil hl).elim, rfl⟩,
      fun _ line hl => (List.not_mem_nil hl).elim⟩
  | cons line ls ih =>
    rw [List.forall_mem_cons, ih]
    constructor
    · rintro ⟨⟨l, hrange, rfl⟩, lines, hlines, rfl⟩
      exact ⟨l :: lines, List.forall_mem_cons.mpr ⟨hrange, hlines⟩, rfl⟩
    · rintro ⟨lines, hlines, hrender⟩
      obtain ⟨l, lines, rfl, rfl, rfl⟩ := List.map_eq_cons_iff.mp hrender.symm
      obtain ⟨hrange, hrest⟩ := List.forall_mem_cons.mp hlines
      exact ⟨⟨l, hrange, rfl⟩, lines, hrest, rfl⟩

/-! ## Lines -/

/-- A line ends before the next line feed. -/
theorem lines_append (line rest : List Char) (h : '\n' ∉ line) :
    lines (line ++ '\n' :: rest) = line :: lines rest := by
  induction line with
  | nil => rfl
  | cons c line ih =>
    obtain ⟨hc, hline⟩ := not_or.mp (List.mem_cons.not.mp h)
    rw [List.cons_append, lines, if_neg (Ne.symm hc), ih hline]

/-- The last line may lack its line feed. -/
theorem lines_last (line : List Char) (h : '\n' ∉ line) (hne : line ≠ []) :
    lines line = [line] := by
  induction line with
  | nil => exact absurd rfl hne
  | cons c line ih =>
    obtain ⟨hc, hline⟩ := not_or.mp (List.mem_cons.not.mp h)
    rw [lines, if_neg (Ne.symm hc)]
    by_cases hnil : line = []
    · subst hnil
      rfl
    · rw [ih hline hnil]

theorem newline_not_mem {content line : List Char} (h : line ∈ lines content) : '\n' ∉ line := by
  induction content generalizing line with
  | nil => cases h
  | cons c cs ih =>
    rw [lines] at h
    split at h
    case isTrue =>
      rcases List.mem_cons.mp h with rfl | h
      · exact List.not_mem_nil
      · exact ih h
    case isFalse hc =>
      -- the character belongs to the first of the lines behind it
      cases hcs : lines cs with
      | nil =>
        rw [hcs] at h
        rw [List.mem_singleton.mp h, List.mem_singleton]
        exact Ne.symm hc
      | cons first rest =>
        rw [hcs] at h ih
        rcases List.mem_cons.mp h with rfl | h
        · exact List.mem_cons.not.mpr (not_or.mpr ⟨Ne.symm hc, ih List.mem_cons_self⟩)
        · exact ih (List.mem_cons_of_mem _ h)

/-- In a line, `.` excludes nothing but the carriage return. -/
theorem anyChar_iff {content line : List Char} (h : line ∈ lines content) {c : Char}
    (hc : c ∈ line) : anyChar c = true ↔ c ≠ '\r' := by
  have hnewline : c ≠ '\n' := fun heq => newline_not_mem h (heq ▸ hc)
  simp [anyChar, hnewline]

/-- The handlers that match a line. -/
def fired (line : List Char) : List Handler :=
  handlers.filter fun handler => (Regex.regexMatch handler.re line).isSome

theorem length_fired_render (l : Line) : (fired l.render).length = 1 := by
  have hmatch : (fun f : Form => (Regex.regexMatch f.handler.re l.render).isSome) =
      fun f => decide (f = l.form) := by
    funext f
    rw [regexMatch_render]
    split <;> simp [*]
  rw [fired, handlers_eq, List.filter_map, List.length_map]
  change (List.filter (fun f : Form => (Regex.regexMatch f.handler.re l.render).isSome)
    Form.all).length = 1
  rw [hmatch]
  cases l.form <;> rfl

theorem load_eq_iff (content : List Char) (settings : SettingsMap) :
    load (some content) = (.ok (), settings) ↔
      ∃ ls : List Line, (∀ l ∈ ls, l.InRange) ∧ lines content = ls.map Line.render ∧
        settings = lastAssigned ls := by
  rw [load, processLines_ok_iff]
  refine exists_congr fun ls => and_congr_right fun _ => and_congr_right fun _ => ?_
  have hmap : ls.foldl (fun settings l => l.perform settings) cleared = lastAssigned ls :=
    funext fun key => by rw [foldl_perform, cleared, Option.or_none]
  rw [hmap]

theorem load_ok_iff (content : List Char) :
    (∃ settings, load (some content) = (.ok (), settings)) ↔
      ∀ line ∈ lines content, Accepted line := by
  rw [accepted_iff_map]
  constructor
  · rintro ⟨settings, h⟩
    obtain ⟨ls, hrange, hlines, -⟩ := (load_eq_iff content settings).mp h
    exact ⟨ls, hrange, hlines⟩
  · rintro ⟨ls, hrange, hlines⟩
    exact ⟨lastAssigned ls, (load_eq_iff content _).mpr ⟨ls, hrange, hlines, rfl⟩⟩

/-- **Loading**: a file is loaded just if each of its lines has one of the four forms, with a
number that is an `int`. Such a line is matched by one handler. The map then has what was
assigned last to each key, and nothing else. -/
theorem load_iff (content : List Char) :
    ((∃ settings, load (some content) = (.ok (), settings)) ↔
      ∀ line ∈ lines content, Accepted line) ∧
    (∀ l : Line, (fired l.render).length = 1) ∧
    ∀ settings, load (some content) = (.ok (), settings) ↔
      ∃ ls : List Line, (∀ l ∈ ls, l.InRange) ∧ lines content = ls.map Line.render ∧
        settings = lastAssigned ls :=
  ⟨load_ok_iff content, length_fired_render, load_eq_iff content⟩

/-- A quote and a semicolon in a string, and a key that is assigned again. -/
example :
    (load (some "#\na = \"x\";y\";\nb = 7;\na = true;".toList)).2 ['a'] = some (.bool true) ∧
      (load (some "a = \"x\";y\";\nb = 7;\n".toList)).2 ['a'] =
        some (.string "x\";y".toList) := by
  decide +kernel

end Settings

end SparkleWayland

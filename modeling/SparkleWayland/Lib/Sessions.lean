import Mathlib.Computability.Language

/-!
# Sessions

Traces in which something is opened under a key, used, and closed again, one session
after the other: `(open use* close)*`, the key of the close being that of the open. The
language is given by the Kleene star; `scan` recognises it from left to right, event by
event. A trace is well formed so far if it can be completed to a word of the language, which
is to say if `scan` gets through (`exists_append_mem_iff`).
-/

namespace SparkleWayland

universe u

/-- What an event does to a session. -/
inductive SessionToken (κ : Type u) where
  | opens (key : κ)
  | within
  | closes (key : κ)
  deriving DecidableEq, Repr

namespace Sessions

variable {κ : Type u}

/-- One session. -/
def session (key : κ) (n : Nat) : List (SessionToken κ) :=
  .opens key :: (List.replicate n .within ++ [.closes key])

/-- The traces of one session. -/
def single (κ : Type u) : Language (SessionToken κ) :=
  ({w | ∃ key n, w = session key n} : Set (List (SessionToken κ)))

/-- Any number of sessions, one after the other. -/
def language (κ : Type u) : Language (SessionToken κ) := KStar.kstar (single κ)

theorem nil_mem : [] ∈ language κ := Language.nil_mem_kstar _

theorem session_append_mem (key : κ) (n : Nat) {w : List (SessionToken κ)}
    (h : w ∈ language κ) : session key n ++ w ∈ language κ := by
  obtain ⟨ws, rfl, hws⟩ := Language.mem_kstar.mp h
  refine Language.mem_kstar.mpr ⟨session key n :: ws, rfl, fun y hy => ?_⟩
  rcases List.mem_cons.mp hy with rfl | hy
  · exact ⟨key, n, rfl⟩
  · exact hws y hy

/-! ## The scanner -/

section Scan

variable [DecidableEq κ]

/-- One event, with the key of the open session before and after it. -/
def next : Option κ → SessionToken κ → Option (Option κ)
  | none, .opens key => some (some key)
  | some key, .within => some (some key)
  | some key, .closes key' => if key = key' then some none else none
  | _, _ => none

section Next

variable {o : Option κ} {key : κ}

theorem next_opens_iff : (∃ o', next o (.opens key) = some o') ↔ o = none := by
  cases o <;> simp [next]

theorem next_within_iff : (∃ o', next o .within = some o') ↔ o ≠ none := by
  cases o <;> simp [next]

theorem next_closes_iff : (∃ o', next o (.closes key) = some o') ↔ o = some key := by
  cases o <;> simp [next]

end Next

/-- The key of the session that is open behind a trace. There is no result if the trace is not
well formed. -/
def scan (w : List (SessionToken κ)) : Option (Option κ) := w.foldlM next none

theorem scan_append (w w' : List (SessionToken κ)) :
    scan (w ++ w') = (scan w).bind fun o => w'.foldlM next o :=
  List.foldlM_append ..

theorem scan_concat (w : List (SessionToken κ)) (e : SessionToken κ) :
    scan (w ++ [e]) = (scan w).bind fun o => next o e := by
  rw [scan_append]
  congr 1
  funext o
  show (next o e).bind some = next o e
  exact Option.bind_fun_some _

/-- A session is over when it is scanned. -/
theorem foldlM_session (key : κ) (n : Nat) :
    (session key n).foldlM next none = some none := by
  show (List.replicate n SessionToken.within ++ [SessionToken.closes key]).foldlM next (some key) =
    some none
  induction n with
  | zero =>
    show (if key = key then some none else none : Option (Option κ)).bind some = some none
    rw [if_pos rfl]
    rfl
  | succ n ih => exact ih

/-- A trace that is scanned to the end from an open session goes on with that session and
then with others. -/
theorem mem_of_foldlM {w : List (SessionToken κ)} {o : Option κ}
    (h : w.foldlM next o = some none) :
    match o with
    | none => w ∈ language κ
    | some key => ∃ n w', w = List.replicate n .within ++ .closes key :: w' ∧ w' ∈ language κ := by
  induction w generalizing o with
  | nil =>
    cases h
    exact nil_mem
  | cons e w ih =>
    rw [List.foldlM_cons] at h
    obtain ⟨o', hnext, hrest⟩ := Option.bind_eq_some_iff.mp h
    have hw := ih hrest
    cases o with
    | none =>
      cases e with
      | opens key =>
        cases hnext
        obtain ⟨n, w', rfl, hw'⟩ := hw
        have happend := session_append_mem key n hw'
        rwa [session, List.cons_append, List.append_assoc, List.singleton_append] at happend
      | within => cases hnext
      | closes key => cases hnext
    | some key =>
      cases e with
      | opens key' => cases hnext
      | within =>
        cases hnext
        obtain ⟨n, w', rfl, hw'⟩ := hw
        exact ⟨n + 1, w', rfl, hw'⟩
      | closes key' =>
        obtain ⟨rfl, ho⟩ := Option.ite_none_right_eq_some.mp hnext
        cases ho
        exact ⟨0, w, rfl, hw⟩

/-- **The scanner** recognises the language. -/
theorem mem_language_iff {w : List (SessionToken κ)} :
    w ∈ language κ ↔ scan w = some none := by
  constructor
  · intro h
    obtain ⟨ws, rfl, hws⟩ := Language.mem_kstar.mp h
    clear h
    induction ws with
    | nil => rfl
    | cons y ws ih =>
      obtain ⟨key, n, rfl⟩ := hws y List.mem_cons_self
      rw [List.flatten_cons, scan_append, scan, foldlM_session]
      exact ih fun z hz => hws z (List.mem_cons_of_mem _ hz)
  · exact mem_of_foldlM

/-- **Prefixes**: a trace can be completed exactly if the scanner gets through. -/
theorem exists_append_mem_iff {w : List (SessionToken κ)} :
    (∃ w', w ++ w' ∈ language κ) ↔ ∃ o, scan w = some o := by
  constructor
  · rintro ⟨w', h⟩
    rw [mem_language_iff, scan_append] at h
    obtain ⟨o, ho, -⟩ := Option.bind_eq_some_iff.mp h
    exact ⟨o, ho⟩
  · rintro ⟨o, ho⟩
    cases o with
    | none => exact ⟨[], by rwa [List.append_nil, mem_language_iff]⟩
    | some key =>
      refine ⟨[.closes key], ?_⟩
      rw [mem_language_iff, scan_concat, ho]
      show (if key = key then some none else none : Option (Option κ)) = some none
      rw [if_pos rfl]

end Scan

end Sessions

end SparkleWayland

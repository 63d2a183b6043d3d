import SparkleWayland.Android.Gestures

/-!
# What native calls emit (`sparkle_android/sparkle_view.cpp`, `sparkle_android/sparkle_keymap.h`)

The native methods of a view emit the input signals of its surface. A key code is looked up in
`sparkle_keymap`, which has keys for two pairs of codes that are the same; and a code that is held
comes again, for Android repeats it. `keys_guarded_iff` says for which key events each key goes down
and up, and down again only after that.
-/

namespace SparkleWayland

/-- `sparkle_keymap` -/
def sparkleKeymap : List Int32 := [
  0, 0, 0, 0, 0, 0, 0, 19, 10, 11, 12, 13, 14, 15, 16, 17, 18, 63, 0, 111,
  116, 113, 114, 0, 123, 122, 0, 0, 22, 38, 56, 54, 40, 26, 41, 42, 43, 31, 44, 45,
  46, 58, 57, 32, 33, 24, 27, 39, 28, 30, 55, 25, 53, 29, 52, 59, 60, 64, 108, 50,
  62, 23, 65, 0, 0, 0, 36, 22, 49, 20, 21, 34, 35, 51, 47, 48, 61, 0, 0, 0,
  0, 0, 0, 0, 0, 0, 0, 0, 0, 0, 0, 0, 0, 0, 0, 0, 0, 0, 0, 0,
  0, 0, 0, 0, 0, 0, 0, 0, 0, 0, 0, 9, 0, 37, 105, 66, 78, 133, 135, 0,
  0, 127, 110, 115, 118, 0, 0, 0, 0, 0, 0, 67, 68, 69, 70, 71, 72, 73, 74, 75,
  76, 95, 96, 77, 90, 87, 88, 89, 83, 84, 85, 79, 80, 81, 106, 63, 82, 86, 91, 0,
  104, 0, 0, 0, 0, 0, 0, 0, 0, 0, 0, 0, 0, 0, 0, 0, 0, 0, 0, 0,
  0, 0, 0, 0, 0, 0, 0, 0, 0, 0, 0, 0, 0, 0, 0, 0, 0, 0, 0, 0,
  0, 0, 0, 0, 0, 0, 0, 0, 0, 0, 0, 0, 0, 0, 0, 0, 0, 0, 0, 0,
  0, 0, 0, 0, 0, 0, 0, 0, 0, 0, 0, 0, 0, 0, 0, 0, 0, 0, 0, 0,
  0, 0, 0, 0, 0, 0, 0, 0, 0, 0, 0, 0, 0, 0, 0, 0, 0, 0, 0, 0,
  0, 0, 0, 0, 0, 0, 0, 0, 0, 0, 0, 0, 0, 0, 0, 0, 0, 0, 0, 0,
  0, 0, 0, 0, 0, 0, 0, 0, 0, 0, 0, 0, 0, 0, 0, 0, 0, 0, 0, 0]

/-- The entry that `key_down` and `key_up` read. There is none outside of the table. -/
def keymapAt (code : Int32) : Option Int32 :=
  if 0 ≤ code.toInt then sparkleKeymap[code.toInt.toNat]? else none

variable {F : Type}

/-- What a native method emits. `toInt` is the conversion from `jfloat` to `int`; there is no
result where a table has no entry. -/
def NativeCall.emits (toInt : F → Int32) : NativeCall F → Option (List Input)
  | keyDown code => (keymapAt code).map fun x => if x ≠ 0 then [.keyDown x] else []
  | keyUp code => (keymapAt code).map fun x => if x ≠ 0 then [.keyUp x] else []
  | pointerButtonDown button => (buttonMapAt button).map fun x => [.pointerButtonDown x]
  | pointerButtonUp button => (buttonMapAt button).map fun x => [.pointerButtonUp x]
  | pointerMotion x y => some [.pointerMotion (toInt x) (toInt y)]
  | touchDown id x y => some [.touchDown id (toInt x) (toInt y)]
  | touchUp id x y => some [.touchUp id (toInt x) (toInt y)]
  | touchMotion id x y => some [.touchMotion id (toInt x) (toInt y)]

/-- What calls emit, one after the other. -/
def emitted (toInt : F → Int32) (calls : List (NativeCall F)) : Option (List Input) :=
  calls.foldlM (fun inputs c => (c.emits toInt).map (inputs ++ ·)) []

theorem emitted_concat (toInt : F → Int32) (calls : List (NativeCall F)) (c : NativeCall F) :
    emitted toInt (calls ++ [c]) =
      (emitted toInt calls).bind fun inputs => (c.emits toInt).map (inputs ++ ·) := by
  rw [emitted, List.foldlM_append]
  exact bind_congr fun inputs => bind_pure _

/-! ## Keys -/

/-- What an input does to a key. -/
def Input.keyToken (key : Int32) : Input → Option (SessionToken Unit)
  | keyDown code => if code = key then some (.opens ()) else none
  | keyUp code => if code = key then some (.closes ()) else none
  | _ => none

/-- The inputs for a key. -/
def keyTokens (key : Int32) (inputs : List Input) : List (SessionToken Unit) :=
  inputs.filterMap (Input.keyToken key)

/-- A view, the key codes that Android says are down, and the native calls so far. -/
structure Keys (F : Type) where
  view : SparkleView
  held : List Int32
  calls : List (NativeCall F)

namespace Keys

inductive Label where
  | down (event : KeyEvent)
  | up (event : KeyEvent)

/-- One event. A code goes up that has gone down. -/
def step (s : Keys F) : Label → Option (Keys F)
  | .down event =>
    let h : Handled F := s.view.onKeyDown event
    some ⟨h.view, event.keyCode :: s.held, s.calls ++ h.calls⟩
  | .up event =>
    if event.keyCode ∈ s.held then
      let h : Handled F := s.view.onKeyUp event
      some ⟨h.view, s.held.filter (· ≠ event.keyCode), s.calls ++ h.calls⟩
    else none

def machine : Machine (Keys F) Label :=
  Machine.ofStep (fun s => ∃ native, native ≠ 0 ∧ s = ⟨⟨native, false, false⟩, [], []⟩) step

/-- The tables have what is looked up, every key goes down and up, and no key is left down when no
code is. -/
def Proper (toInt : F → Int32) (s : Keys F) : Prop :=
  ∃ inputs, emitted toInt s.calls = some inputs ∧ ∀ key,
    (∃ rest, keyTokens key inputs ++ rest ∈ Sessions.language Unit) ∧
      (s.held = [] → keyTokens key inputs ∈ Sessions.language Unit)

/-- The event is that of the mouse's own key for going back. -/
def IsBack (event : KeyEvent) : Prop :=
  event.keyCode = keycodeBack ∧ hasSource event.source sourceMouse = true

instance (event : KeyEvent) : Decidable (IsBack event) :=
  inferInstanceAs (Decidable (_ ∧ _))

/-- A code that goes down is in the table, and no code that is held has its key; above all not the
code itself, which a repeated event brings. -/
def Distinct (s : Keys F) : Label → Prop
  | .down event => ¬IsBack event →
    ∃ x, keymapAt event.keyCode = some x ∧ (x = 0 ∨ ∀ c ∈ s.held, keymapAt c ≠ some x)
  | .up _ => True

instance (s : Keys F) : DecidablePred s.Distinct
  | .down event =>
    decidable_of_iff (¬IsBack event → (keymapAt event.keyCode).any fun x =>
      x = 0 || s.held.all fun c => keymapAt c ≠ some x) (by
        simp only [Distinct, Option.any_eq_true, Bool.or_eq_true, List.all_eq_true,
          decide_eq_true_eq])
  | .up _ => .isTrue trivial

/-- Runs of such events. -/
def typing : Machine (Keys F) Label := machine.guarded Distinct

/-- A code that is held has the key. -/
def Down (held : List Int32) (key : Int32) : Prop := key ≠ 0 ∧ ∃ c ∈ held, keymapAt c = some key

instance (held : List Int32) (key : Int32) : Decidable (Down held key) :=
  decidable_of_iff (key ≠ 0 ∧ held.any fun c => keymapAt c = some key) (by
    simp only [Down, List.any_eq_true, decide_eq_true_eq])

/-- What is down is what codes are held for, each by one of them. -/
structure Tracks (toInt : F → Int32) (s : Keys F) : Prop where
  native : s.view.native ≠ 0
  tokens : ∃ inputs, emitted toInt s.calls = some inputs ∧ ∀ key,
    Sessions.scan (keyTokens key inputs) = some (if Down s.held key then some () else none)
  mapped : ∀ c ∈ s.held, (keymapAt c).isSome
  distinct : ∀ c ∈ s.held, ∀ c' ∈ s.held, ∀ x, x ≠ 0 → keymapAt c = some x →
    keymapAt c' = some x → c = c'

variable {toInt : F → Int32} {s t : Keys F}

theorem Tracks.proper (h : s.Tracks toInt) : s.Proper toInt := by
  obtain ⟨inputs, hinputs, htokens⟩ := h.tokens
  refine ⟨inputs, hinputs, fun key => ⟨?_, fun hheld => ?_⟩⟩
  · exact Sessions.exists_append_mem_iff.mpr ⟨_, htokens key⟩
  · rw [Sessions.mem_language_iff, htokens key, hheld, if_neg]
    rintro ⟨-, c, hc, -⟩
    cases hc

theorem keyTokens_append (key : Int32) (inputs inputs' : List Input) :
    keyTokens key (inputs ++ inputs') = keyTokens key inputs ++ keyTokens key inputs' :=
  List.filterMap_append

/-- What a handler calls for a key, and for the mouse's own. -/
theorem onKeyDown_calls {view : SparkleView} (hnative : view.native ≠ 0) (event : KeyEvent) :
    (view.onKeyDown event : Handled F).view.native = view.native ∧
      (view.onKeyDown event : Handled F).calls =
        [if IsBack event then .pointerButtonDown 2 else .keyDown event.keyCode] := by
  rw [SparkleView.onKeyDown, if_neg hnative]
  by_cases hback : IsBack event
  · rw [if_pos hback, if_pos (show _ ∧ _ from hback)]
    exact ⟨rfl, rfl⟩
  · rw [if_neg hback, if_neg (show ¬(_ ∧ _) from hback)]
    split <;> exact ⟨rfl, rfl⟩

theorem onKeyUp_calls {view : SparkleView} (hnative : view.native ≠ 0) (event : KeyEvent) :
    (view.onKeyUp event : Handled F).view.native = view.native ∧
      (view.onKeyUp event : Handled F).calls =
        [if IsBack event then .pointerButtonUp 2 else .keyUp event.keyCode] := by
  rw [SparkleView.onKeyUp, if_neg hnative]
  by_cases hback : IsBack event
  · rw [if_pos hback, if_pos (show _ ∧ _ from hback)]
    exact ⟨rfl, rfl⟩
  · rw [if_neg hback, if_neg (show ¬(_ ∧ _) from hback)]
    split <;> exact ⟨rfl, rfl⟩

/-- The key of the mouse's own code is none. -/
theorem keymapAt_back {event : KeyEvent} (h : IsBack event) : keymapAt event.keyCode = some 0 := by
  rw [h.1]
  decide

/-- A code that has no key changes nothing. -/
theorem down_cons_iff {held : List Int32} {code x key : Int32} (hx : keymapAt code = some x) :
    Down (code :: held) key ↔ (key ≠ 0 ∧ x = key) ∨ Down held key := by
  simp only [Down, List.mem_cons, exists_eq_or_imp, hx, Option.some.injEq]
  tauto

/-- A code goes up. -/
theorem down_filter_iff {held : List Int32} {code x key : Int32} (hx : keymapAt code = some x)
    (hcode : code ∈ held) (hdistinct : ∀ c ∈ held, ∀ c' ∈ held, ∀ x, x ≠ 0 →
      keymapAt c = some x → keymapAt c' = some x → c = c') :
    Down (held.filter (· ≠ code)) key ↔ key ≠ x ∧ Down held key := by
  simp only [Down, List.mem_filter, decide_eq_true_eq]
  constructor
  · rintro ⟨hkey, c, ⟨hc, hne⟩, hmap⟩
    refine ⟨?_, hkey, c, hc, hmap⟩
    rintro rfl
    exact hne (hdistinct c hc code hcode key hkey hmap hx)
  · rintro ⟨hne, hkey, c, hc, hmap⟩
    refine ⟨hkey, c, ⟨hc, ?_⟩, hmap⟩
    rintro rfl
    exact hne (Option.some.inj (hmap.symm.trans hx))

/-! ## Steps -/

/-- One more call, which does to each key what the tokens say. -/
theorem Tracks.concat (h : s.Tracks toInt) {c : NativeCall F} {new : List Input}
    (hc : c.emits toInt = some new) {held : List Int32}
    (hnext : ∀ key, (keyTokens key new).foldlM Sessions.next
      (if Down s.held key then some () else none) =
        some (if Down held key then some () else none)) :
    ∃ inputs, emitted toInt (s.calls ++ [c]) = some inputs ∧ ∀ key,
      Sessions.scan (keyTokens key inputs) = some (if Down held key then some () else none) := by
  obtain ⟨inputs, hinputs, htokens⟩ := h.tokens
  refine ⟨inputs ++ new, ?_, fun key => ?_⟩
  · rw [emitted_concat, hinputs, hc]
    rfl
  · rw [keyTokens_append, Sessions.scan_append, htokens key]
    exact hnext key

/-- Another code, whose key nothing is held for. -/
theorem distinct_cons {held : List Int32} {code x : Int32} (hx : keymapAt code = some x)
    (hfree : x = 0 ∨ ∀ c ∈ held, keymapAt c ≠ some x)
    (h : ∀ c ∈ held, ∀ c' ∈ held, ∀ x, x ≠ 0 →
      keymapAt c = some x → keymapAt c' = some x → c = c') :
    ∀ c ∈ code :: held, ∀ c' ∈ code :: held, ∀ x, x ≠ 0 → keymapAt c = some x →
      keymapAt c' = some x → c = c' := by
  have hnone : ∀ c ∈ held, ∀ y, y ≠ 0 → keymapAt code = some y → keymapAt c ≠ some y := by
    intro c hc y hy hcode
    cases hx.symm.trans hcode
    exact (hfree.resolve_left hy) c hc
  intro c hc c' hc' y hy hmap hmap'
  rcases List.mem_cons.mp hc with rfl | hmem <;> rcases List.mem_cons.mp hc' with rfl | hmem'
  · rfl
  · exact absurd hmap' (hnone c' hmem' y hy hmap)
  · exact absurd hmap (hnone c hmem y hy hmap')
  · exact h c hmem c' hmem' y hy hmap hmap'

/-- What a code does to the keys that are down. -/
theorem down_next {held : List Int32} {code x : Int32} (hx : keymapAt code = some x)
    (hfree : x = 0 ∨ ∀ c ∈ held, keymapAt c ≠ some x) (key : Int32) :
    (keyTokens key (if x ≠ 0 then [.keyDown x] else [])).foldlM Sessions.next
      (if Down held key then some () else none) =
        some (if Down (code :: held) key then some () else none) := by
  have hcons : Down (code :: held) key ↔ (key ≠ 0 ∧ x = key) ∨ Down held key := down_cons_iff hx
  by_cases hzero : x = 0
  · have hsame : Down (code :: held) key ↔ Down held key :=
      hcons.trans (or_iff_right fun hkey => hkey.1 (hkey.2 ▸ hzero))
    rw [if_neg (not_not_intro hzero)]
    simp only [hsame]
    rfl
  · rw [if_pos hzero]
    by_cases hkey : x = key
    · subst hkey
      have hup : ¬Down held x := fun hdown => by
        obtain ⟨-, c, hc, hmap⟩ := hdown
        exact hfree.resolve_left hzero c hc hmap
      rw [if_neg hup, if_pos (hcons.mpr (Or.inl ⟨hzero, rfl⟩))]
      simp [keyTokens, Input.keyToken, Sessions.next]
    · have hsame : Down (code :: held) key ↔ Down held key :=
        hcons.trans (or_iff_right fun h => hkey h.2)
      simp only [hsame]
      simp [keyTokens, Input.keyToken, hkey]

/-- **Down** -/
theorem Tracks.down (h : s.Tracks toInt) {event : KeyEvent} (hok : s.Distinct (.down event))
    (hstep : s.step (.down event) = some t) : t.Tracks toInt := by
  cases hstep
  obtain ⟨hnative, hcalls⟩ := onKeyDown_calls (F := F) h.native event
  obtain ⟨x, hx, hfree⟩ : ∃ x, keymapAt event.keyCode = some x ∧
      (x = 0 ∨ ∀ c ∈ s.held, keymapAt c ≠ some x) := by
    by_cases hback : IsBack event
    · exact ⟨0, keymapAt_back hback, Or.inl rfl⟩
    · exact hok hback
  refine ⟨hnative ▸ h.native, ?_, List.forall_mem_cons.mpr ⟨by rw [hx]; rfl, h.mapped⟩,
    distinct_cons hx hfree h.distinct⟩
  show ∃ inputs, emitted toInt (s.calls ++ (s.view.onKeyDown event).calls) = some inputs ∧ _
  rw [hcalls]
  by_cases hback : IsBack event
  · rw [if_pos hback]
    have hemits : (NativeCall.pointerButtonDown 2).emits toInt =
        some [.pointerButtonDown btnRight] :=
      rfl
    refine h.concat hemits fun key => ?_
    have hzero : x = 0 := Option.some.inj (hx.symm.trans (keymapAt_back hback))
    have hnext := down_next hx hfree key
    rwa [if_neg (not_not_intro hzero)] at hnext
  · rw [if_neg hback]
    refine h.concat (c := .keyDown event.keyCode) ?_ fun key => down_next hx hfree key
    rw [NativeCall.emits, hx]
    rfl

/-- **Up** -/
theorem Tracks.up (h : s.Tracks toInt) {event : KeyEvent}
    (hstep : s.step (.up event) = some t) : t.Tracks toInt := by
  obtain ⟨hheld, ht⟩ := Option.ite_none_right_eq_some.mp hstep
  cases ht
  obtain ⟨hnative, hcalls⟩ := onKeyUp_calls (F := F) h.native event
  obtain ⟨x, hx⟩ := Option.isSome_iff_exists.mp (h.mapped _ hheld)
  have hiff : ∀ key, Down (s.held.filter (· ≠ event.keyCode)) key ↔ key ≠ x ∧ Down s.held key :=
    fun _ => down_filter_iff hx hheld h.distinct
  refine ⟨hnative ▸ h.native, ?_, fun c hc => h.mapped c (List.mem_filter.mp hc).1,
    fun c hc c' hc' => h.distinct c (List.mem_filter.mp hc).1 c' (List.mem_filter.mp hc').1⟩
  show ∃ inputs, emitted toInt (s.calls ++ (s.view.onKeyUp event).calls) = some inputs ∧ _
  rw [hcalls]
  have hnext : ∀ key, (keyTokens key (if x ≠ 0 then [.keyUp x] else [])).foldlM Sessions.next
      (if Down s.held key then some () else none) =
        some (if Down (s.held.filter (· ≠ event.keyCode)) key then some () else none) := by
    intro key
    by_cases hzero : x = 0
    · have hsame : Down (s.held.filter (· ≠ event.keyCode)) key ↔ Down s.held key :=
        (hiff key).trans (and_iff_right_of_imp fun hdown heq => hdown.1 (heq.trans hzero))
      rw [if_neg (not_not_intro hzero)]
      simp only [hsame]
      rfl
    · rw [if_pos hzero]
      by_cases hkey : x = key
      · subst hkey
        have hdown : Down s.held x := ⟨hzero, _, hheld, hx⟩
        rw [if_pos hdown, if_neg fun hup => ((hiff x).mp hup).1 rfl]
        simp [keyTokens, Input.keyToken, Sessions.next]
      · have hsame : Down (s.held.filter (· ≠ event.keyCode)) key ↔ Down s.held key :=
          (hiff key).trans (and_iff_right (Ne.symm hkey))
        simp only [hsame]
        simp [keyTokens, Input.keyToken, hkey]
  by_cases hback : IsBack event
  · rw [if_pos hback]
    have hemits : (NativeCall.pointerButtonUp 2).emits toInt = some [.pointerButtonUp btnRight] :=
      rfl
    refine h.concat hemits fun key => ?_
    have hzero : x = 0 := Option.some.inj (hx.symm.trans (keymapAt_back hback))
    have hkey := hnext key
    rwa [if_neg (not_not_intro hzero)] at hkey
  · rw [if_neg hback]
    refine h.concat (c := .keyUp event.keyCode) ?_ hnext
    rw [NativeCall.emits, hx]
    rfl

/-- A code that is not in the table, or whose key is down, spoils the calls. -/
theorem Tracks.spoiled (h : s.Tracks toInt) {a : Label} (hnot : ¬s.Distinct a)
    (hstep : s.step a = some t) : ¬t.Proper toInt := by
  cases a with
  | up event => exact absurd trivial hnot
  | down event =>
    cases hstep
    obtain ⟨-, hcalls⟩ := onKeyDown_calls (F := F) h.native event
    obtain ⟨hback, hnot⟩ := Classical.not_imp.mp hnot
    obtain ⟨inputs, hinputs, htokens⟩ := h.tokens
    rintro ⟨inputs', hinputs', hproper⟩
    replace hinputs' : emitted toInt (s.calls ++ (s.view.onKeyDown event).calls) = some inputs' :=
      hinputs'
    rw [hcalls, if_neg hback, emitted_concat, hinputs, Option.bind_some] at hinputs'
    obtain ⟨new, hnew, rfl⟩ := Option.map_eq_some_iff.mp hinputs'
    obtain ⟨x, hx, rfl⟩ := Option.map_eq_some_iff.mp hnew
    -- there is a key, and it is down
    have hheld : ¬(x = 0 ∨ ∀ c ∈ s.held, keymapAt c ≠ some x) := fun hfree => hnot ⟨x, hx, hfree⟩
    obtain ⟨hzero, hheld⟩ := not_or.mp hheld
    have hdown : Down s.held x := by
      simp only [not_forall, not_not] at hheld
      obtain ⟨c, hc, hmap⟩ := hheld
      exact ⟨hzero, c, hc, hmap⟩
    obtain ⟨o, ho⟩ := Sessions.exists_append_mem_iff.mp (hproper x).1
    rw [keyTokens_append, Sessions.scan_append, htokens x, if_pos hdown, if_pos hzero] at ho
    simp [keyTokens, Input.keyToken, Sessions.next] at ho

theorem tracks_start {native : UInt64} (hnative : native ≠ 0) :
    (⟨⟨native, false, false⟩, [], []⟩ : Keys F).Tracks toInt where
  native := hnative
  tokens := by
    refine ⟨[], rfl, fun key => ?_⟩
    rw [if_neg]
    · rfl
    · rintro ⟨-, c, hc, -⟩
      cases hc
  mapped _ hc := absurd hc List.not_mem_nil
  distinct _ hc := absurd hc List.not_mem_nil

/-- **Keys**: in every run in which the codes that are held have different keys, each key goes down
and up and none is left down; and a next event keeps it so, however such a run goes on, exactly if
it is a code of the table whose key nothing that is held has. -/
theorem keys_guarded_iff {as : List Label} (h : typing.Reaches as s) :
    s.Proper toInt ∧ ∀ a t, machine.step s a t →
      ((∀ bs u, typing.Path t bs u → u.Proper toInt) ↔ s.Distinct a) := by
  refine Machine.guarded_exact (I := Tracks toInt) ?_ ?_ (fun s hs => hs.proper) ?_ h
  · rintro s ⟨native, hnative, rfl⟩
    exact tracks_start hnative
  · intro s a t hs hok hstep
    cases a with
    | down event => exact hs.down hok hstep
    | up event => exact hs.up hstep
  · intro s a t hs hnot hstep
    exact Machine.fails_of_not (hs.spoiled hnot hstep)

/-- `A`, the volume key and back on a keyboard, the last of which has no key. -/
def typed : List Label :=
  [.down ⟨29, 0⟩, .down ⟨keycodeVolumeDown, 0⟩, .up ⟨29, 0⟩, .down ⟨keycodeBack, 0⟩,
    .up ⟨keycodeVolumeDown, 0⟩]

theorem keys_guarded_iff_typed : ∃ s : Keys Nat, typing.Reaches typed s ∧
    emitted (fun _ => 0) s.calls = some [.keyDown 38, .keyDown 122, .keyUp 38, .keyUp 122] ∧
    s.Proper (fun _ => 0) ∧ ¬s.Distinct (.down ⟨500, 0⟩) := by
  have hrun : (typed.foldlM (fun s a => if Distinct s a then step s a else none)
      (⟨⟨1, false, false⟩, [], []⟩ : Keys Nat)).map (fun s => (s.held, s.calls)) =
      some ([4], [.keyDown 29, .keyDown 25, .keyUp 29, .keyDown 4, .keyUp 25]) := by
    decide +kernel
  obtain ⟨s, hs, hcalls⟩ := Option.map_eq_some_iff.mp hrun
  obtain ⟨hheld, hcalls⟩ := Prod.mk.inj hcalls
  have hreaches : typing.Reaches typed s :=
    ⟨_, ⟨1, by decide, rfl⟩, Machine.Path.of_guarded_run hs⟩
  refine ⟨s, hreaches, ?_, (keys_guarded_iff hreaches).1, fun hdistinct => ?_⟩
  · rw [hcalls]
    decide +kernel
  · obtain ⟨x, hx, -⟩ := hdistinct (by decide)
    have hnone : keymapAt 500 = none := by decide +kernel
    cases hnone.symm.trans hx

end Keys

end SparkleWayland

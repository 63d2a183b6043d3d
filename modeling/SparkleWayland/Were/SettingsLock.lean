import SparkleWayland.Lib.Machine
import SparkleWayland.Were.Settings

/-!
# The lock of the settings (`were/were_settings.h`)

`load` and `get` lock `mutex_` and unlock it before they return. Neither unlocks it if it is
left by an exception, and `load` has cleared the map by then. `kept_iff` says which
calls those are; after the first of them every other call waits for ever.
-/

namespace SparkleWayland

/-- The type arguments of `get`. -/
inductive SettingsType where
  | string
  | bool
  | int
  | double
  deriving DecidableEq, Repr

/-- The values of the type. -/
def SettingsType.Carrier : SettingsType → Type
  | string => List Char
  | bool => Bool
  | int => Int32
  | double => UInt64

/-- The alternative that the variant holds. -/
def SettingsValue.type : SettingsValue → SettingsType
  | string _ => .string
  | bool _ => .bool
  | int _ => .int
  | double _ => .double

/-- `std::get<T>` -/
def SettingsValue.get : SettingsValue → (type : SettingsType) →
    Except SettingsException type.Carrier
  | string s, .string => .ok s
  | bool b, .bool => .ok b
  | int n, .int => .ok n
  | double bits, .double => .ok bits
  | _, _ => .error .badVariantAccess

theorem SettingsValue.get_ok_iff (value : SettingsValue) (type : SettingsType) :
    (∃ x, value.get type = .ok x) ↔ value.type = type := by
  constructor
  · rintro ⟨x, hx⟩
    cases value <;> cases type <;> first | rfl | cases hx
  · rintro rfl
    cases value <;> exact ⟨_, rfl⟩

/-- A call that has come to its end: whether it was `load`, the map before and after it, what
it threw, and whether it released `mutex_`. -/
structure SettingsCall where
  load : Bool
  before : SettingsMap
  after : SettingsMap
  thrown : Option SettingsException
  released : Bool

/-- A `were_settings`, and the calls so far. -/
structure WereSettings where
  settings : SettingsMap
  locked : Bool
  calls : List SettingsCall

namespace WereSettings

/-- The end of a call. -/
def returned (s t : WereSettings) (load : Bool) (thrown : Option SettingsException) :
    WereSettings :=
  { t with calls := s.calls ++ [⟨load, s.settings, t.settings, thrown, !t.locked⟩] }

/-- `were_settings::load`, once `mutex_` is locked -/
def load (s : WereSettings) (file : Option (List Char)) : WereSettings :=
  match Settings.load file with
  | (.ok (), settings) => s.returned { s with settings := settings, locked := false } true none
  -- the exception leaves before `mutex_.unlock()`
  | (.error e, settings) => s.returned { s with settings := settings, locked := true } true (some e)

/-- `were_settings::get`, once `mutex_` is locked; with the value that it returns -/
def get (s : WereSettings) (type : SettingsType) (key : List Char) (default : type.Carrier) :
    WereSettings × Option type.Carrier :=
  match s.settings key with
  | none => (s.returned { s with locked := false } false none, some default)
  | some value =>
    match value.get type with
    | .ok x => (s.returned { s with locked := false } false none, some x)
    -- so does that of `std::get`
    | .error e => (s.returned { s with locked := true } false (some e), none)

/-- The calls: `load` finds the file as it is then. -/
inductive Call where
  | load (file : Option (List Char))
  | get (type : SettingsType) (key : List Char) (default : type.Carrier)

/-- One call. While `mutex_` is locked, `lock` does not return. -/
def step (s : WereSettings) (call : Call) : Option WereSettings :=
  if s.locked then none
  else
    match call with
    | .load file => some (s.load file)
    | .get type key default => some (s.get type key default).1

/-- Settings as their constructor leaves them. -/
def created : WereSettings := ⟨Settings.cleared, false, []⟩

def machine : Machine WereSettings Call := .ofStep (· = created) step

end WereSettings

/-- The call released `mutex_`, and if it was a `load` that threw, the map is as it was. -/
structure SettingsCall.Kept (call : SettingsCall) : Prop where
  released : call.released = true
  restored : call.load = true → call.thrown ≠ none → call.after = call.before

namespace WereSettings

/-- The call does not throw: the file can be opened and its lines are accepted; the key is not
in the map, or its value has the type. -/
def Calm (s : WereSettings) : Call → Prop
  | .load file => ∃ content, file = some content ∧
      ∀ line ∈ Settings.lines content, Settings.Accepted line
  | .get type key _ => ∀ value, s.settings key = some value → value.type = type

/-- All calls were as they should be. -/
def AllKept (s : WereSettings) : Prop := ∀ call ∈ s.calls, call.Kept

theorem returned_allKept_iff (s t : WereSettings) (load : Bool)
    (thrown : Option SettingsException) :
    (s.returned t load thrown).AllKept ↔ s.AllKept ∧
      SettingsCall.Kept ⟨load, s.settings, t.settings, thrown, !t.locked⟩ := by
  refine List.forall_mem_append.trans (and_congr_right fun _ => ?_)
  exact List.forall_mem_singleton

/-- A call that returns normally unlocks. -/
theorem kept_of_returned (s : WereSettings) (load : Bool) (settings : SettingsMap) :
    SettingsCall.Kept ⟨load, s.settings, settings, none, !false⟩ :=
  ⟨rfl, fun _ h => absurd rfl h⟩

theorem not_kept_of_thrown (s : WereSettings) (load : Bool) (settings : SettingsMap)
    (e : SettingsException) : ¬ SettingsCall.Kept ⟨load, s.settings, settings, some e, !true⟩ :=
  fun h => absurd h.released Bool.false_ne_true

theorem load_allKept_iff (s : WereSettings) (file : Option (List Char)) :
    (s.load file).AllKept ↔ s.AllKept ∧ s.Calm (.load file) := by
  have hcalm : s.Calm (.load file) ↔ ∃ settings, Settings.load file = (.ok (), settings) := by
    cases file with
    | none =>
      refine iff_of_false ?_ ?_
      · rintro ⟨content, h, -⟩
        cases h
      · rintro ⟨settings, h⟩
        cases h
    | some content =>
      rw [Settings.load_ok_iff]
      constructor
      · rintro ⟨content', h, hlines⟩
        cases h
        exact hlines
      · exact fun h => ⟨content, rfl, h⟩
  rw [hcalm, load]
  rcases hload : Settings.load file with ⟨result, settings⟩
  cases result with
  | ok u =>
    rw [returned_allKept_iff]
    exact and_congr_right fun _ => iff_of_true (s.kept_of_returned true settings) ⟨settings, rfl⟩
  | error e =>
    rw [returned_allKept_iff]
    exact and_congr_right fun _ => iff_of_false (s.not_kept_of_thrown true settings e) (by simp)

theorem get_allKept_iff (s : WereSettings) (type : SettingsType) (key : List Char)
    (default : type.Carrier) :
    (s.get type key default).1.AllKept ↔ s.AllKept ∧ s.Calm (.get type key default) := by
  have hcalm : s.Calm (.get type key default) ↔
      ∀ value, s.settings key = some value → value.type = type := Iff.rfl
  rw [hcalm, get]
  cases hkey : s.settings key with
  | none =>
    rw [returned_allKept_iff]
    exact and_congr_right fun _ => iff_of_true (s.kept_of_returned false s.settings) (by simp)
  | some value =>
    cases hget : value.get type with
    | ok x =>
      have htype := (value.get_ok_iff type).mp ⟨x, hget⟩
      simp only [hget]
      rw [returned_allKept_iff]
      exact and_congr_right fun _ =>
        iff_of_true (s.kept_of_returned false s.settings) (by simpa using htype)
    | error e =>
      have htype : value.type ≠ type := by
        intro h
        obtain ⟨x, hx⟩ := (value.get_ok_iff type).mpr h
        cases hget.symm.trans hx
      simp only [hget]
      rw [returned_allKept_iff]
      exact and_congr_right fun _ =>
        iff_of_false (s.not_kept_of_thrown false s.settings e) (by simpa using htype)

/-- **Step**: after a call all calls are as they should be just if they were before and the
call does not throw. -/
theorem step_allKept_iff {s t : WereSettings} {call : Call} (h : step s call = some t) :
    t.AllKept ↔ s.AllKept ∧ s.Calm call := by
  unfold step at h
  split at h
  · cases h
  · cases call with
    | load file =>
      cases h
      exact s.load_allKept_iff file
    | get type key default =>
      cases h
      exact s.get_allKept_iff type key default

/-- **The lock**: all calls of a run are as they should be just if none of them throws. -/
theorem kept_iff (calls : List Call) (s : WereSettings) :
    machine.Reaches calls s ∧ s.AllKept ↔ (machine.guarded Calm).Reaches calls s := by
  refine Machine.reaches_guarded_iff (I := fun _ => True) ?_ (fun _ _ _ _ _ => trivial) ?_
  · rintro s rfl
    exact ⟨trivial, fun call hcall => by cases hcall⟩
  · intro s call t _ hstep
    exact step_allKept_iff hstep

/-- Behind a call that threw there is no other: `lock` does not return. -/
theorem step_locked {s : WereSettings} (h : s.locked = true) (call : Call) :
    step s call = none := by
  unfold step
  rw [if_pos h]

/-- A file is loaded, and then loaded again with a line that no handler matches. -/
def reload : List Call :=
  [.load (some "DPI = 96;".toList), .load (some "DPI = 96".toList)]

/-- The second call leaves `mutex_` locked and the map empty. -/
theorem reload_unkept :
    (¬ ∀ calls s, machine.Reaches calls s → ∀ call ∈ s.calls, call.released = true) ∧
    ¬ ∀ calls s, machine.Reaches calls s → ∀ call ∈ s.calls,
      call.load = true → call.thrown ≠ none → call.after = call.before := by
  have hrun : ((reload.foldlM step created).bind fun s => s.calls.getLast?.map fun call =>
      ((call.released, call.load, call.thrown),
        (call.before "DPI".toList, call.after "DPI".toList))) =
      some ((false, true, some .wereException), (some (.int 96), none)) := by
    decide +kernel
  obtain ⟨s, hs, hlast⟩ := Option.bind_eq_some_iff.mp hrun
  obtain ⟨call, hcall, hdata⟩ := Option.map_eq_some_iff.mp hlast
  have hmem : call ∈ s.calls := List.mem_of_getLast? hcall
  have hreaches : machine.Reaches reload s := ⟨created, rfl, Machine.Path.of_run hs⟩
  simp only [Prod.mk.injEq] at hdata
  obtain ⟨⟨hreleased, hload, hthrown⟩, hbefore, hafter⟩ := hdata
  constructor
  · intro h
    exact absurd (h _ _ hreaches call hmem) (by simp [hreleased])
  · intro h
    have heq := h _ _ hreaches call hmem hload (by simp [hthrown])
    rw [heq, hbefore] at hafter
    cases hafter

end WereSettings

end SparkleWayland

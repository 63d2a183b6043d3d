import SparkleWayland.Lib.Checked
import SparkleWayland.Were.SettingsLock
import Mathlib.Data.Rat.Floor
import Mathlib.Tactic.FieldSimp
import Mathlib.Tactic.NormNum
import Mathlib.Tactic.Ring

/-!
# What a bound output is told (`sparkle_common/sparkle.cpp`)

A client that binds `wl_output` is told how many millimetres the display measures. They
are computed from its size in pixels and from the setting `DPI`, which may be any number
that `were_settings::load` accepts. `geometry_exact_iff` says for which of them C defines
the computation and the millimetres are the right ones.
-/

namespace SparkleWayland

/-- What is sent to a `sparkle_output`. -/
inductive OutputEvent where
  | geometry (x y physicalWidth physicalHeight subpixel : Int32) (make model : String)
      (transform : Int32)
  | scale (factor : Int32)
  | mode (flags : UInt32) (width height refresh : Int32)
  | done
  deriving DecidableEq, Repr

/-- Why the slot does not come to its end: what `get` threw, or what C leaves undefined. -/
inductive OutputFault where
  | thrown
  | undefined (u : Undefined)
  deriving DecidableEq, Repr

namespace Output

/-- `"DPI"` -/
def dpiKey : List Char := ['D', 'P', 'I']

/-- `width * 254 / (dpi * 10)` -/
def millimetres (pixels dpi : Int32) : Except Undefined Int32 := do
  let tenths ← mulInt pixels 254
  let divisor ← mulInt dpi 10
  divInt tenths divisor

/-- `mm_width` and `mm_height` -/
def measures (width height dpi : Int32) : Except Undefined (Int32 × Int32) := do
  let mmWidth ← millimetres width dpi
  let mmHeight ← millimetres height dpi
  return (mmWidth, mmHeight)

/-- The events in their order. Those of version 2 are `scale` and `done`. -/
def events (width height mmWidth mmHeight version : Int32) : List OutputEvent :=
  [.geometry 0 0 mmWidth mmHeight 0 "Barely working solutions" "Sparkle" 0] ++
  (if version ≥ 2 then [.scale 1] else []) ++
  [.mode 3 width height 60000] ++
  (if version ≥ 2 then [.done] else [])

/-- The slot on `sparkle_global<sparkle_output>::instance`: the settings behind it, and what
it sends. -/
def outputInstance (settings : WereSettings) (width height version : Int32) :
    WereSettings × Except OutputFault (List OutputEvent) :=
  match settings.get .int dpiKey (96 : Int32) with
  | (settings, none) => (settings, .error .thrown)
  | (settings, some dpi) =>
    match measures width height dpi with
    | .error u => (settings, .error (.undefined u))
    | .ok (mmWidth, mmHeight) => (settings, .ok (events width height mmWidth mmHeight version))

/-! ## The computation -/

/-- Between 0 and the largest size that is displayed. -/
def Displayed (n : Int32) : Prop := 0 ≤ n.toInt ∧ n.toInt ≤ 32767

instance (n : Int32) : Decidable (Displayed n) := inferInstanceAs (Decidable (_ ∧ _))

/-- The numbers of dots per inch that `millimetres` can divide by. -/
def Divisible (dpi : Int) : Prop := 1 ≤ dpi ∧ dpi ≤ 214748364

/-- The millimetres that so many pixels measure, rounded down. -/
def exactMillimetres (pixels dpi : Int) : Int := ⌊(pixels : ℚ) * 25.4 / dpi⌋

/-- The quotient of the code is that of the tenths of millimetres. -/
theorem exactMillimetres_eq_tdiv {pixels dpi : Int} (hpixels : 0 ≤ pixels) (hdpi : 0 < dpi) :
    exactMillimetres pixels dpi = (pixels * 254).tdiv (dpi * 10) := by
  obtain ⟨d, rfl⟩ := Int.eq_ofNat_of_zero_le hdpi.le
  have hne : (d : ℚ) ≠ 0 := by
    have : d ≠ 0 := by omega
    exact_mod_cast this
  have hquotient :
      (pixels : ℚ) * 25.4 / (d : Int) = ((pixels * 254 : Int) : ℚ) / (d * 10 : Nat) := by
    push_cast
    field_simp
    ring
  rw [exactMillimetres, hquotient, Rat.floor_intCast_div_natCast,
    Int.tdiv_eq_ediv_of_nonneg (by omega)]
  push_cast
  rfl

/-- It is no more than the tenths of millimetres. -/
theorem exactMillimetres_range {pixels dpi : Int} (hpixels : 0 ≤ pixels) (hdpi : 0 < dpi) :
    0 ≤ exactMillimetres pixels dpi ∧ exactMillimetres pixels dpi ≤ pixels * 254 := by
  have htenths : 0 ≤ pixels * 254 := by omega
  rw [exactMillimetres_eq_tdiv hpixels hdpi, Int.tdiv_eq_ediv_of_nonneg htenths]
  exact ⟨Int.ediv_nonneg htenths (by omega), Int.ediv_le_self _ htenths⟩

/-- What `millimetres` computes, for a number that the settings may have. -/
theorem millimetres_eq_ok_iff {pixels dpi mm : Int32} (hpixels : Displayed pixels)
    (hdpi : 0 ≤ dpi.toInt) :
    millimetres pixels dpi = .ok mm ↔
      Divisible dpi.toInt ∧ mm.toInt = exactMillimetres pixels.toInt dpi.toInt := by
  obtain ⟨hlow, hhigh⟩ := hpixels
  have h254 : Int32.toInt 254 = 254 := rfl
  have h10 : Int32.toInt 10 = 10 := rfl
  simp only [millimetres, bind_eq_ok_iff, mulInt_eq_ok_iff, divInt_eq_ok_iff, h254, h10]
  constructor
  · rintro ⟨tenths, ⟨-, htenths⟩, divisor, ⟨hdivisor, hvalue⟩, hne, -, hmm⟩
    rw [hvalue] at hne
    have hdivisible : Divisible dpi.toInt := ⟨by omega, by have := hdivisor.2; omega⟩
    refine ⟨hdivisible, ?_⟩
    rw [hmm, htenths, hvalue, exactMillimetres_eq_tdiv hlow hdivisible.1]
  · rintro ⟨⟨hpos, hle⟩, hmm⟩
    have htenths : (pixels * 254).toInt = pixels.toInt * 254 :=
      Int32.toInt_mul_of_range (by rw [h254]; omega) (by rw [h254]; omega)
    have hdivisor : (dpi * 10).toInt = dpi.toInt * 10 :=
      Int32.toInt_mul_of_range (by rw [h10]; omega) (by rw [h10]; omega)
    refine ⟨_, ⟨⟨by omega, by omega⟩, htenths⟩, _, ⟨⟨by omega, by omega⟩, hdivisor⟩, ?_⟩
    have hrange := exactMillimetres_range hlow hpos
    rw [htenths, hdivisor, hmm, ← exactMillimetres_eq_tdiv hlow hpos]
    exact ⟨by omega, ⟨by omega, by omega⟩, rfl⟩

/-- There is an `int` for each such number. -/
theorem exists_exactMillimetres {pixels : Int32} {dpi : Int} (hpixels : Displayed pixels)
    (hdpi : Divisible dpi) : ∃ mm : Int32, mm.toInt = exactMillimetres pixels.toInt dpi := by
  obtain ⟨hlow, hhigh⟩ := hpixels
  have hrange := exactMillimetres_range hlow hdpi.1
  exact ⟨Int32.ofInt _, Int32.toInt_ofInt_of_le (by omega) (by omega)⟩

example : millimetres 1280 96 = .ok 338 := by decide

/-- Both measures are computed with the same divisor. -/
theorem measures_eq_ok_iff {width height dpi mmWidth mmHeight : Int32} (hwidth : Displayed width)
    (hheight : Displayed height) (hdpi : 0 ≤ dpi.toInt) :
    measures width height dpi = .ok (mmWidth, mmHeight) ↔
      Divisible dpi.toInt ∧ mmWidth.toInt = exactMillimetres width.toInt dpi.toInt ∧
        mmHeight.toInt = exactMillimetres height.toInt dpi.toInt := by
  simp only [measures, bind_eq_ok_iff, millimetres_eq_ok_iff hwidth hdpi,
    millimetres_eq_ok_iff hheight hdpi]
  constructor
  · rintro ⟨mm, ⟨hdivisible, hmm⟩, mm', ⟨-, hmm'⟩, hpair⟩
    cases hpair
    exact ⟨hdivisible, hmm, hmm'⟩
  · rintro ⟨hdivisible, hmm, hmm'⟩
    exact ⟨mmWidth, ⟨hdivisible, hmm⟩, mmHeight, ⟨hdivisible, hmm'⟩, rfl⟩

/-! ## The setting -/

/-- An assignment of a number assigns one that is not negative. -/
theorem assigns_nonneg {l : Settings.Line} {key : List Char} {n : Int32} (hrange : l.InRange)
    (h : l.assigns = some (key, .int n)) : 0 ≤ n.toInt := by
  cases l with
  | number key digits =>
    have hn : Int32.ofNat (Settings.decimal digits.chars) = n := by
      simpa [Settings.Line.assigns] using (Prod.mk.inj (Option.some.inj h)).2
    have hle : Settings.decimal digits.chars ≤ 2147483647 := hrange
    rw [← hn, Int32.toInt_ofNat_of_lt (by omega)]
    exact Int.natCast_nonneg _
  | _ => cases h

/-- Every number in a map that was loaded is an assigned one. -/
theorem loaded_nonneg {content key : List Char} {settings : SettingsMap} {n : Int32}
    (hload : Settings.load (some content) = (.ok (), settings))
    (h : settings key = some (.int n)) : 0 ≤ n.toInt := by
  obtain ⟨ls, hrange, -, rfl⟩ := (Settings.load_eq_iff content settings).mp hload
  obtain ⟨l, hl, hassigned⟩ := List.exists_of_findSome?_eq_some h
  obtain ⟨a, ha, hvalue⟩ := Option.bind_eq_some_iff.mp hassigned
  obtain ⟨hkey, hn⟩ := Option.ite_none_right_eq_some.mp hvalue
  obtain ⟨k, v⟩ := a
  cases hn
  exact assigns_nonneg (hrange l (List.mem_reverse.mp hl)) ha

/-- Settings that were loaded from a file, whose `DPI`, if it has one, is a number. -/
structure LoadedSettings where
  content : List Char
  settings : WereSettings
  loaded : Settings.load (some content) = (.ok (), settings.settings)
  number : ∀ value, settings.settings dpiKey = some value → value.type = .int

/-- The size of a display in pixels. -/
structure DisplaySize where
  width : Int32
  height : Int32
  width_displayed : Displayed width
  height_displayed : Displayed height

namespace LoadedSettings

variable (l : LoadedSettings)

/-- The number that is set, or 96. -/
def dpi : Int32 :=
  match l.settings.settings dpiKey with
  | some (.int n) => n
  | _ => 96

theorem dpi_nonneg : 0 ≤ l.dpi.toInt := by
  unfold dpi
  split
  case h_1 n h => exact loaded_nonneg l.loaded h
  case h_2 => decide

/-- `get` returns it. -/
theorem get_dpi : (l.settings.get .int dpiKey (96 : Int32)).2 = some l.dpi := by
  unfold WereSettings.get dpi
  cases hvalue : l.settings.settings dpiKey with
  | none => rfl
  | some value =>
    have htype := l.number value hvalue
    cases value with
    | int n => rfl
    | _ => cases htype

/-- The output is told the size of the display, in pixels and in millimetres. -/
def Exact (display : DisplaySize) (version : Int32) : Prop :=
  ∃ mmWidth mmHeight,
    (outputInstance l.settings display.width display.height version).2 =
      .ok (events display.width display.height mmWidth mmHeight version) ∧
    mmWidth.toInt = ⌊(display.width.toInt : ℚ) * 25.4 / l.dpi.toInt⌋ ∧
    mmHeight.toInt = ⌊(display.height.toInt : ℚ) * 25.4 / l.dpi.toInt⌋

variable {l} in
/-- The slot comes to its end if the measures are computed. -/
theorem outputInstance_eq_ok_iff {width height version : Int32} {sent : List OutputEvent} :
    (outputInstance l.settings width height version).2 = .ok sent ↔
      ∃ mmWidth mmHeight, measures width height l.dpi = .ok (mmWidth, mmHeight) ∧
        sent = events width height mmWidth mmHeight version := by
  have hget : l.settings.get .int dpiKey (96 : Int32) =
      ((l.settings.get .int dpiKey (96 : Int32)).1, some l.dpi) := Prod.ext rfl l.get_dpi
  rw [outputInstance, hget]
  dsimp only
  cases measures width height l.dpi with
  | error u => simp
  | ok mm => simp [Prod.ext_iff, eq_comm]

/-- An output is told the right millimetres exactly if the number of dots per inch is
neither 0 nor one whose tenfold is no `int`. -/
theorem geometry_exact_iff (display : DisplaySize) (version : Int32) :
    l.Exact display version ↔ 1 ≤ l.dpi.toInt ∧ l.dpi.toInt ≤ 214748364 := by
  have hok {mmWidth mmHeight : Int32} :
      measures display.width display.height l.dpi = .ok (mmWidth, mmHeight) ↔ _ :=
    measures_eq_ok_iff display.width_displayed display.height_displayed l.dpi_nonneg
  constructor
  · rintro ⟨mmWidth, mmHeight, hsent, -, -⟩
    obtain ⟨mm, mm', hmeasures, -⟩ := outputInstance_eq_ok_iff.mp hsent
    exact (hok.mp hmeasures).1
  · intro hdivisible
    obtain ⟨mmWidth, hwidth⟩ := exists_exactMillimetres display.width_displayed hdivisible
    obtain ⟨mmHeight, hheight⟩ := exists_exactMillimetres display.height_displayed hdivisible
    have hmeasures := hok.mpr ⟨hdivisible, hwidth, hheight⟩
    exact ⟨mmWidth, mmHeight, outputInstance_eq_ok_iff.mpr ⟨_, _, hmeasures, rfl⟩, hwidth,
      hheight⟩

/-! ## Files of one line -/

/-- The key of `DPI = …;` -/
def key : Settings.Key := ⟨dpiKey, by decide, List.all_eq_true.mp (by decide)⟩

/-- Settings that were loaded from a file with one line, which sets `DPI`. -/
def ofDigits (digits : Settings.Digits) (h : Settings.decimal digits.chars ≤ 2147483647) :
    LoadedSettings where
  content := (Settings.Line.number key digits).render ++ ['\n']
  settings := ⟨Settings.lastAssigned [.number key digits], false, []⟩
  loaded := by
    refine (Settings.load_eq_iff _ _).mpr ⟨[.number key digits], ?_, ?_, rfl⟩
    · exact fun l hl => List.mem_singleton.mp hl ▸ h
    · have hdigits : '\n' ∉ digits.chars := fun hc => absurd (digits.digits _ hc) (by decide)
      refine Settings.lines_append _ [] ?_
      simpa [Settings.Line.render, Settings.equation, key, dpiKey] using hdigits
  number := by
    intro value hvalue
    cases hvalue
    rfl

/-- `DPI = 96;` and a display of 1280 by 720 pixels. -/
theorem ninetySix_exact :
    (ofDigits ⟨['9', '6'], by decide, List.all_eq_true.mp (by decide)⟩ (by decide)).Exact
      ⟨1280, 720, by decide, by decide⟩ 3 :=
  (geometry_exact_iff _ _ _).mpr (by decide)

/-- `DPI = 0;` and `DPI = 214748365;`, for a display of 1280 by 720 pixels. -/
theorem zeroDpi_undefined :
    ∃ (zero large : LoadedSettings) (display : DisplaySize),
      zero.content = "DPI = 0;\n".toList ∧ large.content = "DPI = 214748365;\n".toList ∧
      (outputInstance zero.settings display.width display.height 3).2 =
        .error (.undefined .divisionByZero) ∧
      (outputInstance large.settings display.width display.height 3).2 =
        .error (.undefined .overflow) ∧
      ¬ zero.Exact display 3 ∧ ¬ large.Exact display 3 := by
  let zero := ofDigits ⟨['0'], by decide, List.all_eq_true.mp (by decide)⟩ (by decide)
  let large :=
    ofDigits ⟨"214748365".toList, by decide, List.all_eq_true.mp (by decide)⟩ (by decide)
  let display : DisplaySize := ⟨1280, 720, by decide, by decide⟩
  have hzero : (outputInstance zero.settings display.width display.height 3).2 =
    .error (.undefined .divisionByZero) := by decide +kernel
  have hlarge : (outputInstance large.settings display.width display.height 3).2 =
    .error (.undefined .overflow) := by decide +kernel
  refine ⟨zero, large, display, by decide, by decide, hzero, hlarge, ?_, ?_⟩
  · rintro ⟨mmWidth, mmHeight, hsent, -⟩
    rw [hzero] at hsent
    cases hsent
  · rintro ⟨mmWidth, mmHeight, hsent, -⟩
    rw [hlarge] at hsent
    cases hsent

end LoadedSettings

end Output

end SparkleWayland

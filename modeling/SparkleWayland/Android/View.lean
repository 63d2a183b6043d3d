import SparkleWayland.Were.Window
import Mathlib.Logic.Function.Basic

/-!
# The view and its native window (`sparkle_android/sparkle_view.cpp`)

A `sparkle_view` asks for a new size of its window when the surface gets a buffer of another
size, and takes that size as its own at once. The window follows later, when the system
calls `set_window`. Until then the buffers of the window have the old size, which
`update` finds out only after it has locked one, and then it returns without unlocking.
`disciplined_iff` says in which runs that does not happen.

`updates` is the history of the calls of `update`, with what each called in turn.
-/

namespace SparkleWayland

/-- An `ANativeWindow`: the size of its buffers, and whether one of them is locked. -/
structure NativeWindow where
  width : Int32
  height : Int32
  locked : Bool
  deriving DecidableEq, Repr

/-- What `ANativeWindow_lock` answers if the window is not locked: whether it succeeds, the
region to redraw, and the stride of the buffer in pixels. -/
structure LockAnswer where
  ready : Bool
  rect : WereRect Int32
  stride : Int32
  deriving DecidableEq, Repr

/-- The calls that `sparkle_view::update` makes. `succeeded` is what a lock returned. -/
inductive ViewCall (ι : Type) where
  | setSize (width height : Int32)
  | lock (window : ι) (rect : WereRect Int32) (succeeded : Bool)
  | upload (uploader : Nat) (sourceStride destinationStride : Int32) (rect : WereRect Int32)
  | unlockAndPost (window : ι)
  deriving DecidableEq, Repr

/-- One call of `update`: whether the view's window was locked before it, and what it called. -/
structure ViewUpdate (ι : Type) where
  locked : Bool
  calls : List (ViewCall ι)
  deriving DecidableEq, Repr

/-- A `sparkle_view`, the buffer of its surface, and the windows of the system. -/
structure View (ι : Type) where
  width : Int32
  height : Int32
  format : Int32
  window : Option ι
  damage : WereRect Int32
  noDamage : Bool
  surface : Option ShmImage
  windows : ι → NativeWindow
  updates : List (ViewUpdate ι)

namespace View

/-- `WINDOW_FORMAT_RGBX_8888` -/
def windowFormatRgbx8888 : Int32 := 2

variable {ι : Type} [DecidableEq ι]

/-- A view as its constructor leaves it. -/
structure IsCreated (s : View ι) : Prop where
  width : s.width = 100
  height : s.height = 100
  format : s.format = 5 ∨ s.format = windowFormatRgbx8888
  window : s.window = none
  damage : s.damage = .zero
  windows : ∀ w, (s.windows w).locked = false
  updates : s.updates = []

/-- The end of an `update` that started in the state `s` and made these calls. -/
def returned (s : View ι) (calls : List (ViewCall ι)) (t : View ι) : View ι :=
  { t with updates := s.updates ++ [⟨s.window.any fun w => (s.windows w).locked, calls⟩] }

/-- The upload into a locked buffer, if there is one for the format. -/
def uploads (s : View ι) (image : ShmImage) (answer : LockAnswer) : List (ViewCall ι) :=
  if s.format = 5 then [.upload 0 image.stride (answer.stride * 4) answer.rect]
  else if s.format = windowFormatRgbx8888 then
    [.upload 2 image.stride (answer.stride * 4) answer.rect]
  else []

/-- `sparkle_view::update` -/
def update (s : View ι) (full : Bool) (answer : LockAnswer) : View ι :=
  match s.surface, s.window with
  | none, _ => s.returned [] s
  | some _, none => s.returned [] s
  | some image, some w =>
    if s.width ≠ image.width ∨ s.height ≠ image.height then
      s.returned [.setSize image.width image.height]
        { s with width := image.width, height := image.height }
    else
      let rect := viewUpdateRect s.noDamage s.damage full s.width s.height
      if (s.windows w).locked ∨ answer.ready = false then
        -- throws
        s.returned [.lock w rect false] { s with damage := rect }
      else if (s.windows w).width ≠ s.width ∨ (s.windows w).height ≠ s.height then
        s.returned [.lock w rect true]
          { s with
            damage := rect
            windows := Function.update s.windows w { s.windows w with locked := true } }
      else
        s.returned (.lock w rect true :: s.uploads image answer ++ [.unlockAndPost w])
          { s with damage := .zero }

/-- `ANativeWindow_setBuffersGeometry` -/
def setBuffersGeometry (s : View ι) (w : ι) (width height : Int32) : View ι :=
  { s with
    windows := Function.update s.windows w { s.windows w with width := width, height := height } }

/-- `sparkle_view::set_window`. It throws if the system does not accept the geometry. -/
def setWindow (s : View ι) (window : Option ι) (accepted : Bool) (answer : LockAnswer) : View ι :=
  let s := { s with window := window }
  match window with
  | none => s
  | some w =>
    if accepted then (s.setBuffersGeometry w s.width s.height).update true answer else s

/-- What a client requests of the surface, and `surface_changed` with the answers of the
system. -/
inductive Event (ι : Type) where
  | attach (image : ShmImage)
  | damage (q : DamageRequest)
  | commit (answer : LockAnswer)
  | setWindow (window : Option ι) (accepted : Bool) (answer : LockAnswer)

def handle (s : View ι) : Event ι → View ι
  | .attach image => { s with surface := some image }
  | .damage q => { s with damage := s.damage.expand q.rect.x1 q.rect.y1 q.rect.x2 q.rect.y2 }
  | .commit answer => s.update false answer
  | .setWindow window accepted answer => s.setWindow window accepted answer

def machine : Machine (View ι) (Event ι) where
  start := IsCreated
  step s e t := t = s.handle e

end View

/-! ## Every lock is undone -/

/-- After a lock that succeeded, the window is unlocked once before `update` returns; and no
lock is tried on a locked window. -/
structure ViewUpdate.Disciplined {ι : Type} [DecidableEq ι] (u : ViewUpdate ι) : Prop where
  paired : ∀ before w rect after, u.calls = before ++ .lock w rect true :: after →
    after.count (.unlockAndPost w) = 1
  free : ∀ w rect succeeded, .lock w rect succeeded ∈ u.calls → u.locked = false

namespace View

variable {ι : Type} [DecidableEq ι]

section Calls

variable {locked : Bool} {calls : List (ViewCall ι)}

theorem disciplined_of_no_lock (h : ∀ w rect succeeded, .lock w rect succeeded ∉ calls) :
    ViewUpdate.Disciplined ⟨locked, calls⟩ := by
  constructor
  · rintro before w rect after rfl
    exact absurd (List.mem_append_right _ List.mem_cons_self) (h w rect true)
  · intro w rect succeeded hmem
    exact absurd hmem (h w rect succeeded)

/-- An update whose only lock is its first call. -/
theorem disciplined_lock_iff (h : ∀ w rect succeeded, .lock w rect succeeded ∉ calls) (w : ι)
    (rect : WereRect Int32) (succeeded : Bool) :
    ViewUpdate.Disciplined ⟨locked, .lock w rect succeeded :: calls⟩ ↔
      locked = false ∧ (succeeded = true → calls.count (.unlockAndPost w) = 1) := by
  constructor
  · intro hu
    refine ⟨hu.free w rect succeeded List.mem_cons_self, ?_⟩
    rintro rfl
    exact hu.paired [] w rect calls rfl
  · rintro ⟨hlocked, hcount⟩
    refine ⟨fun before w' rect' after heq => ?_, fun _ _ _ _ => hlocked⟩
    cases before with
    | nil =>
      cases heq
      exact hcount rfl
    | cons call before =>
      have htail := (List.cons.inj heq).2
      exact absurd (htail ▸ List.mem_append_right _ List.mem_cons_self) (h w' rect' true)

end Calls

theorem no_lock_uploads (s : View ι) (image : ShmImage) (answer : LockAnswer) (w : ι) :
    (∀ w' rect succeeded,
      .lock w' rect succeeded ∉ s.uploads image answer ++ [ViewCall.unlockAndPost w]) ∧
    (s.uploads image answer ++ [ViewCall.unlockAndPost w]).count (.unlockAndPost w) = 1 := by
  unfold uploads
  split
  · simp
  · split
    · simp
    · simp

/-- All updates were as they should be. -/
def AllDisciplined (s : View ι) : Prop := ∀ u ∈ s.updates, u.Disciplined

theorem returned_allDisciplined_iff (s t : View ι) (calls : List (ViewCall ι)) :
    (s.returned calls t).AllDisciplined ↔ s.AllDisciplined ∧
      ViewUpdate.Disciplined ⟨s.window.any fun w => (s.windows w).locked, calls⟩ := by
  refine List.forall_mem_append.trans (and_congr_right fun _ => ?_)
  exact List.forall_mem_singleton

/-- No window is locked between two calls. -/
def NoneLocked (s : View ι) : Prop := ∀ w, (s.windows w).locked = false

/-- If the view has the size of its surface's buffer, so have the buffers of its window,
unless the lock fails. -/
def Matches (s : View ι) (answer : LockAnswer) : Prop :=
  ∀ image w, s.surface = some image → s.window = some w →
    s.width = image.width ∧ s.height = image.height → answer.ready = true →
      (s.windows w).width = s.width ∧ (s.windows w).height = s.height

omit [DecidableEq ι] in
theorem not_locked {s : View ι} (hfree : s.NoneLocked) :
    (s.window.any fun w => (s.windows w).locked) = false := by
  cases s.window with
  | none => rfl
  | some w => exact hfree w

/-- An update that locks nothing. -/
theorem returned_quiet {s t : View ι} (hfree : s.NoneLocked) {calls : List (ViewCall ι)}
    (h : ∀ w rect succeeded, .lock w rect succeeded ∉ calls) (ht : t.windows = s.windows) :
    ((s.returned calls t).AllDisciplined ↔ s.AllDisciplined) ∧ (s.returned calls t).NoneLocked := by
  constructor
  · rw [returned_allDisciplined_iff]
    exact and_iff_left (disciplined_of_no_lock h)
  · intro w
    change (t.windows w).locked = false
    rw [ht]
    exact hfree w

/-- An update that starts with a lock. -/
theorem returned_lock {s : View ι} (hfree : s.NoneLocked) {calls : List (ViewCall ι)}
    (h : ∀ w rect succeeded, .lock w rect succeeded ∉ calls) (w : ι) (rect : WereRect Int32)
    (succeeded : Bool) (t : View ι) :
    (s.returned (.lock w rect succeeded :: calls) t).AllDisciplined ↔
      s.AllDisciplined ∧ (succeeded = true → calls.count (.unlockAndPost w) = 1) := by
  rw [returned_allDisciplined_iff, disciplined_lock_iff h]
  exact and_congr_right fun _ => and_iff_right (not_locked hfree)

/-- **One update**: without a locked window before, it keeps the discipline just if the sizes
match, and then leaves no window locked. -/
theorem update_allDisciplined_iff {s : View ι} (hfree : s.NoneLocked) (full : Bool)
    (answer : LockAnswer) :
    ((s.update full answer).AllDisciplined ↔ s.AllDisciplined ∧ s.Matches answer) ∧
      (s.Matches answer → (s.update full answer).NoneLocked) := by
  have quiet : ∀ {calls : List (ViewCall ι)} {t : View ι},
      (∀ w rect succeeded, .lock w rect succeeded ∉ calls) → t.windows = s.windows →
      s.Matches answer →
      ((s.returned calls t).AllDisciplined ↔ s.AllDisciplined ∧ s.Matches answer) ∧
        (s.Matches answer → (s.returned calls t).NoneLocked) := by
    intro calls t hcalls ht hmatches
    obtain ⟨hiff, hnone⟩ := returned_quiet hfree hcalls ht
    exact ⟨hiff.trans (and_iff_left hmatches).symm, fun _ => hnone⟩
  unfold update
  cases hsurface : s.surface with
  | none => exact quiet (by simp) rfl fun image w h => by simp [hsurface] at h
  | some image =>
    cases hwindow : s.window with
    | none => exact quiet (by simp) rfl fun image w _ h => by simp [hwindow] at h
    | some w =>
      -- the condition, about this image and this window
      have hmatches : s.Matches answer ↔
          (s.width = image.width ∧ s.height = image.height → answer.ready = true →
            (s.windows w).width = s.width ∧ (s.windows w).height = s.height) := by
        constructor
        · intro h
          exact h image w hsurface hwindow
        · intro h image' w' himage hw
          cases hsurface.symm.trans himage
          cases hwindow.symm.trans hw
          exact h
      dsimp only
      split
      case isTrue hsize =>
        refine quiet (by simp) rfl (hmatches.mpr fun h => ?_)
        exact absurd h.1 (hsize.resolve_right (not_not.mpr h.2))
      case isFalse hsize =>
        rw [not_or, not_not, not_not] at hsize
        split
        case isTrue hfail =>
          have hready : answer.ready = false := hfail.resolve_left (by simp [hfree w])
          have hall : s.Matches answer := hmatches.mpr fun _ h => by simp [hready] at h
          rw [returned_lock hfree (by simp)]
          exact ⟨by simp [hall], fun _ => hfree⟩
        case isFalse hlock =>
          have hready : answer.ready = true := by simpa [hfree w] using hlock
          split
          case isTrue hgeometry =>
            -- the buffer stays locked
            have hno : ¬ s.Matches answer := fun h =>
              hgeometry.elim (absurd (hmatches.mp h hsize hready).1)
                (absurd (hmatches.mp h hsize hready).2)
            rw [returned_lock hfree (by simp)]
            exact ⟨by simp [hno], fun h => absurd h hno⟩
          case isFalse hgeometry =>
            rw [not_or, not_not, not_not] at hgeometry
            have hall : s.Matches answer := hmatches.mpr fun _ _ => hgeometry
            obtain ⟨hcalls, hcount⟩ := s.no_lock_uploads image answer w
            rw [List.cons_append, returned_lock hfree hcalls]
            exact ⟨by simp [hcount, hall], fun _ => hfree⟩

/-- At a commit the sizes match. -/
def Matched (s : View ι) : Event ι → Prop
  | .commit answer => s.Matches answer
  | _ => True

/-- `set_window` gives the window the size that the view has. -/
theorem setBuffersGeometry_matches (s : View ι) (w : ι) (answer : LockAnswer) :
    Matches (({ s with window := some w } : View ι).setBuffersGeometry w s.width s.height)
      answer := by
  intro image w' _ hw _ _
  cases hw
  simp [setBuffersGeometry]

theorem setBuffersGeometry_noneLocked {s : View ι} (hfree : s.NoneLocked) (w : ι)
    (width height : Int32) : (s.setBuffersGeometry w width height).NoneLocked := by
  intro w'
  by_cases h : w' = w
  · subst h
    simp [setBuffersGeometry, hfree w']
  · simp [setBuffersGeometry, h, hfree w']

/-- **Step**: without a locked window before, a step keeps the discipline just if it meets the
condition, and then leaves no window locked. -/
theorem handle_allDisciplined_iff {s : View ι} (hfree : s.NoneLocked) (e : Event ι) :
    ((s.handle e).AllDisciplined ↔ s.AllDisciplined ∧ s.Matched e) ∧
      (s.Matched e → (s.handle e).NoneLocked) := by
  cases e with
  | attach image => exact ⟨(and_iff_left trivial).symm, fun _ => hfree⟩
  | damage q => exact ⟨(and_iff_left trivial).symm, fun _ => hfree⟩
  | commit answer => exact update_allDisciplined_iff hfree false answer
  | setWindow window accepted answer =>
    cases window with
    | none => exact ⟨(and_iff_left trivial).symm, fun _ => hfree⟩
    | some w =>
      cases accepted with
      | false => exact ⟨(and_iff_left trivial).symm, fun _ => hfree⟩
      | true =>
        have hmatches := s.setBuffersGeometry_matches w answer
        obtain ⟨hiff, hnone⟩ := update_allDisciplined_iff
          (setBuffersGeometry_noneLocked (s := { s with window := some w }) hfree w s.width
            s.height) true answer
        exact ⟨hiff.trans (and_congr_right fun _ => iff_of_true hmatches trivial),
          fun _ => hnone hmatches⟩

/-- The history gets longer by one with each update. -/
theorem update_updates (s : View ι) (full : Bool) (answer : LockAnswer) :
    ∃ u, (s.update full answer).updates = s.updates ++ [u] := by
  unfold update
  split
  · exact ⟨_, rfl⟩
  · exact ⟨_, rfl⟩
  · split
    · exact ⟨_, rfl⟩
    · dsimp only
      split
      · exact ⟨_, rfl⟩
      · split <;> exact ⟨_, rfl⟩

theorem handle_updates (s : View ι) (e : Event ι) : s.updates <+: (s.handle e).updates := by
  have grows : ∀ (t : View ι) full answer, t.updates <+: (t.update full answer).updates := by
    intro t full answer
    obtain ⟨u, hu⟩ := t.update_updates full answer
    exact hu ▸ List.prefix_append _ _
  cases e with
  | attach image => exact List.prefix_rfl
  | damage q => exact List.prefix_rfl
  | commit answer => exact grows s false answer
  | setWindow window accepted answer =>
    cases window with
    | none => exact List.prefix_rfl
    | some w =>
      cases accepted with
      | false => exact List.prefix_rfl
      | true =>
        let s' : View ι := { s with window := some w }
        exact grows (s'.setBuffersGeometry w s.width s.height) true answer

/-- **Locks are undone**: all updates of a run are as they should be just if at each commit
the buffers of the window have the size that the view takes them to have. -/
theorem disciplined_iff (as : List (Event ι)) (s : View ι) :
    machine.Reaches as s ∧ s.AllDisciplined ↔ (machine.guarded Matched).Reaches as s := by
  have before : ∀ (s : View ι) e, (s.handle e).AllDisciplined → s.AllDisciplined :=
    fun s e h u hu => h u ((s.handle_updates e).subset hu)
  refine Machine.reaches_guarded_iff (I := fun s => s.AllDisciplined → s.NoneLocked) ?_ ?_ ?_
  · intro s hs
    exact ⟨fun _ => hs.windows, fun u hu => by simp [hs.updates] at hu⟩
  · rintro s e t hI rfl hgood
    obtain ⟨hiff, hnone⟩ := handle_allDisciplined_iff (hI (before s e hgood)) e
    exact hnone (hiff.mp hgood).2
  · rintro s e t hI rfl
    constructor
    · intro hgood
      exact (handle_allDisciplined_iff (hI (before s e hgood)) e).1.mp hgood
    · intro h
      exact (handle_allDisciplined_iff (hI h.1) e).1.mpr h

/-! ## A second commit before the window follows -/

/-- A buffer of 200 by 200 pixels. -/
def image200 : ShmImage :=
  ⟨200, 200, 800, fun _ => 0, by decide, by decide, by decide, by decide⟩

/-- The window of 100 by 100 pixels is there when the surface gets a larger buffer, with which
it then commits three times. -/
def outrun : List (Event Unit) :=
  let answer : LockAnswer := ⟨true, ⟨0, 0, 200, 200⟩, 200⟩
  [.setWindow (some ()) true answer, .attach image200, .commit answer, .commit answer,
    .commit answer]

/-- The view before it has a window. -/
def atFirst : View Unit :=
  ⟨100, 100, 5, none, .zero, false, none, fun _ => ⟨100, 100, false⟩, []⟩

theorem outrun_reaches : machine.Reaches outrun (outrun.foldl handle atFirst) :=
  ⟨atFirst, ⟨rfl, rfl, Or.inl rfl, rfl, rfl, fun _ => rfl, rfl⟩,
    Machine.Path.foldl (fun _ _ => rfl) _ _⟩

/-- The second commit locks a buffer for good, and the third tries to lock another one. -/
theorem outrun_locked :
    (¬ ∀ as (s : View Unit), machine.Reaches as s → ∀ u ∈ s.updates, ∀ before w rect after,
      u.calls = before ++ .lock w rect true :: after → after.count (.unlockAndPost w) = 1) ∧
    ¬ ∀ as (s : View Unit), machine.Reaches as s → ∀ u ∈ s.updates, ∀ w rect succeeded,
      .lock w rect succeeded ∈ u.calls → u.locked = false := by
  have hupdates : (outrun.foldl handle atFirst).updates =
      [⟨false, []⟩,
        ⟨false, [.setSize 200 200]⟩,
        ⟨false, [.lock () ⟨0, 0, 0, 0⟩ true]⟩,
        ⟨true, [.lock () ⟨0, 0, 0, 0⟩ false]⟩] := by
    decide +kernel
  constructor
  · intro h
    have hcount := h _ _ outrun_reaches ⟨false, [.lock () ⟨0, 0, 0, 0⟩ true]⟩
      (by rw [hupdates]; decide) [] () ⟨0, 0, 0, 0⟩ [] rfl
    revert hcount
    decide
  · intro h
    have hlocked := h _ _ outrun_reaches ⟨true, [.lock () ⟨0, 0, 0, 0⟩ false]⟩
      (by rw [hupdates]; decide) () ⟨0, 0, 0, 0⟩ false (by decide)
    revert hlocked
    decide

end View

end SparkleWayland

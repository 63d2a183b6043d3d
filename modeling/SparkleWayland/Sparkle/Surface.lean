import SparkleWayland.Lib.Machine
import SparkleWayland.Sparkle.Resource

/-!
# A client's surface (`sparkle_common/sparkle_surface.cpp`)

The slots of `sparkle_surface`, the reads that a view makes when it repaints, and
what the client does to its buffers behind the surface's back. The wrapper in
`buffer_` may be gone, empty, or left behind by a destroyed buffer; the handlers
go wrong exactly when a null buffer is attached, or when a view reads a surface
whose buffer was destroyed (`faultFree_iff`).
-/

namespace SparkleWayland

/-- `struct wl_shm_buffer`, as far as the surface reads it. -/
structure ShmBuffer where
  format : UInt32
  width : UInt32
  height : UInt32
  stride : UInt32
  deriving DecidableEq, Repr

/-- `WL_SHM_FORMAT_ARGB8888`. -/
def wlShmFormatArgb8888 : UInt32 := 0

/-- `WL_SHM_FORMAT_XRGB8888`. -/
def wlShmFormatXrgb8888 : UInt32 := 1

/-- A `sparkle_surface` with the resources of its client. `shown` says that a view
is connected to its signals. -/
structure SparkleSurface where
  shown : Bool
  shmBuffers : Nat → Option ShmBuffer
  callbacks : Nat → Bool
  buffer : Option SparkleResource
  callback : Option SparkleResource

namespace SparkleSurface

/-- The buffers the client has not destroyed. -/
def liveBuffer (s : SparkleSurface) (r : Nat) : Bool := (s.shmBuffers r).isSome

/-! ## The reads of a view -/

/-- `buffer_.value()->resource()`. -/
def bufferResource (s : SparkleSurface) : Except Fault Nat :=
  match s.buffer with
  | none => .error .badOptionalAccess
  | some w => w.get

/-- `wl_shm_buffer_get`: every buffer of the client is a shared-memory buffer. -/
def shmBufferGet (s : SparkleSurface) (r : Nat) : Except Fault ShmBuffer :=
  match s.shmBuffers r with
  | none => .error .destroyedResource
  | some b => .ok b

/-- `sparkle_surface::data`: the resource whose memory it is, or null. -/
def data (s : SparkleSurface) : Except Fault (Option Nat) := do
  if s.buffer.isNone then return none
  let r ← s.bufferResource
  let b ← s.shmBufferGet r
  if b.format = wlShmFormatArgb8888 ∨ b.format = wlShmFormatXrgb8888 then return some r
  return none

/-- `sparkle_surface::width`, `height` and `stride` read one field each. -/
def readField (field : ShmBuffer → UInt32) (s : SparkleSurface) : Except Fault UInt32 := do
  let r ← s.bufferResource
  let b ← s.shmBufferGet r
  return field b

/-- `sparkle_surface::width`. -/
def width := readField ShmBuffer.width

/-- `sparkle_surface::height`. -/
def height := readField ShmBuffer.height

/-- `sparkle_surface::stride`. -/
def stride := readField ShmBuffer.stride

/-- What the update of a view reads: nothing more when there is no data. -/
def repaint (s : SparkleSurface) : Except Fault Unit := do
  match ← s.data with
  | none => return
  | some _ =>
    let _ ← s.width
    let _ ← s.height
    let _ ← s.stride

/-! ## The slots -/

/-- The slot of `attach`. -/
def attach (s : SparkleSurface) (buffer : Option Nat) : Except Fault SparkleSurface := do
  match s.buffer with
  | none => pure ()
  | some w =>
    w.send s.liveBuffer
    let _ ← w.collapse s.liveBuffer
  let w ← SparkleResource.wrap s.liveBuffer buffer
  return { s with buffer := some w }

/-- The part that `commit` and `frame` share: a pending callback is answered and its
resource destroyed. -/
def finishCallback (s : SparkleSurface) : Except Fault SparkleSurface := do
  match s.callback with
  | none => return s
  | some w =>
    w.send s.callbacks
    let r ← w.get
    deref s.callbacks (some r)
    return { s with callbacks := Function.update s.callbacks r false, callback := none }

/-- The slot of `frame`: the new callback resource is created and wrapped. -/
def frame (s : SparkleSurface) (id : Nat) : Except Fault SparkleSurface := do
  let s ← s.finishCallback
  let callbacks := Function.update s.callbacks id true
  let w ← SparkleResource.wrap callbacks (some id)
  return { s with callbacks := callbacks, callback := some w }

/-- The slot of `commit`: the view repaints from within the emitted signal. -/
def commit (s : SparkleSurface) : Except Fault SparkleSurface := do
  if s.shown then s.repaint
  s.finishCallback

/-- The client destroys a buffer, attached or not. -/
def destroyBuffer (s : SparkleSurface) (r : Nat) : SparkleSurface :=
  { s with
    shmBuffers := Function.update s.shmBuffers r none
    buffer := s.buffer.map (SparkleResource.notify r) }

/-! ## Runs -/

/-- What can happen to a surface. -/
inductive Event
  | createBuffer (r : Nat) (b : ShmBuffer)
  | attach (buffer : Option Nat)
  | damage (x y width height : Int32)
  | frame (id : Nat)
  | commit
  | destroyBuffer (r : Nat)
  | repaint

/-- Which events are possible: a buffer that is attached or destroyed is live, and a
new resource is not in use. -/
def Possible (s : SparkleSurface) : Event → Prop
  | .createBuffer r _ => s.shmBuffers r = none
  | .attach (some r) => s.liveBuffer r = true
  | .frame id => s.callbacks id = false
  | .destroyBuffer r => s.liveBuffer r = true
  | _ => True

/-- The handler of an event. Damage is only passed on to the view. -/
def handle (s : SparkleSurface) : Event → Except Fault SparkleSurface
  | .createBuffer r b => .ok { s with shmBuffers := Function.update s.shmBuffers r (some b) }
  | .attach buffer => s.attach buffer
  | .damage _ _ _ _ => .ok s
  | .frame id => s.frame id
  | .commit => s.commit
  | .destroyBuffer r => .ok (s.destroyBuffer r)
  | .repaint => do
    s.repaint
    return s

/-- A fresh surface, shown or not. -/
def fresh (shown : Bool) : SparkleSurface := ⟨shown, fun _ => none, fun _ => false, none, none⟩

/-- Runs over what the handlers return: a fault ends the run. -/
def machine : Machine (Except Fault SparkleSurface) Event where
  start o := ∃ shown, o = .ok (fresh shown)
  step o e o' := ∃ s, o = .ok s ∧ s.Possible e ∧ o' = s.handle e

/-- The buffer attached last, if there is one, was not destroyed. -/
def Readable (s : SparkleSurface) : Prop := ∀ w, s.buffer = some w → w.valid = true

/-- The events a surface copes with: any but attaching a null buffer, and having a
view read a surface whose buffer was destroyed. -/
def Copes (s : SparkleSurface) : Event → Prop
  | .attach none => False
  | .commit => s.shown = true → s.Readable
  | .repaint => s.Readable
  | _ => True

/-! ## When a handler goes wrong -/

/-- Both wrappers are faithful, and a pending callback has its resource. -/
structure Sound (s : SparkleSurface) : Prop where
  buffer : ∀ w, s.buffer = some w → w.Faithful s.liveBuffer
  callback : ∀ w, s.callback = some w → w.valid = true ∧ w.Faithful s.callbacks

variable {s : SparkleSurface}

theorem fresh_sound (shown : Bool) : (fresh shown).Sound where
  buffer _ h := nomatch h
  callback _ h := nomatch h

/-- Creating or destroying a buffer changes which buffers are live. -/
theorem liveBuffer_update (s : SparkleSurface) (r : Nat) (b : Option ShmBuffer)
    (buffer : Option SparkleResource) :
    ({ s with shmBuffers := Function.update s.shmBuffers r b, buffer := buffer } :
      SparkleSurface).liveBuffer = Function.update s.liveBuffer r b.isSome := by
  funext r'
  change (Function.update s.shmBuffers r b r').isSome = _
  by_cases hr : r' = r
  · rw [hr, Function.update_self, Function.update_self]
  · rw [Function.update_of_ne hr, Function.update_of_ne hr]
    rfl

/-- A view can read a surface exactly when its buffer was not destroyed. -/
theorem repaint_ok_iff (h : s.Sound) : s.repaint = .ok () ↔ s.Readable := by
  rcases hb : s.buffer with _ | w
  · refine iff_of_true ?_ fun w hw => ?_
    · simp [repaint, data, hb, bind, Except.bind, pure, Except.pure]
    · rw [hb] at hw
      cases hw
  · rcases hr : w.resource with _ | r
    · refine iff_of_false ?_ fun hread => ?_
      · simp [repaint, data, hb, bufferResource, SparkleResource.get, hr, bind, Except.bind]
      · simpa [SparkleResource.valid, hr] using hread w hb
    · have hlive := (h.buffer w hb r hr).1
      obtain ⟨b, hbuf⟩ := Option.isSome_iff_exists.mp hlive
      refine iff_of_true ?_ fun w' hw' => ?_
      · have hread : ∀ field, readField field s = .ok (field b) := fun field => by
          simp [readField, bufferResource, hb, SparkleResource.get, hr, shmBufferGet, hbuf, bind,
            Except.bind, pure, Except.pure]
        by_cases hf : b.format = wlShmFormatArgb8888 ∨ b.format = wlShmFormatXrgb8888
        · simp [repaint, data, hb, bufferResource, SparkleResource.get, hr, shmBufferGet, hbuf, hf,
            width, height, stride, hread, bind, Except.bind, pure, Except.pure]
        · simp [repaint, data, hb, bufferResource, SparkleResource.get, hr, shmBufferGet, hbuf, hf,
            bind, Except.bind, pure, Except.pure]
      · rw [hb, Option.some.injEq] at hw'
        rw [← hw', SparkleResource.valid, hr]
        rfl

/-- Attaching wraps the buffer, once the last one was released. -/
theorem attach_eq (h : s.Sound) (buffer : Option Nat) :
    s.attach buffer =
      (SparkleResource.wrap s.liveBuffer buffer).map fun w => { s with buffer := some w } := by
  rcases hb : s.buffer with _ | w
  · simp only [attach, hb, bind, Except.bind, pure, Except.pure]
    cases SparkleResource.wrap s.liveBuffer buffer <;> rfl
  · have hw := h.buffer w hb
    obtain ⟨w', hw'⟩ := hw.collapse
    simp only [attach, hb, hw.send, hw', bind, Except.bind, pure, Except.pure]
    cases SparkleResource.wrap s.liveBuffer buffer <;> rfl

theorem attach_null (h : s.Sound) : s.attach none = .error .nullResource := by
  rw [attach_eq h, SparkleResource.wrap_null]
  rfl

theorem attach_live (h : s.Sound) {r : Nat} (hr : s.liveBuffer r = true) :
    s.attach (some r) = .ok { s with buffer := some ⟨some r, true, true⟩ } := by
  rw [attach_eq h, SparkleResource.wrap_live hr]
  rfl

/-- A pending callback can always be answered. -/
theorem finishCallback_ok (h : s.Sound) :
    ∃ callbacks, s.finishCallback = .ok { s with callbacks := callbacks, callback := none } := by
  rcases hc : s.callback with _ | w
  · refine ⟨s.callbacks, ?_⟩
    simp only [finishCallback, hc, pure, Except.pure]
    rw [← hc]
  · obtain ⟨hvalid, hfaithful⟩ := h.callback w hc
    obtain ⟨r, hr⟩ := Option.isSome_iff_exists.mp hvalid
    refine ⟨Function.update s.callbacks r false, ?_⟩
    simp only [finishCallback, hc, hfaithful.send, SparkleResource.get, hr,
      SparkleResource.deref_ok (hfaithful r hr).1, bind, Except.bind, pure, Except.pure]

theorem frame_ok (h : s.Sound) (id : Nat) :
    ∃ callbacks, callbacks id = true ∧ s.frame id =
      .ok { s with callbacks := callbacks, callback := some ⟨some id, true, true⟩ } := by
  obtain ⟨callbacks, hfinish⟩ := finishCallback_ok h
  have hlive : Function.update callbacks id true id = true := Function.update_self ..
  refine ⟨Function.update callbacks id true, hlive, ?_⟩
  simp only [frame, hfinish, SparkleResource.wrap_live hlive, bind, Except.bind, pure, Except.pure]

/-- A commit goes well exactly when the view can read the surface. -/
theorem commit_eq (h : s.Sound) (hcopes : s.Copes .commit) :
    ∃ callbacks, s.commit = .ok { s with callbacks := callbacks, callback := none } := by
  obtain ⟨callbacks, hfinish⟩ := finishCallback_ok h
  refine ⟨callbacks, ?_⟩
  cases hs : s.shown with
  | false => simp only [commit, hs, hfinish, Bool.false_eq_true, if_false, bind, Except.bind]
  | true =>
    have hread := (repaint_ok_iff h).mpr (hcopes hs)
    simp only [commit, hs, hfinish, hread, if_true, bind, Except.bind]

/-! ## One event -/

/-- The handler of an event the surface copes with succeeds and keeps both wrappers
sound. -/
theorem handle_of_copes (h : s.Sound) {e : Event} (hp : s.Possible e) (hc : s.Copes e) :
    ∃ s', s.handle e = .ok s' ∧ s'.Sound := by
  cases e with
  | createBuffer r b =>
    refine ⟨_, rfl, fun w hw => ?_, h.callback⟩
    rw [liveBuffer_update s r (some b) s.buffer]
    refine (h.buffer w hw).mono fun r' hr' => ?_
    by_cases hr : r' = r
    · rw [hr, Function.update_self]
      rfl
    · rw [Function.update_of_ne hr]
      exact hr'
  | attach buffer =>
    rcases buffer with _ | r
    · exact hc.elim
    · refine ⟨_, attach_live h hp, ?_, h.callback⟩
      rintro _ ⟨⟩
      exact SparkleResource.faithful_wrapped hp
  | damage x y width height => exact ⟨s, rfl, h⟩
  | frame id =>
    obtain ⟨callbacks, hid, heq⟩ := frame_ok h id
    refine ⟨_, heq, h.buffer, ?_⟩
    rintro _ ⟨⟩
    exact ⟨rfl, SparkleResource.faithful_wrapped hid⟩
  | commit =>
    obtain ⟨callbacks, heq⟩ := commit_eq h hc
    exact ⟨_, heq, h.buffer, fun w hw => nomatch hw⟩
  | destroyBuffer r =>
    refine ⟨_, rfl, ?_, h.callback⟩
    intro w hw
    obtain ⟨w', hw', rfl⟩ := Option.map_eq_some_iff.mp hw
    rw [destroyBuffer, liveBuffer_update s r none _]
    exact (h.buffer w' hw').notify r
  | repaint =>
    refine ⟨s, ?_, h⟩
    simp only [handle, (repaint_ok_iff h).mpr hc, bind, Except.bind, pure, Except.pure]

/-- The handler of any other event goes wrong. -/
theorem handle_of_not_copes (h : s.Sound) {e : Event} (hc : ¬ s.Copes e) :
    ∃ fault, s.handle e = .error fault := by
  have hrepaint : ¬ s.Readable → ∃ fault, s.repaint = .error fault := by
    intro hread
    rcases hr : s.repaint with fault | u
    · exact ⟨fault, rfl⟩
    · exact absurd ((repaint_ok_iff h).mp hr) hread
  cases e with
  | createBuffer | damage | frame | destroyBuffer => exact absurd trivial hc
  | attach buffer =>
    rcases buffer with _ | r
    · exact ⟨_, attach_null h⟩
    · exact absurd trivial hc
  | commit =>
    obtain ⟨hs, hread⟩ := Classical.not_imp.mp hc
    obtain ⟨fault, hfault⟩ := hrepaint hread
    refine ⟨fault, ?_⟩
    simp only [handle, commit, hs, hfault, if_true, bind, Except.bind]
  | repaint =>
    obtain ⟨fault, hfault⟩ := hrepaint hc
    refine ⟨fault, ?_⟩
    simp only [handle, hfault, bind, Except.bind]

/-! ## Whole runs -/

/-- The guard of a run: every event finds a surface that copes with it. -/
def Coped (o : Except Fault SparkleSurface) (e : Event) : Prop := ∀ s, o = .ok s → s.Copes e

/-- What a run maintains: unless it has gone wrong, the wrappers are sound. -/
def Kept (o : Except Fault SparkleSurface) : Prop := ∀ s, o = .ok s → s.Sound

theorem start_kept {o : Except Fault SparkleSurface} (h : machine.start o) :
    Kept o ∧ ∃ s, o = .ok s := by
  obtain ⟨shown, rfl⟩ := h
  refine ⟨?_, _, rfl⟩
  rintro _ ⟨⟩
  exact fresh_sound shown

theorem step_kept {o o' : Except Fault SparkleSurface} {e : Event} (h : Kept o)
    (hstep : machine.step o e o') : Kept o' := by
  obtain ⟨s, rfl, hp, rfl⟩ := hstep
  intro s' hs'
  by_cases hc : s.Copes e
  · obtain ⟨t, ht, htsound⟩ := handle_of_copes (h s rfl) hp hc
    rw [ht] at hs'
    cases hs'
    exact htsound
  · obtain ⟨fault, hfault⟩ := handle_of_not_copes (h s rfl) hc
    rw [hfault] at hs'
    cases hs'

/-- An event goes without a fault exactly when the surface copes with it. -/
theorem step_ok_iff {o o' : Except Fault SparkleSurface} {e : Event} (h : Kept o)
    (hstep : machine.step o e o') : (∃ s, o' = .ok s) ↔ (∃ s, o = .ok s) ∧ Coped o e := by
  obtain ⟨s, rfl, hp, rfl⟩ := hstep
  constructor
  · rintro ⟨s', hs'⟩
    refine ⟨⟨s, rfl⟩, ?_⟩
    rintro _ ⟨⟩
    by_contra hc
    obtain ⟨fault, hfault⟩ := handle_of_not_copes (h s rfl) hc
    rw [hfault] at hs'
    cases hs'
  · rintro ⟨-, hc⟩
    obtain ⟨t, ht, -⟩ := handle_of_copes (h s rfl) hp (hc s rfl)
    exact ⟨t, ht⟩

/-- **Faults**: a run goes without a fault exactly when every event on the way finds
a surface that copes with it. -/
theorem faultFree_iff (es : List Event) (o : Except Fault SparkleSurface) :
    (machine.Reaches es o ∧ ∃ s, o = .ok s) ↔ (machine.guarded Coped).Reaches es o :=
  Machine.reaches_guarded_iff (I := Kept) (fun _ => start_kept) (fun _ _ _ => step_kept)
    fun _ _ _ => step_ok_iff

/-- Attaching the null buffer dereferences it, and repainting after the client
destroyed the attached buffer throws. -/
theorem faults_null_destroyed :
    machine.Reaches [.attach none] (.error .nullResource) ∧
      machine.Reaches [.createBuffer 0 ⟨0, 1, 1, 4⟩, .attach (some 0), .destroyBuffer 0, .repaint]
        (.error .wereException) := by
  have step : ∀ {es : List Event} {s : SparkleSurface} (e : Event),
      machine.Reaches es (.ok s) → s.Possible e → machine.Reaches (es ++ [e]) (s.handle e) :=
    fun e h hp => h.next ⟨_, rfl, hp, rfl⟩
  have hfresh : machine.Reaches [] (.ok (fresh true)) := .start ⟨true, rfl⟩
  refine ⟨step (.attach none) hfresh trivial, ?_⟩
  have h₁ := step (.createBuffer 0 ⟨0, 1, 1, 4⟩) hfresh rfl
  have h₂ := step (.attach (some 0)) h₁ rfl
  have h₃ := step (.destroyBuffer 0) h₂ rfl
  exact step .repaint h₃ trivial

end SparkleSurface

end SparkleWayland

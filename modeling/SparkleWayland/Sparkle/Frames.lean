import SparkleWayland.Sparkle.Surface

/-!
# When frame callbacks are done (`sparkle_common/sparkle_surface.cpp`)

A client that wants to draw at the right time asks for a frame callback, commits, and is told
`done` when what it committed was repainted. `sparkle_surface` has one `callback_` for all
requests, and completes the one that is there when the next is asked for, whether it was
committed or not. `answered_guarded_iff` says that this makes no difference exactly for clients that
do not ask while a callback is pending.

`history` has an entry for each request, with what was sent while it was handled. Frame
requests are numbered.
-/

namespace SparkleWayland

/-- What a client requests, as far as frame callbacks go. -/
inductive FrameRequest where
  | frame (n : Nat)
  | commit
  | other
  deriving DecidableEq, Repr

/-- What happens while a request is handled: the views repaint from within the signal `commit`,
a callback is sent `done`, its resource is destroyed. -/
inductive FrameOutput where
  | repainted
  | done (n : Nat)
  | destroyed (n : Nat)
  deriving DecidableEq, Repr

/-- A request, and what happened while it was handled. -/
abbrev FrameEntry := FrameRequest × List FrameOutput

namespace FrameEntry

/-- The number of the callback that an output completes. -/
def doneNumber : FrameOutput → Option Nat
  | .done n => some n
  | _ => none

/-- The number of the callback whose resource an output destroys. -/
def destroyedNumber : FrameOutput → Option Nat
  | .destroyed n => some n
  | _ => none

/-- All that happened, in order. -/
def outputs (h : List FrameEntry) : List FrameOutput := h.flatMap Prod.snd

/-- The callbacks that were completed, in order. -/
def dones (h : List FrameEntry) : List Nat := (outputs h).filterMap doneNumber

/-- The callbacks whose resources were destroyed, in order. -/
def destroyeds (h : List FrameEntry) : List Nat := (outputs h).filterMap destroyedNumber

/-- The discipline of frame callbacks. -/
structure Answered (h : List FrameEntry) : Prop where
  /-- A callback is completed once if a commit follows its request, and never otherwise. -/
  once : ∀ before n outs after, h = before ++ (.frame n, outs) :: after →
    (dones h).count n = if .commit ∈ after.map Prod.fst then 1 else 0
  /-- It is completed while a later commit is handled, behind the repaint. -/
  inCommit : ∀ before request outs after n, h = before ++ (request, outs) :: after →
    .done n ∈ outs → request = .commit ∧ .frame n ∈ before.map Prod.fst ∧
      ∃ os os', outs = os ++ .done n :: os' ∧ .repainted ∉ os'
  inOrder : (dones h).Pairwise (· < ·)
  destroyedOnce : ∀ n, (destroyeds h).count n = if n ∈ dones h then 1 else 0

/-- No callback was completed by a request for another. -/
def Quiet (h : List FrameEntry) : Prop := ∀ n outs, (.frame n, outs) ∈ h → outs = []

variable {h : List FrameEntry}

theorem dones_append (h : List FrameEntry) (e : FrameEntry) :
    dones (h ++ [e]) = dones h ++ e.2.filterMap doneNumber := by
  simp [dones, outputs]

theorem destroyeds_append (h : List FrameEntry) (e : FrameEntry) :
    destroyeds (h ++ [e]) = destroyeds h ++ e.2.filterMap destroyedNumber := by
  simp [destroyeds, outputs]

theorem quiet_append_iff {e : FrameEntry} :
    Quiet (h ++ [e]) ↔ Quiet h ∧ ∀ n, e.1 = .frame n → e.2 = [] := by
  constructor
  · intro hq
    refine ⟨fun n outs hmem => hq n outs (List.mem_append_left _ hmem), fun n hn => ?_⟩
    refine hq n e.2 (List.mem_append_right _ (List.mem_singleton.mpr ?_))
    rw [← hn]
  · rintro ⟨hq, hlast⟩ n outs hmem
    rcases List.mem_append.mp hmem with hold | hnew
    · exact hq n outs hold
    · rw [← List.mem_singleton.mp hnew] at hlast
      exact hlast n rfl

end FrameEntry

open FrameEntry

/-! ## The surface -/

/-- A `sparkle_surface`, the number of frame requests so far, and what happened. `callback_`
wraps the callback of the last of them. -/
structure FramedSurface where
  surface : SparkleSurface
  frames : Nat
  history : List FrameEntry

namespace FramedSurface

/-- The number of the pending callback. -/
def pending (s : FramedSurface) : Option Nat := s.surface.callback.map fun _ => s.frames - 1

/-- `send_done` and `wl_resource_destroy` of the pending callback, as `frame` and `commit` have
them. -/
def finished (s : FramedSurface) : List FrameOutput :=
  match s.pending with
  | none => []
  | some n => [.done n, .destroyed n]

/-- The entry of an event. -/
def entry (s : FramedSurface) : SparkleSurface.Event → FrameEntry
  | .frame _ => (.frame s.frames, s.finished)
  | .commit => (.commit, (if s.surface.shown then [.repainted] else []) ++ s.finished)
  | _ => (.other, [])

/-- The surface behind an event. -/
def next (s : FramedSurface) (e : SparkleSurface.Event) (surface : SparkleSurface) :
    FramedSurface where
  surface := surface
  frames := match e with
    | .frame _ => s.frames + 1
    | _ => s.frames
  history := s.history ++ [s.entry e]

/-- One event, of those that are handled without a fault. -/
def Step (s : FramedSurface) (e : SparkleSurface.Event) (t : FramedSurface) : Prop :=
  s.surface.Possible e ∧ ∃ surface, s.surface.handle e = .ok surface ∧ t = s.next e surface

def machine : Machine FramedSurface SparkleSurface.Event where
  start s := ∃ shown, s = ⟨.fresh shown, 0, []⟩
  step := Step

/-- A client that does not ask for a frame while a callback is pending. -/
def Patient (s : FramedSurface) : SparkleSurface.Event → Prop
  | .frame _ => s.pending = none
  | _ => True

/-! ## What one event does -/

/-- What becomes of `callback_`. -/
def callbackBehind (callback : Option SparkleResource) :
    SparkleSurface.Event → Option SparkleResource
  | .frame id => some ⟨some id, true, true⟩
  | .commit => none
  | _ => callback

theorem handle_callback {s t : SparkleSurface} (hs : s.Sound) {e : SparkleSurface.Event}
    (hp : s.Possible e) (h : s.handle e = .ok t) :
    t.Sound ∧ t.callback = callbackBehind s.callback e ∧ t.shown = s.shown := by
  have hcopes : s.Copes e := by
    by_contra hnot
    obtain ⟨fault, hfault⟩ := SparkleSurface.handle_of_not_copes hs hnot
    rw [hfault] at h
    cases h
  obtain ⟨t', ht', hsound⟩ := SparkleSurface.handle_of_copes hs hp hcopes
  cases ht'.symm.trans h
  refine ⟨hsound, ?_⟩
  cases e with
  | createBuffer r b =>
    cases h
    exact ⟨rfl, rfl⟩
  | attach buffer =>
    cases buffer with
    | none => exact hcopes.elim
    | some r =>
      cases (SparkleSurface.attach_live hs hp).symm.trans h
      exact ⟨rfl, rfl⟩
  | damage x y width height =>
    cases h
    exact ⟨rfl, rfl⟩
  | frame id =>
    obtain ⟨callbacks, -, heq⟩ := SparkleSurface.frame_ok hs id
    cases heq.symm.trans h
    exact ⟨rfl, rfl⟩
  | commit =>
    obtain ⟨callbacks, heq⟩ := SparkleSurface.commit_eq hs hcopes
    cases heq.symm.trans h
    exact ⟨rfl, rfl⟩
  | destroyBuffer r =>
    cases h
    exact ⟨rfl, rfl⟩
  | repaint =>
    have hok := (SparkleSurface.repaint_ok_iff hs).mpr hcopes
    simp only [SparkleSurface.handle, hok, bind, Except.bind, pure, Except.pure,
      Except.ok.injEq] at h
    cases h
    exact ⟨rfl, rfl⟩

/-! ## What holds of every run -/

/-- The number of callbacks that have been completed, as long as none is skipped. -/
def answered (s : FramedSurface) : Nat := if s.pending.isSome then s.frames - 1 else s.frames

/-- A completion in its place: in a commit behind the request, and behind the repaint. -/
def InPlace (h : List FrameEntry) : Prop :=
  ∀ before request outs after n, h = before ++ (request, outs) :: after → .done n ∈ outs →
    request = .commit ∧ .frame n ∈ before.map Prod.fst ∧
      ∃ os os', outs = os ++ .done n :: os' ∧ .repainted ∉ os'

/-- As long as no request completes the callback of another, the callbacks are completed one
by one. -/
structure Orderly (s : FramedSurface) : Prop where
  dones : dones s.history = List.range s.answered
  destroyeds : destroyeds s.history = List.range s.answered
  committed : ∀ before n outs after, s.history = before ++ (.frame n, outs) :: after →
    (.commit ∈ after.map Prod.fst ↔ n < s.answered)
  numbered : ∀ n, .frame n ∈ s.history.map Prod.fst ↔ n < s.frames
  inPlace : InPlace s.history

/-- What holds of the surface and its history in every run. -/
structure Tracks (s : FramedSurface) : Prop where
  sound : s.surface.Sound
  counted : s.pending.isSome → 0 < s.frames
  completes : ∀ n outs, (.frame n, outs) ∈ s.history → outs ≠ [] → ∃ m, .done m ∈ outs
  orderly : Quiet s.history → s.Orderly

section Step

variable {s t : FramedSurface}

theorem Orderly.answered (h : s.Orderly) : Answered s.history := by
  refine ⟨fun before n outs after heq => ?_, h.inPlace, ?_, fun n => ?_⟩
  · rw [h.dones, List.nodup_range.count]
    simp only [h.committed before n outs after heq, List.mem_range]
  · rw [h.dones]
    exact List.pairwise_lt_range
  · rw [h.destroyeds, h.dones, List.nodup_range.count]

/-- A callback that a frame request completes is completed out of place. -/
theorem Tracks.answered_iff (h : s.Tracks) : Answered s.history ↔ Quiet s.history := by
  constructor
  · intro hanswered n outs hmem
    by_contra hne
    obtain ⟨m, hdone⟩ := h.completes n outs hmem hne
    obtain ⟨before, after, heq⟩ := List.append_of_mem hmem
    cases (hanswered.inCommit before _ outs after m heq hdone).1
  · exact fun hquiet => (h.orderly hquiet).answered

theorem tracks_fresh (shown : Bool) : Tracks ⟨.fresh shown, 0, []⟩ where
  sound := SparkleSurface.fresh_sound shown
  counted := nofun
  completes := nofun
  orderly _ := by
    refine ⟨rfl, rfl, fun before n outs after heq => ?_, fun n => ?_,
      fun before request outs after n heq => ?_⟩
    · simp at heq
    · simp
    · simp at heq

/-- One more entry, which leaves the completions in their place if it has none. -/
theorem inPlace_append {h : List FrameEntry} (hin : InPlace h) {e : FrameEntry}
    (hlast : ∀ n, .done n ∈ e.2 → e.1 = .commit ∧ .frame n ∈ h.map Prod.fst ∧
      ∃ os os', e.2 = os ++ .done n :: os' ∧ .repainted ∉ os') : InPlace (h ++ [e]) := by
  intro before request outs after n heq hdone
  rcases Machine.snoc_eq_cut_iff.mp heq with ⟨-, rfl, rfl⟩ | ⟨after', -, heq'⟩
  · exact hlast n hdone
  · exact hin before request outs after' n heq' hdone

/-- A request that leaves `callback_` alone. -/
theorem orderly_other (h : s.Orderly) (hpending : t.pending = s.pending)
    (hframes : t.frames = s.frames) (hhistory : t.history = s.history ++ [(.other, [])]) :
    t.Orderly := by
  have hanswered : t.answered = s.answered := by
    rw [FramedSurface.answered, FramedSurface.answered, hpending, hframes]
  refine ⟨?_, ?_, fun before n outs after heq => ?_, fun n => ?_, ?_⟩
  · rw [hhistory, dones_append, hanswered, h.dones]
    exact List.append_nil _
  · rw [hhistory, destroyeds_append, hanswered, h.destroyeds]
    exact List.append_nil _
  · rw [hhistory] at heq
    rcases Machine.snoc_eq_cut_iff.mp heq with ⟨-, -, hbad⟩ | ⟨after', rfl, heq'⟩
    · cases hbad
    · rw [hanswered, ← h.committed before n outs after' heq']
      simp
  · rw [hhistory, hframes, ← h.numbered n]
    simp
  · rw [hhistory]
    exact inPlace_append h.inPlace nofun

/-- A frame request while no callback is pending. -/
theorem orderly_frame (h : s.Orderly) (hnone : s.pending = none)
    (hpending : t.pending = some s.frames) (hframes : t.frames = s.frames + 1)
    (hhistory : t.history = s.history ++ [(.frame s.frames, [])]) : t.Orderly := by
  have hanswered : t.answered = s.answered := by
    rw [FramedSurface.answered, FramedSurface.answered, hpending, hframes, hnone]
    rfl
  have hall : s.answered = s.frames := by
    rw [FramedSurface.answered, hnone]
    rfl
  refine ⟨?_, ?_, fun before n outs after heq => ?_, fun n => ?_, ?_⟩
  · rw [hhistory, dones_append, hanswered, h.dones]
    exact List.append_nil _
  · rw [hhistory, destroyeds_append, hanswered, h.destroyeds]
    exact List.append_nil _
  · rw [hhistory] at heq
    rcases Machine.snoc_eq_cut_iff.mp heq with ⟨rfl, -, hlast⟩ | ⟨after', rfl, heq'⟩
    · -- the request itself: nothing follows it
      cases hlast
      rw [hanswered, hall]
      simp
    · rw [hanswered, ← h.committed before n outs after' heq']
      simp
  · rw [hhistory, hframes, List.map_append, List.mem_append, h.numbered n]
    simp only [List.map_cons, List.map_nil, List.mem_singleton, FrameRequest.frame.injEq]
    omega
  · rw [hhistory]
    exact inPlace_append h.inPlace nofun

/-- A commit completes the callback that is pending. -/
theorem orderly_commit (h : s.Orderly) (hcounted : s.pending.isSome → 0 < s.frames)
    (hpending : t.pending = none) (hframes : t.frames = s.frames)
    (hhistory : t.history = s.history ++ [s.entry .commit]) : t.Orderly := by
  have hall : t.answered = s.frames := by
    rw [FramedSurface.answered, hpending, hframes]
    rfl
  have hshown : ((if s.surface.shown then [.repainted] else []).filterMap doneNumber = []) ∧
      (if s.surface.shown then [.repainted] else []).filterMap destroyedNumber = [] := by
    split <;> exact ⟨rfl, rfl⟩
  -- what is completed is what was missing
  have hrange : List.range s.frames = List.range s.answered ++ s.finished.filterMap doneNumber ∧
      s.finished.filterMap destroyedNumber = s.finished.filterMap doneNumber := by
    cases hcase : s.surface.callback with
    | none => simp [FramedSurface.answered, finished, pending, hcase]
    | some w =>
      have hpos := hcounted (by simp [pending, hcase])
      obtain ⟨k, hk⟩ := Nat.exists_eq_succ_of_ne_zero (Nat.ne_of_gt hpos)
      simp only [FramedSurface.answered, finished, pending, hcase, hk, Option.map_some,
        Option.isSome_some, if_true, Nat.succ_sub_one, List.range_succ]
      exact ⟨rfl, rfl⟩
  refine ⟨?_, ?_, fun before n outs after heq => ?_, fun n => ?_, ?_⟩
  · rw [hhistory, dones_append, hall, h.dones, hrange.1, entry, List.filterMap_append, hshown.1,
      List.nil_append]
  · rw [hhistory, destroyeds_append, hall, h.destroyeds, hrange.1, entry, List.filterMap_append,
      hshown.2, List.nil_append, hrange.2]
  · rw [hhistory] at heq
    rcases Machine.snoc_eq_cut_iff.mp heq with ⟨-, -, hbad⟩ | ⟨after', rfl, heq'⟩
    · cases hbad
    · have hlt := (h.numbered n).mp (by rw [heq']; simp)
      rw [hall]
      simp [entry, hlt]
  · rw [hhistory, hframes, ← h.numbered n]
    simp [entry]
  · rw [hhistory]
    refine inPlace_append h.inPlace fun n hdone => ⟨rfl, ?_⟩
    cases hcase : s.surface.callback with
    | none =>
      simp [entry, finished, pending, hcase] at hdone
    | some w =>
      have hpos := hcounted (by simp [pending, hcase])
      have hn : n = s.frames - 1 := by
        simp only [entry, finished, pending, hcase, Option.map_some, List.mem_append,
          List.mem_cons, FrameOutput.done.injEq, reduceCtorEq, List.not_mem_nil, or_false] at hdone
        rcases hdone with hdone | hdone
        · split at hdone <;> simp at hdone
        · exact hdone
      subst hn
      refine ⟨(h.numbered _).mpr (by omega), if s.surface.shown then [.repainted] else [],
        [.destroyed (s.frames - 1)], ?_, by simp⟩
      simp [entry, finished, pending, hcase]

/-- An event that leaves `callback_` alone. -/
theorem step_other (hs : s.Tracks) {e : SparkleSurface.Event} {surface : SparkleSurface}
    (hsound : surface.Sound) (hcallback : surface.callback = callbackBehind s.surface.callback e)
    (hsame : callbackBehind s.surface.callback e = s.surface.callback)
    (hentry : s.entry e = (.other, [])) (hframes : (s.next e surface).frames = s.frames)
    (hpatient : s.Patient e) :
    (s.next e surface).Tracks ∧
      (Quiet (s.next e surface).history ↔ Quiet s.history ∧ s.Patient e) := by
  have hpending : (s.next e surface).pending = s.pending := by
    rw [pending, pending, hframes]
    show surface.callback.map _ = _
    rw [hcallback, hsame]
  have hhistory : (s.next e surface).history = s.history ++ [(.other, [])] := by
    rw [← hentry]
    rfl
  have hquiet : Quiet (s.next e surface).history ↔ Quiet s.history ∧ s.Patient e := by
    rw [hhistory, quiet_append_iff]
    exact and_congr_right fun _ => iff_of_true nofun hpatient
  refine ⟨⟨hsound, ?_, ?_, fun hq => ?_⟩, hquiet⟩
  · rw [hpending, hframes]
    exact hs.counted
  · intro n outs hmem hne
    rw [hhistory] at hmem
    rcases List.mem_append.mp hmem with hold | hnew
    · exact hs.completes n outs hold hne
    · cases List.mem_singleton.mp hnew
  · exact orderly_other (hs.orderly (hquiet.mp hq).1) hpending hframes hhistory

/-- **Step**: behind an event the history is as it should be just if it was before and the
client was patient. -/
theorem step_tracks (hs : s.Tracks) {e : SparkleSurface.Event} (h : Step s e t) :
    t.Tracks ∧ (Quiet t.history ↔ Quiet s.history ∧ s.Patient e) := by
  obtain ⟨hp, surface, hhandle, rfl⟩ := h
  obtain ⟨hsound, hcallback, -⟩ := handle_callback hs.sound hp hhandle
  have hcompletes (hlast : ∀ n, (s.entry e).1 = .frame n → (s.entry e).2 ≠ [] →
      ∃ m, .done m ∈ (s.entry e).2) :
      ∀ n outs, (.frame n, outs) ∈ s.history ++ [s.entry e] → outs ≠ [] →
        ∃ m, FrameOutput.done m ∈ outs := by
    intro n outs hmem hne
    rcases List.mem_append.mp hmem with hold | hnew
    · exact hs.completes n outs hold hne
    · rw [← List.mem_singleton.mp hnew] at hlast
      exact hlast n rfl hne
  cases e with
  | frame id =>
    have hpending : (s.next (.frame id) surface).pending = some s.frames := by
      rw [pending, next, hcallback]
      rfl
    have hpatient : s.finished = [] ↔ s.pending = none := by
      rw [finished]
      cases s.pending <;> simp
    have hquiet : Quiet (s.next (.frame id) surface).history ↔
        Quiet s.history ∧ s.Patient (.frame id) := by
      refine quiet_append_iff.trans (and_congr_right fun _ => ?_)
      rw [Patient, ← hpatient]
      simp [entry]
    refine ⟨⟨hsound, fun _ => Nat.succ_pos _, hcompletes ?_, fun hq => ?_⟩, hquiet⟩
    · intro n _ hne
      cases hnone : s.pending with
      | none => exact absurd (hpatient.mpr hnone) hne
      | some m => exact ⟨m, by simp [entry, finished, hnone]⟩
    · obtain ⟨hbefore, hnone⟩ := hquiet.mp hq
      refine orderly_frame (hs.orderly hbefore) hnone hpending rfl ?_
      rw [next, entry, hpatient.mpr hnone]
  | commit =>
    have hpending : (s.next .commit surface).pending = none := by
      show surface.callback.map _ = none
      rw [hcallback]
      rfl
    have hquiet : Quiet (s.next .commit surface).history ↔ Quiet s.history ∧ s.Patient .commit :=
      quiet_append_iff.trans (and_congr_right fun _ => iff_of_true nofun trivial)
    refine ⟨⟨hsound, fun hsome => ?_, hcompletes nofun, fun hq => ?_⟩, hquiet⟩
    · rw [hpending] at hsome
      cases hsome
    · exact orderly_commit (hs.orderly (hquiet.mp hq).1) hs.counted hpending rfl rfl
  | _ => exact step_other hs hsound hcallback rfl rfl rfl trivial

/-- **Frame callbacks**: in a run the callbacks are completed as they should be just if the
client never asks for a frame while a callback is pending. -/
theorem answered_guarded_iff (as : List SparkleSurface.Event) (s : FramedSurface) :
    machine.Reaches as s ∧ Answered s.history ↔ (machine.guarded Patient).Reaches as s := by
  refine @Machine.reaches_guarded_iff _ _ machine Tracks (fun s => Answered s.history) Patient
    ?_ ?_ ?_ as s
  · rintro s ⟨shown, rfl⟩
    exact ⟨tracks_fresh shown, (tracks_fresh shown).answered_iff.mpr nofun⟩
  · intro s e t hs h
    exact (step_tracks hs h).1
  · intro s e t hs h
    obtain ⟨ht, hquiet⟩ := step_tracks hs h
    rw [ht.answered_iff, hs.answered_iff]
    exact hquiet

end Step

/-! ## Two requests before a commit -/

/-- The callback of the first request is completed by the second, before any commit. -/
theorem answered_early : ¬ ∀ as s, machine.Reaches as s → Answered s.history := by
  intro h
  have hreaches : ∀ {as : List SparkleSurface.Event} {s : FramedSurface} {surface : SparkleSurface}
      (e : SparkleSurface.Event), machine.Reaches as s → s.surface.Possible e →
        s.surface.handle e = .ok surface → machine.Reaches (as ++ [e]) (s.next e surface) :=
    fun e h hp hhandle => h.next ⟨hp, _, hhandle, rfl⟩
  have h0 : machine.Reaches [] ⟨.fresh true, 0, []⟩ := .start ⟨true, rfl⟩
  have h1 := hreaches (.frame 1) h0 rfl rfl
  have h2 := hreaches (.frame 2) h1 rfl rfl
  have hanswered := h _ _ h2
  cases (hanswered.inCommit [(.frame 0, [])] (.frame 1) [.done 0, .destroyed 0] [] 0 rfl
    List.mem_cons_self).1

end FramedSurface

end SparkleWayland

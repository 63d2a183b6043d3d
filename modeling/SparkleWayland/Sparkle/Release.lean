import SparkleWayland.Sparkle.Surface

/-!
# When buffers are released (`sparkle_common/sparkle_surface.cpp`)

A client may draw into a buffer again once it got `wl_buffer.release`. The buffer that a commit
made current is to be released when a later commit has replaced it, or with the surface; one
that was never made current is not. `sparkle_surface` sends the release when the next buffer
is attached, whatever was committed, and none when the surface is destroyed.
`released_iff` says what is left of runs in which that makes no difference.

`history` is what went over the wire, in order. Attaches are numbered, so that a buffer that
is attached again is told from the attach before.
-/

namespace SparkleWayland

/-- What client and compositor have told each other about a surface. -/
inductive SurfaceEntry where
  | attached (n buffer : Nat)
  | committed
  | destroyed
  | released (n buffer : Nat)
  deriving DecidableEq, Repr

namespace SurfaceEntry

/-- A commit came while the attach was the last one. -/
def MadeCurrent (h : List SurfaceEntry) (n : Nat) : Prop :=
  ∃ buffer before pending after,
    h = (before ++ .attached n buffer :: pending) ++ .committed :: after ∧
      ∀ m c, .attached m c ∉ pending

/-- A commit has made a later attach current. -/
def Replaced (h : List SurfaceEntry) (n : Nat) : Prop := ∃ m, n < m ∧ MadeCurrent h m

/-- The discipline: a release is sent for an attach that was made current, once that was
replaced or the surface destroyed; not twice; and behind the destruction of the
surface none is missing. -/
structure Released (h : List SurfaceEntry) : Prop where
  sound : ∀ before n buffer after, h = before ++ .released n buffer :: after →
    .attached n buffer ∈ before ∧ MadeCurrent before n ∧
      (Replaced before n ∨ .destroyed ∈ before)
  once : ∀ n buffer, h.count (.released n buffer) ≤ 1
  all : .destroyed ∈ h → ∀ n buffer, .attached n buffer ∈ h → MadeCurrent h n →
    h.count (.released n buffer) = 1

section History

variable {h : List SurfaceEntry} {n : Nat}

theorem MadeCurrent.mem (hn : MadeCurrent h n) : ∃ buffer, .attached n buffer ∈ h := by
  obtain ⟨buffer, before, pending, after, rfl, -⟩ := hn
  exact ⟨buffer, by simp⟩

/-- Only a commit makes an attach current. -/
theorem madeCurrent_append_iff {e : SurfaceEntry} (he : e ≠ .committed) :
    MadeCurrent (h ++ [e]) n ↔ MadeCurrent h n := by
  constructor
  · rintro ⟨buffer, before, pending, after, heq, hpending⟩
    rcases Machine.snoc_eq_cut_iff.mp heq with ⟨-, -, rfl⟩ | ⟨after', rfl, rfl⟩
    · exact absurd rfl he
    · exact ⟨buffer, before, pending, after', rfl, hpending⟩
  · rintro ⟨buffer, before, pending, after, rfl, hpending⟩
    exact ⟨buffer, before, pending, after ++ [e], by simp, hpending⟩

theorem released_nil : Released [] where
  sound before n buffer after heq := by simp at heq
  once n buffer := Nat.zero_le 1
  all h := by cases h

/-- Before the surface is destroyed, the discipline does not depend on what comes later. -/
theorem Released.before {es : List SurfaceEntry} (hr : Released (h ++ es))
    (halive : .destroyed ∉ h) : Released h := by
  refine ⟨fun before n buffer after heq => ?_, fun n buffer => ?_, fun hd => absurd hd halive⟩
  · exact hr.sound before n buffer (after ++ es) (by rw [heq]; simp)
  · have hle := hr.once n buffer
    rw [List.count_append] at hle
    exact Nat.le_trans (Nat.le_add_right _ _) hle

/-- An entry that is no release, before the surface is destroyed. -/
theorem released_append_iff {e : SurfaceEntry} (he : ∀ n buffer, e ≠ .released n buffer)
    (hdestroyed : e ≠ .destroyed) (halive : .destroyed ∉ h) :
    Released (h ++ [e]) ↔ Released h := by
  have hcount : ∀ n buffer,
      (h ++ [e]).count (.released n buffer) = h.count (.released n buffer) := by
    intro n buffer
    have hlast : [e].count (.released n buffer) = 0 :=
      List.count_eq_zero_of_not_mem fun hmem => he n buffer (List.mem_singleton.mp hmem).symm
    rw [List.count_append, hlast, Nat.add_zero]
  constructor
  · exact fun hr => hr.before halive
  · intro hr
    refine ⟨fun before n buffer after heq => ?_, fun n buffer => ?_, fun hd => ?_⟩
    · rcases Machine.snoc_eq_cut_iff.mp heq with ⟨-, -, rfl⟩ | ⟨after', -, heq'⟩
      · exact absurd rfl (he n buffer)
      · exact hr.sound before n buffer after' heq'
    · rw [hcount]
      exact hr.once n buffer
    · rcases List.mem_append.mp hd with hd | hd
      · exact absurd hd halive
      · exact absurd (List.mem_singleton.mp hd).symm hdestroyed

/-- A release that comes too early. -/
theorem not_released_append {buffer : Nat} (h' : ¬ Replaced h n) (halive : .destroyed ∉ h) :
    ¬ Released (h ++ [.released n buffer]) := by
  intro hr
  exact (hr.sound h n buffer [] rfl).2.2.elim h' halive

/-- The destruction of a surface that has sent no release. -/
theorem released_append_destroyed_iff (hnone : ∀ n buffer, .released n buffer ∉ h) :
    Released (h ++ [.destroyed]) ↔ ∀ n, ¬ MadeCurrent h n := by
  have hnone' : ∀ n buffer, .released n buffer ∉ h ++ [.destroyed] := by
    intro n buffer hmem
    rcases List.mem_append.mp hmem with hmem | hmem
    · exact hnone n buffer hmem
    · cases List.mem_singleton.mp hmem
  have hcount : ∀ n buffer, List.count (.released n buffer) (h ++ [.destroyed]) = 0 :=
    fun n buffer => List.count_eq_zero_of_not_mem (hnone' n buffer)
  constructor
  · intro hr n hn
    obtain ⟨buffer, hmem⟩ := hn.mem
    -- the buffer that was made current is owed a release
    have hone := hr.all (by simp) n buffer (List.mem_append_left _ hmem)
      ((madeCurrent_append_iff (by simp)).mpr hn)
    rw [hcount] at hone
    cases hone
  · intro hno
    refine ⟨fun before n buffer after heq => ?_, fun n buffer => ?_, fun _ n buffer _ hn => ?_⟩
    · exact absurd (heq ▸ List.mem_append_right _ List.mem_cons_self) (hnone' n buffer)
    · rw [hcount]
      exact Nat.zero_le 1
    · exact absurd ((madeCurrent_append_iff (by simp)).mp hn) (hno n)

end History

end SurfaceEntry

/-! ## The surface with its wire -/

/-- A `sparkle_surface` until it is destroyed, the number of attaches so far, and what went over
the wire. `buffer_` wraps the buffer of the last attach. -/
structure WiredSurface where
  surface : SparkleSurface
  alive : Bool
  attaches : Nat
  history : List SurfaceEntry

namespace WiredSurface

open SurfaceEntry

/-- What the client requests of a surface, and its destruction. -/
inductive Event where
  | request (e : SparkleSurface.Event)
  | destroy

/-- `send_release` of the buffer in `buffer_`, if there is one. -/
def sendRelease (s : WiredSurface) : List SurfaceEntry :=
  match s.surface.buffer.bind SparkleResource.resource with
  | none => []
  | some r => [.released (s.attaches - 1) r]

/-- What goes over the wire with an event: a request, and the release that the slot of `attach`
sends. The destructor of the surface sends nothing. -/
def wire (s : WiredSurface) : Event → List SurfaceEntry
  | .request (.attach (some r)) => .attached s.attaches r :: s.sendRelease
  | .request .commit => [.committed]
  | .request _ => []
  | .destroy => [.destroyed]

/-- The surface behind an event. -/
def next (s : WiredSurface) (e : Event) (surface : SparkleSurface) : WiredSurface where
  surface := surface
  alive := match e with
    | .request _ => s.alive
    | .destroy => false
  attaches := match e with
    | .request (.attach _) => s.attaches + 1
    | _ => s.attaches
  history := s.history ++ s.wire e

/-- The buffers stay live, and none that is attached is null. -/
def Kept : SparkleSurface.Event → Prop
  | .attach none | .destroyBuffer _ => False
  | _ => True

/-- One event. `~sparkle_surface` resets `buffer_` and `callback_`. -/
def Step (s : WiredSurface) : Event → WiredSurface → Prop
  | .request e, t => s.alive = true ∧ s.surface.Possible e ∧ Kept e ∧
      ∃ surface, s.surface.handle e = .ok surface ∧ t = s.next (.request e) surface
  | .destroy, t => s.alive = true ∧
      t = s.next .destroy { s.surface with buffer := none, callback := none }

def machine : Machine WiredSurface Event where
  start s := ∃ shown, s = ⟨.fresh shown, true, 0, []⟩
  step := Step

/-! ## What one event does -/

/-- What `buffer_` holds behind a request. -/
def bufferBehind (buffer : Option SparkleResource) : SparkleSurface.Event → Option SparkleResource
  | .attach (some r) => some ⟨some r, true, true⟩
  | _ => buffer

/-- The slots, with a buffer that was not destroyed: nothing fails, and only an attach changes
the buffer. -/
theorem handle_kept {s t : SparkleSurface} (hs : s.Sound) (hread : s.Readable)
    {e : SparkleSurface.Event} (hp : s.Possible e) (hk : Kept e) (h : s.handle e = .ok t) :
    t.Sound ∧ t.buffer = bufferBehind s.buffer e := by
  have hcopes : s.Copes e := by
    cases e with
    | attach buffer =>
      cases buffer with
      | none => exact hk
      | some r => trivial
    | commit => exact fun _ => hread
    | repaint => exact hread
    | _ => trivial
  obtain ⟨t', ht', hsound⟩ := SparkleSurface.handle_of_copes hs hp hcopes
  cases ht'.symm.trans h
  refine ⟨hsound, ?_⟩
  cases e with
  | createBuffer r b =>
    cases h
    rfl
  | attach buffer =>
    cases buffer with
    | none => exact hk.elim
    | some r =>
      cases (SparkleSurface.attach_live hs hp).symm.trans h
      rfl
  | damage x y width height =>
    cases h
    rfl
  | frame id =>
    obtain ⟨callbacks, -, heq⟩ := SparkleSurface.frame_ok hs id
    cases heq.symm.trans h
    rfl
  | commit =>
    obtain ⟨callbacks, heq⟩ := SparkleSurface.commit_eq hs hcopes
    cases heq.symm.trans h
    rfl
  | destroyBuffer r => exact hk.elim
  | repaint =>
    have hok := (SparkleSurface.repaint_ok_iff hs).mpr hread
    simp only [SparkleSurface.handle, hok, bind, Except.bind, pure, Except.pure,
      Except.ok.injEq] at h
    exact congrArg SparkleSurface.buffer h.symm

/-- What holds of the surface and its wire in every run. -/
structure Tracks (s : WiredSurface) : Prop where
  numbered : ∀ n buffer, .attached n buffer ∈ s.history → n < s.attaches
  undestroyed : s.alive = true → .destroyed ∉ s.history
  sound : s.alive = true → s.surface.Sound
  wrapped : s.alive = true → ∀ w, s.surface.buffer = some w →
    0 < s.attaches ∧ ∃ r, w = ⟨some r, true, true⟩
  quiet : s.alive = true → Released s.history → ∀ n buffer, .released n buffer ∉ s.history

/-- A client that attaches one buffer, and sees its surface destroyed only if it has not committed
the buffer. -/
def Rare (s : WiredSurface) : Event → Prop
  | .request (.attach _) => s.surface.buffer = none
  | .destroy => ∀ n, ¬ MadeCurrent s.history n
  | .request _ => True

theorem tracks_fresh (shown : Bool) : Tracks ⟨.fresh shown, true, 0, []⟩ where
  numbered n buffer h := by cases h
  undestroyed _ h := by cases h
  sound _ := SparkleSurface.fresh_sound shown
  wrapped _ w h := by cases h
  quiet _ _ n buffer h := by cases h

section Step

variable {s t : WiredSurface}

theorem Tracks.readable (hs : s.Tracks) (halive : s.alive = true) : s.surface.Readable := by
  intro w hw
  obtain ⟨-, r, rfl⟩ := hs.wrapped halive w hw
  rfl

/-- The wire behind an attach while another buffer is attached. -/
theorem attach_not_released (hs : s.Tracks) (halive : s.alive = true) {w : SparkleResource}
    (hw : s.surface.buffer = some w) (r : Nat) :
    ¬ Released (s.history ++ s.wire (.request (.attach (some r)))) := by
  obtain ⟨hpos, r', rfl⟩ := hs.wrapped halive w hw
  have hwire : s.history ++ s.wire (.request (.attach (some r))) =
      (s.history ++ [.attached s.attaches r]) ++ [.released (s.attaches - 1) r'] := by
    simp [wire, sendRelease, hw]
  rw [hwire]
  -- the slot has released the buffer attached last, and nothing is committed behind that
  refine not_released_append ?_ ?_
  · rintro ⟨m, hm, hcurrent⟩
    obtain ⟨buffer, hmem⟩ := ((madeCurrent_append_iff (by simp)).mp hcurrent).mem
    have hlt := hs.numbered m buffer hmem
    omega
  · intro hmem
    rcases List.mem_append.mp hmem with hmem | hmem
    · exact hs.undestroyed halive hmem
    · cases List.mem_singleton.mp hmem

/-- A request that leaves the buffer alone, and is a commit at most. -/
theorem tracks_same (hs : s.Tracks) (halive : s.alive = true) {surface : SparkleSurface}
    (hsound : surface.Sound) (hbuffer : surface.buffer = s.surface.buffer)
    {es : List SurfaceEntry} (hes : es = [] ∨ es = [.committed]) :
    Tracks ⟨surface, s.alive, s.attaches, s.history ++ es⟩ ∧
      (Released (s.history ++ es) ↔ Released s.history) := by
  have hmem : ∀ e ∈ s.history ++ es, e ∈ s.history ∨ e = .committed := by
    intro e he
    rcases List.mem_append.mp he with he | he
    · exact Or.inl he
    · rcases hes with rfl | rfl
      · cases he
      · exact Or.inr (List.mem_singleton.mp he)
  have hreleased : Released (s.history ++ es) ↔ Released s.history := by
    rcases hes with rfl | rfl
    · rw [List.append_nil]
    · exact released_append_iff (by simp) (by simp) (hs.undestroyed halive)
  refine ⟨⟨fun n buffer h => ?_, fun _ h => ?_, fun _ => hsound, fun h => ?_, fun _ hr => ?_⟩,
    hreleased⟩
  · exact hs.numbered n buffer ((hmem _ h).resolve_right (by simp))
  · exact hs.undestroyed halive ((hmem _ h).resolve_right (by simp))
  · dsimp only
    rw [hbuffer]
    exact hs.wrapped h
  · intro n buffer h
    exact hs.quiet halive (hreleased.mp hr) n buffer ((hmem _ h).resolve_right (by simp))

/-- A request other than an attach. -/
theorem request_released_iff (hs : s.Tracks) {e : SparkleSurface.Event}
    (he : ∀ buffer, e ≠ .attach buffer) (h : Step s (.request e) t) :
    t.Tracks ∧ (Released t.history ↔ Released s.history ∧ s.Rare (.request e)) := by
  obtain ⟨halive, hp, hk, surface, hhandle, rfl⟩ := h
  obtain ⟨hsound, hbuffer⟩ := handle_kept (hs.sound halive) (hs.readable halive) hp hk hhandle
  cases e with
  | attach buffer => exact absurd rfl (he buffer)
  | commit =>
    obtain ⟨htracks, hiff⟩ := tracks_same hs halive hsound hbuffer (Or.inr rfl)
    exact ⟨htracks, hiff.trans (and_iff_left trivial).symm⟩
  | _ =>
    obtain ⟨htracks, hiff⟩ := tracks_same hs halive hsound hbuffer (Or.inl rfl)
    exact ⟨htracks, hiff.trans (and_iff_left trivial).symm⟩

/-- An attach, of the first buffer or of another. -/
theorem attach_released_iff (hs : s.Tracks) {r : Nat}
    (h : Step s (.request (.attach (some r))) t) :
    t.Tracks ∧ (Released t.history ↔
      Released s.history ∧ s.Rare (.request (.attach (some r)))) := by
  obtain ⟨halive, hp, hk, surface, hhandle, rfl⟩ := h
  obtain ⟨hsound, hbuffer⟩ := handle_kept (hs.sound halive) (hs.readable halive) hp hk hhandle
  have hwrapped : ∀ w, surface.buffer = some w →
      0 < s.attaches + 1 ∧ ∃ r, w = ⟨some r, true, true⟩ := by
    intro w hw
    rw [hbuffer] at hw
    cases hw
    exact ⟨Nat.succ_pos _, r, rfl⟩
  cases hb : s.surface.buffer with
  | none =>
    -- the first buffer: there is none to release
    have hwire : s.wire (.request (.attach (some r))) = [.attached s.attaches r] := by
      simp [wire, sendRelease, hb]
    have hmem : ∀ e ∈ s.history ++ [.attached s.attaches r],
        e ∈ s.history ∨ e = .attached s.attaches r := by
      intro e he
      exact (List.mem_append.mp he).imp_right List.mem_singleton.mp
    have hreleased : Released (s.history ++ [.attached s.attaches r]) ↔ Released s.history :=
      released_append_iff (by simp) (by simp) (hs.undestroyed halive)
    simp only [next, hwire]
    refine ⟨⟨fun n buffer h => ?_, fun _ h => ?_, fun _ => hsound, fun _ => hwrapped,
      fun _ hr n buffer h => ?_⟩, hreleased.trans (and_iff_left hb).symm⟩
    · rcases hmem _ h with h | h
      · exact Nat.lt_succ_of_lt (hs.numbered n buffer h)
      · cases h
        exact Nat.lt_succ_self _
    · exact hs.undestroyed halive ((hmem _ h).resolve_right (by simp))
    · exact hs.quiet halive (hreleased.mp hr) n buffer ((hmem _ h).resolve_right (by simp))
  | some w =>
    -- another buffer: the slot releases the first one
    have hnot := attach_not_released hs halive hb r
    obtain ⟨-, r', rfl⟩ := hs.wrapped halive w hb
    have hmem : ∀ e ∈ s.history ++ s.wire (.request (.attach (some r))),
        e ∈ s.history ∨ e = .attached s.attaches r ∨ e = .released (s.attaches - 1) r' := by
      simp [wire, sendRelease, hb]
    refine ⟨⟨fun n buffer h => ?_, fun _ h => ?_, fun _ => hsound, fun _ => hwrapped,
      fun _ hr => absurd hr hnot⟩, iff_of_false hnot ?_⟩
    · rcases hmem _ h with h | h | h
      · exact Nat.lt_succ_of_lt (hs.numbered n buffer h)
      · cases h
        exact Nat.lt_succ_self _
      · cases h
    · exact hs.undestroyed halive ((hmem _ h).resolve_right (by simp))
    · rintro ⟨-, hrare⟩
      cases hb.symm.trans hrare

/-- **Step**: behind an event the wire is as the discipline asks just if it was before and the
client is content with what the surface does. -/
theorem step_released_iff (hs : s.Tracks) {e : Event} (h : Step s e t) :
    t.Tracks ∧ (Released t.history ↔ Released s.history ∧ s.Rare e) := by
  cases e with
  | request e =>
    cases e with
    | attach buffer =>
      cases buffer with
      | none => exact absurd h.2.2.1 id
      | some r => exact attach_released_iff hs h
    | _ => exact request_released_iff hs (by simp) h
  | destroy =>
    obtain ⟨halive, rfl⟩ := h
    have halive' : .destroyed ∉ s.history := hs.undestroyed halive
    refine ⟨⟨fun n buffer h => ?_, fun h => ?_, fun h => ?_, fun h => ?_, fun h => ?_⟩, ?_⟩
    · rcases List.mem_append.mp h with h | h
      · exact hs.numbered n buffer h
      · cases List.mem_singleton.mp h
    · cases h
    · cases h
    · cases h
    · cases h
    · -- nothing more is sent, so whatever was made current is never released
      constructor
      · intro hr
        have hbefore := hr.before halive'
        exact ⟨hbefore, (released_append_destroyed_iff (hs.quiet halive hbefore)).mp hr⟩
      · rintro ⟨hbefore, hrare⟩
        exact (released_append_destroyed_iff (hs.quiet halive hbefore)).mpr hrare

end Step

/-- **Releases**: the wire of a run is as the discipline asks just if the client attaches no
second buffer, and the surface is destroyed before the first is made current or not at all. -/
theorem released_iff (as : List Event) (s : WiredSurface) :
    machine.Reaches as s ∧ Released s.history ↔ (machine.guarded Rare).Reaches as s := by
  refine @Machine.reaches_guarded_iff _ _ machine Tracks (fun s => Released s.history) Rare
    ?_ ?_ ?_ as s
  · rintro s ⟨shown, rfl⟩
    exact ⟨tracks_fresh shown, released_nil⟩
  · intro s e t hs h
    exact (step_released_iff hs h).1
  · intro s e t hs h
    exact (step_released_iff hs h).2

/-! ## A second buffer, and a surface that is destroyed -/

theorem reaches_request {as : List Event} {s : WiredSurface} (h : machine.Reaches as s)
    (e : SparkleSurface.Event) {surface : SparkleSurface} (halive : s.alive = true)
    (hp : s.surface.Possible e) (hk : Kept e) (hhandle : s.surface.handle e = .ok surface) :
    machine.Reaches (as ++ [.request e]) (s.next (.request e) surface) :=
  h.next ⟨halive, hp, hk, surface, hhandle, rfl⟩

theorem reaches_destroy {as : List Event} {s : WiredSurface} (h : machine.Reaches as s)
    (halive : s.alive = true) :
    machine.Reaches (as ++ [.destroy])
      (s.next .destroy { s.surface with buffer := none, callback := none }) :=
  h.next ⟨halive, rfl⟩

/-- A release for a buffer that is still current, one for a buffer that was never committed, and
none for the buffer of a surface that is destroyed. -/
theorem released_wrongly :
    (¬ ∀ as s, machine.Reaches as s → ∀ before n buffer after,
      s.history = before ++ .released n buffer :: after →
        Replaced before n ∨ .destroyed ∈ before) ∧
    (¬ ∀ as s, machine.Reaches as s → ∀ before n buffer after,
      s.history = before ++ .released n buffer :: after → MadeCurrent before n) ∧
    ¬ ∀ as s, machine.Reaches as s → .destroyed ∈ s.history → ∀ n buffer,
      .attached n buffer ∈ s.history → MadeCurrent s.history n →
        s.history.count (.released n buffer) = 1 := by
  let image : ShmBuffer := ⟨wlShmFormatArgb8888, 1, 1, 4⟩
  have h0 : machine.Reaches [] ⟨.fresh false, true, 0, []⟩ := .start ⟨false, rfl⟩
  have h1 := reaches_request h0 (.createBuffer 1 image) rfl rfl trivial rfl
  have h2 := reaches_request h1 (.createBuffer 2 image) rfl rfl trivial rfl
  have h3 := reaches_request h2 (.attach (some 1)) rfl rfl trivial rfl
  have h4 := reaches_request h3 .commit rfl trivial trivial rfl
  have hearly := reaches_request h4 (.attach (some 2)) rfl rfl trivial rfl
  have hpending := reaches_request h3 (.attach (some 2)) rfl rfl trivial rfl
  have hdestroyed := reaches_destroy h4 rfl
  refine ⟨fun h => ?_, fun h => ?_, fun h => ?_⟩
  · have hlate := h _ _ hearly [.attached 0 1, .committed, .attached 1 2] 0 1 [] rfl
    rcases hlate with ⟨m, hm, hcurrent⟩ | hmem
    · obtain ⟨buffer, hmem⟩ := ((madeCurrent_append_iff (h := [.attached 0 1, .committed])
        (e := .attached 1 2) (by simp)).mp hcurrent).mem
      simp only [List.mem_cons, attached.injEq, reduceCtorEq, List.not_mem_nil, or_false] at hmem
      omega
    · revert hmem
      decide
  · obtain ⟨b, before, pending, after, heq, -⟩ :=
      h _ _ hpending [.attached 0 1, .attached 1 2] 0 1 [] rfl
    have hmem : .committed ∈ [SurfaceEntry.attached 0 1, .attached 1 2] := by
      rw [heq]
      exact List.mem_append_right _ List.mem_cons_self
    revert hmem
    decide
  · have hcount := h _ _ hdestroyed (List.mem_append_right _ (List.mem_singleton_self _)) 0 1
      List.mem_cons_self ⟨1, [], [], [.destroyed], rfl, by simp⟩
    revert hcount
    decide

end WiredSurface

end SparkleWayland

import Mathlib.Data.List.Induction
import SparkleWayland.Lib.Locked
import SparkleWayland.Were.Signal

/-!
# Threads and locks (`were/were_slot.h`, `were/were_signal.h`, `were/were_capability_debug.cpp`)

A signal's list of connections and the slot of the `were_debug` are each behind a `std::mutex`, for
objects are made, connected and deleted by more than one thread. `connections_serial` says
that no connection is lost or comes back; `debug_attended` says that no thread is
inside a `were_debug` that `main` has deleted, and that its count of objects is right.
-/

namespace SparkleWayland

/-! ## Connections -/

/-- `add_connection` and `remove_connection` of one signal. -/
inductive ConnectionUpdate (Obj : Type) where
  | add (connection : SignalConnection Obj)
  | remove (id : Nat)

namespace ConnectionUpdate

variable {Obj Thread : Type}

/-- The new list, made of a copy of the old one. -/
def apply : ConnectionUpdate Obj → List (SignalConnection Obj) → List (SignalConnection Obj)
  | add connection, connections => connections ++ [connection]
  | remove id, connections => connections.filter fun c => c.id ≠ id

/-- The connection that an update adds. -/
def added : ConnectionUpdate Obj → Option (SignalConnection Obj)
  | add connection => some connection
  | remove _ => none

/-- What it does among the signals of all objects. -/
def perform [DecidableEq Obj] (signal : Signal Obj) (l : Signals Obj) :
    ConnectionUpdate Obj → Signals Obj
  | add connection => l.addConnection signal connection
  | remove id => l.removeConnection signal id

theorem perform_self [DecidableEq Obj] (signal : Signal Obj) (l : Signals Obj)
    (u : ConnectionUpdate Obj) : perform signal l u signal = u.apply (l signal) := by
  cases u <;> exact Function.update_self ..

variable {log : List (Thread × ConnectionUpdate Obj)} {c : SignalConnection Obj}

/-- What a list of updates makes of the empty list. -/
def connections (log : List (Thread × ConnectionUpdate Obj)) : List (SignalConnection Obj) :=
  log.foldl (fun connections p => p.2.apply connections) []

/-- An update behind others. -/
theorem connections_concat (p : Thread × ConnectionUpdate Obj) :
    connections (log ++ [p]) = p.2.apply (connections log) :=
  List.foldl_concat ..

/-- That is what they make of the signal. -/
theorem foldl_perform [DecidableEq Obj] (signal : Signal Obj)
    (log : List (Thread × ConnectionUpdate Obj)) :
    (log.foldl (fun l p => perform signal l p.2) fun _ => []) signal = connections log := by
  induction log using List.reverseRecOn with
  | nil => rfl
  | append_singleton log p ih =>
    rw [connections_concat, List.foldl_append, ← ih]
    exact perform_self signal _ p.2

/-- The connection has been added, and not been removed since. -/
def AddedSince (log : List (Thread × ConnectionUpdate Obj)) (c : SignalConnection Obj) : Prop :=
  ∃ before t after, log = before ++ (t, .add c) :: after ∧ ∀ p ∈ after, p.2 ≠ .remove c.id

theorem addedSince_concat {t' : Thread} {u : ConnectionUpdate Obj} :
    AddedSince (log ++ [(t', u)]) c ↔ u = .add c ∨ (u ≠ .remove c.id ∧ AddedSince log c) := by
  constructor
  · rintro ⟨before, t, after, heq, hafter⟩
    rcases after.eq_nil_or_concat with rfl | ⟨after, q, rfl⟩
    · obtain ⟨-, hlast⟩ := List.append_inj' heq rfl
      cases hlast
      exact Or.inl rfl
    · rw [List.concat_eq_append, ← List.cons_append, ← List.append_assoc] at heq
      obtain ⟨hlog, hlast⟩ := List.append_inj' heq rfl
      cases hlast
      rw [List.concat_eq_append] at hafter
      refine Or.inr ⟨hafter (t', u) (List.mem_append_right _ (List.mem_singleton_self _)),
        before, t, after, hlog, fun p hp => hafter p (List.mem_append_left _ hp)⟩
  · rintro (rfl | ⟨hne, before, t, after, rfl, hafter⟩)
    · exact ⟨log, t', [], rfl, List.forall_mem_nil _⟩
    · refine ⟨before, t, after ++ [(t', u)], by rw [List.append_assoc]; rfl, fun p hp => ?_⟩
      rcases List.mem_append.mp hp with hp | hp
      · exact hafter p hp
      · rw [List.mem_singleton.mp hp]
        exact hne

theorem mem_connections : c ∈ connections log ↔ AddedSince log c := by
  induction log using List.reverseRecOn with
  | nil =>
    refine iff_of_false List.not_mem_nil ?_
    rintro ⟨before, t, after, heq, -⟩
    exact List.append_ne_nil_of_right_ne_nil before (List.cons_ne_nil _ after) heq.symm
  | append_singleton log p ih =>
    obtain ⟨t', u⟩ := p
    rw [connections_concat, addedSince_concat, ← ih]
    cases u with
    | add connection =>
      rw [apply, List.mem_append, List.mem_singleton, add.injEq, and_iff_right (by rintro ⟨⟩),
        or_comm, @eq_comm _ c]
    | remove id =>
      simp only [apply, List.mem_filter, ne_eq, decide_not, Bool.not_eq_true',
        decide_eq_false_iff_not, remove.injEq, reduceCtorEq, false_or]
      rw [and_comm, @eq_comm _ c.id]

/-- The connections are in the order in which they have been added. -/
theorem connections_sublist : (connections log).Sublist (log.filterMap fun p => p.2.added) := by
  induction log using List.reverseRecOn with
  | nil => exact .slnil
  | append_singleton log p ih =>
    obtain ⟨t, u⟩ := p
    rw [connections_concat, List.filterMap_append]
    cases u with
    | add connection => exact ih.append (List.Sublist.refl _)
    | remove id => exact (List.filter_sublist.trans ih).trans (List.sublist_append_left ..)

end ConnectionUpdate

/-- **Connections**: however the threads that connect and disconnect go on, the list is that of the
signal behind their calls in the order in which the lock was got, and in that order; a
connection is in it just if it has been added and not been removed since; and who has
the lock can go on. -/
theorem connections_serial {Obj Thread : Type} [DecidableEq Obj] [DecidableEq Thread]
    {as : List (LockedLabel Thread (ConnectionUpdate Obj))}
    {s : Locked Thread (List (SignalConnection Obj)) (ConnectionUpdate Obj)}
    (h : (Locked.machine ConnectionUpdate.apply []).Reaches as s) :
    as.filterMap Locked.locks = s.log ++ s.pending ∧
      (∀ signal, s.value =
        (s.log.foldl (fun l p => ConnectionUpdate.perform signal l p.2) fun _ => []) signal) ∧
      (∀ c, c ∈ s.value ↔ ConnectionUpdate.AddedSince s.log c) ∧
      s.value.Sublist (s.log.filterMap fun p => p.2.added) ∧
      ∀ t, s.holder = some t → ∃ a, (a = .copy t ∨ a = .publish t ∨ a = .unlock t) ∧
        (s.step ConnectionUpdate.apply a).isSome := by
  obtain ⟨hordered, hlocks⟩ := Locked.serial h
  have hvalue : s.value = ConnectionUpdate.connections s.log := hordered.value
  rw [hvalue]
  exact ⟨hlocks, fun signal => (ConnectionUpdate.foldl_perform signal s.log).symm,
    fun c => ConnectionUpdate.mem_connections, ConnectionUpdate.connections_sublist,
    fun t ht => hordered.progress ht⟩

/-- Two threads connect, the second one while the first one has the lock, and then the first one
disconnects. -/
def twoThreads : List (LockedLabel Bool (ConnectionUpdate Unit)) :=
  let first : SignalConnection Unit := ⟨.call (.make () .destroyed () 0), 0⟩
  let second : SignalConnection Unit := ⟨.call (.make () .destroyed () 3), 3⟩
  [.lock true (.add first), .copy true, .publish true, .unlock true,
    .lock false (.add second), .copy false, .publish false, .unlock false,
    .lock true (.remove 0), .copy true, .publish true]

theorem connections_serial_twoThreads :
    ∃ s, (Locked.machine ConnectionUpdate.apply []).Reaches twoThreads s ∧
      s.value = [⟨.call (.make () .destroyed () 3), 3⟩] ∧
      ∀ c, c ∈ s.value ↔ ConnectionUpdate.AddedSince s.log c := by
  have hrun : (twoThreads.foldlM (Locked.step ConnectionUpdate.apply) (Locked.fresh [])).map
      Locked.value = some [⟨.call (.make () .destroyed () 3), 3⟩] := by
    decide +kernel
  obtain ⟨s, hs, hvalue⟩ := Option.map_eq_some_iff.mp hrun
  have hreaches : (Locked.machine ConnectionUpdate.apply []).Reaches twoThreads s :=
    ⟨_, rfl, Machine.Path.of_run hs⟩
  exact ⟨s, hreaches, hvalue, (connections_serial hreaches).2.2.1⟩

/-! ## The slot of the `were_debug` -/

/-- What is behind the lock of `s_debug`: which of the `were_debug`s that have been made it has, and
the `object_count_` of each. -/
structure DebugState where
  slot : Option Nat
  count : Nat → Int

/-- `were_slot::set` and `were_slot::clear`, and what a `were_capability_debug` calls: `add_object`
and `remove_object`, if `lock` finds a value. -/
inductive DebugCall where
  | set (debug : Nat)
  | clear
  | add
  | remove

namespace DebugCall

def apply : DebugCall → DebugState → DebugState
  | set debug, v => { v with slot := some debug }
  | clear, v => { v with slot := none }
  | add, v => v.slot.elim v fun p => { v with count := Function.update v.count p (v.count p + 1) }
  | remove, v =>
    v.slot.elim v fun p => { v with count := Function.update v.count p (v.count p - 1) }

/-- How many objects have been added, and not removed, since the slot has been set. -/
def tally (n : Int) : DebugCall → Int
  | set _ | clear => 0
  | add => n + 1
  | remove => n - 1

end DebugCall

/-- What `main` does with one `were_debug` after the other. -/
inductive DebugPhase where
  | away
  | created (debug : Nat)
  | published (debug : Nat)
  | retired (debug : Nat)
  deriving DecidableEq, Repr

/-- The one that is not deleted. -/
def DebugPhase.live : DebugPhase → Option Nat
  | away => none
  | created debug | published debug | retired debug => some debug

/-- The slot, how many `were_debug`s have been made, and what `main` is about. -/
structure WereDebug (Thread : Type) where
  slot : Locked Thread DebugState DebugCall
  made : Nat
  phase : DebugPhase

namespace WereDebug

inductive Label (Thread : Type) where
  | act (a : LockedLabel Thread DebugCall)
  /-- `new were_debug()` -/
  | new
  /-- `delete debug` -/
  | delete

variable {Thread : Type} [DecidableEq Thread] {main : Thread}

/-- What `main` is about when it calls: it sets what it has made, and clears before it deletes. Any
thread makes and deletes objects. -/
def called (main : Thread) (phase : DebugPhase) :
    LockedLabel Thread DebugCall → Option DebugPhase
  | .lock t (.set debug) =>
    if t = main ∧ phase = .created debug then some (.published debug) else none
  | .lock t .clear =>
    match phase with
    | .published debug => if t = main then some (.retired debug) else none
    | _ => none
  | _ => some phase

/-- `main` is in no call. -/
def idle (main : Thread) (s : WereDebug Thread) : Bool :=
  match s.slot.turn main with
  | .outside => true
  | _ => false

def step (main : Thread) (s : WereDebug Thread) : Label Thread → Option (WereDebug Thread)
  | .act a =>
    (called main s.phase a).bind fun phase =>
      (s.slot.step DebugCall.apply a).map fun slot => { s with slot := slot, phase := phase }
  | .new =>
    if s.idle main ∧ s.phase = .away then
      some { s with made := s.made + 1, phase := .created s.made }
    else none
  | .delete =>
    match s.phase with
    | .retired _ => if s.idle main then some { s with phase := .away } else none
    | _ => none

def machine (main : Thread) : Machine (WereDebug Thread) (Label Thread) :=
  Machine.ofStep (· = ⟨.fresh ⟨none, fun _ => 0⟩, 0, .away⟩) (step main)

/-- The `were_debug` that a thread is inside: between `get` and the end of `add_object` or
`remove_object`. -/
def inside (s : WereDebug Thread) (t : Thread) : Option Nat :=
  match s.slot.turn t with
  | .copied .add copy | .copied .remove copy => copy.slot
  | _ => none

/-- What holds of the slot, of the call that has the lock, and of what `main` is about. -/
structure Attended (main : Thread) (s : WereDebug Thread) : Prop where
  ordered : s.slot.Ordered DebugCall.apply ⟨none, fun _ => 0⟩
  slot : ∀ p, s.slot.value.slot = some p → s.phase = .published p ∨
    s.phase = .retired p ∧ (main, .clear) ∈ s.slot.pending
  sets : ∀ t p, (t, .set p) ∈ s.slot.pending → t = main ∧ s.phase = .published p
  unset : ∀ p, s.made ≤ p ∨ s.phase = .created p ∨ (main, .set p) ∈ s.slot.pending →
    s.slot.value.count p = 0
  made : ∀ p, s.phase.live = some p → p < s.made
  tally : ∀ p, s.slot.value.slot = some p →
    s.slot.value.count p = s.slot.log.foldl (fun n c => c.2.tally n) 0

variable {s s' : WereDebug Thread}

omit [DecidableEq Thread] in
theorem idle_iff : s.idle main ↔ s.slot.turn main = .outside := by
  rw [idle]
  cases s.slot.turn main <;> simp

/-- What `main` is about stays, or it sets or clears. -/
theorem called_cases {phase phase' : DebugPhase} {a : LockedLabel Thread DebugCall}
    (h : called main phase a = some phase') :
    (∃ p, a = .lock main (.set p) ∧ phase = .created p ∧ phase' = .published p) ∨
      (∃ p, a = .lock main .clear ∧ phase = .published p ∧ phase' = .retired p) ∨
        phase' = phase ∧ (∀ t p, a ≠ .lock t (.set p)) ∧ ∀ t, a ≠ .lock t .clear := by
  cases a with
  | lock t u =>
    cases u with
    | set p =>
      obtain ⟨⟨rfl, hphase⟩, heq⟩ := Option.ite_none_right_eq_some.mp h
      cases heq
      exact Or.inl ⟨p, rfl, hphase, rfl⟩
    | clear =>
      cases phase with
      | published p =>
        obtain ⟨rfl, heq⟩ := Option.ite_none_right_eq_some.mp h
        cases heq
        exact Or.inr (Or.inl ⟨p, rfl, rfl, rfl⟩)
      | away | created | retired => cases h
    | add | remove =>
      cases h
      exact Or.inr (Or.inr ⟨rfl, by rintro _ _ ⟨⟩, by rintro _ ⟨⟩⟩)
  | copy | publish | unlock =>
    cases h
    exact Or.inr (Or.inr ⟨rfl, by rintro _ _ ⟨⟩, by rintro _ ⟨⟩⟩)

/-- `add_object` and `remove_object` count by one. -/
theorem counts_by {u : DebugCall} (hset : ∀ p, u ≠ .set p) (hclear : u ≠ .clear) : ∃ d : Int,
    (∀ v, u.apply v = v.slot.elim v fun p =>
      { v with count := Function.update v.count p (v.count p + d) }) ∧
    ∀ n, u.tally n = n + d := by
  cases u with
  | set p => exact absurd rfl (hset p)
  | clear => exact absurd rfl hclear
  | add => exact ⟨1, fun _ => rfl, fun _ => rfl⟩
  | remove => exact ⟨-1, fun _ => rfl, fun _ => rfl⟩

/-- **Lock**: a call gets the lock. -/
theorem Attended.lock (h : s.Attended main) {slot' : Locked Thread DebugState DebugCall}
    (hordered : slot'.Ordered DebugCall.apply ⟨none, fun _ => 0⟩) {phase : DebugPhase}
    {t : Thread} {u : DebugCall} (hcalled : called main s.phase (.lock t u) = some phase)
    (hpending : s.slot.pending = []) (hpending' : slot'.pending = [(t, u)])
    (hvalue : slot'.value = s.slot.value) (hlog : slot'.log = s.slot.log) :
    Attended main ⟨slot', s.made, phase⟩ := by
  have hpublished : ∀ p, s.slot.value.slot = some p → s.phase = .published p := by
    intro p hp
    refine (h.slot p hp).resolve_right fun hretired => ?_
    rw [hpending] at hretired
    exact List.not_mem_nil hretired.2
  have hcounts : ∀ p, s.made ≤ p ∨ s.phase = .created p → slot'.value.count p = 0 :=
    fun p hp => hvalue ▸ h.unset p (hp.imp_right Or.inl)
  have htally : ∀ p, slot'.value.slot = some p →
      slot'.value.count p = slot'.log.foldl (fun n c => c.2.tally n) 0 := by
    rw [hvalue, hlog]
    exact h.tally
  have hmem : ∀ {t' : Thread} {u' : DebugCall},
      (t', u') ∈ slot'.pending ↔ t' = t ∧ u' = u := by
    intro t' u'
    rw [hpending', List.mem_singleton, Prod.mk.injEq]
  rcases called_cases hcalled with ⟨p, ha, hphase, rfl⟩ | ⟨p, ha, hphase, rfl⟩ |
    ⟨rfl, hset, hclear⟩
  · cases ha
    refine ⟨hordered, fun q hq => ?_, fun t' q hq => ?_, fun q hq => ?_, ?_, htally⟩
    · cases hphase.symm.trans (hpublished q (hvalue ▸ hq))
    · obtain ⟨rfl, heq⟩ := hmem.mp hq
      cases heq
      exact ⟨rfl, rfl⟩
    · refine hcounts q (hq.imp_right fun hq => ?_)
      rcases hq with hq | hq
      · cases hq
      · cases (hmem.mp hq).2
        exact hphase
    · rintro q ⟨⟩
      exact h.made p (hphase ▸ rfl)
  · cases ha
    refine ⟨hordered, fun q hq => ?_, fun t' q hq => ?_, fun q hq => ?_, ?_, htally⟩
    · cases hphase.symm.trans (hpublished q (hvalue ▸ hq))
      exact Or.inr ⟨rfl, hmem.mpr ⟨rfl, rfl⟩⟩
    · cases (hmem.mp hq).2
    · refine hcounts q (hq.imp_right fun hq => ?_)
      rcases hq with hq | hq
      · cases hq
      · cases (hmem.mp hq).2
    · rintro q ⟨⟩
      exact h.made p (hphase ▸ rfl)
  · refine ⟨hordered, fun q hq => Or.inl (hpublished q (hvalue ▸ hq)), fun t' q hq => ?_,
      fun q hq => hcounts q (hq.imp_right fun hq => hq.resolve_right fun hq => ?_), h.made, htally⟩
    · obtain ⟨rfl, rfl⟩ := hmem.mp hq
      exact absurd rfl (hset t' q)
    · obtain ⟨rfl, rfl⟩ := hmem.mp hq
      exact absurd rfl (hset main q)

omit [DecidableEq Thread] in
/-- **Publish**: a call takes effect. -/
theorem Attended.publish (h : s.Attended main) {slot' : Locked Thread DebugState DebugCall}
    (hordered : slot'.Ordered DebugCall.apply ⟨none, fun _ => 0⟩) {t : Thread} {u : DebugCall}
    (hpending : s.slot.pending = [(t, u)]) (hpending' : slot'.pending = [])
    (hvalue : slot'.value = u.apply s.slot.value) (hlog : slot'.log = s.slot.log ++ [(t, u)]) :
    Attended main { s with slot := slot' } := by
  have hnone : ∀ {p}, p ∉ slot'.pending := by
    rw [hpending']
    exact List.not_mem_nil
  have hsets : ∀ t p, (t, .set p) ∈ slot'.pending → t = main ∧ s.phase = .published p :=
    fun _ _ hp => absurd hp hnone
  have htallied : slot'.log.foldl (fun n c => c.2.tally n) 0 =
      u.tally (s.slot.log.foldl (fun n c => c.2.tally n) 0) := by
    rw [hlog, List.foldl_append]
    rfl
  have hunset : ∀ {p}, s.made ≤ p ∨ s.phase = .created p ∨ (main, .set p) ∈ slot'.pending →
      s.slot.value.count p = 0 := fun hp =>
    h.unset _ (hp.imp_right fun hp => Or.inl (hp.resolve_right hnone))
  by_cases hset : ∃ p, u = .set p
  · obtain ⟨p, rfl⟩ := hset
    have hmem : (t, .set p) ∈ s.slot.pending := by
      rw [hpending]
      exact List.mem_singleton_self _
    obtain ⟨rfl, hphase⟩ := h.sets t p hmem
    refine ⟨hordered, fun q hq => ?_, hsets, fun q hq => ?_, h.made, fun q hq => ?_⟩
    · rw [hvalue] at hq
      cases hq
      exact Or.inl hphase
    · rw [hvalue]
      exact hunset hq
    · rw [hvalue] at hq ⊢
      cases hq
      rw [htallied]
      exact h.unset p (Or.inr (Or.inr hmem))
  by_cases hclear : u = .clear
  · subst hclear
    have hempty : slot'.value.slot = none := by
      rw [hvalue]
      rfl
    refine ⟨hordered, fun q hq => ?_, hsets, fun q hq => ?_, h.made, fun q hq => ?_⟩
    · cases hempty.symm.trans hq
    · rw [hvalue]
      exact hunset hq
    · cases hempty.symm.trans hq
  obtain ⟨d, hd, htally⟩ := counts_by (fun p hp => hset ⟨p, hp⟩) hclear
  have hpublished : ∀ p, s.slot.value.slot = some p → s.phase = .published p := by
    intro p hp
    refine (h.slot p hp).resolve_right fun hretired => hclear ?_
    have hmem := hretired.2
    rw [hpending, List.mem_singleton] at hmem
    exact (Prod.mk.inj hmem).2.symm
  rw [hd] at hvalue
  cases hslot : s.slot.value.slot with
  | none =>
    rw [hslot, Option.elim_none] at hvalue
    refine ⟨hordered, fun q hq => ?_, hsets, fun q hq => hvalue ▸ hunset hq, h.made, fun q hq => ?_⟩
    · rw [hvalue] at hq
      cases hslot.symm.trans hq
    · rw [hvalue] at hq
      cases hslot.symm.trans hq
  | some p =>
    rw [hslot, Option.elim_some] at hvalue
    have hslot' : slot'.value.slot = some p := by rw [hvalue]
    refine ⟨hordered, fun q hq => ?_, hsets, fun q hq => ?_, h.made, fun q hq => ?_⟩
    · cases hslot'.symm.trans hq
      exact Or.inl (hpublished p hslot)
    · have hne : q ≠ p := by
        rintro rfl
        have hphase := hpublished q hslot
        rcases hq with hq | hq | hq
        · exact absurd (h.made q (hphase ▸ rfl)) (Nat.not_lt.mpr hq)
        · cases hphase.symm.trans hq
        · exact hnone hq
      rw [hvalue]
      exact (Function.update_of_ne hne _ _).trans (hunset hq)
    · cases hslot'.symm.trans hq
      rw [hvalue, htallied, htally, ← h.tally p hslot]
      exact Function.update_self ..

/-- **Step** -/
theorem Attended.step (h : s.Attended main) {a : Label Thread}
    (hstep : s.step main a = some s') : s'.Attended main := by
  cases a with
  | act a =>
    obtain ⟨phase, hcalled, hstep⟩ := Option.bind_eq_some_iff.mp hstep
    obtain ⟨slot', hslot, rfl⟩ := Option.map_eq_some_iff.mp hstep
    have hordered := h.ordered.step hslot
    rcases h.ordered.cases hslot with ⟨t, u, rfl, hpending, hpending', hvalue, hlog⟩ |
      ⟨t, u, rfl, hpending, hpending', hvalue, hlog⟩ | ⟨⟨t, rfl | rfl⟩, hpending, hvalue, hlog⟩
    · exact h.lock hordered hcalled hpending hpending' hvalue hlog
    · cases hcalled
      exact h.publish hordered hpending hpending' hvalue hlog
    all_goals
      cases hcalled
      refine ⟨hordered, ?_, ?_, ?_, h.made, ?_⟩
      · rw [hvalue, hpending]
        exact h.slot
      · rw [hpending]
        exact h.sets
      · rw [hvalue, hpending]
        exact h.unset
      · rw [hvalue, hlog]
        exact h.tally
  | new =>
    obtain ⟨⟨hidle, haway⟩, heq⟩ := Option.ite_none_right_eq_some.mp hstep
    cases heq
    have hslot : s.slot.value.slot = none := by
      refine Option.eq_none_iff_forall_ne_some.mpr fun p hp => ?_
      rcases h.slot p hp with hphase | ⟨hphase, -⟩ <;> cases haway.symm.trans hphase
    refine ⟨h.ordered, fun q hq => ?_, fun t q hq => ?_, fun q hq => h.unset q ?_, ?_, h.tally⟩
    · cases hslot.symm.trans hq
    · cases haway.symm.trans (h.sets t q hq).2
    · rcases hq with hq | hq | hq
      · exact Or.inl (Nat.le_trans (Nat.le_succ _) hq)
      · cases hq
        exact Or.inl (Nat.le_refl _)
      · exact Or.inr (Or.inr hq)
    · rintro q ⟨⟩
      exact Nat.lt_succ_self _
  | delete =>
    cases hphase : s.phase with
    | away | created | published =>
      simp only [WereDebug.step, hphase] at hstep
      cases hstep
    | retired p =>
      simp only [WereDebug.step, hphase] at hstep
      obtain ⟨hidle, heq⟩ := Option.ite_none_right_eq_some.mp hstep
      cases heq
      have hmem : ∀ {u}, (main, u) ∉ s.slot.pending :=
        fun hmem => Locked.turn_of_mem_pending hmem (idle_iff.mp hidle)
      have hslot : s.slot.value.slot = none := by
        refine Option.eq_none_iff_forall_ne_some.mpr fun q hq => ?_
        rcases h.slot q hq with hq | ⟨-, hq⟩
        · cases hphase.symm.trans hq
        · exact hmem hq
      refine ⟨h.ordered, fun q hq => ?_, fun t q hq => ?_, fun q hq => h.unset q ?_, ?_, h.tally⟩
      · cases hslot.symm.trans hq
      · cases hphase.symm.trans (h.sets t q hq).2
      · rcases hq with hq | hq | hq
        · exact Or.inl hq
        · cases hq
        · exact Or.inr (Or.inr hq)
      · rintro q ⟨⟩

/-- A `were_debug` that a thread is inside is the one that the slot has. -/
theorem Attended.slot_of_inside (h : s.Attended main) {t : Thread} {p : Nat}
    (hinside : s.inside t = some p) : s.slot.value.slot = some p ∧ s.slot.holder = some t := by
  rw [inside] at hinside
  split at hinside
  · next copy hturn =>
    exact ⟨h.ordered.copy t _ copy hturn ▸ hinside, h.ordered.holder_eq (by rw [hturn]; rintro ⟨⟩)⟩
  · next copy hturn =>
    exact ⟨h.ordered.copy t _ copy hturn ▸ hinside, h.ordered.holder_eq (by rw [hturn]; rintro ⟨⟩)⟩
  · cases hinside

/-- **Attended**: however the threads that make and delete objects go on beside `main`, one of them
at a time is inside a `were_debug`, and that one has not been deleted; the updates take effect
in the order of the lock, none is lost, and the `object_count_` of the one that is in
the slot is that of the objects added less those removed since it was set. -/
theorem debug_attended {as : List (Label Thread)} (h : (machine main).Reaches as s) :
    (∀ t p, s.inside t = some p → s.phase.live = some p) ∧
      (∀ t t' p p', s.inside t = some p → s.inside t' = some p' → t = t') ∧
      s.slot.value = s.slot.log.foldl (fun v c => c.2.apply v) ⟨none, fun _ => 0⟩ ∧
      ∀ p, s.slot.value.slot = some p →
        s.slot.value.count p = s.slot.log.foldl (fun n c => c.2.tally n) 0 := by
  have hattended : s.Attended main := by
    refine Machine.invariant (M := machine main) ?_ (fun s a t hs hstep => hs.step hstep) h
    rintro s rfl
    exact ⟨Locked.ordered_fresh, by rintro _ ⟨⟩, by rintro _ _ ⟨⟩, fun _ _ => rfl,
      by rintro _ ⟨⟩, by rintro _ ⟨⟩⟩
  refine ⟨fun t p hinside => ?_, fun t t' p p' hinside hinside' => ?_, hattended.ordered.value,
    hattended.tally⟩
  · rcases hattended.slot p (hattended.slot_of_inside hinside).1 with hphase | ⟨hphase, -⟩ <;>
      rw [hphase] <;> rfl
  · have hholder := (hattended.slot_of_inside hinside).2
    exact Option.some.inj (hholder.symm.trans (hattended.slot_of_inside hinside').2)

/-- `main` sets a `were_debug`, an object is made on either thread, and `main` would clear it while
the other thread has the lock. -/
def twoObjects : List (Label Bool) :=
  [.new, .act (.lock true (.set 0)), .act (.copy true), .act (.publish true), .act (.unlock true),
    .act (.lock true .add), .act (.copy true), .act (.publish true), .act (.unlock true),
    .act (.lock false .add), .act (.copy false), .act (.publish false), .act (.unlock false),
    .act (.lock false .remove), .act (.copy false)]

theorem debug_attended_twoObjects : ∃ s, (machine true).Reaches twoObjects s ∧
    s.inside false = some 0 ∧ s.slot.value.count 0 = 2 ∧ s.phase.live = some 0 ∧
    (s.step true (.act (.lock true .clear))).isNone := by
  have hrun : (twoObjects.foldlM (step true) ⟨.fresh ⟨none, fun _ => 0⟩, 0, .away⟩).map (fun s =>
      (s.inside false, s.slot.value.count 0, (s.step true (.act (.lock true .clear))).isNone)) =
      some (some 0, 2, true) := by
    decide +kernel
  obtain ⟨s, hs, hstate⟩ := Option.map_eq_some_iff.mp hrun
  obtain ⟨hinside, hstate⟩ := Prod.mk.inj hstate
  obtain ⟨hcount, hwaits⟩ := Prod.mk.inj hstate
  have hreaches : (machine true).Reaches twoObjects s := ⟨_, rfl, Machine.Path.of_run hs⟩
  exact ⟨s, hreaches, hinside, hcount, (debug_attended hreaches).1 false 0 hinside, hwaits⟩

end WereDebug

end SparkleWayland

import SparkleWayland.Were.Thread

/-!
# Timers (`were/were_timer.cpp`)

A `were_timer` reads its timerfd in a slot, and the descriptor is a blocking one: the
read must find an expiration. That there is one is known when `epoll_wait` returns the
descriptor; by the time its turn in the batch comes, other slots have run, and each of
them may have stopped or restarted the timer, which discards what has expired.
`reads_pending_iff` says that nothing else takes an expiration away.
-/

namespace SparkleWayland

/-! ## One timer -/

/-- `struct itimerspec` -/
structure ITimerSpec where
  valueSec : Int
  valueNsec : Int
  intervalSec : Int
  intervalNsec : Int
  deriving DecidableEq

/-- The kernel takes no negative times and no second made of nanoseconds. -/
def ITimerSpec.Valid (spec : ITimerSpec) : Prop :=
  0 ≤ spec.valueSec ∧ 0 ≤ spec.valueNsec ∧ spec.valueNsec < 1000000000 ∧
    0 ≤ spec.intervalSec ∧ 0 ≤ spec.intervalNsec ∧ spec.intervalNsec < 1000000000

instance (spec : ITimerSpec) : Decidable spec.Valid := inferInstanceAs (Decidable (_ ∧ _))

/-- A `were_timer` and its timerfd. -/
structure Timer where
  interval : Int
  singleShot : Bool
  armed : Bool
  /-- `it_interval` is not zero: the timer goes on after it has expired. -/
  periodic : Bool
  expirations : Nat
  /-- It has expired since `epoll_wait` last returned it (`EPOLLET`). -/
  edge : Bool
  deriving DecidableEq

namespace Timer

/-- `timerfd_settime` -/
def settime (timer : Timer) (spec : ITimerSpec) : Option Timer :=
  if spec.Valid then
    some { timer with
      armed := ¬ (spec.valueSec = 0 ∧ spec.valueNsec = 0)
      periodic := ¬ (spec.intervalSec = 0 ∧ spec.intervalNsec = 0)
      expirations := 0 }
  else none

/-- `were_timer::start` -/
def start (timer : Timer) : Option Timer :=
  let sec := timer.interval.tdiv 1000
  let nsec := timer.interval.tmod 1000 * 1000000
  timer.settime
    (if timer.singleShot then ⟨sec, nsec, 0, 0⟩ else ⟨sec, nsec, sec, nsec⟩)

/-- `were_timer::stop` -/
def stop (timer : Timer) : Option Timer := timer.settime ⟨0, 0, 0, 0⟩

/-- The time set has come. -/
def expire (timer : Timer) : Option Timer :=
  if timer.armed then
    some { timer with
      expirations := timer.expirations + 1
      armed := timer.periodic
      edge := true }
  else none

/-- `epoll_wait` can return the descriptor. -/
def Ready (timer : Timer) : Prop := timer.edge = true ∧ 0 < timer.expirations

instance (timer : Timer) : Decidable timer.Ready := inferInstanceAs (Decidable (_ ∧ _))

/-- Setting a timer discards its expirations. -/
theorem settime_expirations {timer timer' : Timer} {spec : ITimerSpec}
    (h : timer.settime spec = some timer') : timer'.expirations = 0 := by
  obtain ⟨-, h⟩ := Option.ite_none_right_eq_some.mp h
  cases h
  rfl

theorem expire_expirations {timer timer' : Timer} (h : timer.expire = some timer') :
    0 < timer'.expirations := by
  obtain ⟨-, h⟩ := Option.ite_none_right_eq_some.mp h
  cases h
  exact Nat.succ_pos _

end Timer

/-! ## The event loop -/

/-- One event of a batch: a timer, or any other descriptor. -/
inductive LoopEvent (ι : Type) where
  | timer (i : ι)
  | other
  deriving DecidableEq

/-- The timer that the event is for. -/
def LoopEvent.timer? {ι : Type} : LoopEvent ι → Option ι
  | .timer i => some i
  | .other => none

/-- A read of a timerfd, and what had expired by then. -/
structure TimerRead (ι : Type) where
  timer : ι
  expirations : Nat
  deriving DecidableEq

/-- A thread with timers `ι`. `batch` holds the events that `epoll_wait` has returned and
that have not had their turn; `blocked` is the timer whose read waits for an expiration. -/
structure EventLoop (ι : Type) where
  timers : ι → Timer
  batch : List (LoopEvent ι)
  blocked : Option ι
  reads : List (TimerRead ι)

namespace EventLoop

variable {ι : Type}

/-- What can happen: a timer expires, `epoll_wait` returns a batch, the next event of the
batch has its turn, code (a slot of this or of any earlier event, or code outside the loop)
starts or stops a timer, a read that waited comes to its end. -/
inductive Label (ι : Type) where
  | expire (i : ι)
  | epollWait (batch : List (LoopEvent ι))
  | dispatch (e : LoopEvent ι)
  | start (i : ι)
  | stop (i : ι)
  | resume
  deriving DecidableEq

/-- The label starts or stops the timer `i`. -/
def Label.Sets (a : Label ι) (i : ι) : Prop := a = .start i ∨ a = .stop i

/-- The label is an `epoll_wait`. -/
def Label.Waits (a : Label ι) : Prop := ∃ batch, a = .epollWait batch

variable [DecidableEq ι]

def setTimer (s : EventLoop ι) (i : ι) (timer : Timer) : EventLoop ι :=
  { s with timers := Function.update s.timers i timer }

@[simp] theorem setTimer_self (s : EventLoop ι) (i : ι) (timer : Timer) :
    (s.setTimer i timer).timers i = timer := Function.update_self _ _ _

theorem setTimer_other {s : EventLoop ι} {i j : ι} {timer : Timer} (h : j ≠ i) :
    (s.setTimer i timer).timers j = s.timers j := Function.update_of_ne h _ _

/-- The `data_in` slot of a timer: the blocking read. The signal `timeout` that follows
runs code, whose steps are labels of their own. -/
def read (s : EventLoop ι) (i : ι) : EventLoop ι :=
  let expirations := (s.timers i).expirations
  { (s.setTimer i { s.timers i with expirations := 0 }) with
    blocked := if expirations = 0 then some i else none
    reads := s.reads ++ [⟨i, expirations⟩] }

/-- What one `epoll_wait` can return: each timer at most once, and only if it is ready. -/
structure CanReturn (s : EventLoop ι) (batch : List (LoopEvent ι)) : Prop where
  size : batch.length ≤ maxEvents
  distinct : (batch.filterMap LoopEvent.timer?).Nodup
  ready : ∀ i ∈ batch.filterMap LoopEvent.timer?, (s.timers i).Ready

instance (s : EventLoop ι) (batch : List (LoopEvent ι)) : Decidable (s.CanReturn batch) :=
  decidable_of_iff (batch.length ≤ maxEvents ∧ (batch.filterMap LoopEvent.timer?).Nodup ∧
      ∀ i ∈ batch.filterMap LoopEvent.timer?, (s.timers i).Ready)
    ⟨fun ⟨h1, h2, h3⟩ => ⟨h1, h2, h3⟩, fun ⟨h1, h2, h3⟩ => ⟨h1, h2, h3⟩⟩

/-- The steps. The code of the thread makes none while a read waits. -/
def step (s : EventLoop ι) : Label ι → Option (EventLoop ι)
  | .expire i => (s.timers i).expire.map (s.setTimer i)
  | .epollWait batch =>
    if s.blocked = none ∧ s.batch = [] ∧ s.CanReturn batch then
      some { s with
        batch := batch
        timers := fun i =>
          if i ∈ batch.filterMap LoopEvent.timer? then { s.timers i with edge := false }
          else s.timers i }
    else none
  | .dispatch e =>
    match s.batch with
    | [] => none
    | e' :: rest =>
      if s.blocked = none ∧ e = e' then
        match e with
        | .timer i => some ({ s with batch := rest }.read i)
        | .other => some { s with batch := rest }
      else none
  | .start i => if s.blocked = none then (s.timers i).start.map (s.setTimer i) else none
  | .stop i => if s.blocked = none then (s.timers i).stop.map (s.setTimer i) else none
  | .resume =>
    match s.blocked with
    | none => none
    | some i =>
      if 0 < (s.timers i).expirations then
        some { s.setTimer i { s.timers i with expirations := 0 } with blocked := none }
      else none

/-- The timers as `were_new<were_timer>` leaves them. -/
def machine (ι : Type) [DecidableEq ι] : Machine (EventLoop ι) (Label ι) :=
  Machine.ofStep
    (fun s => s.batch = [] ∧ s.blocked = none ∧ s.reads = [] ∧
      ∀ i, (s.timers i).armed = false ∧ (s.timers i).expirations = 0 ∧ (s.timers i).edge = false)
    step

/-! ## What takes an expiration away -/

/-- In the run so far, the timer `i` was started or stopped after the last `epoll_wait`, and
has not expired since. -/
def TakenBack (as : List (Label ι)) (i : ι) : Prop :=
  ∃ before a after, as = before ++ a :: after ∧ a.Sets i ∧
    ∀ b ∈ after, b ≠ .expire i ∧ ¬ b.Waits

/-- No timer has its turn in a batch with its expirations taken back. -/
def NoneTakenBack (as : List (Label ι)) : Prop :=
  ∀ before i after, as = before ++ .dispatch (.timer i) :: after → ¬ TakenBack before i

omit [DecidableEq ι] in
theorem takenBack_snoc {as : List (Label ι)} {a : Label ι} {i : ι} :
    TakenBack (as ++ [a]) i ↔
      a.Sets i ∨ TakenBack as i ∧ a ≠ .expire i ∧ ¬ a.Waits := by
  constructor
  · rintro ⟨before, x, after, heq, hsets, hafter⟩
    rcases Machine.snoc_eq_cut_iff.mp heq with ⟨-, -, rfl⟩ | ⟨after', rfl, rfl⟩
    · exact Or.inl hsets
    · have hlast := hafter a (by simp)
      exact Or.inr ⟨⟨before, x, after', rfl, hsets, fun b hb => hafter b (by simp [hb])⟩, hlast⟩
  · rintro (hsets | ⟨⟨before, x, after, rfl, hsets, hafter⟩, hlast⟩)
    · exact ⟨as, a, [], rfl, hsets, fun _ hb => absurd hb List.not_mem_nil⟩
    · refine ⟨before, x, after ++ [a], by simp, hsets, fun b hb => ?_⟩
      rcases List.mem_append.mp hb with hb | hb
      · exact hafter b hb
      · exact List.mem_singleton.mp hb ▸ hlast

omit [DecidableEq ι] in
theorem noneTakenBack_snoc {as : List (Label ι)} {a : Label ι} :
    NoneTakenBack (as ++ [a]) ↔
      NoneTakenBack as ∧ ∀ i, a = .dispatch (.timer i) → ¬ TakenBack as i := by
  constructor
  · intro h
    refine ⟨fun before i after heq => h before i (after ++ [a]) (by simp [heq]), ?_⟩
    rintro i rfl
    exact h as i [] rfl
  · rintro ⟨h, hlast⟩ before i after heq
    rcases Machine.snoc_eq_cut_iff.mp heq with ⟨-, rfl, rfl⟩ | ⟨after', -, rfl⟩
    · exact hlast i rfl
    · exact h before i after' rfl

omit [DecidableEq ι] in
/-- A label that is not about the timer leaves it as it was. -/
theorem takenBack_snoc_of_ne {as : List (Label ι)} {a : Label ι} {i : ι} (hsets : ¬ a.Sets i)
    (hexpire : a ≠ .expire i) (hwaits : ¬ a.Waits) : TakenBack (as ++ [a]) i ↔ TakenBack as i := by
  rw [takenBack_snoc]
  exact ⟨fun h => (h.resolve_left hsets).1, fun h => Or.inr ⟨h, hexpire, hwaits⟩⟩

/-- What a run leaves: of the timers still to come in the batch, those without an expiration
are those whose expirations were taken back. -/
structure Tracks (as : List (Label ι)) (s : EventLoop ι) : Prop where
  distinct : (s.batch.filterMap LoopEvent.timer?).Nodup
  pending : ∀ i ∈ s.batch.filterMap LoopEvent.timer?,
    ((s.timers i).expirations = 0 ↔ TakenBack as i)
  blocked : ∀ i, s.blocked = some i →
    ⟨i, 0⟩ ∈ s.reads ∧ i ∉ s.batch.filterMap LoopEvent.timer?
  reads : (∀ r ∈ s.reads, 0 < r.expirations) ↔ NoneTakenBack as

/-- A label that changes one timer and is no turn of one. -/
theorem Tracks.setTimer {as : List (Label ι)} {s : EventLoop ι} {a : Label ι} {i : ι}
    {timer : Timer} (h : Tracks as s) (hturn : ∀ j, a ≠ .dispatch (.timer j))
    (hself : timer.expirations = 0 ↔ TakenBack (as ++ [a]) i)
    (hothers : ∀ j, j ≠ i → (TakenBack (as ++ [a]) j ↔ TakenBack as j)) :
    Tracks (as ++ [a]) (s.setTimer i timer) where
  distinct := h.distinct
  pending := fun j hj => by
    rcases eq_or_ne j i with rfl | hne
    · rw [setTimer_self]
      exact hself
    · rw [setTimer_other hne, hothers j hne]
      exact h.pending j hj
  blocked := h.blocked
  reads := by
    rw [noneTakenBack_snoc]
    exact h.reads.trans ⟨fun hnone => ⟨hnone, fun j hj => absurd hj (hturn j)⟩, And.left⟩

/-- Starting or stopping a timer takes its expirations back. -/
theorem Tracks.set {as : List (Label ι)} {s : EventLoop ι} {a : Label ι} {i : ι} {timer : Timer}
    (h : Tracks as s) (ha : a.Sets i) (htimer : timer.expirations = 0) :
    Tracks (as ++ [a]) (s.setTimer i timer) := by
  refine h.setTimer ?_ ⟨fun _ => takenBack_snoc.mpr (Or.inl ha), fun _ => htimer⟩ fun j hne => ?_
  · rintro j rfl
    rcases ha with ha | ha <;> cases ha
  · rcases ha with rfl | rfl
    · exact takenBack_snoc_of_ne (by simp [Label.Sets, hne.symm]) nofun (by simp [Label.Waits])
    · exact takenBack_snoc_of_ne (by simp [Label.Sets, hne.symm]) nofun (by simp [Label.Waits])

/-- The turn of a timer: the batch shrinks, and the read finds what is pending. -/
theorem Tracks.read {as : List (Label ι)} {s : EventLoop ι} {i : ι} {rest : List (LoopEvent ι)}
    (h : Tracks as s) (hbatch : s.batch = .timer i :: rest) :
    Tracks (as ++ [.dispatch (.timer i)]) ({ s with batch := rest }.read i) := by
  have hcons : s.batch.filterMap LoopEvent.timer? = i :: rest.filterMap LoopEvent.timer? := by
    rw [hbatch]
    rfl
  have hdistinct := h.distinct
  have hpending := h.pending
  rw [hcons] at hdistinct hpending
  obtain ⟨hnotin, hrest⟩ := List.nodup_cons.mp hdistinct
  have hturn := hpending i List.mem_cons_self
  refine ⟨hrest, fun j hj => ?_, fun j hj => ?_, ?_⟩
  · have hne : j ≠ i := fun hji => hnotin (hji ▸ hj)
    have hsame : TakenBack (as ++ [.dispatch (.timer i)]) j ↔ TakenBack as j :=
      takenBack_snoc_of_ne (by simp [Label.Sets]) nofun (by simp [Label.Waits])
    rw [hsame, ← hpending j (List.mem_cons_of_mem _ hj)]
    show ((EventLoop.setTimer { s with batch := rest } i _).timers j).expirations = 0 ↔ _
    rw [setTimer_other hne]
  · have hblocked : (if (s.timers i).expirations = 0 then some i else none) = some j := hj
    obtain ⟨hzero, hij⟩ := Option.ite_none_right_eq_some.mp hblocked
    cases hij
    refine ⟨?_, hnotin⟩
    show (⟨i, 0⟩ : TimerRead ι) ∈ s.reads ++ [⟨i, (s.timers i).expirations⟩]
    simp [hzero]
  · show (∀ r ∈ s.reads ++ [⟨i, (s.timers i).expirations⟩], 0 < r.expirations) ↔ _
    rw [noneTakenBack_snoc, List.forall_mem_append, h.reads]
    refine and_congr_right fun _ => ?_
    constructor
    · intro hpos j hj
      cases hj
      exact fun htaken => Nat.ne_of_gt (hpos _ (List.mem_singleton.mpr rfl)) (hturn.mpr htaken)
    · intro hnot r hr
      rw [List.mem_singleton.mp hr]
      exact Nat.pos_of_ne_zero fun hzero => hnot i rfl (hturn.mp hzero)

omit [DecidableEq ι] in
/-- A label that concerns no timer of the batch. -/
theorem Tracks.quiet {as : List (Label ι)} {s s' : EventLoop ι} {a : Label ι} (h : Tracks as s)
    (hlabel : ∀ i, ¬ a.Sets i ∧ a ≠ .expire i ∧ a ≠ .dispatch (.timer i)) (hwaits : ¬ a.Waits)
    (hbatch : s'.batch.filterMap LoopEvent.timer? = s.batch.filterMap LoopEvent.timer?)
    (htimers : ∀ i ∈ s.batch.filterMap LoopEvent.timer?, s'.timers i = s.timers i)
    (hblocked : ∀ i, s'.blocked = some i → s.blocked = some i) (hreads : s'.reads = s.reads) :
    Tracks (as ++ [a]) s' where
  distinct := hbatch ▸ h.distinct
  pending := fun i hi => by
    rw [hbatch] at hi
    rw [htimers i hi, takenBack_snoc_of_ne (hlabel i).1 (hlabel i).2.1 hwaits]
    exact h.pending i hi
  blocked := fun i hi => by
    rw [hreads, hbatch]
    exact h.blocked i (hblocked i hi)
  reads := by
    rw [hreads, noneTakenBack_snoc]
    exact h.reads.trans
      ⟨fun hnone => ⟨hnone, fun i hi => absurd hi (hlabel i).2.2⟩, And.left⟩

theorem Tracks.step {as : List (Label ι)} {s s' : EventLoop ι} {a : Label ι} (h : Tracks as s)
    (hstep : s.step a = some s') : Tracks (as ++ [a]) s' := by
  cases a with
  | expire i =>
    obtain ⟨timer, htimer, rfl⟩ := Option.map_eq_some_iff.mp hstep
    -- there is something to read again, whatever was taken back
    have hpos := Timer.expire_expirations htimer
    refine h.setTimer nofun ⟨fun hzero => absurd hzero (Nat.ne_of_gt hpos), fun htaken => ?_⟩
      fun j hne => takenBack_snoc_of_ne (by simp [Label.Sets]) (by simp [hne.symm])
        (by simp [Label.Waits])
    rcases takenBack_snoc.mp htaken with (hs | hs) | ⟨-, hno, -⟩
    · cases hs
    · cases hs
    · exact absurd rfl hno
  | epollWait batch =>
    obtain ⟨⟨hblocked, -, hreturn⟩, hs⟩ := Option.ite_none_right_eq_some.mp hstep
    cases hs
    refine ⟨hreturn.distinct, fun i hi => ?_, fun i hi => ?_, ?_⟩
    · -- what is returned is ready, and no label comes after this one yet
      have hready := hreturn.ready i hi
      refine ⟨fun hzero => ?_, fun htaken => ?_⟩
      · dsimp only at hzero
        rw [if_pos hi] at hzero
        exact absurd hzero (Nat.ne_of_gt hready.2)
      · rcases takenBack_snoc.mp htaken with (hs | hs) | ⟨-, -, hno⟩
        · cases hs
        · cases hs
        · exact absurd ⟨batch, rfl⟩ hno
    · rw [hblocked] at hi
      cases hi
    · rw [noneTakenBack_snoc]
      exact h.reads.trans ⟨fun hnone => ⟨hnone, nofun⟩, And.left⟩
  | dispatch e =>
    rw [EventLoop.step] at hstep
    split at hstep
    case h_1 => cases hstep
    case h_2 e' rest hbatch =>
      obtain ⟨⟨hblocked, rfl⟩, hs⟩ := Option.ite_none_right_eq_some.mp hstep
      cases e with
      | timer i =>
        cases hs
        exact h.read hbatch
      | other =>
        cases hs
        refine h.quiet (fun i => ⟨by simp [Label.Sets], nofun, nofun⟩) (by simp [Label.Waits])
          ?_ (fun _ _ => rfl) (fun _ hi => hi) rfl
        rw [hbatch]
        rfl
  | start i =>
    obtain ⟨-, hs⟩ := Option.ite_none_right_eq_some.mp hstep
    obtain ⟨timer, htimer, rfl⟩ := Option.map_eq_some_iff.mp hs
    exact h.set (Or.inl rfl) (Timer.settime_expirations htimer)
  | stop i =>
    obtain ⟨-, hs⟩ := Option.ite_none_right_eq_some.mp hstep
    obtain ⟨timer, htimer, rfl⟩ := Option.map_eq_some_iff.mp hs
    exact h.set (Or.inr rfl) (Timer.settime_expirations htimer)
  | resume =>
    rw [EventLoop.step] at hstep
    split at hstep
    case h_1 => cases hstep
    case h_2 i hblocked =>
      obtain ⟨-, hs⟩ := Option.ite_none_right_eq_some.mp hstep
      cases hs
      -- the timer waited for has had its turn
      have hnotin := (h.blocked i hblocked).2
      exact h.quiet (fun j => ⟨by simp [Label.Sets], nofun, nofun⟩) (by simp [Label.Waits]) rfl
        (fun j hj => setTimer_other fun hji => hnotin (hji ▸ hj)) nofun rfl

theorem Reaches.tracks {as : List (Label ι)} {s : EventLoop ι} (h : (machine ι).Reaches as s) :
    Tracks as s := by
  obtain ⟨s₀, ⟨hbatch, hblocked, hreads, -⟩, hpath⟩ := h
  induction hpath with
  | nil =>
    refine ⟨by simp [hbatch], by simp [hbatch], by simp [hblocked], ?_⟩
    simp [hreads, NoneTakenBack]
  | snoc _ hstep ih => exact ih.step hstep

/-- In every run, the reads of the timers find something pending, and none of them blocks,
exactly if no timer has its turn with its expirations taken back. -/
theorem reads_pending_iff {as : List (Label ι)} {s : EventLoop ι}
    (h : (machine ι).Reaches as s) :
    ((∀ r ∈ s.reads, 0 < r.expirations) ∧ s.blocked = none) ↔ NoneTakenBack as := by
  have htracks := Reaches.tracks h
  refine ⟨fun hread => htracks.reads.mp hread.1, fun hnone => ?_⟩
  have hreads := htracks.reads.mpr hnone
  refine ⟨hreads, ?_⟩
  cases hblocked : s.blocked with
  | none => rfl
  | some i => exact absurd (hreads _ (htracks.blocked i hblocked).1) (Nat.lt_irrefl 0)

/-- The thread waits for a timer that will not expire. -/
structure Stuck (s : EventLoop ι) (i : ι) : Prop where
  blocked : s.blocked = some i
  armed : (s.timers i).armed = false
  expirations : (s.timers i).expirations = 0

theorem Stuck.step {i : ι} {s s' : EventLoop ι} {a : Label ι} (h : s.Stuck i)
    (hstep : s.step a = some s') : s'.Stuck i := by
  have hbusy : s.blocked ≠ none := by simp [h.blocked]
  cases a with
  | expire j =>
    obtain ⟨timer, htimer, rfl⟩ := Option.map_eq_some_iff.mp hstep
    have hne : i ≠ j := by
      rintro rfl
      rw [Timer.expire, h.armed] at htimer
      cases htimer
    have hsame : (s.setTimer j timer).timers i = s.timers i := setTimer_other hne
    exact ⟨h.blocked, hsame ▸ h.armed, hsame ▸ h.expirations⟩
  | epollWait batch => exact absurd (Option.ite_none_right_eq_some.mp hstep).1.1 hbusy
  | dispatch e =>
    rw [EventLoop.step] at hstep
    split at hstep
    case h_1 => cases hstep
    case h_2 => exact absurd (Option.ite_none_right_eq_some.mp hstep).1.1 hbusy
  | start j => exact absurd (Option.ite_none_right_eq_some.mp hstep).1 hbusy
  | stop j => exact absurd (Option.ite_none_right_eq_some.mp hstep).1 hbusy
  | resume =>
    simp [EventLoop.step, h.blocked, h.expirations] at hstep

/-- A thread that waits for a stopped timer waits for ever. -/
theorem Stuck.path {i : ι} {s t : EventLoop ι} {as : List (Label ι)} (h : s.Stuck i)
    (hpath : (machine ι).Path s as t) : t.blocked = some i :=
  (hpath.preserves (I := fun u : EventLoop ι => u.Stuck i)
    (fun _ _ _ hu hstep => hu.step hstep) h).blocked

/-! ## A player that is stopped -/

/-- One timer, as `sparkle_player` makes it. -/
def checkTimer : EventLoop Unit where
  timers _ := ⟨1000, false, false, false, 0, false⟩
  batch := []
  blocked := none
  reads := []

theorem checkTimer_reaches {as : List (Label Unit)} {s : EventLoop Unit}
    (h : as.foldlM step checkTimer = some s) : (machine Unit).Reaches as s :=
  ⟨checkTimer, ⟨rfl, rfl, rfl, fun _ => ⟨rfl, rfl, rfl⟩⟩, Machine.Path.of_run h⟩

/-- The timer of a playing player expires, and one batch brings it and a message of the
client. The slot of the timer comes first; then the message stops the player. -/
def stoppedAfter : List (Label Unit) :=
  [.start (), .expire (), .epollWait [.timer (), .other], .dispatch (.timer ()),
    .dispatch .other, .stop ()]

theorem stoppedAfter_pending : ∃ s, (machine Unit).Reaches stoppedAfter s ∧
    (((∀ r ∈ s.reads, 0 < r.expirations) ∧ s.blocked = none) ↔ NoneTakenBack stoppedAfter) := by
  have hrun : (stoppedAfter.foldlM step checkTimer).isSome = true := by decide +kernel
  obtain ⟨s, hs⟩ := Option.isSome_iff_exists.mp hrun
  exact ⟨s, checkTimer_reaches hs, reads_pending_iff (checkTimer_reaches hs)⟩

/-- The same events with the message first in the batch. -/
def stoppedBefore : List (Label Unit) :=
  [.start (), .expire (), .epollWait [.other, .timer ()], .dispatch .other, .stop (),
    .dispatch (.timer ())]

/-- The read finds nothing, and no step of the thread is left. -/
theorem stoppedBefore_blocks :
    ¬ ∀ (as : List (Label Unit)) (s : EventLoop Unit), (machine Unit).Reaches as s →
      (∀ r ∈ s.reads, 0 < r.expirations) ∧ s.blocked = none := by
  intro h
  have hrun : (stoppedBefore.foldlM step checkTimer).map EventLoop.blocked = some (some ()) := by
    decide +kernel
  obtain ⟨s, hs, hblocked⟩ := Option.map_eq_some_iff.mp hrun
  rw [(h _ s (checkTimer_reaches hs)).2] at hblocked
  cases hblocked

end EventLoop

end SparkleWayland

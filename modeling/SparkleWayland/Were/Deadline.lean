import Mathlib.Algebra.Order.Ring.Int
import SparkleWayland.Lib.FixedWidth
import SparkleWayland.Lib.Machine

/-!
# Running for a time (`were_thread::run_for`, `were/were_deadline_timer.cpp`)

`run_for` calls `process_events` until a deadline, with the time that remains as the timeout.
Between the clock and the timeout the time is a `timespec`, an `uint64_t` and an `int`.
`runFor_kept` says that it is neither over too early nor asked to wait for too long;
`runFor_negative` is about a time that is negative.
-/

namespace SparkleWayland

/-! ## Timers -/

/-- `struct timespec` -/
structure Timespec where
  sec : Int
  nsec : Int
  deriving DecidableEq, Repr

def Timespec.nanoseconds (ts : Timespec) : Int := 1000000000 * ts.sec + ts.nsec

/-- `were_elapsed_timer` -/
structure ElapsedTimer where
  ts : Timespec

namespace ElapsedTimer

/-- `elapsed_ns`, where `now` is what the clock says. -/
def elapsedNs (timer : ElapsedTimer) (now : Timespec) (reset : Bool) : UInt64 × ElapsedTimer :=
  let elapsed : UInt64 := 1000000000 * UInt64.ofInt (now.sec - timer.ts.sec)
  let elapsed := elapsed + UInt64.ofInt (now.nsec - timer.ts.nsec)
  (elapsed, if reset then ⟨now⟩ else timer)

def elapsedMs (timer : ElapsedTimer) (now : Timespec) (reset : Bool) : UInt64 × ElapsedTimer :=
  ((timer.elapsedNs now reset).1 / 1000000, (timer.elapsedNs now reset).2)

/-- That the nanoseconds can go back does no harm. -/
theorem elapsedNs_fst (timer : ElapsedTimer) (now : Timespec) (reset : Bool) :
    (timer.elapsedNs now reset).1 = UInt64.ofInt (now.nanoseconds - timer.ts.nanoseconds) := by
  have hsplit : now.nanoseconds - timer.ts.nanoseconds =
      1000000000 * (now.sec - timer.ts.sec) + (now.nsec - timer.ts.nsec) := by
    rw [Timespec.nanoseconds, Timespec.nanoseconds]
    omega
  rw [hsplit, UInt64.ofInt_add, UInt64.ofInt_mul]
  rfl

theorem elapsedMs_fst {timer : ElapsedTimer} {now : Timespec} (reset : Bool)
    (hl : timer.ts.nanoseconds ≤ now.nanoseconds)
    (hu : now.nanoseconds - timer.ts.nanoseconds < 2 ^ 64) :
    ((timer.elapsedMs now reset).1.toNat : Int) =
      (now.nanoseconds - timer.ts.nanoseconds) / 1000000 := by
  rw [elapsedMs, elapsedNs_fst, UInt64.toNat_div, Int.natCast_ediv,
    UInt64.toNat_ofInt_of_range (by omega) (by omega)]
  rfl

end ElapsedTimer

/-- `were_deadline_timer` -/
structure DeadlineTimer where
  ms : UInt64
  elapsed : ElapsedTimer

namespace DeadlineTimer

/-- The timer is made at the time `now`. -/
def make (ms : UInt64) (now : Timespec) : DeadlineTimer := ⟨ms, ⟨now⟩⟩

def remainingTime (timer : DeadlineTimer) (now : Timespec) : UInt64 :=
  let elapsed := (timer.elapsed.elapsedMs now false).1
  if timer.ms ≤ elapsed then 0 else timer.ms - elapsed

/-- What is left of a time, as an `int`. -/
theorem asInt_remainingTime {timer : DeadlineTimer} {ms : Int32} {now : Timespec}
    (hms : timer.ms = Int32.asUInt64 ms) (hnonneg : 0 ≤ ms.toInt)
    (hl : timer.elapsed.ts.nanoseconds ≤ now.nanoseconds)
    (hu : now.nanoseconds - timer.elapsed.ts.nanoseconds < 2 ^ 64) :
    (UInt64.asInt (timer.remainingTime now)).toInt =
      max 0 (ms.toInt - (now.nanoseconds - timer.elapsed.ts.nanoseconds) / 1000000) := by
  have helapsed := ElapsedTimer.elapsedMs_fst false hl hu
  have hvalue := Int32.toNat_asUInt64 hnonneg
  have hlt := ms.toInt_lt
  rw [remainingTime, hms]
  split_ifs with hover
  · rw [UInt64.le_iff_toNat_le, hvalue] at hover
    have hzero : (UInt64.asInt 0).toInt = 0 := rfl
    rw [hzero, max_eq_left (by omega)]
  · have hsub := UInt64.toNat_sub_of_le _ _ (UInt64.le_of_lt (UInt64.not_le.mp hover))
    rw [UInt64.le_iff_toNat_le, hvalue] at hover
    rw [hvalue] at hsub
    rw [UInt64.toInt_asInt (by omega), hsub, max_eq_right (by omega)]
    omega

/-- What is left of a negative time: its absolute value and what has passed, below zero. -/
theorem asInt_remainingTime_of_neg {timer : DeadlineTimer} {ms : Int32} {now : Timespec}
    (hms : timer.ms = Int32.asUInt64 ms) (hneg : ms.toInt < 0)
    (hl : timer.elapsed.ts.nanoseconds ≤ now.nanoseconds)
    (hu : (now.nanoseconds - timer.elapsed.ts.nanoseconds) / 1000000 - ms.toInt ≤ 2 ^ 31) :
    (UInt64.asInt (timer.remainingTime now)).toInt =
      ms.toInt - (now.nanoseconds - timer.elapsed.ts.nanoseconds) / 1000000 := by
  have helapsed := ElapsedTimer.elapsedMs_fst false hl (by omega)
  have hvalue := Int32.toNat_asUInt64_of_neg hneg
  have hle := Int32.le_toInt ms
  have hover : ¬timer.ms ≤ (timer.elapsed.elapsedMs now false).1 := by
    rw [UInt64.le_iff_toNat_le, hms]
    omega
  have hsub : (timer.elapsed.elapsedMs now false).1.toNat ≤ timer.ms.toNat :=
    UInt64.le_iff_toNat_le.mp (UInt64.le_of_lt (UInt64.not_le.mp hover))
  rw [remainingTime, if_neg hover, UInt64.toInt_asInt_eq_bmod,
    UInt64.toNat_sub_of_le _ _ (UInt64.le_iff_toNat_le.mpr hsub), Int.ofNat_sub hsub, hms, hvalue,
    helapsed]
  have hwhole : ms.toInt + 18446744073709551616 - (now.nanoseconds - timer.elapsed.ts.nanoseconds) / 1000000 =
      ms.toInt - (now.nanoseconds - timer.elapsed.ts.nanoseconds) / 1000000 +
        ((2 ^ 32 : Nat) : Int) * 2 ^ 32 := by omega
  rw [hwhole, Int.add_mul_bmod_self_left]
  exact Int.bmod_eq_of_le (by omega) (by omega)

end DeadlineTimer

/-! ## The loop -/

/-- Where `run_for` is. -/
inductive RunForPoint where
  | head
  /-- In `process_events`: since when, and with what timeout. -/
  | polling (since : Timespec) (timeout : Int32)
  | returned
  deriving DecidableEq

/-- A call of `run_for`. For each `process_events` that is over, the list says whether `epoll_wait`
has waited its time out; `idle` has been emitted behind it. -/
structure RunFor where
  deadline : DeadlineTimer
  now : Timespec
  point : RunForPoint
  rounds : List Bool

namespace RunFor

inductive Label where
  /-- Time passes. -/
  | pass (now : Timespec)
  | check
  /-- `epoll_wait` returns for an event, or for a signal. -/
  | event
  | timeOut

def step (s : RunFor) : Label → Option RunFor
  | .pass now => if s.now.nanoseconds ≤ now.nanoseconds then some { s with now := now } else none
  | .check =>
    match s.point with
    | .head =>
      let remaining := UInt64.asInt (s.deadline.remainingTime s.now)
      if remaining = 0 then some { s with point := .returned }
      else some { s with point := .polling s.now remaining }
    | _ => none
  | .event =>
    match s.point with
    | .polling _ _ => some { s with point := .head, rounds := s.rounds ++ [false] }
    | _ => none
  | .timeOut =>
    match s.point with
    | .polling since timeout =>
      -- a negative timeout is none
      if 0 ≤ timeout.toInt ∧
          since.nanoseconds + 1000000 * timeout.toInt ≤ s.now.nanoseconds then
        some { s with point := .head, rounds := s.rounds ++ [true] }
      else none
    | _ => none

/-- `run_for` is called. -/
def call (ms : Int32) (now : Timespec) : RunFor :=
  ⟨.make (Int32.asUInt64 ms) now, now, .head, []⟩

def machine (ms : Int32) : Machine RunFor Label :=
  Machine.ofStep (fun s => ∃ now, s = call ms now) step

/-- The nanoseconds since the call. -/
def passed (s : RunFor) : Int := s.now.nanoseconds - s.deadline.elapsed.ts.nanoseconds

variable {ms : Int32} {s t : RunFor}

/-- All that a step does. -/
theorem step_cases {a : Label} (h : s.step a = some t) :
    (∃ now, a = .pass now ∧ s.now.nanoseconds ≤ now.nanoseconds ∧ t = { s with now := now }) ∨
      (a = .check ∧ s.point = .head ∧
        ((UInt64.asInt (s.deadline.remainingTime s.now) = 0 ∧
            t = { s with point := .returned }) ∨
          (UInt64.asInt (s.deadline.remainingTime s.now) ≠ 0 ∧ t = { s with
            point := .polling s.now (UInt64.asInt (s.deadline.remainingTime s.now)) }))) ∨
      ∃ since timeout timedOut, s.point = .polling since timeout ∧
        (timedOut = true → 0 ≤ timeout.toInt ∧
          since.nanoseconds + 1000000 * timeout.toInt ≤ s.now.nanoseconds) ∧
        t = { s with point := .head, rounds := s.rounds ++ [timedOut] } := by
  cases a with
  | pass now =>
    obtain ⟨hnow, ht⟩ := Option.ite_none_right_eq_some.mp h
    exact Or.inl ⟨now, rfl, hnow, (Option.some.inj ht).symm⟩
  | check =>
    cases hpoint : s.point with
    | head =>
      simp only [step, hpoint] at h
      split at h
      · exact Or.inr (Or.inl ⟨rfl, rfl, Or.inl ⟨‹_›, (Option.some.inj h).symm⟩⟩)
      · exact Or.inr (Or.inl ⟨rfl, rfl, Or.inr ⟨‹_›, (Option.some.inj h).symm⟩⟩)
    | polling | returned =>
      simp only [step, hpoint] at h
      cases h
  | event =>
    cases hpoint : s.point with
    | polling since timeout =>
      simp only [step, hpoint] at h
      refine Or.inr (Or.inr ⟨since, timeout, false, rfl, ?_, (Option.some.inj h).symm⟩)
      rintro ⟨⟩
    | head | returned =>
      simp only [step, hpoint] at h
      cases h
  | timeOut =>
    cases hpoint : s.point with
    | polling since timeout =>
      simp only [step, hpoint] at h
      obtain ⟨hout, ht⟩ := Option.ite_none_right_eq_some.mp h
      exact Or.inr (Or.inr ⟨since, timeout, true, rfl, fun _ => hout, (Option.some.inj ht).symm⟩)
    | head | returned =>
      simp only [step, hpoint] at h
      cases h

/-- What a call of `run_for` keeps to, whatever the time. -/
structure Called (ms : Int32) (s : RunFor) : Prop where
  deadline : s.deadline.ms = Int32.asUInt64 ms
  started : s.deadline.elapsed.ts.nanoseconds ≤ s.now.nanoseconds

theorem called_call (ms : Int32) (now : Timespec) : (call ms now).Called ms := ⟨rfl, le_rfl⟩

/-- Time does not go back, and the deadline stays. -/
theorem Called.step (h : s.Called ms) {a : Label} (hstep : s.step a = some t) :
    t.Called ms ∧ s.passed ≤ t.passed := by
  rcases step_cases hstep with ⟨now, -, hnow, rfl⟩ | ⟨-, -, ⟨-, rfl⟩ | ⟨-, rfl⟩⟩ |
    ⟨_, _, _, -, -, rfl⟩
  · exact ⟨⟨h.deadline, h.started.trans hnow⟩, Int.sub_le_sub_right hnow _⟩
  all_goals exact ⟨⟨h.deadline, h.started⟩, le_rfl⟩

/-! ## A time that is not negative -/

/-- What `run_for` has done with the deadline. -/
structure Kept (ms : Int32) (s : RunFor) : Prop where
  returned : s.point = .returned → 1000000 * ms.toInt ≤ s.passed
  polling : ∀ since timeout, s.point = .polling since timeout → 0 < timeout.toInt ∧
    1000000 * ms.toInt ≤
      since.nanoseconds - s.deadline.elapsed.ts.nanoseconds + 1000000 * timeout.toInt ∧
    since.nanoseconds - s.deadline.elapsed.ts.nanoseconds + 1000000 * timeout.toInt <
      1000000 * ms.toInt + 1000000
  timedOut : true ∈ s.rounds → 1000000 * ms.toInt ≤ s.passed ∧ ∀ since timeout,
    s.point ≠ .polling since timeout
  last : ∀ before after, s.rounds = before ++ true :: after → after = []

/-- The check in the loop. -/
theorem Called.remaining (h : s.Called ms) (hms : 0 ≤ ms.toInt) (hpassed : s.passed < 2 ^ 64) :
    (UInt64.asInt (s.deadline.remainingTime s.now)).toInt =
      max 0 (ms.toInt - s.passed / 1000000) :=
  DeadlineTimer.asInt_remainingTime h.deadline hms h.started hpassed

/-- **Step** -/
theorem Kept.step (hcalled : s.Called ms) (hms : 0 ≤ ms.toInt) (hpassed : s.passed < 2 ^ 64)
    (h : s.Kept ms) {a : Label} (hstep : s.step a = some t) : t.Kept ms := by
  have hremaining := hcalled.remaining hms hpassed
  rcases step_cases hstep with ⟨now, -, hnow, rfl⟩ | ⟨-, hpoint, ⟨hzero, rfl⟩ | ⟨hzero, rfl⟩⟩ |
    ⟨since, timeout, timedOut, hpoint, hout, rfl⟩
  · have hle : s.passed ≤ passed { s with now := now } := Int.sub_le_sub_right hnow _
    exact ⟨fun hp => (h.returned hp).trans hle, h.polling,
      fun htrue => ⟨(h.timedOut htrue).1.trans hle, (h.timedOut htrue).2⟩, h.last⟩
  · -- the deadline has passed
    rw [hzero] at hremaining
    have hover : 1000000 * ms.toInt ≤ s.passed := by
      have hzero : (0 : Int) = max 0 (ms.toInt - s.passed / 1000000) := hremaining
      have hle : ms.toInt - s.passed / 1000000 ≤ 0 := hzero ▸ le_max_right _ _
      omega
    refine ⟨fun _ => hover, ?_, fun _ => ⟨hover, ?_⟩, h.last⟩ <;> rintro _ _ ⟨⟩
  · -- it has not, and `process_events` is called
    have hpos : 0 < ms.toInt - s.passed / 1000000 := by
      refine Int.not_le.mp fun hle => hzero ?_
      rw [max_eq_left hle] at hremaining
      exact Int32.toInt_inj.mp hremaining
    rw [max_eq_right hpos.le] at hremaining
    refine ⟨?_, ?_, fun htrue => ?_, h.last⟩
    · rintro ⟨⟩
    · rintro _ _ ⟨⟩
      have hsince : s.now.nanoseconds - s.deadline.elapsed.ts.nanoseconds = s.passed := rfl
      show 0 < (UInt64.asInt (s.deadline.remainingTime s.now)).toInt ∧ _
      rw [hremaining, hsince]
      omega
    · have hover := (h.timedOut htrue).1
      omega
  · -- `process_events` is over
    obtain ⟨hpositive, hlower, -⟩ := h.polling since timeout hpoint
    have hfalse : true ∉ s.rounds := fun htrue => (h.timedOut htrue).2 since timeout hpoint
    refine ⟨?_, ?_, fun htrue => ⟨?_, ?_⟩, fun before after heq => ?_⟩
    · rintro ⟨⟩
    · rintro _ _ ⟨⟩
    · have htimedOut : timedOut = true :=
        (List.mem_singleton.mp ((List.mem_append.mp htrue).resolve_left hfalse)).symm
      have hwaited := (hout htimedOut).2
      show 1000000 * ms.toInt ≤ s.now.nanoseconds - s.deadline.elapsed.ts.nanoseconds
      omega
    · rintro _ _ ⟨⟩
    · rcases after.eq_nil_or_concat with rfl | ⟨after, b, rfl⟩
      · rfl
      · rw [List.concat_eq_append, ← List.cons_append, ← List.append_assoc] at heq
        obtain ⟨hrounds, -⟩ := List.append_inj' heq rfl
        refine absurd ?_ hfalse
        rw [hrounds]
        exact List.mem_append_right _ List.mem_cons_self

/-- **The deadline**: in every run of `run_for` with a time that is not negative it does not return
before the time is over; when it is over, the next check returns; each `process_events` gets a
timeout that ends at the deadline or less than a millisecond behind it; and when
`epoll_wait` has waited a timeout out, `process_events` is not called again. -/
theorem runFor_kept {as : List Label} (h : (machine ms).Reaches as s) (hms : 0 ≤ ms.toInt)
    (hpassed : s.passed < 2 ^ 64) :
    s.Kept ms ∧ (s.point = .head → 1000000 * ms.toInt ≤ s.passed →
      s.step .check = some { s with point := .returned }) := by
  have hboth : s.Called ms ∧ (s.passed < 2 ^ 64 → s.Kept ms) := by
    refine Machine.invariant (M := machine ms)
      (I := fun s => s.Called ms ∧ (s.passed < 2 ^ 64 → s.Kept ms)) ?_ ?_ h
    · rintro s ⟨now, rfl⟩
      refine ⟨called_call ms now, fun _ => ⟨?_, ?_, fun htrue => absurd htrue List.not_mem_nil,
        fun before after heq => ?_⟩⟩
      · rintro ⟨⟩
      · rintro _ _ ⟨⟩
      exact absurd heq.symm (List.append_ne_nil_of_right_ne_nil before (List.cons_ne_nil _ after))
    · intro s a t hs hstep
      obtain ⟨hcalled, hle⟩ := hs.1.step hstep
      refine ⟨hcalled, fun ht => ?_⟩
      have hlt := lt_of_le_of_lt hle ht
      exact (hs.2 hlt).step hs.1 hms hlt hstep
  obtain ⟨hcalled, hkept⟩ := hboth
  refine ⟨hkept hpassed, fun hpoint hover => ?_⟩
  have hremaining := hcalled.remaining hms hpassed
  rw [max_eq_left (by omega)] at hremaining
  have hzero : UInt64.asInt (s.deadline.remainingTime s.now) = 0 := Int32.toInt_inj.mp hremaining
  simp only [RunFor.step, hpoint, hzero, if_true]

/-- A second, in the middle of which there is an event. -/
def oneEvent : List Label :=
  [.check, .pass ⟨6, 400000000⟩, .event, .check, .pass ⟨6, 900000001⟩, .timeOut, .check]

theorem runFor_kept_oneEvent : ∃ s, (machine 1000).Reaches oneEvent s ∧ s.point = .returned ∧
    s.rounds = [false, true] ∧ 1000000000 ≤ s.passed := by
  have hrun : (oneEvent.foldlM step (call 1000 ⟨5, 900000000⟩)).map (fun s =>
      (s.point, s.rounds, s.passed)) = some (.returned, [false, true], 1000000001) := by
    decide +kernel
  obtain ⟨s, hs, hstate⟩ := Option.map_eq_some_iff.mp hrun
  obtain ⟨hpoint, hstate⟩ := Prod.mk.inj hstate
  obtain ⟨hrounds, hpassed⟩ := Prod.mk.inj hstate
  have hreaches : (machine 1000).Reaches oneEvent s := ⟨_, ⟨_, rfl⟩, Machine.Path.of_run hs⟩
  obtain ⟨hkept, -⟩ := runFor_kept hreaches (by decide) (by rw [hpassed]; decide)
  exact ⟨s, hreaches, hpoint, hrounds, hkept.returned hpoint⟩

/-! ## A negative time -/

/-- What `run_for` has done without one. -/
def Open (s : RunFor) : Prop :=
  s.point ≠ .returned ∧ (∀ since timeout, s.point = .polling since timeout → timeout.toInt < 0) ∧
    true ∉ s.rounds

/-- **No deadline**: with a negative time `run_for` does not return, and no `process_events` has a
timeout, until the time that has passed and the absolute value of the one given come to 2 ^ 31
milliseconds. -/
theorem runFor_negative {as : List Label} (h : (machine ms).Reaches as s) (hms : ms.toInt < 0)
    (hpassed : s.passed / 1000000 - ms.toInt ≤ 2 ^ 31) : s.Open := by
  have hboth : s.Called ms ∧ (s.passed / 1000000 - ms.toInt ≤ 2 ^ 31 → s.Open) := by
    refine Machine.invariant (M := machine ms)
      (I := fun s => s.Called ms ∧ (s.passed / 1000000 - ms.toInt ≤ 2 ^ 31 → s.Open)) ?_ ?_ h
    · rintro s ⟨now, rfl⟩
      refine ⟨called_call ms now, fun _ => ⟨?_, ?_, List.not_mem_nil⟩⟩
      · rintro ⟨⟩
      · rintro _ _ ⟨⟩
    · intro s a t hs hstep
      obtain ⟨hcalled, hle⟩ := hs.1.step hstep
      refine ⟨hcalled, fun ht => ?_⟩
      have hlt : s.passed / 1000000 - ms.toInt ≤ 2 ^ 31 := by omega
      obtain ⟨hreturned, hpolling, hrounds⟩ := hs.2 hlt
      have hremaining := DeadlineTimer.asInt_remainingTime_of_neg hs.1.deadline hms hs.1.started hlt
      have hneg : (UInt64.asInt (s.deadline.remainingTime s.now)).toInt < 0 := by
        have hnonneg : 0 ≤ s.passed := Int.sub_nonneg_of_le hs.1.started
        rw [hremaining]
        show ms.toInt - s.passed / 1000000 < 0
        omega
      rcases step_cases hstep with ⟨now, -, -, rfl⟩ | ⟨-, -, ⟨hzero, rfl⟩ | ⟨-, rfl⟩⟩ |
        ⟨since, timeout, timedOut, hpoint, hout, rfl⟩
      · exact ⟨hreturned, hpolling, hrounds⟩
      · rw [hzero] at hneg
        exact absurd hneg (by decide)
      · refine ⟨?_, ?_, hrounds⟩
        · rintro ⟨⟩
        · rintro _ _ ⟨⟩
          exact hneg
      · refine ⟨?_, ?_, fun htrue => ?_⟩
        · rintro ⟨⟩
        · rintro _ _ ⟨⟩
        · rcases List.mem_append.mp htrue with htrue | htrue
          · exact hrounds htrue
          · have hwaited := (hout (List.mem_singleton.mp htrue).symm).1
            have hnone := hpolling since timeout hpoint
            omega
  exact hboth.2 hpassed

theorem runFor_negative_oneEvent : ∃ s, (machine (-1)).Reaches [.check, .pass ⟨7, 0⟩, .event] s ∧
    s.point = .head ∧ s.Open := by
  have hrun : ([.check, .pass ⟨7, 0⟩, .event].foldlM step (call (-1) ⟨5, 900000000⟩)).map
      (fun s => (s.point, s.passed)) = some (.head, 1100000000) := by
    decide +kernel
  obtain ⟨s, hs, hstate⟩ := Option.map_eq_some_iff.mp hrun
  obtain ⟨hpoint, hpassed⟩ := Prod.mk.inj hstate
  have hreaches : (machine (-1)).Reaches [.check, .pass ⟨7, 0⟩, .event] s :=
    ⟨_, ⟨_, rfl⟩, Machine.Path.of_run hs⟩
  exact ⟨s, hreaches, hpoint, runFor_negative hreaches (by decide) (by rw [hpassed]; decide)⟩

end RunFor

end SparkleWayland

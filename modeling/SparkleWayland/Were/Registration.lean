import SparkleWayland.Lib.Family
import SparkleWayland.Were.Thread
import Mathlib.Algebra.GroupWithZero.Nat

/-!
# What registrations hold (`were/were_fd.cpp`, `were/were_thread.cpp`)

`register_fd` takes a reference before it asks `epoll_ctl`, and keeps it when that
fails. A `were_fd` with the mask 0 is never registered, but `close` unregisters it like any
other, and its collapse does not close it. Here exceptions leave behind what had been
done when they were thrown. `balanced_guarded_iff` says which programs
keep the references of the thread and its registrations balanced: those in which no
registration fails and no `were_fd` with the mask 0 is closed or collapsed.

The kernel hands out no descriptor that is in use, so whether `epoll` watches a descriptor
is kept with the `were_fd` that has it.
-/

namespace SparkleWayland

/-- `EPOLLIN | EPOLLET` -/
def epollInEdge : UInt32 := 0x80000001

/-- A `were_fd` and what has become of it: whether `epoll` watches its descriptor, how often
that was closed, the reference count before and after a call of `register_fd` that threw,
and whether `close` threw. -/
structure Descriptor extends WereFd where
  watched : Bool
  closed : Nat
  failed : Option (Nat × Nat)
  closeThrew : Bool
  deriving DecidableEq

namespace Descriptor

/-- `were_thread::register_fd`: whether it returns depends on what `epoll_ctl` says. -/
def registerFd (d : Descriptor) (added : Bool) : Descriptor × Bool :=
  -- the reference is taken first
  let d := { d with referenceCount := d.referenceCount + 1 }
  if added = true ∧ d.watched = false then ({ d with watched := true }, true) else (d, false)

/-- `were_thread::unregister_fd`; it throws if the descriptor is not watched. -/
def unregisterFd (d : Descriptor) : Option Descriptor :=
  if d.watched then some { d with watched := false, referenceCount := d.referenceCount - 1 }
  else none

/-- `were_fd::close` -/
def close (d : Descriptor) : Option Descriptor :=
  if d.fd = -1 then some d
  else d.unregisterFd.map fun d => { d with closed := d.closed + 1, fd := -1 }

/-- `were_unix_socket::disconnect`; the shutdown is seen by the peer only. -/
def disconnect (d : Descriptor) : Option Descriptor :=
  if d.fd = -1 then some d else d.close

/-- `collapse`: `destroyed` has the slot that the integrator connected, if it did. -/
def collapse (d : Descriptor) : Option Descriptor :=
  if d.state ≠ .integrated then some d
  else (if d.events = 0 then some d else d.close).map fun d => { d with state := .disintegrated }

/-- The object of `were_new`, which one `were_pointer` holds. -/
def constructed (fd : Int) (events : UInt32) (socket : Bool) : Descriptor :=
  ⟨⟨fd, events, socket, .initial, 1, 1⟩, false, 0, none, false⟩

/-- The integrator. Once it is registered, the connection to its slot holds the object, once
in its call and three times in each of its two breakers. -/
def integrate (d : Descriptor) (added : Bool) : Descriptor :=
  if d.events = 0 then { d with state := .integrated }
  else
    match d.registerFd added with
    | (e, true) => { e with
        state := .integrated
        referenceCount := e.referenceCount + 7
        pointers := e.pointers + 7 }
    -- the exception leaves `were_new`, and with it the `were_pointer` goes
    | (e, false) => { e with
        referenceCount := e.referenceCount - 1
        pointers := e.pointers - 1
        failed := some (d.referenceCount, e.referenceCount) }

/-- The creations, with what `epoll_ctl` says when it is asked. -/
inductive Creation where
  | wereFd (fd : Int) (events : UInt32) (added : Bool)
  | unixSocket (fd : Int) (added : Bool)
  deriving DecidableEq

/-- `were_new` with a descriptor from the kernel. -/
def create (ds : List Descriptor) (fd : Int) (events : UInt32) (socket added : Bool) :
    Option (Option Descriptor) :=
  -- the constructor throws
  if fd = -1 then some none
  else if ∃ d ∈ ds, d.fd = fd then none
  else some (some ((constructed fd events socket).integrate added))

def make (ds : List Descriptor) : Creation → Option (Option Descriptor)
  | .wereFd fd events added => create ds fd events false added
  | .unixSocket fd added => create ds fd epollInEdge true added

/-- What code that has a `were_pointer` does with it. -/
inductive Action where
  | close
  | disconnect
  | collapse
  | copy
  | drop
  deriving DecidableEq

/-- An exception of `close` leaves the descriptor as it was. -/
def caught (d : Descriptor) (result : Option Descriptor) : Descriptor :=
  result.getD { d with closeThrew := true }

def act (d : Descriptor) (a : Action) : Option Descriptor :=
  if d.pointers = 0 then none
  else
    match a with
    | .close => some (d.caught d.close)
    | .disconnect => if d.socket then some (d.caught d.disconnect) else none
    | .collapse => some (d.caught d.collapse)
    | .copy => some { d with
        referenceCount := d.referenceCount + 1
        pointers := d.pointers + 1 }
    | .drop => some { d with
        referenceCount := d.referenceCount - 1
        pointers := d.pointers - 1 }

/-- The `were_fd`s of a thread. -/
def family : Family Descriptor Action Creation := ⟨make, act⟩

/-- The references that no `were_pointer` holds. -/
def extra (d : Descriptor) : Nat := d.referenceCount - d.pointers

/-- As many extra references as registrations; a registration that threw took none, `close`
threw nothing, and what is collapsed was closed once. -/
structure Balanced (ds : List Descriptor) : Prop where
  references : (ds.map extra).sum = ds.countP watched
  unchanged : ∀ d ∈ ds, ∀ before after, d.failed = some (before, after) → after = before
  returned : ∀ d ∈ ds, d.closeThrew = false
  collapsed : ∀ d ∈ ds, d.state = .disintegrated → d.closed = 1

/-- The registration of the object, if there is one, succeeds. -/
def Registers : Creation → Prop
  | .wereFd fd events added => fd = -1 ∨ events = 0 ∨ added = true
  | .unixSocket fd added => fd = -1 ∨ added = true

/-- What is closed or collapsed has a mask. -/
def Masked (d : Descriptor) : Action → Prop
  | .close | .collapse => d.events ≠ 0
  | .disconnect | .copy | .drop => True

/-! ## One descriptor -/

/-- A `were_fd` whose integrator came to its end. -/
structure Attended (d : Descriptor) : Prop where
  integrated : d.state ≠ .initial
  closed : d.closed = if d.fd = -1 then 1 else 0
  watched : d.watched = true ↔ d.fd ≠ -1 ∧ d.events ≠ 0
  unmasked : d.events = 0 → d.fd ≠ -1
  collapsed : d.events ≠ 0 → d.state = .disintegrated → d.fd = -1
  socket : d.socket = true → d.events ≠ 0

/-- A `were_fd` whose registration failed: nothing leads to it any more. -/
def Leaked (d : Descriptor) : Prop :=
  d.pointers = 0 ∧ ∃ before after, d.failed = some (before, after) ∧ after ≠ before

/-- What holds of every `were_fd`. -/
structure Kept (d : Descriptor) : Prop where
  counted : d.referenceCount =
    d.pointers + (if d.watched = true then 1 else 0) + if d.failed.isSome then 1 else 0
  fate : d.Leaked ∨ d.failed = none ∧ d.Attended

/-- What `Balanced` says of one `were_fd` besides its references. -/
structure Accounted (d : Descriptor) : Prop where
  unchanged : ∀ before after, d.failed = some (before, after) → after = before
  returned : d.closeThrew = false
  collapsed : d.state = .disintegrated → d.closed = 1

/-- The descriptor is closed. -/
def unwatch (d : Descriptor) : Descriptor :=
  { d with
    watched := false
    referenceCount := d.referenceCount - 1
    closed := d.closed + 1
    fd := -1 }

variable {d : Descriptor}

/-- `close` finds the descriptor closed or watched, unless the mask is 0. -/
theorem Attended.close_cases (h : d.Attended) :
    d.fd = -1 ∧ d.events ≠ 0 ∧ d.close = some d ∨
    d.fd ≠ -1 ∧ d.events ≠ 0 ∧ d.close = some d.unwatch ∨
    d.fd ≠ -1 ∧ d.events = 0 ∧ d.close = none := by
  unfold close unregisterFd
  by_cases hevents : d.events = 0
  · have hopen := h.unmasked hevents
    have hno : ¬ d.watched = true := fun hw => (h.watched.mp hw).2 hevents
    rw [if_neg hopen, if_neg hno]
    exact Or.inr (Or.inr ⟨hopen, hevents, rfl⟩)
  · by_cases hopen : d.fd = -1
    · rw [if_pos hopen]
      exact Or.inl ⟨hopen, hevents, rfl⟩
    · rw [if_neg hopen, if_pos (h.watched.mpr ⟨hopen, hevents⟩)]
      exact Or.inr (Or.inl ⟨hopen, hevents, rfl⟩)

theorem Attended.unwatch (h : d.Attended) (hopen : d.fd ≠ -1) (hevents : d.events ≠ 0) :
    d.unwatch.Attended where
  integrated := h.integrated
  closed := by
    show d.closed + 1 = if (-1 : Int) = -1 then 1 else 0
    rw [h.closed, if_neg hopen, if_pos rfl]
  watched := iff_of_false (by simp [Descriptor.unwatch]) fun hw => hw.1 rfl
  unmasked := fun hzero => absurd hzero hevents
  collapsed := fun _ _ => rfl
  socket := h.socket

/-- The reference of the thread goes with the registration. -/
theorem Kept.unwatch (h : d.Kept) (hno : d.failed = none) (ha : d.Attended) (hopen : d.fd ≠ -1)
    (hevents : d.events ≠ 0) : d.unwatch.Kept where
  counted := by
    have hcount := h.counted
    rw [if_pos (ha.watched.mpr ⟨hopen, hevents⟩), hno] at hcount
    show d.referenceCount - 1 = d.pointers + 0 + if d.failed.isSome then 1 else 0
    rw [hcount, hno]
    rfl
  fate := Or.inr ⟨hno, ha.unwatch hopen hevents⟩

/-- A collapsed `were_fd` that was closed, or had no mask. -/
theorem Attended.disintegrated (h : d.Attended) (hclosed : d.events ≠ 0 → d.fd = -1) :
    ({ d with state := .disintegrated } : Descriptor).Attended where
  integrated := nofun
  closed := h.closed
  watched := h.watched
  unmasked := h.unmasked
  collapsed := fun hevents _ => hclosed hevents
  socket := h.socket

/-- The counts and what was thrown are not looked at. -/
theorem Attended.congr (h : d.Attended) {count pointers : Nat} {threw : Bool} :
    ({ d with
      referenceCount := count
      pointers := pointers
      closeThrew := threw } : Descriptor).Attended :=
  ⟨h.integrated, h.closed, h.watched, h.unmasked, h.collapsed, h.socket⟩

theorem Attended.closed_of_open (h : d.Attended) (hopen : d.fd ≠ -1) : d.closed = 0 := by
  rw [h.closed, if_neg hopen]

theorem Attended.closed_of_shut (h : d.Attended) (hshut : d.fd = -1) : d.closed = 1 := by
  rw [h.closed, if_pos hshut]

/-- To be closed makes a `were_fd` neither better nor worse. -/
theorem accounted_unwatch_iff (h : d.Attended) (hopen : d.fd ≠ -1) (hevents : d.events ≠ 0) :
    d.unwatch.Accounted ↔ d.Accounted := by
  constructor
  · intro hacc
    exact ⟨hacc.unchanged, hacc.returned, fun hstate =>
      absurd (h.collapsed hevents hstate) hopen⟩
  · intro hacc
    refine ⟨hacc.unchanged, hacc.returned, fun _ => ?_⟩
    show d.closed + 1 = 1
    rw [h.closed_of_open hopen]

/-- `close` throws exactly if the mask is 0. -/
theorem Attended.caught_close (hk : d.Kept) (hno : d.failed = none) (h : d.Attended) :
    (d.caught d.close).Kept ∧
      ((d.caught d.close).Accounted ↔ d.Accounted ∧ d.events ≠ 0) := by
  rcases h.close_cases with ⟨-, hevents, heq⟩ | ⟨hopen, hevents, heq⟩ | ⟨hopen, hevents, heq⟩
  · rw [heq]
    exact ⟨hk, (and_iff_left hevents).symm⟩
  · rw [heq]
    exact ⟨hk.unwatch hno h hopen hevents,
      (accounted_unwatch_iff h hopen hevents).trans (and_iff_left hevents).symm⟩
  · rw [heq]
    refine ⟨⟨hk.counted, Or.inr ⟨hno, h.congr⟩⟩, iff_of_false (fun hacc => ?_) fun hmask => ?_⟩
    · exact Bool.noConfusion hacc.returned
    · exact hmask.2 hevents

/-- What is collapsed again stays as it is: with the mask 0, it was not closed. -/
theorem Attended.collapse_again (h : d.Attended) (hstate : d.state ≠ .integrated) :
    d.Accounted ↔ d.Accounted ∧ d.events ≠ 0 := by
  refine ⟨fun hacc => ⟨hacc, fun hevents => ?_⟩, And.left⟩
  have hd : d.state = .disintegrated := by
    cases hs : d.state with
    | initial => exact absurd hs h.integrated
    | integrated => exact absurd hs hstate
    | disintegrated => rfl
  have hone : d.closed = 1 := hacc.collapsed hd
  rw [h.closed_of_open (h.unmasked hevents)] at hone
  cases hone

/-- With the mask 0 there is no slot that would close it. -/
theorem Attended.collapse_unmasked (hk : d.Kept) (hno : d.failed = none) (h : d.Attended)
    (hevents : d.events = 0) :
    ({ d with state := .disintegrated } : Descriptor).Kept ∧
      ¬ ({ d with state := .disintegrated } : Descriptor).Accounted := by
  refine ⟨⟨hk.counted, Or.inr ⟨hno, h.disintegrated fun hmask => absurd hevents hmask⟩⟩, ?_⟩
  intro hacc
  have hone : d.closed = 1 := hacc.collapsed rfl
  rw [h.closed_of_open (h.unmasked hevents)] at hone
  cases hone

/-- `collapse` never throws, but leaves open what has the mask 0. -/
theorem Attended.caught_collapse (hk : d.Kept) (hno : d.failed = none) (h : d.Attended) :
    (d.caught d.collapse).Kept ∧
      ((d.caught d.collapse).Accounted ↔ d.Accounted ∧ d.events ≠ 0) := by
  unfold collapse
  by_cases hstate : d.state = .integrated
  case neg =>
    rw [if_pos hstate]
    exact ⟨hk, h.collapse_again hstate⟩
  rw [if_neg (not_not.mpr hstate)]
  by_cases hevents : d.events = 0
  case pos =>
    rw [if_pos hevents]
    obtain ⟨hkept, hacc⟩ := h.collapse_unmasked hk hno hevents
    exact ⟨hkept, iff_of_false hacc fun hmask => hmask.2 hevents⟩
  rw [if_neg hevents]
  rcases h.close_cases with ⟨hshut, -, heq⟩ | ⟨hopen, -, heq⟩ | ⟨-, hzero, -⟩
  · rw [heq]
    refine ⟨⟨hk.counted, Or.inr ⟨hno, h.disintegrated fun _ => hshut⟩⟩, ?_⟩
    constructor
    · intro hacc
      exact ⟨⟨hacc.unchanged, hacc.returned, fun _ => h.closed_of_shut hshut⟩, hevents⟩
    · rintro ⟨hacc, -⟩
      exact ⟨hacc.unchanged, hacc.returned, fun _ => h.closed_of_shut hshut⟩
  · have hunwatch := hk.unwatch hno h hopen hevents
    rw [heq]
    refine ⟨⟨hunwatch.counted, Or.inr ⟨hno, (h.unwatch hopen hevents).disintegrated
      fun _ => rfl⟩⟩, ?_⟩
    constructor
    · intro hacc
      exact ⟨⟨hacc.unchanged, hacc.returned, fun hd => absurd (hstate.symm.trans hd) nofun⟩,
        hevents⟩
    · rintro ⟨hacc, -⟩
      refine ⟨hacc.unchanged, hacc.returned, fun _ => ?_⟩
      show d.closed + 1 = 1
      rw [h.closed_of_open hopen]
  · exact absurd hzero hevents

/-- A `were_unix_socket` has a mask, hence `disconnect` is a `close` that returns. -/
theorem disconnect_eq (d : Descriptor) : d.disconnect = d.close := by
  unfold disconnect close
  by_cases hopen : d.fd = -1
  · rw [if_pos hopen, if_pos hopen]
  · rw [if_neg hopen, if_neg hopen]

/-- More or fewer `were_pointer`s. -/
theorem Kept.repoint (hk : d.Kept) (hno : d.failed = none) (h : d.Attended) {count pointers : Nat}
    (hsame : count + d.pointers = d.referenceCount + pointers) :
    let e : Descriptor := { d with referenceCount := count, pointers := pointers }
    e.Kept ∧ (e.Accounted ↔ d.Accounted) := by
  have hcount := hk.counted
  refine ⟨⟨?_, Or.inr ⟨hno, h.congr⟩⟩, fun hacc => ⟨hacc.1, hacc.2, hacc.3⟩,
    fun hacc => ⟨hacc.1, hacc.2, hacc.3⟩⟩
  show count = pointers + (if d.watched = true then 1 else 0) + if d.failed.isSome then 1 else 0
  omega

theorem act_exact {d d' : Descriptor} {a : Action} (hk : d.Kept) (hact : d.act a = some d') :
    d'.Kept ∧ (d'.Accounted ↔ d.Accounted ∧ Masked d a) := by
  obtain ⟨hpointers, hact⟩ := Option.ite_none_left_eq_some.mp hact
  have hpointers : d.pointers ≠ 0 := hpointers
  rcases hk.fate with hleaked | ⟨hno, h⟩
  · exact absurd hleaked.1 hpointers
  · cases a with
    | close =>
      cases hact
      exact h.caught_close hk hno
    | collapse =>
      cases hact
      exact h.caught_collapse hk hno
    | disconnect =>
      obtain ⟨hsocket, hact⟩ := Option.ite_none_right_eq_some.mp hact
      cases hact
      rw [disconnect_eq]
      obtain ⟨hkept, hacc⟩ := h.caught_close hk hno
      exact ⟨hkept, hacc.trans (and_congr_right fun _ => iff_true_intro (h.socket hsocket))⟩
    | copy =>
      cases hact
      obtain ⟨hkept, hacc⟩ := hk.repoint hno h
        (show d.referenceCount + 1 + d.pointers = d.referenceCount + (d.pointers + 1) by omega)
      exact ⟨hkept, hacc.trans (and_iff_left trivial).symm⟩
    | drop =>
      cases hact
      have hcount := hk.counted
      obtain ⟨hkept, hacc⟩ := hk.repoint hno h
        (show d.referenceCount - 1 + d.pointers = d.referenceCount + (d.pointers - 1) by omega)
      exact ⟨hkept, hacc.trans (and_iff_left trivial).symm⟩

/-! ## Creation -/

/-- A registration that fails leaks the reference it took. -/
theorem integrate_exact {fd : Int} (hfd : fd ≠ -1) {events : UInt32} {socket : Bool}
    (hsocket : socket = true → events ≠ 0) (added : Bool) :
    let d := (constructed fd events socket).integrate added
    d.Kept ∧ (d.Accounted ↔ events = 0 ∨ added = true) := by
  unfold integrate constructed
  by_cases hevents : events = 0
  · rw [if_pos hevents]
    refine ⟨⟨rfl, Or.inr ⟨rfl, ?_⟩⟩, iff_of_true ⟨nofun, rfl, nofun⟩ (Or.inl hevents)⟩
    exact ⟨nofun, (if_neg hfd).symm, iff_of_false nofun fun hw => hw.2 hevents, fun _ => hfd,
      nofun, hsocket⟩
  · rw [if_neg hevents]
    cases added with
    | true =>
      refine ⟨⟨rfl, Or.inr ⟨rfl, ?_⟩⟩, iff_of_true ⟨nofun, rfl, nofun⟩ (Or.inr rfl)⟩
      exact ⟨nofun, (if_neg hfd).symm, iff_of_true rfl ⟨hfd, hevents⟩, fun _ => hfd, nofun,
        hsocket⟩
    | false =>
      refine ⟨⟨rfl, Or.inl ⟨rfl, 1, 2, rfl, by decide⟩⟩, iff_of_false (fun hacc => ?_) ?_⟩
      · exact absurd (hacc.unchanged 1 2 rfl) (by decide)
      · simp [hevents]

theorem create_exact {ds : List Descriptor} {fd : Int} {events : UInt32} {socket added : Bool}
    {d : Descriptor} (hsocket : socket = true → events ≠ 0)
    (h : create ds fd events socket added = some (some d)) :
    d.Kept ∧ (d.Accounted ↔ fd = -1 ∨ events = 0 ∨ added = true) := by
  unfold create at h
  split at h
  case isTrue => cases h
  case isFalse hfd =>
    obtain ⟨-, hd⟩ := Option.ite_none_left_eq_some.mp h
    cases hd
    obtain ⟨hkept, hacc⟩ := integrate_exact hfd hsocket added
    exact ⟨hkept, hacc.trans (or_iff_right hfd).symm⟩

theorem create_none {ds : List Descriptor} {fd : Int} {events : UInt32} {socket added : Bool}
    (h : create ds fd events socket added = some none) : fd = -1 := by
  unfold create at h
  split at h
  case isTrue hfd => exact hfd
  case isFalse => cases (Option.ite_none_left_eq_some.mp h).2

theorem family_exact : family.Exact Kept Accounted Registers Masked where
  made := by
    intro ds creation d h
    cases creation with
    | wereFd fd events added =>
      have h : create ds fd events false added = some (some d) := h
      exact create_exact (fun hsocket => by cases hsocket) h
    | unixSocket fd added =>
      have hmask : epollInEdge ≠ 0 := by decide
      obtain ⟨hkept, hacc⟩ := create_exact (fun _ => hmask) h
      exact ⟨hkept, hacc.trans (or_congr_right (or_iff_right hmask))⟩
  nothing := by
    intro ds creation h
    cases creation with
    | wereFd fd events added => exact Or.inl (create_none h)
    | unixSocket fd added => exact Or.inl (create_none h)
  acted := fun d a d' hk hact => act_exact hk hact

/-! ## All of them -/

/-- Without a failed registration, the extra reference is that of the registration. -/
theorem Kept.extra_eq (hk : d.Kept) (hno : d.failed = none) :
    d.extra = if d.watched = true then 1 else 0 := by
  have hcount := hk.counted
  rw [hno] at hcount
  rw [extra, hcount]
  simp

theorem sum_extra {ds : List Descriptor} (hk : ∀ d ∈ ds, d.Kept)
    (hno : ∀ d ∈ ds, d.failed = none) : (ds.map extra).sum = ds.countP watched := by
  induction ds with
  | nil => rfl
  | cons d ds ih =>
    obtain ⟨hd, hds⟩ := List.forall_mem_cons.mp hk
    obtain ⟨hdno, hdsno⟩ := List.forall_mem_cons.mp hno
    rw [List.map_cons, List.sum_cons, List.countP_cons, ih hds hdsno, hd.extra_eq hdno,
      Nat.add_comm]

theorem balanced_iff {ds : List Descriptor} (hk : ∀ d ∈ ds, d.Kept) :
    Balanced ds ↔ ∀ d ∈ ds, d.Accounted := by
  constructor
  · intro h d hd
    exact ⟨h.unchanged d hd, h.returned d hd, h.collapsed d hd⟩
  · intro h
    refine ⟨sum_extra hk fun d hd => ?_, fun d hd => (h d hd).unchanged,
      fun d hd => (h d hd).returned, fun d hd => (h d hd).collapsed⟩
    rcases (hk d hd).fate with ⟨-, before, after, hfailed, hne⟩ | ⟨hno, -⟩
    · exact absurd ((h d hd).unchanged before after hfailed) hne
    · exact hno

/-- The runs that stay balanced are those in which every registration succeeds and no
`were_fd` with the mask 0 is closed or collapsed. -/
theorem balanced_guarded_iff {as : List (FamilyLabel Action Creation)} {ds : List Descriptor} :
    family.machine.Reaches as ds ∧ Balanced ds ↔
      (family.machine.guarded (Family.Allowed Registers Masked)).Reaches as ds := by
  rw [← family_exact.reaches_guarded_iff]
  exact and_congr_right fun h => balanced_iff (family_exact.invariant h)

/-- To close a `were_fd` with the mask 0 throws, and its collapse leaves it open; a registration
that fails keeps its reference. -/
theorem unmasked_unbalanced :
    (∃ ds, family.machine.Reaches [.make (.wereFd 3 0 true), .act 0 .close] ds ∧
      ¬ Balanced ds ∧ ∃ d ∈ ds, d.closeThrew = true) ∧
    (∃ ds, family.machine.Reaches [.make (.wereFd 3 0 true), .act 0 .collapse] ds ∧
      ¬ Balanced ds ∧ ∃ d ∈ ds, d.state = .disintegrated ∧ d.closed = 0) ∧
    ∃ ds, family.machine.Reaches [.make (.wereFd 3 epollIn false)] ds ∧
      ¬ Balanced ds ∧ (ds.map extra).sum = 1 ∧ ds.countP watched = 0 := by
  let closed : Descriptor := ⟨⟨3, 0, false, .integrated, 1, 1⟩, false, 0, none, true⟩
  let collapsed : Descriptor := ⟨⟨3, 0, false, .disintegrated, 1, 1⟩, false, 0, none, false⟩
  let leaked : Descriptor := ⟨⟨3, epollIn, false, .initial, 1, 0⟩, false, 0, some (1, 2), false⟩
  refine ⟨⟨[closed], ⟨[], rfl, Machine.Path.of_run (by decide)⟩, fun h => ?_, closed, by simp, rfl⟩,
    ⟨[collapsed], ⟨[], rfl, Machine.Path.of_run (by decide)⟩, fun h => ?_, collapsed, by simp, rfl,
      rfl⟩,
    ⟨[leaked], ⟨[], rfl, Machine.Path.of_run (by decide)⟩, fun h => ?_, rfl, rfl⟩⟩
  · exact absurd (h.returned closed (by simp)) (by decide)
  · exact absurd (h.collapsed collapsed (by simp) rfl) (by decide)
  · exact absurd h.references (by decide)

end Descriptor

end SparkleWayland

import SparkleWayland.Lib.Machine
import SparkleWayland.Were.Signal

/-!
# Dispatching a batch of events (`were/were_thread.cpp`, `were/were_fd.cpp`)

`epoll_wait` hands over up to sixteen events at once, each with the address of the
`were_fd` it is for. What keeps such an address good is the reference that
`register_fd` takes and `unregister_fd` gives back; but the slots that the first
events run may close a descriptor whose event is still to come.
`calls_registered_iff` says that this is the only way in which `process_events` can
call `event_` on a descriptor that is no longer registered.

Objects are named by numbers that are never used again, so that a call on a dead
object is not mistaken for a call on whatever took its place.
-/

namespace SparkleWayland

/-- A `were_fd`, or a `were_unix_socket`, which has an `event_` of its own. -/
structure WereFd where
  fd : Int
  events : UInt32
  socket : Bool
  state : IntegrationState
  referenceCount : Nat
  /-- The `were_pointer`s to it, among them those that connections hold. -/
  pointers : Nat
  deriving DecidableEq

/-- `unreference`: the object goes with its last reference. -/
def WereFd.unreferenced (f : WereFd) : Option WereFd :=
  if f.referenceCount = 1 then none else some { f with referenceCount := f.referenceCount - 1 }

/-- `EPOLLIN` -/
def epollIn : UInt32 := 1

/-- `EPOLLOUT` -/
def epollOut : UInt32 := 4

/-- `MAX_EVENTS` -/
def maxEvents : Nat := 16

/-- The live `were_fd`s of a thread, and what its epoll descriptor knows: for each
descriptor it watches, the `data.ptr` it was given. -/
structure Thread where
  fds : Nat → Option WereFd
  next : Nat
  interest : Int → Option Nat

namespace Thread

def put (t : Thread) (o : Nat) (f : Option WereFd) : Thread :=
  { t with fds := Function.update t.fds o f }

@[simp] theorem put_self (t : Thread) (o : Nat) (f : Option WereFd) : (t.put o f).fds o = f :=
  Function.update_self _ _ _

theorem put_other {t : Thread} {o p : Nat} {f : Option WereFd} (h : p ≠ o) :
    (t.put o f).fds p = t.fds p := Function.update_of_ne h _ _

@[simp] theorem put_next (t : Thread) (o : Nat) (f : Option WereFd) :
    (t.put o f).next = t.next := rfl

@[simp] theorem put_interest (t : Thread) (o : Nat) (f : Option WereFd) :
    (t.put o f).interest = t.interest := rfl

/-- How many `were_pointer`s to `o` there are. -/
def pointers (t : Thread) (o : Nat) : Nat := ((t.fds o).map WereFd.pointers).getD 0

/-! ## What code does to a descriptor -/

/-- A `were_pointer` is made. -/
def acquire (t : Thread) (o : Nat) : Option Thread :=
  (t.fds o).map fun f =>
    t.put o (some { f with referenceCount := f.referenceCount + 1, pointers := f.pointers + 1 })

/-- A `were_pointer` is destroyed. -/
def release (t : Thread) (o : Nat) : Option Thread :=
  (t.fds o).bind fun f =>
    if f.pointers = 0 then none
    else some (t.put o ({ f with pointers := f.pointers - 1 } : WereFd).unreferenced)

/-- `were_thread::register_fd` -/
def registerFd (t : Thread) (o : Nat) : Option Thread :=
  (t.fds o).bind fun f =>
    -- `EPOLL_CTL_ADD` refuses a descriptor that is watched already
    if t.interest f.fd ≠ none then none
    else some
      { t.put o (some { f with referenceCount := f.referenceCount + 1 }) with
        interest := Function.update t.interest f.fd (some o) }

/-- `were_thread::unregister_fd` -/
def unregisterFd (t : Thread) (o : Nat) : Option Thread :=
  (t.fds o).bind fun f =>
    -- `EPOLL_CTL_DEL` refuses a descriptor that is not watched
    if t.interest f.fd = none then none
    else some { t.put o f.unreferenced with interest := Function.update t.interest f.fd none }

/-- `were_fd::close` -/
def close (t : Thread) (o : Nat) : Option Thread :=
  (t.fds o).bind fun f =>
    if f.fd = -1 then some t
    else (t.unregisterFd o).map fun t => t.put o ((t.fds o).map fun f => { f with fd := -1 })

/-- `were_unix_socket::disconnect`; the shutdown is seen by the peer only. -/
def disconnect (t : Thread) (o : Nat) : Option Thread :=
  (t.fds o).bind fun f => if f.socket then t.close o else none

/-- `collapse`: the disintegrator emits `destroyed`, and with it the slot that the
integrator connected. Other slots of `destroyed` are actions of their own. -/
def collapse (t : Thread) (o : Nat) : Option Thread :=
  (t.fds o).bind fun f =>
    if f.state ≠ .integrated then some t
    else ((if f.events = 0 then some t else t.close o) : Option Thread).map fun t =>
      t.put o ((t.fds o).map fun f => { f with state := .disintegrated })

/-- Some `were_fd` has the descriptor. -/
def InUse (t : Thread) (fd : Int) : Prop := ∃ o < t.next, (t.fds o).any (fun f => f.fd = fd) = true

instance (t : Thread) (fd : Int) : Decidable (t.InUse fd) :=
  inferInstanceAs (Decidable (∃ _ < _, _))

/-- `were_new<were_fd>` with a descriptor from the kernel, which hands out none that is in
use. Besides the result, the connection that the integrator makes holds the object, once
in its call and three times in each of its two breakers. -/
def create (t : Thread) (fd : Int) (events : UInt32) (socket : Bool) : Option Thread :=
  if fd = -1 ∨ t.InUse fd then none
  else
    let made (n : Nat) : Thread :=
      { t.put t.next (some ⟨fd, events, socket, .integrated, n, n⟩) with next := t.next + 1 }
    if events = 0 then some (made 1) else (made 8).registerFd t.next

/-- What a slot can do to descriptors. -/
inductive Action where
  | create (fd : Int) (events : UInt32) (socket : Bool)
  | close (o : Nat)
  | disconnect (o : Nat)
  | collapse (o : Nat)
  | copy (o : Nat)
  | drop (o : Nat)
  | throw
  deriving DecidableEq

/-- One action; `none` is an exception. Code acts on an object through a
`were_pointer`, which there must be. -/
def perform (t : Thread) : Action → Option Thread
  | .create fd events socket => t.create fd events socket
  | .close o => if t.pointers o = 0 then none else t.close o
  | .disconnect o => if t.pointers o = 0 then none else t.disconnect o
  | .collapse o => if t.pointers o = 0 then none else t.collapse o
  | .copy o => if t.pointers o = 0 then none else t.acquire o
  | .drop o => t.release o
  | .throw => none

/-- The action closes `o`, if `o` is open. -/
def Action.Closes (a : Action) (o : Nat) : Prop :=
  a = .close o ∨ a = .disconnect o ∨ a = .collapse o

instance (a : Action) (o : Nat) : Decidable (a.Closes o) := inferInstanceAs (Decidable (_ ∨ _))

/-! ## The loop of `process_events` -/

/-- The thread watches the descriptor of `o` for `o`. -/
def Registered (t : Thread) (o : Nat) : Prop :=
  (t.fds o).any (fun f => t.interest f.fd = some o) = true

instance (t : Thread) (o : Nat) : Decidable (t.Registered o) := inferInstanceAs (Decidable (_ = _))

/-- Not all references to `o` are those of `were_pointer`s. -/
def Referenced (t : Thread) (o : Nat) : Prop :=
  (t.fds o).any (fun f => f.pointers < f.referenceCount) = true

instance (t : Thread) (o : Nat) : Decidable (t.Referenced o) := inferInstanceAs (Decidable (_ = _))

/-- One event: the `data.ptr` and the mask that `epoll_wait` returned, and what the
slots of the signal do that `event_` emits. -/
structure Entry where
  object : Nat
  events : UInt32
  slots : List Action
  deriving DecidableEq

/-- The slots of the entry close `o`, if `o` is open. -/
def Entry.Closes (e : Entry) (o : Nat) : Prop := ∃ a ∈ e.slots, a.Closes o

instance (e : Entry) (o : Nat) : Decidable (e.Closes o) := inferInstanceAs (Decidable (∃ _ ∈ _, _))

/-- `were_fd::event_` and `were_unix_socket::event_`, with the `were_pointer` that both
hold while the slots run. -/
def event (t : Thread) (e : Entry) : Option Thread :=
  (t.fds e.object).bind fun f =>
    if f.socket = false ∧ e.events ≠ epollIn ∧ e.events ≠ epollOut then none
    else (t.acquire e.object).bind fun t =>
      (e.slots.foldlM perform t).bind fun t => t.release e.object

/-- A call of `event_`, and how the thread stood to its object at that moment. -/
structure Call where
  object : Nat
  registered : Bool
  referenced : Bool
  deriving DecidableEq

/-- The loop of `were_thread::process_events`: the calls of `event_`, and the thread
afterwards unless an exception ended the loop. -/
def processEvents (t : Thread) : List Entry → List Call × Option Thread
  | [] => ([], some t)
  | e :: rest =>
    let call : Call := ⟨e.object, t.Registered e.object, t.Referenced e.object⟩
    match t.event e with
    | none => ([call], none)
    | some t => (call :: (t.processEvents rest).1, (t.processEvents rest).2)

/-- What one `epoll_wait` can return: events of registered descriptors, at most one
for each. -/
structure Batch (t : Thread) where
  entries : List Entry
  size : entries.length ≤ maxEvents
  distinct : (entries.map Entry.object).Nodup
  ready : ∀ e ∈ entries, t.Registered e.object

/-- What a program does: code outside the event loop, and batches. -/
inductive Label where
  | act (a : Action)
  | batch (entries : List Entry)

/-- A thread with nothing to watch. -/
def empty : Thread := ⟨fun _ => none, 0, fun _ => none⟩

/-- All runs of a program on one thread. -/
def machine : Machine Thread Label where
  start t := t = empty
  step t a t' :=
    match a with
    | .act a => t.perform a = some t'
    | .batch entries =>
      ∃ b : Batch t, b.entries = entries ∧ (t.processEvents entries).2 = some t'

/-! ## What holds of every thread -/

theorem registered_iff {t : Thread} {o : Nat} :
    t.Registered o ↔ ∃ f, t.fds o = some f ∧ t.interest f.fd = some o := by
  simp [Registered, Option.any_eq_true]

theorem referenced_iff {t : Thread} {o : Nat} :
    t.Referenced o ↔ ∃ f, t.fds o = some f ∧ f.pointers < f.referenceCount := by
  simp [Referenced, Option.any_eq_true]

/-- What is watched is alive, open and not collapsed, and the references to an object are
those of the `were_pointer`s and, while it is watched, one more. -/
structure Sound (t : Thread) : Prop where
  fresh : ∀ o, t.next ≤ o → t.fds o = none
  watched : ∀ d o, t.interest d = some o → ∃ f, t.fds o = some f ∧ f.fd = d ∧ d ≠ -1 ∧
    f.events ≠ 0 ∧ f.state = .integrated
  counted : ∀ o f, t.fds o = some f → 0 < f.referenceCount ∧
    f.referenceCount = f.pointers + if t.interest f.fd = some o then 1 else 0
  owned : ∀ o p f g, t.fds o = some f → t.fds p = some g → f.fd = g.fd → f.fd ≠ -1 → o = p

theorem Sound.lt_next {t : Thread} {o : Nat} {f : WereFd} (h : t.Sound) (hf : t.fds o = some f) :
    o < t.next := by
  by_contra hge
  rw [h.fresh o (Nat.le_of_not_lt hge)] at hf
  cases hf

theorem Sound.registered_lt {t : Thread} {o : Nat} (h : t.Sound) (ho : t.Registered o) :
    o < t.next := by
  obtain ⟨f, hf, -⟩ := registered_iff.mp ho
  exact h.lt_next hf

/-- Who watches another descriptor is another object. -/
theorem Sound.watched_ne {t : Thread} {o p : Nat} {f : WereFd} {d : Int} (h : t.Sound)
    (hf : t.fds o = some f) (hd : t.interest d = some p) (hdf : d ≠ f.fd) : p ≠ o := by
  obtain ⟨g, hg, hgd, -⟩ := h.watched d p hd
  rintro rfl
  rw [hf] at hg
  cases hg
  exact hdf hgd.symm

/-- A change to an object that is there gives out no number. -/
theorem Sound.put_fresh {t : Thread} {o : Nat} {f : WereFd} (h : t.Sound) (hf : t.fds o = some f)
    (f' : Option WereFd) (p : Nat) (hp : t.next ≤ p) : (t.put o f').fds p = none := by
  have hne : p ≠ o := Nat.ne_of_gt (Nat.lt_of_lt_of_le (h.lt_next hf) hp)
  exact (put_other hne).trans (h.fresh p hp)

/-- An object that keeps its descriptor, gives it up or goes leaves no descriptor to two. -/
theorem Sound.put_owned {t : Thread} {o : Nat} {f : WereFd} (h : t.Sound) (hf : t.fds o = some f)
    {f' : Option WereFd} (hfd : ∀ g, f' = some g → g.fd ≠ -1 → g.fd = f.fd) (p q : Nat)
    (g₁ g₂ : WereFd) (hg₁ : (t.put o f').fds p = some g₁) (hg₂ : (t.put o f').fds q = some g₂)
    (heq : g₁.fd = g₂.fd) (hopen : g₁.fd ≠ -1) : p = q := by
  have hsame : ∀ p g, (t.put o f').fds p = some g → g.fd ≠ -1 →
      ∃ g', t.fds p = some g' ∧ g'.fd = g.fd := by
    intro p g hg hopen
    rcases eq_or_ne p o with rfl | hne
    · rw [put_self] at hg
      exact ⟨f, hf, (hfd g hg hopen).symm⟩
    · rw [put_other hne] at hg
      exact ⟨g, hg, rfl⟩
  obtain ⟨g₁', hg₁', e₁⟩ := hsame p g₁ hg₁ hopen
  obtain ⟨g₂', hg₂', e₂⟩ := hsame q g₂ hg₂ (heq ▸ hopen)
  exact h.owned p q g₁' g₂' hg₁' hg₂' (e₁.trans (heq.trans e₂.symm)) (e₁ ▸ hopen)

/-- A watched object has a reference that no `were_pointer` holds. -/
theorem Sound.referenced {t : Thread} {o : Nat} (h : t.Sound) (ho : t.Registered o) :
    t.Referenced o := by
  obtain ⟨f, hf, hwatch⟩ := registered_iff.mp ho
  have hcount := (h.counted o f hf).2
  rw [if_pos hwatch] at hcount
  exact referenced_iff.mpr ⟨f, hf, by omega⟩

/-- What a step leaves behind: a sound thread on which, of the objects there were, just
those are registered that were registered and not closed. -/
structure Leaves (t t' : Thread) (closed : Nat → Prop) : Prop where
  sound : t'.Sound
  next : t.next ≤ t'.next
  registered : ∀ p, p < t.next → (t'.Registered p ↔ t.Registered p ∧ ¬ closed p)

theorem Leaves.refl {t : Thread} (h : t.Sound) : Leaves t t fun _ => False where
  sound := h
  next := Nat.le_refl _
  registered := fun _ _ => by rw [not_false_iff, and_true]

theorem Leaves.trans {t u v : Thread} {c d : Nat → Prop} (h : Leaves t u c) (h' : Leaves u v d) :
    Leaves t v fun p => c p ∨ d p where
  sound := h'.sound
  next := Nat.le_trans h.next h'.next
  registered := fun p hp => by
    rw [h'.registered p (Nat.lt_of_lt_of_le hp h.next), h.registered p hp, and_assoc, not_or]

theorem Leaves.congr {t t' : Thread} {c d : Nat → Prop} (h : Leaves t t' c)
    (hcd : ∀ p, c p ↔ d p) : Leaves t t' d where
  sound := h.sound
  next := h.next
  registered := fun p hp => by rw [h.registered p hp, hcd]

/-- An object that stays as it was but for its counts, and while unwatched its state. -/
theorem leaves_put {t : Thread} {o : Nat} {f f' : WereFd} (h : t.Sound) (hf : t.fds o = some f)
    (hfd : f'.fd = f.fd)
    (hkeep : t.interest f.fd = some o → f'.events = f.events ∧ f'.state = f.state)
    (hpos : 0 < f'.referenceCount)
    (hcount : f'.referenceCount + f.pointers = f.referenceCount + f'.pointers) :
    Leaves t (t.put o (some f')) fun _ => False where
  sound :=
    { fresh := h.put_fresh hf _
      watched := fun d p hd => by
        obtain ⟨g, hg, hgd, hopen⟩ := h.watched d p hd
        rcases eq_or_ne p o with rfl | hne
        · rw [hf] at hg
          cases hg
          obtain ⟨hev, hst⟩ := hkeep (hgd ▸ hd)
          exact ⟨f', put_self _ _ _, hfd.trans hgd, hopen.1, hev ▸ hopen.2.1,
            hst ▸ hopen.2.2⟩
        · exact ⟨g, by rw [put_other hne, hg], hgd, hopen⟩
      counted := fun p g hg => by
        rcases eq_or_ne p o with rfl | hne
        · rw [put_self] at hg
          cases hg
          have hold := (h.counted p f hf).2
          refine ⟨hpos, ?_⟩
          show f'.referenceCount = f'.pointers + if t.interest f'.fd = some p then 1 else 0
          rw [hfd]
          omega
        · rw [put_other hne] at hg
          exact h.counted p g hg
      owned := h.put_owned hf fun g hg _ => by
        cases hg
        exact hfd }
  next := Nat.le_refl _
  registered := fun p _ => by
    rw [not_false_iff, and_true, registered_iff, registered_iff]
    rcases eq_or_ne p o with rfl | hne
    · simp [hf, hfd]
    · simp [put_other hne]

/-- An unwatched object that goes. -/
theorem leaves_delete {t : Thread} {o : Nat} {f : WereFd} (h : t.Sound) (hf : t.fds o = some f)
    (hno : t.interest f.fd ≠ some o) : Leaves t (t.put o none) fun _ => False where
  sound :=
    { fresh := h.put_fresh hf none
      watched := fun d p hd => by
        obtain ⟨g, hg, hgd, hopen⟩ := h.watched d p hd
        have hne : p ≠ o := by
          rintro rfl
          rw [hf] at hg
          cases hg
          exact hno (hgd ▸ hd)
        exact ⟨g, by rw [put_other hne, hg], hgd, hopen⟩
      counted := fun p g hg => by
        rcases eq_or_ne p o with rfl | hne
        · rw [put_self] at hg
          cases hg
        · rw [put_other hne] at hg
          exact h.counted p g hg
      owned := h.put_owned hf nofun }
  next := Nat.le_refl _
  registered := fun p _ => by
    rw [not_false_iff, and_true, registered_iff, registered_iff]
    rcases eq_or_ne p o with rfl | hne
    · simp [hf, hno]
    · simp [put_other hne]

/-! ## What each action leaves -/

theorem acquire_leaves {t t' : Thread} {o : Nat} (h : t.Sound) (ht : t.acquire o = some t') :
    Leaves t t' fun _ => False := by
  obtain ⟨f, hf, rfl⟩ := Option.map_eq_some_iff.mp ht
  exact leaves_put h hf rfl (fun _ => ⟨rfl, rfl⟩) (Nat.succ_pos _) (Nat.succ_add_eq_add_succ _ _)

theorem release_leaves {t t' : Thread} {o : Nat} (h : t.Sound) (ht : t.release o = some t') :
    Leaves t t' fun _ => False := by
  obtain ⟨f, hf, ht⟩ := Option.bind_eq_some_iff.mp ht
  rw [Option.ite_none_left_eq_some, Option.some.injEq] at ht
  obtain ⟨hpointers, rfl⟩ := ht
  obtain ⟨hpos, hcount⟩ := h.counted o f hf
  rw [WereFd.unreferenced]
  split
  case isTrue hone =>
    have hone : f.referenceCount = 1 := hone
    -- the last reference was a `were_pointer`, hence not that of the thread
    refine leaves_delete h hf fun hwatch => ?_
    rw [if_pos hwatch] at hcount
    omega
  case isFalse hone =>
    have hone : f.referenceCount ≠ 1 := hone
    refine leaves_put h hf rfl (fun _ => ⟨rfl, rfl⟩) ?_ ?_
    · show 0 < f.referenceCount - 1
      omega
    · show f.referenceCount - 1 + f.pointers = f.referenceCount + (f.pointers - 1)
      omega

theorem pointers_pos {t : Thread} {o : Nat} {f : WereFd} (hf : t.fds o = some f)
    (hp : t.pointers o ≠ 0) : 0 < f.pointers := by
  rw [pointers, hf] at hp
  exact Nat.pos_of_ne_zero hp

/-- The object behind a watched descriptor is the one that has it. -/
theorem Sound.interest_eq {t : Thread} {o : Nat} {f : WereFd} (h : t.Sound)
    (hf : t.fds o = some f) (hopen : f.fd ≠ -1) (hwatch : t.interest f.fd ≠ none) :
    t.interest f.fd = some o := by
  obtain ⟨p, hp⟩ := Option.ne_none_iff_exists'.mp hwatch
  obtain ⟨g, hg, hgd, -⟩ := h.watched f.fd p hp
  rw [hp, h.owned o p f g hf hg hgd.symm hopen]

theorem Sound.closed_unwatched {t : Thread} (h : t.Sound) : t.interest (-1) = none := by
  cases hw : t.interest (-1) with
  | none => rfl
  | some o => exact absurd rfl (h.watched _ _ hw).choose_spec.2.2.1

/-- `unregister_fd` and the assignment after it, on an object that a `were_pointer` holds. -/
theorem close_eq {t t' : Thread} {o : Nat} {f : WereFd} (h : t.Sound) (hp : t.pointers o ≠ 0)
    (hf : t.fds o = some f) (hopen : f.fd ≠ -1) (ht : t.close o = some t') :
    t.interest f.fd = some o ∧
      t' = { t.put o (some { f with referenceCount := f.pointers, fd := -1 }) with
        interest := Function.update t.interest f.fd none } := by
  have hpointers := pointers_pos hf hp
  rw [close, hf, Option.bind_some, if_neg hopen, Option.map_eq_some_iff] at ht
  obtain ⟨u, hu, rfl⟩ := ht
  rw [unregisterFd, hf, Option.bind_some, Option.ite_none_left_eq_some, Option.some.injEq] at hu
  obtain ⟨hwatch, rfl⟩ := hu
  have heq := h.interest_eq hf hopen hwatch
  have hcount := (h.counted o f hf).2
  rw [if_pos heq] at hcount
  refine ⟨heq, ?_⟩
  rw [WereFd.unreferenced, if_neg (by omega), hcount]
  simp [put]

/-- An object that is no longer watched and gives up its descriptor. -/
theorem unwatch_leaves {t : Thread} {o : Nat} {f : WereFd} (h : t.Sound) (hf : t.fds o = some f)
    (hopen : f.fd ≠ -1) (hwatch : t.interest f.fd = some o) (hpos : 0 < f.pointers) :
    Leaves t { t.put o (some { f with referenceCount := f.pointers, fd := -1 }) with
      interest := Function.update t.interest f.fd none } fun p => p = o where
  sound :=
    { fresh := h.put_fresh hf _
      watched := fun d p hd => by
        have hd : Function.update t.interest f.fd none d = some p := hd
        have hdf : d ≠ f.fd := by
          rintro rfl
          rw [Function.update_self] at hd
          cases hd
        rw [Function.update_of_ne hdf] at hd
        obtain ⟨g, hg, hgd, hrest⟩ := h.watched d p hd
        exact ⟨g, (put_other (h.watched_ne hf hd hdf)).trans hg, hgd, hrest⟩
      counted := fun p g hg => by
        show 0 < g.referenceCount ∧ g.referenceCount =
          g.pointers + if Function.update t.interest f.fd none g.fd = some p then 1 else 0
        rcases eq_or_ne p o with rfl | hne
        · cases (put_self t p _).symm.trans hg
          rw [Function.update_of_ne (Ne.symm hopen), h.closed_unwatched]
          exact ⟨hpos, rfl⟩
        · have hg : t.fds p = some g := (put_other hne).symm.trans hg
          have hold := h.counted p g hg
          by_cases hgf : g.fd = f.fd
          · exact absurd (h.owned p o g f hg hf hgf (hgf ▸ hopen)) hne
          · rwa [Function.update_of_ne hgf]
      owned := h.put_owned hf fun g hg hopen' => by
        cases hg
        exact absurd rfl hopen' }
  next := Nat.le_refl _
  registered := fun p _ => by
    rw [registered_iff, registered_iff]
    constructor
    · rintro ⟨g, hg, hp⟩
      have hupdated : Function.update t.interest f.fd none g.fd = some p := hp
      have hdf : g.fd ≠ f.fd := by
        intro hgf
        rw [hgf, Function.update_self] at hupdated
        cases hupdated
      rw [Function.update_of_ne hdf] at hupdated
      rcases eq_or_ne p o with rfl | hne
      · cases (put_self t p _).symm.trans hg
        cases h.closed_unwatched.symm.trans hupdated
      · exact ⟨⟨g, (put_other hne).symm.trans hg, hupdated⟩, hne⟩
    · rintro ⟨⟨g, hg, hp⟩, hne⟩
      refine ⟨g, (put_other hne).trans hg, ?_⟩
      have hdf : g.fd ≠ f.fd := fun hgf => hne (by
        rw [hgf, hwatch] at hp
        exact (Option.some.inj hp).symm)
      exact (Function.update_of_ne hdf _ _).trans hp

theorem close_leaves {t t' : Thread} {o : Nat} (h : t.Sound) (hp : t.pointers o ≠ 0)
    (ht : t.close o = some t') : Leaves t t' fun p => p = o := by
  cases hf : t.fds o with
  | none =>
    rw [close, hf] at ht
    cases ht
  | some f =>
    by_cases hopen : f.fd = -1
    · -- a closed descriptor is not watched
      rw [close, hf, Option.bind_some, if_pos hopen] at ht
      cases ht
      refine ⟨h, Nat.le_refl _, fun p _ => ⟨fun hreg => ⟨hreg, ?_⟩, And.left⟩⟩
      rintro rfl
      obtain ⟨g, hg, hwatch⟩ := registered_iff.mp hreg
      rw [hf] at hg
      cases hg
      rw [hopen, h.closed_unwatched] at hwatch
      cases hwatch
    · obtain ⟨heq, rfl⟩ := close_eq h hp hf hopen ht
      exact unwatch_leaves h hf hopen heq (pointers_pos hf hp)

theorem disconnect_leaves {t t' : Thread} {o : Nat} (h : t.Sound) (hp : t.pointers o ≠ 0)
    (ht : t.disconnect o = some t') : Leaves t t' fun p => p = o := by
  obtain ⟨f, -, ht⟩ := Option.bind_eq_some_iff.mp ht
  rw [Option.ite_none_right_eq_some] at ht
  exact close_leaves h hp ht.2

/-- The state of an object that is not watched. -/
theorem setState_leaves {t : Thread} {o : Nat} (h : t.Sound) (hno : ¬ t.Registered o)
    (state : IntegrationState) :
    Leaves t (t.put o ((t.fds o).map fun f => { f with state := state })) fun _ => False := by
  cases hf : t.fds o with
  | none =>
    have hsame : t.put o none = t := by rw [put, ← hf, Function.update_eq_self]
    rw [Option.map_none, hsame]
    exact Leaves.refl h
  | some f =>
    obtain ⟨hpos, -⟩ := h.counted o f hf
    exact leaves_put h hf rfl (fun hw => absurd (registered_iff.mpr ⟨f, hf, hw⟩) hno) hpos rfl

theorem collapse_leaves {t t' : Thread} {o : Nat} (h : t.Sound) (hp : t.pointers o ≠ 0)
    (ht : t.collapse o = some t') : Leaves t t' fun p => p = o := by
  obtain ⟨f, hf, ht⟩ := Option.bind_eq_some_iff.mp ht
  -- what is not watched need not be closed
  have hopen : t.Registered o → f.events ≠ 0 ∧ f.state = .integrated := by
    intro hreg
    obtain ⟨g, hg, hwatch⟩ := registered_iff.mp hreg
    obtain ⟨g', hg', -, -, hrest⟩ := h.watched _ _ hwatch
    rw [hf] at hg'
    cases hg'
    exact hrest
  have hunwatched : ∀ {u}, Leaves t u (fun _ => False) → ¬ t.Registered o →
      Leaves t u fun p => p = o := fun hu hno =>
    ⟨hu.sound, hu.next, fun p hlt => by
      rw [hu.registered p hlt, not_false_iff, and_true]
      exact ⟨fun hreg => ⟨hreg, fun hpo => hno (hpo ▸ hreg)⟩, And.left⟩⟩
  split at ht
  case isTrue hstate =>
    cases ht
    exact hunwatched (Leaves.refl h) fun hreg => hstate (hopen hreg).2
  case isFalse =>
    obtain ⟨u, hu, rfl⟩ := Option.map_eq_some_iff.mp ht
    split at hu
    case isTrue hevents =>
      cases hu
      have hno : ¬ t.Registered o := fun hreg => (hopen hreg).1 hevents
      exact hunwatched (setState_leaves h hno _) hno
    case isFalse =>
      have hclose := close_leaves h hp hu
      have hlt : o < t.next := by
        by_contra hge
        rw [h.fresh o (Nat.le_of_not_lt hge)] at hf
        cases hf
      have hno : ¬ u.Registered o := fun hreg => ((hclose.registered o hlt).mp hreg).2 rfl
      exact (hclose.trans (setState_leaves hclose.sound hno _)).congr fun p => by
        rw [or_false]

/-- A new object that is not watched yet. -/
theorem new_leaves {t : Thread} {fd : Int} (events : UInt32) (socket : Bool) {n : Nat}
    (h : t.Sound) (hunused : ∀ p f, t.fds p = some f → f.fd ≠ fd) (hpos : 0 < n) :
    Leaves t
      { t.put t.next (some ⟨fd, events, socket, .integrated, n, n⟩) with next := t.next + 1 }
      fun _ => False where
  sound :=
    { fresh := fun p hp =>
        (put_other (Nat.ne_of_gt hp)).trans (h.fresh p (Nat.le_of_succ_le hp))
      watched := fun d p hd => by
        obtain ⟨g, hg, hrest⟩ := h.watched d p hd
        have hlt : p < t.next := h.registered_lt (registered_iff.mpr ⟨g, hg, hrest.1 ▸ hd⟩)
        exact ⟨g, (put_other (Nat.ne_of_lt hlt)).trans hg, hrest⟩
      counted := fun p g hg => by
        rcases eq_or_ne p t.next with rfl | hne
        · cases (put_self t _ _).symm.trans hg
          have hno : t.interest fd ≠ some t.next := by
            intro hw
            obtain ⟨g, hg, -⟩ := h.watched _ _ hw
            rw [h.fresh _ (Nat.le_refl _)] at hg
            cases hg
          refine ⟨hpos, ?_⟩
          show n = n + if t.interest fd = some t.next then 1 else 0
          rw [if_neg hno]
          rfl
        · exact h.counted p g ((put_other hne).symm.trans hg)
      owned := fun p q g₁ g₂ hg₁ hg₂ heq hopen => by
        rcases eq_or_ne p t.next with rfl | hp <;> rcases eq_or_ne q t.next with rfl | hq
        · rfl
        · cases (put_self t _ _).symm.trans hg₁
          exact absurd heq.symm (hunused q g₂ ((put_other hq).symm.trans hg₂))
        · cases (put_self t _ _).symm.trans hg₂
          exact absurd heq (hunused p g₁ ((put_other hp).symm.trans hg₁))
        · exact h.owned p q g₁ g₂ ((put_other hp).symm.trans hg₁) ((put_other hq).symm.trans hg₂)
            heq hopen }
  next := Nat.le_succ _
  registered := fun p hp => by
    rw [not_false_iff, and_true, registered_iff, registered_iff]
    exact exists_congr fun g => and_congr_left fun _ =>
      Eq.congr_left (put_other (Nat.ne_of_lt hp))

/-- An unwatched object comes to be watched; nothing changes for the others. -/
theorem registerFd_sound {t t' : Thread} {o : Nat} {f : WereFd} (h : t.Sound)
    (hf : t.fds o = some f) (hopen : f.fd ≠ -1) (hevents : f.events ≠ 0)
    (hstate : f.state = .integrated) (ht : t.registerFd o = some t') :
    t'.Sound ∧ t'.next = t.next ∧ ∀ p, p ≠ o → (t'.Registered p ↔ t.Registered p) := by
  rw [registerFd, hf, Option.bind_some, Option.ite_none_left_eq_some, Option.some.injEq] at ht
  obtain ⟨hfree, rfl⟩ := ht
  have hfree : t.interest f.fd = none := not_not.mp hfree
  have hkeys : ∀ p g, p ≠ o → t.fds p = some g →
      (Function.update t.interest f.fd (some o) g.fd = some p ↔ t.interest g.fd = some p) := by
    intro p g hne hg
    by_cases hgf : g.fd = f.fd
    · exact absurd (h.owned p o g f hg hf hgf (hgf ▸ hopen)) hne
    · rw [Function.update_of_ne hgf]
  refine ⟨⟨fun p hp => ?_, fun d p hd => ?_, fun p g hg => ?_, fun p q g₁ g₂ hg₁ hg₂ => ?_⟩, rfl,
    fun p hne => ?_⟩
  · exact h.put_fresh hf _ p hp
  · have hupdated : Function.update t.interest f.fd (some o) d = some p := hd
    by_cases hdf : d = f.fd
    · subst hdf
      rw [Function.update_self] at hupdated
      cases hupdated
      exact ⟨_, put_self _ _ _, rfl, hopen, hevents, hstate⟩
    · rw [Function.update_of_ne hdf] at hupdated
      obtain ⟨g, hg, hgd, hrest⟩ := h.watched d p hupdated
      exact ⟨g, (put_other (h.watched_ne hf hupdated hdf)).trans hg, hgd, hrest⟩
  · show 0 < g.referenceCount ∧ g.referenceCount =
      g.pointers + if Function.update t.interest f.fd (some o) g.fd = some p then 1 else 0
    rcases eq_or_ne p o with rfl | hne
    · cases (put_self t p _).symm.trans hg
      have hcount := (h.counted p f hf).2
      rw [if_neg (by simp [hfree])] at hcount
      refine ⟨Nat.succ_pos _, ?_⟩
      rw [if_pos (Function.update_self _ _ _)]
      exact congrArg (· + 1) hcount
    · have hg : t.fds p = some g := (put_other hne).symm.trans hg
      have hold := h.counted p g hg
      simpa only [hkeys p g hne hg] using hold
  · refine h.put_owned hf (fun g hg _ => ?_) p q g₁ g₂ hg₁ hg₂
    cases hg
    rfl
  · rw [registered_iff, registered_iff]
    refine exists_congr fun g => ?_
    rw [show (t.put o (some { f with referenceCount := f.referenceCount + 1 })).fds p = t.fds p from
      put_other hne]
    exact and_congr_right fun hg => hkeys p g hne hg

theorem create_leaves {t t' : Thread} {fd : Int} {events : UInt32} {socket : Bool} (h : t.Sound)
    (ht : t.create fd events socket = some t') : Leaves t t' fun _ => False := by
  rw [create, Option.ite_none_left_eq_some, not_or] at ht
  obtain ⟨⟨hopen, hfree⟩, ht⟩ := ht
  have hunused : ∀ p f, t.fds p = some f → f.fd ≠ fd := by
    rintro p f hf rfl
    refine hfree ⟨p, ?_, by simp [hf]⟩
    by_contra hge
    rw [h.fresh p (Nat.le_of_not_lt hge)] at hf
    cases hf
  dsimp only at ht
  split at ht
  case isTrue =>
    cases ht
    exact new_leaves events socket h hunused (by decide)
  case isFalse hevents =>
    have hnew := new_leaves events socket h hunused (show 0 < 8 by decide)
    obtain ⟨hsound, hnext, hothers⟩ :=
      registerFd_sound hnew.sound (put_self _ _ _) hopen hevents rfl ht
    refine ⟨hsound, hnext ▸ hnew.next, fun p hp => ?_⟩
    rw [hothers p (Nat.ne_of_lt hp), hnew.registered p hp]

theorem perform_leaves {t t' : Thread} {a : Action} (h : t.Sound) (ht : t.perform a = some t') :
    Leaves t t' a.Closes := by
  cases a with
  | create fd events socket => exact (create_leaves h ht).congr fun p => by simp [Action.Closes]
  | close o =>
    obtain ⟨hp, ht⟩ := Option.ite_none_left_eq_some.mp ht
    exact (close_leaves h hp ht).congr fun p => by simp [Action.Closes, eq_comm]
  | disconnect o =>
    obtain ⟨hp, ht⟩ := Option.ite_none_left_eq_some.mp ht
    exact (disconnect_leaves h hp ht).congr fun p => by simp [Action.Closes, eq_comm]
  | collapse o =>
    obtain ⟨hp, ht⟩ := Option.ite_none_left_eq_some.mp ht
    exact (collapse_leaves h hp ht).congr fun p => by simp [Action.Closes, eq_comm]
  | copy o =>
    obtain ⟨-, ht⟩ := Option.ite_none_left_eq_some.mp ht
    exact (acquire_leaves h ht).congr fun p => by simp [Action.Closes]
  | drop o => exact (release_leaves h ht).congr fun p => by simp [Action.Closes]
  | throw => cases ht

theorem slots_leaves {t t' : Thread} {slots : List Action} (h : t.Sound)
    (ht : slots.foldlM perform t = some t') : Leaves t t' fun p => ∃ a ∈ slots, a.Closes p := by
  induction slots generalizing t with
  | nil =>
    cases ht
    exact (Leaves.refl h).congr fun p => by simp
  | cons a slots ih =>
    rw [List.foldlM_cons] at ht
    obtain ⟨u, hu, hrest⟩ := Option.bind_eq_some_iff.mp ht
    have hfirst := perform_leaves h hu
    exact (hfirst.trans (ih hfirst.sound hrest)).congr fun p => by simp

theorem event_leaves {t t' : Thread} {e : Entry} (h : t.Sound) (ht : t.event e = some t') :
    Leaves t t' e.Closes := by
  obtain ⟨f, -, ht⟩ := Option.bind_eq_some_iff.mp ht
  rw [Option.ite_none_left_eq_some] at ht
  obtain ⟨u, hu, ht⟩ := Option.bind_eq_some_iff.mp ht.2
  obtain ⟨v, hv, hw⟩ := Option.bind_eq_some_iff.mp ht
  have hheld := acquire_leaves h hu
  have hslots := slots_leaves hheld.sound hv
  exact ((hheld.trans hslots).trans (release_leaves hslots.sound hw)).congr fun p => by
    simp [Entry.Closes]

theorem events_leaves {t t' : Thread} {entries : List Entry} (h : t.Sound)
    (ht : entries.foldlM event t = some t') :
    Leaves t t' fun p => ∃ e ∈ entries, e.Closes p := by
  induction entries generalizing t with
  | nil =>
    cases ht
    exact (Leaves.refl h).congr fun p => by simp
  | cons e rest ih =>
    rw [List.foldlM_cons] at ht
    obtain ⟨u, hu, hrest⟩ := Option.bind_eq_some_iff.mp ht
    have hfirst := event_leaves h hu
    exact (hfirst.trans (ih hfirst.sound hrest)).congr fun p => by simp

/-- What the loop leaves is what its calls of `event_` leave, one after the other. -/
theorem processEvents_thread (t : Thread) (entries : List Entry) :
    (t.processEvents entries).2 = entries.foldlM event t := by
  induction entries generalizing t with
  | nil => rfl
  | cons e rest ih =>
    rw [processEvents, List.foldlM_cons]
    cases t.event e with
    | none => rfl
    | some u => exact ih u

/-- Every thread that a program reaches is sound. -/
theorem Reaches.sound {as : List Label} {t : Thread} (h : machine.Reaches as t) : t.Sound := by
  refine Machine.invariant (M := machine) ?_ ?_ h
  · rintro t rfl
    exact ⟨fun _ _ => rfl, fun _ _ hd => (nomatch hd), fun _ _ hf => (nomatch hf),
      fun _ _ _ _ hf => (nomatch hf)⟩
  · intro t a t' hs hstep
    cases a with
    | act a => exact (perform_leaves hs hstep).sound
    | batch entries =>
      obtain ⟨b, rfl, ht⟩ := hstep
      rw [processEvents_thread] at ht
      exact (events_leaves hs ht).sound

/-! ## Which calls find their object registered -/

/-- The object of the call is registered, and its thread holds a reference to it. -/
def Call.Good (c : Call) : Prop := c.registered = true ∧ c.referenced = true

instance (c : Call) : Decidable c.Good := inferInstanceAs (Decidable (_ ∧ _))

/-- No slot closes an object with an event still to come, unless an exception ends the
loop before its turn. -/
def NoneClosedEarly (t : Thread) (entries : List Entry) : Prop :=
  ∀ before e between e' after, entries = before ++ e :: (between ++ e' :: after) →
    (before ++ e :: between).foldlM event t ≠ none → ¬ e.Closes e'.object

theorem call_good_iff {t : Thread} {o : Nat} (h : t.Sound) :
    (⟨o, t.Registered o, t.Referenced o⟩ : Call).Good ↔ t.Registered o := by
  rw [Call.Good, decide_eq_true_iff, decide_eq_true_iff]
  exact ⟨And.left, fun ho => ⟨ho, h.referenced ho⟩⟩

/-- The calls are those of the entries before whose turn no exception came, each made on
the thread that the entries before it left. -/
theorem forall_calls_iff {t : Thread} {entries : List Entry} (h : t.Sound) :
    (∀ c ∈ (t.processEvents entries).1, c.Good) ↔
      ∀ before e after u, entries = before ++ e :: after →
        before.foldlM event t = some u → u.Registered e.object := by
  induction entries generalizing t with
  | nil =>
    refine ⟨fun _ before e after u heq => ?_, fun _ c hc => absurd hc List.not_mem_nil⟩
    simp at heq
  | cons e₀ rest ih =>
    have hfirst : (∀ before e after u, e₀ :: rest = before ++ e :: after →
        before.foldlM event t = some u → u.Registered e.object) ↔
        t.Registered e₀.object ∧ ∀ v, t.event e₀ = some v →
          ∀ before e after u, rest = before ++ e :: after →
            before.foldlM event v = some u → u.Registered e.object := by
      constructor
      · intro hall
        refine ⟨hall [] e₀ rest t rfl rfl, fun v hv before e after u heq hu => ?_⟩
        exact hall (e₀ :: before) e after u (by rw [heq, List.cons_append])
          (by rw [List.foldlM_cons, hv]; exact hu)
      · rintro ⟨hreg, hrest⟩ before e after u heq hu
        cases before with
        | nil =>
          cases heq
          cases hu
          exact hreg
        | cons b before =>
          cases heq
          rw [List.foldlM_cons] at hu
          obtain ⟨v, hv, hu⟩ := Option.bind_eq_some_iff.mp hu
          exact hrest v hv before e after u rfl hu
    rw [hfirst, processEvents]
    cases hv : t.event e₀ with
    | none => simp [call_good_iff h]
    | some v => simp [call_good_iff h, ih (event_leaves h hv).sound]

/-- `process_events` calls `event_` on registered objects only exactly if none of its slots
closes an object whose event is still to come. -/
theorem calls_registered_iff {as : List Label} {t : Thread} (h : machine.Reaches as t)
    (b : Batch t) :
    (∀ c ∈ (t.processEvents b.entries).1, c.Good) ↔ t.NoneClosedEarly b.entries := by
  have hsound := Reaches.sound h
  rw [forall_calls_iff hsound]
  constructor
  · intro hall before e between e' after heq hdone hcloses
    obtain ⟨u, hu⟩ := Option.ne_none_iff_exists'.mp hdone
    have hleaves := events_leaves hsound hu
    have hlt := hsound.registered_lt (b.ready e' (by simp [heq]))
    have hreg := hall (before ++ e :: between) e' after u (by simp [heq]) hu
    exact ((hleaves.registered _ hlt).mp hreg).2 ⟨e, by simp, hcloses⟩
  · intro hnone before e after u heq hu
    have hready := b.ready e (by simp [heq])
    refine ((events_leaves hsound hu).registered _ (hsound.registered_lt hready)).mpr
      ⟨hready, ?_⟩
    rintro ⟨e₀, he₀, hcloses⟩
    obtain ⟨first, between, rfl⟩ := List.append_of_mem he₀
    exact hnone first e₀ between e after (by simp [heq]) (by rw [hu]; nofun) hcloses

/-- A thread that watches the descriptor `3`. -/
def oneWatched : Thread := (empty.create 3 epollIn false).get (by decide)

/-- A thread that watches the descriptors `3` and `4`. -/
def twoWatched : Thread := (oneWatched.create 4 epollIn false).get (by decide)

theorem twoWatched_reached :
    machine.Reaches [.act (.create 3 epollIn false), .act (.create 4 epollIn false)]
      twoWatched := by
  have hempty : machine.Reaches [] empty := Machine.Reaches.start rfl
  have hfirst : machine.step empty (.act (.create 3 epollIn false)) oneWatched :=
    (Option.some_get _).symm
  have hsecond : machine.step oneWatched (.act (.create 4 epollIn false)) twoWatched :=
    (Option.some_get _).symm
  exact (hempty.next hfirst).next hsecond

/-- Both descriptors can be read, and the slot of the first collapses the object of the
second and drops the pointers to it. -/
def closing : Batch twoWatched where
  entries := [⟨0, epollIn, .collapse 1 :: List.replicate 8 (.drop 1)⟩, ⟨1, epollIn, []⟩]
  size := by decide
  distinct := by decide
  ready := by decide

theorem twoWatched_calls_iff :
    machine.Reaches [.act (.create 3 epollIn false), .act (.create 4 epollIn false)] twoWatched ∧
      ((∀ c ∈ (twoWatched.processEvents closing.entries).1, c.Good) ↔
        twoWatched.NoneClosedEarly closing.entries) :=
  ⟨twoWatched_reached, calls_registered_iff twoWatched_reached closing⟩

/-- The second call finds the object gone. -/
theorem calls_freed :
    ¬ ∀ as t, machine.Reaches as t → ∀ b : Batch t,
      ∀ c ∈ (t.processEvents b.entries).1, c.Good := by
  intro h
  have hlast : (⟨1, false, false⟩ : Call) ∈ (twoWatched.processEvents closing.entries).1 := by
    decide
  exact absurd (h _ _ twoWatched_reached closing _ hlast).1 (by decide)

end Thread

end SparkleWayland

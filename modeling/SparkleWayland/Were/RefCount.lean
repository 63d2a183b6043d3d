import SparkleWayland.Lib.Machine
import Mathlib.Algebra.BigOperators.Group.Finset.Piecewise
import Mathlib.Algebra.Order.BigOperators.Group.Finset
import Mathlib.Data.Fintype.Card

/-!
# Counting references from several threads (`were/were_capability_rc_simple.cpp`)

`unreference` decrements the counter and then loads it again to compare it with
zero: two atomic steps, between which any other thread may step. When the last
two references are dropped that way, both threads load zero. A complete run
deletes the object exactly once if and only if the thread that brings the counter
to zero is the only one between its decrement and its load
(`deletedOnce_iff`).
-/

namespace SparkleWayland

/-- The counter of one object, as the threads `ι` use it. `owned` are the references
a thread holds, `pending` the threads between the decrement and the load of an
`unreference`. `late` records a step on the counter after `delete this`. -/
structure RefCount (ι : Type) where
  count : Int
  owned : ι → Nat
  pending : Finset ι
  deletes : Nat
  late : Bool

namespace RefCount

/-- The atomic steps: `reference`, and the two halves of `unreference`. -/
inductive Label (ι : Type)
  | reference (t : ι)
  | decrement (t : ι)
  | load (t : ι)
  deriving DecidableEq

variable {ι : Type} [DecidableEq ι]

/-- A step touches the counter; after a deletion it comes too late. -/
def touch (s : RefCount ι) : RefCount ι := { s with late := s.late || decide (0 < s.deletes) }

/-- The atomic steps of the threads. A thread uses the references it holds, one
operation after the other. -/
def step (s : RefCount ι) : Label ι → Option (RefCount ι)
  | .reference t =>
    if 0 < s.owned t ∧ t ∉ s.pending then
      some { s.touch with
        count := s.count + 1, owned := Function.update s.owned t (s.owned t + 1) }
    else none
  | .decrement t =>
    if 0 < s.owned t ∧ t ∉ s.pending then
      some { s.touch with
        count := s.count - 1
        owned := Function.update s.owned t (s.owned t - 1)
        pending := insert t s.pending }
    else none
  | .load t =>
    if t ∈ s.pending then
      some { s.touch with
        pending := s.pending.erase t
        deletes := if s.count = 0 then s.deletes + 1 else s.deletes }
    else none

variable [Fintype ι]

/-- The object is alive and every reference is held by some thread. -/
def machine (ι : Type) [DecidableEq ι] [Fintype ι] : Machine (RefCount ι) (Label ι) :=
  Machine.ofStep
    (fun s => ∃ owned : ι → Nat, 0 < ∑ t, owned t ∧
      s = ⟨((∑ t, owned t : Nat) : Int), owned, ∅, 0, false⟩) step

/-- All references are dropped and all operations finished. -/
def Complete (s : RefCount ι) : Prop := (∀ t, s.owned t = 0) ∧ s.pending = ∅

/-- `delete this` ran exactly once, and no step on the counter came after it. -/
def DeletedOnce (s : RefCount ι) : Prop := s.deletes = 1 ∧ s.late = false

/-- The decrement that brings the counter to zero happens while no other thread is
between its decrement and its load. -/
def LastAlone (s : RefCount ι) : Label ι → Prop
  | .decrement _ => s.count = 1 → s.pending = ∅
  | _ => True

/-! ## What holds in every run -/

/-- The counter counts the references held; nothing is deleted while there are any,
and once there are none every thread between its two steps will delete. -/
structure Counts (s : RefCount ι) : Prop where
  count : s.count = ((∑ t, s.owned t : Nat) : Int)
  alive : 0 < s.count → s.deletes = 0 ∧ s.late = false
  once : s.count = 0 → s.deletes + s.pending.card = 1 → s.late = false

theorem sum_update (owned : ι → Nat) (t : ι) (k : Nat) :
    ∑ u, Function.update owned t k u + owned t = ∑ u, owned u + k := by
  have hsplit := Finset.sum_update_of_mem (Finset.mem_univ t) owned k
  have hself := Finset.sum_update_of_mem (Finset.mem_univ t) owned (owned t)
  rw [Function.update_eq_self] at hself
  omega

omit [DecidableEq ι] in
theorem owned_le_sum (owned : ι → Nat) (t : ι) : owned t ≤ ∑ u, owned u :=
  Finset.single_le_sum (fun _ _ => Nat.zero_le _) (Finset.mem_univ t)

/-- Everything one step can do to the counter of a sound state. -/
theorem step_cases {s s' : RefCount ι} {a : Label ι} (h : s.Counts) (hstep : s.step a = some s') :
    (∃ t, a = .reference t ∧ 0 < s.count ∧ s'.count = s.count + 1 ∧ s'.deletes = 0 ∧
      s'.late = false) ∨
    (∃ t, a = .decrement t ∧ t ∉ s.pending ∧ 0 < s.count ∧ s'.count = s.count - 1 ∧
      s'.pending = insert t s.pending ∧ s'.deletes = 0 ∧ s'.late = false) ∨
    (∃ t, a = .load t ∧ t ∈ s.pending ∧ s'.count = s.count ∧ s'.pending = s.pending.erase t ∧
      s'.deletes = (if s.count = 0 then s.deletes + 1 else s.deletes) ∧
      s'.late = (s.late || decide (0 < s.deletes))) := by
  have hcount := h.count
  cases a with
  | reference t =>
    simp only [step, Option.ite_none_right_eq_some, Option.some.injEq] at hstep
    obtain ⟨⟨hown, -⟩, rfl⟩ := hstep
    have hle := owned_le_sum s.owned t
    obtain ⟨hdel, hlate⟩ := h.alive (by omega)
    exact Or.inl ⟨t, rfl, by omega, rfl, hdel, by simp [touch, hdel, hlate]⟩
  | decrement t =>
    simp only [step, Option.ite_none_right_eq_some, Option.some.injEq] at hstep
    obtain ⟨⟨hown, hidle⟩, rfl⟩ := hstep
    have hle := owned_le_sum s.owned t
    obtain ⟨hdel, hlate⟩ := h.alive (by omega)
    exact Or.inr (Or.inl ⟨t, rfl, hidle, by omega, rfl, rfl, hdel, by simp [touch, hdel, hlate]⟩)
  | load t =>
    simp only [step, Option.ite_none_right_eq_some, Option.some.injEq] at hstep
    obtain ⟨hpending, rfl⟩ := hstep
    exact Or.inr (Or.inr ⟨t, rfl, hpending, rfl, rfl, rfl, rfl⟩)

/-- The counter goes on counting the references held. -/
theorem step_count {s s' : RefCount ι} {a : Label ι} (h : s.Counts) (hstep : s.step a = some s') :
    s'.count = ((∑ t, s'.owned t : Nat) : Int) := by
  have hcount := h.count
  cases a with
  | reference t =>
    simp only [step, Option.ite_none_right_eq_some, Option.some.injEq] at hstep
    obtain ⟨-, rfl⟩ := hstep
    have hsum := sum_update s.owned t (s.owned t + 1)
    dsimp only
    omega
  | decrement t =>
    simp only [step, Option.ite_none_right_eq_some, Option.some.injEq] at hstep
    obtain ⟨⟨hown, -⟩, rfl⟩ := hstep
    have hsum := sum_update s.owned t (s.owned t - 1)
    dsimp only
    omega
  | load t =>
    simp only [step, Option.ite_none_right_eq_some, Option.some.injEq] at hstep
    obtain ⟨-, rfl⟩ := hstep
    exact hcount

/-- Deletions made and still to come, once no reference is left. -/
def due (s : RefCount ι) : Nat := s.deletes + s.pending.card

theorem step_counts {s s' : RefCount ι} {a : Label ι} (h : s.Counts) (hstep : s.step a = some s') :
    s'.Counts := by
  refine ⟨step_count h hstep, fun hpos => ?_, fun hzero hdue => ?_⟩
  · rcases step_cases h hstep with ⟨t, -, -, -, hd, hl⟩ | ⟨t, -, -, -, -, -, hd, hl⟩ |
      ⟨t, -, -, hc, -, hd, hl⟩
    · exact ⟨hd, hl⟩
    · exact ⟨hd, hl⟩
    · obtain ⟨hdel, hlate⟩ := h.alive (hc ▸ hpos)
      rw [hc] at hpos
      rw [hd, hl, if_neg (by omega), hdel, hlate]
      exact ⟨rfl, rfl⟩
  · rcases step_cases h hstep with ⟨t, -, hc, hc', -⟩ | ⟨t, -, -, -, -, -, -, hl⟩ |
      ⟨t, -, hmem, hc, hp, hd, hl⟩
    · omega
    · exact hl
    · have hcard := Finset.card_erase_add_one hmem
      rw [hc] at hzero
      rw [hp, hd, if_pos hzero] at hdue
      have hnone : s.deletes = 0 := by omega
      rw [hl, hnone, h.once hzero (by omega)]
      rfl

theorem start_counts {s : RefCount ι} (h : (machine ι).start s) : s.Counts ∧ 0 < s.count := by
  obtain ⟨owned, hpos, rfl⟩ := h
  exact ⟨⟨rfl, fun _ => ⟨rfl, rfl⟩, fun _ _ => rfl⟩, by dsimp only; omega⟩

/-! ## Deleting once -/

/-- Exactly one deletion is due as soon as no reference is left. -/
def OneDue (s : RefCount ι) : Prop := s.count = 0 → s.due = 1

/-- A step leaves exactly one deletion due if and only if there was none too many
before it and the step was no last decrement beside another thread. -/
theorem oneDue_step {s s' : RefCount ι} {a : Label ι} (h : s.Counts)
    (hstep : s.step a = some s') : s'.OneDue ↔ s.OneDue ∧ s.LastAlone a := by
  unfold OneDue due
  rcases step_cases h hstep with ⟨t, rfl, hpos, hc, -⟩ | ⟨t, rfl, hno, hpos, hc, hp, hd, -⟩ |
    ⟨t, rfl, hmem, hc, hp, hd, -⟩
  · exact iff_of_true (fun h0 => by omega) ⟨fun h0 => by omega, trivial⟩
  · rw [hd, hp, Finset.card_insert_of_notMem hno, Nat.zero_add, hc]
    constructor
    · intro hdue
      refine ⟨fun h0 => by omega, fun hone => Finset.card_eq_zero.mp ?_⟩
      have := hdue (by omega)
      omega
    · rintro ⟨-, halone⟩ hzero
      rw [halone (by omega), Finset.card_empty]
  · have hcard := Finset.card_erase_add_one hmem
    rw [hp, hc, hd]
    constructor
    · intro hdue
      refine ⟨fun hzero => ?_, trivial⟩
      have := hdue hzero
      rw [if_pos hzero] at this
      omega
    · rintro ⟨hdue, -⟩ hzero
      have := hdue hzero
      rw [if_pos hzero]
      omega

/-- The runs that leave one deletion due are those that make every last decrement
alone. -/
theorem reaches_oneDue_iff {as : List (Label ι)} {s : RefCount ι} :
    (machine ι).Reaches as s ∧ s.OneDue ↔ ((machine ι).guarded LastAlone).Reaches as s := by
  refine Machine.reaches_guarded_iff (I := Counts) (fun s hstart => ?_)
    (fun _ _ _ hs hst => step_counts hs hst) fun _ _ _ hs hst => oneDue_step hs hst
  obtain ⟨hs, hpos⟩ := start_counts hstart
  exact ⟨hs, fun hzero => absurd hzero (by omega)⟩

omit [DecidableEq ι] in
/-- In a complete state every deletion that was due was made. -/
theorem Complete.deletedOnce_iff {s : RefCount ι} (h : s.Complete) (hs : s.Counts) :
    s.DeletedOnce ↔ s.OneDue := by
  have hzero : s.count = 0 := by
    rw [hs.count, Finset.sum_eq_zero fun t _ => h.1 t]
    rfl
  have hdue : s.due = s.deletes := by rw [due, h.2, Finset.card_empty, Nat.add_zero]
  constructor
  · rintro ⟨hone, -⟩ -
    exact hdue.trans hone
  · intro hone
    have := hone hzero
    exact ⟨hdue ▸ this, hs.once hzero this⟩

/-- **Deletion**: a complete run deletes the object exactly once, and touches the
counter no more, if and only if every decrement to zero was made alone. -/
theorem complete_deletedOnce_iff (as : List (Label ι)) (s : RefCount ι) :
    ((machine ι).Reaches as s ∧ s.Complete ∧ s.DeletedOnce) ↔
      ((machine ι).guarded LastAlone).Reaches as s ∧ s.Complete := by
  have hcounts : (machine ι).Reaches as s → s.Counts := fun hreach =>
    Machine.invariant (I := Counts) (fun _ hstart => (start_counts hstart).1)
      (fun _ _ _ hs hst => step_counts hs hst) hreach
  rw [← reaches_oneDue_iff]
  constructor
  · rintro ⟨hreach, hcomplete, honce⟩
    exact ⟨⟨hreach, (hcomplete.deletedOnce_iff (hcounts hreach)).mp honce⟩, hcomplete⟩
  · rintro ⟨⟨hreach, hdue⟩, hcomplete⟩
    exact ⟨hreach, hcomplete, (hcomplete.deletedOnce_iff (hcounts hreach)).mpr hdue⟩

/-- Two threads drop the last two references, and both load zero. -/
theorem deleted_twice :
    ∃ s, (machine (Fin 2)).Reaches [.decrement 0, .decrement 1, .load 0, .load 1] s ∧
      s.Complete ∧ s.deletes = 2 ∧ s.late = true := by
  have hrun : (List.foldlM step (⟨2, fun _ => 1, ∅, 0, false⟩ : RefCount (Fin 2))
      [.decrement 0, .decrement 1, .load 0, .load 1]).map
        (fun s => (s.owned 0, s.owned 1, s.pending, s.deletes, s.late)) =
      some (0, 0, ∅, 2, true) := by
    decide
  obtain ⟨s, hs, heq⟩ := Option.map_eq_some_iff.mp hrun
  simp only [Prod.mk.injEq] at heq
  obtain ⟨h0, h1, hp, hd, hl⟩ := heq
  refine ⟨s, ⟨_, ⟨fun _ => 1, by decide, rfl⟩, Machine.Path.of_run hs⟩, ⟨?_, hp⟩, hd, hl⟩
  exact Fin.forall_fin_two.mpr ⟨h0, h1⟩

end RefCount

end SparkleWayland

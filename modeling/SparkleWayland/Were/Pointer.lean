import SparkleWayland.Lib.Machine
import Mathlib.Data.List.Count
import Mathlib.Logic.Function.Basic

/-!
# Reference-counted pointers (`were/were_pointer.h`)

Programs over `were_pointer` variables and `were_pointer` members of counted
objects. Dropping a reference may delete an object, which drops the references in
its members, and so on: `dropRefs` works that cascade off. Assignment drops the
old reference before it reads and references the new one, so that it goes wrong
when the cascade takes the new object, or the object the new pointer is stored
in, with it (`Assignable`). Everything else keeps the counters equal to the
number of references and deletes an object as soon as that is zero.
-/

namespace SparkleWayland

/-- Where a `were_pointer` lives: in a variable, or in member `m` of object `o`. -/
inductive Place
  | var (v : Nat)
  | member (o m : Nat)
  deriving DecidableEq, Repr

/-- The object a place is part of. -/
def Place.object : Place → Option Nat
  | .var _ => none
  | .member o _ => some o

/-- The pointers that exist and the objects they refer to, in the order of their
construction; the objects with their `reference_count`; and, for every object, the
explicit increments not yet matched by a decrement. -/
structure Heap where
  cells : List (Place × Nat)
  live : Nat → Bool
  count : Nat → Int
  extra : Nat → Nat

namespace Heap

/-! ## The operations -/

/-- The object a pointer refers to. -/
def target (s : Heap) (p : Place) : Option Nat :=
  (s.cells.find? fun c => decide (c.1 = p)).map Prod.snd

/-- The place is part of an object that was deleted. -/
def gone (s : Heap) : Place → Bool
  | .var _ => false
  | .member o _ => !s.live o

/-- `reference`, on an object that still exists. -/
def reference (s : Heap) (o : Nat) : Option Heap :=
  if s.live o then some { s with count := Function.update s.count o (s.count o + 1) } else none

/-- `reference_count_--`. -/
def countDown (s : Heap) (o : Nat) : Heap :=
  { s with count := Function.update s.count o (s.count o - 1) }

/-- The pointers of an object run their destructors when it is deleted. -/
def membersOf (s : Heap) (o : Nat) : List (Place × Nat) :=
  s.cells.filter fun c => decide (c.1.object = some o)

/-- `delete this`: the object and the pointers in it are no more. -/
def delete (s : Heap) (o : Nat) : Heap :=
  { s with
    cells := s.cells.filter fun c => !decide (c.1.object = some o)
    live := Function.update s.live o false }

/-- `unreference` for each object of a list, one after the other. The members of an
object that is deleted are destroyed, last one first, before the rest of the list.
Every call uses up a reference, so that as many calls as there are references are
enough. -/
def dropRefs : Nat → List Nat → Heap → Option Heap
  | _, [], s => some s
  | 0, _ :: _, _ => none
  | fuel + 1, o :: rest, s =>
    if s.live o then
      let s := s.countDown o
      if s.count o = 0 then
        dropRefs fuel (((s.membersOf o).map Prod.snd).reverse ++ rest) (s.delete o)
      else dropRefs fuel rest s
    else none

/-- `unreference`. -/
def unreference (s : Heap) (o : Nat) : Option Heap := dropRefs (s.cells.length + 1) [o] s

/-- The pointer at `p` is taken out, without dropping its reference. -/
def remove (s : Heap) (p : Place) : Heap :=
  { s with cells := s.cells.filter fun c => !decide (c.1 = p) }

/-- The copy constructor: the pointer at `p` is made to refer to `o`. -/
def construct (s : Heap) (p : Place) (o : Nat) : Option Heap := do
  let s ← s.reference o
  return { s with cells := s.cells ++ [(p, o)] }

/-- `operator=`: the old object is unreferenced, then the other pointer is read, then
its object is referenced. While the old object is unreferenced the pointer at `p`
does not count; its memory keeps the old value. -/
def assign (s : Heap) (p q : Place) : Option Heap := do
  let old ← s.target p
  let s ← (s.remove p).unreference old
  if s.gone p then none
  else
    let new ← if q = p then some old else s.target q
    s.construct p new

/-- The members of a new object are copies of existing pointers. -/
def constructMembers (s : Heap) (o : Nat) : List (Nat × Place) → Option Heap
  | [] => some s
  | (m, q) :: rest => do
    let t ← s.target q
    let s ← s.construct (.member o m) t
    s.constructMembers o rest

/-- A new object, not referenced yet. -/
def allocate (s : Heap) (o : Nat) : Heap :=
  { s with
    live := Function.update s.live o true
    count := Function.update s.count o 0
    extra := Function.update s.extra o 0 }

/-- `were_new` into a new pointer at `p`: the object and its members are constructed,
and the object is kept by a reference of its own until the result refers to it. -/
def wereNew (s : Heap) (p : Place) (o : Nat) (members : List (Nat × Place)) : Option Heap := do
  let s ← (s.allocate o).constructMembers o members
  let s ← s.reference o
  let s ← s.construct p o
  s.unreference o

/-- What a program can do. -/
inductive Op
  | wereNew (p : Place) (o : Nat) (members : List (Nat × Place))
  | copy (p q : Place)
  | assign (p q : Place)
  | destroy (p : Place)
  | increment (p : Place)
  | decrement (p : Place)

/-- The effect of an operation, if it does not touch what is deleted. -/
def exec (s : Heap) : Op → Option Heap
  | .wereNew p o members => s.wereNew p o members
  | .copy p q => do
    let t ← s.target q
    s.construct p t
  | .assign p q => s.assign p q
  | .destroy p => do
    let t ← s.target p
    (s.remove p).unreference t
  | .increment p => do
    let t ← s.target p
    let s ← s.reference t
    return { s with extra := Function.update s.extra t (s.extra t + 1) }
  | .decrement p => do
    let t ← s.target p
    { s with extra := Function.update s.extra t (s.extra t - 1) }.unreference t

/-! ## Counting references -/

/-- The pointers that refer to an object, and its outstanding explicit increments. -/
def refs (s : Heap) (o : Nat) : Nat :=
  s.cells.countP (fun c => decide (c.2 = o)) + s.extra o

/-- The state in the middle of a cascade, with the references `pending` still to be
dropped: counters are right, and an object exists as long as it is referenced. -/
structure Counted (s : Heap) (pending : List Nat) : Prop where
  nodup : (s.cells.map Prod.fst).Nodup
  inside : ∀ c ∈ s.cells, s.gone c.1 = false
  count : ∀ o, s.live o = true → s.count o = (s.refs o + pending.count o : Nat)
  live : ∀ o, s.live o = true ↔ 0 < s.refs o + pending.count o

/-- All references to the object come from objects that are doomed themselves. -/
inductive Doomed (s : Heap) : Nat → Prop
  | intro {o : Nat} (extra : s.extra o = 0) (var : ∀ v, (Place.var v, o) ∉ s.cells)
      (member : ∀ o' m, (Place.member o' m, o) ∈ s.cells → Doomed s o') : Doomed s o

/-- What dropping references leaves behind. -/
structure Dropped (s s' : Heap) : Prop where
  cells : s'.cells = s.cells.filter fun c => !s'.gone c.1
  extra : s'.extra = s.extra
  live : ∀ o, s'.live o = true → s.live o = true
  doomed : ∀ o, s.live o = true → s'.live o = false → s.Doomed o

section Cascade

variable {s : Heap} {o : Nat}

/-- The references of the pointers inside an object are what its deletion drops. -/
theorem refs_delete (s : Heap) (o x : Nat) :
    (s.delete o).refs x + (((s.membersOf o).map Prod.snd).reverse).count x = s.refs x := by
  have hsplit := List.countP_eq_countP_filter_add s.cells (fun c => decide (c.2 = x))
    fun c => decide (c.1.object = some o)
  have hcount : (((s.membersOf o).map Prod.snd).reverse).count x =
      (s.membersOf o).countP fun c => decide (c.2 = x) := by
    rw [List.count_reverse, List.count, List.countP_map]
    rfl
  rw [hcount, refs, refs, hsplit]
  change _ + s.extra x + _ = _ + _ + s.extra x
  rw [Nat.add_right_comm, Nat.add_comm ((s.delete o).cells.countP _)]
  rfl

theorem length_delete (s : Heap) (o : Nat) :
    (s.membersOf o).length + (s.delete o).cells.length = s.cells.length := by
  have := List.length_eq_length_filter_add (l := s.cells) fun c => decide (c.1.object = some o)
  exact this.symm

/-- An object without a reference has no pointer that refers to it. -/
theorem not_mem_of_refs_eq_zero (h : s.refs o = 0) (p : Place) : (p, o) ∉ s.cells := by
  intro hmem
  have hpos : 0 < s.cells.countP fun c => decide (c.2 = o) :=
    List.countP_pos_iff.mpr ⟨_, hmem, decide_eq_true rfl⟩
  rw [refs] at h
  omega

/-- An object without a reference is doomed. -/
theorem doomed_of_refs_eq_zero (h : s.refs o = 0) : s.Doomed o := by
  have hextra : s.extra o = 0 := by
    rw [refs] at h
    omega
  exact .intro hextra (fun v => not_mem_of_refs_eq_zero h _)
    fun o' m hmem => absurd hmem (not_mem_of_refs_eq_zero h _)

@[simp] theorem countDown_count_self (s : Heap) (o : Nat) :
    (s.countDown o).count o = s.count o - 1 := Function.update_self ..

theorem countDown_count_of_ne {x : Nat} (h : x ≠ o) : (s.countDown o).count x = s.count x :=
  Function.update_of_ne h ..

/-- Dropping a reference that is not the last one. -/
theorem Counted.countDown {rest : List Nat} (h : s.Counted (o :: rest))
    (hne : s.count o - 1 ≠ 0) : (s.countDown o).Counted rest := by
  have hlive : s.live o = true := (h.live o).mpr (by rw [List.count_cons_self]; omega)
  have hcount := h.count o hlive
  rw [List.count_cons_self] at hcount
  refine ⟨h.nodup, h.inside, fun x hx => ?_, fun x => ?_⟩
  · change _ = ((s.refs x + rest.count x : Nat) : Int)
    by_cases hxo : x = o
    · rw [hxo, countDown_count_self]
      omega
    · rw [countDown_count_of_ne hxo, h.count x hx, List.count_cons_of_ne (Ne.symm hxo)]
  · change s.live x = true ↔ 0 < s.refs x + rest.count x
    by_cases hxo : x = o
    · rw [hxo]
      exact iff_of_true hlive (by omega)
    · rw [h.live x, List.count_cons_of_ne (Ne.symm hxo)]

/-- Dropping the last reference deletes the object, and the references of its
members are dropped next. -/
theorem Counted.delete {rest : List Nat} (h : s.Counted (o :: rest))
    (hzero : s.count o - 1 = 0) :
    ((s.countDown o).delete o).Counted (((s.membersOf o).map Prod.snd).reverse ++ rest) := by
  have hlive : s.live o = true := (h.live o).mpr (by rw [List.count_cons_self]; omega)
  have hcount := h.count o hlive
  rw [List.count_cons_self] at hcount
  have hrefs : ∀ x, ((s.countDown o).delete o).refs x +
      (((s.membersOf o).map Prod.snd).reverse ++ rest).count x = s.refs x + rest.count x := by
    intro x
    have := refs_delete s o x
    rw [List.count_append]
    change (s.delete o).refs x + _ = _
    omega
  refine ⟨?_, ?_, fun x hx => ?_, fun x => ?_⟩
  · exact h.nodup.sublist (List.filter_sublist.map _)
  · rintro ⟨p, t⟩ hmem
    obtain ⟨hmem, hp⟩ := List.mem_filter.mp hmem
    have hin := h.inside _ hmem
    rcases p with v | ⟨o', m⟩
    · rfl
    · have hne : o' ≠ o := by simpa [Place.object] using hp
      change (!Function.update s.live o false o') = false
      rw [Function.update_of_ne hne]
      exact hin
  · change Function.update s.live o false x = true at hx
    have hxo : x ≠ o := by
      rintro rfl
      rw [Function.update_self] at hx
      cases hx
    rw [Function.update_of_ne hxo] at hx
    rw [hrefs, ← List.count_cons_of_ne (Ne.symm hxo), ← h.count x hx]
    exact countDown_count_of_ne hxo
  · rw [hrefs]
    change Function.update s.live o false x = true ↔ _
    by_cases hxo : x = o
    · rw [hxo, Function.update_self]
      exact iff_of_false Bool.false_ne_true (by omega)
    · rw [Function.update_of_ne hxo, h.live x, List.count_cons_of_ne (Ne.symm hxo)]

/-- Counters play no part in what is doomed. -/
theorem Doomed.of_countDown {x : Nat} (h : (s.countDown o).Doomed x) : s.Doomed x := by
  induction h with
  | intro extra var _ ih => exact .intro extra var ih

/-- What is doomed once an unreferenced object was deleted was doomed before. -/
theorem Doomed.of_delete {x : Nat} (h : ((s.countDown o).delete o).Doomed x)
    (ho : s.Doomed o) : s.Doomed x := by
  induction h with
  | intro extra var member ih =>
    refine .intro extra (fun v hmem => var v ?_) fun o' m hmem => ?_
    · exact List.mem_filter.mpr ⟨hmem, rfl⟩
    · by_cases ho' : o' = o
      · exact ho' ▸ ho
      · exact ih o' m (List.mem_filter.mpr ⟨hmem, by simp [Place.object, ho']⟩)

/-- Changing counters only, nothing was deleted. -/
theorem Counted.dropped_self {pending : List Nat} (h : s.Counted pending) : s.Dropped s where
  cells := (List.filter_eq_self.mpr fun c hc => by rw [h.inside c hc]; rfl).symm
  extra := rfl
  live _ ho := ho
  doomed _ ho ho' := absurd (ho.symm.trans ho') (by decide)

/-- A cascade that goes on after deleting one object. -/
theorem Dropped.of_delete {s' : Heap} (h : ((s.countDown o).delete o).Dropped s')
    (ho : s.Doomed o) : s.Dropped s' := by
  have hself : ((s.countDown o).delete o).live o = false := Function.update_self ..
  have hother : ∀ x, x ≠ o → ((s.countDown o).delete o).live x = s.live x :=
    fun x hx => Function.update_of_ne hx ..
  have hgone : s'.live o = false := by
    rw [← Bool.not_eq_true]
    intro hlive
    rw [h.live o hlive] at hself
    cases hself
  refine ⟨?_, h.extra, fun x hx => ?_, fun x hx hx' => ?_⟩
  · rw [h.cells]
    change (s.cells.filter _).filter _ = _
    rw [List.filter_filter]
    refine List.filter_congr fun c _ => ?_
    rcases c with ⟨v | ⟨o', m⟩, t⟩
    · rfl
    · by_cases ho' : o' = o
      · simp [gone, Place.object, ho', hgone]
      · simp [gone, Place.object, ho']
  · have hxo : x ≠ o := by
      rintro rfl
      rw [hgone] at hx
      cases hx
    rw [← hother x hxo]
    exact h.live x hx
  · by_cases hxo : x = o
    · exact hxo ▸ ho
    · exact (h.doomed x ((hother x hxo).trans hx) hx').of_delete ho

/-- **Cascade**: dropping references terminates without touching anything deleted,
keeps the counters right, and deletes doomed objects only. The induction is on the
references left, which every call uses one of. -/
theorem dropRefs_spec (fuel : Nat) : ∀ {pending : List Nat} {s : Heap}, s.Counted pending →
    pending.length + s.cells.length ≤ fuel →
    ∃ s', dropRefs fuel pending s = some s' ∧ s.Dropped s' ∧ s'.Counted [] := by
  induction fuel with
  | zero =>
    intro pending s h hfuel
    obtain rfl : pending = [] := List.eq_nil_of_length_eq_zero (by omega)
    exact ⟨s, rfl, h.dropped_self, h⟩
  | succ fuel ih =>
    intro pending s h hfuel
    rcases pending with _ | ⟨o, rest⟩
    · exact ⟨s, rfl, h.dropped_self, h⟩
    rw [List.length_cons] at hfuel
    have hlive : s.live o = true := (h.live o).mpr (by rw [List.count_cons_self]; omega)
    rw [dropRefs, if_pos hlive]
    dsimp only
    by_cases hzero : s.count o - 1 = 0
    · rw [if_pos (by rw [countDown_count_self, hzero])]
      have hcount := h.count o hlive
      rw [List.count_cons_self] at hcount
      have hdoomed : s.Doomed o := doomed_of_refs_eq_zero (by omega)
      have hlength := length_delete s o
      -- the members come off the heap, one pending reference for each
      obtain ⟨s', hs', hdropped, hcounted⟩ := ih (h.delete hzero) (by
        rw [List.length_append, List.length_reverse, List.length_map]
        change _ + _ + (s.delete o).cells.length ≤ _
        omega)
      exact ⟨s', hs', hdropped.of_delete hdoomed, hcounted⟩
    · rw [if_neg (by rwa [countDown_count_self])]
      obtain ⟨s', hs', hdropped, hcounted⟩ := ih (h.countDown hzero) (by
        change rest.length + s.cells.length ≤ _
        omega)
      exact ⟨s', hs', ⟨hdropped.cells, hdropped.extra, hdropped.live,
        fun x hx hx' => (hdropped.doomed x hx hx').of_countDown⟩, hcounted⟩

/-- Doomed objects do not survive the cascade. -/
theorem Doomed.dead {s' : Heap} (h : s.Doomed o) (hdropped : s.Dropped s')
    (hcounted : s'.Counted []) : s'.live o = false := by
  induction h with
  | @intro o extra var member ih =>
    have hnone : s'.cells.countP (fun c => decide (c.2 = o)) = 0 := by
      refine List.countP_eq_zero.mpr fun c hc => ?_
      rw [hdropped.cells] at hc
      obtain ⟨hmem, hkept⟩ := List.mem_filter.mp hc
      rcases c with ⟨v | ⟨o', m⟩, t⟩
      · rintro ht
        exact var v (of_decide_eq_true ht ▸ hmem)
      · rintro ht
        have hgone := ih o' m (of_decide_eq_true ht ▸ hmem)
        simp [gone, hgone] at hkept
    rw [← Bool.not_eq_true, hcounted.live, refs, hnone, hdropped.extra, extra, List.count_nil]
    exact Nat.lt_irrefl 0

end Cascade

/-! ## The operations, one by one -/

section Operations

variable {s : Heap} {pending : List Nat} {p q : Place} {o t : Nat}

theorem target_eq_some (h : s.Counted pending) : s.target p = some t ↔ (p, t) ∈ s.cells := by
  have hkeys := h.nodup
  unfold target
  generalize s.cells = cells at hkeys
  induction cells with
  | nil => simp
  | cons c rest ih =>
    rw [List.map_cons, List.nodup_cons] at hkeys
    rw [List.find?_cons, List.mem_cons]
    by_cases hc : c.1 = p
    · have hrest : (p, t) ∉ rest := fun hmem => hkeys.1 (List.mem_map.mpr ⟨_, hmem, hc.symm⟩)
      rw [decide_eq_true hc]
      obtain ⟨p', t'⟩ := c
      simp only [Option.map_some, Option.some.injEq, Prod.mk.injEq, hrest, or_false]
      exact ⟨fun ht => ⟨hc.symm, ht.symm⟩, fun ht => ht.2.symm⟩
    · rw [decide_eq_false hc]
      refine (ih hkeys.2).trans ⟨Or.inr, fun hmem => hmem.resolve_left fun he => hc ?_⟩
      rw [← he]

/-- There is no pointer at `p`. -/
theorem target_eq_none (h : s.Counted pending) : s.target p = none ↔ ∀ t, (p, t) ∉ s.cells := by
  simp only [Option.eq_none_iff_forall_ne_some, ne_eq, target_eq_some h]

/-- What a pointer refers to exists. -/
theorem live_of_mem (h : s.Counted pending) (hmem : (p, t) ∈ s.cells) : s.live t = true := by
  have hpos : 0 < s.cells.countP fun c => decide (c.2 = t) :=
    List.countP_pos_iff.mpr ⟨_, hmem, decide_eq_true rfl⟩
  rw [h.live, refs]
  omega

/-- Taking a pointer out leaves its reference to be dropped. -/
theorem Counted.remove (h : s.Counted []) (hmem : (p, t) ∈ s.cells) :
    (s.remove p).Counted [t] := by
  have honly : s.cells.filter (fun c => decide (c.1 = p)) = [(p, t)] := by
    have hkeys := h.nodup
    revert hmem hkeys
    generalize s.cells = cells
    intro hmem hkeys
    induction cells with
    | nil => cases hmem
    | cons c rest ih =>
      rw [List.map_cons, List.nodup_cons] at hkeys
      rcases List.mem_cons.mp hmem with rfl | hrest
      · have hnone : rest.filter (fun c => decide (c.1 = p)) = [] :=
          List.filter_eq_nil_iff.mpr fun c hc he =>
            hkeys.1 (List.mem_map.mpr ⟨c, hc, of_decide_eq_true he⟩)
        rw [List.filter_cons_of_pos (by simp), hnone]
      · have hne : c.1 ≠ p := fun he => hkeys.1 (List.mem_map.mpr ⟨_, hrest, he.symm⟩)
        rw [List.filter_cons_of_neg (by simpa using hne), ih hrest hkeys.2]
  have hrefs : ∀ x, (s.remove p).refs x + [t].count x = s.refs x + ([] : List Nat).count x := by
    intro x
    have hsplit := List.countP_eq_countP_filter_add s.cells (fun c => decide (c.2 = x))
      fun c => decide (c.1 = p)
    rw [honly] at hsplit
    have hone : [(p, t)].countP (fun c => decide (c.2 = x)) = [t].count x := by
      rw [List.countP_singleton, List.count_singleton]
      rfl
    rw [refs, refs, hsplit, hone, List.count_nil]
    change (s.cells.filter _).countP _ + s.extra x + _ =
      _ + (s.cells.filter _).countP _ + s.extra x + 0
    omega
  refine ⟨h.nodup.sublist (List.filter_sublist.map _), fun c hc => ?_, fun x hx => ?_, fun x => ?_⟩
  · exact h.inside c (List.mem_filter.mp hc).1
  · rw [hrefs]
    exact h.count x hx
  · rw [hrefs]
    exact h.live x

/-- The counter of an object that `p` refers to: one more than without `p`. -/
theorem count_eq_remove (h : s.Counted []) (hmem : (p, t) ∈ s.cells) :
    s.count t = ((s.remove p).refs t + 1 : Nat) := by
  have hcount := (h.remove hmem).count t (show s.live t = true from live_of_mem h hmem)
  rw [List.count_singleton_self] at hcount
  exact hcount

/-- `unreference` has fuel enough. -/
theorem unreference_spec (h : s.Counted [o]) :
    ∃ s', s.unreference o = some s' ∧ s.Dropped s' ∧ s'.Counted [] :=
  dropRefs_spec _ h (by rw [List.length_singleton]; omega)

/-- One more reference to an object, made by a new pointer to it. -/
def addCell (s : Heap) (p : Place) (o : Nat) : Heap :=
  { s with
    cells := s.cells ++ [(p, o)]
    count := Function.update s.count o (s.count o + 1) }

theorem construct_live (ho : s.live o = true) : s.construct p o = some (s.addCell p o) := by
  rw [construct, reference, if_pos ho]
  rfl

theorem construct_dead (ho : s.live o = false) : s.construct p o = none := by
  rw [construct, reference, if_neg (by rw [ho]; exact Bool.false_ne_true)]
  rfl

theorem refs_addCell (x : Nat) : (s.addCell p o).refs x = s.refs x + if x = o then 1 else 0 := by
  rw [refs, refs, addCell, List.countP_append, List.countP_singleton]
  simp only [decide_eq_true_eq, eq_comm (a := o)]
  omega

theorem count_addCell (x : Nat) :
    (s.addCell p o).count x = s.count x + if x = o then 1 else 0 := by
  rw [addCell]
  by_cases hx : x = o
  · rw [hx, if_pos rfl]
    exact Function.update_self ..
  · rw [if_neg hx, Int.add_zero]
    exact Function.update_of_ne hx ..

/-- Constructing a pointer to an object that exists keeps the counters right. -/
theorem Counted.addCell (h : s.Counted pending) (hp : s.target p = none)
    (hgone : s.gone p = false) (ho : s.live o = true) : (s.addCell p o).Counted pending := by
  refine ⟨?_, fun c hc => ?_, fun x hx => ?_, fun x => ?_⟩
  · change ((s.cells ++ [(p, o)]).map Prod.fst).Nodup
    rw [List.map_append, List.nodup_append]
    refine ⟨h.nodup, by simp, ?_⟩
    rintro _ hmem _ hp' rfl
    obtain ⟨⟨p', t⟩, hcell, rfl⟩ := List.mem_map.mp hmem
    obtain rfl : p' = p := List.mem_singleton.mp hp'
    rw [(target_eq_some h).mpr hcell] at hp
    cases hp
  · rcases List.mem_append.mp hc with hc | hc
    · exact h.inside c hc
    · rw [List.mem_singleton.mp hc]
      exact hgone
  · have hcount := h.count x hx
    rw [refs_addCell, count_addCell, hcount]
    split <;> push_cast <;> omega
  · have hlive := h.live x
    rw [refs_addCell]
    change s.live x = true ↔ _
    by_cases hx : x = o
    · rw [hx, if_pos rfl]
      exact iff_of_true ho (by omega)
    · rw [if_neg hx]
      exact hlive

end Operations

/-! ## Programs -/

/-- The objects a program can get hold of: through a variable, or through a member of
one it got hold of. -/
inductive Accessible (s : Heap) : Nat → Prop
  | var {v o : Nat} (h : (Place.var v, o) ∈ s.cells) : Accessible s o
  | member {o m o' : Nat} (ho : Accessible s o) (h : (Place.member o m, o') ∈ s.cells) :
    Accessible s o'

/-- A program can name a variable, and a member of an object it can get hold of. -/
def CanName (s : Heap) (p : Place) : Prop := ∀ o, p.object = some o → s.Accessible o

/-- The operations of a well-formed program: it names the places it uses, constructs
pointers where there is none, uses those that exist, gets fresh memory for a new
object, and decrements what it has incremented. -/
def Possible (s : Heap) : Op → Prop
  | .wereNew p o members =>
    s.target p = none ∧ s.CanName p ∧ s.live o = false ∧ (members.map Prod.fst).Nodup ∧
      ∀ mq ∈ members, s.CanName mq.2 ∧ ∃ t, s.target mq.2 = some t
  | .copy p q => s.target p = none ∧ s.CanName p ∧ s.CanName q ∧ ∃ t, s.target q = some t
  | .assign p q =>
    s.CanName p ∧ s.CanName q ∧ (∃ t, s.target p = some t) ∧ ∃ t, s.target q = some t
  | .destroy p => s.CanName p ∧ ∃ t, s.target p = some t
  | .increment p => s.CanName p ∧ ∃ t, s.target p = some t
  | .decrement p => s.CanName p ∧ ∃ t, s.target p = some t ∧ 0 < s.extra t

/-- When an assignment goes well: `p = p` where the object has another reference, and
`p = q` where the object that `q` is a member of does not go with the old one. -/
def Assignable (s : Heap) : Op → Prop
  | .assign p q =>
    (q = p → ∀ t, s.target p = some t → 2 ≤ s.count t) ∧
      (q ≠ p → ∀ o, q.object = some o → ¬ (s.remove p).Doomed o)
  | _ => True

section Programs

variable {s : Heap} {p q : Place} {o t : Nat}

/-- What is accessible without the pointer at `p` does not go when its object does. -/
theorem Accessible.not_doomed (h : (s.remove p).Accessible o) : ¬ (s.remove p).Doomed o := by
  induction h with
  | var hv => exact fun ⟨_, hvar, _⟩ => hvar _ hv
  | member _ hm ih => exact fun ⟨_, _, hmember⟩ => ih (hmember _ _ hm)

/-- An accessible object is accessible without the pointer at `p`, or the object that
`p` is a member of is. -/
theorem Accessible.remove (h : s.Accessible o) {b : Nat} (hb : p.object = some b) :
    (s.remove p).Accessible o ∨ (s.remove p).Accessible b := by
  induction h with
  | @var v o hv =>
    refine Or.inl (.var (v := v) (List.mem_filter.mpr ⟨hv, ?_⟩))
    have hne : Place.var v ≠ p := fun he => by
      rw [← he] at hb
      cases hb
    simp [hne]
  | @member o m o' _ hm ih =>
    rcases ih with ih | ih
    · by_cases hp : Place.member o m = p
      · rw [← hp, Place.object, Option.some.injEq] at hb
        exact Or.inr (hb ▸ ih)
      · exact Or.inl (.member ih (List.mem_filter.mpr ⟨hm, by simp [hp]⟩))
    · exact Or.inr ih

/-- A program never assigns to a pointer inside an object that the assignment
deletes. -/
theorem gone_eq_false (hname : s.CanName p) (hcounted : s.Counted []) (hmem : (p, t) ∈ s.cells)
    {s' : Heap} (hdropped : (s.remove p).Dropped s') : s'.gone p = false := by
  rcases p with v | ⟨b, m⟩
  · rfl
  · have hacc : (s.remove (.member b m)).Accessible b := by
      rcases (hname b rfl).remove (p := .member b m) rfl with h | h <;> exact h
    have hlive : s.live b = true := by
      have := hcounted.inside _ hmem
      simpa [gone] using this
    rw [gone, Bool.not_eq_false']
    by_contra hno
    exact hacc.not_doomed (hdropped.doomed b hlive (Bool.eq_false_iff.mpr hno))

/-- Assignment, once the old reference was dropped. -/
theorem assign_eq (hname : s.CanName p) (h : s.Counted []) (hmem : (p, t) ∈ s.cells) :
    ∃ s', (s.remove p).Dropped s' ∧ s'.Counted [] ∧ s'.gone p = false ∧ s'.target p = none ∧
      s.assign p q =
        (if q = p then some t else s'.target q).bind fun new => s'.construct p new := by
  obtain ⟨s', hs', hdropped, hcounted⟩ := unreference_spec (h.remove hmem)
  have hgone := gone_eq_false hname h hmem hdropped
  refine ⟨s', hdropped, hcounted, hgone, ?_, ?_⟩
  · refine (target_eq_none hcounted).mpr fun t' hcell => ?_
    rw [hdropped.cells] at hcell
    have := (List.mem_filter.mp (List.mem_filter.mp hcell).1).2
    simp at this
  · simp only [assign, (target_eq_some h).mpr hmem, hs', hgone, Bool.false_eq_true, if_false,
      bind, Option.bind]
    split <;> rfl

/-- Where the reference to be dropped is not the last one, nothing is doomed. -/
theorem Doomed.not_live (h : s.Doomed o) (hcounted : s.Counted [t]) (ht : 0 < s.refs t) :
    ¬ s.live o = true := by
  induction h with
  | @intro o extra var member ih =>
    intro hlive
    have hpos : 0 < s.refs o := by
      by_cases hot : o = t
      · rwa [hot]
      · have := (hcounted.live o).mp hlive
        rwa [List.count_singleton, if_neg (by simpa using Ne.symm hot), Nat.add_zero] at this
    rw [refs, extra, Nat.add_zero] at hpos
    obtain ⟨⟨c, t'⟩, hmem, ht'⟩ := List.countP_pos_iff.mp hpos
    obtain rfl : t' = o := of_decide_eq_true ht'
    rcases c with v | ⟨o', m⟩
    · exact var v hmem
    · exact ih o' m hmem (by simpa [gone] using hcounted.inside _ hmem)

/-- An assignment that meets the condition goes well. -/
theorem assign_of_assignable (h : s.Counted []) (hp : s.Possible (.assign p q))
    (ha : s.Assignable (.assign p q)) : ∃ s', s.assign p q = some s' ∧ s'.Counted [] := by
  obtain ⟨hname, -, ⟨t, ht⟩, t', ht'⟩ := hp
  have hmem := (target_eq_some h).mp ht
  obtain ⟨s', hdropped, hcounted, hgone, hnone, heq⟩ := assign_eq (q := q) hname h hmem
  rw [heq]
  by_cases hqp : q = p
  · -- the object has another reference, which keeps it
    have hcount := ha.1 hqp t ht
    have hrefs := count_eq_remove h hmem
    have hlive : s'.live t = true := by
      rw [← Bool.not_eq_false]
      intro hdead
      have hexists : s.live t = true := live_of_mem h hmem
      exact (hdropped.doomed t hexists hdead).not_live (h.remove hmem) (by omega) hexists
    rw [if_pos hqp, Option.bind_some, construct_live hlive]
    exact ⟨_, rfl, hcounted.addCell hnone hgone hlive⟩
  · -- the object that `q` is a member of stays, and `q` keeps its object
    have hcell := (target_eq_some h).mp ht'
    have hkept : (q, t') ∈ s'.cells := by
      rw [hdropped.cells]
      refine List.mem_filter.mpr ⟨List.mem_filter.mpr ⟨hcell, by simp [hqp]⟩, ?_⟩
      rcases q with v | ⟨o, m⟩
      · rfl
      · have hlive : s.live o = true := by simpa [gone] using h.inside _ hcell
        rw [gone, Bool.not_not, ← Bool.not_eq_false]
        exact fun hdead => ha.2 hqp o rfl (hdropped.doomed o hlive hdead)
    have hlive := live_of_mem hcounted hkept
    rw [if_neg hqp, (target_eq_some hcounted).mpr hkept, Option.bind_some, construct_live hlive]
    exact ⟨_, rfl, hcounted.addCell hnone hgone hlive⟩

/-- Any other assignment touches what it has deleted. -/
theorem assign_of_not_assignable (h : s.Counted []) (hp : s.Possible (.assign p q))
    (ha : ¬ s.Assignable (.assign p q)) : s.assign p q = none := by
  obtain ⟨hname, -, ⟨t, ht⟩, t', ht'⟩ := hp
  have hmem := (target_eq_some h).mp ht
  obtain ⟨s', hdropped, hcounted, -, -, heq⟩ := assign_eq (q := q) hname h hmem
  rw [heq]
  by_cases hqp : q = p
  · -- the only reference was dropped, and `construct` finds the object deleted
    have hcount : s.count t < 2 := by
      by_contra hno
      refine ha ⟨fun _ t₁ ht₁ => ?_, fun hne => absurd hqp hne⟩
      rw [ht, Option.some.injEq] at ht₁
      rw [← ht₁]
      omega
    have hrefs := count_eq_remove h hmem
    have hdoomed : (s.remove p).Doomed t := doomed_of_refs_eq_zero (by omega)
    rw [if_pos hqp, Option.bind_some, construct_dead (hdoomed.dead hdropped hcounted)]
  · -- the object that `q` is a member of went along, and there is no `q` to be read
    have hdoomed : ∃ o, q.object = some o ∧ (s.remove p).Doomed o := by
      by_contra hno
      exact ha ⟨fun he => absurd he hqp, fun _ o ho hd => hno ⟨o, ho, hd⟩⟩
    obtain ⟨o, ho, hd⟩ := hdoomed
    have hdead := hd.dead hdropped hcounted
    have hnone : s'.target q = none := by
      refine (target_eq_none hcounted).mpr fun t₁ hcell => ?_
      have hin := hcounted.inside _ hcell
      rcases q with v | ⟨o', m⟩
      · cases ho
      · rw [Place.object, Option.some.injEq] at ho
        simp [gone, ho, hdead] at hin
    rw [if_neg hqp, hnone, Option.bind_none]

/-- One more reference to an object, held by no pointer. -/
def hold (s : Heap) (o : Nat) : Heap :=
  { s with count := Function.update s.count o (s.count o + 1) }

theorem reference_live (ho : s.live o = true) : s.reference o = some (s.hold o) := if_pos ho

/-- Holding a reference and constructing a pointer may be done in either order. -/
theorem hold_addCell (s : Heap) (p : Place) (o t : Nat) :
    (s.addCell p t).hold o = (s.hold o).addCell p t := by
  simp only [hold, addCell, Heap.mk.injEq, true_and, and_true]
  by_cases hto : t = o
  · rw [hto]
  · rw [Function.update_of_ne hto, Function.update_of_ne (Ne.symm hto),
      Function.update_comm hto]

/-- Constructing the members of a new object, while a reference to it is held. -/
theorem constructMembers_spec (members : List (Nat × Place)) : ∀ {s : Heap},
    (s.hold o).Counted [o] → s.live o = true → (members.map Prod.fst).Nodup →
    (∀ mq ∈ members, (∃ t, (mq.2, t) ∈ s.cells) ∧ s.target (.member o mq.1) = none) →
    ∃ s', s.constructMembers o members = some s' ∧ (s'.hold o).Counted [o] ∧
      s'.live = s.live ∧ ∀ c ∈ s'.cells, c ∈ s.cells ∨ c.1.object = some o := by
  induction members with
  | nil => exact fun h _ _ _ => ⟨_, rfl, h, rfl, fun c hc => Or.inl hc⟩
  | cons mq rest ih =>
    intro s h ho hnames hmembers
    obtain ⟨m, q⟩ := mq
    rw [List.map_cons, List.nodup_cons] at hnames
    obtain ⟨⟨t, ht⟩, hfree⟩ := hmembers _ List.mem_cons_self
    have hlive : s.live t = true := live_of_mem (s := s.hold o) h ht
    have htarget : s.target q = some t := (target_eq_some (s := s.hold o) h).mpr ht
    have hnext : ((s.addCell (.member o m) t).hold o).Counted [o] := by
      rw [hold_addCell]
      exact h.addCell hfree (by simp [gone, hold, ho]) hlive
    have hrest : ∀ mq ∈ rest, (∃ t', (mq.2, t') ∈ (s.addCell (.member o m) t).cells) ∧
        (s.addCell (.member o m) t).target (.member o mq.1) = none := by
      intro mq hmq
      obtain ⟨⟨t', ht'⟩, hfree'⟩ := hmembers mq (List.mem_cons_of_mem _ hmq)
      refine ⟨⟨t', List.mem_append_left _ ht'⟩, ?_⟩
      refine (target_eq_none (s := (s.addCell (.member o m) t).hold o) hnext).mpr
        fun t₁ hcell => ?_
      rcases List.mem_append.mp hcell with hcell | hcell
      · have hsome : s.target (.member o mq.1) = some t₁ :=
          (target_eq_some (s := s.hold o) h).mpr hcell
        rw [hfree'] at hsome
        cases hsome
      · have := congrArg Prod.fst (List.mem_singleton.mp hcell)
        rw [Place.member.injEq] at this
        exact hnames.1 (List.mem_map.mpr ⟨mq, hmq, this.2⟩)
    obtain ⟨s', hs', hcounted, hlive', hcells⟩ := ih hnext ho hnames.2 hrest
    refine ⟨s', ?_, hcounted, hlive', fun c hc => ?_⟩
    · simp only [constructMembers, htarget, construct_live hlive, bind, Option.bind]
      exact hs'
    · rcases hcells c hc with hc | hc
      · rcases List.mem_append.mp hc with hc | hc
        · exact Or.inl hc
        · rw [List.mem_singleton.mp hc]
          exact Or.inr rfl
      · exact Or.inr hc

/-- Fresh memory has no pointers in it, and none to it. -/
theorem Counted.allocate (h : s.Counted []) (ho : s.live o = false) :
    ((s.allocate o).hold o).Counted [o] := by
  have hzero : s.refs o = 0 := by
    have hnot : ¬ s.live o = true := by simp [ho]
    rw [h.live, List.count_nil] at hnot
    omega
  have hcells : s.cells.countP (fun c => decide (c.2 = o)) = 0 ∧ s.extra o = 0 := by
    rw [refs] at hzero
    omega
  have hrefs : ∀ x, ((s.allocate o).hold o).refs x = s.refs x := by
    intro x
    change _ + Function.update s.extra o 0 x = _ + s.extra x
    by_cases hx : x = o
    · rw [hx, Function.update_self, hcells.2]
      rfl
    · rw [Function.update_of_ne hx]
      rfl
  refine ⟨h.nodup, fun c hc => ?_, fun x hx => ?_, fun x => ?_⟩
  · have hin := h.inside c hc
    rcases c with ⟨v | ⟨o', m⟩, t⟩
    · rfl
    · have hne : o' ≠ o := by
        rintro rfl
        simp [gone, ho] at hin
      change (!Function.update s.live o true o') = false
      rw [Function.update_of_ne hne]
      exact hin
  · change Function.update s.live o true x = true at hx
    change Function.update (Function.update s.count o 0) o
      (Function.update s.count o 0 o + 1) x = _
    rw [hrefs]
    by_cases hxo : x = o
    · rw [hxo, Function.update_self, Function.update_self, hzero, List.count_singleton_self]
      rfl
    · rw [Function.update_of_ne hxo] at hx
      rw [Function.update_of_ne hxo, Function.update_of_ne hxo, h.count x hx,
        List.count_singleton, if_neg (by simpa using Ne.symm hxo), List.count_nil]
  · change Function.update s.live o true x = true ↔ _
    rw [hrefs]
    by_cases hxo : x = o
    · rw [hxo, Function.update_self, List.count_singleton_self]
      exact iff_of_true rfl (by omega)
    · rw [Function.update_of_ne hxo, h.live x, List.count_singleton,
        if_neg (by simpa using Ne.symm hxo), List.count_nil]

/-- What a program can get hold of exists. -/
theorem Accessible.live (h : s.Accessible o) (hcounted : s.Counted []) : s.live o = true := by
  cases h with
  | var hv => exact live_of_mem hcounted hv
  | member _ hm => exact live_of_mem hcounted hm

/-- `were_new` never fails. -/
theorem wereNew_spec (h : s.Counted []) {members : List (Nat × Place)}
    (hp : s.Possible (.wereNew p o members)) :
    ∃ s', s.wereNew p o members = some s' ∧ s'.Counted [] := by
  obtain ⟨hfree, hname, ho, hnames, hmembers⟩ := hp
  have ho₁ : (s.allocate o).live o = true := Function.update_self ..
  have hnone : ∀ m, s.target (.member o m) = none := by
    intro m
    refine (target_eq_none h).mpr fun t hcell => ?_
    have hin := h.inside _ hcell
    simp [gone, ho] at hin
  obtain ⟨s₂, hs₂, hcounted, hlive, hcells⟩ := constructMembers_spec members (h.allocate ho) ho₁
    hnames fun mq hmq => by
      obtain ⟨-, t, ht⟩ := hmembers mq hmq
      exact ⟨⟨t, (target_eq_some h).mp ht⟩, hnone mq.1⟩
  have ho₂ : s₂.live o = true := by rw [hlive, ho₁]
  have hplace : ∀ b, p.object = some b → b ≠ o ∧ s.live b = true := by
    intro b hb
    have hb := (hname b hb).live h
    refine ⟨?_, hb⟩
    rintro rfl
    rw [ho] at hb
    cases hb
  have hfree₂ : (s₂.hold o).target p = none := by
    refine (target_eq_none hcounted).mpr fun t hcell => ?_
    rcases hcells _ hcell with hold | hobject
    · rw [(target_eq_some h).mpr hold] at hfree
      cases hfree
    · exact (hplace o hobject).1 rfl
  have hgone₂ : (s₂.hold o).gone p = false := by
    rcases p with v | ⟨b, m⟩
    · rfl
    · obtain ⟨hne, hb⟩ := hplace b rfl
      change (!s₂.live b) = false
      rw [hlive]
      change (!Function.update s.live o true b) = false
      rw [Function.update_of_ne hne, hb]
      rfl
  -- `were_new` lets go of its own reference once the result refers to the object
  obtain ⟨s', hs', -, hs'counted⟩ := unreference_spec
    (hcounted.addCell hfree₂ hgone₂ (show (s₂.hold o).live o = true from ho₂))
  refine ⟨s', ?_, hs'counted⟩
  simp only [wereNew, hs₂, reference_live ho₂, bind, Option.bind,
    construct_live (show (s₂.hold o).live o = true from ho₂)]
  exact hs'

/-- An explicit increment is one more reference. -/
theorem increment_spec (h : s.Counted []) (ho : s.live o = true) :
    ({ s.hold o with extra := Function.update s.extra o (s.extra o + 1) } : Heap).Counted [] := by
  have hrefs : ∀ x, ({ s.hold o with
      extra := Function.update s.extra o (s.extra o + 1) } : Heap).refs x =
        s.refs x + if x = o then 1 else 0 := by
    intro x
    change _ + Function.update s.extra o (s.extra o + 1) x = _ + s.extra x + _
    by_cases hx : x = o
    · rw [hx, Function.update_self, if_pos rfl]
      rfl
    · rw [Function.update_of_ne hx, if_neg hx]
      rfl
  refine ⟨h.nodup, h.inside, fun x hx => ?_, fun x => ?_⟩
  · rw [hrefs]
    change Function.update s.count o (s.count o + 1) x = _
    have hcount := h.count x hx
    by_cases hxo : x = o
    · subst hxo
      rw [Function.update_self, if_pos rfl]
      push_cast
      omega
    · rw [Function.update_of_ne hxo, if_neg hxo, hcount]
      rfl
  · rw [hrefs]
    change s.live x = true ↔ _
    by_cases hxo : x = o
    · rw [hxo, if_pos rfl]
      exact iff_of_true ho (by omega)
    · rw [if_neg hxo]
      exact h.live x

/-- The reference of an explicit increment is there to be dropped. -/
theorem decrement_spec (h : s.Counted []) (ho : 0 < s.extra o) :
    ({ s with extra := Function.update s.extra o (s.extra o - 1) } : Heap).Counted [o] := by
  have hrefs : ∀ x, ({ s with extra := Function.update s.extra o (s.extra o - 1) } : Heap).refs x +
      [o].count x = s.refs x + ([] : List Nat).count x := by
    intro x
    change _ + Function.update s.extra o (s.extra o - 1) x + _ = _ + s.extra x + _
    by_cases hx : x = o
    · rw [hx, Function.update_self, List.count_singleton_self, List.count_nil]
      change s.cells.countP _ + _ + _ = s.cells.countP _ + _ + _
      omega
    · rw [Function.update_of_ne hx, List.count_singleton, if_neg (by simpa using Ne.symm hx),
        List.count_nil]
  refine ⟨h.nodup, h.inside, fun x hx => ?_, fun x => ?_⟩
  · rw [hrefs]
    exact h.count x hx
  · rw [hrefs]
    exact h.live x

/-! ## Whole runs -/

/-- An operation that meets the condition goes well and keeps the counters right. -/
theorem exec_of_assignable (h : s.Counted []) {a : Op} (hp : s.Possible a) (ha : s.Assignable a) :
    ∃ s', s.exec a = some s' ∧ s'.Counted [] := by
  cases a with
  | wereNew p o members => exact wereNew_spec h hp
  | copy p q =>
    obtain ⟨hfree, hname, -, t, ht⟩ := hp
    have hlive := live_of_mem h ((target_eq_some h).mp ht)
    have hgone : s.gone p = false := by
      rcases p with v | ⟨b, m⟩
      · rfl
      · simp [gone, (hname b rfl).live h]
    refine ⟨s.addCell p t, ?_, h.addCell hfree hgone hlive⟩
    simp only [exec, ht, construct_live hlive, bind, Option.bind]
  | assign p q => exact assign_of_assignable h hp ha
  | destroy p =>
    obtain ⟨-, t, ht⟩ := hp
    obtain ⟨s', hs', -, hcounted⟩ := unreference_spec (h.remove ((target_eq_some h).mp ht))
    refine ⟨s', ?_, hcounted⟩
    simp only [exec, ht, hs', bind, Option.bind]
  | increment p =>
    obtain ⟨-, t, ht⟩ := hp
    have hlive := live_of_mem h ((target_eq_some h).mp ht)
    refine ⟨_, ?_, increment_spec h hlive⟩
    simp only [exec, ht, reference_live hlive, bind, Option.bind]
    rfl
  | decrement p =>
    obtain ⟨-, t, ht, hextra⟩ := hp
    obtain ⟨s', hs', -, hcounted⟩ := unreference_spec (decrement_spec h hextra)
    refine ⟨s', ?_, hcounted⟩
    simp only [exec, ht, hs', bind, Option.bind]

/-- Any other operation is an assignment that touches what it has deleted. -/
theorem exec_of_not_assignable (h : s.Counted []) {a : Op} (hp : s.Possible a)
    (ha : ¬ s.Assignable a) : s.exec a = none := by
  cases a with
  | assign p q => exact assign_of_not_assignable h hp ha
  | wereNew | copy | destroy | increment | decrement => exact absurd trivial ha

end Programs

/-- Runs over what the operations return; touching what is deleted ends the run. -/
def machine : Machine (Option Heap) Op where
  start s := s = some ⟨[], fun _ => false, fun _ => 0, fun _ => 0⟩
  step s a s' := ∃ t, s = some t ∧ t.Possible a ∧ s' = t.exec a

/-- The guard of a run: every assignment meets the condition. -/
def Assigned (s : Option Heap) (a : Op) : Prop := ∀ t, s = some t → t.Assignable a

/-- The counter of every object is the number of its references, and an object exists
exactly as long as that is not zero. -/
structure Exact (s : Heap) : Prop where
  count : ∀ o, s.live o = true → s.count o = (s.refs o : Nat)
  live : ∀ o, s.live o = true ↔ 0 < s.refs o

theorem Counted.exact {s : Heap} (h : s.Counted []) : s.Exact where
  count := h.count
  live := h.live

/-- What a run maintains: unless it has touched what is deleted, the counters are right. -/
def Kept (o : Option Heap) : Prop := ∀ s, o = some s → s.Counted []

theorem start_kept {o : Option Heap} (h : machine.start o) : Kept o ∧ ∃ s, o = some s := by
  refine ⟨?_, _, h⟩
  rintro s rfl
  cases h
  refine ⟨List.nodup_nil, (fun _ hc => nomatch hc), (fun _ ho => nomatch ho), fun o => ?_⟩
  exact iff_of_false Bool.false_ne_true (Nat.lt_irrefl 0)

theorem step_kept {o o' : Option Heap} {a : Op} (h : Kept o) (hstep : machine.step o a o') :
    Kept o' := by
  obtain ⟨t, rfl, hp, rfl⟩ := hstep
  intro s' hs'
  by_cases ha : t.Assignable a
  · obtain ⟨u, hu, hcounted⟩ := exec_of_assignable (h t rfl) hp ha
    rw [hu, Option.some.injEq] at hs'
    exact hs' ▸ hcounted
  · rw [exec_of_not_assignable (h t rfl) hp ha] at hs'
    cases hs'

/-- An operation touches nothing deleted exactly when it meets the condition. -/
theorem step_some_iff {o o' : Option Heap} {a : Op} (h : Kept o) (hstep : machine.step o a o') :
    (∃ s, o' = some s) ↔ (∃ s, o = some s) ∧ Assigned o a := by
  obtain ⟨t, rfl, hp, rfl⟩ := hstep
  constructor
  · rintro ⟨s, hs⟩
    refine ⟨⟨t, rfl⟩, ?_⟩
    rintro _ ⟨⟩
    by_contra ha
    rw [exec_of_not_assignable (h t rfl) hp ha] at hs
    cases hs
  · rintro ⟨-, ha⟩
    obtain ⟨u, hu, -⟩ := exec_of_assignable (h t rfl) hp (ha t rfl)
    exact ⟨u, hu⟩

/-- **Counting**: a program touches nothing that is deleted, and keeps every counter
equal to the number of references, if and only if every assignment meets the
condition. -/
theorem exact_iff (as : List Op) (o : Option Heap) :
    (machine.Reaches as o ∧ ∃ s, o = some s ∧ s.Exact) ↔
      (machine.guarded Assigned).Reaches as o := by
  have hrule : (machine.Reaches as o ∧ ∃ s, o = some s) ↔ (machine.guarded Assigned).Reaches as o :=
    Machine.reaches_guarded_iff (I := Kept) (fun _ => start_kept)
      (fun _ _ _ => step_kept) fun _ _ _ => step_some_iff
  have hkept : machine.Reaches as o → Kept o :=
    Machine.invariant (fun _ hstart => (start_kept hstart).1) fun _ _ _ => step_kept
  rw [← hrule]
  constructor
  · rintro ⟨hreach, s, hs, -⟩
    exact ⟨hreach, s, hs⟩
  · rintro ⟨hreach, s, hs⟩
    exact ⟨hreach, s, hs, (hkept hreach s hs).exact⟩

/-- Assigning the only pointer to an object to itself, or to a pointer stored in the
object, touches the object after its deletion. -/
theorem assign_deleted :
    machine.Reaches [.wereNew (.var 0) 0 [], .assign (.var 0) (.var 0)] none ∧
      machine.Reaches [.wereNew (.var 1) 1 [], .wereNew (.var 0) 0 [(0, .var 1)],
        .destroy (.var 1), .assign (.var 0) (.member 0 0)] none := by
  have step : ∀ {as : List Op} {s : Heap} (a : Op), machine.Reaches as (some s) →
      s.Possible a → machine.Reaches (as ++ [a]) (s.exec a) :=
    fun a h hp => h.next ⟨_, rfl, hp, rfl⟩
  have hvar : ∀ (s : Heap) (v : Nat), s.CanName (.var v) := fun _ _ _ ho => nomatch ho
  have hstart : machine.Reaches [] _ := .start rfl
  constructor
  · have h₁ := step (.wereNew (.var 0) 0 []) hstart
      ⟨rfl, hvar _ _, rfl, List.nodup_nil, fun _ hmq => nomatch hmq⟩
    exact step (.assign (.var 0) (.var 0)) h₁ ⟨hvar _ _, hvar _ _, ⟨0, rfl⟩, 0, rfl⟩
  · have h₁ := step (.wereNew (.var 1) 1 []) hstart
      ⟨rfl, hvar _ _, rfl, List.nodup_nil, fun _ hmq => nomatch hmq⟩
    have h₂ := step (.wereNew (.var 0) 0 [(0, .var 1)]) h₁
      ⟨rfl, hvar _ _, rfl, by decide, fun mq hmq => by
        rw [List.mem_singleton.mp hmq]
        exact ⟨hvar _ _, 1, rfl⟩⟩
    have h₃ := step (.destroy (.var 1)) h₂ ⟨hvar _ _, 1, rfl⟩
    refine step (.assign (.var 0) (.member 0 0)) h₃ ⟨hvar _ _, ?_, ⟨0, rfl⟩, 1, rfl⟩
    rintro _ ⟨⟩
    exact .var (v := 0) (by decide)

end Heap

end SparkleWayland

import SparkleWayland.Lib.CircularList
import SparkleWayland.Lib.Machine

/-!
# Lists in memory (`scanner/src/wayland-util.c`, `scanner/src/wayland-util.h`)

A list is a circle through its head, the elements being linked by nodes of their own. The functions
take the address of a head or of an element alike: `wl_list_insert` puts an element behind
either, and the scanner, which appends, gives it the last element (`head.prev`). Whoever calls
them knows which node is in which list, the memory does not say.

The lists that a caller has in mind are `Lists`, and what it may ask for is a step of
`Lists.machine`. `lists_represented` says that the memory keeps up with them.
-/

namespace SparkleWayland

namespace Scanner

/-- The nodes, each a `struct wl_list`, and which of them are there. -/
structure ListMemory (α : Type) extends Links α where
  live : α → Bool

namespace ListMemory

variable {α : Type} [DecidableEq α]

/-! ## Pointers

A pointer is `none` if it is null. What goes through a null pointer, or one to a node
that is not there, has no result. -/

/-- The address, if a node is there. -/
def deref (m : ListMemory α) (p : Option α) : Option α := p.filter m.live

/-- `p->next` -/
def getNext (m : ListMemory α) (p : Option α) : Option (Option α) := (m.deref p).map m.next

/-- `p->prev` -/
def getPrev (m : ListMemory α) (p : Option α) : Option (Option α) := (m.deref p).map m.prev

/-- `p->next = v` -/
def setNext (m : ListMemory α) (p v : Option α) : Option (ListMemory α) :=
  (m.deref p).map fun x => { m with next := Function.update m.next x v }

/-- `p->prev = v` -/
def setPrev (m : ListMemory α) (p v : Option α) : Option (ListMemory α) :=
  (m.deref p).map fun x => { m with prev := Function.update m.prev x v }

/-! ## The functions -/

def wlListInit (m : ListMemory α) (list : α) : Option (ListMemory α) := do
  let m ← m.setPrev (some list) (some list)
  m.setNext (some list) (some list)

def wlListInsert (m : ListMemory α) (list elm : α) : Option (ListMemory α) := do
  let m ← m.setPrev (some elm) (some list)
  let next ← m.getNext (some list)
  let m ← m.setNext (some elm) next
  let m ← m.setNext (some list) (some elm)
  let next ← m.getNext (some elm)
  m.setPrev next (some elm)

def wlListRemove (m : ListMemory α) (elm : α) : Option (ListMemory α) := do
  let prev ← m.getPrev (some elm)
  let next ← m.getNext (some elm)
  let m ← m.setNext prev next
  let next ← m.getNext (some elm)
  let prev ← m.getPrev (some elm)
  let m ← m.setPrev next prev
  let m ← m.setNext (some elm) none
  m.setPrev (some elm) none

def wlListEmpty (m : ListMemory α) (list : α) : Option Bool :=
  (m.getNext (some list)).map fun next => decide (next = some list)

/-- `while (e != list)` -/
def lengthLoop (m : ListMemory α) (list : α) : Nat → Option α → Nat → Option Nat
  | 0, _, _ => none
  | fuel + 1, e, count =>
    if e = some list then some count
    else (m.getNext e).bind fun e => lengthLoop m list fuel e (count + 1)

def wlListLength (m : ListMemory α) (fuel : Nat) (list : α) : Option Nat :=
  (m.getNext (some list)).bind fun e => m.lengthLoop list fuel e 0

def wlListInsertList (m : ListMemory α) (list other : α) : Option (ListMemory α) := do
  let empty ← m.wlListEmpty other
  if empty then return m
  let next ← m.getNext (some other)
  let m ← m.setPrev next (some list)
  let prev ← m.getPrev (some other)
  let next ← m.getNext (some list)
  let m ← m.setNext prev next
  let next ← m.getNext (some list)
  let prev ← m.getPrev (some other)
  let m ← m.setPrev next prev
  let next ← m.getNext (some other)
  m.setNext (some list) next

/-- `wl_list_insert(head.prev, elm)` -/
def append (m : ListMemory α) (head elm : α) : Option (ListMemory α) := do
  let prev ← m.getPrev (some head)
  let prev ← prev
  m.wlListInsert prev elm

/-- `wl_list_for_each`, and with the other links `wl_list_for_each_reverse`: the elements that
the loop comes to. -/
def forEachLoop (get : Option α → Option (Option α)) (head : α) : Nat → Option α → Option (List α)
  | 0, _ => none
  | fuel + 1, pos =>
    if pos = some head then some []
    else do
      let next ← get pos
      let rest ← forEachLoop get head fuel next
      some (pos.toList ++ rest)

def forEach (m : ListMemory α) (fuel : Nat) (head : α) : Option (List α) :=
  (m.getNext (some head)).bind (forEachLoop m.getNext head fuel)

def forEachReverse (m : ListMemory α) (fuel : Nat) (head : α) : Option (List α) :=
  (m.getPrev (some head)).bind (forEachLoop m.getPrev head fuel)

end ListMemory

/-! ## The lists in mind -/

/-- The lists, each under its head. -/
abbrev Lists (α : Type) := α → Option (List α)

/-- What is asked for. -/
inductive ListOp (α : Type) where
  | init (list : α)
  | insert (list elm : α)
  | remove (elm : α)
  | insertList (list other : α)
  deriving DecidableEq

namespace Lists

variable {α : Type} [DecidableEq α]

/-- The node is not a head, and in no list. -/
def Unused (ls : Lists α) (x : α) : Prop := ∀ head l, ls head = some l → x ∉ head :: l

/-- `new`, put behind `x`. -/
def behind (x : α) (new l : List α) : List α := l.flatMap fun y => if y = x then y :: new else [y]

/-- The list of `head`, with `new` behind one of its nodes, the head perhaps. -/
def extend (ls : Lists α) (head : α) (l : List α) (x : α) (new : List α) : Lists α :=
  Function.update ls head (some (behind x new (head :: l)).tail)

/-- What a caller may ask for: nodes are not in two lists, and a list that was put into another
one is forgotten, if there was anything in it. -/
inductive Step (ls : Lists α) : ListOp α → Lists α → Prop
  | init {list : α} : ls.Unused list → Step ls (.init list) (Function.update ls list (some []))
  | insert {head list elm : α} {l : List α} : ls head = some l → list ∈ head :: l →
      ls.Unused elm → Step ls (.insert list elm) (extend ls head l list [elm])
  | remove {head elm : α} {l : List α} : ls head = some l → elm ∈ l →
      Step ls (.remove elm) (Function.update ls head (some (l.erase elm)))
  | insertEmpty {head list other : α} {l : List α} : ls head = some l → list ∈ head :: l →
      ls other = some [] → other ≠ head → Step ls (.insertList list other) ls
  | insertList {head list other x : α} {l k : List α} : ls head = some l → list ∈ head :: l →
      ls other = some (x :: k) → other ≠ head →
      Step ls (.insertList list other)
        (extend (Function.update ls other none) head l list (x :: k))

/-- No list yet. -/
def machine : Machine (Lists α) (ListOp α) where
  start ls := ls = fun _ => none
  step := Step

end Lists

/-- What the functions do to the memory. -/
def ListMemory.exec {α : Type} [DecidableEq α] (m : ListMemory α) :
    ListOp α → Option (ListMemory α)
  | .init list => m.wlListInit list
  | .insert list elm => m.wlListInsert list elm
  | .remove elm => m.wlListRemove elm
  | .insertList list other => m.wlListInsertList list other

/-! ## What the functions write -/

namespace ListMemory

variable {α : Type} [DecidableEq α] {m : ListMemory α}

omit [DecidableEq α] in
theorem deref_some {x : α} (h : m.live x = true) : m.deref (some x) = some x :=
  Option.filter_some_pos h

omit [DecidableEq α] in
@[simp]
theorem getNext_some {x : α} (h : m.live x = true) : m.getNext (some x) = some (m.next x) := by
  rw [getNext, deref_some h]
  rfl

omit [DecidableEq α] in
@[simp]
theorem getPrev_some {x : α} (h : m.live x = true) : m.getPrev (some x) = some (m.prev x) := by
  rw [getPrev, deref_some h]
  rfl

@[simp]
theorem setNext_some {x : α} (h : m.live x = true) (v : Option α) :
    m.setNext (some x) v = some { m with next := Function.update m.next x v } := by
  rw [setNext, deref_some h]
  rfl

@[simp]
theorem setPrev_some {x : α} (h : m.live x = true) (v : Option α) :
    m.setPrev (some x) v = some { m with prev := Function.update m.prev x v } := by
  rw [setPrev, deref_some h]
  rfl

section Live

variable (hlive : ∀ x, m.live x = true)

include hlive

/-- `wl_list_init` links the node to itself. -/
theorem wlListInit_eq (list : α) :
    m.wlListInit list = some ⟨m.link list list, m.live⟩ := by
  simp [wlListInit, hlive, Links.link]

/-- `wl_list_insert` links the element with the node before it and with the one behind. -/
theorem wlListInsert_eq {list elm n : α} (hne : elm ≠ list) (hn : m.next list = some n) :
    m.wlListInsert list elm = some ⟨(m.link list elm).link elm n, m.live⟩ := by
  simp [wlListInsert, hlive, Links.link, hn, Function.update_comm hne]

/-- `wl_list_remove` links the nodes around the element, and takes its own links away. -/
theorem wlListRemove_eq {elm p n : α} (hp : m.prev elm = some p) (hn : m.next elm = some n) :
    ∃ m', m.wlListRemove elm = some m' ∧ m'.live = m.live ∧
      ∀ x, x ≠ elm → m'.next x = (m.link p n).next x ∧ m'.prev x = (m.link p n).prev x := by
  -- the node before may be the element itself
  have hagain : Function.update m.next p (some n) elm = some n := by
    rcases eq_or_ne elm p with rfl | hne
    · exact Function.update_self ..
    · rw [Function.update_of_ne hne, hn]
  refine ⟨⟨⟨Function.update (m.link p n).next elm none,
    Function.update (m.link p n).prev elm none⟩, m.live⟩, ?_, rfl, fun x hx => ⟨?_, ?_⟩⟩
  · simp [wlListRemove, hlive, Links.link, hn, hp, hagain]
  · exact Function.update_of_ne hx ..
  · exact Function.update_of_ne hx ..

/-- `wl_list_insert_list` links the ends of the other list with the nodes around them. -/
theorem wlListInsertList_eq {list other x z n : α} (hx : m.next other = some x)
    (hz : m.prev other = some z) (hn : m.next list = some n) (hxother : x ≠ other)
    (hzother : z ≠ other) (hzlist : z ≠ list) :
    m.wlListInsertList list other = some ⟨(m.link list x).link z n, m.live⟩ := by
  have hprev : Function.update m.prev x (some list) other = some z := by
    rw [Function.update_of_ne hxother.symm, hz]
  have hnext : Function.update m.next z (some n) other = some x := by
    rw [Function.update_of_ne hzother.symm, hx]
  have hagain : Function.update m.next z (some n) list = some n := by
    rw [Function.update_of_ne hzlist.symm, hn]
  simp [wlListInsertList, wlListEmpty, hlive, Links.link, hx, hn, hxother, hprev, hnext, hagain,
    Function.update_comm hzlist]

theorem wlListInsertList_empty {list other : α} (hx : m.next other = some other) :
    m.wlListInsertList list other = some m := by
  simp [wlListInsertList, wlListEmpty, hlive, hx]

end Live

end ListMemory

/-! ## Where a node is put -/

namespace Lists

variable {α : Type} [DecidableEq α] {m : Links α} {head x y : α} {l new : List α}

theorem behind_append (before after : List α) (hbefore : x ∉ before) (hafter : x ∉ after) :
    behind x new (before ++ x :: after) = before ++ x :: (new ++ after) := by
  have hother : ∀ k : List α, x ∉ k → behind x new k = k := by
    intro k hk
    induction k with
    | nil => rfl
    | cons y k ih =>
      rw [List.mem_cons, not_or] at hk
      rw [behind, List.flatMap_cons, if_neg (Ne.symm hk.1)]
      exact congrArg (y :: ·) (ih hk.2)
  have hself : behind x new (x :: after) = x :: (new ++ after) := by
    rw [behind, List.flatMap_cons, if_pos rfl]
    exact congrArg (x :: new ++ ·) (hother after hafter)
  rw [behind, List.flatMap_append]
  exact congr (congrArg _ (hother before hbefore)) hself

theorem mem_behind (hx : x ∈ l) : y ∈ behind x new l ↔ y ∈ l ∨ y ∈ new := by
  constructor
  · intro hy
    obtain ⟨u, hu, hyu⟩ := List.mem_flatMap.mp hy
    split at hyu
    · rcases List.mem_cons.mp hyu with rfl | hyu
      · exact .inl hu
      · exact .inr hyu
    · exact .inl (List.mem_singleton.mp hyu ▸ hu)
  · rintro (hy | hy)
    · refine List.mem_flatMap.mpr ⟨y, hy, ?_⟩
      split
      · exact List.mem_cons_self
      · exact List.mem_singleton_self y
    · refine List.mem_flatMap.mpr ⟨x, hx, ?_⟩
      rw [if_pos rfl]
      exact List.mem_cons_of_mem x hy

theorem cons_tail_behind : head :: (behind x new (head :: l)).tail = behind x new (head :: l) := by
  rw [behind, List.flatMap_cons]
  split <;> rfl

/-- The circle can be turned so that a node is its head, and turned back when something has been
put behind the node. -/
theorem exists_turned (h : m.Circle head l) (hx : x ∈ head :: l) :
    ∃ r, m.Circle x r ∧ (∀ y, y ∈ x :: r ↔ y ∈ head :: l) ∧
      ∀ m' : Links α, ∀ new, m'.Circle x (new ++ r) →
        m'.Circle head (behind x new (head :: l)).tail := by
  have hnodup := h.nodup
  rcases List.mem_cons.mp hx with rfl | hx
  · refine ⟨l, h, fun _ => Iff.rfl, fun m' new hcircle => ?_⟩
    have hbehind : behind x new ([] ++ x :: l) = [] ++ x :: (new ++ l) :=
      behind_append [] l List.not_mem_nil (List.nodup_cons.mp hnodup).1
    rw [List.nil_append, List.nil_append] at hbehind
    rwa [hbehind]
  · obtain ⟨before, after, rfl⟩ := List.append_of_mem hx
    have hcut : (before ++ x :: after).Nodup := (List.nodup_cons.mp hnodup).2
    have hbefore : x ∉ head :: before := by
      have hmem := List.nodup_append.mp (show (head :: before ++ x :: after).Nodup from hnodup)
      exact fun hu => hmem.2.2 x hu x List.mem_cons_self rfl
    have hafter : x ∉ after := (List.nodup_cons.mp (List.nodup_append.mp hcut).2.1).1
    refine ⟨after ++ head :: before, Links.circle_rotate.mp h, fun y => ?_,
      fun m' new hcircle => ?_⟩
    · simp only [List.mem_cons, List.mem_append]
      tauto
    · have hbehind : behind x new (head :: before ++ x :: after) =
          head :: before ++ x :: (new ++ after) := behind_append _ after hbefore hafter
      rw [List.cons_append] at hbehind
      rw [hbehind]
      rw [← List.append_assoc] at hcircle
      exact Links.circle_rotate.mpr hcircle

end Lists

/-! ## The memory has the lists in it -/

variable {α : Type} [DecidableEq α]

/-- Each list is a circle, and no node is in two of them. -/
structure Represents (m : ListMemory α) (ls : Lists α) : Prop where
  live : ∀ x, m.live x = true
  circle : ∀ head l, ls head = some l → m.Circle head l
  disjoint : ∀ head head' l l', ls head = some l → ls head' = some l' → head ≠ head' →
    (head :: l).Disjoint (head' :: l')

namespace Represents

variable {m m' : ListMemory α} {ls : Lists α}

/-- The node is in none of the other lists. -/
def Own (ls : Lists α) (head x : α) : Prop :=
  ∀ head' l', ls head' = some l' → head' ≠ head → x ∉ head' :: l'

omit [DecidableEq α] in
theorem own_of_mem (h : Represents m ls) {head x : α} {l : List α} (hl : ls head = some l)
    (hx : x ∈ head :: l) : Own ls head x :=
  fun _ _ hl' hne hx' => h.disjoint _ _ _ _ hl hl' hne.symm hx hx'

omit [DecidableEq α] in
theorem own_of_unused {head x : α} (h : Lists.Unused ls x) : Own ls head x :=
  fun _ _ hl' _ => h _ _ hl'

/-- **Frame**: one list is changed, and what is written is in no other. -/
theorem update (h : Represents m ls) {head : α} {l : List α} (hlive : m'.live = m.live)
    (hcircle : m'.Circle head l) (hown : ∀ x ∈ head :: l, Own ls head x)
    (hframe : ∀ x, ¬ Own ls head x → m'.next x = m.next x ∧ m'.prev x = m.prev x) :
    Represents m' (Function.update ls head (some l)) := by
  have hother : ∀ head' l', Function.update ls head (some l) head' = some l' →
      (head' = head ∧ l' = l) ∨ (head' ≠ head ∧ ls head' = some l') := by
    intro head' l' hl'
    rcases eq_or_ne head' head with rfl | hne
    · rw [Function.update_self] at hl'
      exact .inl ⟨rfl, (Option.some.inj hl').symm⟩
    · rw [Function.update_of_ne hne] at hl'
      exact .inr ⟨hne, hl'⟩
  refine ⟨fun x => (congrFun hlive x).trans (h.live x), fun head' l' hl' => ?_,
    fun head₁ head₂ l₁ l₂ hl₁ hl₂ hne => ?_⟩
  · rcases hother head' l' hl' with ⟨rfl, rfl⟩ | ⟨hne, hl'⟩
    · exact hcircle
    · have hkept : ∀ x ∈ head' :: l', m'.next x = m.next x ∧ m'.prev x = m.prev x :=
        fun x hx => hframe x fun hown => hown head' l' hl' hne hx
      exact (h.circle head' l' hl').congr (fun x hx => (hkept x hx).1) fun x hx => (hkept x hx).2
  · rcases hother head₁ l₁ hl₁ with ⟨rfl, rfl⟩ | ⟨hne₁, hold₁⟩
    · rcases hother head₂ l₂ hl₂ with ⟨rfl, -⟩ | ⟨hne₂, hold₂⟩
      · exact absurd rfl hne
      · exact fun x hx hx' => hown x hx head₂ l₂ hold₂ hne₂ hx'
    · rcases hother head₂ l₂ hl₂ with ⟨rfl, rfl⟩ | ⟨-, hold₂⟩
      · exact fun x hx hx' => hown x hx' head₁ l₁ hold₁ hne₁ hx
      · exact h.disjoint _ _ _ _ hold₁ hold₂ hne

/-- A list may be forgotten. -/
theorem forget (h : Represents m ls) (head : α) :
    Represents m (Function.update ls head none) := by
  have hkept : ∀ head' l', Function.update ls head none head' = some l' → ls head' = some l' := by
    intro head' l' hl'
    rcases eq_or_ne head' head with rfl | hne
    · rw [Function.update_self] at hl'
      cases hl'
    · rwa [Function.update_of_ne hne] at hl'
  exact ⟨h.live, fun head' l' hl' => h.circle head' l' (hkept head' l' hl'),
    fun _ _ _ _ hl₁ hl₂ => h.disjoint _ _ _ _ (hkept _ _ hl₁) (hkept _ _ hl₂)⟩

/-- A row of unused nodes is put behind a node of a list. -/
theorem extend (h : Represents m ls) {head x y z n : α} {l k : List α} (hl : ls head = some l)
    (hx : x ∈ head :: l) (hrow : (y :: k).IsChain m.Linked) (hnodup : (y :: k).Nodup)
    (hunused : ∀ u ∈ y :: k, Lists.Unused ls u) (hz : (y :: k).getLast? = some z)
    (hn : m.next x = some n) :
    Represents ⟨(m.link x y).link z n, m.live⟩ (Lists.extend ls head l x (y :: k)) := by
  obtain ⟨r, hcircle, hmem, hback⟩ := Lists.exists_turned (h.circle head l hl) hx
  have hnr : (r ++ [x]).head? = some n := by rw [← hcircle.next_eq, hn]
  have hdisjoint : (x :: r).Disjoint (y :: k) :=
    fun u hu hnew => hunused u hnew head l hl ((hmem u).mp hu)
  have hinserted := hback _ _ (hcircle.insert hrow hnodup hdisjoint hz hnr)
  have hnmem : n ∈ head :: l := by
    rw [← hmem n, List.mem_cons, or_comm, ← List.mem_singleton, ← List.mem_append]
    exact List.mem_of_head? hnr
  refine h.update rfl hinserted (fun u hu => ?_) fun u hu => ?_
  · rw [Lists.cons_tail_behind, Lists.mem_behind hx] at hu
    exact hu.elim (h.own_of_mem hl) fun hu => own_of_unused (hunused u hu)
  · -- what is written is in the list, or was unused
    have hne : ∀ v, Own ls head v → u ≠ v := fun v hv huv => hu (huv ▸ hv)
    have hux := hne x (h.own_of_mem hl hx)
    have hun := hne n (h.own_of_mem hl hnmem)
    have huy := hne y (own_of_unused (hunused y List.mem_cons_self))
    have huz := hne z (own_of_unused (hunused z (List.mem_of_getLast? hz)))
    exact ⟨(Function.update_of_ne huz ..).trans (Function.update_of_ne hux ..),
      (Function.update_of_ne hun ..).trans (Function.update_of_ne huy ..)⟩

/-! ## Each function keeps up -/

theorem exec_init (h : Represents m ls) {list : α} (hunused : ls.Unused list) :
    ∃ m', m.exec (.init list) = some m' ∧
      Represents m' (Function.update ls list (some [])) := by
  refine ⟨_, ListMemory.wlListInit_eq h.live list, h.update rfl ?_ (fun x hx => ?_) fun x hx => ?_⟩
  · exact Links.circle_link_self _ list
  · rw [List.mem_singleton.mp hx]
    exact own_of_unused hunused
  · have hne : x ≠ list := by
      rintro rfl
      exact hx (own_of_unused hunused)
    exact ⟨Function.update_of_ne hne .., Function.update_of_ne hne ..⟩

/-- The node behind a node of a list. -/
theorem exists_next (h : Represents m ls) {head x : α} {l : List α} (hl : ls head = some l)
    (hx : x ∈ head :: l) : ∃ n, m.next x = some n := by
  obtain ⟨r, hcircle, -, -⟩ := Lists.exists_turned (h.circle head l hl) hx
  rw [hcircle.next_eq]
  exact Option.ne_none_iff_exists'.mp (by simp)

theorem exec_insert (h : Represents m ls) {head list elm : α} {l : List α}
    (hl : ls head = some l) (hlist : list ∈ head :: l) (hunused : ls.Unused elm) :
    ∃ m', m.exec (.insert list elm) = some m' ∧
      Represents m' (Lists.extend ls head l list [elm]) := by
  obtain ⟨n, hn⟩ := h.exists_next hl hlist
  have hne : elm ≠ list := fun heq => hunused head l hl (heq ▸ hlist)
  refine ⟨_, ListMemory.wlListInsert_eq h.live hne hn, ?_⟩
  refine h.extend hl hlist (.singleton elm) (List.nodup_singleton elm) (fun u hu => ?_) rfl hn
  rwa [List.mem_singleton.mp hu]

/-- Behind the last node is the end of the list. -/
theorem append (h : Represents m ls) (head elm : α) {l : List α} (hl : ls head = some l)
    (hunused : ls.Unused elm) :
    ∃ m', m.append head elm = some m' ∧
      Represents m' (Function.update ls head (some (l ++ [elm]))) := by
  have hcircle := h.circle head l hl
  obtain ⟨before, last, hsplit⟩ : ∃ before last, head :: l = before ++ [last] :=
    ⟨_, _, (List.dropLast_append_getLast (List.cons_ne_nil head l)).symm⟩
  have hlast : m.prev head = some last := by
    rw [hcircle.prev_eq, hsplit, List.getLast?_concat]
  have hmem : last ∈ head :: l := by
    rw [hsplit]
    exact List.mem_concat_self
  have hbehind : (Lists.behind last [elm] (head :: l)).tail = l ++ [elm] := by
    have hnodup := hcircle.nodup
    rw [hsplit] at hnodup
    have hnotmem : last ∉ before := fun hlast =>
      (List.nodup_append.mp hnodup).2.2 last hlast last List.mem_cons_self rfl
    rw [hsplit, Lists.behind_append before [] hnotmem List.not_mem_nil, List.append_nil,
      ← List.singleton_append, ← List.append_assoc, ← hsplit]
    rfl
  obtain ⟨m', hm', hrep⟩ := h.exec_insert hl hmem hunused
  refine ⟨m', ?_, ?_⟩
  · rw [ListMemory.append, ListMemory.getPrev_some (h.live head), hlast]
    exact hm'
  · rwa [Lists.extend, hbehind] at hrep

/-- The nodes around an element, and the circle without it. -/
theorem exists_around {m : Links α} {head elm : α} {before after : List α}
    (h : m.Circle head (before ++ elm :: after)) :
    ∃ p n, m.prev elm = some p ∧ m.next elm = some n ∧ p ∈ head :: (before ++ after) ∧
      n ∈ head :: (before ++ after) ∧ (m.link p n).Circle head (before ++ after) := by
  have helm := Links.circle_rotate.mp h
  have hnext := helm.next_eq
  have hprev := helm.prev_eq
  obtain ⟨n, hn⟩ : ∃ n, (after ++ [head]).head? = some n := by
    cases after <;> exact ⟨_, rfl⟩
  have hnext' : m.next elm = some n := by
    rw [hnext, ← hn]
    cases after <;> rfl
  have hnmem : n ∈ head :: (before ++ after) := by
    have hmem := List.mem_of_head? hn
    simp only [List.mem_append, List.mem_cons, List.not_mem_nil, or_false] at hmem ⊢
    tauto
  rcases before.eq_nil_or_concat with rfl | ⟨b, p, rfl⟩
  · -- the node before is the head
    refine ⟨head, n, ?_, hnext', List.mem_cons_self, hnmem, Links.Circle.remove h hn⟩
    rw [hprev, List.getLast?_cons, List.getLast?_concat]
    rfl
  · rw [List.concat_eq_append] at *
    refine ⟨p, n, ?_, hnext', by simp, hnmem, ?_⟩
    · have hconcat : elm :: (after ++ head :: (b ++ [p])) = (elm :: after ++ head :: b) ++ [p] := by
        simp
      rw [hprev, hconcat, List.getLast?_concat]
    · -- turned until the node before is the head, and back
      have hp : m.Circle p (elm :: (after ++ head :: b)) := by
        rw [List.append_assoc] at h
        exact Links.circle_rotate.mp h
      have hremoved : (m.link p n).Circle p (after ++ head :: b) := by
        refine hp.remove ?_
        rw [← hn]
        cases after <;> rfl
      have hturned := Links.circle_rotate.mp hremoved
      rwa [List.append_assoc]

theorem exec_remove (h : Represents m ls) {head elm : α} {l : List α} (hl : ls head = some l)
    (helm : elm ∈ l) :
    ∃ m', m.exec (.remove elm) = some m' ∧
      Represents m' (Function.update ls head (some (l.erase elm))) := by
  obtain ⟨before, after, rfl⟩ := List.append_of_mem helm
  have hcircle := h.circle head _ hl
  have hnotmem : elm ∉ head :: (before ++ after) := by
    have hperm : (head :: (before ++ elm :: after)).Perm (elm :: head :: (before ++ after)) :=
      (List.Perm.cons head List.perm_middle).trans (List.Perm.swap ..)
    exact (List.nodup_cons.mp (hperm.nodup_iff.mp hcircle.nodup)).1
  have herase : (before ++ elm :: after).erase elm = before ++ after := by
    have hbefore : elm ∉ before :=
      fun hmem => hnotmem (List.mem_cons_of_mem head (List.mem_append_left after hmem))
    rw [List.erase_append_right _ hbefore, List.erase_cons_head]
  obtain ⟨p, n, hp, hn, hpmem, hnmem, hremoved⟩ := exists_around hcircle
  obtain ⟨m', hexec, hlive, hkept⟩ := ListMemory.wlListRemove_eq h.live hp hn
  have hsub : ∀ x ∈ head :: (before ++ after), x ∈ head :: (before ++ elm :: after) := by
    intro x hx
    simp only [List.mem_cons, List.mem_append] at hx ⊢
    tauto
  rw [herase]
  refine ⟨m', hexec, h.update hlive ?_ (fun x hx => h.own_of_mem hl (hsub x hx)) fun x hx => ?_⟩
  · have hne : ∀ x ∈ head :: (before ++ after), x ≠ elm := fun x hx heq => hnotmem (heq ▸ hx)
    exact hremoved.congr (fun x hx => (hkept x (hne x hx)).1) fun x hx => (hkept x (hne x hx)).2
  · have hne : ∀ u ∈ head :: (before ++ elm :: after), x ≠ u :=
      fun u hu hxu => hx (hxu ▸ h.own_of_mem hl hu)
    have hother := hkept x (hne elm (by simp))
    exact ⟨hother.1.trans (Function.update_of_ne (hne p (hsub p hpmem)) ..),
      hother.2.trans (Function.update_of_ne (hne n (hsub n hnmem)) ..)⟩

theorem exec_insertList (h : Represents m ls) {head list other x : α} {l k : List α}
    (hl : ls head = some l) (hlist : list ∈ head :: l) (hother : ls other = some (x :: k))
    (hne : other ≠ head) :
    ∃ m', m.exec (.insertList list other) = some m' ∧
      Represents m' (Lists.extend (Function.update ls other none) head l list (x :: k)) := by
  have hcircle := h.circle other (x :: k) hother
  have hdisjoint := h.disjoint _ _ _ _ hl hother hne.symm
  obtain ⟨hnotmem, hnodup⟩ := List.nodup_cons.mp hcircle.nodup
  obtain ⟨n, hn⟩ := h.exists_next hl hlist
  obtain ⟨z, hz⟩ : ∃ z, (x :: k).getLast? = some z :=
    ⟨_, List.getLast?_eq_some_getLast (List.cons_ne_nil x k)⟩
  have hprev : m.prev other = some z := by
    rw [hcircle.prev_eq, List.getLast?_cons_cons, hz]
  have hzmem : z ∈ x :: k := List.mem_of_getLast? hz
  refine ⟨_, ListMemory.wlListInsertList_eq h.live hcircle.next_eq hprev hn
    (fun heq => hnotmem (heq ▸ List.mem_cons_self)) (fun heq => hnotmem (heq ▸ hzmem))
    (fun heq => hdisjoint hlist (heq ▸ List.mem_cons_of_mem other hzmem)), ?_⟩
  have hkept : Function.update ls other none head = some l := by
    rw [Function.update_of_ne hne.symm, hl]
  refine (h.forget other).extend hkept hlist ?_ hnodup (fun u hu head' l' hl' hu' => ?_) hz hn
  · exact (show (x :: k ++ [other]).IsChain m.Linked from hcircle.chain.tail).left_of_append
  · rcases eq_or_ne head' other with rfl | hne'
    · rw [Function.update_self] at hl'
      cases hl'
    · rw [Function.update_of_ne hne'] at hl'
      exact h.disjoint _ _ _ _ hl' hother hne' hu' (List.mem_cons_of_mem other hu)

theorem step (h : Represents m ls) {a : ListOp α} {ls' : Lists α} (hstep : ls.Step a ls') :
    ∃ m', m.exec a = some m' ∧ Represents m' ls' := by
  cases hstep with
  | init hunused => exact h.exec_init hunused
  | insert hl hlist hunused => exact h.exec_insert hl hlist hunused
  | remove hl helm => exact h.exec_remove hl helm
  | insertEmpty hl hlist hother hne =>
    exact ⟨m, ListMemory.wlListInsertList_empty h.live (h.circle _ _ hother).next_eq, h⟩
  | insertList hl hlist hother hne => exact h.exec_insertList hl hlist hother hne

/-- **Runs**: no function goes through a wrong pointer, and the memory keeps up with the lists. -/
theorem of_path {as : List (ListOp α)} {ls' : Lists α} (h : Represents m ls)
    (hpath : Lists.machine.Path ls as ls') :
    ∃ m', as.foldlM ListMemory.exec m = some m' ∧ Represents m' ls' := by
  induction hpath with
  | nil => exact ⟨m, rfl, h⟩
  | snoc _ hstep ih =>
    obtain ⟨m₁, hm₁, h₁⟩ := ih
    obtain ⟨m₂, hm₂, h₂⟩ := h₁.step hstep
    refine ⟨m₂, ?_, h₂⟩
    rw [List.foldlM_append, hm₁]
    simpa using hm₂

end Represents

/-! ## Going through a list -/

namespace ListMemory

variable {m : ListMemory α} {head : α} {l : List α} {fuel : Nat}

theorem forEachLoop_eq {get : Option α → Option (Option α)} {step : α → Option α}
    (hnone : get none = none) (hget : ∀ x, get (some x) = some (step x)) (pos : Option α) :
    forEachLoop get head fuel pos = pos.bind (Links.walk step head fuel) := by
  induction fuel generalizing pos with
  | zero => cases pos <;> rfl
  | succ fuel ih =>
    cases pos with
    | none =>
      rw [forEachLoop, hnone]
      rfl
    | some x =>
      rw [forEachLoop, hget, Option.bind_some, Links.walk]
      by_cases hx : x = head
      · rw [if_pos hx, if_pos (congrArg some hx)]
      · rw [if_neg hx, if_neg fun heq => hx (Option.some.inj heq)]
        show (forEachLoop get head fuel (step x)).bind _ = _
        rw [ih]
        cases step x with
        | none => rfl
        | some y =>
          rw [Option.bind_some, Option.bind_some]
          cases Links.walk step head fuel y <;> rfl

theorem lengthLoop_eq (hlive : ∀ x, m.live x = true) (e : Option α) (count : Nat) :
    m.lengthLoop head fuel e count =
      (e.bind (Links.walk m.next head fuel)).map fun l => count + l.length := by
  induction fuel generalizing e count with
  | zero => cases e <;> rfl
  | succ fuel ih =>
    cases e with
    | none => rfl
    | some x =>
      rw [lengthLoop, getNext_some (hlive x), Option.bind_some, Option.bind_some, Links.walk]
      by_cases hx : x = head
      · rw [if_pos hx, if_pos (congrArg some hx)]
        rfl
      · rw [if_neg hx, if_neg fun heq => hx (Option.some.inj heq), ih]
        cases m.next x with
        | none => rfl
        | some y =>
          rw [Option.bind_some, Option.bind_some, Option.map_map]
          congr 1
          funext l
          show count + 1 + l.length = count + (l.length + 1)
          rw [Nat.add_assoc, Nat.add_comm 1]

end ListMemory

namespace Represents

variable {m : ListMemory α} {ls : Lists α} {head : α} {l : List α} {fuel : Nat}

theorem forEach_eq (h : Represents m ls) (hl : ls head = some l) (hfuel : l.length < fuel) :
    m.forEach fuel head = some l := by
  rw [ListMemory.forEach, ListMemory.getNext_some (h.live head), Option.bind_some,
    ListMemory.forEachLoop_eq rfl (fun x => ListMemory.getNext_some (h.live x))]
  exact (h.circle head l hl).walk_next hfuel

theorem forEachReverse_eq (h : Represents m ls) (hl : ls head = some l)
    (hfuel : l.length < fuel) : m.forEachReverse fuel head = some l.reverse := by
  rw [ListMemory.forEachReverse, ListMemory.getPrev_some (h.live head), Option.bind_some,
    ListMemory.forEachLoop_eq rfl (fun x => ListMemory.getPrev_some (h.live x))]
  exact (h.circle head l hl).walk_prev hfuel

theorem wlListLength_eq (h : Represents m ls) (hl : ls head = some l) (hfuel : l.length < fuel) :
    m.wlListLength fuel head = some l.length := by
  rw [ListMemory.wlListLength, ListMemory.getNext_some (h.live head), Option.bind_some,
    ListMemory.lengthLoop_eq h.live, (h.circle head l hl).walk_next hfuel, Option.map_some,
    Nat.zero_add]

theorem wlListEmpty_eq (h : Represents m ls) (hl : ls head = some l) :
    m.wlListEmpty head = some (decide (l = [])) := by
  have hcircle := h.circle head l hl
  rw [ListMemory.wlListEmpty, ListMemory.getNext_some (h.live head), Option.map_some,
    hcircle.next_eq]
  cases l with
  | nil => simp
  | cons x l =>
    have hne : x ≠ head := fun heq =>
      (List.nodup_cons.mp hcircle.nodup).1 (heq ▸ List.mem_cons_self)
    simp [hne]

end Represents

/-- **Lists**: whatever memory the nodes are in at first, behind every run of the functions that
a caller may ask for, each list is found in its order, and backwards, and its length is right. -/
theorem lists_represented {as : List (ListOp α)} {ls : Lists α}
    (h : Lists.machine.Reaches as ls) (m₀ : ListMemory α) (hlive : ∀ x, m₀.live x = true) :
    ∃ m, as.foldlM ListMemory.exec m₀ = some m ∧
      ∀ head l, ls head = some l → ∀ fuel, l.length < fuel →
        m.forEach fuel head = some l ∧ m.forEachReverse fuel head = some l.reverse ∧
          m.wlListLength fuel head = some l.length ∧
          m.wlListEmpty head = some (decide (l = [])) := by
  obtain ⟨ls₀, rfl, hpath⟩ := h
  have hempty : Represents m₀ (fun _ => none) := ⟨hlive, nofun, nofun⟩
  obtain ⟨m, hm, hrep⟩ := hempty.of_path hpath
  exact ⟨m, hm, fun head l hl fuel hfuel => ⟨hrep.forEach_eq hl hfuel,
    hrep.forEachReverse_eq hl hfuel, hrep.wlListLength_eq hl hfuel, hrep.wlListEmpty_eq hl⟩⟩

theorem Lists.Unused.update {ls : Lists α} {head x : α} {o : Option (List α)} (h : ls.Unused x)
    (ho : ∀ l, o = some l → x ∉ head :: l) : Lists.Unused (Function.update ls head o) x := by
  intro head' l hl
  rcases eq_or_ne head' head with rfl | hne
  · rw [Function.update_self] at hl
    exact ho l hl
  · rw [Function.update_of_ne hne] at hl
    exact h head' l hl

/-- Two elements, the first of which is removed, and another list that comes behind the second. -/
def twoLists : List (ListOp Nat) :=
  [.init 0, .insert 0 1, .insert 1 2, .remove 1, .init 5, .insert 5 6, .insertList 2 5]

theorem twoLists_reached : ∃ ls, Lists.machine.Reaches twoLists ls ∧ ls 0 = some [2, 6] := by
  let ls₀ : Lists Nat := fun _ => none
  let ls₁ : Lists Nat := Function.update ls₀ 0 (some [])
  let ls₂ : Lists Nat := Lists.extend ls₁ 0 [] 0 [1]
  let ls₃ : Lists Nat := Lists.extend ls₂ 0 [1] 1 [2]
  let ls₄ : Lists Nat := Function.update ls₃ 0 (some ([1, 2].erase 1))
  let ls₅ : Lists Nat := Function.update ls₄ 5 (some [])
  let ls₆ : Lists Nat := Lists.extend ls₅ 5 [] 5 [6]
  let ls₇ : Lists Nat := Lists.extend (Function.update ls₆ 5 none) 0 [2] 2 [6]
  have hnone : ∀ x, ls₀.Unused x := fun _ => nofun
  have h₁ : ls₀.Step (.init 0) ls₁ := .init (hnone 0)
  have hone : ls₁.Unused 1 := (hnone 1).update (by simp)
  have h₂ : ls₁.Step (.insert 0 1) ls₂ := .insert (show ls₁ 0 = some [] from rfl) (by decide) hone
  have htwo : ls₂.Unused 2 := ((hnone 2).update (by simp)).update (by simp [Lists.behind])
  have h₃ : ls₂.Step (.insert 1 2) ls₃ := .insert (show ls₂ 0 = some [1] from rfl) (by decide) htwo
  have h₄ : ls₃.Step (.remove 1) ls₄ := .remove (show ls₃ 0 = some [1, 2] from rfl) (by decide)
  have hunused : ∀ x, 2 < x → ls₄.Unused x := by
    intro x hx
    refine ((((hnone x).update ?_).update ?_).update ?_).update ?_ <;>
      · intro l hl
        cases hl
        simp [Lists.behind]
        omega
  have h₅ : ls₄.Step (.init 5) ls₅ := .init (hunused 5 (by decide))
  have h₆ : ls₅.Step (.insert 5 6) ls₆ := .insert (show ls₅ 5 = some [] from rfl) (by decide)
    ((hunused 6 (by decide)).update (by simp))
  have h₇ : ls₆.Step (.insertList 2 5) ls₇ := .insertList (show ls₆ 0 = some [2] from rfl)
    (by decide) (show ls₆ 5 = some [6] from rfl) (by decide)
  have hstart : Lists.machine.Reaches [] ls₀ := Machine.Reaches.start rfl
  exact ⟨ls₇, ((((((hstart.next h₁).next h₂).next h₃).next h₄).next h₅).next h₆).next h₇, rfl⟩

theorem lists_represented_twoLists :
    ∃ m : ListMemory Nat, twoLists.foldlM ListMemory.exec
        (⟨⟨fun _ => none, fun _ => none⟩, fun _ => true⟩ : ListMemory Nat) = some m ∧
      m.forEach 3 0 = some [2, 6] ∧ m.forEachReverse 3 0 = some [6, 2] ∧
      m.wlListLength 3 0 = some 2 ∧ m.wlListEmpty 0 = some false := by
  obtain ⟨ls, hls, hzero⟩ := twoLists_reached
  obtain ⟨m, hm, hall⟩ := lists_represented hls
    ⟨⟨fun _ => none, fun _ => none⟩, fun _ => true⟩ fun _ => rfl
  exact ⟨m, hm, hall 0 [2, 6] hzero 3 (by decide)⟩

end Scanner

end SparkleWayland

import Mathlib.Data.List.Chain
import Mathlib.Data.List.Nodup
import Mathlib.Logic.Function.Basic

/-!
# Circular lists

Nodes that know the next one and the one before, in a circle. Any node of a circle can be taken
for its head (`circle_rotate`). All that is ever written are links between two nodes
(`Links.link`), and a row of nodes keeps its links as long as nothing is written to its inside
(`isChain_link`); so what it does to circles to bring a row into one (`Circle.insert`), or to
leave a node out (`Circle.remove`), is said without the memory that the links are in. `walk`
follows the links from node to node.
-/

namespace SparkleWayland

universe u

/-- Where the links of nodes lead. A node need not have any. -/
structure Links (α : Type u) where
  next : α → Option α
  prev : α → Option α

namespace Links

variable {α : Type u}

/-- `y` comes behind `x`, and both know. -/
def Linked (m : Links α) (x y : α) : Prop := m.next x = some y ∧ m.prev y = some x

/-- The circle of `a` has `l` in it besides. -/
structure Circle (m : Links α) (a : α) (l : List α) : Prop where
  chain : (a :: (l ++ [a])).IsChain m.Linked
  nodup : (a :: l).Nodup

variable {m m' : Links α} {a x y : α} {l k : List α}

/-! ## Circles -/

/-- A row stays if the links of its nodes do. -/
theorem isChain_congr (h : l.IsChain m.Linked) (hnext : ∀ y ∈ l, m'.next y = m.next y)
    (hprev : ∀ y ∈ l, m'.prev y = m.prev y) : l.IsChain m'.Linked :=
  h.imp_of_mem_imp fun _ _ hx hy hxy => ⟨(hnext _ hx).trans hxy.1, (hprev _ hy).trans hxy.2⟩

theorem Circle.congr (h : m.Circle a l) (hnext : ∀ y ∈ a :: l, m'.next y = m.next y)
    (hprev : ∀ y ∈ a :: l, m'.prev y = m.prev y) : m'.Circle a l := by
  have hmem : ∀ y, y ∈ a :: (l ++ [a]) → y ∈ a :: l := by
    intro y hy
    simp only [List.mem_cons, List.mem_append, List.not_mem_nil, or_false] at hy ⊢
    tauto
  exact ⟨isChain_congr h.chain (fun y hy => hnext y (hmem y hy)) fun y hy => hprev y (hmem y hy),
    h.nodup⟩

/-- Any node of a circle can be taken for its head. -/
theorem circle_rotate : m.Circle a (l ++ x :: k) ↔ m.Circle x (k ++ a :: l) := by
  have hsplit : ∀ (a x : α) (l k : List α),
      (a :: (l ++ x :: k ++ [a])).IsChain m.Linked ↔
        (a :: (l ++ [x])).IsChain m.Linked ∧ (x :: (k ++ [a])).IsChain m.Linked := by
    intro a x l k
    rw [List.append_assoc, List.cons_append]
    exact List.isChain_cons_split
  have hperm : (a :: (l ++ x :: k)).Perm (x :: (k ++ a :: l)) := by
    have hcomm : (a :: l ++ x :: k).Perm (x :: k ++ a :: l) := List.perm_append_comm
    exact hcomm
  constructor
  · rintro ⟨hchain, hnodup⟩
    exact ⟨(hsplit x a k l).mpr ((hsplit a x l k).mp hchain).symm, hperm.nodup_iff.mp hnodup⟩
  · rintro ⟨hchain, hnodup⟩
    exact ⟨(hsplit a x l k).mpr ((hsplit x a k l).mp hchain).symm, hperm.nodup_iff.mpr hnodup⟩

/-- The node behind the head is the first one. -/
theorem Circle.next_eq (h : m.Circle a l) : m.next a = (l ++ [a]).head? := by
  cases l with
  | nil => exact (h.chain.rel_head? rfl).1
  | cons x l => exact (h.chain.rel_head? rfl).1

/-- The node before the head is the last one. -/
theorem Circle.prev_eq (h : m.Circle a l) : m.prev a = (a :: l).getLast? := by
  have hjoin : (a :: l ++ [a]).IsChain m.Linked := h.chain
  obtain ⟨-, -, hlast⟩ := List.isChain_append.mp hjoin
  rw [List.getLast?_eq_some_getLast (List.cons_ne_nil a l)]
  exact (hlast _ (List.getLast?_eq_some_getLast _) a rfl).2

/-! ## Linking -/

section Link

variable [DecidableEq α]

/-- `y` is made to come behind `x`. -/
def link (m : Links α) (x y : α) : Links α where
  next := Function.update m.next x (some y)
  prev := Function.update m.prev y (some x)

theorem linked_link (m : Links α) (x y : α) : (m.link x y).Linked x y :=
  ⟨Function.update_self .., Function.update_self ..⟩

/-- Other links stay. -/
theorem Linked.link {u v : α} (h : m.Linked u v) (hu : u ≠ x) (hv : v ≠ y) :
    (m.link x y).Linked u v :=
  ⟨(Function.update_of_ne hu ..).trans h.1, (Function.update_of_ne hv ..).trans h.2⟩

/-- **Frame**: a row keeps its links if nothing is written to its inside. -/
theorem isChain_link (h : l.IsChain m.Linked) (hx : x ∉ l.dropLast) (hy : y ∉ l.tail) :
    l.IsChain (m.link x y).Linked := by
  induction l with
  | nil => exact .nil
  | cons u l ih =>
    cases l with
    | nil => exact .singleton u
    | cons v l =>
      rw [List.dropLast_cons_cons, List.mem_cons, not_or] at hx
      rw [List.tail_cons, List.mem_cons, not_or] at hy
      rw [List.isChain_cons_cons] at h ⊢
      exact ⟨h.1.link (Ne.symm hx.1) (Ne.symm hy.1), ih h.2 hx.2 hy.2⟩

/-- A node that is linked to itself is a circle. -/
theorem circle_link_self (m : Links α) (a : α) : (m.link a a).Circle a [] :=
  ⟨List.isChain_pair.mpr (m.linked_link a a), List.nodup_singleton a⟩

/-- **Inserting** a row behind the head: the head is linked with the first node of the row, and
the last one with the node that was behind the head. -/
theorem Circle.insert {z n : α} (h : m.Circle a l) (hrow : (x :: k).IsChain m.Linked)
    (hnodup : (x :: k).Nodup) (hdisjoint : (a :: l).Disjoint (x :: k))
    (hz : (x :: k).getLast? = some z) (hn : (l ++ [a]).head? = some n) :
    ((m.link a x).link z n).Circle a (x :: k ++ l) := by
  have hax : a ∉ x :: k := fun hmem => hdisjoint List.mem_cons_self hmem
  have hzmem : z ∈ x :: k := List.mem_of_getLast? hz
  have hnmem : n ∈ a :: l := by
    have hmem := List.mem_of_head? hn
    rwa [List.mem_append, List.mem_singleton, or_comm, ← List.mem_cons] at hmem
  have hzl : z ∉ a :: l := fun hmem => hdisjoint hmem hzmem
  have hnk : n ∉ x :: k := fun hmem => hdisjoint hnmem hmem
  -- the row, and what was behind the head, are rows as before
  have hmiddle : (x :: k).IsChain ((m.link a x).link z n).Linked := by
    refine isChain_link (isChain_link hrow ?_ ?_) ?_ ?_
    · exact fun hmem => hax (List.dropLast_subset _ hmem)
    · exact (List.nodup_cons.mp hnodup).1
    · intro hmem
      obtain ⟨before, hbefore⟩ := List.getLast?_eq_some_iff.mp hz
      rw [hbefore, List.dropLast_concat] at hmem
      rw [hbefore] at hnodup
      exact (List.nodup_append.mp hnodup).2.2 z hmem z (List.mem_singleton_self z) rfl
    · exact fun hmem => hnk (List.mem_cons_of_mem x hmem)
  have hrest : (l ++ [a]).IsChain ((m.link a x).link z n).Linked := by
    refine isChain_link (isChain_link h.chain.tail ?_ ?_) ?_ ?_
    · rw [List.dropLast_concat]
      exact (List.nodup_cons.mp h.nodup).1
    · intro hmem
      have hx : x ∈ a :: l := by
        have := List.mem_of_mem_tail hmem
        rwa [List.mem_append, List.mem_singleton, or_comm, ← List.mem_cons] at this
      exact hdisjoint hx List.mem_cons_self
    · rw [List.dropLast_concat]
      exact fun hmem => hzl (List.mem_cons_of_mem a hmem)
    · cases l with
      | nil => exact List.not_mem_nil
      | cons y l =>
        cases hn
        rw [List.cons_append, List.tail_cons, List.mem_append, List.mem_singleton, not_or]
        have hcons := List.nodup_cons.mp h.nodup
        exact ⟨(List.nodup_cons.mp hcons.2).1, fun hy => hcons.1 (hy ▸ List.mem_cons_self)⟩
  refine ⟨?_, ?_⟩
  · show ([a] ++ ((x :: k ++ l) ++ [a])).IsChain _
    rw [List.append_assoc]
    refine List.isChain_append.mpr ⟨.singleton a, List.isChain_append.mpr ⟨hmiddle, hrest, ?_⟩, ?_⟩
    · intro u hu v hv
      rw [hz] at hu
      rw [hn] at hv
      cases hu
      cases hv
      exact linked_link _ z n
    · intro u hu v hv
      cases hu
      cases hv
      refine (linked_link m a x).link (fun haz => ?_) fun hxn => hnk (hxn ▸ List.mem_cons_self)
      exact hzl (haz ▸ List.mem_cons_self)
  · have hperm : (a :: (x :: k ++ l)).Perm (a :: l ++ x :: k) :=
      List.Perm.cons a List.perm_append_comm
    rw [hperm.nodup_iff, List.nodup_append]
    exact ⟨h.nodup, hnodup, fun u hu v hv huv => hdisjoint hu (huv ▸ hv)⟩

/-- **Removing** the node behind the head: the head is linked with the next one. -/
theorem Circle.remove {n : α} (h : m.Circle a (x :: l)) (hn : (l ++ [a]).head? = some n) :
    (m.link a n).Circle a l := by
  obtain ⟨hax, hnodup⟩ := List.nodup_cons.mp h.nodup
  rw [List.mem_cons, not_or] at hax
  refine ⟨?_, List.nodup_cons.mpr ⟨hax.2, (List.nodup_cons.mp hnodup).2⟩⟩
  have hrest : (l ++ [a]).IsChain (m.link a n).Linked := by
    refine isChain_link h.chain.tail.tail ?_ ?_
    · rw [List.dropLast_concat]
      exact hax.2
    · cases l with
      | nil => exact List.not_mem_nil
      | cons y l =>
        cases hn
        rw [List.cons_append, List.tail_cons, List.mem_append, List.mem_singleton, not_or]
        refine ⟨(List.nodup_cons.mp (List.nodup_cons.mp hnodup).2).1, fun hy => ?_⟩
        exact hax.2 (hy ▸ List.mem_cons_self)
  refine List.isChain_cons.mpr ⟨fun v hv => ?_, hrest⟩
  rw [hn] at hv
  cases hv
  exact linked_link m a n

end Link

/-! ## Walking -/

section Walk

variable [DecidableEq α]

/-- The nodes from `x` on until `stop` is reached, if it is, with at most `fuel` steps. -/
def walk (step : α → Option α) (stop : α) : Nat → α → Option (List α)
  | 0, _ => none
  | fuel + 1, x =>
    if x = stop then some []
    else (step x).bind fun y => (walk step stop fuel y).map (x :: ·)

/-- A row that leads to `stop` is what a walk along it finds. -/
theorem walk_of_isChain {step : α → Option α} {stop : α}
    (h : (l ++ [stop]).IsChain fun x y => step x = some y) (hstop : stop ∉ l) {fuel : Nat}
    (hfuel : l.length < fuel) (hx : (l ++ [stop]).head? = some x) :
    walk step stop fuel x = some l := by
  induction l generalizing fuel x with
  | nil =>
    cases hx
    obtain ⟨fuel, rfl⟩ : ∃ n, fuel = n + 1 := ⟨fuel - 1, by omega⟩
    exact if_pos rfl
  | cons y l ih =>
    cases hx
    rw [List.mem_cons, not_or] at hstop
    obtain ⟨fuel, rfl⟩ : ∃ n, fuel = n + 1 := ⟨fuel - 1, by omega⟩
    obtain ⟨z, hz⟩ : ∃ z, (l ++ [stop]).head? = some z := by
      cases l <;> exact ⟨_, rfl⟩
    rw [List.cons_append, List.isChain_cons] at h
    rw [walk, if_neg (Ne.symm hstop.1), h.1 z hz, Option.bind_some,
      ih h.2 hstop.2 (Nat.lt_of_succ_lt_succ hfuel) hz]
    rfl

/-- **Walking forward** from behind the head finds the circle in its order. -/
theorem Circle.walk_next (h : m.Circle a l) {fuel : Nat} (hfuel : l.length < fuel) :
    (m.next a).bind (walk m.next a fuel) = some l := by
  rw [h.next_eq]
  have hne : (l ++ [a]).head? ≠ none := by simp
  obtain ⟨x, hx⟩ := Option.ne_none_iff_exists'.mp hne
  rw [hx, Option.bind_some]
  exact walk_of_isChain (h.chain.tail.imp fun _ _ hxy => hxy.1) (List.nodup_cons.mp h.nodup).1
    hfuel hx

/-- **Walking back** from before the head finds it the other way round. -/
theorem Circle.walk_prev (h : m.Circle a l) {fuel : Nat} (hfuel : l.length < fuel) :
    (m.prev a).bind (walk m.prev a fuel) = some l.reverse := by
  have hback : (l.reverse ++ [a]).IsChain fun x y => m.prev x = some y := by
    have hchain : (a :: l).IsChain m.Linked :=
      (show (a :: l ++ [a]).IsChain m.Linked from h.chain).left_of_append
    rw [← List.reverse_cons, List.isChain_reverse]
    exact hchain.imp fun _ _ hxy => hxy.2
  have hhead : (l.reverse ++ [a]).head? = m.prev a := by
    rw [h.prev_eq, ← List.reverse_cons, List.head?_reverse]
  have hne : (l.reverse ++ [a]).head? ≠ none := by simp
  obtain ⟨x, hx⟩ := Option.ne_none_iff_exists'.mp hne
  rw [← hhead, hx, Option.bind_some]
  refine walk_of_isChain hback ?_ (by rwa [List.length_reverse]) hx
  rw [List.mem_reverse]
  exact (List.nodup_cons.mp h.nodup).1

end Walk

end Links

end SparkleWayland

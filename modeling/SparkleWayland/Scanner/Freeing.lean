import SparkleWayland.Scanner.Tree

/-!
# Freeing a protocol (`scanner/src/scanner.c`, `scanner/scanner.c`)

A structure is freed without being taken out of its list: the functions go through the lists that
it has with `wl_list_for_each_safe`, which has read where the next element is before the body
frees this one. `emit_header` and `emit_code` free the interfaces that way. The `main` of
`scanner/scanner.c` goes through them with `wl_list_for_each`, which looks for the next
interface in the one it has just freed.

`free` of what is gone, and any look into it, has no result here. What a structure owns besides
(names, descriptions) is left out.
-/

namespace SparkleWayland

namespace Scanner

/-- The structure that a list node is a member of. -/
def Address.node : Address → Node
  | .interfaceList => .protocol
  | .requestList n | .eventList n | .enumerationList n => .interface n
  | .argList n => .message n
  | .entryList n => .enumeration n
  | .link node => node

/-- The memory less what has been freed. -/
def ListMemory.without (m : ListMemory Address) (freed : List Node) : ListMemory Address :=
  { m with live := fun a => m.live a && decide (a.node ∉ freed) }

/-- `free` -/
def free (node : Node) (freed : List Node) : Option (List Node) :=
  if node ∈ freed then none else some (freed ++ [node])

/-- `wl_container_of` -/
def containerOf : Option Address → Option Node
  | some (.link node) => some node
  | _ => none

/-! ## The loops -/

section Loops

variable (m : ListMemory Address) (body : Node → List Node → Option (List Node)) (head : Address)

/-- The turns of `wl_list_for_each_safe`, from an element and the one behind it on. -/
def forEachSafeLoop : Nat → Option Address → Option Address → List Node → Option (List Node)
  | 0, _, _, _ => none
  | fuel + 1, pos, tmp, freed =>
    if pos = some head then some freed
    else do
      let node ← containerOf pos
      let freed ← body node freed
      let next ← (m.without freed).getNext tmp
      forEachSafeLoop fuel tmp next freed

def forEachSafe (fuel : Nat) (freed : List Node) : Option (List Node) := do
  let pos ← (m.without freed).getNext (some head)
  let tmp ← (m.without freed).getNext pos
  forEachSafeLoop m body head fuel pos tmp freed

/-- The turns of `wl_list_for_each`. -/
def forEachFreeLoop : Nat → Option Address → List Node → Option (List Node)
  | 0, _, _ => none
  | fuel + 1, pos, freed =>
    if pos = some head then some freed
    else do
      let node ← containerOf pos
      let freed ← body node freed
      let next ← (m.without freed).getNext pos
      forEachFreeLoop fuel next freed

def forEachFree (fuel : Nat) (freed : List Node) : Option (List Node) := do
  let pos ← (m.without freed).getNext (some head)
  forEachFreeLoop m body head fuel pos freed

end Loops

/-! ## The functions -/

/-- `free_arg` -/
def freeArg : Node → List Node → Option (List Node)
  | .arg n k, freed => free (.arg n k) freed
  | _, _ => none

/-- `free_message` -/
def freeMessage (m : ListMemory Address) (fuel : Nat) : Node → List Node → Option (List Node)
  | .message n, freed => do
    let freed ← forEachSafe m freeArg (.argList n) fuel freed
    free (.message n) freed
  | _, _ => none

/-- `free_entry` -/
def freeEntry : Node → List Node → Option (List Node)
  | .entry n k, freed => free (.entry n k) freed
  | _, _ => none

/-- `free_enumeration` -/
def freeEnumeration (m : ListMemory Address) (fuel : Nat) : Node → List Node → Option (List Node)
  | .enumeration n, freed => do
    let freed ← forEachSafe m freeEntry (.entryList n) fuel freed
    free (.enumeration n) freed
  | _, _ => none

/-- `free_interface` -/
def freeInterface (m : ListMemory Address) (fuel : Nat) : Node → List Node → Option (List Node)
  | .interface n, freed => do
    let freed ← forEachSafe m (freeMessage m fuel) (.requestList n) fuel freed
    let freed ← forEachSafe m (freeMessage m fuel) (.eventList n) fuel freed
    let freed ← forEachSafe m (freeEnumeration m fuel) (.enumerationList n) fuel freed
    free (.interface n) freed
  | _, _ => none

/-- The last loop of `emit_header` and of `emit_code`. -/
def emitFrees (m : ListMemory Address) (fuel : Nat) : Option (List Node) :=
  forEachSafe m (freeInterface m fuel) .interfaceList fuel []

/-- The last loop of `main` in `scanner/scanner.c`. -/
def mainFrees (m : ListMemory Address) (fuel : Nat) : Option (List Node) :=
  forEachFree m (freeInterface m fuel) .interfaceList fuel []

/-! ## A loop over a list -/

section Loop

variable {m : ListMemory Address} {body : Node → List Node → Option (List Node)} {head : Address}
  {parts : Node → List Node} {l : List Node} {freed : List Node}

theorem getNext_without (hlive : ∀ x, m.live x = true) {a : Address} (ha : a.node ∉ freed) :
    (m.without freed).getNext (some a) = some (m.next a) := by
  refine ListMemory.getNext_some ?_
  show (m.live a && decide (a.node ∉ freed)) = true
  rw [hlive, decide_eq_true ha]
  rfl

/-- What the loop relies on: the body frees the parts of an element, the element among them, and
no part is of two elements, of the head, or gone already. -/
structure Frees (body : Node → List Node → Option (List Node)) (parts : Node → List Node)
    (head : Address) (l freed : List Node) : Prop where
  body : ∀ node ∈ l, ∀ freed, (∀ x ∈ parts node, x ∉ freed) →
    body node freed = some (freed ++ parts node)
  self : ∀ node ∈ l, node ∈ parts node
  apart : l.Pairwise fun x y => (parts x).Disjoint (parts y)
  fresh : ∀ node ∈ l, ∀ x ∈ parts node, x ∉ freed
  kept : ∀ node ∈ l, head.node ∉ parts node
  head : head.node ∉ freed

theorem Frees.tail {node : Node} (h : Frees body parts head (node :: l) freed) :
    Frees body parts head l (freed ++ parts node) where
  body x hx := h.body x (List.mem_cons_of_mem node hx)
  self x hx := h.self x (List.mem_cons_of_mem node hx)
  apart := (List.pairwise_cons.mp h.apart).2
  fresh x hx y hy hmem := by
    rcases List.mem_append.mp hmem with hmem | hmem
    · exact h.fresh x (List.mem_cons_of_mem node hx) y hy hmem
    · exact (List.pairwise_cons.mp h.apart).1 x hx hmem hy
  kept x hx := h.kept x (List.mem_cons_of_mem node hx)
  head hmem := by
    rcases List.mem_append.mp hmem with hmem | hmem
    · exact h.head hmem
    · exact h.kept node List.mem_cons_self hmem

/-- The addresses that a loop over a list comes to. -/
def row (head : Address) (l : List Node) : List Address := l.map .link ++ [head]

/-- **The safe loop** frees the parts of all elements, one after the other. -/
theorem forEachSafeLoop_eq (hlive : ∀ x, m.live x = true) (hhead : ∀ node, head ≠ .link node)
    (hchain : (row head l).IsChain fun x y => m.next x = some y)
    (h : Frees body parts head l freed) {fuel : Nat} (hfuel : l.length < fuel)
    {tmp : Option Address} (htmp : ∀ node l', l = node :: l' → tmp = (row head l').head?) :
    forEachSafeLoop m body head fuel (row head l).head? tmp freed =
      some (freed ++ l.flatMap parts) := by
  induction l generalizing freed fuel tmp with
  | nil =>
    obtain ⟨fuel, rfl⟩ : ∃ n, fuel = n + 1 := ⟨fuel - 1, by omega⟩
    rw [List.flatMap_nil, List.append_nil]
    exact if_pos rfl
  | cons node l ih =>
    obtain ⟨fuel, rfl⟩ : ∃ n, fuel = n + 1 := ⟨fuel - 1, by omega⟩
    have hne : (row head (node :: l)).head? ≠ some head :=
      fun heq => hhead node (Option.some.inj heq).symm
    have hrest : (row head l).IsChain fun x y => m.next x = some y := hchain.tail
    rw [forEachSafeLoop, if_neg hne, htmp node l rfl]
    show (body node freed).bind _ = _
    rw [h.body node List.mem_cons_self freed (h.fresh node List.mem_cons_self), Option.bind_some]
    -- the element behind is still there, and so is the head
    obtain ⟨a, ha, hanode⟩ : ∃ a, (row head l).head? = some a ∧ a.node ∉ freed ++ parts node := by
      cases l with
      | nil => exact ⟨head, rfl, h.tail.head⟩
      | cons y l =>
        exact ⟨.link y, rfl, h.tail.fresh y List.mem_cons_self y
          (h.tail.self y List.mem_cons_self)⟩
    have hnext : ∀ y l', l = y :: l' → m.next a = (row head l').head? := by
      rintro y l' rfl
      cases ha
      cases l' with
      | nil => exact hrest.rel_head? rfl
      | cons z l' => exact hrest.rel_head? rfl
    rw [ha, getNext_without hlive hanode, Option.bind_eq_bind, Option.bind_some, ← ha,
      ih hrest h.tail (Nat.lt_of_succ_lt_succ hfuel) hnext, List.flatMap_cons, List.append_assoc]

/-- The whole loop, over a list in memory. -/
theorem forEachSafe_eq (hlive : ∀ x, m.live x = true) (hhead : ∀ node, head ≠ .link node)
    (hcircle : m.Circle head (l.map .link)) (h : Frees body parts head l freed) {fuel : Nat}
    (hfuel : l.length < fuel) :
    forEachSafe m body head fuel freed = some (freed ++ l.flatMap parts) := by
  have hrow : (row head l).IsChain fun x y => m.next x = some y :=
    hcircle.chain.tail.imp fun _ _ hxy => hxy.1
  have hfirst : m.next head = (row head l).head? := hcircle.next_eq
  rw [forEachSafe, getNext_without hlive h.head, Option.bind_eq_bind, Option.bind_some, hfirst]
  obtain ⟨a, ha, hanode⟩ : ∃ a, (row head l).head? = some a ∧ a.node ∉ freed := by
    cases l with
    | nil => exact ⟨head, rfl, h.head⟩
    | cons y l =>
      exact ⟨.link y, rfl, h.fresh y List.mem_cons_self y (h.self y List.mem_cons_self)⟩
  rw [ha, getNext_without hlive hanode, Option.bind_some, ← ha]
  refine forEachSafeLoop_eq hlive hhead hrow h hfuel ?_
  rintro node l' rfl
  cases ha
  cases l' with
  | nil => exact hrow.rel_head? rfl
  | cons z l' => exact hrow.rel_head? rfl

/-- **The plain loop** does not survive its first element. -/
theorem forEachFree_eq_none (hlive : ∀ x, m.live x = true) (hhead : ∀ node, head ≠ .link node)
    {node : Node} (hcircle : m.Circle head ((node :: l).map .link))
    (h : Frees body parts head (node :: l) freed) (fuel : Nat) :
    forEachFree m body head fuel freed = none := by
  have hfirst : m.next head = some (.link node) := hcircle.next_eq
  rw [forEachFree, getNext_without hlive h.head, Option.bind_eq_bind, Option.bind_some, hfirst]
  cases fuel with
  | zero => rfl
  | succ fuel =>
    have hne : some (Address.link node) ≠ some head :=
      fun heq => hhead node (Option.some.inj heq).symm
    have hgone : (m.without (freed ++ parts node)).getNext (some (.link node)) = none := by
      have hdead : (m.without (freed ++ parts node)).live (.link node) = false := by
        show (m.live _ && decide (node ∉ freed ++ parts node)) = false
        rw [decide_eq_false (not_not_intro (List.mem_append_right freed
          (h.self node List.mem_cons_self))), Bool.and_false]
      rw [ListMemory.getNext, ListMemory.deref, Option.filter_some, hdead]
      rfl
    rw [forEachFreeLoop, if_neg hne]
    show (body node freed).bind _ = _
    rw [h.body node List.mem_cons_self freed (h.fresh node List.mem_cons_self), Option.bind_some,
      hgone]
    rfl

end Loop

/-! ## What belongs to what -/

namespace ParseContext

variable (ctx : ParseContext)

/-- The parts of a message: its arguments, and then itself. -/
def messageParts : Node → List Node
  | .message n => (List.range (ctx.argCount n)).map (.arg n) ++ [.message n]
  | _ => []

def enumerationParts : Node → List Node
  | .enumeration n => (List.range (ctx.entryCount n)).map (.entry n) ++ [.enumeration n]
  | _ => []

/-- The parts of an interface, in the order in which `free_interface` comes to them. -/
def interfaceParts : Node → List Node
  | .interface n =>
    match ctx.interfaces[n]? with
    | some i =>
      (i.requestList.map .message).flatMap ctx.messageParts ++
        (i.eventList.map .message).flatMap ctx.messageParts ++
        (i.enumerationList.map .enumeration).flatMap ctx.enumerationParts ++ [.interface n]
    | none => []
  | _ => []

end ParseContext

/-- The message of an argument, and the enumeration of an entry. -/
def Node.unit : Node → Node
  | .arg n _ => .message n
  | .entry n _ => .enumeration n
  | node => node

namespace ParseContext

variable {ctx : ParseContext} {m : ListMemory Address} {n : Nat}

theorem unit_of_messageParts {x : Node} (hx : x ∈ ctx.messageParts (.message n)) :
    x.unit = .message n := by
  rcases List.mem_append.mp hx with hx | hx
  · obtain ⟨k, -, rfl⟩ := List.mem_map.mp hx
    rfl
  · rw [List.mem_singleton.mp hx]
    rfl

theorem unit_of_enumerationParts {x : Node} (hx : x ∈ ctx.enumerationParts (.enumeration n)) :
    x.unit = .enumeration n := by
  rcases List.mem_append.mp hx with hx | hx
  · obtain ⟨k, -, rfl⟩ := List.mem_map.mp hx
    rfl
  · rw [List.mem_singleton.mp hx]
    rfl

/-- The parts of an interface are itself, and the units in its lists with what is theirs. -/
theorem mem_interfaceParts {i : Interface} (hi : ctx.interfaces[n]? = some i) {x : Node}
    (hx : x ∈ ctx.interfaceParts (.interface n)) :
    x = .interface n ∨
      (∃ k ∈ i.requestList ++ i.eventList, x ∈ ctx.messageParts (.message k)) ∨
      ∃ k ∈ i.enumerationList, x ∈ ctx.enumerationParts (.enumeration k) := by
  rw [interfaceParts, hi] at hx
  simp only [List.mem_append, List.mem_flatMap, List.mem_map, List.mem_singleton] at hx
  rcases hx with ((⟨_, ⟨k, hk, rfl⟩, hx⟩ | ⟨_, ⟨k, hk, rfl⟩, hx⟩) | ⟨_, ⟨k, hk, rfl⟩, hx⟩) | hx
  · exact .inr (.inl ⟨k, List.mem_append_left _ hk, hx⟩)
  · exact .inr (.inl ⟨k, List.mem_append_right _ hk, hx⟩)
  · exact .inr (.inr ⟨k, hk, hx⟩)
  · exact .inl hx

theorem interfaceParts_eq {i : Interface} (hi : ctx.interfaces[n]? = some i) :
    ctx.interfaceParts (.interface n) =
      (i.requestList.map .message).flatMap ctx.messageParts ++
        (i.eventList.map .message).flatMap ctx.messageParts ++
        (i.enumerationList.map .enumeration).flatMap ctx.enumerationParts ++ [.interface n] := by
  rw [interfaceParts, hi]

theorem self_mem_messageParts (n : Nat) : .message n ∈ ctx.messageParts (.message n) :=
  List.mem_concat_self

theorem self_mem_enumerationParts (n : Nat) :
    .enumeration n ∈ ctx.enumerationParts (.enumeration n) :=
  List.mem_concat_self

/-- What is freed is what has been made. -/
theorem Ranged.mem_parts_iff (h : ctx.Ranged) {x : Node} :
    x ∈ ((List.range ctx.interfaces.length).map .interface).flatMap ctx.interfaceParts ↔
      ctx.Made x := by
  have hparts : x ∈ ((List.range ctx.interfaces.length).map .interface).flatMap
      ctx.interfaceParts ↔ ∃ n i, ctx.interfaces[n]? = some i ∧
        x ∈ ctx.interfaceParts (.interface n) := by
    rw [List.mem_flatMap]
    constructor
    · rintro ⟨_, hmem, hx⟩
      obtain ⟨n, hn, rfl⟩ := List.mem_map.mp hmem
      exact ⟨n, _, List.getElem?_eq_getElem (List.mem_range.mp hn), hx⟩
    · rintro ⟨n, i, hi, hx⟩
      obtain ⟨hn, -⟩ := List.getElem?_eq_some_iff.mp hi
      exact ⟨_, List.mem_map_of_mem (List.mem_range.mpr hn), hx⟩
  have hmessage : ∀ {k y}, k < ctx.messages.length → y ∈ ctx.messageParts (.message k) →
      ∃ n i, ctx.interfaces[n]? = some i ∧ y ∈ ctx.interfaceParts (.interface n) := by
    intro k y hk hy
    obtain ⟨i, hi, hmem⟩ := h.messageListed k hk
    obtain ⟨n, hn⟩ := List.mem_iff_getElem?.mp hi
    refine ⟨n, i, hn, ?_⟩
    rw [interfaceParts_eq hn]
    refine List.mem_append_left _ (List.mem_append_left _ ?_)
    rw [← List.flatMap_append, ← List.map_append]
    exact List.mem_flatMap.mpr ⟨_, List.mem_map_of_mem hmem, hy⟩
  have henumeration : ∀ {k y}, k < ctx.enumerations.length →
      y ∈ ctx.enumerationParts (.enumeration k) →
      ∃ n i, ctx.interfaces[n]? = some i ∧ y ∈ ctx.interfaceParts (.interface n) := by
    intro k y hk hy
    obtain ⟨i, hi, hmem⟩ := h.enumerationListed k hk
    obtain ⟨n, hn⟩ := List.mem_iff_getElem?.mp hi
    refine ⟨n, i, hn, ?_⟩
    rw [interfaceParts_eq hn]
    refine List.mem_append_left _ (List.mem_append_right _ ?_)
    exact List.mem_flatMap.mpr ⟨_, List.mem_map_of_mem hmem, hy⟩
  rw [hparts]
  constructor
  · rintro ⟨n, i, hi, hx⟩
    have himem := List.mem_of_getElem? hi
    rcases mem_interfaceParts hi hx with rfl | ⟨k, hk, hx⟩ | ⟨k, hk, hx⟩
    · exact (List.getElem?_eq_some_iff.mp hi).1
    · rcases List.mem_append.mp hx with hx | hx
      · obtain ⟨j, hj, rfl⟩ := List.mem_map.mp hx
        exact List.mem_range.mp hj
      · rw [List.mem_singleton.mp hx]
        exact h.numbered i himem k hk
    · rcases List.mem_append.mp hx with hx | hx
      · obtain ⟨j, hj, rfl⟩ := List.mem_map.mp hx
        exact List.mem_range.mp hj
      · rw [List.mem_singleton.mp hx]
        exact h.enumerated i himem k hk
  · intro hmade
    cases x with
    | protocol => exact hmade.elim
    | interface n =>
      have hi := List.getElem?_eq_getElem (l := ctx.interfaces) hmade
      exact ⟨n, _, hi, by rw [interfaceParts_eq hi]; exact List.mem_concat_self⟩
    | message n => exact hmessage hmade (self_mem_messageParts n)
    | enumeration n => exact henumeration hmade (self_mem_enumerationParts n)
    | arg n k =>
      have hn : n < ctx.messages.length := by
        by_contra hge
        have hzero : ctx.argCount n = 0 := by
          rw [argCount, List.getElem?_eq_none (Nat.le_of_not_lt hge)]
          rfl
        exact Nat.not_lt_zero k (hzero ▸ hmade)
      exact hmessage hn (List.mem_append_left _ (List.mem_map_of_mem (List.mem_range.mpr hmade)))
    | entry n k =>
      have hn : n < ctx.enumerations.length := by
        by_contra hge
        have hzero : ctx.entryCount n = 0 := by
          rw [entryCount, List.getElem?_eq_none (Nat.le_of_not_lt hge)]
          rfl
        exact Nat.not_lt_zero k (hzero ▸ hmade)
      exact henumeration hn
        (List.mem_append_left _ (List.mem_map_of_mem (List.mem_range.mpr hmade)))

end ParseContext

/-! ## The units -/

section Units

variable {m : ListMemory Address} {body : Node → List Node → Option (List Node)} {head : Address}
  {freed : List Node} {fuel : Nat}

theorem free_of_not_mem {node : Node} (h : node ∉ freed) :
    free node freed = some (freed ++ [node]) :=
  if_neg h

/-- A message with its arguments, or an enumeration with its entries. -/
theorem unit_eq (hlive : ∀ x, m.live x = true) {u : Node} {f : Nat → Node} {count : Nat}
    (hf : Function.Injective f) (hfu : ∀ k, f k ≠ u) (hu : head.node = u)
    (hhead : ∀ node, head ≠ .link node)
    (hcircle : m.Circle head (((List.range count).map f).map .link))
    (hbody : ∀ k freed, body (f k) freed = free (f k) freed) (hfuel : count < fuel)
    (hfreed : ∀ x ∈ (List.range count).map f ++ [u], x ∉ freed) :
    (forEachSafe m body head fuel freed).bind (free u) =
      some (freed ++ ((List.range count).map f ++ [u])) := by
  have hnotmem : ∀ node ∈ (List.range count).map f, node ≠ u := by
    intro node hnode
    obtain ⟨k, -, rfl⟩ := List.mem_map.mp hnode
    exact hfu k
  have hfrees : Frees body (fun node => [node]) head ((List.range count).map f) freed := by
    refine ⟨?_, fun _ _ => List.mem_singleton_self _, ?_, ?_, ?_, ?_⟩
    · intro node hnode freed' hfreed'
      obtain ⟨k, -, rfl⟩ := List.mem_map.mp hnode
      rw [hbody]
      exact free_of_not_mem (hfreed' _ (List.mem_singleton_self _))
    · refine (List.nodup_range.map hf).imp fun hne y hy hy' => hne ?_
      rw [← List.mem_singleton.mp hy, ← List.mem_singleton.mp hy']
    · intro node hnode x hx
      rw [List.mem_singleton.mp hx]
      exact hfreed node (List.mem_append_left _ hnode)
    · intro node hnode hmem
      exact hnotmem node hnode (hu ▸ List.mem_singleton.mp hmem).symm
    · rw [hu]
      exact hfreed u List.mem_concat_self
  have hloop := forEachSafe_eq hlive hhead hcircle hfrees
    (show ((List.range count).map f).length < fuel by simpa using hfuel)
  rw [List.flatMap_singleton'] at hloop
  rw [hloop, Option.bind_some, ← List.append_assoc]
  refine free_of_not_mem fun hmem => ?_
  rcases List.mem_append.mp hmem with hmem | hmem
  · exact hfreed u List.mem_concat_self hmem
  · exact hnotmem u hmem rfl

/-- The units that what is in a list of an interface belongs to. -/
theorem unit_of_units {parts : Node → List Node} {f : Nat → Node} {ns : List Nat}
    (hunit : ∀ k x, x ∈ parts (f k) → x.unit = f k) {x : Node}
    (hx : x ∈ (ns.map f).flatMap parts) : ∃ k ∈ ns, x.unit = f k := by
  obtain ⟨_, hnode, hx⟩ := List.mem_flatMap.mp hx
  obtain ⟨k, hk, rfl⟩ := List.mem_map.mp hnode
  exact ⟨k, hk, hunit k x hx⟩

/-- A list of units of an interface. -/
theorem forEachSafe_units (hlive : ∀ x, m.live x = true) {parts : Node → List Node}
    {f : Nat → Node} {ns : List Nat} {n : Nat} (hf : Function.Injective f)
    (hfn : ∀ k, f k ≠ .interface n) (hunit : ∀ k x, x ∈ parts (f k) → x.unit = f k)
    (hself : ∀ k, f k ∈ parts (f k)) (hhead : ∀ node, head ≠ .link node)
    (hnode : head.node = .interface n) (hcircle : m.Circle head (ns.map (.link ∘ f)))
    (hbody : ∀ k ∈ ns, ∀ freed, (∀ x ∈ parts (f k), x ∉ freed) →
      body (f k) freed = some (freed ++ parts (f k)))
    (hfuel : ns.length < fuel) (hfresh : ∀ x ∈ (ns.map f).flatMap parts, x ∉ freed)
    (hgone : .interface n ∉ freed) :
    forEachSafe m body head fuel freed = some (freed ++ (ns.map f).flatMap parts) := by
  have hns : ns.Nodup := List.Nodup.of_map _ (List.nodup_cons.mp hcircle.nodup).2
  have hfrees : Frees body parts head (ns.map f) freed := by
    refine ⟨fun node hnode => ?_, fun node hnode => ?_, ?_, fun node hnode x hx => ?_,
      fun node hnode' hmem => ?_, hnode ▸ hgone⟩
    · obtain ⟨k, hk, rfl⟩ := List.mem_map.mp hnode
      exact hbody k hk
    · obtain ⟨k, -, rfl⟩ := List.mem_map.mp hnode
      exact hself k
    · rw [List.pairwise_map]
      refine hns.imp fun {j k} hne x hx hx' => hne (hf ?_)
      rw [← hunit j x hx, hunit k x hx']
    · exact hfresh x (List.mem_flatMap.mpr ⟨node, hnode, hx⟩)
    · obtain ⟨k, -, rfl⟩ := List.mem_map.mp hnode'
      rw [hnode] at hmem
      exact hfn k (hunit k _ hmem).symm
  rw [← List.map_map] at hcircle
  exact forEachSafe_eq hlive hhead hcircle hfrees (by rwa [List.length_map])

end Units

namespace ParseContext

variable {ctx : ParseContext} {m : ListMemory Address} {n fuel : Nat} {freed : List Node}

theorem Linked.freeMessage_eq (h : ctx.Linked m) (hn : n < ctx.messages.length)
    (hfuel : ctx.argCount n < fuel) (hfreed : ∀ x ∈ ctx.messageParts (.message n), x ∉ freed) :
    freeMessage m fuel (.message n) freed = some (freed ++ ctx.messageParts (.message n)) := by
  obtain ⟨msg, hmsg⟩ : ∃ msg, ctx.messages[n]? = some msg := ⟨_, List.getElem?_eq_getElem hn⟩
  have hlist : ctx.lists (.argList n) =
      some (((List.range (ctx.argCount n)).map (.arg n)).map .link) := by
    rw [lists, argCount, hmsg, List.map_map]
    rfl
  refine unit_eq h.represents.live (fun _ _ heq => ?_) (fun _ heq => Node.noConfusion heq) rfl
    (fun _ heq => Address.noConfusion heq) (h.represents.circle _ _ hlist) (fun _ _ => rfl) hfuel
    hfreed
  cases heq
  rfl

theorem Linked.freeEnumeration_eq (h : ctx.Linked m) (hn : n < ctx.enumerations.length)
    (hfuel : ctx.entryCount n < fuel)
    (hfreed : ∀ x ∈ ctx.enumerationParts (.enumeration n), x ∉ freed) :
    freeEnumeration m fuel (.enumeration n) freed =
      some (freed ++ ctx.enumerationParts (.enumeration n)) := by
  obtain ⟨e, he⟩ : ∃ e, ctx.enumerations[n]? = some e := ⟨_, List.getElem?_eq_getElem hn⟩
  have hlist : ctx.lists (.entryList n) =
      some (((List.range (ctx.entryCount n)).map (.entry n)).map .link) := by
    rw [lists, entryCount, he, List.map_map]
    rfl
  refine unit_eq h.represents.live (fun _ _ heq => ?_) (fun _ heq => Node.noConfusion heq) rfl
    (fun _ heq => Address.noConfusion heq) (h.represents.circle _ _ hlist) (fun _ _ => rfl) hfuel
    hfreed
  cases heq
  rfl

/-- Enough turns for every list. -/
def Fits (ctx : ParseContext) (fuel : Nat) : Prop :=
  ctx.interfaces.length < fuel ∧
    (∀ i ∈ ctx.interfaces, i.requestList.length < fuel ∧ i.eventList.length < fuel ∧
      i.enumerationList.length < fuel) ∧
    (∀ msg ∈ ctx.messages, msg.argList.length < fuel) ∧
    ∀ e ∈ ctx.enumerations, e.entryList.length < fuel

theorem exists_bound {α : Type} (l : List α) (f : α → Nat) : ∃ bound, ∀ x ∈ l, f x < bound := by
  induction l with
  | nil => exact ⟨0, nofun⟩
  | cons x l ih =>
    obtain ⟨bound, hbound⟩ := ih
    refine ⟨max (f x + 1) bound, List.forall_mem_cons.mpr ⟨?_, fun y hy => ?_⟩⟩
    · exact Nat.lt_of_lt_of_le (Nat.lt_succ_self _) (Nat.le_max_left _ _)
    · exact Nat.lt_of_lt_of_le (hbound y hy) (Nat.le_max_right _ _)

theorem exists_fits (ctx : ParseContext) : ∃ bound, ∀ fuel, bound ≤ fuel → ctx.Fits fuel := by
  obtain ⟨b₁, h₁⟩ := exists_bound ctx.interfaces
    fun i => i.requestList.length + i.eventList.length + i.enumerationList.length
  obtain ⟨b₂, h₂⟩ := exists_bound ctx.messages fun msg => msg.argList.length
  obtain ⟨b₃, h₃⟩ := exists_bound ctx.enumerations fun e => e.entryList.length
  refine ⟨ctx.interfaces.length + 1 + b₁ + b₂ + b₃, fun fuel hfuel => ⟨by omega, ?_, ?_, ?_⟩⟩
  · intro i hi
    have := h₁ i hi
    omega
  · intro msg hmsg
    have := h₂ msg hmsg
    omega
  · intro e he
    have := h₃ e he
    omega

theorem Fits.argCount_lt (h : ctx.Fits fuel) (hn : n < ctx.messages.length) :
    ctx.argCount n < fuel := by
  rw [argCount, List.getElem?_eq_getElem hn]
  exact h.2.2.1 _ (List.getElem_mem hn)

theorem Fits.entryCount_lt (h : ctx.Fits fuel) (hn : n < ctx.enumerations.length) :
    ctx.entryCount n < fuel := by
  rw [entryCount, List.getElem?_eq_getElem hn]
  exact h.2.2.2 _ (List.getElem_mem hn)

/-- A number is not in two lists. -/
theorem Linked.not_mem_both (h : ctx.Linked m) {head head' : Address} {f : Nat → Node}
    {ns ns' : List Nat} (hl : ctx.lists head = some (ns.map (.link ∘ f)))
    (hl' : ctx.lists head' = some (ns'.map (.link ∘ f))) (hne : head ≠ head') {k : Nat}
    (hk : k ∈ ns) : k ∉ ns' := by
  intro hk'
  have hmem : ∀ {ns : List Nat}, k ∈ ns → (Address.link ∘ f) k ∈ ns.map (.link ∘ f) :=
    fun hk => List.mem_map_of_mem hk
  exact h.represents.disjoint _ _ _ _ hl hl' hne (List.mem_cons_of_mem head (hmem hk))
    (List.mem_cons_of_mem head' (hmem hk'))

section Interface

variable {i : Interface}

theorem lists_requestList (hi : ctx.interfaces[n]? = some i) :
    ctx.lists (.requestList n) = some (i.requestList.map (.link ∘ .message)) := by
  rw [lists, hi]
  rfl

theorem lists_eventList (hi : ctx.interfaces[n]? = some i) :
    ctx.lists (.eventList n) = some (i.eventList.map (.link ∘ .message)) := by
  rw [lists, hi]
  rfl

theorem lists_enumerationList (hi : ctx.interfaces[n]? = some i) :
    ctx.lists (.enumerationList n) = some (i.enumerationList.map (.link ∘ .enumeration)) := by
  rw [lists, hi]
  rfl

theorem message_injective : Function.Injective Node.message := by
  rintro j k ⟨⟩
  rfl

theorem enumeration_injective : Function.Injective Node.enumeration := by
  rintro j k ⟨⟩
  rfl

/-- `free_interface` frees the parts of the interface. -/
theorem Linked.freeInterface_eq (h : ctx.Linked m) (hi : ctx.interfaces[n]? = some i)
    (hfuel : ctx.Fits fuel) (hfreed : ∀ x ∈ ctx.interfaceParts (.interface n), x ∉ freed) :
    freeInterface m fuel (.interface n) freed =
      some (freed ++ ctx.interfaceParts (.interface n)) := by
  have himem := List.mem_of_getElem? hi
  rw [interfaceParts_eq hi] at hfreed ⊢
  have hrequests := lists_requestList hi
  have hevents := lists_eventList hi
  have henums := lists_enumerationList hi
  have hlive := h.represents.live
  have hmessageBody : ∀ k ∈ i.requestList ++ i.eventList, ∀ freed,
      (∀ x ∈ ctx.messageParts (.message k), x ∉ freed) →
        freeMessage m fuel (.message k) freed = some (freed ++ ctx.messageParts (.message k)) := by
    intro k hk freed hfreed
    have hlt := h.ranged.numbered i himem k hk
    exact h.freeMessage_eq hlt (hfuel.argCount_lt hlt) hfreed
  have henumBody : ∀ k ∈ i.enumerationList, ∀ freed,
      (∀ x ∈ ctx.enumerationParts (.enumeration k), x ∉ freed) →
        freeEnumeration m fuel (.enumeration k) freed =
          some (freed ++ ctx.enumerationParts (.enumeration k)) := by
    intro k hk freed hfreed
    have hlt := h.ranged.enumerated i himem k hk
    exact h.freeEnumeration_eq hlt (hfuel.entryCount_lt hlt) hfreed
  obtain ⟨-, hfits, -⟩ := hfuel
  obtain ⟨hrequestFuel, heventFuel, henumFuel⟩ := hfits i himem
  -- what the three loops free is of different units, none of them the interface itself
  have hrequestUnit : ∀ x ∈ (i.requestList.map .message).flatMap ctx.messageParts,
      ∃ k ∈ i.requestList, x.unit = .message k :=
    fun _ => unit_of_units fun _ _ => unit_of_messageParts
  have heventUnit : ∀ x ∈ (i.eventList.map .message).flatMap ctx.messageParts,
      ∃ k ∈ i.eventList, x.unit = .message k :=
    fun _ => unit_of_units fun _ _ => unit_of_messageParts
  have henumUnit : ∀ x ∈ (i.enumerationList.map .enumeration).flatMap ctx.enumerationParts,
      ∃ k ∈ i.enumerationList, x.unit = .enumeration k :=
    fun _ => unit_of_units fun _ _ => unit_of_enumerationParts
  simp only [List.mem_append, List.mem_singleton] at hfreed
  have hself : Node.interface n ∉ freed := hfreed _ (.inr rfl)
  have hevent : ∀ x ∈ (i.eventList.map .message).flatMap ctx.messageParts,
      x ∉ freed ++ (i.requestList.map .message).flatMap ctx.messageParts := by
    intro x hx hmem
    rcases List.mem_append.mp hmem with hmem | hmem
    · exact hfreed x (.inl (.inl (.inr hx))) hmem
    · obtain ⟨j, hj, hunit⟩ := hrequestUnit x hmem
      obtain ⟨k, hk, hunit'⟩ := heventUnit x hx
      cases hunit.symm.trans hunit'
      exact h.not_mem_both hrequests hevents (by simp) hj hk
  have henum : ∀ x ∈ (i.enumerationList.map .enumeration).flatMap ctx.enumerationParts,
      x ∉ freed ++ (i.requestList.map .message).flatMap ctx.messageParts ++
        (i.eventList.map .message).flatMap ctx.messageParts := by
    intro x hx hmem
    obtain ⟨k, -, hunit⟩ := henumUnit x hx
    rcases List.mem_append.mp hmem with hmem | hmem
    · rcases List.mem_append.mp hmem with hmem | hmem
      · exact hfreed x (.inl (.inr hx)) hmem
      · obtain ⟨j, -, hunit'⟩ := hrequestUnit x hmem
        cases hunit.symm.trans hunit'
    · obtain ⟨j, -, hunit'⟩ := heventUnit x hmem
      cases hunit.symm.trans hunit'
  have hself₁ : Node.interface n ∉
      freed ++ (i.requestList.map .message).flatMap ctx.messageParts := by
    intro hmem
    rcases List.mem_append.mp hmem with hmem | hmem
    · exact hself hmem
    · obtain ⟨j, -, hunit⟩ := hrequestUnit _ hmem
      cases hunit
  have hself₂ : Node.interface n ∉ freed ++
      (i.requestList.map .message).flatMap ctx.messageParts ++
      (i.eventList.map .message).flatMap ctx.messageParts := by
    intro hmem
    rcases List.mem_append.mp hmem with hmem | hmem
    · exact hself₁ hmem
    · obtain ⟨j, -, hunit⟩ := heventUnit _ hmem
      cases hunit
  have hself₃ : Node.interface n ∉ freed ++
      (i.requestList.map .message).flatMap ctx.messageParts ++
      (i.eventList.map .message).flatMap ctx.messageParts ++
      (i.enumerationList.map .enumeration).flatMap ctx.enumerationParts := by
    intro hmem
    rcases List.mem_append.mp hmem with hmem | hmem
    · exact hself₂ hmem
    · obtain ⟨j, -, hunit⟩ := henumUnit _ hmem
      cases hunit
  have hloop₁ := forEachSafe_units hlive message_injective (fun _ => nofun)
    (fun _ _ => unit_of_messageParts) ctx.self_mem_messageParts (by simp) rfl
    (h.represents.circle _ _ hrequests)
    (fun k hk => hmessageBody k (List.mem_append_left _ hk)) hrequestFuel
    (fun x hx => hfreed x (.inl (.inl (.inl hx)))) hself
  have hloop₂ := forEachSafe_units hlive message_injective (fun _ => nofun)
    (fun _ _ => unit_of_messageParts) ctx.self_mem_messageParts (by simp) rfl
    (h.represents.circle _ _ hevents)
    (fun k hk => hmessageBody k (List.mem_append_right _ hk)) heventFuel hevent hself₁
  have hloop₃ := forEachSafe_units hlive enumeration_injective (fun _ => nofun)
    (fun _ _ => unit_of_enumerationParts) ctx.self_mem_enumerationParts (by simp) rfl
    (h.represents.circle _ _ henums) henumBody henumFuel henum hself₂
  rw [freeInterface, hloop₁, Option.bind_eq_bind, Option.bind_some, hloop₂, Option.bind_some,
    hloop₃, Option.bind_some, free_of_not_mem hself₃]
  simp only [List.append_assoc]

end Interface

/-- The units of an interface's parts. -/
theorem unit_of_interfaceParts {i : Interface} (hi : ctx.interfaces[n]? = some i) {x : Node}
    (hx : x ∈ ctx.interfaceParts (.interface n)) :
    x.unit = .interface n ∨ (∃ k ∈ i.requestList ++ i.eventList, x.unit = .message k) ∨
      ∃ k ∈ i.enumerationList, x.unit = .enumeration k := by
  rcases mem_interfaceParts hi hx with rfl | ⟨k, hk, hx⟩ | ⟨k, hk, hx⟩
  · exact .inl rfl
  · exact .inr (.inl ⟨k, hk, unit_of_messageParts hx⟩)
  · exact .inr (.inr ⟨k, hk, unit_of_enumerationParts hx⟩)

/-- A message is of one interface. -/
theorem Linked.message_apart (h : ctx.Linked m) {j : Nat} {i i' : Interface}
    (hi : ctx.interfaces[n]? = some i) (hi' : ctx.interfaces[j]? = some i') (hne : n ≠ j) {k : Nat}
    (hk : k ∈ i.requestList ++ i.eventList) : k ∉ i'.requestList ++ i'.eventList := by
  rw [List.mem_append, not_or]
  rcases List.mem_append.mp hk with hk | hk
  · have hl := lists_requestList hi
    exact ⟨h.not_mem_both hl (lists_requestList hi') (by simpa using hne) hk,
      h.not_mem_both hl (lists_eventList hi') (by simp) hk⟩
  · have hl := lists_eventList hi
    exact ⟨h.not_mem_both hl (lists_requestList hi') (by simp) hk,
      h.not_mem_both hl (lists_eventList hi') (by simpa using hne) hk⟩

/-- Nothing is a part of two interfaces. -/
theorem Linked.interfaceParts_disjoint (h : ctx.Linked m) {j : Nat} (hne : n ≠ j) :
    (ctx.interfaceParts (.interface n)).Disjoint (ctx.interfaceParts (.interface j)) := by
  have hsome : ∀ {n x}, x ∈ ctx.interfaceParts (.interface n) →
      ∃ i, ctx.interfaces[n]? = some i := by
    intro n x hx
    cases hi : ctx.interfaces[n]? with
    | none =>
      rw [interfaceParts, hi] at hx
      exact (List.not_mem_nil hx).elim
    | some i => exact ⟨i, rfl⟩
  intro x hx hx'
  obtain ⟨i, hi⟩ := hsome hx
  obtain ⟨i', hi'⟩ := hsome hx'
  rcases unit_of_interfaceParts hi hx with hu | ⟨k, hk, hu⟩ | ⟨k, hk, hu⟩ <;>
    rcases unit_of_interfaceParts hi' hx' with hu' | ⟨k', hk', hu'⟩ | ⟨k', hk', hu'⟩ <;>
    cases hu.symm.trans hu'
  · exact hne rfl
  · exact h.message_apart hi hi' hne hk hk'
  · exact h.not_mem_both (lists_enumerationList hi) (lists_enumerationList hi') (by simpa using hne)
      hk hk'

/-- What the loops over the interfaces rely on. -/
theorem Linked.frees_interfaces (h : ctx.Linked m) (hfuel : ctx.Fits fuel) :
    Frees (freeInterface m fuel) ctx.interfaceParts .interfaceList
      ((List.range ctx.interfaces.length).map .interface) [] where
  body node hnode freed hfreed := by
    obtain ⟨n, hn, rfl⟩ := List.mem_map.mp hnode
    have hi := List.getElem?_eq_getElem (List.mem_range.mp hn)
    exact h.freeInterface_eq hi hfuel hfreed
  self node hnode := by
    obtain ⟨n, hn, rfl⟩ := List.mem_map.mp hnode
    rw [interfaceParts_eq (List.getElem?_eq_getElem (List.mem_range.mp hn))]
    exact List.mem_concat_self
  apart := by
    rw [List.pairwise_map]
    exact List.nodup_range.imp fun hne => h.interfaceParts_disjoint hne
  fresh _ _ _ _ := List.not_mem_nil
  kept node hnode hmem := by
    have hmade := h.ranged.mem_parts_iff.mp (List.mem_flatMap.mpr ⟨node, hnode, hmem⟩)
    exact hmade
  head := List.not_mem_nil

end ParseContext

/-! ## Once -/

section Once

variable {m : ListMemory Address} {body : Node → List Node → Option (List Node)} {head : Address}
  {fuel : Nat} {freed freed' : List Node}

/-- What a body keeps, the loop does. -/
theorem forEachSafeLoop_keeps {P : List Node → Prop}
    (hbody : ∀ node freed freed', body node freed = some freed' → P freed → P freed')
    {pos tmp : Option Address}
    (hloop : forEachSafeLoop m body head fuel pos tmp freed = some freed')
    (hfreed : P freed) : P freed' := by
  induction fuel generalizing pos tmp freed with
  | zero => cases hloop
  | succ fuel ih =>
    rw [forEachSafeLoop] at hloop
    split at hloop
    · cases hloop
      exact hfreed
    · obtain ⟨node, -, hloop⟩ := Option.bind_eq_some_iff.mp hloop
      obtain ⟨freed₁, hnode, hloop⟩ := Option.bind_eq_some_iff.mp hloop
      obtain ⟨next, -, hloop⟩ := Option.bind_eq_some_iff.mp hloop
      exact ih hloop (hbody node freed freed₁ hnode hfreed)

theorem forEachSafe_keeps {P : List Node → Prop}
    (hbody : ∀ node freed freed', body node freed = some freed' → P freed → P freed')
    (hloop : forEachSafe m body head fuel freed = some freed') (hfreed : P freed) : P freed' := by
  obtain ⟨pos, -, hloop⟩ := Option.bind_eq_some_iff.mp hloop
  obtain ⟨tmp, -, hloop⟩ := Option.bind_eq_some_iff.mp hloop
  exact forEachSafeLoop_keeps hbody hloop hfreed

/-- Nothing is freed twice. -/
theorem free_nodup {node : Node} (h : free node freed = some freed') (hfreed : freed.Nodup) :
    freed'.Nodup := by
  obtain ⟨hnode, hfreed'⟩ := Option.ite_none_left_eq_some.mp h
  cases hfreed'
  exact List.nodup_append.mpr ⟨hfreed, List.nodup_singleton node, fun x hx y hy hxy =>
    hnode (List.mem_singleton.mp hy ▸ hxy ▸ hx)⟩

theorem freeMessage_nodup {node : Node} (h : freeMessage m fuel node freed = some freed')
    (hfreed : freed.Nodup) : freed'.Nodup := by
  cases node with
  | message n =>
    obtain ⟨freed₁, hloop, hself⟩ := Option.bind_eq_some_iff.mp h
    refine free_nodup hself (forEachSafe_keeps (fun node _ _ harg hfreed => ?_) hloop hfreed)
    cases node with
    | arg n k => exact free_nodup harg hfreed
    | _ => cases harg
  | _ => cases h

theorem freeEnumeration_nodup {node : Node} (h : freeEnumeration m fuel node freed = some freed')
    (hfreed : freed.Nodup) : freed'.Nodup := by
  cases node with
  | enumeration n =>
    obtain ⟨freed₁, hloop, hself⟩ := Option.bind_eq_some_iff.mp h
    refine free_nodup hself (forEachSafe_keeps (fun node _ _ hentry hfreed => ?_) hloop hfreed)
    cases node with
    | entry n k => exact free_nodup hentry hfreed
    | _ => cases hentry
  | _ => cases h

theorem freeInterface_nodup {node : Node} (h : freeInterface m fuel node freed = some freed')
    (hfreed : freed.Nodup) : freed'.Nodup := by
  cases node with
  | interface n =>
    obtain ⟨freed₁, hloop₁, h⟩ := Option.bind_eq_some_iff.mp h
    obtain ⟨freed₂, hloop₂, h⟩ := Option.bind_eq_some_iff.mp h
    obtain ⟨freed₃, hloop₃, hself⟩ := Option.bind_eq_some_iff.mp h
    have h₁ := forEachSafe_keeps (fun _ _ _ => freeMessage_nodup) hloop₁ hfreed
    have h₂ := forEachSafe_keeps (fun _ _ _ => freeMessage_nodup) hloop₂ h₁
    exact free_nodup hself (forEachSafe_keeps (fun _ _ _ => freeEnumeration_nodup) hloop₃ h₂)
  | _ => cases h

theorem emitFrees_nodup (h : emitFrees m fuel = some freed) : freed.Nodup :=
  forEachSafe_keeps (fun _ _ _ => freeInterface_nodup) h List.nodup_nil

end Once

/-- **Freeing**: for every document that the handlers accept, the safe loop frees whatever they
have made, and each of it once. The loop of `main` looks into what it has freed as soon as there
is an interface. -/
theorem protocol_freed {document : List XmlEvent} {ctx : ParseContext}
    (h : parse document = some ctx) {m₀ : ListMemory Address} (hlive : ∀ x, m₀.live x = true) :
    ∃ m, parseLinked m₀ document = some (ctx, m) ∧ ∃ bound, ∀ fuel, bound ≤ fuel →
      (∃ freed, emitFrees m fuel = some freed ∧ freed.Nodup ∧
        ∀ node, node ∈ freed ↔ ctx.Made node) ∧
      (mainFrees m fuel = none ↔ ctx.interfaces ≠ []) := by
  obtain ⟨m, hm, hlinked⟩ := parseLinked_represents h hlive
  obtain ⟨bound, hbound⟩ := ctx.exists_fits
  refine ⟨m, hm, bound, fun fuel hfuel => ?_⟩
  have hfits := hbound fuel hfuel
  have hfrees := hlinked.frees_interfaces hfits
  have hcircle : m.Circle .interfaceList
      (((List.range ctx.interfaces.length).map .interface).map .link) := by
    rw [List.map_map]
    exact hlinked.represents.circle _ _ rfl
  have hlength : ((List.range ctx.interfaces.length).map Node.interface).length < fuel := by
    rw [List.length_map, List.length_range]
    exact hfits.1
  have hloop := forEachSafe_eq hlinked.represents.live (by simp) hcircle hfrees hlength
  refine ⟨⟨_, hloop, emitFrees_nodup hloop, fun node => hlinked.ranged.mem_parts_iff⟩, ?_⟩
  cases hinterfaces : ctx.interfaces with
  | nil =>
    -- nothing is freed: the loops agree
    rw [hinterfaces] at hcircle
    have hfirst : m.next .interfaceList = some .interfaceList := hcircle.next_eq
    have hempty : mainFrees m fuel = some [] := by
      obtain ⟨fuel, rfl⟩ : ∃ n, fuel = n + 1 := ⟨fuel - 1, by have := hfits.1; omega⟩
      rw [mainFrees, forEachFree, getNext_without hlinked.represents.live List.not_mem_nil,
        Option.bind_eq_bind, Option.bind_some, hfirst, forEachFreeLoop, if_pos rfl]
    simp [hempty]
  | cons i rest =>
    rw [hinterfaces, List.length_cons, List.range_succ_eq_map, List.map_cons] at hcircle hfrees
    simp [mainFrees, forEachFree_eq_none hlinked.represents.live (by simp) hcircle hfrees fuel]

theorem protocol_freed_output : ∃ ctx m, parse output = some ctx ∧
    parseLinked blank output = some (ctx, m) ∧
    ∃ bound, ∀ fuel, bound ≤ fuel →
      (∃ freed, emitFrees m fuel = some freed ∧ freed.Nodup ∧ .arg 0 0 ∈ freed ∧
        .message 1 ∈ freed ∧ .entry 0 0 ∈ freed) ∧ mainFrees m fuel = none := by
  have hlive : ∀ x, blank.live x = true := fun _ => rfl
  obtain ⟨m, hm, bound, hfreed⟩ := protocol_freed parse_output hlive
  refine ⟨_, m, parse_output, hm, bound, fun fuel hfuel => ?_⟩
  obtain ⟨⟨freed, hloop, hnodup, hmem⟩, hmain⟩ := hfreed fuel hfuel
  refine ⟨⟨freed, hloop, hnodup, (hmem _).mpr ?_, (hmem _).mpr ?_, (hmem _).mpr ?_⟩,
    hmain.mpr (List.cons_ne_nil _ _)⟩
  · exact Nat.zero_lt_one
  · exact Nat.one_lt_two
  · exact Nat.zero_lt_one

end Scanner

end SparkleWayland

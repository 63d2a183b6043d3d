import SparkleWayland.Scanner.Protocol
import SparkleWayland.Scanner.WlList

/-!
# The parser's lists in memory (`scanner/src/scanner.c`)

What the handlers make are structures that know each other through `wl_list`: a protocol has a
list of interfaces, an interface three lists, a message the list of its arguments, and an
enumeration that of its entries. `parseLinked` is the parser with the calls of the list
functions that it makes on the way, and `parseLinked_represents` says that no call goes wrong,
and that the memory has the lists that `parse` numbers.
-/

namespace SparkleWayland

namespace Scanner

/-- The structures that are made, with the numbers that they have in a `ParseContext`. -/
inductive Node where
  | protocol
  | interface (n : Nat)
  | message (n : Nat)
  | arg (message n : Nat)
  | enumeration (n : Nat)
  | entry (enumeration n : Nat)
  deriving DecidableEq, Repr

/-- The `struct wl_list`s in them: heads, and the `link` of each. -/
inductive Address where
  | interfaceList
  | requestList (interface : Nat)
  | eventList (interface : Nat)
  | enumerationList (interface : Nat)
  | argList (message : Nat)
  | entryList (enumeration : Nat)
  | link (node : Node)
  deriving DecidableEq, Repr

/-- The list of requests or events. -/
def Address.messageList (event : Bool) (interface : Nat) : Address :=
  if event then .eventList interface else .requestList interface

namespace ParseContext

/-! ## The lists of a context -/

def argCount (ctx : ParseContext) (n : Nat) : Nat :=
  ((ctx.messages[n]?).map fun m => m.argList.length).getD 0

def entryCount (ctx : ParseContext) (n : Nat) : Nat :=
  ((ctx.enumerations[n]?).map fun e => e.entryList.length).getD 0

/-- The lists that the numbers of a context stand for. -/
def lists (ctx : ParseContext) : Lists Address
  | .interfaceList => some ((List.range ctx.interfaces.length).map fun n => .link (.interface n))
  | .requestList n => (ctx.interfaces[n]?).map fun i => i.requestList.map (.link ∘ .message)
  | .eventList n => (ctx.interfaces[n]?).map fun i => i.eventList.map (.link ∘ .message)
  | .enumerationList n =>
    (ctx.interfaces[n]?).map fun i => i.enumerationList.map (.link ∘ .enumeration)
  | .argList n =>
    (ctx.messages[n]?).map fun m => (List.range m.argList.length).map (.link ∘ .arg n)
  | .entryList n =>
    (ctx.enumerations[n]?).map fun e => (List.range e.entryList.length).map (.link ∘ .entry n)
  | .link _ => none

/-! ## The calls -/

/-- `interface` -/
def linkInterface (ctx : ParseContext) (m : ListMemory Address) : Option (ListMemory Address) := do
  let m ← m.wlListInit (.requestList ctx.interfaces.length)
  let m ← m.wlListInit (.eventList ctx.interfaces.length)
  let m ← m.wlListInit (.enumerationList ctx.interfaces.length)
  m.append .interfaceList (.link (.interface ctx.interfaces.length))

/-- `request` and `event` -/
def linkMessage (ctx : ParseContext) (m : ListMemory Address) (event : Bool) :
    Option (ListMemory Address) := do
  let m ← m.wlListInit (.argList ctx.messages.length)
  m.append (.messageList event (ctx.interfaces.length - 1)) (.link (.message ctx.messages.length))

/-- `arg` -/
def linkArg (ctx : ParseContext) (m : ListMemory Address) : Option (ListMemory Address) := do
  let n ← ctx.message
  m.append (.argList n) (.link (.arg n (ctx.argCount n)))

/-- `enum` -/
def linkEnum (ctx : ParseContext) (m : ListMemory Address) : Option (ListMemory Address) := do
  let m ← m.wlListInit (.entryList ctx.enumerations.length)
  m.append (.enumerationList (ctx.interfaces.length - 1))
    (.link (.enumeration ctx.enumerations.length))

/-- `entry` -/
def linkEntry (ctx : ParseContext) (m : ListMemory Address) : Option (ListMemory Address) := do
  let n ← ctx.enumeration
  m.append (.entryList n) (.link (.entry n (ctx.entryCount n)))

/-- What `start_element` calls for an element. What belongs to an interface goes to the last. -/
def linkElement (ctx : ParseContext) (m : ListMemory Address) (element : Text) :
    Option (ListMemory Address) :=
  if element = "interface".toList then ctx.linkInterface m
  else if element = "request".toList then ctx.linkMessage m false
  else if element = "event".toList then ctx.linkMessage m true
  else if element = "arg".toList then ctx.linkArg m
  else if element = "enum".toList then ctx.linkEnum m
  else if element = "entry".toList then ctx.linkEntry m
  else some m

def linkEvent (ctx : ParseContext) (m : ListMemory Address) :
    XmlEvent → Option (ListMemory Address)
  | .startElement element _ => ctx.linkElement m element
  | .endElement _ | .characterData _ => some m

/-- A handler, with what it calls. -/
def handleLinked (s : ParseContext × ListMemory Address) (event : XmlEvent) :
    Option (ParseContext × ListMemory Address) := do
  let ctx ← s.1.handle event
  let m ← s.1.linkEvent s.2 event
  some (ctx, m)

end ParseContext

/-- The whole document. `main` has made the list of the interfaces. -/
def parseLinked (m₀ : ListMemory Address) (document : List XmlEvent) :
    Option (ParseContext × ListMemory Address) := do
  let m ← m₀.wlListInit .interfaceList
  document.foldlM ParseContext.handleLinked (initial, m)

namespace ParseContext

variable {ctx ctx' : ParseContext}

/-! ## What is in no list -/

/-- The numbers lead somewhere, and everything is in some list. -/
structure Ranged (ctx : ParseContext) : Prop extends ctx.WellFormed where
  enumerated : ∀ i ∈ ctx.interfaces, ∀ n ∈ i.enumerationList, n < ctx.enumerations.length
  message : ∀ n, ctx.message = some n → n < ctx.messages.length
  enumeration : ∀ n, ctx.enumeration = some n → n < ctx.enumerations.length
  messageListed : ∀ n < ctx.messages.length, ∃ i ∈ ctx.interfaces,
    n ∈ i.requestList ++ i.eventList
  enumerationListed : ∀ n < ctx.enumerations.length, ∃ i ∈ ctx.interfaces,
    n ∈ i.enumerationList

/-- The node has been made. -/
def Made (ctx : ParseContext) : Node → Prop
  | .protocol => False
  | .interface n => n < ctx.interfaces.length
  | .message n => n < ctx.messages.length
  | .arg n k => k < ctx.argCount n
  | .enumeration n => n < ctx.enumerations.length
  | .entry n k => k < ctx.entryCount n

/-- The lists are of nodes that have been made. -/
theorem Ranged.made_of_mem (h : ctx.Ranged) {head x : Address} {l : List Address}
    (hl : ctx.lists head = some l) (hx : x ∈ l) : ∃ node, x = .link node ∧ ctx.Made node := by
  cases head with
  | interfaceList =>
    cases hl
    obtain ⟨n, hn, rfl⟩ := List.mem_map.mp hx
    exact ⟨_, rfl, List.mem_range.mp hn⟩
  | requestList n =>
    obtain ⟨i, hi, rfl⟩ := Option.map_eq_some_iff.mp hl
    obtain ⟨k, hk, rfl⟩ := List.mem_map.mp hx
    exact ⟨_, rfl, h.numbered i (List.mem_of_getElem? hi) k (List.mem_append_left _ hk)⟩
  | eventList n =>
    obtain ⟨i, hi, rfl⟩ := Option.map_eq_some_iff.mp hl
    obtain ⟨k, hk, rfl⟩ := List.mem_map.mp hx
    exact ⟨_, rfl, h.numbered i (List.mem_of_getElem? hi) k (List.mem_append_right _ hk)⟩
  | enumerationList n =>
    obtain ⟨i, hi, rfl⟩ := Option.map_eq_some_iff.mp hl
    obtain ⟨k, hk, rfl⟩ := List.mem_map.mp hx
    exact ⟨_, rfl, h.enumerated i (List.mem_of_getElem? hi) k hk⟩
  | argList n =>
    obtain ⟨m, hm, rfl⟩ := Option.map_eq_some_iff.mp hl
    obtain ⟨k, hk, rfl⟩ := List.mem_map.mp hx
    refine ⟨_, rfl, ?_⟩
    show k < ctx.argCount n
    rw [argCount, hm]
    exact List.mem_range.mp hk
  | entryList n =>
    obtain ⟨e, he, rfl⟩ := Option.map_eq_some_iff.mp hl
    obtain ⟨k, hk, rfl⟩ := List.mem_map.mp hx
    refine ⟨_, rfl, ?_⟩
    show k < ctx.entryCount n
    rw [entryCount, he]
    exact List.mem_range.mp hk
  | link node => cases hl

/-- A node that has not been made is in no list. -/
theorem Ranged.unused_link (h : ctx.Ranged) {node : Node} (hnode : ¬ ctx.Made node) :
    Lists.Unused ctx.lists (.link node) := by
  intro head l hl hmem
  rcases List.mem_cons.mp hmem with rfl | hmem
  · cases hl
  · obtain ⟨node', heq, hmade⟩ := h.made_of_mem hl hmem
    cases heq
    exact hnode hmade

/-- A head is in no list. -/
theorem Ranged.unused_head (h : ctx.Ranged) {x : Address} (hx : ctx.lists x = none)
    (hhead : ∀ node, x ≠ .link node) : Lists.Unused ctx.lists x := by
  intro head l hl hmem
  rcases List.mem_cons.mp hmem with rfl | hmem
  · rw [hx] at hl
    cases hl
  · obtain ⟨node, heq, -⟩ := h.made_of_mem hl hmem
    exact hhead node heq

/-! ## What changes in the lists -/

theorem getElem?_concat {α : Type} (l : List α) (x : α) (k : Nat) :
    (l ++ [x])[k]? = if k = l.length then some x else l[k]? := by
  rcases Nat.lt_trichotomy k l.length with hlt | rfl | hgt
  · rw [if_neg (Nat.ne_of_lt hlt), List.getElem?_append_left hlt]
  · rw [if_pos rfl, List.getElem?_concat_length]
  · rw [if_neg (Nat.ne_of_gt hgt), List.getElem?_eq_none (Nat.le_of_lt hgt),
      List.getElem?_eq_none (by rw [List.length_append]; exact hgt)]

/-- A new interface: three lists, and an element. -/
theorem lists_interface (name : Text) (version : Nat) :
    ParseContext.lists { ctx with interfaces := ctx.interfaces ++ [⟨name, version, [], [], []⟩] } =
      Function.update (Function.update (Function.update (Function.update ctx.lists
        (.requestList ctx.interfaces.length) (some []))
        (.eventList ctx.interfaces.length) (some []))
        (.enumerationList ctx.interfaces.length) (some []))
        .interfaceList (some ((List.range ctx.interfaces.length).map
          (fun n => .link (.interface n)) ++
          [.link (.interface ctx.interfaces.length)])) := by
  funext a
  cases a with
  | interfaceList => simp [lists, List.range_succ]
  | requestList n | eventList n | enumerationList n =>
    simp only [lists, getElem?_concat, Function.update_apply, reduceCtorEq, if_false,
      Address.requestList.injEq, Address.eventList.injEq, Address.enumerationList.injEq]
    split <;> rfl
  | argList n | entryList n | link node => rfl

/-- A new message: a list, and an element of one of the interface. -/
theorem lists_message {before : List Interface} {i : Interface} {msg : Message} (event : Bool)
    (hi : ctx.interfaces = before ++ [i]) (hmsg : msg.argList = []) :
    ParseContext.lists { ctx with
        interfaces := before ++ [addMessage event ctx.messages.length i]
        messages := ctx.messages ++ [msg]
        message := some ctx.messages.length } =
      Function.update (Function.update ctx.lists (.argList ctx.messages.length) (some []))
        (.messageList event before.length)
        (some ((if event then i.eventList else i.requestList).map (.link ∘ .message) ++
          [.link (.message ctx.messages.length)])) := by
  funext a
  cases event <;> cases a with
  | interfaceList => simp [lists, hi, Address.messageList]
  | requestList n | eventList n | enumerationList n | argList n =>
    simp only [lists, hi, getElem?_concat, Function.update_apply, reduceCtorEq, if_false, if_true,
      Address.messageList, Bool.false_eq_true, Address.requestList.injEq, Address.eventList.injEq,
      Address.argList.injEq]
    split <;> simp_all [addMessage]
  | entryList n | link node => rfl

/-- A new argument. -/
theorem lists_arg {n : Nat} {msg : Message} (hn : ctx.messages[n]? = some msg) (arg : Arg) :
    ParseContext.lists { ctx with messages := ctx.messages.modify n fun m =>
        { m with argList := m.argList ++ [arg], argCount := m.argCount + 1 } } =
      Function.update ctx.lists (.argList n)
        (some ((List.range msg.argList.length).map (.link ∘ .arg n) ++
          [.link (.arg n (ctx.argCount n))])) := by
  funext a
  cases a with
  | argList k =>
    simp only [lists, List.getElem?_modify, Function.update_apply, Address.argList.injEq]
    by_cases hk : k = n
    · subst hk
      simp [hn, argCount, List.range_succ]
    · simp [hk, Ne.symm hk]
  | interfaceList | requestList k | eventList k | enumerationList k | entryList k | link node => rfl

/-- A new enumeration. -/
theorem lists_enumeration {before : List Interface} {i : Interface} {e : Enumeration}
    (hi : ctx.interfaces = before ++ [i]) (he : e.entryList = []) :
    ParseContext.lists { ctx with
        interfaces := before ++
          [{ i with enumerationList := i.enumerationList ++ [ctx.enumerations.length] }]
        enumerations := ctx.enumerations ++ [e]
        enumeration := some ctx.enumerations.length } =
      Function.update (Function.update ctx.lists (.entryList ctx.enumerations.length) (some []))
        (.enumerationList before.length) (some (i.enumerationList.map (.link ∘ .enumeration) ++
          [.link (.enumeration ctx.enumerations.length)])) := by
  funext a
  cases a with
  | interfaceList => simp [lists, hi]
  | requestList n | eventList n | enumerationList n | entryList n =>
    simp only [lists, hi, getElem?_concat, Function.update_apply, reduceCtorEq, if_false,
      Address.enumerationList.injEq, Address.entryList.injEq]
    split <;> simp_all
  | argList n | link node => rfl

/-- A new entry. -/
theorem lists_entry {n : Nat} {e : Enumeration} (hn : ctx.enumerations[n]? = some e)
    (name : Text) :
    ParseContext.lists { ctx with enumerations := ctx.enumerations.modify n fun e =>
        { e with entryList := e.entryList ++ [name] } } =
      Function.update ctx.lists (.entryList n)
        (some ((List.range e.entryList.length).map (.link ∘ .entry n) ++
          [.link (.entry n (ctx.entryCount n))])) := by
  funext a
  cases a with
  | entryList k =>
    simp only [lists, List.getElem?_modify, Function.update_apply, Address.entryList.injEq]
    by_cases hk : k = n
    · subst hk
      simp [hn, entryCount, List.range_succ]
    · simp [hk, Ne.symm hk]
  | interfaceList | requestList k | eventList k | enumerationList k | argList k | link node => rfl

/-! ## The calls keep up -/

variable {m : ListMemory Address}

/-- A new list is made, and a node is put into another one. -/
theorem Ranged.init_append (h : ctx.Ranged) (hrep : Represents m ctx.lists)
    {head fresh : Address} {node : Node} {l : List Address} (hl : ctx.lists head = some l)
    (hnode : ¬ ctx.Made node) (hfresh : ctx.lists fresh = none)
    (hhead : ∀ node, fresh ≠ .link node) :
    ∃ m', ((m.wlListInit fresh).bind fun m => m.append head (.link node)) = some m' ∧
      Represents m' (Function.update (Function.update ctx.lists fresh (some [])) head
        (some (l ++ [.link node]))) := by
  have hne : head ≠ fresh := by
    rintro rfl
    rw [hfresh] at hl
    cases hl
  obtain ⟨m₁, hm₁, h₁⟩ := hrep.exec_init (h.unused_head hfresh hhead)
  obtain ⟨m₂, hm₂, h₂⟩ := h₁.append head (.link node) ((Function.update_of_ne hne ..).trans hl)
    ((h.unused_link hnode).update (by simp [(hhead node).symm]))
  exact ⟨m₂, Option.bind_eq_some_iff.mpr ⟨m₁, hm₁, hm₂⟩, h₂⟩

theorem linkInterface_represents (h : ctx.Ranged) (hrep : Represents m ctx.lists) (name : Text)
    (version : Nat) :
    ∃ m', ctx.linkInterface m = some m' ∧ Represents m' (ParseContext.lists { ctx with
      interfaces := ctx.interfaces ++ [⟨name, version, [], [], []⟩] }) := by
  have hnone : ctx.interfaces[ctx.interfaces.length]? = none :=
    List.getElem?_eq_none (Nat.le_refl _)
  have hrequests : ctx.lists (.requestList ctx.interfaces.length) = none := by
    rw [lists, hnone]
    rfl
  have hevents : ctx.lists (.eventList ctx.interfaces.length) = none := by rw [lists, hnone]; rfl
  have henums : ctx.lists (.enumerationList ctx.interfaces.length) = none := by
    rw [lists, hnone]
    rfl
  obtain ⟨m₁, hm₁, h₁⟩ := hrep.exec_init (h.unused_head hrequests nofun)
  obtain ⟨m₂, hm₂, h₂⟩ := h₁.exec_init ((h.unused_head hevents nofun).update (by simp))
  obtain ⟨m₃, hm₃, h₃⟩ := h₂.exec_init
    (((h.unused_head henums nofun).update (by simp)).update (by simp))
  have hnode : ¬ ctx.Made (.interface ctx.interfaces.length) := Nat.lt_irrefl _
  obtain ⟨m₄, hm₄, h₄⟩ := h₃.append .interfaceList (.link (.interface ctx.interfaces.length)) rfl
    ((((h.unused_link hnode).update (by simp)).update (by simp)).update (by simp))
  refine ⟨m₄, ?_, ?_⟩
  · exact Option.bind_eq_some_iff.mpr ⟨m₁, hm₁, Option.bind_eq_some_iff.mpr ⟨m₂, hm₂,
      Option.bind_eq_some_iff.mpr ⟨m₃, hm₃, hm₄⟩⟩⟩
  · rw [lists_interface]
    exact h₄

theorem linkMessage_represents (h : ctx.Ranged) (hrep : Represents m ctx.lists)
    {before : List Interface} {i : Interface} {msg : Message} (event : Bool)
    (hi : ctx.interfaces = before ++ [i]) (hmsg : msg.argList = []) :
    ∃ m', ctx.linkMessage m event = some m' ∧ Represents m' (ParseContext.lists { ctx with
      interfaces := before ++ [addMessage event ctx.messages.length i]
      messages := ctx.messages ++ [msg]
      message := some ctx.messages.length }) := by
  have hlast : ctx.interfaces[before.length]? = some i := by rw [hi, List.getElem?_concat_length]
  have hlength : ctx.interfaces.length - 1 = before.length := by
    rw [hi, List.length_append]
    rfl
  have hl : ctx.lists (.messageList event before.length) =
      some ((if event then i.eventList else i.requestList).map (.link ∘ .message)) := by
    cases event <;>
    · show (ctx.interfaces[before.length]?).map _ = _
      rw [hlast]
      rfl
  have hfresh : ctx.lists (.argList ctx.messages.length) = none := by
    rw [lists, List.getElem?_eq_none (Nat.le_refl _)]
    rfl
  rw [lists_message event hi hmsg, linkMessage, hlength]
  exact h.init_append hrep hl (Nat.lt_irrefl _) hfresh nofun

theorem linkArg_represents (h : ctx.Ranged) (hrep : Represents m ctx.lists) {n : Nat}
    (hn : ctx.message = some n) (arg : Arg) :
    ∃ m', ctx.linkArg m = some m' ∧ Represents m' (ParseContext.lists { ctx with
      messages := ctx.messages.modify n fun m =>
        { m with argList := m.argList ++ [arg], argCount := m.argCount + 1 } }) := by
  obtain ⟨msg, hmsg⟩ : ∃ msg, ctx.messages[n]? = some msg :=
    ⟨_, List.getElem?_eq_getElem (h.message n hn)⟩
  have hl : ctx.lists (.argList n) =
      some ((List.range msg.argList.length).map (.link ∘ .arg n)) := by
    rw [lists, hmsg]
    rfl
  rw [lists_arg hmsg, linkArg, hn]
  exact hrep.append _ _ hl (h.unused_link (Nat.lt_irrefl _))

theorem linkEnum_represents (h : ctx.Ranged) (hrep : Represents m ctx.lists)
    {before : List Interface} {i : Interface} {e : Enumeration}
    (hi : ctx.interfaces = before ++ [i]) (he : e.entryList = []) :
    ∃ m', ctx.linkEnum m = some m' ∧ Represents m' (ParseContext.lists { ctx with
      interfaces := before ++
        [{ i with enumerationList := i.enumerationList ++ [ctx.enumerations.length] }]
      enumerations := ctx.enumerations ++ [e]
      enumeration := some ctx.enumerations.length }) := by
  have hlast : ctx.interfaces[before.length]? = some i := by rw [hi, List.getElem?_concat_length]
  have hlength : ctx.interfaces.length - 1 = before.length := by
    rw [hi, List.length_append]
    rfl
  have hl : ctx.lists (.enumerationList before.length) =
      some (i.enumerationList.map (.link ∘ .enumeration)) := by
    rw [lists, hlast]
    rfl
  have hfresh : ctx.lists (.entryList ctx.enumerations.length) = none := by
    rw [lists, List.getElem?_eq_none (Nat.le_refl _)]
    rfl
  rw [lists_enumeration hi he, linkEnum, hlength]
  exact h.init_append hrep hl (Nat.lt_irrefl _) hfresh nofun

theorem linkEntry_represents (h : ctx.Ranged) (hrep : Represents m ctx.lists) {n : Nat}
    (hn : ctx.enumeration = some n) (name : Text) :
    ∃ m', ctx.linkEntry m = some m' ∧ Represents m' (ParseContext.lists { ctx with
      enumerations := ctx.enumerations.modify n fun e =>
        { e with entryList := e.entryList ++ [name] } }) := by
  obtain ⟨e, he⟩ : ∃ e, ctx.enumerations[n]? = some e :=
    ⟨_, List.getElem?_eq_getElem (h.enumeration n hn)⟩
  have hl : ctx.lists (.entryList n) =
      some ((List.range e.entryList.length).map (.link ∘ .entry n)) := by
    rw [lists, he]
    rfl
  rw [lists_entry he, linkEntry, hn]
  exact hrep.append _ _ hl (h.unused_link (Nat.lt_irrefl _))

/-! ## The handlers -/

theorem modifyInterface_eq {f : Interface → Interface} (h : ctx.modifyInterface f = some ctx') :
    ∃ before i, ctx.interfaces = before ++ [i] ∧
      ctx' = { ctx with interfaces := before ++ [f i] } := by
  obtain ⟨i, hi, rfl⟩ := Option.map_eq_some_iff.mp h
  refine ⟨ctx.interfaces.dropLast, i, ?_, rfl⟩
  exact (List.dropLast_append_getLast? i hi).symm

theorem startMessage_cases {event : Bool} {name type since : Option Text}
    (h : ctx.startMessage event name type since = some ctx') :
    ∃ before i msg, ctx.interfaces = before ++ [i] ∧ msg.argList = [] ∧
      ctx' = { ctx with
        interfaces := before ++ [addMessage event ctx.messages.length i]
        messages := ctx.messages ++ [msg]
        message := some ctx.messages.length } := by
  obtain ⟨name, -, h⟩ := Option.bind_eq_some_iff.mp h
  obtain ⟨ctx₁, hmodify, h⟩ := Option.bind_eq_some_iff.mp h
  obtain ⟨-, -, h⟩ := Option.bind_eq_some_iff.mp h
  obtain ⟨-, hctx'⟩ := Option.ite_none_left_eq_some.mp h
  obtain ⟨before, i, hi, rfl⟩ := modifyInterface_eq hmodify
  exact ⟨before, i, _, hi, rfl, (Option.some.inj hctx').symm⟩

theorem startEnum_cases {name bitfield : Option Text}
    (h : ctx.startEnum name bitfield = some ctx') :
    ∃ before i e, ctx.interfaces = before ++ [i] ∧ e.entryList = [] ∧
      ctx' = { ctx with
        interfaces := before ++
          [{ i with enumerationList := i.enumerationList ++ [ctx.enumerations.length] }]
        enumerations := ctx.enumerations ++ [e]
        enumeration := some ctx.enumerations.length } := by
  obtain ⟨name, -, h⟩ := Option.bind_eq_some_iff.mp h
  obtain ⟨bits, -, h⟩ := Option.bind_eq_some_iff.mp h
  obtain ⟨ctx₁, hmodify, h⟩ := Option.bind_eq_some_iff.mp h
  obtain ⟨before, i, hi, rfl⟩ := modifyInterface_eq hmodify
  exact ⟨before, i, _, hi, rfl, (Option.some.inj h).symm⟩

/-- What is kept from one element to the next. -/
structure Linked (ctx : ParseContext) (m : ListMemory Address) : Prop where
  ranged : ctx.Ranged
  represents : Represents m ctx.lists

/-- Numbers of enumerations, if what interfaces have is not more than it was. -/
theorem Ranged.enumerated_concat (h : ctx.Ranged) {before : List Interface} {i : Interface}
    {bound : Nat} (hbefore : before ⊆ ctx.interfaces) (hle : ctx.enumerations.length ≤ bound)
    (hi : ∀ n ∈ i.enumerationList, n < bound) :
    ∀ j ∈ before ++ [i], ∀ n ∈ j.enumerationList, n < bound := by
  intro j hj n hn
  rcases List.mem_append.mp hj with hj | hj
  · exact Nat.lt_of_lt_of_le (h.enumerated j (hbefore hj) n hn) hle
  · rw [List.mem_singleton.mp hj] at hn
    exact hi n hn

/-- What some interface has in a list, it has when the last interface has more in its lists. -/
theorem exists_mem_concat (list : Interface → List Nat) {before : List Interface}
    {i j : Interface} {n : Nat} (hmem : ∃ k ∈ before ++ [i], n ∈ list k)
    (hij : n ∈ list i → n ∈ list j) :
    ∃ k ∈ before ++ [j], n ∈ list k := by
  obtain ⟨k, hk, hn⟩ := hmem
  rcases List.mem_append.mp hk with hk | hk
  · exact ⟨k, List.mem_append_left _ hk, hn⟩
  · rw [List.mem_singleton.mp hk] at hn
    exact ⟨j, List.mem_concat_self, hij hn⟩

theorem Linked.startInterface (h : ctx.Linked m) {name : Option Text} {version : Nat}
    (hstart : ctx.startInterface name version = some ctx') :
    ∃ m', ctx.linkInterface m = some m' ∧ ctx'.Linked m' := by
  have hwell := h.ranged.toWellFormed.startInterface hstart
  obtain ⟨name, -, hstart⟩ := Option.bind_eq_some_iff.mp hstart
  obtain ⟨-, hctx'⟩ := Option.ite_none_left_eq_some.mp hstart
  cases hctx'
  obtain ⟨m', hm', hrep⟩ := linkInterface_represents h.ranged h.represents name version
  refine ⟨m', hm', ⟨⟨hwell, h.ranged.enumerated_concat (List.Subset.refl _) (Nat.le_refl _)
    (List.forall_mem_nil _), h.ranged.message, h.ranged.enumeration, fun n hn => ?_,
    fun n hn => ?_⟩, hrep⟩⟩
  · obtain ⟨i, hi, hmem⟩ := h.ranged.messageListed n hn
    exact ⟨i, List.mem_append_left _ hi, hmem⟩
  · obtain ⟨i, hi, hmem⟩ := h.ranged.enumerationListed n hn
    exact ⟨i, List.mem_append_left _ hi, hmem⟩

theorem Linked.startMessage (h : ctx.Linked m) {event : Bool} {name type since : Option Text}
    (hstart : ctx.startMessage event name type since = some ctx') :
    ∃ m', ctx.linkMessage m event = some m' ∧ ctx'.Linked m' := by
  have hwell := h.ranged.toWellFormed.startMessage hstart
  obtain ⟨before, i, msg, hi, hmsg, rfl⟩ := startMessage_cases hstart
  obtain ⟨m', hm', hrep⟩ := linkMessage_represents h.ranged h.represents event hi hmsg
  have hbefore : before ⊆ ctx.interfaces := by
    rw [hi]
    exact List.subset_append_left _ _
  have hold : ∀ n ∈ i.enumerationList, n < ctx.enumerations.length :=
    h.ranged.enumerated i (by rw [hi]; exact List.mem_concat_self)
  have hgrown : ∀ n, n ∈ i.requestList ++ i.eventList ∨ n = ctx.messages.length →
      n ∈ (addMessage event ctx.messages.length i).requestList ++
        (addMessage event ctx.messages.length i).eventList := by
    intro n hn
    cases event <;>
    · simp only [addMessage, if_true, Bool.false_eq_true, if_false, List.mem_append,
        List.mem_singleton] at hn ⊢
      tauto
  refine ⟨m', hm', ⟨⟨hwell, ?_, ?_, h.ranged.enumeration, fun n hn => ?_, fun n hn => ?_⟩, hrep⟩⟩
  · refine h.ranged.enumerated_concat hbefore (Nat.le_refl _) ?_
    cases event <;> exact hold
  · rintro n ⟨⟩
    show _ < (_ ++ [msg]).length
    rw [List.length_append]
    exact Nat.lt_succ_self _
  · rcases Nat.lt_or_ge n ctx.messages.length with hlt | hge
    · have hmem := h.ranged.messageListed n hlt
      rw [hi] at hmem
      exact exists_mem_concat (fun i => i.requestList ++ i.eventList) hmem
        fun hn => hgrown n (.inl hn)
    · have heq : n = ctx.messages.length := by
        rw [List.length_append, List.length_singleton] at hn
        omega
      exact ⟨_, List.mem_concat_self, hgrown n (.inr heq)⟩
  · have hmem := h.ranged.enumerationListed n hn
    rw [hi] at hmem
    refine exists_mem_concat Interface.enumerationList hmem fun hold => ?_
    cases event <;> exact hold

theorem Linked.startArg (h : ctx.Linked m)
    {name type interfaceName allowNull enumerationName : Option Text}
    (hstart : ctx.startArg name type interfaceName allowNull enumerationName = some ctx') :
    ∃ m', ctx.linkArg m = some m' ∧ ctx'.Linked m' := by
  have hwell := h.ranged.toWellFormed.startArg hstart
  obtain ⟨arg, -, hstart⟩ := Option.bind_eq_some_iff.mp hstart
  obtain ⟨number, hnumber, hstart⟩ := Option.bind_eq_some_iff.mp hstart
  cases hstart
  obtain ⟨m', hm', hrep⟩ := linkArg_represents h.ranged h.represents hnumber arg
  refine ⟨m', hm', ⟨⟨hwell, h.ranged.enumerated, fun n hn => ?_, h.ranged.enumeration,
    fun n hn => ?_, h.ranged.enumerationListed⟩, hrep⟩⟩
  · rw [List.length_modify]
    exact h.ranged.message n hn
  · rw [List.length_modify] at hn
    exact h.ranged.messageListed n hn

theorem Linked.startEnum (h : ctx.Linked m) {name bitfield : Option Text}
    (hstart : ctx.startEnum name bitfield = some ctx') :
    ∃ m', ctx.linkEnum m = some m' ∧ ctx'.Linked m' := by
  have hwell := h.ranged.toWellFormed.startEnum hstart
  obtain ⟨before, i, e, hi, he, rfl⟩ := startEnum_cases hstart
  obtain ⟨m', hm', hrep⟩ := linkEnum_represents h.ranged h.represents hi he
  have hlength : ctx.enumerations.length < (ctx.enumerations ++ [e]).length := by
    rw [List.length_append]
    exact Nat.lt_succ_self _
  have hbefore : before ⊆ ctx.interfaces := by
    rw [hi]
    exact List.subset_append_left _ _
  refine ⟨m', hm', ⟨⟨hwell, ?_, h.ranged.message, ?_, fun n hn => ?_, fun n hn => ?_⟩, hrep⟩⟩
  · refine h.ranged.enumerated_concat hbefore (Nat.le_of_lt hlength) fun n hn => ?_
    rcases List.mem_append.mp hn with hn | hn
    · exact Nat.lt_trans (h.ranged.enumerated i (by rw [hi]; exact List.mem_concat_self) n hn)
        hlength
    · rw [List.mem_singleton.mp hn]
      exact hlength
  · rintro n ⟨⟩
    exact hlength
  · have hmem := h.ranged.messageListed n hn
    rw [hi] at hmem
    exact exists_mem_concat (fun i => i.requestList ++ i.eventList) hmem id
  · rcases Nat.lt_or_ge n ctx.enumerations.length with hlt | hge
    · have hmem := h.ranged.enumerationListed n hlt
      rw [hi] at hmem
      exact exists_mem_concat Interface.enumerationList hmem
        fun hn => List.mem_append_left _ hn
    · have heq : n = ctx.enumerations.length := by
        rw [List.length_append, List.length_singleton] at hn
        omega
      exact ⟨_, List.mem_concat_self, List.mem_append_right _ (List.mem_singleton.mpr heq)⟩

theorem Linked.startEntry (h : ctx.Linked m) {name value since : Option Text}
    (hstart : ctx.startEntry name value since = some ctx') :
    ∃ m', ctx.linkEntry m = some m' ∧ ctx'.Linked m' := by
  have hwell := h.ranged.toWellFormed.startEntry hstart
  obtain ⟨name, -, hstart⟩ := Option.bind_eq_some_iff.mp hstart
  obtain ⟨-, -, hstart⟩ := Option.bind_eq_some_iff.mp hstart
  obtain ⟨-, -, hstart⟩ := Option.bind_eq_some_iff.mp hstart
  obtain ⟨number, hnumber, hstart⟩ := Option.bind_eq_some_iff.mp hstart
  cases hstart
  obtain ⟨m', hm', hrep⟩ := linkEntry_represents h.ranged h.represents hnumber name
  refine ⟨m', hm', ⟨⟨hwell, fun i hi n hn => ?_, h.ranged.message, fun n hn => ?_,
    h.ranged.messageListed, fun n hn => ?_⟩, hrep⟩⟩
  · rw [List.length_modify]
    exact h.ranged.enumerated i hi n hn
  · rw [List.length_modify]
    exact h.ranged.enumeration n hn
  · rw [List.length_modify] at hn
    exact h.ranged.enumerationListed n hn

/-- What has no lists is followed by the memory as it is. -/
theorem Linked.congr (h : ctx.Linked m) (hwell : ctx'.WellFormed)
    (hinterfaces : ctx'.interfaces = ctx.interfaces) (hmessages : ctx'.messages = ctx.messages)
    (henumerations : ctx'.enumerations = ctx.enumerations)
    (hmessage : ctx'.message = none ∨ ctx'.message = ctx.message)
    (henumeration : ctx'.enumeration = none ∨ ctx'.enumeration = ctx.enumeration) :
    ctx'.Linked m := by
  have hlists : ctx'.lists = ctx.lists := by
    funext a
    cases a <;> simp only [lists, hinterfaces, hmessages, henumerations]
  refine ⟨⟨hwell, ?_, fun n hn => ?_, fun n hn => ?_, ?_, ?_⟩, hlists ▸ h.represents⟩
  · rw [hinterfaces, henumerations]
    exact h.ranged.enumerated
  · rw [hmessages]
    rcases hmessage with hnone | hsame
    · rw [hnone] at hn
      cases hn
    · exact h.ranged.message n (hsame ▸ hn)
  · rw [henumerations]
    rcases henumeration with hnone | hsame
    · rw [hnone] at hn
      cases hn
    · exact h.ranged.enumeration n (hsame ▸ hn)
  · rw [hinterfaces, hmessages]
    exact h.ranged.messageListed
  · rw [hinterfaces, henumerations]
    exact h.ranged.enumerationListed

theorem Linked.startElement (h : ctx.Linked m) {element : Text} {atts : Attributes}
    (hstart : ctx.startElement element atts = some ctx') :
    ∃ m', ctx.linkElement m element = some m' ∧ ctx'.Linked m' := by
  have hwell := h.ranged.toWellFormed.startElement hstart
  obtain ⟨version, -, hstart⟩ := Option.bind_eq_some_iff.mp hstart
  have hsame : Linked { ctx with characterDataLength := 0 } m :=
    h.congr ⟨h.ranged.numbered, h.ranged.counted⟩ rfl rfl rfl (.inr rfl) (.inr rfl)
  split at hstart
  · next helement =>
    obtain ⟨-, -, rfl⟩ := Option.map_eq_some_iff.mp hstart
    exact ⟨m, by rw [helement]; rfl, hsame⟩
  split at hstart
  · next helement =>
    obtain ⟨m', hm', h'⟩ := hsame.startInterface hstart
    exact ⟨m', (if_pos helement).trans hm', h'⟩
  next hinterface =>
  rw [linkElement, if_neg hinterface]
  split at hstart
  · next helement =>
    obtain ⟨m', hm', h'⟩ := hsame.startMessage hstart
    exact ⟨m', (if_pos helement).trans hm', h'⟩
  next hrequest =>
  rw [if_neg hrequest]
  split at hstart
  · next helement =>
    obtain ⟨m', hm', h'⟩ := hsame.startMessage hstart
    exact ⟨m', (if_pos helement).trans hm', h'⟩
  next hevent =>
  rw [if_neg hevent]
  split at hstart
  · next helement =>
    obtain ⟨m', hm', h'⟩ := hsame.startArg hstart
    exact ⟨m', (if_pos helement).trans hm', h'⟩
  next harg =>
  rw [if_neg harg]
  split at hstart
  · next helement =>
    obtain ⟨m', hm', h'⟩ := hsame.startEnum hstart
    exact ⟨m', (if_pos helement).trans hm', h'⟩
  next henum =>
  rw [if_neg henum]
  split at hstart
  · next helement =>
    obtain ⟨m', hm', h'⟩ := hsame.startEntry hstart
    exact ⟨m', (if_pos helement).trans hm', h'⟩
  next hentry =>
  rw [if_neg hentry]
  refine ⟨m, rfl, ?_⟩
  split at hstart
  · obtain ⟨-, -, rfl⟩ := Option.map_eq_some_iff.mp hstart
    exact h.congr hwell rfl rfl rfl (.inr rfl) (.inr rfl)
  · cases hstart
    exact hsame

theorem Linked.endElement (h : ctx.Linked m) {element : Text}
    (hend : ctx.endElement element = some ctx') : ctx'.Linked m := by
  have hwell := h.ranged.toWellFormed.endElement hend
  rw [ParseContext.endElement] at hend
  split at hend
  · obtain ⟨-, hctx'⟩ := Option.ite_none_right_eq_some.mp hend
    cases hctx'
    exact h.congr hwell rfl rfl rfl (.inr rfl) (.inr rfl)
  split at hend
  · cases hend
    exact h.congr hwell rfl rfl rfl (.inl rfl) (.inr rfl)
  split at hend
  · obtain ⟨number, -, hend⟩ := Option.bind_eq_some_iff.mp hend
    obtain ⟨e, -, hend⟩ := Option.bind_eq_some_iff.mp hend
    obtain ⟨-, hctx'⟩ := Option.ite_none_left_eq_some.mp hend
    cases hctx'
    exact h.congr hwell rfl rfl rfl (.inr rfl) (.inl rfl)
  split at hend
  · obtain ⟨-, hctx'⟩ := Option.ite_none_right_eq_some.mp hend
    cases hctx'
    exact h
  · cases hend
    exact h

/-- **Handlers**: a handler that accepts what expat gives it makes no wrong call, and the memory
keeps up. -/
theorem Linked.handle (h : ctx.Linked m) {event : XmlEvent}
    (hhandle : ctx.handle event = some ctx') :
    ∃ m', handleLinked (ctx, m) event = some (ctx', m') ∧ ctx'.Linked m' := by
  have hcalls : ∃ m', ctx.linkEvent m event = some m' ∧ ctx'.Linked m' := by
    cases event with
    | startElement element atts => exact h.startElement hhandle
    | endElement element => exact ⟨m, rfl, h.endElement hhandle⟩
    | characterData s =>
      have hwell := h.ranged.toWellFormed.handle hhandle
      obtain ⟨-, hctx'⟩ := Option.ite_none_left_eq_some.mp hhandle
      cases hctx'
      exact ⟨m, rfl, h.congr hwell rfl rfl rfl (.inr rfl) (.inr rfl)⟩
  obtain ⟨m', hm', h'⟩ := hcalls
  exact ⟨m', Option.bind_eq_some_iff.mpr ⟨ctx', hhandle,
    Option.bind_eq_some_iff.mpr ⟨m', hm', rfl⟩⟩, h'⟩

theorem Linked.handleAll (h : ctx.Linked m) {document : List XmlEvent}
    (hdocument : document.foldlM ParseContext.handle ctx = some ctx') :
    ∃ m', document.foldlM handleLinked (ctx, m) = some (ctx', m') ∧ ctx'.Linked m' := by
  induction document generalizing ctx m with
  | nil =>
    cases hdocument
    exact ⟨m, rfl, h⟩
  | cons event document ih =>
    rw [List.foldlM_cons] at hdocument
    obtain ⟨ctx₁, hfirst, hrest⟩ := Option.bind_eq_some_iff.mp hdocument
    obtain ⟨m₁, hm₁, h₁⟩ := h.handle hfirst
    obtain ⟨m₂, hm₂, h₂⟩ := ih h₁ hrest
    exact ⟨m₂, (List.foldlM_cons ..).trans (Option.bind_eq_some_iff.mpr ⟨_, hm₁, hm₂⟩), h₂⟩

end ParseContext

/-- **Documents**: where the handlers accept a document, none of their calls goes wrong, and
the memory has the lists. -/
theorem parseLinked_represents {document : List XmlEvent} {ctx : ParseContext}
    (h : parse document = some ctx) {m₀ : ListMemory Address} (hlive : ∀ x, m₀.live x = true) :
    ∃ m, parseLinked m₀ document = some (ctx, m) ∧ ctx.Linked m := by
  have hempty : Represents m₀ (fun _ => none) := ⟨hlive, nofun, nofun⟩
  obtain ⟨m₁, hm₁, h₁⟩ := hempty.exec_init
    (show Lists.Unused (fun _ => none) Address.interfaceList from nofun)
  have hlists : initial.lists =
      Function.update (fun _ => none : Lists Address) .interfaceList (some []) := by
    funext a
    cases a <;> rfl
  have hinitial : initial.Linked m₁ :=
    ⟨⟨⟨nofun, nofun⟩, nofun, nofun, nofun, nofun, nofun⟩, hlists ▸ h₁⟩
  obtain ⟨m, hm, hlinked⟩ := hinitial.handleAll h
  exact ⟨m, Option.bind_eq_some_iff.mpr ⟨m₁, hm₁, hm⟩, hlinked⟩

/-- Memory that nothing has been written to. -/
def blank : ListMemory Address := ⟨⟨fun _ => none, fun _ => none⟩, fun _ => true⟩

/-- An output, with something of each kind. -/
def output : List XmlEvent :=
  [.startElement "protocol".toList [("name".toList, "wayland".toList)],
    .startElement "interface".toList
      [("name".toList, "wl_output".toList), ("version".toList, "3".toList)],
    .startElement "enum".toList [("name".toList, "subpixel".toList)],
    .startElement "entry".toList [("name".toList, "unknown".toList), ("value".toList, "0".toList)],
    .endElement "entry".toList,
    .endElement "enum".toList,
    .startElement "event".toList [("name".toList, "scale".toList), ("since".toList, "2".toList)],
    .startElement "arg".toList [("name".toList, "factor".toList), ("type".toList, "int".toList)],
    .endElement "arg".toList,
    .endElement "event".toList,
    .startElement "request".toList
      [("name".toList, "release".toList), ("type".toList, "destructor".toList),
        ("since".toList, "3".toList)],
    .endElement "request".toList,
    .endElement "interface".toList,
    .endElement "protocol".toList]

/-- What is left of it. -/
def outputContext : ParseContext where
  interfaces := [⟨"wl_output".toList, 3, [1], [0], [0]⟩]
  messages := [⟨"scale".toList, [⟨"factor".toList, .int, none, none⟩], 1, false⟩,
    ⟨"release".toList, [], 0, true⟩]
  enumerations := [⟨"subpixel".toList, ["unknown".toList], false⟩]
  message := none
  enumeration := none
  description := false
  characterDataLength := 0

theorem parse_output : parse output = some outputContext := by
  decide +kernel

end Scanner

end SparkleWayland

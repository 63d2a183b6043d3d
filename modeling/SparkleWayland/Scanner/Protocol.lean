import Mathlib.Data.List.Basic

/-!
# Reading a protocol (`scanner/src/scanner.c`)

Expat calls `start_element`, `end_element` and `character_data` in the order of the
document. They build lists of interfaces, messages and arguments, and end the program when
something is wrong. What they follow are the pointers of `struct parse_context`, so that a
request that stands outside any interface belongs to the last one, and an argument belongs to
the message that was begun last, wherever it stands.

Messages and enumerations are numbered as they are created, and an interface has the numbers of
its own. What nothing here reads is left out: summaries, texts, versions of messages,
locations.
-/

namespace SparkleWayland

namespace Scanner

/-- A C string, as its bytes. -/
abbrev Text : Type := List Char

/-- `enum arg_type` -/
inductive ArgType where
  | newId
  | int
  | unsigned
  | fixed
  | string
  | object
  | array
  | fd
  deriving DecidableEq, Repr

/-- `struct arg` -/
structure Arg where
  name : Text
  type : ArgType
  interfaceName : Option Text
  enumerationName : Option Text
  deriving DecidableEq, Repr

/-- `struct message` -/
structure Message where
  name : Text
  argList : List Arg
  argCount : Nat
  destructor : Bool
  deriving DecidableEq, Repr

/-- `struct enumeration`, with the names of its entries. -/
structure Enumeration where
  name : Text
  entryList : List Text
  bitfield : Bool
  deriving DecidableEq, Repr

/-- `struct interface` -/
structure Interface where
  name : Text
  version : Nat
  requestList : List Nat
  eventList : List Nat
  enumerationList : List Nat
  deriving DecidableEq, Repr

/-- `struct parse_context`, with the list of the protocol. `ctx->interface` is the last of the
interfaces. -/
structure ParseContext where
  interfaces : List Interface
  messages : List Message
  enumerations : List Enumeration
  message : Option Nat
  enumeration : Option Nat
  description : Bool
  characterDataLength : Nat
  deriving DecidableEq, Repr

/-- The attributes of an element. -/
abbrev Attributes : Type := List (Text × Text)

/-- `for (i = 0; atts[i]; i += 2)`, for one of the names: the last value counts. -/
def attributeValue (atts : Attributes) (name : Text) : Option Text :=
  ((atts.filter fun a => a.1 = name).getLast?).map Prod.snd

/-- `isspace` -/
def isSpace (c : Char) : Bool :=
  c = ' ' || c = '\t' || c = '\n' || c = '\x0b' || c = '\x0c' || c = '\r'

/-- The value of a decimal numeral. -/
def decimal (digits : Text) : Nat :=
  digits.foldl (fun n c => 10 * n + (c.toNat - '0'.toNat)) 0

/-- `strtouint`, after the blanks and the sign that `strtol` takes -/
def strtouint (str : Text) : Option Nat :=
  let number := str.dropWhile isSpace
  let digits := if number.head? = some '-' ∨ number.head? = some '+' then number.tail else number
  if digits = [] ∨ digits.all Char.isDigit = false then none
  else if number.head? = some '-' ∧ decimal digits ≠ 0 then none
  else if decimal digits > 2147483647 then none
  else some (decimal digits)

namespace ParseContext

/-- A change to `ctx->interface`; a null pointer ends the program. -/
def modifyInterface (ctx : ParseContext) (f : Interface → Interface) : Option ParseContext :=
  ctx.interfaces.getLast?.map fun i =>
    { ctx with interfaces := ctx.interfaces.dropLast ++ [f i] }

/-- `version_from_since`: the version of `ctx->interface` is looked at if there is a `since`. -/
def versionFromSince (ctx : ParseContext) (since : Option Text) : Option Nat :=
  match since with
  | none => some 1
  | some since => do
    let version ← strtouint since
    let i ← ctx.interfaces.getLast?
    if version > i.version then none else some version

/-! ## The elements -/

/-- `interface` -/
def startInterface (ctx : ParseContext) (name : Option Text) (version : Nat) :
    Option ParseContext := do
  let name ← name
  if version = 0 then none
  else some { ctx with interfaces := ctx.interfaces ++ [⟨name, version, [], [], []⟩] }

/-- `wl_list_insert`, at the end of one of the lists -/
def addMessage (event : Bool) (number : Nat) (i : Interface) : Interface :=
  if event then { i with eventList := i.eventList ++ [number] }
  else { i with requestList := i.requestList ++ [number] }

/-- `request` and `event` -/
def startMessage (ctx : ParseContext) (event : Bool) (name type since : Option Text) :
    Option ParseContext := do
  let name ← name
  let destructor := decide (type = some "destructor".toList)
  let number := ctx.messages.length
  let ctx ← ctx.modifyInterface (addMessage event number)
  let _ ← ctx.versionFromSince since
  if name = "destroy".toList ∧ destructor = false then none
  else some { ctx with
    messages := ctx.messages ++ [⟨name, [], 0, destructor⟩]
    message := some number }

/-- `set_arg_type` -/
def argTypes : List (Text × ArgType) :=
  [("int".toList, .int), ("uint".toList, .unsigned), ("fixed".toList, .fixed),
    ("string".toList, .string), ("array".toList, .array), ("fd".toList, .fd),
    ("new_id".toList, .newId), ("object".toList, .object)]

/-- `is_nullable_type` -/
def isNullableType : ArgType → Bool
  | .string | .object | .newId | .array => true
  | _ => false

/-- The argument of an `arg` element. -/
def createArg (name type interfaceName allowNull enumerationName : Option Text) : Option Arg := do
  let name ← name
  let type ← argTypes.lookup (← type)
  -- only a new object and an object have an interface
  if type ≠ .newId ∧ type ≠ .object ∧ interfaceName ≠ none then none
  else if allowNull ≠ none ∧ allowNull ≠ some "true".toList ∧ allowNull ≠ some "false".toList then
    none
  else if allowNull ≠ none ∧ isNullableType type = false then none
  else some ⟨name, type, interfaceName, if enumerationName = some [] then none else enumerationName⟩

/-- `arg`: it goes to `ctx->message`. -/
def startArg (ctx : ParseContext)
    (name type interfaceName allowNull enumerationName : Option Text) : Option ParseContext := do
  let arg ← createArg name type interfaceName allowNull enumerationName
  let number ← ctx.message
  some { ctx with messages := ctx.messages.modify number fun m =>
    { m with argList := m.argList ++ [arg], argCount := m.argCount + 1 } }

/-- `bitfield`, of `enum` -/
def isBitfield (bitfield : Option Text) : Option Bool :=
  if bitfield = none ∨ bitfield = some "false".toList then some false
  else if bitfield = some "true".toList then some true
  else none

/-- `enum` -/
def startEnum (ctx : ParseContext) (name bitfield : Option Text) : Option ParseContext := do
  let name ← name
  let bits ← isBitfield bitfield
  let number := ctx.enumerations.length
  let ctx ← ctx.modifyInterface fun i => { i with enumerationList := i.enumerationList ++ [number] }
  some { ctx with
    enumerations := ctx.enumerations ++ [⟨name, [], bits⟩]
    enumeration := some number }

/-- `entry`: it goes to `ctx->enumeration`. -/
def startEntry (ctx : ParseContext) (name value since : Option Text) : Option ParseContext := do
  let name ← name
  let _ ← value
  let _ ← ctx.versionFromSince since
  let number ← ctx.enumeration
  some { ctx with enumerations := ctx.enumerations.modify number fun e =>
    { e with entryList := e.entryList ++ [name] } }

/-- `version`, which is 0 if it is missing -/
def versionAttribute (atts : Attributes) : Option Nat :=
  match attributeValue atts "version".toList with
  | none => some 0
  | some version => strtouint version

/-- `start_element` -/
def startElement (ctx : ParseContext) (element : Text) (atts : Attributes) :
    Option ParseContext := do
  let name := attributeValue atts "name".toList
  let type := attributeValue atts "type".toList
  let since := attributeValue atts "since".toList
  let version ← versionAttribute atts
  let ctx := { ctx with characterDataLength := 0 }
  if element = "protocol".toList then name.map fun _ => ctx
  else if element = "interface".toList then ctx.startInterface name version
  else if element = "request".toList then ctx.startMessage false name type since
  else if element = "event".toList then ctx.startMessage true name type since
  else if element = "arg".toList then
    ctx.startArg name type (attributeValue atts "interface".toList)
      (attributeValue atts "allow-null".toList) (attributeValue atts "enum".toList)
  else if element = "enum".toList then ctx.startEnum name (attributeValue atts "bitfield".toList)
  else if element = "entry".toList then
    ctx.startEntry name (attributeValue atts "value".toList) since
  else if element = "description".toList then
    (attributeValue atts "summary".toList).map fun _ => { ctx with description := true }
  -- elements without content of their own, and those that nobody knows
  else some ctx

/-! ## The end of an element -/

/-- `find_enumeration`: the enumeration of another interface is named behind a dot, which is
the last one that is not the last character. -/
def findEnumeration (ctx : ParseContext) (interface : Interface) (attr : Text) :
    Option Enumeration :=
  let dots := (List.range (attr.length - 1)).filter fun j => attr[j]? = some '.'
  let idx := dots.getLast?.getD 0
  let named (i : Interface) (name : Text) : Option Enumeration :=
    (i.enumerationList.filterMap (ctx.enumerations[·]?)).find? fun e => e.name = name
  if idx > 0 then
    ctx.interfaces.findSome? fun i =>
      -- `strncmp`
      if i.name.take idx = attr.take idx then named i (attr.drop (idx + 1)) else none
  else named interface attr

/-- One argument of `verify_arguments` -/
def verifyArgument (ctx : ParseContext) (interface : Interface) (a : Arg) : Bool :=
  match a.enumerationName with
  | none => true
  | some name =>
    match a.type with
    | .int => !((ctx.findEnumeration interface name).any Enumeration.bitfield)
    | .unsigned => true
    | _ => false

/-- `verify_arguments`, of all messages of the interface -/
def verifyArguments (ctx : ParseContext) (interface : Interface) : Bool :=
  ((interface.requestList ++ interface.eventList).filterMap (ctx.messages[·]?)).all fun m =>
    m.argList.all (ctx.verifyArgument interface)

/-- `end_element` -/
def endElement (ctx : ParseContext) (element : Text) : Option ParseContext :=
  if element = "description".toList then
    -- the description that was begun last may have been ended
    if ctx.description then some { ctx with description := false } else none
  else if element = "request".toList ∨ element = "event".toList then
    some { ctx with message := none }
  else if element = "enum".toList then do
    let number ← ctx.enumeration
    let e ← ctx.enumerations[number]?
    if e.entryList = [] then none else some { ctx with enumeration := none }
  else if element = "protocol".toList then
    if ctx.interfaces.all ctx.verifyArguments then some ctx else none
  else some ctx

/-- `character_data` -/
def characterData (ctx : ParseContext) (s : Text) : Option ParseContext :=
  if ctx.characterDataLength + s.length > 8192 then none
  else some { ctx with characterDataLength := ctx.characterDataLength + s.length }

end ParseContext

/-! ## The document -/

/-- What expat calls. -/
inductive XmlEvent where
  | startElement (element : Text) (atts : Attributes)
  | endElement (element : Text)
  | characterData (s : Text)
  deriving DecidableEq, Repr

def ParseContext.handle (ctx : ParseContext) : XmlEvent → Option ParseContext
  | .startElement element atts => ctx.startElement element atts
  | .endElement element => ctx.endElement element
  | .characterData s => ctx.characterData s

/-- The context before the document. -/
def initial : ParseContext := ⟨[], [], [], none, none, false, 0⟩

/-- What is left of the document, if the handlers accept it. -/
def parse (document : List XmlEvent) : Option ParseContext :=
  document.foldlM ParseContext.handle initial

/-! ## What the lists hold -/

/-- The messages of a list, in the order of the document. -/
def ParseContext.messageList (ctx : ParseContext) (numbers : List Nat) : List Message :=
  numbers.filterMap (ctx.messages[·]?)

namespace ParseContext

def requests (ctx : ParseContext) (i : Interface) : List Message := ctx.messageList i.requestList

def events (ctx : ParseContext) (i : Interface) : List Message := ctx.messageList i.eventList

/-- What the handlers keep: an interface numbers messages that exist, and arguments are
counted. -/
structure WellFormed (ctx : ParseContext) : Prop where
  numbered : ∀ i ∈ ctx.interfaces, ∀ n ∈ i.requestList ++ i.eventList, n < ctx.messages.length
  counted : ∀ m ∈ ctx.messages, m.argCount = m.argList.length

variable {ctx ctx' : ParseContext}

theorem modifyInterface_cases {f : Interface → Interface}
    (h : ctx.modifyInterface f = some ctx') :
    ∃ before i, before ⊆ ctx.interfaces ∧ i ∈ ctx.interfaces ∧
      ctx' = { ctx with interfaces := before ++ [f i] } := by
  obtain ⟨i, hi, rfl⟩ := Option.map_eq_some_iff.mp h
  exact ⟨ctx.interfaces.dropLast, i, List.dropLast_subset _, List.mem_of_getLast? hi, rfl⟩

/-- The last interface is a new one, or one that was changed. -/
theorem WellFormed.numbered_concat {before : List Interface} {i : Interface} {bound : Nat}
    (hctx : ctx.WellFormed) (hbefore : before ⊆ ctx.interfaces)
    (hle : ctx.messages.length ≤ bound)
    (hi : ∀ n ∈ i.requestList ++ i.eventList, n < bound) :
    ∀ j ∈ before ++ [i], ∀ n ∈ j.requestList ++ j.eventList, n < bound := by
  intro j hj n hn
  rcases List.mem_append.mp hj with hj | hj
  · exact Nat.lt_of_lt_of_le (hctx.numbered j (hbefore hj) n hn) hle
  · rw [List.mem_singleton.mp hj] at hn
    exact hi n hn

theorem WellFormed.startInterface {name : Option Text} {version : Nat} (hctx : ctx.WellFormed)
    (h : ctx.startInterface name version = some ctx') : ctx'.WellFormed := by
  obtain ⟨name, -, h⟩ := Option.bind_eq_some_iff.mp h
  obtain ⟨-, hctx'⟩ := Option.ite_none_left_eq_some.mp h
  cases hctx'
  exact ⟨hctx.numbered_concat (List.Subset.refl _) (Nat.le_refl _) (List.forall_mem_nil _),
    hctx.counted⟩

theorem mem_addMessage {event : Bool} {number n : Nat} {i : Interface}
    (h : n ∈ (addMessage event number i).requestList ++ (addMessage event number i).eventList) :
    n ∈ i.requestList ++ i.eventList ∨ n = number := by
  rw [List.mem_append] at h ⊢
  cases event with
  | false =>
    rcases h with h | h
    · rcases List.mem_append.mp h with h | h
      · exact .inl (.inl h)
      · exact .inr (List.mem_singleton.mp h)
    · exact .inl (.inr h)
  | true =>
    rcases h with h | h
    · exact .inl (.inl h)
    · rcases List.mem_append.mp h with h | h
      · exact .inl (.inr h)
      · exact .inr (List.mem_singleton.mp h)

theorem WellFormed.startMessage {event : Bool} {name type since : Option Text}
    (hctx : ctx.WellFormed) (h : ctx.startMessage event name type since = some ctx') :
    ctx'.WellFormed := by
  obtain ⟨name, -, h⟩ := Option.bind_eq_some_iff.mp h
  obtain ⟨ctx₁, hmodify, h⟩ := Option.bind_eq_some_iff.mp h
  obtain ⟨-, -, h⟩ := Option.bind_eq_some_iff.mp h
  obtain ⟨-, hctx'⟩ := Option.ite_none_left_eq_some.mp h
  obtain ⟨before, i, hbefore, hi, rfl⟩ := modifyInterface_cases hmodify
  cases hctx'
  constructor
  · rw [List.length_append, List.length_singleton]
    refine hctx.numbered_concat hbefore (Nat.le_succ _) fun n hn => ?_
    rcases mem_addMessage hn with hn | rfl
    · exact Nat.lt_add_right 1 (hctx.numbered i hi n hn)
    · exact Nat.lt_add_one _
  · intro m hm
    rcases List.mem_append.mp hm with hm | hm
    · exact hctx.counted m hm
    · rw [List.mem_singleton.mp hm]
      rfl

theorem WellFormed.startArg {name type interfaceName allowNull enumerationName : Option Text}
    (hctx : ctx.WellFormed)
    (h : ctx.startArg name type interfaceName allowNull enumerationName = some ctx') :
    ctx'.WellFormed := by
  obtain ⟨arg, -, h⟩ := Option.bind_eq_some_iff.mp h
  obtain ⟨number, -, h⟩ := Option.bind_eq_some_iff.mp h
  cases h
  constructor
  · intro i hi n hn
    rw [List.length_modify]
    exact hctx.numbered i hi n hn
  · intro m hm
    obtain ⟨k, hk⟩ := List.mem_iff_getElem?.mp hm
    rw [List.getElem?_modify] at hk
    obtain ⟨m₀, hm₀, rfl⟩ := Option.map_eq_some_iff.mp hk
    have hcount := hctx.counted m₀ (List.mem_of_getElem? hm₀)
    split
    · rw [List.length_append, List.length_singleton, hcount]
    · exact hcount

theorem WellFormed.startEnum {name bitfield : Option Text} (hctx : ctx.WellFormed)
    (h : ctx.startEnum name bitfield = some ctx') : ctx'.WellFormed := by
  obtain ⟨name, -, h⟩ := Option.bind_eq_some_iff.mp h
  obtain ⟨bits, -, h⟩ := Option.bind_eq_some_iff.mp h
  obtain ⟨ctx₁, hmodify, h⟩ := Option.bind_eq_some_iff.mp h
  obtain ⟨before, i, hbefore, hi, rfl⟩ := modifyInterface_cases hmodify
  cases h
  exact ⟨hctx.numbered_concat hbefore (Nat.le_refl _) (hctx.numbered i hi), hctx.counted⟩

theorem WellFormed.startEntry {name value since : Option Text} (hctx : ctx.WellFormed)
    (h : ctx.startEntry name value since = some ctx') : ctx'.WellFormed := by
  obtain ⟨name, -, h⟩ := Option.bind_eq_some_iff.mp h
  obtain ⟨-, -, h⟩ := Option.bind_eq_some_iff.mp h
  obtain ⟨-, -, h⟩ := Option.bind_eq_some_iff.mp h
  obtain ⟨number, -, h⟩ := Option.bind_eq_some_iff.mp h
  cases h
  exact ⟨hctx.numbered, hctx.counted⟩

theorem WellFormed.startElement {element : Text} {atts : Attributes} (hctx : ctx.WellFormed)
    (h : ctx.startElement element atts = some ctx') : ctx'.WellFormed := by
  obtain ⟨version, -, h⟩ := Option.bind_eq_some_iff.mp h
  have hsame : WellFormed { ctx with characterDataLength := 0 } := ⟨hctx.numbered, hctx.counted⟩
  split at h
  · obtain ⟨-, -, rfl⟩ := Option.map_eq_some_iff.mp h
    exact hsame
  split at h
  · exact hsame.startInterface h
  split at h
  · exact hsame.startMessage h
  split at h
  · exact hsame.startMessage h
  split at h
  · exact hsame.startArg h
  split at h
  · exact hsame.startEnum h
  split at h
  · exact hsame.startEntry h
  split at h
  · obtain ⟨-, -, rfl⟩ := Option.map_eq_some_iff.mp h
    exact ⟨hctx.numbered, hctx.counted⟩
  · cases h
    exact hsame

theorem WellFormed.endElement {element : Text} (hctx : ctx.WellFormed)
    (h : ctx.endElement element = some ctx') : ctx'.WellFormed := by
  have hsame : ctx'.interfaces = ctx.interfaces ∧ ctx'.messages = ctx.messages := by
    rw [ParseContext.endElement] at h
    split at h
    · obtain ⟨-, hctx'⟩ := Option.ite_none_right_eq_some.mp h
      cases hctx'
      exact ⟨rfl, rfl⟩
    split at h
    · cases h
      exact ⟨rfl, rfl⟩
    split at h
    · obtain ⟨number, -, h⟩ := Option.bind_eq_some_iff.mp h
      obtain ⟨e, -, h⟩ := Option.bind_eq_some_iff.mp h
      obtain ⟨-, hctx'⟩ := Option.ite_none_left_eq_some.mp h
      cases hctx'
      exact ⟨rfl, rfl⟩
    split at h
    · obtain ⟨-, hctx'⟩ := Option.ite_none_right_eq_some.mp h
      cases hctx'
      exact ⟨rfl, rfl⟩
    · cases h
      exact ⟨rfl, rfl⟩
  constructor
  · rw [hsame.1, hsame.2]
    exact hctx.numbered
  · rw [hsame.2]
    exact hctx.counted

theorem WellFormed.handle {event : XmlEvent} (hctx : ctx.WellFormed)
    (h : ctx.handle event = some ctx') : ctx'.WellFormed := by
  cases event with
  | startElement element atts => exact hctx.startElement h
  | endElement element => exact hctx.endElement h
  | characterData s =>
    obtain ⟨-, hctx'⟩ := Option.ite_none_left_eq_some.mp h
    cases hctx'
    exact ⟨hctx.numbered, hctx.counted⟩

end ParseContext

/-- **What is left of a document** is well formed. -/
theorem parse_wellFormed {document : List XmlEvent} {ctx : ParseContext}
    (h : parse document = some ctx) : ctx.WellFormed := by
  have hrun : ∀ ctx₀ : ParseContext, ctx₀.WellFormed →
      document.foldlM ParseContext.handle ctx₀ = some ctx → ctx.WellFormed := by
    clear h
    induction document with
    | nil =>
      intro ctx₀ hctx₀ hrun
      cases hrun
      exact hctx₀
    | cons event document ih =>
      intro ctx₀ hctx₀ hrun
      rw [List.foldlM_cons] at hrun
      obtain ⟨ctx₁, hfirst, hrest⟩ := Option.bind_eq_some_iff.mp hrun
      exact ih ctx₁ (hctx₀.handle hfirst) hrest
  exact hrun initial ⟨nofun, nofun⟩ h

end Scanner

end SparkleWayland

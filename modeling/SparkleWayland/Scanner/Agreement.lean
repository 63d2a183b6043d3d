import SparkleWayland.Lib.ParameterList
import SparkleWayland.Scanner.Classes

/-!
# The classes against the server header

A request is called through the member of a structure of the server header, and `were_signal`
has to have its parameters; a method calls the wrapper of its event. Two emitters write the
two sides. `requestAgrees_iff` and `eventAgrees` say when the types of what they write are the
same, whatever the names in the protocol are.
-/

namespace SparkleWayland

namespace Scanner

/-- The characters of a declaration in C. -/
def lexis : ParameterLexis Char where
  comma := ','
  blank := isSpace
  word c := c.isAlphanum || c = '_'
  comma_not_blank := by decide

/-! ## What has to agree -/

/-- The signal of a request has the types that the member of the structure has behind the
client and the resource. -/
def RequestAgrees (m : Message) : Prop :=
  ∃ signal member : Text,
    scannerWriteSignal m =
      "    were_signal<void (".toList ++ signal ++ ")> ".toList ++ m.name ++ ";\n".toList ∧
    emitStructMember m = some
      ("\tvoid (*".toList ++ m.name ++ ")(".toList ++ member ++ ");\n".toList) ∧
    lexis.types member =
      "struct wl_client *".toList :: "struct wl_resource *".toList :: lexis.types signal

/-- The method of an event has the parameters that it was declared with, and their types are
those of the wrapper behind the resource. It calls the wrapper with all its arguments. -/
def EventAgrees (i : Interface) (m : Message) : Prop :=
  ∃ method wrapper : Text,
    scannerWriteMethod m =
      "    void send_".toList ++ m.name ++ "(".toList ++ method ++ ");\n".toList ∧
    scannerWriteMethodImplementation i m =
      "void sparkle_".toList ++ i.name ++ "::send_".toList ++ m.name ++ "(".toList ++ method ++
        ")\n\x7b\n    if (valid())\n        ".toList ++ i.name ++ "_send_".toList ++ m.name ++
        "(".toList ++
        ", ".toList.intercalate ("resource()".toList :: m.argList.map Arg.name) ++
        ");\n\x7d\n".toList ∧
    emitEventWrapper i m =
      "static inline void\n".toList ++ i.name ++ "_send_".toList ++ m.name ++ "(".toList ++
        wrapper ++ emitEventBody i m ∧
    lexis.types wrapper = "struct wl_resource *".toList :: lexis.types method

/-- An interface: the parts of the files stand in the order of the lists, and each of them
agrees. -/
structure Agrees (ctx : ParseContext) (i : Interface) : Prop where
  signals : ∃ before after, scannerWriteHeader i (ctx.requests i) (ctx.events i) =
    before ++ (ctx.requests i).flatMap scannerWriteSignal ++ after
  members : ∃ members, (ctx.requests i).mapM emitStructMember = some members ∧
    ∃ before after, emitStructs (ctx.requests i) i = some (before ++ members.flatten ++ after)
  methods : ∃ before after, scannerWriteHeader i (ctx.requests i) (ctx.events i) =
    before ++ (ctx.events i).flatMap scannerWriteMethod ++ after
  definitions : ∃ before, scannerWriteSource i (ctx.requests i) (ctx.events i) =
    before ++ (ctx.events i).flatMap fun m => "\n".toList ++ scannerWriteMethodImplementation i m
  wrappers : emitEventWrappers (ctx.events i) i = (ctx.events i).flatMap (emitEventWrapper i)
  requests : ∀ n ∈ i.requestList, ∃ m, ctx.messages[n]? = some m ∧ RequestAgrees m
  events : ∀ n ∈ i.eventList, ∃ m, ctx.messages[n]? = some m ∧ EventAgrees i m

/-! ## The types that are written -/

theorem isSpace_indent {n : Nat} {indentation : Text} (h : indent n = some indentation) :
    ∀ c ∈ indentation, isSpace c = true := by
  rw [indent] at h
  obtain ⟨-, hindentation⟩ := Option.ite_none_left_eq_some.mp h
  cases hindentation
  intro c hc
  rcases List.mem_append.mp hc with hc | hc
  · rw [List.eq_of_mem_replicate hc]
    decide
  · rw [List.eq_of_mem_replicate hc]
    decide

theorem writeArgs_cons (write : Arg → Text) (a : Arg) (argList : List Arg) :
    writeArgs write true (a :: argList) =
      write a ++ argList.flatMap fun b => ", ".toList ++ write b := by
  have hrest : ∀ argList, writeArgs write false argList =
      argList.flatMap fun b => ", ".toList ++ write b := by
    intro argList
    induction argList with
    | nil => rfl
    | cons b argList ih =>
      rw [writeArgs, ih, List.flatMap_cons]
      rfl
  rw [writeArgs, hrest]
  rfl

/-- Arguments that were written behind a parameter, each after the same separator. -/
theorem piece_append_args {first blanks : Text} (write : Arg → Text) (argList : List Arg)
    (h : ∀ c ∈ blanks, isSpace c = true) :
    lexis.piece (first ++ argList.flatMap fun a => ',' :: blanks ++ write a) =
      lexis.piece first ++ argList.flatMap fun a => lexis.piece (write a) := by
  have hjoin : first ++ argList.flatMap (fun a => ',' :: blanks ++ write a) =
      lexis.join first (argList.map fun a => (blanks, write a)) := by
    rw [ParameterLexis.join, List.flatMap_map]
    rfl
  rw [hjoin, ParameterLexis.piece_join, List.flatMap_map]
  intro p hp
  obtain ⟨a, -, rfl⟩ := List.mem_map.mp hp
  exact h

theorem scannerWriteArg_ne_nil (methods : Bool) (a : Arg) : scannerWriteArg methods a ≠ [] := by
  obtain ⟨name, type, interfaceName, enumerationName⟩ := a
  cases type <;> cases methods <;> exact List.cons_ne_nil _ _

theorem types_scannerWriteArgs (argList : List Arg) (methods : Bool) :
    lexis.types (scannerWriteArgs argList methods) =
      argList.flatMap fun a => lexis.piece (scannerWriteArg methods a) := by
  cases argList with
  | nil => rfl
  | cons a argList =>
    have hcons : scannerWriteArgs (a :: argList) methods = scannerWriteArg methods a ++
        argList.flatMap fun b => ", ".toList ++ scannerWriteArg methods b :=
      writeArgs_cons _ a argList
    have hne : scannerWriteArgs (a :: argList) methods ≠ [] := by
      rw [hcons]
      exact List.append_ne_nil_of_left_ne_nil (scannerWriteArg_ne_nil methods a) _
    have hblank : ∀ c ∈ [' '], isSpace c = true := List.all_eq_true.mp (by decide)
    rw [ParameterLexis.types, if_neg (by rwa [List.isEmpty_iff]), hcons, List.flatMap_cons]
    exact piece_append_args _ argList hblank

theorem types_emitStructArgs {indentation : Text} (argList : List Arg)
    (h : ∀ c ∈ indentation, isSpace c = true) :
    lexis.types (emitStructArgs indentation argList) =
      "struct wl_client *".toList :: "struct wl_resource *".toList ::
        argList.flatMap fun a => lexis.piece (emitStructArg a) := by
  have hblank : ∀ c ∈ '\n' :: indentation, isSpace c = true :=
    List.forall_mem_cons.mpr ⟨by decide, h⟩
  have hargs (client resource : Text) :
      client ++ [',', '\n'] ++ indentation ++ resource ++
          argList.flatMap (fun a => [',', '\n'] ++ indentation ++ emitStructArg a) =
        client ++ ',' :: ('\n' :: indentation ++ (resource ++
          argList.flatMap fun a => ',' :: ('\n' :: indentation) ++ emitStructArg a)) := by
    simp only [List.append_assoc, List.cons_append, List.nil_append]
  have hpieces (client resource : Text) :
      lexis.piece (client ++ [',', '\n'] ++ indentation ++ resource ++
          argList.flatMap fun a => [',', '\n'] ++ indentation ++ emitStructArg a) =
        lexis.piece client ++ (lexis.piece resource ++
          argList.flatMap fun a => lexis.piece (emitStructArg a)) := by
    rw [hargs, ← piece_append_args _ _ hblank]
    exact ParameterLexis.piece_append_separator _ _ hblank
  have hclient : lexis.piece "struct wl_client *client".toList = ["struct wl_client *".toList] := by
    decide +kernel
  have hresource : lexis.piece "struct wl_resource *resource".toList =
      ["struct wl_resource *".toList] := by
    decide +kernel
  calc lexis.types (emitStructArgs indentation argList)
    _ = lexis.piece "struct wl_client *client".toList ++
          (lexis.piece "struct wl_resource *resource".toList ++
            argList.flatMap fun a => lexis.piece (emitStructArg a)) :=
        hpieces "struct wl_client *client".toList "struct wl_resource *resource".toList
    _ = _ := by
        rw [hclient, hresource]
        rfl

theorem types_emitEventArgs (argList : List Arg) :
    lexis.types (emitEventArgs argList) =
      "struct wl_resource *".toList :: argList.flatMap fun a => lexis.piece (emitEventArg a) := by
  have hblank : ∀ c ∈ [' '], isSpace c = true := List.all_eq_true.mp (by decide)
  have hresource : lexis.piece "struct wl_resource *resource_".toList =
      ["struct wl_resource *".toList] := by
    decide +kernel
  calc lexis.types (emitEventArgs argList)
    _ = lexis.piece "struct wl_resource *resource_".toList ++
          argList.flatMap fun a => lexis.piece (emitEventArg a) :=
        piece_append_args emitEventArg argList hblank
    _ = _ := by
        rw [hresource]
        rfl

/-! ## Arguments -/

/-- A new object whose interface the caller names. -/
def Arg.Untyped (a : Arg) : Prop := a.type = .newId ∧ a.interfaceName = none

instance : DecidablePred Arg.Untyped := fun a =>
  inferInstanceAs (Decidable (a.type = .newId ∧ a.interfaceName = none))

theorem emitEventArg_eq (a : Arg) : emitEventArg a = scannerWriteArg true a := by
  obtain ⟨name, type, interfaceName, enumerationName⟩ := a
  cases type <;> rfl

theorem emitStructArg_eq {a : Arg} (h : ¬ a.Untyped) :
    emitStructArg a = scannerWriteArg false a := by
  obtain ⟨name, type, interfaceName, enumerationName⟩ := a
  cases type with
  | newId =>
    cases interfaceName with
    | none => exact absurd ⟨rfl, rfl⟩ h
    | some interfaceName => rfl
  | _ => rfl

/-- The member of an untyped argument has three parameters, with two commas more than the one of
the signal. -/
theorem length_piece_untyped {a : Arg} (h : a.Untyped) :
    (lexis.piece (emitStructArg a)).length =
      (lexis.piece (scannerWriteArg false a)).length + 2 := by
  obtain ⟨name, type, interfaceName, enumerationName⟩ := a
  obtain ⟨rfl, rfl⟩ := h
  have hstruct : emitStructArg ⟨name, .newId, none, enumerationName⟩ =
      "const char *interface, uint32_t version, uint32_t ".toList ++ name := rfl
  have hsignal : scannerWriteArg false ⟨name, .newId, none, enumerationName⟩ =
      "uint32_t ".toList ++ name := rfl
  have hcommas : "const char *interface, uint32_t version, uint32_t ".toList.count ',' = 2 := by
    decide +kernel
  have hnone : "uint32_t ".toList.count ',' = 0 := by
    decide +kernel
  rw [hstruct, hsignal, ParameterLexis.length_piece, ParameterLexis.length_piece,
    List.count_append, List.count_append]
  change "const char *interface, uint32_t version, uint32_t ".toList.count ',' + _ + 1 =
    "uint32_t ".toList.count ',' + _ + 1 + 2
  rw [hcommas, hnone]
  omega

/-- Each untyped argument makes a difference. -/
theorem length_pieces (argList : List Arg) :
    (argList.flatMap fun a => lexis.piece (emitStructArg a)).length =
      (argList.flatMap fun a => lexis.piece (scannerWriteArg false a)).length +
        2 * argList.countP fun a => decide a.Untyped := by
  induction argList with
  | nil => rfl
  | cons a argList ih =>
    rw [List.flatMap_cons, List.flatMap_cons, List.length_append, List.length_append, ih]
    rw [List.countP_cons]
    by_cases ha : a.Untyped
    · rw [if_pos (decide_eq_true ha), length_piece_untyped ha]
      omega
    · rw [if_neg (by rwa [decide_eq_true_iff]), emitStructArg_eq ha]
      omega

/-! ## Requests and events -/

theorem indent_isSome_iff (name : Text) :
    (indent (name.length + 17)).isSome ↔ name.length ≤ 86 := by
  rw [indent]
  split <;> simp <;> omega

/-- **A request** agrees if it has a name for which there is an indentation, and every new
object has its type. -/
theorem requestAgrees_iff (m : Message) :
    RequestAgrees m ↔ m.name.length ≤ 86 ∧ ∀ a ∈ m.argList, ¬ a.Untyped := by
  constructor
  · rintro ⟨signal, member, hsignal, hmember, htypes⟩
    obtain ⟨indentation, hindent, hmember⟩ := Option.map_eq_some_iff.mp hmember
    have hsignal : scannerWriteArgs m.argList false = signal :=
      List.append_cancel_left (List.append_cancel_right (List.append_cancel_right
        (List.append_cancel_right hsignal)))
    have hmember : emitStructArgs indentation m.argList = member :=
      List.append_cancel_left (List.append_cancel_right hmember)
    refine ⟨(indent_isSome_iff m.name).mp (Option.isSome_of_eq_some hindent), ?_⟩
    -- the two lists would differ in their lengths
    rw [← hsignal, ← hmember, types_emitStructArgs _ (isSpace_indent hindent),
      types_scannerWriteArgs] at htypes
    have hlength := congrArg List.length (List.cons.inj (List.cons.inj htypes).2).2
    rw [length_pieces] at hlength
    have hzero : m.argList.countP (fun a => decide a.Untyped) = 0 := by omega
    intro a ha huntyped
    exact List.countP_eq_zero.mp hzero a ha (decide_eq_true huntyped)
  · rintro ⟨hname, htyped⟩
    obtain ⟨indentation, hindent⟩ :=
      Option.isSome_iff_exists.mp ((indent_isSome_iff m.name).mpr hname)
    refine ⟨scannerWriteArgs m.argList false, emitStructArgs indentation m.argList, rfl, ?_, ?_⟩
    · rw [emitStructMember, hindent]
      rfl
    · rw [types_emitStructArgs _ (isSpace_indent hindent), types_scannerWriteArgs,
        List.flatMap_congr fun a ha => congrArg lexis.piece (emitStructArg_eq (htyped a ha))]

theorem scannerWriteArgs1_eq (argList : List Arg) :
    scannerWriteArgs1 argList = ", ".toList.intercalate (argList.map Arg.name) := by
  rw [scannerWriteArgs1]
  induction argList with
  | nil => rfl
  | cons a argList ih =>
    cases argList with
    | nil =>
      rw [List.map_singleton, List.intercalate_singleton]
      exact List.append_nil a.name
    | cons b argList =>
      rw [List.map_cons, List.map_cons, List.intercalate_cons_cons, ← List.map_cons, ← ih,
        writeArgs_cons, writeArgs_cons, List.flatMap_cons, List.append_assoc, List.append_assoc]

/-- **The forwarded call** has the separator before the arguments if there are any. -/
theorem forwarded_eq {m : Message} (h : m.argCount = m.argList.length) :
    "resource()".toList ++ (if m.argCount > 0 then ", ".toList else []) ++
        scannerWriteArgs1 m.argList =
      ", ".toList.intercalate ("resource()".toList :: m.argList.map Arg.name) := by
  rw [h, scannerWriteArgs1_eq]
  by_cases hargs : m.argList = []
  · rw [hargs]
    rfl
  · rw [if_pos (List.length_pos_of_ne_nil hargs),
      List.intercalate_cons_of_ne_nil (fun hnil => hargs (List.map_eq_nil_iff.mp hnil))]

/-- **An event** agrees if its arguments were counted. -/
theorem eventAgrees (i : Interface) {m : Message} (h : m.argCount = m.argList.length) :
    EventAgrees i m := by
  refine ⟨scannerWriteArgs m.argList true, emitEventArgs m.argList, rfl, ?_, rfl, ?_⟩
  · have happend (before name separator args after : Text) :
        before ++ name ++ separator ++ args ++ after =
          before ++ (name ++ separator ++ args) ++ after := by
      rw [List.append_assoc before, List.append_assoc before]
    rw [← forwarded_eq h]
    exact happend _ _ _ _ _
  · rw [types_emitEventArgs, types_scannerWriteArgs,
      List.flatMap_congr fun a _ => congrArg lexis.piece (emitEventArg_eq a)]

/-! ## Interfaces -/

theorem exists_members {messageList : List Message} (i : Interface)
    (h : ∀ m ∈ messageList, m.name.length ≤ 86) :
    ∃ members, messageList.mapM emitStructMember = some members ∧
      ∃ before after, emitStructs messageList i = some (before ++ members.flatten ++ after) := by
  have hmembers : ∃ members, messageList.mapM emitStructMember = some members := by
    induction messageList with
    | nil => exact ⟨[], rfl⟩
    | cons m messageList ih =>
      obtain ⟨hm, hlist⟩ := List.forall_mem_cons.mp h
      obtain ⟨members, hmembers⟩ := ih hlist
      obtain ⟨indentation, hindent⟩ :=
        Option.isSome_iff_exists.mp ((indent_isSome_iff m.name).mpr hm)
      rw [List.mapM_cons, hmembers, emitStructMember, hindent]
      exact ⟨_, rfl⟩
  obtain ⟨members, hmembers⟩ := hmembers
  refine ⟨members, hmembers, ?_⟩
  rw [emitStructs, hmembers]
  split
  · rename_i hnil
    rw [hnil] at hmembers
    cases hmembers
    exact ⟨[], [], rfl⟩
  · exact ⟨_, _, rfl⟩

/-- **An interface agrees with the server header** exactly if its requests make no new object
whose interface the caller names, and the member of each of them can be indented. -/
theorem agrees_iff {document : List XmlEvent} {ctx : ParseContext} {i : Interface}
    (h : parse document = some ctx) (hi : i ∈ ctx.interfaces)
    (hname : i.name ≠ "wl_display".toList) :
    Agrees ctx i ↔
      ∀ m ∈ ctx.requests i, m.name.length ≤ 86 ∧ ∀ a ∈ m.argList, ¬ a.Untyped := by
  have hctx := parse_wellFormed h
  constructor
  · intro hagrees m hm
    obtain ⟨n, hn, hm⟩ := List.mem_filterMap.mp hm
    obtain ⟨m', hm', hrequest⟩ := hagrees.requests n hn
    cases hm.symm.trans hm'
    exact (requestAgrees_iff m).mp hrequest
  · intro hrequests
    constructor
    case signals =>
      exact ⟨scannerHeaderTop i ++ (ctx.events i).flatMap scannerWriteMethod ++
        "\nsignals:\n".toList, scannerHeaderBottom i, rfl⟩
    case members => exact exists_members i fun m hm => (hrequests m hm).1
    case methods =>
      refine ⟨scannerHeaderTop i, "\nsignals:\n".toList ++
        ((ctx.requests i).flatMap scannerWriteSignal ++ scannerHeaderBottom i), ?_⟩
      rw [scannerWriteHeader, List.append_assoc _ _ (scannerHeaderBottom i),
        List.append_assoc _ "\nsignals:\n".toList]
    case definitions => exact ⟨scannerSourceTop i (ctx.requests i), rfl⟩
    case wrappers => exact if_neg hname
    case requests =>
      intro n hn
      have hlt := hctx.numbered i hi n (List.mem_append_left _ hn)
      have hget := List.getElem?_eq_getElem hlt
      exact ⟨_, hget, (requestAgrees_iff _).mpr
        (hrequests _ (List.mem_filterMap.mpr ⟨n, hn, hget⟩))⟩
    case events =>
      intro n hn
      have hlt := hctx.numbered i hi n (List.mem_append_right _ hn)
      exact ⟨_, List.getElem?_eq_getElem hlt,
        eventAgrees i (hctx.counted _ (List.getElem_mem hlt))⟩

/-- An interface with a request that takes an object, and with an event that makes one. -/
def dataDevice : List XmlEvent :=
  [.startElement "protocol".toList [("name".toList, "wayland".toList)],
    .startElement "interface".toList
      [("name".toList, "wl_data_device".toList), ("version".toList, "3".toList)],
    .startElement "request".toList [("name".toList, "set_selection".toList)],
    .startElement "arg".toList [("name".toList, "source".toList), ("type".toList, "object".toList),
      ("interface".toList, "wl_data_source".toList), ("allow-null".toList, "true".toList)],
    .endElement "arg".toList,
    .startElement "arg".toList [("name".toList, "serial".toList), ("type".toList, "uint".toList)],
    .endElement "arg".toList,
    .endElement "request".toList,
    .startElement "event".toList [("name".toList, "data_offer".toList)],
    .startElement "arg".toList [("name".toList, "id".toList), ("type".toList, "new_id".toList),
      ("interface".toList, "wl_data_offer".toList)],
    .endElement "arg".toList,
    .endElement "event".toList,
    .endElement "interface".toList,
    .endElement "protocol".toList]

theorem dataDevice_agrees : ∃ ctx i, parse dataDevice = some ctx ∧ i ∈ ctx.interfaces ∧
    ctx.requests i ≠ [] ∧ Agrees ctx i := by
  let setSelection : Message := ⟨"set_selection".toList,
    [⟨"source".toList, .object, some "wl_data_source".toList, none⟩,
      ⟨"serial".toList, .unsigned, none, none⟩], 2, false⟩
  let dataOffer : Message := ⟨"data_offer".toList,
    [⟨"id".toList, .newId, some "wl_data_offer".toList, none⟩], 1, false⟩
  let i : Interface := ⟨"wl_data_device".toList, 3, [0], [1], []⟩
  have hparse : parse dataDevice =
      some ⟨[i], [setSelection, dataOffer], [], none, none, false, 0⟩ := by
    decide +kernel
  have hi : i ∈ [i] := List.mem_singleton_self i
  have hname : i.name ≠ "wl_display".toList := by decide
  exact ⟨_, i, hparse, hi, by decide, (agrees_iff hparse hi hname).mpr (by decide)⟩

/-- The registry, with the request that every client begins with. -/
def registry : List XmlEvent :=
  [.startElement "protocol".toList [("name".toList, "wayland".toList)],
    .startElement "interface".toList
      [("name".toList, "wl_registry".toList), ("version".toList, "1".toList)],
    .startElement "request".toList [("name".toList, "bind".toList)],
    .startElement "arg".toList [("name".toList, "name".toList), ("type".toList, "uint".toList)],
    .endElement "arg".toList,
    .startElement "arg".toList [("name".toList, "id".toList), ("type".toList, "new_id".toList)],
    .endElement "arg".toList,
    .endElement "request".toList,
    .endElement "interface".toList,
    .endElement "protocol".toList]

theorem registry_disagrees : ¬ ∀ document ctx i, parse document = some ctx → i ∈ ctx.interfaces →
    i.name ≠ "wl_display".toList → Agrees ctx i := by
  let bind : Message := ⟨"bind".toList,
    [⟨"name".toList, .unsigned, none, none⟩, ⟨"id".toList, .newId, none, none⟩], 2, false⟩
  let i : Interface := ⟨"wl_registry".toList, 1, [0], [], []⟩
  have hparse : parse registry = some ⟨[i], [bind], [], none, none, false, 0⟩ := by
    decide +kernel
  intro hall
  obtain ⟨m, hm, hrequest⟩ :=
    (hall registry _ i hparse (List.mem_singleton_self i) (by decide)).requests 0 (by decide)
  cases hm
  exact ((requestAgrees_iff bind).mp hrequest).2 ⟨"id".toList, .newId, none, none⟩ (by decide)
    ⟨rfl, rfl⟩

end Scanner

end SparkleWayland

import SparkleWayland.Scanner.ServerHeader

/-!
# The classes of the server (`scanner/scanner.c`)

`scanner_write` writes a class for an interface of the protocol: its events are methods, and
its requests are signals. Here are the texts of the two files, `scannerWriteHeader` and
`scannerWriteSource`.
-/

namespace SparkleWayland

namespace Scanner

/-- `scanner_write_type` -/
def scannerWriteType (a : Arg) : Text :=
  match a.type with
  | .int | .fd => "int32_t ".toList
  | .newId | .unsigned => "uint32_t ".toList
  | .fixed => "wl_fixed_t ".toList
  | .string => "const char *".toList
  | .object => "struct ".toList ++ printed a.interfaceName ++ " *".toList
  | .array => "struct wl_array *".toList

/-- The loops of `scanner_write_args` and `scanner_write_args_1`, which differ in what they
write for an argument. -/
def writeArgs (write : Arg → Text) (first : Bool) : List Arg → Text
  | [] => []
  | a :: argList =>
    (if first then [] else ", ".toList) ++ write a ++ writeArgs write false argList

def scannerWriteArg (methods : Bool) (a : Arg) : Text :=
  (if a.type = .object ∨ (a.type = .newId ∧ methods = true) then "struct wl_resource *".toList
    else scannerWriteType a) ++ a.name

/-- `scanner_write_args` -/
def scannerWriteArgs (argList : List Arg) (methods : Bool) : Text :=
  writeArgs (scannerWriteArg methods) true argList

/-- `scanner_write_args_1` -/
def scannerWriteArgs1 (argList : List Arg) : Text := writeArgs Arg.name true argList

/-! ## The header -/

/-- `scanner_write_method` -/
def scannerWriteMethod (message : Message) : Text :=
  "    void send_".toList ++ message.name ++ "(".toList ++
    scannerWriteArgs message.argList true ++ ");\n".toList

/-- `scanner_write_signal` -/
def scannerWriteSignal (message : Message) : Text :=
  "    were_signal<void (".toList ++ scannerWriteArgs message.argList false ++
    ")> ".toList ++ message.name ++ ";\n".toList

/-- What `scanner_write_header` writes before the events -/
def scannerHeaderTop (i : Interface) : Text :=
  "#ifndef SPARKLE_".toList ++ uppercaseDup i.name ++ "_H\n".toList ++
    "#define SPARKLE_".toList ++ uppercaseDup i.name ++ "_H\n\n".toList ++
    "#include \"sparkle_resource.h\"\n\n".toList ++
    "class sparkle_".toList ++ i.name ++ " : public sparkle_resource\n\x7b\npublic:\n".toList ++
    "    ~sparkle_".toList ++ i.name ++ "() override;\n".toList ++
    "    sparkle_".toList ++ i.name ++
    "(struct wl_client *client, int version, uint32_t id);\n".toList ++
    "    explicit sparkle_".toList ++ i.name ++ "(struct wl_resource *resource);\n\n".toList

/-- What it writes after the requests -/
def scannerHeaderBottom (i : Interface) : Text :=
  "\n\x7d;\n\n#endif // SPARKLE_".toList ++ uppercaseDup i.name ++ "_H\n".toList

/-- `scanner_write_header`, of an interface with these requests and events -/
def scannerWriteHeader (i : Interface) (requestList eventList : List Message) : Text :=
  scannerHeaderTop i ++ eventList.flatMap scannerWriteMethod ++ "\nsignals:\n".toList ++
    requestList.flatMap scannerWriteSignal ++ scannerHeaderBottom i

/-! ## The source -/

/-- `scanner_write_bouncers` -/
def scannerWriteBouncers (i : Interface) (requestList : List Message) : Text :=
  if requestList = [] then []
  else "static const struct ".toList ++ i.name ++ "_interface interface = \x7b\n".toList ++
    (requestList.flatMap fun message =>
      (if message.destructor then "    BOUNCER_2_D(sparkle_".toList
        else "    BOUNCER_2(sparkle_".toList) ++
        i.name ++ ", ".toList ++ message.name ++ "),\n".toList) ++
    "\x7d;\n\n".toList

/-- `scanner_write_method_implementation` -/
def scannerWriteMethodImplementation (i : Interface) (message : Message) : Text :=
  "void sparkle_".toList ++ i.name ++ "::send_".toList ++ message.name ++ "(".toList ++
    scannerWriteArgs message.argList true ++ ")\n\x7b\n    if (valid())\n        ".toList ++
    i.name ++ "_send_".toList ++ message.name ++ "(".toList ++ "resource()".toList ++
    (if message.argCount > 0 then ", ".toList else []) ++ scannerWriteArgs1 message.argList ++
    ");\n\x7d\n".toList

/-- What `scanner_write_source` writes before the events -/
def scannerSourceTop (i : Interface) (requestList : List Message) : Text :=
  let className := "sparkle_".toList ++ i.name
  "#include \"".toList ++ className ++ ".h\"\n#include \"sparkle_bouncer.h\"\n\n".toList ++
    scannerWriteBouncers i requestList ++
    className ++ "::~".toList ++ className ++ "()\n\x7b\n\x7d\n\n".toList ++
    className ++ "::".toList ++ className ++
    "(struct wl_client *client, int version, uint32_t id) :\n".toList ++
    "    sparkle_resource(client, &".toList ++ i.name ++ "_interface, version, id, ".toList ++
    (if requestList = [] then "nullptr".toList else "&interface".toList) ++
    ")\n\x7b\n\x7d\n\n".toList ++
    className ++ "::".toList ++ className ++ "(struct wl_resource *resource) :\n".toList ++
    "    sparkle_resource(resource)\n\x7b\n\x7d\n".toList

/-- `scanner_write_source` -/
def scannerWriteSource (i : Interface) (requestList eventList : List Message) : Text :=
  scannerSourceTop i requestList ++
    eventList.flatMap fun message =>
      "\n".toList ++ scannerWriteMethodImplementation i message

end Scanner

end SparkleWayland

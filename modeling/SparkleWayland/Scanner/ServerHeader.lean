import SparkleWayland.Scanner.Protocol

/-!
# The server header of wayland-scanner (`scanner/src/scanner.c`)

`emit_structs` and `emit_event_wrappers`, as `emit_header` calls them for the server. The text
is what they print without the comments.
-/

namespace SparkleWayland

namespace Scanner

/-- `uppercase_dup` -/
def uppercaseDup (src : Text) : Text := src.map Char.toUpper

/-- `%s` -/
def printed (s : Option Text) : Text := s.getD "(null)".toList

/-- `emit_type` -/
def emitType (a : Arg) : Text :=
  match a.type with
  | .int | .fd => "int32_t ".toList
  | .newId | .unsigned => "uint32_t ".toList
  | .fixed => "wl_fixed_t ".toList
  | .string => "const char *".toList
  | .object => "struct ".toList ++ printed a.interfaceName ++ " *".toList
  | .array => "struct wl_array *".toList

/-- `indent`. There are 12 tabs before the end of each of the arrays; what would be more is
before its beginning. -/
def indent (n : Nat) : Option Text :=
  if n / 8 > 12 then none
  else some (List.replicate (n / 8) '\t' ++ List.replicate (n % 8) ' ')

/-! ## Requests -/

/-- An argument of a member of the structure, for the server. -/
def emitStructArg (a : Arg) : Text :=
  (if a.type = .object then "struct wl_resource *".toList
    else if a.type = .newId ∧ a.interfaceName = none then
      "const char *interface, uint32_t version, uint32_t ".toList
    else emitType a) ++ a.name

/-- The parameters of a member -/
def emitStructArgs (indentation : Text) (argList : List Arg) : Text :=
  "struct wl_client *client,\n".toList ++ indentation ++ "struct wl_resource *resource".toList ++
    argList.flatMap fun a => ",\n".toList ++ indentation ++ emitStructArg a

/-- One message of `emit_structs` -/
def emitStructMember (m : Message) : Option Text :=
  (indent (m.name.length + 17)).map fun indentation =>
    "\tvoid (*".toList ++ m.name ++ ")(".toList ++ emitStructArgs indentation m.argList ++
      ");\n".toList

/-- `emit_structs`, for the server -/
def emitStructs (messageList : List Message) (interface : Interface) : Option Text :=
  if messageList = [] then some []
  else (messageList.mapM emitStructMember).map fun members =>
    "struct ".toList ++ interface.name ++ "_interface \x7b\n".toList ++
      members.flatten ++ "\x7d;\n\n".toList

/-! ## Events -/

def emitEventArg (a : Arg) : Text :=
  (match a.type with
    | .newId | .object => "struct wl_resource *".toList
    | _ => emitType a) ++ a.name

/-- The parameters of a wrapper -/
def emitEventArgs (argList : List Arg) : Text :=
  "struct wl_resource *resource_".toList ++ argList.flatMap fun a => ", ".toList ++ emitEventArg a

/-- What follows the parameters of a wrapper -/
def emitEventBody (interface : Interface) (m : Message) : Text :=
  ")\n\x7b\n\twl_resource_post_event(resource_, ".toList ++
    uppercaseDup interface.name ++ "_".toList ++ uppercaseDup m.name ++
    (m.argList.flatMap fun a => ", ".toList ++ a.name) ++
    ");\n\x7d\n\n".toList

/-- One message of `emit_event_wrappers` -/
def emitEventWrapper (interface : Interface) (m : Message) : Text :=
  "static inline void\n".toList ++ interface.name ++ "_send_".toList ++ m.name ++
    "(".toList ++ emitEventArgs m.argList ++ emitEventBody interface m

/-- `emit_event_wrappers` -/
def emitEventWrappers (messageList : List Message) (interface : Interface) : Text :=
  -- the functions of the display are written by hand
  if interface.name = "wl_display".toList then []
  else messageList.flatMap (emitEventWrapper interface)

end Scanner

end SparkleWayland

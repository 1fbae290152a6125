/-!
# Errors

What can go wrong while a document is replayed. Most causes carry the dotted path of the key at
fault; `message` words each of them, and `path?` is that path.
-/

namespace BuildReplay

/-- A cause of failure. -/
inductive Error where
  /-- A key names nothing on its type; `shape` shows the type, or is empty. -/
  | unknownDeclarationKey (path key typeName : String) (available : List String) (shape : String)
  | malformedDispatch (path reason : String)
  /-- A callback declaration holds something other than a table. -/
  | malformedVariantSelector (path callback variant : String)
  | unsupportedCoercion (path target found : String)
  | missingValue (path : String)
  | unassignableField (path field typeName reason : String)
  | unresolvedArgument (path key : String)
  | unknownExtension (name : String) (available : List String)
  | invalidDeclaration (path reason : String)
  /-- A text is no document. -/
  | parse (location message : String)
  | io (message : String)
  | config (message : String)
  /-- The host itself refused. -/
  | host (message : String)
deriving DecidableEq, Repr

namespace Error

/-- The path of the key at fault. -/
def path? : Error → Option String
  | unknownDeclarationKey path _ _ _ _ => some path
  | malformedDispatch path _ => some path
  | malformedVariantSelector path _ _ => some path
  | unsupportedCoercion path _ _ => some path
  | missingValue path => some path
  | unassignableField path _ _ _ => some path
  | unresolvedArgument path _ => some path
  | invalidDeclaration path _ => some path
  | unknownExtension _ _ | parse _ _ | io _ | config _ | host _ => none

def message : Error → String
  | unknownDeclarationKey path key typeName available shape =>
    "Cannot find `" ++ key ++ "` in " ++ typeName ++ " at `" ++ path ++ "`, available: "
      ++ ", ".intercalate available ++ (if shape.isEmpty then "" else "\n" ++ shape)
  | malformedDispatch path reason => "Malformed _dispatch_ at `" ++ path ++ "`: " ++ reason
  | malformedVariantSelector path callback variant =>
    "Invalid `" ++ callback ++ "` declaration at `" ++ path ++ "`: `" ++ variant
      ++ "` must be a table. Use `[" ++ path ++ ".all]` to target all variants or `[" ++ path
      ++ ".VARIANT_NAME]` to target one variant"
  | unsupportedCoercion path target found =>
    "Cannot convert " ++ found ++ " to " ++ target ++ " at `" ++ path ++ "`"
  | missingValue path => "No value provided for `" ++ path ++ "`"
  | unassignableField path field typeName reason =>
    "Cannot assign `" ++ field ++ "` on " ++ typeName ++ " at `" ++ path ++ "`: " ++ reason
  | unresolvedArgument path key => "Cannot resolve a value for `" ++ key ++ "` at `" ++ path ++ "`"
  | unknownExtension name available =>
    "Cannot find extension `" ++ name
      ++ "`, has the plugin registering the extension been applied? Registered extensions: "
      ++ ", ".intercalate available
  | invalidDeclaration path reason => "Invalid declaration at `" ++ path ++ "`: " ++ reason
  | parse location message => "Parse error in " ++ location ++ ": " ++ message
  | io message => "IO error: " ++ message
  | config message => "Configuration error: " ++ message
  | host message => message

end Error

end BuildReplay

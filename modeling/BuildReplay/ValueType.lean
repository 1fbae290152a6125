/-!
# Declared types

The types that fields and parameters of host objects declare. Host types and enumerations are known
by their names.
-/

namespace BuildReplay

/-- A host type, by its name. -/
structure TypeRef where
  name : String
deriving DecidableEq, Repr, Inhabited

/-- A host enumeration: its name and its constants. -/
structure EnumRef where
  name : String
  constants : List String
deriving DecidableEq, Repr, Inhabited

/-- The constant of a name, letter by letter. -/
def EnumRef.valueOf? (e : EnumRef) (constant : String) : Option String :=
  e.constants.find? (· == constant)

/-- The declared type of a field or a parameter. -/
inductive ValueType where
  | bool
  /-- An integer of 32 bits. -/
  | int
  /-- An integer of 64 bits. -/
  | long
  | double
  | string
  | enumeration (e : EnumRef)
  /-- A file path, seen from the project root. -/
  | path
  /-- Any document value, taken over as it is. -/
  | any
  | object (t : TypeRef)
  /-- A collection of objects under names, made on first request. -/
  | named (t : TypeRef)
  /-- A cell for one value. -/
  | property (inner : ValueType)
  | list (element : ValueType)
  /-- Values under texts as keys. -/
  | map (value : ValueType)
deriving DecidableEq, Repr, Inhabited

namespace ValueType

/-- The type of the items of a list, or of the values of a map or a property. -/
def contained? : ValueType → Option ValueType
  | property inner => some inner
  | list element => some element
  | map value => some value
  | _ => none

/-- Whether some document value converts to the type without looking at the host. -/
def isScalar : ValueType → Bool
  | bool | int | long | double | string | enumeration _ | path | any => true
  | _ => false

def text : ValueType → String
  | bool => "Boolean"
  | int => "Int"
  | long => "Long"
  | double => "Double"
  | string => "String"
  | enumeration e => e.name
  | path => "File"
  | any => "Any"
  | object t => t.name
  | named t => "NamedDomainObjectContainer<" ++ t.name ++ ">"
  | property inner => "Property<" ++ inner.text ++ ">"
  | list element => "MutableList<" ++ element.text ++ ">"
  | map value => "MutableMap<String, " ++ value.text ++ ">"

end ValueType

end BuildReplay

import BuildReplay.Scope

/-!
# Arguments

The value that a document value stands for where a type is expected: by coercion for scalar types,
and through the enclosing frames for tables and all other types. Parameters of members and values of
fields are found by two functions, which differ in how they say that there is none.
-/

namespace BuildReplay

variable {σ : Type}

/-- The argument for a parameter; none when nothing fits. -/
def resolveArgument (host : Host σ) (sc : Scope σ) (parameter : ValueType) (v : Value) :
    Act σ (Option Live) :=
  if v.isTable && parameter != .any then
    match Frame.factoryCall? v with
    | some (factory, argument) => invokeFactory host parameter factory argument sc.keyPath
    | none => pure none
  else if parameter.isScalar then
    some <$> .ofExcept (coerce sc.options.projectRoot (some v) parameter sc.keyPath)
  else resolveSymbol host v parameter sc.keyPath sc.frames

/-- Whether a value of a type is looked up in the enclosing frames. -/
def isSymbolic (target : ValueType) (v : Value) : Bool :=
  target != .any && (v.isTable || !target.isScalar)

/-- The value for a field. -/
def resolveValue (host : Host σ) (sc : Scope σ) (target : ValueType) (v : Value) : Act σ Live :=
  if isSymbolic target v then do
    match ← resolveSymbol host v target sc.keyPath sc.frames with
    | some live => return live
    | none => throw (.unsupportedCoercion sc.keyPath target.text v.describe)
  else .ofExcept (coerce sc.options.projectRoot (some v) target sc.keyPath)

end BuildReplay

import BuildReplay.Document.Scalar
import BuildReplay.Lab.World

/-!
# Shapes of the laboratory

The fields and members of the laboratory's types. Members mostly leave a line in the log of their
object, so that a run shows which overload was called with what.
-/

namespace BuildReplay.Lab

def boolText (b : Bool) : String := if b then "true" else "false"

def int32Text (i : Int32) : String := toString i.toInt

/-- The bits of a double as sixteen hexadecimal digits. -/
def bitsText (x : Double) : String :=
  let digits := Text.hexDigits x.bits.toNat
  String.ofList (List.replicate (16 - digits.length) '0' ++ digits)

/-- A field with one and the same value. -/
def fixed (name : String) (type : ValueType) (live : Live) : Field World where
  name
  type
  read := getter fun (_ : Ref Broken) _ => live
  write? := none

/-- A member that always fails. -/
def refusing (α : Type) [Described α] (name : String) (params : List ValueType) (reason : String) :
    Declaration World :=
  .call name params fun (_ : Ref α) _ => .fail (.host reason)

/-- A member that returns its argument. -/
def echo (name : String) (param : ValueType) : Declaration World :=
  .call name [param] fun (_ : Ref Module) args => pure (args.getD 0 .nothing)

def itemType : TypeRef := typeRef Item
def targetType : TypeRef := typeRef Target
def versionType : TypeRef := typeRef Version
def optionsType : TypeRef := typeRef Options
def levelType : ValueType := .enumeration (enumRef Level)
def modeType : ValueType := .enumeration (enumRef Mode)

/-! ## Options, items and targets -/

def Options.declarations : List (Declaration World) := [
  .stored "verbose" .bool Options.verbose fun v o => { o with verbose := v },
  .stored "isStrict" .bool Options.isStrict fun v o => { o with isStrict := v },
  .stored "retries" .int Options.retries fun v o => { o with retries := v },
  .stored "big" .long Options.big fun v o => { o with big := v },
  .stored "ratio" .double Options.ratio fun v o => { o with ratio := v },
  .stored "note" .string Options.note fun v o => { o with note := v },
  .stored "raw" .any Options.raw fun v o => { o with raw := v },
  .stored "dir" .path Options.dir fun v o => { o with dir := v },
  .stored "level" levelType Options.level fun v o => { o with level := v },
  .stored "child" (.object optionsType) Options.child fun v o => { o with child := v }]

/-- Adds a line to the log of an item. -/
def Item.logging (line : String) (i : Item) : Item := { i with log := i.log ++ [line] }

/-- Lends the item that an argument names while `body` runs. -/
def lendOther {α : Type} (mode : BorrowMode) (member : String) (args : List Live)
    (body : Ref Item → Access World α) : Access World α :=
  match args.getD 0 .nothing with
  | .object o => o.lend mode body
  | _ => .fail (.host (member ++ " needs an object"))

def Item.declarations : List (Declaration World) := [
  .viewed "name" .string Item.name,
  .property Item "best" (.object itemType),
  .list Item "tags" .string,
  .stored "weight" .int Item.weight fun v i => { i with weight := v },
  .stored "peer" (.object itemType) Item.peer fun v i => { i with peer := v },
  .setter "attach" .int fun (v : Int32) (i : Item) => i.logging ("int " ++ int32Text v),
  .call "attach" [.object itemType] fun (self : Ref Item) args => do
    let other : Ref Item ← argument args 0
    let name ← .lending .shared other.object (pure "self") (.read fun w => (other.get w : Item).name)
    .modify (self.modify (Item.logging ("item " ++ name)))
    return .nothing,
  .setter "attach" .string fun (v : String) (i : Item) => i.logging ("string " ++ v),
  .call "absorb" [.object itemType] fun (self : Ref Item) args => do
    let weight ← lendOther .shared "absorb" args fun other =>
      .read fun w => (other.get w : Item).weight
    .modify (self.modify fun i => { i with weight := i.weight + weight })
    return .nothing,
  .call "poke" [.object itemType] fun (_ : Ref Item) args => do
    lendOther .exclusive "poke" args fun other =>
      .modify (other.modify fun (i : Item) => { i with weight := i.weight + 1 })
    return .nothing,
  .call "setOwner" [.object targetType] fun (self : Ref Item) args => do
    let owner : Ref Target ← argument args 0
    let name ← .read fun w => (owner.get w : Target).name
    .modify (self.modify (Item.logging ("owner " ++ name)))
    return .nothing,
  .call "nameOf" [] fun (self : Ref Item) _ => .read fun w => toLive (self.get w : Item).name,
  .call "peerOf" [] fun (self : Ref Item) _ => .read fun w => toLive (self.get w : Item).peer]

def Target.declarations : List (Declaration World) := [
  .viewed "name" .string Target.name,
  .stored "a" .int Target.a fun v t => { t with a := v },
  .stored "b" .int Target.b fun v t => { t with b := v },
  .list Target "sources" .path,
  .list Target "names" .string,
  .list Target "picked" (.object itemType),
  .collection Target "children" itemType,
  .readOnly {
    name := "targets"
    type := .named targetType
    read := getter fun (t : Ref Target) w =>
      if (t.get w : Target).isInner then .named targetType ⟨t.object, "targets"⟩ else .nothing
    write? := none },
  .call "defaultFile" [] fun (self : Ref Target) _ =>
    .read fun w => .path ⟨"nested/" ++ (self.get w : Target).name⟩,
  .call "firstChild" [] fun (self : Ref Target) _ =>
    .read fun w => toLive ((self.get w : Target).children.head?.map (·.2)),
  .call "setSibling" [.object targetType] fun (self : Ref Target) args => do
    let other : Ref Target ← argument args 0
    let b ← .lending .shared other.object (pure (-1)) (.read fun w => (other.get w : Target).a)
    .modify (self.modify fun t => { t with b })
    return .nothing]

/-! ## Versions, and objects like maps -/

/-- The integer of 32 bits that a text spells in decimal, with an optional sign. -/
def int32? (s : String) : Option Int32 :=
  let (negative, rest) := Document.readSign s.toList
  if rest.isEmpty then none
  else do
    let magnitude := Document.numberOf 10 (← rest.mapM Document.digit?)
    let i : Int := if negative then -magnitude else magnitude
    if Int32.minValue.toInt ≤ i ∧ i ≤ Int32.maxValue.toInt then some (.ofInt i) else none

/-- Stores a new version. -/
def newVersion (major : Int32) (text : String) : Act World Live := do
  let r : Ref Version ← .run (alloc (Version.mk major text))
  return toLive r

def Version.declarations : List (Declaration World) := [
  .stored "major" .int Version.major fun v x => { x with major := v },
  .viewed "text" .string Version.text,
  .factory {
    name := "of"
    build := fun text => match int32? text with
      | some major => newVersion major text
      | none => throw (.host ("bad version `" ++ text ++ "`")) },
  .factory { name := "named", build := newVersion 0 },
  .factory { name := "wrong", build := fun text => pure (.string text) }]

/-- Adds an entry behind the others. -/
def Labels.put (key text : String) (l : Labels) : Labels :=
  { l with entries := l.entries ++ [(key, text)] }

def Labels.declarations : List (Declaration World) := [
  .stored "title" .string Labels.title fun v l => { l with title := v },
  .viewed "count" .int fun l : Labels => Int32.ofNat l.entries.length,
  refusing Labels "put" [.string] "put of one",
  .call "put" [.string, .int] fun (self : Ref Labels) args => do
    let key : String ← argument args 0
    let v : Int32 ← argument args 1
    .modify (self.modify (Labels.put key ("int " ++ int32Text v)))
    return .nothing,
  .call "put" [.string, .string] fun (self : Ref Labels) args => do
    let key : String ← argument args 0
    let v : String ← argument args 1
    if v = "fail" then .fail (.host "put failed")
    .modify (self.modify (Labels.put key ("string " ++ v)))
    return .nothing,
  .call "put" [.string, levelType] fun (self : Ref Labels) args => do
    let key : String ← argument args 0
    let v : Level ← argument args 1
    .modify (self.modify (Labels.put key ("level " ++ v.title)))
    return .nothing,
  .setter "note" .string fun (v : String) (l : Labels) => { l with title := "note " ++ v },
  .mapLike]

def Bag.declarations : List (Declaration World) := [
  .setter "setColor" .string fun (v : String) (b : Bag) => { b with log := b.log ++ [v] },
  .mapLike]

/-! ## Fields that hold something other than they declare -/

def Broken.logging (line : String) (b : Broken) : Broken := { b with log := b.log ++ [line] }

def Broken.declarations : List (Declaration World) := [
  .settable (fixed "named" (.named itemType) (.int 7)),
  .computed "prop" (.property .int) Broken.text,
  .settable (fixed "list" (.list .int) (.boolean true)),
  .settable (fixed "map" (.map .int) (.double ⟨0x3FF8000000000000⟩)),
  .computed "isLost" .bool Broken.done,
  .settable (fixed "ghost" .int (.int 0)),
  .settable (fixed "half" .int (.int 0)),
  .readOnly (fixed "roNamed" (.named itemType) .nothing),
  .readOnly (.heldIn Broken "words" "looseList" .any .list),
  .readOnly (.heldIn Broken "numbers" "looseMap" .string .map),
  .readOnly (.heldIn Broken "cell" "looseProp" .int .property),
  .readOnly (.heldIn Broken "words" "numberList" (.list .int) .list),
  .readOnly (.heldIn Broken "numbers" "stringMap" (.map .string) .map),
  .readOnly (.heldIn Broken "cell" "stringProp" (.property .string) .property),
  .viewed "level" levelType fun _ : Broken => Level.high,
  .readOnly (fixed "raw" .any (.raw (.integer 1))),
  .readOnly (fixed "big" .long (.long 5)),
  .readOnly (fixed "where" .path (.path ⟨"here"⟩)),
  .stored "lying" .int Broken.text fun v b => { b with text := v },
  .stored "lyingLevel" levelType Broken.text fun v b => { b with text := v },
  .stored "hidden" (.object optionsType) Broken.text fun v b => { b with text := v },
  .stored "wrongLevel" modeType (fun _ => Level.low)
    fun v (b : Broken) => { b with text := v.title },
  .stored "wide" .long (fun _ => (0 : Int32)) fun v (b : Broken) =>
    { b with text := "wide " ++ int32Text v },
  .stored "narrow" .int (fun _ => (0 : Int64)) fun v (b : Broken) =>
    { b with text := "narrow " ++ toString v.toInt },
  .stored "version" (.object versionType) (fun _ => Live.string "none") fun v (b : Broken) =>
    { b with version := (ofLive v).toOption },
  .stored "isDone" .bool Broken.done fun v b => { b with done := v },
  .stored "isÉtat" .bool Broken.done fun v b => { b with done := v },
  .setter "setLost" .bool fun (v : Bool) (b : Broken) => b.logging ("lost " ++ boolText v),
  .setter "setIsLost" .bool fun (v : Bool) (b : Broken) => b.logging ("isLost " ++ boolText v),
  refusing Broken "setHalf" [.int, .int] "setHalf of two",
  .setter "setHalf" .string fun (v : String) (b : Broken) => b.logging v,
  .setter "setSSx" .int fun (v : Int32) (b : Broken) => b.logging ("SSx " ++ int32Text v),
  .setter "wrong" .int fun (v : String) (b : Broken) => { b with text := v },
  .call "fail" [.int] fun (self : Ref Broken) _ => do
    .modify (self.modify (Broken.logging "fail"))
    .fail (.host "fail failed"),
  .setter "fail" .string fun (_ : String) (b : Broken) => b.logging "never after an Int"]

/-! ## Modules -/

def Module.logging (line : String) (m : Module) : Module := { m with log := m.log ++ [line] }

def Module.fields : List (Declaration World) := [
  .stored "isEnabled" .bool Module.enabled fun v m => { m with enabled := v },
  .stored "label" .string Module.label fun v m => { m with label := v },
  .stored "level" levelType Module.level fun v m => { m with level := v },
  .stored "raw" .any Module.raw fun v m => { m with raw := v },
  .stored "extra" (.object optionsType) Module.extra fun v m => { m with extra := v },
  .stored "version" (.object versionType) Module.version fun v m => { m with version := v },
  .computed "priority" .int Module.priority,
  .settable (.held Module "ports" (.list .int) .list),
  .settable (.held Module "weights" (.list .double) .list),
  .settable (.held Module "limits" (.map .long) .map),
  .settable (.held Module "mode" (.property levelType) .property),
  .settable (.held Module "items" (.named itemType) (.named itemType)),
  .list Module "files" .path,
  .list Module "tags" .string,
  .list Module "modes" modeType,
  .list Module "any" .any,
  .map Module "env" .int,
  .map Module "extras" .any,
  .property Module "factor" .double,
  .property Module "note" .any,
  .collection Module "targets" targetType,
  .viewed "options" (.object optionsType) Module.options,
  .viewed "labels" (.object (typeRef Labels)) Module.labels,
  .viewed "bag" (.object (typeRef Bag)) Module.bag,
  .viewed "broken" (.object (typeRef Broken)) Module.broken]

def Module.members : List (Declaration World) := [
  .setter "label" .string fun (v : String) (m : Module) => m.logging ("label " ++ v),
  .setter "setPriority" .int fun (v : Int32) (m : Module) => { m with priority := v * 10 },
  .setter "setRank" .int fun (v : Int32) (m : Module) => m.logging ("rank int " ++ int32Text v),
  .setter "setRank" .string fun (v : String) (m : Module) => m.logging ("rank string " ++ v),
  .setter "setMode2" modeType fun (v : Mode) (m : Module) => m.logging ("mode2 " ++ v.title),
  .setter "useVersion" (.object versionType) fun (v : Ref Version) (m : Module) =>
    { m with version := some v },
  .setter "anyOf" .any fun (v : Value) (m : Module) => { m with raw := some v },
  .setter "setDouble" .double fun (v : Double) (m : Module) => m.logging ("double " ++ bitsText v),
  .setter "setLong" .long fun (v : Int64) (m : Module) => m.logging ("long " ++ toString v.toInt),
  .setter "setPath" .path fun (v : Path) (m : Module) => m.logging ("path " ++ v.text),
  .setter "setFlag" .bool fun (v : Bool) (m : Module) => m.logging ("flag " ++ boolText v),
  .setter "flag" .bool fun (v : Bool) (m : Module) => m.logging ("plain flag " ++ boolText v),
  refusing Module "useList" [.list .int] "useList called",
  refusing Module "two" [.int, .int] "two called",
  refusing Module "zero" [] "zero called",
  .call "defaultFile" [] fun (_ : Ref Module) _ => pure (.path ⟨"/defaults/default.txt"⟩),
  .call "defaultFile" [.string] fun (_ : Ref Module) args => do
    let name : String ← argument args 0
    return .path ((Path.mk "/defaults").join ⟨name⟩),
  .call "concat" [.int, .string] fun (_ : Ref Module) args => do
    let a : Int32 ← argument args 0
    let b : String ← argument args 1
    return .string (int32Text a ++ "#" ++ b),
  .call "concat" [.string, .string] fun (_ : Ref Module) args => do
    let a : String ← argument args 0
    let b : String ← argument args 1
    return .string (a ++ b),
  .call "sum" [.int, .int, .int] fun (_ : Ref Module) args => do
    let a : Int32 ← argument args 0
    let b : Int32 ← argument args 1
    let c : Int32 ← argument args 2
    return .int (a + b + c),
  echo "echo" .any,
  echo "echoPath" .path,
  echo "echoLevel" levelType,
  echo "echoMode" modeType,
  .call "refuse" [.string] fun (_ : Ref Module) args => do
    let v : String ← argument args 0
    .fail (.host ("refused " ++ v)),
  .call "record" [.string] fun (self : Ref Module) args => do
    let v : String ← argument args 0
    .modify (self.modify (Module.logging ("record " ++ v)))
    return .string v]

/-- The types of the laboratory with their declarations. -/
def declarationTable : List (TypeRef × List (Declaration World)) := [
  (typeRef Options, Options.declarations),
  (typeRef Item, Item.declarations),
  (typeRef Target, Target.declarations),
  (typeRef Version, Version.declarations),
  (typeRef Labels, Labels.declarations),
  (typeRef Bag, Bag.declarations),
  (typeRef Broken, Broken.declarations),
  (typeRef Empty, []),
  (typeRef Module, Module.fields ++ Module.members)]

/-- The shape of a type of the laboratory. -/
def shape? (t : TypeRef) : Option (Shape World) :=
  (declarationTable.find? (·.1 == t)).map fun e => .ofDeclarations e.1 e.2

end BuildReplay.Lab

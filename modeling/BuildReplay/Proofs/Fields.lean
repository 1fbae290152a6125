import BuildReplay.Lab.Host
import BuildReplay.Proofs.Walk

/-! # Settable and read-only fields

A key is applied in two halves: its step, and the walk of what the step leaves of its table. Of a
field that hands out a container or an object only what it holds is changed, so it makes no
difference whether the field could be written as well. -/

namespace BuildReplay

variable {σ : Type}

section Apply

variable (host : Host σ) (sc : Scope σ) (shape : Shape σ) (self : ObjectRef) (f : Field σ)
  (key : String) (v : Value)

/-- Applies one key to an object, with all that is below it; `sc` is the scope of the key. -/
def walkKey : Act σ Unit := do
  let next ← keyStep host sc shape self key v
  walkNext host sc next v

/-- Applies a key to a settable field. -/
def walkSettable : Act σ Unit := do
  let next ← settableStep host sc shape self f key v
  walkNext host sc next v

/-- Applies a key to a read-only field. -/
def walkReadOnly : Act σ Unit := do
  let next ← readOnlyStep host sc shape self f v
  walkNext host sc next v

/-- The keys of a table are applied one after the other. -/
theorem walkEntries_cons_walkKey (rest : Table) :
    walkEntries host sc shape self ((key, v) :: rest) = (do
      walkKey host (sc.key key) shape self key v
      walkEntries host sc shape self rest) := by
  rw [walkEntries_cons, walkKey, bind_assoc]

variable {host sc shape self key v}

theorem walkKey_settable {f : Field σ} (hroute : route shape key = .settable f) :
    walkKey host sc shape self key v = walkSettable host sc shape self f key v := by
  simp only [walkKey, keyStep, hroute, walkSettable]

theorem walkKey_readOnly {f : Field σ} (hroute : route shape key = .readOnly f) :
    walkKey host sc shape self key v = walkReadOnly host sc shape self f v := by
  simp only [walkKey, keyStep, hroute, walkReadOnly]

/-- A member ends with the step of its key, whatever the value. -/
theorem walkKey_member (hroute : route shape key = .member) :
    walkKey host sc shape self key v = memberStep host sc shape self key v := by
  simp only [walkKey, keyStep, hroute, bind_assoc, pure_bind, walkNext_done, bind_pure_unit]

end Apply

/-- What a field of a type holds takes a value in, and the field itself stays as it is. -/
inductive TakesIn : ValueType → Live → Value → Prop where
  | named {t element slot v} : TakesIn (.named t) (.named element slot) v
  | list {element slot items} : TakesIn (.list element) (.list slot) (.array items)
  | map {value slot entries} : TakesIn (.map value) (.map slot) (.table entries)
  | property {inner slot v} : TakesIn (.property inner) (.property slot) v
  | object {t r entries} : TakesIn (.object t) (.object r) (.table entries)

section Fields

variable {host : Host σ} {sc : Scope σ} {self : ObjectRef} {f : Field σ} {v : Value} {live : Live}
  {s : σ}

/-- Both steps read the field first, and then do the same with what it holds. -/
theorem settableStep_eq_readOnlyStep (shape shape' : Shape σ) (key : String)
    (hread : f.read self s = .ok live) (htakes : TakesIn f.type live v) :
    settableStep host sc shape self f key v s = readOnlyStep host sc shape' self f v s := by
  have hget : (f.get self).Gives s live s := Act.readExcept_gives.2 ⟨hread, rfl⟩
  -- the declared type is where a read-only field finds the type of its items
  have hcontained : ∀ {t}, f.type.contained? = some t →
      Act.ofExcept (sc.contained shape' f) = (pure t : Act σ ValueType) := by
    intro t ht
    rw [Scope.contained, ht]
    rfl
  unfold settableStep readOnlyStep
  generalize htype : f.type = type at htakes
  cases htakes
  all_goals
    change (f.get self >>= _) s = (f.get self >>= _) s
    rw [hget.bind_eq, hget.bind_eq]
  case named => rfl
  all_goals
    rw [hcontained (by rw [htype]; rfl)]
    rfl

/-- A field that takes a value into what it holds does the same whether it is settable or read-only,
whatever type declares it: the objects end up the same, and so does the outcome, its error included.
-/
theorem walkSettable_eq_walkReadOnly (shape shape' : Shape σ) (key : String)
    (hread : f.read self s = .ok live) (htakes : TakesIn f.type live v) :
    walkSettable host sc shape self f key v s = walkReadOnly host sc shape' self f v s := by
  rw [walkSettable, walkReadOnly, Act.bind_apply, Act.bind_apply,
    settableStep_eq_readOnlyStep shape shape' key hread htakes]

/-- The second port is no integer, so both add the first one and refuse the key. -/
theorem walkSettable_eq_walkReadOnly_ports :
    walkSettable Lab.host (.key (.top ⟨.strict, ⟨"/"⟩⟩ "module") "ports")
        (.ofDeclarations (typeRef Lab.Module) Lab.Module.fields) ⟨typeRef Lab.Module, 0⟩
        (.held Lab.Module "ports" (.list .int) .list) "ports" (.array [.integer 8080, .boolean true])
        Lab.World.empty =
      walkReadOnly Lab.host (.key (.top ⟨.strict, ⟨"/"⟩⟩ "module") "ports")
        (.ofDeclarations (typeRef Lab.Module) [.list Lab.Module "ports" .int]) ⟨typeRef Lab.Module, 0⟩
        (.held Lab.Module "ports" (.list .int) .list) (.array [.integer 8080, .boolean true])
        Lab.World.empty :=
  walkSettable_eq_walkReadOnly _ _ _ rfl .list

end Fields

end BuildReplay

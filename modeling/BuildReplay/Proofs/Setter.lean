import BuildReplay.Proofs.Fields
import BuildReplay.Proofs.Overloads
import BuildReplay.Proofs.Typing

/-! # Fields without storage

A settable field without storage is set through a member: the first one of a single parameter that
goes by the key. The member is handed a value of the field's type, whatever type it declares. The
key of the member's own name tries the overloads on the value instead, so both call the same
overload with the same argument where the first one takes the value as the field does. -/

namespace BuildReplay

variable {σ : Type}

/-! ## Setters -/

/-- The member that sets a field without storage. -/
def Shape.setter? (shape : Shape σ) (key : String) : Option (Member σ) :=
  (shape.overloads (setterName key) 1).head?

/-- Sets a field without storage. -/
def setThrough (sc : Scope σ) (shape : Shape σ) (self : ObjectRef) (f : Field σ) (key : String)
    (live : Live) : Act σ Unit :=
  match shape.setter? key with
  | some m => discard (m.invoke self [live])
  | none => throw <|
    sc.unassignable shape f ("no backing storage and no `" ++ setterName key ++ "` member")

section Setter

variable {host : Host σ} {sc : Scope σ} {shape : Shape σ} {self : ObjectRef} {f : Field σ}
  {key : String} {v : Value} {m : Member σ} {live : Live} {s : σ}

theorem assign_without_storage (h : f.write? = none) :
    assign host sc shape self f key v =
      resolveValue host sc f.type v >>= setThrough sc shape self f key := by
  rw [assign, h]
  rfl

theorem setThrough_of_setter (h : shape.setter? key = some m) (live : Live) :
    setThrough sc shape self f key live = discard (m.invoke self [live]) := by
  rw [setThrough, h]

/-- In front of the setter among its overloads there are only such with other numbers of
parameters. -/
theorem Shape.exists_of_setter? (h : shape.setter? key = some m) :
    m.arity = 1 ∧ ∃ before after, shape.members? (setterName key) = some (before ++ m :: after) ∧
      ∀ m' ∈ before, m'.arity ≠ 1 := by
  cases hms : shape.members? (setterName key) with
  | none => simp [setter?, overloads, hms] at h
  | some ms =>
      rw [setter?, overloads_of_members? hms, List.head?_filter] at h
      obtain ⟨hm, before, after, rfl, hbefore⟩ := List.find?_eq_some_iff_append.1 h
      exact ⟨by simpa using hm, before, after, rfl, by simpa using hbefore⟩

/-- Where a key writes its field plainly, it does nothing else. -/
theorem walkKey_of_assigns (hroute : route shape key = .settable f)
    (h : settableStep host sc shape self f key v s =
      (do assign host sc shape self f key v; return Next.done : Act σ Next) s) :
    walkKey host sc shape self key v s = assign host sc shape self f key v s := by
  rw [walkKey_settable hroute, walkSettable, Act.bind_apply, h, ← Act.bind_apply, bind_assoc]
  simp only [pure_bind, walkNext_done, bind_pure_unit]

/-! ## Scalars -/

/-- Of the scalar types only the one that takes anything takes tables. -/
theorem convert?_table {root : Path} {t : ValueType} {entries : Table}
    (h : convert? root t (.table entries) = some live) : t = .any := by
  cases t <;> first | rfl | cases h

variable {t : ValueType} (hscalar : t.isScalar)
  (hv : convert? sc.options.projectRoot t v = some live)
include hscalar hv

theorem resolveValue_scalar : resolveValue host sc t v = pure live := by
  have hplain : isSymbolic t v = false := by
    by_cases htable : v.isTable
    · obtain ⟨entries, rfl⟩ := Value.exists_of_isTable htable
      rw [convert?_table hv]
      rfl
    · simp [isSymbolic, htable, hscalar]
  rw [resolveValue, hplain, coerce, hv]
  rfl

theorem resolveArgument_taken : resolveArgument host sc t v = pure (some live) := by
  have hplain : ¬(v.isTable && t != .any) := by
    by_cases htable : v.isTable
    · obtain ⟨entries, rfl⟩ := Value.exists_of_isTable htable
      simp [convert?_table hv]
    · simp [htable]
  rw [resolveArgument, if_neg hplain, if_pos hscalar, coerce, hv]
  rfl

/-- The first overload of one parameter is called where it takes the value. -/
theorem invokeFirst_first {before after : List (Member σ)} (hbefore : ∀ m' ∈ before, m'.arity ≠ 1)
    (hm : m.params = [t]) (mismatch : Option Error) :
    invokeFirst host sc self key v none mismatch (before ++ m :: after) =
      discard (m.invoke self [live]) := by
  induction before with
  | nil =>
      have harity : m.arity = (none : Option Live).toList.length + 1 :=
        Member.arity_eq_one.2 ⟨t, hm⟩
      have hparam : m.params.getLastD .any = t := by rw [hm]; rfl
      rw [List.nil_append, invokeFirst, if_pos harity, hparam, resolveArgument_taken hscalar hv]
      rfl
  | cons m' before ih =>
      obtain ⟨hm', hbefore⟩ := List.forall_mem_cons.1 hbefore
      have harity : ¬m'.arity = (none : Option Live).toList.length + 1 := hm'
      rw [List.cons_append, invokeFirst, if_neg harity, ih hbefore]

omit hv in
/-- A scalar field is written plainly, unless it holds an object and the value is a table. -/
theorem settableStep_scalar (ht : f.type = t)
    (hread : v.isTable → ∃ held, f.read self s = .ok held ∧ ∀ r, held ≠ .object r) :
    settableStep host sc shape self f key v s =
      (do assign host sc shape self f key v; return Next.done : Act σ Next) s := by
  subst ht
  have hother : ∀ other : ValueType, other.isScalar = false → f.type ≠ other := by
    rintro other hother rfl
    exact absurd hscalar (by simp [hother])
  by_cases htable : v.isTable
  · obtain ⟨entries, rfl⟩ := Value.exists_of_isTable htable
    obtain ⟨held, hheld, hobject⟩ := hread rfl
    have hget : (f.get self).Gives s held s := Act.readExcept_gives.2 ⟨hheld, rfl⟩
    rw [settableStep_table (fun _ => hother _ rfl) (fun _ => hother _ rfl)
      fun _ => hother _ rfl, hget.bind_eq]
    cases held with
    | object r => exact absurd rfl (hobject r)
    | nothing =>
        generalize f.type = type at hscalar
        cases type with
        | object t => cases hscalar
        | _ => rfl
    | _ => rfl
  · refine congrFun (?_ : settableStep host sc shape self f key v = _) s
    unfold settableStep
    split
    · exact absurd ‹_› (hother _ rfl)
    · exact absurd ‹_› (hother _ rfl)
    · exact absurd ‹_› (hother _ rfl)
    · exact absurd rfl htable
    · exact absurd rfl htable
    · rfl

end Setter

/-! ## Both keys -/

section Keys

variable {host : Host σ} {sc : Scope σ} {shape : Shape σ} {self : ObjectRef} {f : Field σ}
  {key : String} {v : Value} {live : Live} {s : σ}

/-- A member that is nothing but a member is called by its own key. -/
theorem walkKey_setterName {m : Member σ} {t : ValueType}
    (hroute : route shape (setterName key) = .member)
    (hput : shape.mapLike → shape.members? "put" = none) (hm : shape.setter? key = some m)
    (hparams : m.params = [t]) (hscalar : t.isScalar)
    (hv : convert? sc.options.projectRoot t v = some live) :
    walkKey host sc shape self (setterName key) v = discard (m.invoke self [live]) := by
  obtain ⟨-, before, after, hms, hbefore⟩ := Shape.exists_of_setter? hm
  rw [walkKey_member hroute, memberStep_of_no_put hput, hms]
  exact invokeFirst_first hscalar hv hbefore hparams none

/-- A scalar that is written to a field without storage is handed to the first setter of one
parameter as a value of the field's type. Where that setter declares the type of the field, or any
other that takes the value as the same one, the key of the setter does the same. -/
theorem walkKey_without_storage (host : Host σ) (sc : Scope σ) (self : ObjectRef) (s : σ)
    (hroute : route shape key = .settable f) (hstorage : f.write? = none)
    (hscalar : f.type.isScalar) (hv : convert? sc.options.projectRoot f.type v = some live)
    (hread : v.isTable → ∃ held, f.read self s = .ok held ∧ ∀ r, held ≠ .object r) :
    live.HasType f.type ∧
    walkKey host sc shape self key v s = setThrough sc shape self f key live s ∧
    ∀ m t, shape.setter? key = some m → m.params = [t] → t.isScalar →
      convert? sc.options.projectRoot t v = some live →
      route shape (setterName key) = .member → (shape.mapLike → shape.members? "put" = none) →
      ∀ sc' : Scope σ, sc'.options.projectRoot = sc.options.projectRoot →
        walkKey host sc' shape self (setterName key) v s = walkKey host sc shape self key v s := by
  have hkey : walkKey host sc shape self key v s = setThrough sc shape self f key live s := by
    rw [walkKey_of_assigns hroute (settableStep_scalar hscalar rfl hread),
      assign_without_storage hstorage, resolveValue_scalar hscalar hv]
    rfl
  refine ⟨convert?_hasType hv, hkey, fun m t hm hparams ht htaken hmember hput sc' hroot => ?_⟩
  rw [hkey, setThrough_of_setter hm,
    walkKey_setterName hmember hput hm hparams ht (by rw [hroot]; exact htaken)]

end Keys

namespace Lab

/-- The shape of the objects whose fields hold something other than they declare. -/
def Broken.shape : Shape World := .ofDeclarations (typeRef Broken) Broken.declarations

/-- The scope around the keys of a laboratory document. -/
def outer : Scope World := .top ⟨.strict, ⟨"/"⟩⟩ "module"

/-- Modules with a rank that is a text and has no storage. Their setters take an integer or a
text. -/
def Module.ranked : Shape World :=
  .ofDeclarations (typeRef Module)
    [.computed "rank" .string Module.label,
      .setter "setRank" .int fun (v : Int32) (m : Module) => m.logging ("int " ++ int32Text v),
      .setter "setRank" .string fun (v : String) (m : Module) => m.logging ("string " ++ v)]

end Lab

/-- The first setter of `isLost` declares the type of the field. -/
theorem walkKey_without_storage_isLost :
    (Live.boolean true).HasType .bool ∧
    walkKey Lab.host (Lab.outer.key "isLost") Lab.Broken.shape ⟨typeRef Lab.Broken, 0⟩ "isLost"
        (.boolean true) Lab.World.empty =
      walkKey Lab.host (Lab.outer.key "setIsLost") Lab.Broken.shape ⟨typeRef Lab.Broken, 0⟩
        "setIsLost" (.boolean true) Lab.World.empty := by
  obtain ⟨htype, -, hsetter⟩ := walkKey_without_storage Lab.host (Lab.outer.key "isLost")
    ⟨typeRef Lab.Broken, 0⟩ Lab.World.empty
    (show route Lab.Broken.shape "isLost" = .settable _ from rfl) rfl rfl
    (show convert? _ _ (.boolean true) = some (.boolean true) from rfl) (fun h => by cases h)
  exact ⟨htype, (hsetter _ .bool rfl rfl rfl rfl rfl (fun h => by cases h) _ rfl).symm⟩

/-- The text goes to the setter that takes integers, which refuses it, though there is one that
takes texts and that the key `setRank` finds. -/
theorem walkKey_without_storage_rank :
    (Lab.Module.ranked.settable? "rank").map (fun f => (f.type, f.write?.isNone)) =
        some (.string, true) ∧
      (Lab.Module.ranked.overloads (setterName "rank") 1).map Member.params = [[.int], [.string]] ∧
      convert? ⟨"/"⟩ .string (.string "high") = some (.string "high") ∧
      (walkKey Lab.host (Lab.outer.key "rank") Lab.Module.ranked ⟨typeRef Lab.Module, 0⟩ "rank"
        (.string "high")).Raises Lab.World.empty (.host "expected int but got Str(\"high\")")
        Lab.World.empty ∧
      ((Ref.mk 0 : Ref Lab.Module).get (walkKey Lab.host (Lab.outer.key "setRank")
        Lab.Module.ranked ⟨typeRef Lab.Module, 0⟩ "setRank" (.string "high")
        Lab.World.empty).2).log = ["string high"] :=
  ⟨rfl, rfl, rfl, rfl, rfl⟩

end BuildReplay

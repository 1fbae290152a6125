import BuildReplay.Android.Shapes
import BuildReplay.Lab.World
import BuildReplay.Proofs.Typing
import Mathlib.Algebra.Group.Int.Defs

/-! # The table of conversions

Three tables say what converts: the predicate by which the mapper chooses between conversion and the
frames around a key, the conversion itself, and the conversions into the types of host fields. They
agree on every type and every value. -/

namespace BuildReplay

variable {root : Path} {t : ValueType} {v : Value} {live : Live} {path : String}

/-! ## Conversion -/

/-- The table of conversions, with the values it makes. -/
inductive Converts (root : Path) : ValueType → Value → Live → Prop where
  | bool (b : Bool) : Converts root .bool (.boolean b) (.boolean b)
  | int {i : Int64} {j : Int32} : -2 ^ 31 ≤ i.toInt → i.toInt ≤ 2 ^ 31 - 1 → j.toInt = i.toInt →
      Converts root .int (.integer i) (.int j)
  | long (i : Int64) : Converts root .long (.integer i) (.long i)
  | double (x : Double) : Converts root .double (.float x) (.double x)
  | whole (i : Int64) : Converts root .double (.integer i) (.double (.ofInt i.toInt))
  | string (s : String) : Converts root .string (.string s) (.string s)
  | enumeration {e : EnumRef} {s : String} : s ∈ e.constants →
      Converts root (.enumeration e) (.string s) (.enumeration e s)
  | absolute {s : String} : (Path.mk s).isAbsolute → Converts root .path (.string s) (.path ⟨s⟩)
  | relative {s : String} : ¬(Path.mk s).isAbsolute →
      Converts root .path (.string s) (.path (root.join ⟨s⟩))
  | any (v : Value) : Converts root .any v (.raw v)

theorem fitsInt_iff {i : Int64} : fitsInt i ↔ -2 ^ 31 ≤ i.toInt ∧ i.toInt ≤ 2 ^ 31 - 1 := by
  have hmin : Int32.minValue.toInt = -2 ^ 31 := by decide
  have hmax : Int32.maxValue.toInt = 2 ^ 31 - 1 := by decide
  rw [fitsInt, hmin, hmax, Bool.and_eq_true, decide_eq_true_iff, decide_eq_true_iff]

/-- A number that fits keeps its value in 32 bits. -/
theorem toInt_toInt32 {i : Int64} (h : fitsInt i) : i.toInt32.toInt = i.toInt := by
  obtain ⟨hlow, hhigh⟩ := fitsInt_iff.1 h
  rw [Int64.toInt_toInt32, Int.bmod_eq_of_le] <;> omega

theorem EnumRef.valueOf?_eq_some_iff {e : EnumRef} {s constant : String} :
    e.valueOf? s = some constant ↔ s ∈ e.constants ∧ constant = s := by
  constructor
  · intro h
    have heq : constant = s := by simpa using List.find?_some h
    exact ⟨heq ▸ EnumRef.mem_of_valueOf? h, heq⟩
  · rintro ⟨hmem, rfl⟩
    obtain ⟨found, hfind⟩ : ∃ found, e.valueOf? constant = some found :=
      Option.isSome_iff_exists.1 (List.find?_isSome.2 ⟨constant, hmem, by simp⟩)
    have heq : found = constant := by simpa using List.find?_some hfind
    rw [hfind, heq]

theorem Converts.of_convert? (h : convert? root t v = some live) : Converts root t v live := by
  unfold convert? at h
  split at h
  · cases h
    exact .bool _
  · split at h
    · rename_i hfits
      cases h
      obtain ⟨hlow, hhigh⟩ := fitsInt_iff.1 hfits
      exact .int hlow hhigh (toInt_toInt32 hfits)
    · cases h
  · cases h
    exact .long _
  · cases h
    exact .double _
  · cases h
    exact .whole _
  · cases h
    exact .string _
  · obtain ⟨constant, hconstant, rfl⟩ := Option.map_eq_some_iff.1 h
    obtain ⟨hmem, rfl⟩ := EnumRef.valueOf?_eq_some_iff.1 hconstant
    exact .enumeration hmem
  · cases h
    unfold resolvePath
    split
    · exact .absolute ‹_›
    · exact .relative ‹_›
  · cases h
    exact .any _
  · cases h

theorem Converts.convert?_eq (h : Converts root t v live) : convert? root t v = some live := by
  cases h with
  | bool | long | double | whole | string | any => rfl
  | @int i j hlow hhigh hcontent =>
      have hfits : fitsInt i := fitsInt_iff.2 ⟨hlow, hhigh⟩
      have hj : i.toInt32 = j := Int32.toInt_inj.1 ((toInt_toInt32 hfits).trans hcontent.symm)
      rw [convert?, if_pos hfits, hj]
  | enumeration hmem =>
      rw [convert?, EnumRef.valueOf?_eq_some_iff.2 ⟨hmem, rfl⟩]
      rfl
  | absolute habsolute => rw [convert?, resolvePath, if_pos habsolute]
  | relative hrelative => rw [convert?, resolvePath, if_neg hrelative]

theorem convert?_eq_some_iff : convert? root t v = some live ↔ Converts root t v live :=
  ⟨Converts.of_convert?, Converts.convert?_eq⟩

theorem coerce_eq_ok_iff : coerce root (some v) t path = .ok live ↔ Converts root t v live := by
  rw [← convert?_eq_some_iff, coerce]
  cases convert? root t v <;> simp

theorem coerce_eq_error (h : ∀ live, ¬Converts root t v live) :
    coerce root (some v) t path = .error (.unsupportedCoercion path t.text v.describe) := by
  have hnone : convert? root t v = none :=
    Option.eq_none_iff_forall_not_mem.2 fun live hlive => h live (.of_convert? hlive)
  rw [coerce, hnone]

theorem coerce_eq_missing_iff {v? : Option Value} {p : String} :
    coerce root v? t path = .error (.missingValue p) ↔ v? = none ∧ path = p := by
  cases v? with
  | none => simp [coerce]
  | some v =>
      rw [coerce]
      cases convert? root t v <;> simp

/-! ## The predicate -/

theorem Converts.isScalar (h : Converts root t v live) : t.isScalar := by
  cases h <;> rfl

/-- The predicate holds of the types that some value converts to, and of enumerations. -/
theorem isScalar_iff (root : Path) (ht : ∀ e, t = .enumeration e → e.constants ≠ []) :
    t.isScalar ↔ ∃ v live, Converts root t v live := by
  constructor
  · intro h
    cases t with
    | bool => exact ⟨_, _, .bool true⟩
    | int => exact ⟨_, _, .int (i := 0) (j := 0) (by decide) (by decide) rfl⟩
    | long => exact ⟨_, _, .long 0⟩
    | double => exact ⟨_, _, .whole 0⟩
    | string => exact ⟨_, _, .string ""⟩
    | enumeration e =>
        obtain ⟨constant, hmem⟩ := List.exists_mem_of_ne_nil _ (ht e rfl)
        exact ⟨_, _, .enumeration hmem⟩
    | path => exact ⟨_, _, Converts.of_convert? (v := .string "") rfl⟩
    | any => exact ⟨_, _, .any (.boolean true)⟩
    | object | named | property | list | map => cases h
  · rintro ⟨v, live, h⟩
    exact h.isScalar

/-! ## Host types -/

/-- An enumeration is declared by one table of its values and their constants: a text reads as the
first value whose constant it is. -/
class Tabulated (α : Type) [Enumerated α] : Prop where
  exists_table : ∃ all : List α, (enumRef α).constants = all.map Enumerated.constant ∧
    ∀ s, Enumerated.ofConstant? s = all.find? fun a => Enumerated.constant a == s

instance : Tabulated Android.JavaVersion := ⟨Android.JavaVersion.all, rfl, fun _ => rfl⟩

instance : Tabulated Lab.Level := ⟨Lab.Level.all, rfl, fun _ => rfl⟩

instance : Tabulated Lab.Mode := ⟨Lab.Mode.all, rfl, fun _ => rfl⟩

/-- The host types that declared types name, with their conversions. -/
inductive HostType : ValueType → (β : Type) → (Live → Except Error β) → (β → Live) → Prop where
  | bool : HostType .bool Bool ofLive toLive
  | int : HostType .int Int32 ofLive toLive
  | long : HostType .long Int64 ofLive toLive
  | double : HostType .double Double ofLive toLive
  | string : HostType .string String ofLive toLive
  | enumeration (α : Type) [Enumerated α] [Tabulated α] :
      HostType (.enumeration (enumRef α)) α Enumerated.ofLive Enumerated.toLive
  | path : HostType .path Path ofLive toLive
  | any : HostType .any Value ofLive toLive

/-- Every constant of a tabulated enumeration reads as a value that shows it. -/
theorem Enumerated.exists_ofLive {α : Type} [Enumerated α] [Tabulated α] {constant : String}
    (h : constant ∈ (enumRef α).constants) :
    ∃ a : α, Enumerated.ofLive (.enumeration (enumRef α) constant) = .ok a ∧
      Enumerated.toLive a = .enumeration (enumRef α) constant := by
  obtain ⟨all, hconstants, hread⟩ := Tabulated.exists_table (α := α)
  rw [hconstants] at h
  obtain ⟨a, ha, rfl⟩ := List.mem_map.1 h
  obtain ⟨found, hfind⟩ : ∃ found,
      all.find? (fun b => Enumerated.constant b == Enumerated.constant a) = some found :=
    Option.isSome_iff_exists.1 (List.find?_isSome.2 ⟨a, ha, by simp⟩)
  have hconstant : Enumerated.constant found = Enumerated.constant a := by
    simpa using List.find?_some hfind
  refine ⟨found, ?_, ?_⟩
  · rw [Enumerated.ofLive, if_pos rfl, hread, hfind]
    rfl
  · rw [Enumerated.toLive, hconstant]

/-- A host type takes every value of the declared type that names it, and gives it back. -/
theorem HostType.exists_eq {β : Type} {take : Live → Except Error β} {give : β → Live}
    (h : HostType t β take give) (hlive : live.HasType t) :
    ∃ b, take live = .ok b ∧ give b = live := by
  cases h with
  | bool | int | long | double | string | path | any =>
      cases hlive
      exact ⟨_, rfl, rfl⟩
  | enumeration α =>
      cases hlive with
      | enumeration hmem => exact Enumerated.exists_ofLive hmem

/-- What converts is what the table says, and nothing else: any other value is refused under its
path, with the type, and only a value that is not there is missing. The predicate holds of the types
that something converts to, unless an enumeration has no constants, and the host type that a declared
type names takes all that converts, and gives it back. -/
theorem coerce_iff_converts (root : Path) (t : ValueType) (v? : Option Value) (path : String) :
    (∀ p, coerce root v? t path = .error (.missingValue p) ↔ v? = none ∧ path = p) ∧
    (∀ v, v? = some v →
      (∀ live, coerce root v? t path = .ok live ↔ Converts root t v live) ∧
      ((∀ live, ¬Converts root t v live) →
        coerce root v? t path = .error (.unsupportedCoercion path t.text v.describe)) ∧
      ∀ live, coerce root v? t path = .ok live → ∀ {β : Type} {take : Live → Except Error β}
        {give : β → Live}, HostType t β take give → ∃ b, take live = .ok b ∧ give b = live) ∧
    ((∀ e, t = .enumeration e → e.constants ≠ []) →
      (t.isScalar ↔ ∃ v live, coerce root (some v) t path = .ok live)) := by
  refine ⟨fun p => coerce_eq_missing_iff, ?_, fun ht => ?_⟩
  · rintro v rfl
    exact ⟨fun live => coerce_eq_ok_iff, coerce_eq_error,
      fun live hlive _ _ _ hβ => hβ.exists_eq (coerce_hasType hlive)⟩
  · simp only [coerce_eq_ok_iff]
    exact isScalar_iff root ht

/-- The name of a version converts and is taken as that version, the name of none is refused. -/
theorem coerce_iff_converts_javaVersion :
    (ValueType.enumeration (enumRef Android.JavaVersion)).isScalar ∧
    (∀ live, coerce ⟨"/"⟩ (some (.string "VERSION_17")) (.enumeration (enumRef Android.JavaVersion))
        "version" = .ok live →
      ∃ version : Android.JavaVersion, ofLive live = .ok version ∧ toLive version = live) ∧
    coerce ⟨"/"⟩ (some (.string "17")) (.enumeration (enumRef Android.JavaVersion)) "version" =
      .error (.unsupportedCoercion "version" "JavaVersion" "string \"17\"") := by
  have hconstants : ∀ e, ValueType.enumeration (enumRef Android.JavaVersion) = .enumeration e →
      e.constants ≠ [] := by
    rintro e ⟨⟩
    exact List.cons_ne_nil _ _
  have hnone : ∀ live, ¬Converts ⟨"/"⟩ (.enumeration (enumRef Android.JavaVersion))
      (.string "17") live := by
    intro live h
    cases h with
    | enumeration hmem => exact absurd hmem (by decide)
  obtain ⟨-, htaken, hscalar⟩ := coerce_iff_converts ⟨"/"⟩
    (.enumeration (enumRef Android.JavaVersion)) (some (.string "VERSION_17")) "version"
  obtain ⟨-, hrefused, -⟩ := (coerce_iff_converts ⟨"/"⟩
    (.enumeration (enumRef Android.JavaVersion)) (some (.string "17")) "version").2.1 _ rfl
  refine ⟨(hscalar hconstants).2 ⟨.string "VERSION_17", _, rfl⟩, fun live hlive => ?_,
    hrefused hnone⟩
  exact (htaken _ rfl).2.2 live hlive (.enumeration Android.JavaVersion)

end BuildReplay

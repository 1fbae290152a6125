import BuildReplay.Proofs.Android.Names
import BuildReplay.Proofs.Android.Signing
import BuildReplay.Proofs.Android.SigningReferences
import BuildReplay.Proofs.Position
import Mathlib.Logic.Relation

/-! # Where signing references come from

A build type is to be signed with what its own key `signingConfig` says, or with what another build
type was to be signed with when its settings were taken over by the key `initWith`. So a reference
that is refused stands in the document, but not always in the table of the build type that the error
is about. -/

namespace BuildReplay.Android

open Act Law

/-! ## The table of a build type -/

/-- The table takes over from a build type, and does not say after that what to sign with. -/
def TakesOver (body : Table) (o : String) : Prop :=
  ∃ before after, body = before ++ ("initWith", .string o) :: after ∧ "signingConfig" ∉ Table.keys after

theorem TakesOver.cons {body : Table} {o : String} (h : TakesOver body o) (e : String × Value) :
    TakesOver (e :: body) o := by
  obtain ⟨before, after, rfl, hafter⟩ := h
  exact ⟨e :: before, after, rfl, hafter⟩

theorem eq_string_of_asString? {v : Value} {s : String} (h : v.asString? = some s) :
    v = .string s := by
  cases v <;> cases h
  rfl

namespace Signings

variable {g : Signings} {n o s : String} {body : Table}

theorem key_of_ne (ho : o ≠ n) (e : String × Value) : key n g e o = g o := by
  unfold key
  split
  · exact Function.update_of_ne ho _ _
  · split
    · exact Function.update_of_ne ho _ _
    · rfl

theorem foldl_key_of_ne (ho : o ≠ n) (body : Table) : body.foldl (key n) g o = g o := by
  induction body generalizing g with
  | nil => rfl
  | cons e body ih => rw [List.foldl_cons, ih, key_of_ne ho]

/-- A key that refers to a configuration says so itself, or takes the reference over, or leaves it
as it is. -/
theorem key_cases {e : String × Value} (h : key n g e n = some (some s)) :
    e = ("signingConfig", .string s) ∨
      e.1 ≠ "signingConfig" ∧
        ((∃ o, o ≠ n ∧ e = ("initWith", .string o) ∧ g o = some (some s)) ∨
          g n = some (some s)) := by
  obtain ⟨k, v⟩ := e
  by_cases hsigning : k = "signingConfig"
  · subst hsigning
    rw [key, if_pos rfl, Function.update_self] at h
    exact .inl (congrArg _ (eq_string_of_asString? (Option.some.inj h)))
  refine .inr ⟨hsigning, ?_⟩
  by_cases hinit : k = "initWith"
  · subst hinit
    rw [key, if_neg hsigning, if_pos rfl, Function.update_self] at h
    rcases Option.or_eq_some_iff.1 h with hother | ⟨-, hold⟩
    · obtain ⟨o, ho, hother⟩ := Option.bind_eq_some_iff.1 hother
      by_cases hne : o = n
      · exact .inr (hne ▸ hother)
      · exact .inl ⟨o, hne, congrArg _ (eq_string_of_asString? ho), hother⟩
    · exact .inr hold
  · rw [key, if_neg hsigning, if_neg hinit] at h
    exact .inr h

/-- What a build type refers to after its table stands in the table, or is what it has taken over
from another build type, or what it referred to before. -/
theorem foldl_key_cases (h : body.foldl (key n) g n = some (some s)) :
    ("signingConfig", .string s) ∈ body ∨
      (∃ o, o ≠ n ∧ TakesOver body o ∧ g o = some (some s)) ∨
      "signingConfig" ∉ Table.keys body ∧ g n = some (some s) := by
  induction body generalizing g with
  | nil => exact .inr (.inr ⟨List.not_mem_nil, h⟩)
  | cons e body ih =>
      rcases ih h with hown | ⟨o, hne, htakes, ho⟩ | ⟨hkeys, hold⟩
      · exact .inl (List.mem_cons_of_mem _ hown)
      · exact .inr (.inl ⟨o, hne, htakes.cons e, (key_of_ne hne e).symm.trans ho⟩)
      · rcases key_cases hold with rfl | ⟨hsigning, ⟨o, hne, rfl, ho⟩ | hold⟩
        · exact .inl List.mem_cons_self
        · exact .inr (.inl ⟨o, hne, ⟨[], body, rfl, hkeys⟩, ho⟩)
        · exact .inr (.inr ⟨List.not_mem_cons_of_ne_of_not_mem (Ne.symm hsigning) hkeys, hold⟩)

end Signings

/-! ## Documents -/

/-- A table of the document for one build type takes over from another one. -/
def TakesOverFrom (document : Table) (n o : String) : Prop :=
  ∃ body, (Value.table document).Holds [applicationKey, "buildTypes", n] (.table body) ∧
    TakesOver body o

/-- The document says itself what a build type is to be signed with. -/
def WritesSigning (document : Table) (n s : String) : Prop :=
  (Value.table document).Holds [applicationKey, "buildTypes", n, "signingConfig"] (.string s)

namespace Signings

variable {document : Table} {g : Signings}

/-- A key of a document. -/
def documentKey (g : Signings) (e : String × Value) : Signings :=
  if e.1 = applicationKey then
    match e.2 with
    | .table t => t.foldl application g
    | _ => g
  else g

/-- All references are written in the document, for the build types that have them or for build
types from which these have taken them over. -/
def Written (document : Table) (g : Signings) : Prop :=
  ∀ n s, g n = some (some s) →
    ∃ m, Relation.ReflTransGen (TakesOverFrom document) n m ∧ WritesSigning document m s

/-- A build type that is made has no reference. -/
theorem Written.make (hg : Written document g) (n : String) :
    Written document (Function.update g n ((g n).or (some none))) := by
  intro o s ho
  by_cases hne : o = n
  · subst hne
    rw [Function.update_self] at ho
    rcases Option.or_eq_some_iff.1 ho with hold | ⟨-, hnone⟩
    · exact hg o s hold
    · cases hnone
  · rw [Function.update_of_ne hne] at ho
    exact hg o s ho

theorem Written.buildType (hg : Written document g) {n : String} {v : Value}
    (hv : (Value.table document).Holds [applicationKey, "buildTypes", n] v) :
    Written document (g.buildType (n, v)) := by
  cases v with
  | table body =>
      have hmade := hg.make n
      intro o s ho
      by_cases hne : o = n
      · subst hne
        rcases foldl_key_cases ho with hown | ⟨o', -, htakes, ho'⟩ | ⟨-, hold⟩
        · exact ⟨o, .refl, hv.snoc hown⟩
        · obtain ⟨m, hsteps, hm⟩ := hmade o' s ho'
          exact ⟨m, .head ⟨body, hv, htakes⟩ hsteps, hm⟩
        · exact hmade o s hold
      · exact hmade o s ((foldl_key_of_ne hne body).symm.trans ho)
  | _ => exact hg

theorem Written.application (hg : Written document g) {t : Table}
    (ht : (Value.table document).Holds [applicationKey] (.table t)) {e : String × Value}
    (he : e ∈ t) : Written document (g.application e) := by
  obtain ⟨key, v⟩ := e
  unfold Signings.application
  split
  · rename_i hkey
    obtain rfl : key = "buildTypes" := hkey
    cases v with
    | table types =>
        exact List.foldlRecOn types _ hg fun g hg e hmem =>
          Written.buildType hg ((ht.snoc he).snoc hmem)
    | _ => exact hg
  · exact hg

/-- A document adds no references but those that it writes. -/
theorem written_document (hg : Written document g) :
    Written document (document.foldl Signings.documentKey g) := by
  refine List.foldlRecOn document _ hg fun g hg e hmem => ?_
  obtain ⟨key, v⟩ := e
  unfold Signings.documentKey
  split
  · rename_i hkey
    obtain rfl : key = applicationKey := hkey
    cases v with
    | table t =>
        exact List.foldlRecOn t _ hg fun g hg e he =>
          Written.application hg (.under hmem .here) he
    | _ => exact hg
  · exact hg

end Signings

/-! ## Projects -/

namespace ApplicationProject

/-- The references of the application of a project, once there is one. -/
def references (p : ApplicationProject) : Signings :=
  match p.application with
  | none => fun _ => none
  | some a => signings a p.model

section Phases

variable {options : Options} {document : Table} {p p' : ApplicationProject}

theorem references_eq {a : Ref ApplicationExtension} (ha : p.application = some a) :
    p.references = signings a p.model := by
  rw [references, ha]

/-- The callbacks for variants are none of the references' business. -/
theorem references_components {name typeName : String} {t : Table}
    (h : (project.configure options name t (.components typeName)).Gives p () p') :
    p'.references = p.references := by
  have hobeys : (keeps (fun q : ApplicationProject => q.model = p.model) fun _ => True).Obeys
      (project.configure options name t (.components typeName)) := by
    rw [configure_components]
    split
    · exact Components.configure_obeys (fun _ _ _ => trivial)
        (fun _ _ _ _ _ hq => ⟨hq, fun _ _ _ => trivial⟩) name t
    · exact Law.throw _ trivial
  have hmodel : p'.model = p.model := keeps_gives hobeys rfl h
  rw [references, references, configure_application h, hmodel]

theorem references_object (hp : p.Orderly) {a : Ref ApplicationExtension}
    (ha : p.application = some a) {name : String} {t : Table}
    (h : (project.configure options name t (.object a.object)).Gives p () p') :
    p'.references = t.foldl Signings.application p.references := by
  rw [references_eq ha, references_eq ((configure_application h).trans ha)]
  rw [configure_object] at h
  exact signings_replay (hp.reachable ha).intact.sound h.of_within

/-- A key of a document that is accepted. -/
theorem references_key (hp : p.Orderly) {e : String × Value}
    (h : (project.applyKeys options [e]).Gives p () p') :
    p'.references = p.references.documentKey e := by
  obtain ⟨key, v⟩ := e
  by_cases hkey : key != pluginsKey && key != dependenciesKey
  · rw [Project.applyKeys_cons _ _ hkey, Project.applyKeys, bind_pure_unit] at h
    cases v with
    | table t =>
        obtain ⟨registry, _, hread, h⟩ := bind_gives.1 h
        obtain ⟨rfl, rfl⟩ := read_gives.1 hread
        split at h
        · rename_i e hget
          rcases hp.extension hget with ⟨rfl, a, ha, rfl⟩ | ⟨rfl, rfl⟩
          · exact references_object hp ha h
          · exact references_components h
        · exact absurd h not_throw_gives
    | _ => exact absurd h not_throw_gives
  · rw [Project.applyKeys_cons_of_not _ _ hkey] at h
    obtain ⟨-, rfl⟩ := pure_gives.1 h
    have hne : key ≠ applicationKey := by
      rintro rfl
      exact hkey rfl
    exact (if_neg hne).symm

theorem references_keys (hp : p.Orderly) {t : Table}
    (h : (project.applyKeys options t).Gives p () p') :
    p'.Orderly ∧ p'.references = t.foldl Signings.documentKey p.references := by
  rw [Project.applyKeys_eq_inOrder] at h
  refine inOrder_foldl (I := Orderly) (fun {e q q'} hq hstep => ⟨?_, references_key hq hstep⟩) hp h
  exact keeps_gives ((project_orderly options).applyKeys (fun _ _ => trivial) [e]) hq hstep

/-- No build type of the model is to be signed. -/
def Unsigned (p : ApplicationProject) : Prop :=
  ∀ id, (p.model.buildTypes.cell id).signingConfig = none

theorem Unsigned.references_ne (hp : p.Unsigned) (n s : String) : p.references n ≠ some (some s) := by
  intro h
  cases ha : p.application with
  | none =>
      rw [references, ha] at h
      cases h
  | some a =>
      rw [references_eq ha, signings_eq] at h
      obtain ⟨e, -, he⟩ := Option.map_eq_some_iff.1 h
      cases (hp e.2.id).symm.trans he

theorem applyPlugin_unsigned (id : String) :
    (keeps Unsigned fun _ => True).Obeys (applyPlugin id) := by
  refine fun p hp => ⟨?_, fun _ _ _ => trivial⟩
  rcases applyPlugin_model id p with hmodel | hmodel
  · exact fun id => hmodel ▸ hp id
  · intro id
    rw [hmodel]
    -- of the objects of a new application only `debug` and `release` are build types
    let P (b : BuildType) : Prop := b.signingConfig = none
    have hdebug := Heap.forall_put (P := P) (a := { BuildType.new "debug" with debuggable := true })
      hp rfl p.model.buildTypes.size
    exact Heap.forall_put (P := P) (a := BuildType.new "release") hdebug rfl _ id

/-- What a new project's application is to sign its build types with, after a document. -/
theorem references_prepare {projectDir : Path}
    (h : (project.prepare options document).Gives (new projectDir) () p) :
    p.Orderly ∧ Signings.Written document p.references := by
  obtain ⟨_, p₁, hlisted, h⟩ := bind_gives.1 h
  obtain ⟨_, p₂, hkeys, htaken⟩ := bind_gives.1 h
  have hp₁ : p₁.Orderly := keeps_gives
    ((project_orderly options).applyListed (fun _ _ => trivial) document) (new_orderly projectDir)
    hlisted
  have htolerates : Law.Tolerates (keeps Unsigned fun _ => True) options.strictness :=
    fun _ _ => trivial
  have hunsigned : p₁.Unsigned := keeps_gives
    (Project.applyListed_obeys htolerates applyPlugin_unsigned document) (fun _ => rfl) hlisted
  obtain ⟨hp₂, hreferences⟩ := references_keys hp₁ hkeys
  have hsame : (keeps (fun q : ApplicationProject => q.references = p₂.references)
      fun _ => True).Obeys (project.takeDependencies document) := by
    unfold Project.takeDependencies
    split
    · exact keeps_modify fun q hq => hq
    · exact Law.pure _ _
  refine ⟨keeps_gives ((project_orderly options).takeDependencies document) hp₂ htaken, ?_⟩
  rw [show p.references = p₂.references from keeps_gives hsame rfl htaken, hreferences]
  exact Signings.written_document fun n s hn => absurd hn (hunsigned.references_ne n s)

end Phases

/-- Where the check of a project fails on a document, the name that it misses stands in the document
as a signing reference: that of the build type which the error is about, or of one at the end of a
chain of build types that take over from each other, which begins with it. So it stands where the
error says, if the build type takes over from no other. -/
theorem apply_refused_origin {projectDir : Path} {options : Options} {document : Table}
    {p p' : ApplicationProject} {e : Error}
    (hprepare : (project.prepare options document).Gives (new projectDir) () p)
    (h : (project.apply options document).Raises (new projectDir) e p') :
    ∃ (a : Ref ApplicationExtension) (n s m : String),
      p.registry.get? applicationKey = some (.object a.object) ∧
      e = unsignedError n s (p.declaredConfigs a) ∧ s ∉ p.declaredConfigs a ∧
      Relation.ReflTransGen (TakesOverFrom document) n m ∧ WritesSigning document m s ∧
      ((∀ o, ¬TakesOverFrom document n o) → WritesSigning document n s) := by
  obtain ⟨horderly, hwritten⟩ := references_prepare hprepare
  have hcoherent := prepare_coherent hprepare
  obtain ⟨a, n, s, hget, hdangling, rfl⟩ :=
    validate_eq_error hcoherent (apply_raises_of_prepare hprepare h).2
  obtain ⟨before, b, after, hentries, ⟨hsigning, hmissing⟩, -⟩ := hdangling
  have ha : p.application = some a := hcoherent.get?_eq_some_iff.1 hget
  have hb : (n, b) ∈ (a.get p.model).buildTypes := by simp [hentries]
  have hreference : p.references n = some (some s) := by
    rw [references_eq ha, signings_of_mem (horderly.reachable ha).intact.sound hb, hsigning]
  obtain ⟨m, hsteps, hm⟩ := hwritten n s hreference
  refine ⟨a, n, s, m, hget, rfl, hmissing, hsteps, hm, fun hnone => ?_⟩
  rcases hsteps.cases_head with rfl | ⟨o, ho, -⟩
  · exact hm
  · exact absurd ho (hnone o)

/-- A build type with a reference to nothing, and one that takes over from it. -/
def takenOver : Table := [
  (pluginsKey, .array [.string applicationPlugin]),
  (applicationKey, .table [
    ("buildTypes", .table [
      ("staging", .table [("signingConfig", .string "nope")]),
      ("debug", .table [("initWith", .string "staging")])])])]

theorem takenOver_raises :
    (project.apply ⟨.strict, ⟨"/"⟩⟩ takenOver).Raises (new ⟨"/"⟩) (unsignedError "debug" "nope" [])
      (project.apply ⟨.strict, ⟨"/"⟩⟩ takenOver (new ⟨"/"⟩)).2 :=
  raises_of_fst (by decide +kernel)

/-- The document is refused in the check, and its reference stands where it says. -/
theorem apply_refused_origin_takenOver :
    ∃ p e p', (project.prepare ⟨.strict, ⟨"/"⟩⟩ takenOver).Gives (new ⟨"/"⟩) () p ∧
      (project.apply ⟨.strict, ⟨"/"⟩⟩ takenOver).Raises (new ⟨"/"⟩) e p' ∧
      ∃ (a : Ref ApplicationExtension) (n s m : String),
        p.registry.get? applicationKey = some (.object a.object) ∧
        e = unsignedError n s (p.declaredConfigs a) ∧ s ∉ p.declaredConfigs a ∧
        Relation.ReflTransGen (TakesOverFrom takenOver) n m ∧ WritesSigning takenOver m s ∧
        ((∀ o, ¬TakesOverFrom takenOver n o) → WritesSigning takenOver n s) := by
  obtain ⟨p, hprepare⟩ : ∃ p, (project.prepare ⟨.strict, ⟨"/"⟩⟩ takenOver).Gives (new ⟨"/"⟩) () p :=
    ⟨_, gives_of_isOk (by decide +kernel)⟩
  have h := takenOver_raises
  exact ⟨p, _, _, hprepare, h, apply_refused_origin hprepare h⟩

/-- The error is about `debug`, which is there from the start and so comes first, and the document
writes no reference there. -/
theorem takenOver_refused_at_debug :
    (∃ p, (project.prepare ⟨.strict, ⟨"/"⟩⟩ takenOver).Gives (new ⟨"/"⟩) () p) ∧
      (∃ p, (project.apply ⟨.strict, ⟨"/"⟩⟩ takenOver).Raises (new ⟨"/"⟩)
        (unsignedError "debug" "nope" []) p) ∧
      ¬∃ v, (Value.table takenOver).Holds [applicationKey, "buildTypes", "debug", "signingConfig"] v := by
  refine ⟨⟨_, gives_of_isOk (by decide +kernel)⟩, ⟨_, takenOver_raises⟩, ?_⟩
  rintro ⟨v, h⟩
  simp [takenOver, Value.holds_cons_iff, applicationKey, pluginsKey] at h

end ApplicationProject

end BuildReplay.Android

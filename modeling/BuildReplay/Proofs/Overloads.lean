import BuildReplay.Lab.Host
import BuildReplay.Proofs.Literal
import BuildReplay.Proofs.Shape

/-! # Members called by a key and by a request

A key calls a member with its value, and a request calls one with an array of parameters. Where the
overloads of one parameter take scalars, a value that is no table picks the same overload both ways.
-/

namespace BuildReplay

variable {σ : Type}

/-! ## Single scalars -/

/-- The value as the only argument of an overload. -/
def Member.single? (root : Path) (v : Value) (m : Member σ) : Option Live :=
  match m.params with
  | [t] => convert? root t v
  | _ => none

theorem Member.single?_of_params {root : Path} {v : Value} {m : Member σ} {t : ValueType}
    (h : m.params = [t]) : m.single? root v = convert? root t v := by
  simp only [single?, h]

/-- An overload that takes the value as its only argument has one parameter. -/
theorem Member.exists_of_single? {root : Path} {v : Value} {m : Member σ} {argument : Live}
    (h : m.single? root v = some argument) : ∃ t, m.params = [t] := by
  unfold single? at h
  split at h
  · exact ⟨_, ‹_›⟩
  · cases h

theorem Member.arity_eq_one {m : Member σ} : m.arity = 1 ↔ ∃ t, m.params = [t] :=
  List.length_eq_one_iff

theorem resolveArgument_scalar {host : Host σ} {sc : Scope σ} {t : ValueType} {v : Value}
    (ht : t.isScalar) (hv : v.isTable = false) :
    resolveArgument host sc t v =
      .ofExcept ((coerce sc.options.projectRoot (some v) t sc.keyPath).map some) := by
  rw [resolveArgument, if_neg (by simp [hv]), if_pos ht, ofExcept_map_some]

theorem Frame.coerceParams_single (root : Path) (v : Value) (path : String) (t : ValueType) :
    coerceParams root [v] path [t] = (coerce root (some v) t (itemPath path 0)).map ([·]) := by
  change (do return [← coerce root (some v) t (itemPath path 0)]) = _
  cases coerce root (some v) t (itemPath path 0) <;> rfl

/-! ## The two loops -/

/-- The overloads of one parameter take scalars. -/
def SingleScalars (ms : List (Member σ)) : Prop :=
  ∀ m ∈ ms, ∀ t, m.params = [t] → t.isScalar

theorem singleScalars_cons {m : Member σ} {ms : List (Member σ)} :
    SingleScalars (m :: ms) ↔ (∀ t, m.params = [t] → t.isScalar) ∧ SingleScalars ms :=
  List.forall_mem_cons

/-- A loop over overloads that calls the first one that takes the value as its only argument. What
the loop carries along is the first refusal it met. -/
structure CallsFirst {α : Type} (root : Path) (v : Value) (call : Member σ → Live → Act σ α)
    (refusal : ValueType → Error) (nothing : Act σ α)
    (loop : Option Error → List (Member σ) → Act σ α) : Prop where
  finish : ∀ mismatch, loop mismatch [] = mismatch.elim nothing throw
  skip : ∀ {mismatch m rest}, m.arity ≠ 1 → loop mismatch (m :: rest) = loop mismatch rest
  single : ∀ {mismatch m rest t}, m.params = [t] → t.isScalar →
    loop mismatch (m :: rest) = match convert? root t v with
      | some argument => call m argument
      | none => loop (mismatch <|> some (refusal t)) rest

namespace CallsFirst

variable {α : Type} {root : Path} {v : Value} {call : Member σ → Live → Act σ α}
  {refusal : ValueType → Error} {nothing : Act σ α}
  {loop : Option Error → List (Member σ) → Act σ α}
  (h : CallsFirst root v call refusal nothing loop) {mismatch : Option Error} {m : Member σ}
  {before ms : List (Member σ)}
include h

/-- An overload that does not take the value is passed; it may have been the first refusal. -/
theorem pass (mismatch : Option Error) (hm : m.single? root v = none)
    (hscalar : ∀ t, m.params = [t] → t.isScalar) :
    ∃ refused, loop mismatch (m :: ms) = loop (mismatch <|> refused) ms := by
  by_cases harity : m.arity = 1
  · obtain ⟨t, ht⟩ := Member.arity_eq_one.1 harity
    rw [Member.single?_of_params ht] at hm
    exact ⟨some (refusal t), by rw [h.single ht (hscalar t ht), hm]⟩
  · exact ⟨none, by rw [h.skip harity]; cases mismatch <;> rfl⟩

/-- The first overload that takes the value is called, whatever was refused before. -/
theorem called (hbefore : ∀ m ∈ before, m.single? root v = none)
    (hscalars : SingleScalars (before ++ m :: ms)) {argument : Live}
    (hm : m.single? root v = some argument) :
    loop mismatch (before ++ m :: ms) = call m argument := by
  induction before generalizing mismatch with
  | nil =>
      obtain ⟨t, ht⟩ := Member.exists_of_single? hm
      rw [Member.single?_of_params ht] at hm
      rw [List.nil_append, h.single ht ((singleScalars_cons.1 hscalars).1 t ht), hm]
  | cons m' before ih =>
      obtain ⟨hm', hbefore⟩ := List.forall_mem_cons.1 hbefore
      obtain ⟨hscalar, hscalars⟩ := singleScalars_cons.1 hscalars
      obtain ⟨refused, hpass⟩ := h.pass mismatch hm' hscalar
      rw [List.cons_append, hpass, ih hbefore hscalars]

/-- Where no overload takes the value, the first refusal is the outcome. -/
theorem refused (hnone : ∀ m ∈ ms, m.single? root v = none) (hscalars : SingleScalars ms)
    (e : Error) : loop (some e) ms = throw e := by
  induction ms with
  | nil => exact h.finish _
  | cons m ms ih =>
      obtain ⟨hm, hnone⟩ := List.forall_mem_cons.1 hnone
      obtain ⟨hscalar, hscalars⟩ := singleScalars_cons.1 hscalars
      obtain ⟨refused, hpass⟩ := h.pass (some e) hm hscalar
      rw [hpass]
      exact ih hnone hscalars

theorem skips (hbefore : ∀ m ∈ before, m.arity ≠ 1) :
    loop mismatch (before ++ ms) = loop mismatch ms := by
  induction before with
  | nil => rfl
  | cons m before ih =>
      obtain ⟨hm, hbefore⟩ := List.forall_mem_cons.1 hbefore
      rw [List.cons_append, h.skip hm, ih hbefore]

/-- The first overload of one parameter says what the value is refused as. -/
theorem first_refused {t : ValueType} (hbefore : ∀ m ∈ before, m.arity ≠ 1) (ht : m.params = [t])
    (hnone : ∀ m' ∈ before ++ m :: ms, m'.single? root v = none)
    (hscalars : SingleScalars (before ++ m :: ms)) :
    loop none (before ++ m :: ms) = throw (refusal t) := by
  have hscalar := hscalars m (by simp) t ht
  have hconvert := (Member.single?_of_params ht).symm.trans (hnone m (by simp))
  rw [h.skips hbefore, h.single ht hscalar, hconvert]
  exact h.refused (fun m' hm' => hnone m' (by simp [hm'])) (fun m' hm' => hscalars m' (by simp [hm']))
    _

theorem nothing_called (hother : ∀ m ∈ ms, m.arity ≠ 1) : loop none ms = nothing := by
  rw [← List.append_nil ms, h.skips hother, h.finish]
  rfl

end CallsFirst

section Loops

variable {host : Host σ} {sc : Scope σ} {self : ObjectRef} {key : String} {v : Value} {root : Path}
  {path : String}

theorem invokeFirst_callsFirst (hv : v.isTable = false) :
    CallsFirst sc.options.projectRoot v (fun m argument => discard (m.invoke self [argument]))
      (fun t => .unsupportedCoercion sc.keyPath t.text v.describe) (sc.unresolved key)
      (invokeFirst host sc self key v none) where
  finish mismatch := by cases mismatch <;> rfl
  skip h := by
    rw [invokeFirst]
    exact if_neg h
  single {mismatch m rest t} hm ht := by
    have harity : m.arity = (none : Option Live).toList.length + 1 := Member.arity_eq_one.2 ⟨t, hm⟩
    have hparam : m.params.getLastD .any = t := by rw [hm]; rfl
    rw [invokeFirst, if_pos harity, hparam, resolveArgument_scalar ht hv,
      coerce]
    cases convert? sc.options.projectRoot t v <;> rfl

theorem callFirst_callsFirst :
    CallsFirst root v (fun (m : Member σ) argument => some <$> m.invoke self [argument])
      (fun t => .unsupportedCoercion (itemPath path 0) t.text v.describe) (pure none)
      (fun mismatch ms =>
        Frame.callFirst root self [v] path mismatch (ms.filter (·.arity == 1))) where
  finish mismatch := by cases mismatch <;> rfl
  skip h := by rw [List.filter_cons_of_neg (by simpa using h)]
  single {mismatch m rest t} hm _ := by
    rw [List.filter_cons_of_pos (by simpa using Member.arity_eq_one.2 ⟨t, hm⟩), Frame.callFirst, hm,
      Frame.coerceParams_single, coerce]
    cases convert? root t v <;> rfl

end Loops

/-! ## Calls by key and by request -/

/-- A key with a value and a request with the value as its parameter come to the same overload. -/
inductive CalledAlike (sc : Scope σ) (self : ObjectRef) (key : String) (v : Value)
    (ms : List (Member σ)) (byKey : Act σ Unit) (byRequest : Act σ (Option Live)) : Prop where
  /-- Both call the first overload that takes the value, with the same argument. -/
  | called {before m after argument} : ms = before ++ m :: after →
      (∀ m' ∈ before, m'.single? sc.options.projectRoot v = none) →
      m.single? sc.options.projectRoot v = some argument →
      byKey = discard (m.invoke self [argument]) →
      byRequest = some <$> m.invoke self [argument] → CalledAlike sc self key v ms byKey byRequest
  /-- No overload takes the value, and both refuse it as the type that the first one asks for. -/
  | refused {before m after t} : ms = before ++ m :: after → (∀ m' ∈ before, m'.arity ≠ 1) →
      m.params = [t] → (∀ m' ∈ ms, m'.single? sc.options.projectRoot v = none) →
      byKey = throw (.unsupportedCoercion sc.keyPath t.text v.describe) →
      byRequest = throw (.unsupportedCoercion (itemPath sc.keyPath 0) t.text v.describe) →
      CalledAlike sc self key v ms byKey byRequest
  /-- No overload has one parameter, and nothing is called. -/
  | nothing : (∀ m ∈ ms, m.arity ≠ 1) → byKey = sc.unresolved key → byRequest = pure none →
      CalledAlike sc self key v ms byKey byRequest

section Calls

variable {host : Host σ} {sc : Scope σ} {shape : Shape σ} {self : ObjectRef} {name : String}
  {ms : List (Member σ)} {v : Value}

theorem CallsFirst.calledAlike {key : String}
    {byKey : Option Error → List (Member σ) → Act σ Unit}
    {byRequest : Option Error → List (Member σ) → Act σ (Option Live)}
    (hkey : CallsFirst sc.options.projectRoot v
      (fun m argument => discard (m.invoke self [argument]))
      (fun t => .unsupportedCoercion sc.keyPath t.text v.describe) (sc.unresolved key) byKey)
    (hrequest : CallsFirst sc.options.projectRoot v
      (fun m argument => some <$> m.invoke self [argument])
      (fun t => .unsupportedCoercion (itemPath sc.keyPath 0) t.text v.describe) (pure none)
      byRequest)
    (hscalars : SingleScalars ms) :
    CalledAlike sc self key v ms (byKey none ms) (byRequest none ms) := by
  cases htaken : ms.find? fun m => (m.single? sc.options.projectRoot v).isSome with
  | some m =>
      obtain ⟨hm, before, after, rfl, hbefore⟩ := List.find?_eq_some_iff_append.1 htaken
      obtain ⟨argument, hm⟩ := Option.isSome_iff_exists.1 hm
      have hbefore : ∀ m' ∈ before, m'.single? sc.options.projectRoot v = none := by
        simpa using hbefore
      exact .called rfl hbefore hm (hkey.called hbefore hscalars hm)
        (hrequest.called hbefore hscalars hm)
  | none =>
      have hnone : ∀ m ∈ ms, m.single? sc.options.projectRoot v = none := by simpa using htaken
      cases hsingle : ms.find? fun m => m.arity == 1 with
      | some m =>
          obtain ⟨hm, before, after, rfl, hbefore⟩ := List.find?_eq_some_iff_append.1 hsingle
          obtain ⟨t, ht⟩ := Member.arity_eq_one.1 (by simpa using hm)
          have hbefore : ∀ m' ∈ before, m'.arity ≠ 1 := by simpa using hbefore
          exact .refused rfl hbefore ht hnone (hkey.first_refused hbefore ht hnone hscalars)
            (hrequest.first_refused hbefore ht hnone hscalars)
      | none =>
          have hother : ∀ m ∈ ms, m.arity ≠ 1 := by simpa using hsingle
          exact .nothing hother (hkey.nothing_called hother) (hrequest.nothing_called hother)

theorem singleScalars_of_overloads (hms : shape.members? name = some ms)
    (h : ∀ m ∈ shape.overloads name 1, ∀ t ∈ m.params, t.isScalar) : SingleScalars ms := by
  intro m hm t ht
  rw [Shape.overloads_of_members? hms] at h
  refine h m (List.mem_filter.2 ⟨hm, ?_⟩) t (by simp [ht])
  simpa using Member.arity_eq_one.2 ⟨t, ht⟩

/-- On a type that is not like a map, where all overloads of a member with one parameter take
scalars, a value that is no table calls the same overload with the same argument by the member's key
and by a request. -/
theorem memberStep_calls_as_request (hmap : shape.mapLike = false)
    (hms : shape.members? name = some ms)
    (hscalars : ∀ m ∈ shape.overloads name 1, ∀ t ∈ m.params, t.isScalar) (hv : v.isTable = false) :
    CalledAlike sc self name v ms (memberStep host sc shape self name v)
      ((Frame.object self shape).callMember sc.options.projectRoot name [v] sc.keyPath) ∧
    ∀ key, CalledAlike sc self key v ms (invokeFirst host sc self key v none none ms)
      ((Frame.object self shape).callMember sc.options.projectRoot name [v] sc.keyPath) := by
  have hloops : ∀ key, CalledAlike sc self key v ms (invokeFirst host sc self key v none none ms)
      ((Frame.object self shape).callMember sc.options.projectRoot name [v] sc.keyPath) := by
    intro key
    rw [Frame.callMember, List.length_singleton, Shape.overloads_of_members? hms]
    exact (invokeFirst_callsFirst hv).calledAlike callFirst_callsFirst
      (singleScalars_of_overloads hms hscalars)
  refine ⟨?_, hloops⟩
  rw [memberStep_of_no_put (by simp [hmap]), hms]
  exact hloops name

/-- The rank of a module is an integer or a text. -/
theorem memberStep_calls_as_request_setRank :
    let shape := Shape.ofDeclarations (typeRef Lab.Module) Lab.Module.members
    ∃ ms, shape.members? "setRank" = some ms ∧
      CalledAlike (.key (.top ⟨.strict, ⟨"/"⟩⟩ "module") "setRank") ⟨typeRef Lab.Module, 0⟩
        "setRank" (.string "high") ms
        (memberStep Lab.host (.key (.top ⟨.strict, ⟨"/"⟩⟩ "module") "setRank") shape
          ⟨typeRef Lab.Module, 0⟩ "setRank" (.string "high"))
        ((Frame.object ⟨typeRef Lab.Module, 0⟩ shape).callMember ⟨"/"⟩ "setRank" [.string "high"]
          "module.setRank") :=
  ⟨_, rfl, (memberStep_calls_as_request rfl rfl (by decide) rfl).1⟩

end Calls

end BuildReplay

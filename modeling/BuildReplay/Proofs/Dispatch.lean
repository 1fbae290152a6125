import BuildReplay.Proofs.Access
import BuildReplay.Proofs.Effects
import BuildReplay.Proofs.FirstFit

/-! # Requests

A request calls the innermost member of its name that takes as many parameters, and appends the
result to a list. It is malformed, or names no field, or finds no member, or its parameters do not
convert, and then nothing is changed; or it makes one call, and what it appends is the result. -/

namespace BuildReplay

open Act

variable {σ : Type}

/-! ## Reading requests -/

namespace DispatchRequest

/-- A table with a target and a method is a request. Its parameters, if it has any, are an array. -/
inductive ReadsAs : Value → DispatchRequest → Prop where
  | bare {t : Table} {target method} : t.get? "target" = some (.string target) →
      t.get? "method" = some (.string method) → t.get? "params" = none →
      ReadsAs (.table t) ⟨target, method, []⟩
  | params {t : Table} {target method params} : t.get? "target" = some (.string target) →
      t.get? "method" = some (.string method) → t.get? "params" = some (.array params) →
      ReadsAs (.table t) ⟨target, method, params⟩

/-- What is wrong with a value that is no request. -/
inductive Malformed : Value → String → Prop where
  | table {v} : v.isTable = false → Malformed v ("expected a table, found " ++ v.describe)
  | target {t : Table} : (∀ target, t.get? "target" ≠ some (.string target)) →
      Malformed (.table t) "`target` must be a field name string"
  | method {t : Table} {target} : t.get? "target" = some (.string target) →
      (∀ method, t.get? "method" ≠ some (.string method)) →
      Malformed (.table t) "`method` must be a member name string"
  | params {t : Table} {target method v} : t.get? "target" = some (.string target) →
      t.get? "method" = some (.string method) → t.get? "params" = some v →
      (∀ params, v ≠ .array params) →
      Malformed (.table t) ("`params` must be an array, found " ++ v.describe)

theorem text_eq {t : Table} {key reason s : String} (h : t.get? key = some (.string s)) :
    ofValue.text t key reason = .ok s := by
  rw [ofValue.text, h]
  rfl

theorem text_error {t : Table} {key reason : String} (h : ∀ s, t.get? key ≠ some (.string s)) :
    ofValue.text t key reason = .error reason := by
  unfold ofValue.text
  cases hv : t.get? key with
  | none => rfl
  | some v =>
      cases v with
      | string s => exact absurd hv (h s)
      | _ => rfl

theorem ReadsAs.ofValue_eq {v : Value} {request : DispatchRequest} (h : ReadsAs v request) :
    ofValue v = .ok request := by
  cases h with
  | bare htarget hmethod hparams =>
      rw [ofValue, text_eq htarget, text_eq hmethod, hparams]
      rfl
  | params htarget hmethod hparams =>
      rw [ofValue, text_eq htarget, text_eq hmethod, hparams]
      rfl

theorem Malformed.ofValue_eq {v : Value} {reason : String} (h : Malformed v reason) :
    ofValue v = .error reason := by
  cases h with
  | table hv =>
      cases v with
      | table t => cases hv
      | _ => rfl
  | target htarget =>
      rw [ofValue, text_error htarget]
      rfl
  | method htarget hmethod =>
      rw [ofValue, text_eq htarget, text_error hmethod]
      rfl
  | @params t target method v htarget hmethod hparams hv =>
      rw [ofValue, text_eq htarget, text_eq hmethod, hparams]
      cases v with
      | array params => exact absurd rfl (hv params)
      | _ => rfl

theorem malformed_or_readsAs (v : Value) :
    (∃ reason, Malformed v reason) ∨ ∃ request, ReadsAs v request := by
  cases v with
  | table t =>
      by_cases htarget : ∃ target, Table.get? t "target" = some (.string target)
      · obtain ⟨target, htarget⟩ := htarget
        by_cases hmethod : ∃ method, Table.get? t "method" = some (.string method)
        · obtain ⟨method, hmethod⟩ := hmethod
          cases hparams : Table.get? t "params" with
          | none => exact .inr ⟨_, .bare htarget hmethod hparams⟩
          | some v =>
              cases v with
              | array params => exact .inr ⟨_, .params htarget hmethod hparams⟩
              | _ => exact .inl ⟨_, .params htarget hmethod hparams fun _ heq => by cases heq⟩
        · exact .inl ⟨_, .method htarget (not_exists.1 hmethod)⟩
      · exact .inl ⟨_, .target (not_exists.1 htarget)⟩
  | _ => exact .inl ⟨_, .table rfl⟩

end DispatchRequest

/-! ## The innermost member -/

section Innermost

variable {name : String} {arity : Nat} {frames : List (Frame σ)}

theorem findMember?_of_none (h : ∀ f ∈ frames, f.overloads name arity = []) :
    findMember? name arity frames = none := by
  refine List.findSome?_eq_none_iff.2 fun f hf => ?_
  rw [Frame.findMember?, h f hf]
  rfl

theorem findMember?_of_innermost {inner outer : List (Frame σ)} {f : Frame σ} {m : Member σ}
    {ms : List (Member σ)} (hinner : ∀ f ∈ inner, f.overloads name arity = [])
    (hms : f.overloads name arity = m :: ms) :
    findMember? name arity (inner ++ f :: outer) = some (f, m) := by
  have hnone : findMember? name arity inner = none := findMember?_of_none hinner
  rw [findMember?] at hnone ⊢
  rw [List.findSome?_append, hnone, Option.none_or, List.findSome?_cons, Frame.findMember?, hms]
  rfl

/-- Nothing around has a member, or an innermost object does. -/
theorem none_or_innermost (name : String) (arity : Nat) (frames : List (Frame σ)) :
    (∀ f ∈ frames, f.overloads name arity = []) ∨
    ∃ inner self shape outer m ms, frames = inner ++ .object self shape :: outer ∧
      (∀ f ∈ inner, f.overloads name arity = []) ∧ shape.overloads name arity = m :: ms := by
  induction frames with
  | nil => exact .inl fun _ hf => by cases hf
  | cons f frames ih =>
      cases hms : f.overloads name arity with
      | cons m ms =>
          cases f with
          | object self shape =>
              exact .inr ⟨[], self, shape, frames, m, ms, rfl, fun _ hf => (by cases hf), hms⟩
          | collection element slot => cases hms
      | nil =>
          rcases ih with hnone | ⟨inner, self, shape, outer, m, ms, rfl, hinner, hobject⟩
          · exact .inl (List.forall_mem_cons.2 ⟨hms, hnone⟩)
          · exact .inr ⟨f :: inner, self, shape, outer, m, ms, rfl,
              List.forall_mem_cons.2 ⟨hms, hinner⟩, hobject⟩

end Innermost

/-! ## Overloads of a request -/

section Params

variable (root : Path) (params : List Value) (path : String)

/-- Tries an overload with the parameters of a request. -/
def tryParams (m : Member σ) : Act σ (Option (List Live)) :=
  .ofExcept ((Frame.coerceParams root params path m.params).map some)

variable {root params path} {self : ObjectRef} {m : Member σ} {ms : List (Member σ)} {s : σ}

theorem tryParams_gives {args : List Live}
    (h : Frame.coerceParams root params path m.params = .ok args) :
    (tryParams root params path m).Gives s (some args) s := by
  rw [tryParams, h]
  rfl

theorem callFirst_eq_tryInOrder (refusal : Option Error) :
    Frame.callFirst root self params path refusal ms =
      tryInOrder (tryParams root params path) (fun m args => some <$> m.invoke self args)
        (pure none) refusal ms := by
  induction ms generalizing refusal with
  | nil => cases refusal <;> rfl
  | cons m ms ih =>
      rw [Frame.callFirst, tryInOrder, tryParams]
      cases Frame.coerceParams root params path m.params with
      | ok args => rfl
      | error e =>
          cases e with
          | unsupportedCoercion path target found => exact ih _
          | _ => rfl

/-- The calls of a request are on record as its search ends. -/
theorem callFirst_fits (self : ObjectRef) {outcome : Except Error (Option Live) × σ}
    {called : Option (Member σ × List Live)}
    (h : FirstFit (tryParams root params path) (fun m args => some <$> m.invoke self args)
      (pure none) ms s outcome called) :
    Frame.callFirst root self params path none ms s = outcome ∧
    (Frame.callFirst root self params path none ms).RecordsFrom
      (Frame.callFirst root self params path none (ms.map Member.recorded)) s
      (called.toList.map fun (m, args) => ⟨self, m, args⟩) := by
  simp only [callFirst_eq_tryInOrder]
  refine ⟨h.outcome_eq, h.recordsFrom (fun m => ?_) (fun m args s => ?_) ?_⟩
  · exact (within_ofExcept .fst _).symm
  · exact (RecordsFrom.invoke m self args s).map _
  · exact (within_pure .fst _).symm

/-- Overloads that take as many parameters, but not these, are passed over; the first one says why.
-/
theorem passesOverAll_of_refused (hlength : ∀ m ∈ ms, m.params.length = params.length)
    (hrefused : ∀ m ∈ ms, ∃ e, Frame.coerceParams root params path m.params = .error e) (s : σ) :
    ∃ refusals, PassesOverAll (tryParams root params path) ms s refusals s ∧
      List.Forall₂ (fun m e => Frame.coerceParams root params path m.params = .error e) ms
        refusals := by
  induction ms with
  | nil => exact ⟨[], .nil, .nil⟩
  | cons m ms ih =>
      obtain ⟨hlengthm, hlength⟩ := List.forall_mem_cons.1 hlength
      obtain ⟨⟨e, he⟩, hrefused⟩ := List.forall_mem_cons.1 hrefused
      obtain ⟨refusals, hpasses, hrefusals⟩ := ih hlength hrefused
      obtain ⟨i, target, found, -, rfl⟩ := coerceParams_error hlengthm he
      refine ⟨_, .cons (.refusal ?_) hpasses, .cons he hrefusals⟩
      rw [tryParams, he]
      rfl

theorem taken_or_refused (root : Path) (params : List Value) (path : String)
    (ms : List (Member σ)) :
    (∀ m ∈ ms, ∃ e, Frame.coerceParams root params path m.params = .error e) ∨
    ∃ before m after args, ms = before ++ m :: after ∧
      (∀ m' ∈ before, ∃ e, Frame.coerceParams root params path m'.params = .error e) ∧
      Frame.coerceParams root params path m.params = .ok args := by
  induction ms with
  | nil => exact .inl fun _ hm => by cases hm
  | cons m ms ih =>
      cases hm : Frame.coerceParams root params path m.params with
      | ok args => exact .inr ⟨[], m, ms, args, rfl, fun _ hm => (by cases hm), hm⟩
      | error e =>
          rcases ih with hrefused | ⟨before, m', after, args, rfl, hbefore, hm'⟩
          · exact .inl (List.forall_mem_cons.2 ⟨⟨e, hm⟩, hrefused⟩)
          · exact .inr ⟨m :: before, m', after, args, rfl,
              List.forall_mem_cons.2 ⟨⟨e, hm⟩, hbefore⟩, hm'⟩

end Params

/-! ## Carrying out requests -/

section CarryOut

variable (host : Host σ) (sc : Scope σ) (request : DispatchRequest) (target : Live)

/-- What becomes of the result of a call: it is appended to the target, if that is a list. -/
def keepResult : Option Live → Act σ Unit
  | none => sc.unresolved request.method
  | some result =>
    match target with
    | .list slot => host.append slot result
    | _ => pure ()

/-- Carries out a request whose target reads as a value. -/
def carryOut : Act σ Unit :=
  match findMember? request.method request.params.length sc.frames with
  | none => sc.unresolved request.method
  | some (frame, _) => do
    let result ← frame.callMember sc.options.projectRoot request.method request.params sc.keyPath
    keepResult host sc request target result

theorem keepResult_recorded (result : Option Live) :
    keepResult host.recorded sc.recorded request target result =
      (keepResult host sc request target result).within .fst := by
  cases result with
  | none => exact sc.unresolved_recorded _
  | some result =>
      cases target with
      | list slot => exact host.append_recorded slot result
      | _ => exact (within_pure .fst _).symm

/-- The parameters of a request as those of a member. -/
abbrev paramsFor (m : Member σ) : Except Error (List Live) :=
  Frame.coerceParams sc.options.projectRoot request.params sc.keyPath m.params

/-- How a request is carried out, and the calls that it makes. -/
inductive CarriesOut (s : σ) : Except Error Unit × σ → List (MemberCall σ) → Prop where
  /-- Nothing that encloses the request has such a member. -/
  | unresolved : (∀ f ∈ sc.frames, f.overloads request.method request.params.length = []) →
      CarriesOut s
        (if sc.isStrict then .error (.unresolvedArgument sc.keyPath request.method) else .ok (), s)
        []
  /-- The innermost object that has the member does not take the parameters. -/
  | refused {inner self shape outer m ms e} : sc.frames = inner ++ .object self shape :: outer →
      (∀ f ∈ inner, f.overloads request.method request.params.length = []) →
      shape.overloads request.method request.params.length = m :: ms →
      paramsFor sc request m = .error e → (∀ m' ∈ ms, ∃ e', paramsFor sc request m' = .error e') →
      CarriesOut s (.error e, s) []
  /-- The first overload that takes the parameters is called, of the innermost object that has the
  member. -/
  | called {inner self shape outer before m after args} :
      sc.frames = inner ++ .object self shape :: outer →
      (∀ f ∈ inner, f.overloads request.method request.params.length = []) →
      shape.overloads request.method request.params.length = before ++ m :: after →
      (∀ m' ∈ before, ∃ e, paramsFor sc request m' = .error e) →
      paramsFor sc request m = .ok args →
      CarriesOut s
        ((do
          let result ← m.invoke self args
          match target with
          | .list slot => host.append slot result
          | _ => pure ()) s) [⟨self, m, args⟩]

theorem exists_carriesOut (s : σ) :
    ∃ outcome calls, CarriesOut host sc request target s outcome calls := by
  rcases none_or_innermost request.method request.params.length sc.frames with
    hnone | ⟨inner, self, shape, outer, m, ms, hframes, hinner, hms⟩
  · exact ⟨_, _, .unresolved hnone⟩
  · rcases taken_or_refused sc.options.projectRoot request.params sc.keyPath (m :: ms) with
      hrefused | ⟨before, m', after, args, hsplit, hbefore, hm'⟩
    · obtain ⟨⟨e, he⟩, hrefused⟩ := List.forall_mem_cons.1 hrefused
      exact ⟨_, _, .refused hframes hinner hms he hrefused⟩
    · exact ⟨_, _, .called hframes hinner (hms.trans hsplit) hbefore hm'⟩

variable {host sc request target} {s : σ}

theorem Scope.unresolved_apply (sc : Scope σ) (name : String) (s : σ) :
    sc.unresolved name s =
      (if sc.isStrict then .error (.unresolvedArgument sc.keyPath name) else .ok (), s) := by
  unfold Scope.unresolved
  split <;> rfl

/-- Enclosing frames on record have the members on record. -/
theorem Frame.overloads_recorded (f : Frame σ) (name : String) (arity : Nat) :
    f.recorded.overloads name arity = (f.overloads name arity).map Member.recorded := by
  cases f with
  | object self shape => exact shape.overloads_recorded name arity
  | collection element slot => rfl

theorem overloads_recorded_eq_nil {frames : List (Frame σ)} {name : String} {arity : Nat}
    (h : ∀ f ∈ frames, f.overloads name arity = []) :
    ∀ f ∈ frames.map Frame.recorded, f.overloads name arity = [] := by
  intro f' hf'
  obtain ⟨f, hf, rfl⟩ := List.mem_map.1 hf'
  rw [Frame.overloads_recorded, h f hf, List.map_nil]

theorem carryOut_of_none
    (h : ∀ f ∈ sc.frames, f.overloads request.method request.params.length = []) :
    carryOut host sc request target = sc.unresolved request.method := by
  rw [carryOut, findMember?_of_none h]

section Innermost

variable {inner outer : List (Frame σ)} {self : ObjectRef} {shape : Shape σ}
  {ms : List (Member σ)} (hframes : sc.frames = inner ++ .object self shape :: outer)
  (hinner : ∀ f ∈ inner, f.overloads request.method request.params.length = [])
  (hms : shape.overloads request.method request.params.length = ms) (hne : ms ≠ [])
include hframes hinner hms hne

/-- A request that has an innermost member calls the overloads of its object. -/
theorem carryOut_of_innermost :
    carryOut host sc request target =
      Frame.callFirst sc.options.projectRoot self request.params sc.keyPath none ms >>=
        keepResult host sc request target := by
  obtain ⟨m, rest, rfl⟩ := List.exists_cons_of_ne_nil hne
  have hobject : (Frame.object self shape).overloads request.method request.params.length =
      m :: rest := hms
  rw [carryOut, hframes, findMember?_of_innermost hinner hobject]
  dsimp only [Frame.callMember]
  rw [hms]

theorem carryOut_recordsFrom {calls : List (MemberCall σ)}
    (hrecords :
      (Frame.callFirst sc.options.projectRoot self request.params sc.keyPath none ms).RecordsFrom
        (Frame.callFirst sc.options.projectRoot self request.params sc.keyPath none
          (ms.map Member.recorded)) s calls) :
    (carryOut host sc request target).RecordsFrom
      (carryOut host.recorded sc.recorded request target) s calls := by
  have hframes' : sc.recorded.frames =
      inner.map Frame.recorded ++ .object self shape.recorded :: outer.map Frame.recorded := by
    rw [show sc.recorded.frames = sc.frames.map Frame.recorded from rfl, hframes, List.map_append]
    rfl
  have hms' : shape.recorded.overloads request.method request.params.length =
      ms.map Member.recorded := by
    rw [Shape.overloads_recorded, hms]
  rw [carryOut_of_innermost hframes hinner hms hne,
    carryOut_of_innermost hframes' (overloads_recorded_eq_nil hinner) hms' (by simpa using hne),
    funext (keepResult_recorded host sc request target)]
  exact hrecords.andThen _

end Innermost

theorem length_of_mem_overloads {shape : Shape σ} {name : String} {arity : Nat} {m : Member σ}
    (hm : m ∈ shape.overloads name arity) : m.params.length = arity := by
  rw [Shape.overloads, List.mem_filter] at hm
  simpa [Member.arity] using hm.2

/-- A request is carried out as described, and makes the calls described. -/
theorem CarriesOut.run {outcome : Except Error Unit × σ} {calls : List (MemberCall σ)}
    (h : CarriesOut host sc request target s outcome calls) :
    carryOut host sc request target s = outcome ∧
    (carryOut host sc request target).RecordsFrom
      (carryOut host.recorded sc.recorded request target) s calls := by
  cases h with
  | unresolved hnone =>
      have hrecorded : carryOut host.recorded sc.recorded request target =
          (sc.unresolved request.method).within .fst :=
        (carryOut_of_none (overloads_recorded_eq_nil hnone)).trans (sc.unresolved_recorded _)
      rw [carryOut_of_none hnone, hrecorded]
      exact ⟨sc.unresolved_apply _ _, .silent _ _⟩
  | @refused inner self shape outer m ms e hframes hinner hms he hrefused =>
      have hlength : ∀ m' ∈ m :: ms, m'.params.length = request.params.length :=
        fun m' hm' => length_of_mem_overloads (hms ▸ hm')
      obtain ⟨refusals, hpasses, hrefusals⟩ := passesOverAll_of_refused hlength
        (List.forall_mem_cons.2 ⟨⟨e, he⟩, hrefused⟩) s
      cases hrefusals with
      | cons he' _ =>
          obtain rfl := Except.error.inj (he'.symm.trans he)
          obtain ⟨houtcome, hrecords⟩ := callFirst_fits self (.nothing hpasses)
          refine ⟨?_, carryOut_recordsFrom hframes hinner hms (List.cons_ne_nil _ _) hrecords⟩
          rw [carryOut_of_innermost hframes hinner hms (List.cons_ne_nil _ _)]
          exact Raises.bind houtcome _
  | @called inner self shape outer before m after args hframes hinner hms hbefore hm =>
      have hlength : ∀ m' ∈ before, m'.params.length = request.params.length :=
        fun m' hm' => length_of_mem_overloads (hms ▸ List.mem_append_left _ hm')
      obtain ⟨refusals, hpasses, -⟩ := passesOverAll_of_refused hlength hbefore s
      obtain ⟨houtcome, hrecords⟩ := callFirst_fits self
        (.called rfl hpasses (tryParams_gives hm))
      have hne : before ++ m :: after ≠ [] := by simp
      refine ⟨?_, carryOut_recordsFrom hframes hinner hms hne hrecords⟩
      calc carryOut host sc request target s
          = (Frame.callFirst sc.options.projectRoot self request.params sc.keyPath none
              (before ++ m :: after) >>= keepResult host sc request target) s := by
            rw [carryOut_of_innermost hframes hinner hms hne]
        _ = ((some <$> m.invoke self args) >>= keepResult host sc request target) s := by
            rw [bind_apply, bind_apply, houtcome]
        _ = _ := by
            rw [bind_map_left]
            rfl

end CarryOut

/-! ## Outcomes of requests -/

section Dispatch

variable (host : Host σ) (sc : Scope σ) (shape : Shape σ) (self : ObjectRef) (v : Value) (s : σ)

/-- How a request to an object comes out, and the calls that it makes. -/
inductive Dispatches : Except Error Unit × σ → List (MemberCall σ) → Prop where
  | malformed {reason} : DispatchRequest.Malformed v reason →
      Dispatches (.error (.malformedDispatch sc.keyPath reason), s) []
  | unknownTarget {request} : DispatchRequest.ReadsAs v request →
      shape.field? request.target = none →
      Dispatches (.error (unknownKey shape sc.keyPath request.target), s) []
  | carriedOut {request f target outcome calls} : DispatchRequest.ReadsAs v request →
      shape.field? request.target = some f → f.read self s = .ok target →
      CarriesOut host sc request target s outcome calls → Dispatches outcome calls

variable {host sc shape self v s} {request : DispatchRequest}

theorem dispatch_of_malformed {reason : String} (hv : DispatchRequest.Malformed v reason) :
    dispatch host sc shape self v = throw (.malformedDispatch sc.keyPath reason) := by
  rw [dispatch, hv.ofValue_eq]

theorem dispatch_of_unknown (hv : DispatchRequest.ReadsAs v request)
    (hf : shape.field? request.target = none) :
    dispatch host sc shape self v = throw (unknownKey shape sc.keyPath request.target) := by
  rw [dispatch, hv.ofValue_eq]
  dsimp only
  rw [hf]

theorem dispatch_of_field {f : Field σ} (hv : DispatchRequest.ReadsAs v request)
    (hf : shape.field? request.target = some f) :
    dispatch host sc shape self v = f.get self >>= carryOut host sc request := by
  rw [dispatch, hv.ofValue_eq]
  dsimp only
  rw [hf]
  rfl

theorem Shape.field?_recorded (shape : Shape σ) (name : String) :
    shape.recorded.field? name = (shape.field? name).map (·.within .fst) := by
  have hsettable : shape.recorded.settable? name = (shape.settable? name).map (·.within .fst) :=
    Dictionary.get?_map _ _ _
  have hreadOnly : shape.recorded.readOnly? name = (shape.readOnly? name).map (·.within .fst) :=
    Dictionary.get?_map _ _ _
  rw [field?, field?, hsettable, hreadOnly]
  cases shape.settable? name <;> rfl

/-- A request comes out as described, and makes the calls described. -/
theorem Dispatches.run {outcome : Except Error Unit × σ} {calls : List (MemberCall σ)}
    (h : Dispatches host sc shape self v s outcome calls) :
    dispatch host sc shape self v s = outcome ∧
    (dispatch host sc shape self v).RecordsFrom
      (dispatch host.recorded sc.recorded shape.recorded self v) s calls := by
  cases h with
  | malformed hv =>
      rw [dispatch_of_malformed hv, dispatch_of_malformed hv]
      exact ⟨rfl, .throw _ _⟩
  | unknownTarget hv hf =>
      rw [dispatch_of_unknown hv hf,
        dispatch_of_unknown hv (by rw [shape.field?_recorded, hf, Option.map_none]),
        shape.unknownKey_recorded]
      exact ⟨rfl, .throw _ _⟩
  | @carriedOut request f target outcome calls hv hf htarget hcarry =>
      obtain ⟨houtcome, hrecords⟩ := hcarry.run
      have hget : (f.get self).Gives s target s := readExcept_gives.2 ⟨htarget, rfl⟩
      have hf' : shape.recorded.field? request.target = some (f.within .fst) := by
        rw [shape.field?_recorded, hf, Option.map_some]
      rw [dispatch_of_field hv hf, dispatch_of_field hv hf', Field.get_within]
      exact ⟨(hget.bind_eq _).trans houtcome, .after hget hrecords⟩

/-- A request that calls nothing changes nothing. -/
theorem Dispatches.unchanged {outcome : Except Error Unit × σ}
    (h : Dispatches host sc shape self v s outcome []) : outcome.2 = s := by
  cases h with
  | malformed _ => rfl
  | unknownTarget _ _ => rfl
  | carriedOut _ _ _ hcarry =>
      cases hcarry with
      | unresolved _ => rfl
      | refused _ _ _ _ _ => rfl

/-- A request to an object whose fields can be read comes out in one of the ways described, and in
that way only. It makes the calls that go with it, and where these are none it changes nothing. -/
theorem dispatch_outcomes (hget : ∀ f, shape.HasField f → ∃ live, f.read self s = .ok live) :
    (∃ outcome calls, Dispatches host sc shape self v s outcome calls) ∧
    ∀ outcome calls, Dispatches host sc shape self v s outcome calls →
      dispatch host sc shape self v s = outcome ∧
      (dispatch host sc shape self v).RecordsFrom
        (dispatch host.recorded sc.recorded shape.recorded self v) s calls ∧
      (calls = [] → outcome.2 = s) := by
  refine ⟨?_, fun outcome calls h => ?_⟩
  · rcases DispatchRequest.malformed_or_readsAs v with ⟨reason, hv⟩ | ⟨request, hv⟩
    · exact ⟨_, _, .malformed hv⟩
    · cases hf : shape.field? request.target with
      | none => exact ⟨_, _, .unknownTarget hv hf⟩
      | some f =>
          obtain ⟨target, htarget⟩ := hget f (Shape.hasField_of_field? hf)
          obtain ⟨outcome, calls, hcarry⟩ := exists_carriesOut host sc request target s
          exact ⟨_, _, .carriedOut hv hf htarget hcarry⟩
  · refine ⟨h.run.1, h.run.2, ?_⟩
    rintro rfl
    exact h.unchanged

end Dispatch

section Laboratory

open Lab

/-- A declared field of a target can be read, whatever the state is. -/
def Declaration.Readable : Declaration World → Prop
  | .settable f | .readOnly f => ∀ (self : Ref Target) w, ∃ live, f.read self.object w = .ok live
  | _ => True

theorem target_readable : ∀ d ∈ Target.declarations, d.Readable := by
  simp only [Target.declarations, List.forall_mem_cons]
  have hget : ∀ {f : Field World} {look : Ref Target → World → Live}, f.read = getter look →
      ∀ (self : Ref Target) w, ∃ live, f.read self.object w = .ok live :=
    fun hread self w => ⟨_, hread ▸ getter_object _ self w⟩
  exact ⟨hget rfl, hget rfl, hget rfl, hget rfl, hget rfl, hget rfl, hget rfl, hget rfl, trivial,
    trivial, trivial, fun _ hd => by cases hd⟩

theorem target_reads (self : Ref Target) (w : World) (f : Field World)
    (hf : (Shape.ofDeclarations targetType Target.declarations).HasField f) :
    ∃ live, f.read self.object w = .ok live := by
  obtain ⟨name, hf | hf⟩ := hf
  · exact target_readable _ ((Shape.ofDeclarations_describedBy _ _).settable hf).1 self w
  · exact target_readable _ ((Shape.ofDeclarations_describedBy _ _).readOnly hf).1 self w

/-- A target has no member for a default file of a name. The module around it has one, which is
called once. -/
theorem dispatch_outcomes_defaultFile :
    let target : Shape World := .ofDeclarations targetType Target.declarations
    let module : Shape World := .ofDeclarations (typeRef Module) (Module.fields ++ Module.members)
    let sc : Scope World := ⟨⟨.strict, ⟨"/"⟩⟩, ["targets", "main", dispatchKey],
      [.object ⟨targetType, 0⟩ target, .collection targetType ⟨⟨typeRef Module, 0⟩, "targets"⟩,
        .object ⟨typeRef Module, 0⟩ module]⟩
    let v : Value := .table [("target", .string "sources"), ("method", .string "defaultFile"),
      ("params", .array [.string "x"])]
    ∃ m, m ∈ module.overloads "defaultFile" 1 ∧
      (dispatch ownHost sc target ⟨targetType, 0⟩ v).RecordsFrom
        (dispatch ownHost.recorded sc.recorded target.recorded ⟨targetType, 0⟩ v) .empty
        [⟨⟨typeRef Module, 0⟩, m, [.string "x"]⟩] := by
  intro target module sc v
  obtain ⟨m, hms, hm⟩ : ∃ m, module.overloads "defaultFile" 1 = [m] ∧ m.params = [.string] :=
    ⟨_, rfl, rfl⟩
  have hinner : ∀ f ∈ [Frame.object ⟨targetType, 0⟩ target,
      .collection targetType ⟨⟨typeRef Module, 0⟩, "targets"⟩],
      f.overloads "defaultFile" 1 = [] := by
    simp only [List.forall_mem_cons]
    exact ⟨rfl, rfl, fun _ hf => by cases hf⟩
  have hcarry : CarriesOut ownHost sc ⟨"sources", "defaultFile", [.string "x"]⟩
      (.list ⟨⟨targetType, 0⟩, "sources"⟩) .empty _ [⟨⟨typeRef Module, 0⟩, m, [.string "x"]⟩] :=
    .called (show sc.frames = [_, _] ++ _ :: [] from rfl) hinner
      (show _ = [] ++ m :: [] from hms) (fun _ hm => by cases hm) (by rw [paramsFor, hm]; rfl)
  exact ⟨m, by simp [hms], ((dispatch_outcomes (target_reads ⟨0⟩ _)).2 _ _
    (.carriedOut (.params rfl rfl rfl) rfl rfl hcarry)).2.1⟩

end Laboratory

end BuildReplay

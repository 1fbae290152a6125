import BuildReplay.Lab.Host
import BuildReplay.Proofs.Recording

/-! # First fits

Overloads are tried in the order of their declarations, and the first one that fits is called. An
overload that does not fit is passed over, and the first value that did not convert is what the
search is refused with in the end. Any other error of a trial ends the search at once. -/

namespace BuildReplay

open Act

variable {σ α β : Type}

/-! ## Trials -/

/-- Unless the act finds something, what is seen of the state is the same after it. -/
def Act.Searches {γ : Type} (view : σ → γ) (x : Act σ (Option β)) : Prop :=
  ∀ s r s', x s = (r, s') → (∀ a, r ≠ .ok (some a)) → view s' = view s

/-- A trial that passes over an overload: there was nothing to call it with, or the value did not
convert. -/
inductive PassesOver (trial : Act σ (Option β)) (s : σ) : Option Error → σ → Prop where
  | misfit {s'} : trial.Gives s none s' → PassesOver trial s none s'
  | refusal {path target found s'} :
      trial.Raises s (.unsupportedCoercion path target found) s' →
      PassesOver trial s (some (.unsupportedCoercion path target found)) s'

/-- A trial that ends the search: with an argument, or with an error that is no refusal. -/
inductive Decides (trial : Act σ (Option β)) (s : σ) : Prop where
  | found {a s'} : trial.Gives s (some a) s' → Decides trial s
  | failed {e s'} : trial.Raises s e s' →
      (∀ path target found, e ≠ .unsupportedCoercion path target found) → Decides trial s

theorem passesOver_or_decides (trial : Act σ (Option β)) (s : σ) :
    (∃ refusal s', PassesOver trial s refusal s') ∨ Decides trial s := by
  rcases gives_or_raises trial s with ⟨_ | a, s', h⟩ | ⟨e, s', h⟩
  · exact .inl ⟨none, s', .misfit h⟩
  · exact .inr (.found h)
  · cases e with
    | unsupportedCoercion path target found => exact .inl ⟨_, s', .refusal h⟩
    | _ => exact .inr (.failed h fun _ _ _ heq => by cases heq)

/-- All overloads of a list are passed over, with these refusals on the way. -/
inductive PassesOverAll (trial : Member σ → Act σ (Option β)) :
    List (Member σ) → σ → List Error → σ → Prop where
  | nil {s} : PassesOverAll trial [] s [] s
  | cons {m ms s refusal s₁ refusals s'} : PassesOver (trial m) s refusal s₁ →
      PassesOverAll trial ms s₁ refusals s' →
      PassesOverAll trial (m :: ms) s (refusal.toList ++ refusals) s'

/-- A list is passed over to its end, or up to an overload whose trial ends the search. -/
theorem passesOverAll_or_decides (trial : Member σ → Act σ (Option β)) (ms : List (Member σ))
    (s : σ) :
    (∃ refusals s', PassesOverAll trial ms s refusals s') ∨
    ∃ before m after refusals s₁, ms = before ++ m :: after ∧
      PassesOverAll trial before s refusals s₁ ∧ Decides (trial m) s₁ := by
  induction ms generalizing s with
  | nil => exact .inl ⟨[], s, .nil⟩
  | cons m ms ih =>
      rcases passesOver_or_decides (trial m) s with ⟨refusal, s₁, hm⟩ | hm
      · rcases ih s₁ with ⟨refusals, s', hms⟩ | ⟨before, m', after, refusals, s₂, rfl, hbefore, hm'⟩
        · exact .inl ⟨_, s', .cons hm hms⟩
        · exact .inr ⟨m :: before, m', after, _, s₂, rfl, .cons hm hbefore, hm'⟩
      · exact .inr ⟨[], m, ms, [], s, rfl, .nil, hm⟩

/-- What trials that find nothing leave alone is the same after overloads that were passed over. -/
theorem PassesOverAll.keeps {γ : Type} {view : σ → γ} {trial : Member σ → Act σ (Option β)}
    (htrial : ∀ m, (trial m).Searches view)
    {ms : List (Member σ)} {s s' : σ} {refusals : List Error}
    (h : PassesOverAll trial ms s refusals s') : view s' = view s := by
  induction h with
  | nil => rfl
  | cons hm _ ih =>
      rw [ih]
      cases hm with
      | misfit h => exact htrial _ _ _ _ h fun _ heq => by cases heq
      | refusal h => exact htrial _ _ _ _ h fun _ heq => by cases heq

/-! ## The search -/

section Search

variable (trial : Member σ → Act σ (Option β)) (call : Member σ → β → Act σ α) (nothing : Act σ α)

/-- Calls the first overload that fits. The first refusal is carried along; it is the outcome when
none fits. -/
def tryInOrder : Option Error → List (Member σ) → Act σ α
  | refusal, [] => refusal.elim nothing throw
  | refusal, m :: rest => do
    match ← (trial m).attempt with
    | .ok (some a) => call m a
    | .ok none => tryInOrder refusal rest
    | .error (.unsupportedCoercion path target found) =>
      tryInOrder (refusal <|> some (.unsupportedCoercion path target found)) rest
    | .error e => throw e

/-- How a search ends, and the call that it makes. -/
inductive FirstFit (ms : List (Member σ)) (s : σ) :
    Except Error α × σ → Option (Member σ × β) → Prop where
  /-- The first overload that fits is called, and its outcome is that of the search. -/
  | called {before m after refusals s₁ a s₂} : ms = before ++ m :: after →
      PassesOverAll trial before s refusals s₁ → (trial m).Gives s₁ (some a) s₂ →
      FirstFit ms s (call m a s₂) (some (m, a))
  /-- An error of a trial that is no refusal ends the search. -/
  | failed {before m after refusals s₁ e s₂} : ms = before ++ m :: after →
      PassesOverAll trial before s refusals s₁ → (trial m).Raises s₁ e s₂ →
      (∀ path target found, e ≠ .unsupportedCoercion path target found) →
      FirstFit ms s (.error e, s₂) none
  /-- No overload fits; the first refusal is the outcome, if there was one. -/
  | nothing {refusals s'} : PassesOverAll trial ms s refusals s' →
      FirstFit ms s (refusals.head?.elim nothing throw s') none

variable {trial call nothing} {refusal : Option Error} {m : Member σ}
  {ms before rest : List (Member σ)} {refusals : List Error} {s s₁ s' : σ} {a : β} {e : Error}

theorem exists_firstFit (trial : Member σ → Act σ (Option β)) (call : Member σ → β → Act σ α)
    (nothing : Act σ α) (ms : List (Member σ)) (s : σ) :
    ∃ outcome called, FirstFit trial call nothing ms s outcome called := by
  rcases passesOverAll_or_decides trial ms s with
    ⟨refusals, s', hms⟩ | ⟨before, m, after, refusals, s₁, rfl, hbefore, hm⟩
  · exact ⟨_, _, .nothing hms⟩
  · cases hm with
    | found hm => exact ⟨_, _, .called rfl hbefore hm⟩
    | failed hm hfatal => exact ⟨_, _, .failed rfl hbefore hm hfatal⟩

theorem tryInOrder_found (h : (trial m).Gives s (some a) s₁) :
    tryInOrder trial call nothing refusal (m :: rest) s = call m a s₁ := by
  rw [tryInOrder, (attempt_gives.2 h).bind_eq]

theorem tryInOrder_failed (h : (trial m).Raises s e s₁)
    (hfatal : ∀ path target found, e ≠ .unsupportedCoercion path target found) :
    tryInOrder trial call nothing refusal (m :: rest) s = (.error e, s₁) := by
  rw [tryInOrder, (attempt_gives.2 h).bind_eq]
  cases e with
  | unsupportedCoercion path target found => exact absurd rfl (hfatal path target found)
  | _ => rfl

/-- Behind overloads that are passed over the search goes on with the first refusal so far. -/
theorem tryInOrder_passed (h : PassesOverAll trial before s refusals s₁) :
    tryInOrder trial call nothing refusal (before ++ rest) s =
      tryInOrder trial call nothing (refusal <|> refusals.head?) rest s₁ := by
  induction h generalizing refusal with
  | nil => cases refusal <;> rfl
  | cons hm _ ih =>
      rw [List.cons_append, tryInOrder]
      cases hm with
      | misfit hm =>
          rw [(attempt_gives.2 hm).bind_eq]
          exact ih
      | refusal hm =>
          rw [(attempt_gives.2 hm).bind_eq]
          refine ih.trans ?_
          cases refusal <;> rfl

theorem FirstFit.outcome_eq {outcome : Except Error α × σ} {called : Option (Member σ × β)}
    (h : FirstFit trial call nothing ms s outcome called) :
    tryInOrder trial call nothing none ms s = outcome := by
  cases h with
  | called heq hbefore hm => rw [heq, tryInOrder_passed hbefore, tryInOrder_found hm]
  | failed heq hbefore hm hfatal =>
      rw [heq, tryInOrder_passed hbefore, tryInOrder_failed hm hfatal]
  | nothing hms =>
      have hpassed : tryInOrder trial call nothing none (ms ++ []) s = _ := tryInOrder_passed hms
      rw [List.append_nil] at hpassed
      exact hpassed

/-- A search that calls nothing leaves alone what its trials leave alone. -/
theorem FirstFit.keeps {γ : Type} {view : σ → γ} (htrial : ∀ m, (trial m).Searches view)
    (hnothing : ∀ s, view (nothing s).2 = view s) {outcome : Except Error α × σ}
    (h : FirstFit trial call nothing ms s outcome none) : view outcome.2 = view s := by
  cases h with
  | failed _ hbefore hm _ =>
      exact (htrial _ _ _ _ hm fun _ heq => by cases heq).trans (hbefore.keeps htrial)
  | @nothing refusals s' hms =>
      refine Eq.trans ?_ (hms.keeps htrial)
      cases refusals with
      | nil => exact hnothing s'
      | cons e refusals => rfl

end Search

/-! ## The search on record -/

section Record

variable {trial : Member σ → Act σ (Option β)} {call : Member σ → β → Act σ α} {nothing : Act σ α}
  {trial' : Member (Recorded σ) → Act (Recorded σ) (Option β)}
  {call' : Member (Recorded σ) → β → Act (Recorded σ) α} {nothing' : Act (Recorded σ) α}
  {ms : List (Member σ)} {s s' : σ}

theorem PassesOverAll.recorded (htrial : ∀ m, trial' m.recorded = (trial m).within .fst)
    {refusals : List Error} (h : PassesOverAll trial ms s refusals s')
    (calls : List (MemberCall σ)) :
    PassesOverAll trial' (ms.map Member.recorded) (s, calls) refusals (s', calls) := by
  induction h with
  | nil => exact .nil
  | cons hm _ ih =>
      refine .cons ?_ ih
      rw [htrial]
      cases hm with
      | misfit hm => exact .misfit (Gives.within .fst hm)
      | refusal hm => exact .refusal (Raises.within .fst hm)

/-- The search on record makes just the call that it ends with. -/
theorem FirstFit.recordsFrom {record : Member σ × β → MemberCall σ}
    (htrial : ∀ m, trial' m.recorded = (trial m).within .fst)
    (hcall : ∀ m a s, (call m a).RecordsFrom (call' m.recorded a) s [record (m, a)])
    (hnothing : nothing' = nothing.within .fst) {outcome : Except Error α × σ}
    {called : Option (Member σ × β)} (h : FirstFit trial call nothing ms s outcome called) :
    (tryInOrder trial call nothing none ms).RecordsFrom
      (tryInOrder trial' call' nothing' none (ms.map Member.recorded)) s
      (called.toList.map record) := by
  intro calls
  rw [h.outcome_eq]
  cases h with
  | @called before m after refusals s₁ a s₂ heq hbefore hm =>
      have hm' : (trial' m.recorded).Gives (s₁, calls) (some a) (s₂, calls) := by
        rw [htrial]
        exact Gives.within .fst hm
      rw [heq, List.map_append, List.map_cons, tryInOrder_passed (hbefore.recorded htrial calls),
        tryInOrder_found hm']
      exact hcall m a s₂ calls
  | @failed before m after refusals s₁ e s₂ heq hbefore hm hfatal =>
      have hm' : (trial' m.recorded).Raises (s₁, calls) e (s₂, calls) := by
        rw [htrial]
        exact Raises.within .fst hm
      rw [heq, List.map_append, List.map_cons, tryInOrder_passed (hbefore.recorded htrial calls),
        tryInOrder_failed hm' hfatal, Option.toList_none, List.map_nil, List.append_nil]
  | @nothing refusals s' hms =>
      have hfit : FirstFit trial' call' nothing' (ms.map Member.recorded) (s, calls) _ none :=
        .nothing (hms.recorded htrial calls)
      rw [hfit.outcome_eq, Option.toList_none, List.map_nil, List.append_nil]
      subst hnothing
      cases refusals <;> rfl

end Record

/-! ## Looking up -/

/-- Looking for a value leaves alone what is seen of the state: the shapes are looked up, and a
factory that makes nothing changes nothing. -/
structure Host.LooksUp {γ : Type} (host : Host σ) (view : σ → γ) : Prop where
  shapeOf : ∀ t s, view (host.shapeOf t s).2 = view s
  refuse : ∀ {t s shape s₁ name f argument s₂ e s'}, (host.shapeOf t).Gives s shape s₁ →
    shape.factory? name = some f → (f.build argument).Raises s₂ e s' → view s' = view s₂

namespace Act.Searches

variable {γ : Type} {view : σ → γ}

theorem pure (a? : Option β) : Searches view (Pure.pure a? : Act σ (Option β)) := by
  rintro s r s' h -
  cases h
  rfl

theorem ofExcept (r : Except Error (Option β)) :
    Searches view (.ofExcept r : Act σ (Option β)) := by
  rintro s r s' h -
  cases h
  rfl

/-- After an act that changes nothing that is seen. -/
theorem after {x : Act σ α} (hx : ∀ s, view (x s).2 = view s) {f : α → Act σ (Option β)}
    (hf : ∀ {s a s'}, x.Gives s a s' → Searches view (f a)) : Searches view (x >>= f) := by
  intro s r s' h hr
  rcases gives_or_raises x s with ⟨a, s₁, ha⟩ | ⟨e, s₁, he⟩
  · rw [ha.bind_eq] at h
    rw [hf ha s₁ r s' h hr, ← hx s, ha]
  · rw [he.bind] at h
    cases h
    rw [← hx s, he]

/-- A search that goes on with another one where it found nothing. -/
theorem orElse {x : Act σ (Option β)} {f : Option β → Act σ (Option β)} (hx : Searches view x)
    (hsome : ∀ a, f (some a) = Pure.pure (some a)) (hnone : Searches view (f none)) :
    Searches view (x >>= f) := by
  intro s r s' h hr
  rcases gives_or_raises x s with ⟨_ | a, s₁, hgives⟩ | ⟨e, s₁, he⟩
  · rw [hgives.bind_eq] at h
    rw [hnone s₁ r s' h hr, hx s _ s₁ hgives fun _ heq => by cases heq]
  · rw [hgives.bind_eq, hsome] at h
    cases h
    exact absurd rfl (hr a)
  · rw [he.bind] at h
    cases h
    exact hx s _ s' he fun _ heq => by cases heq

end Act.Searches

section LooksUp

variable {γ : Type} {view : σ → γ} {host : Host σ} (h : host.LooksUp view)
include h

theorem Host.LooksUp.invokeFactory (t : ValueType) (factory argument path : String) :
    (invokeFactory host t factory argument path).Searches view := by
  unfold BuildReplay.invokeFactory
  split
  · split
    · exact .ofExcept _
    · exact .pure _
  · refine .after (h.shapeOf _) fun hshape => ?_
    split
    · rename_i f hf
      intro s r s' hbuild hr
      rcases gives_or_raises (f.build argument) s with ⟨live, s₁, hlive⟩ | ⟨e, s₁, he⟩
      · rw [map_eq_pure_bind, hlive.bind_eq] at hbuild
        cases hbuild
        exact absurd rfl (hr live)
      · rw [map_eq_pure_bind, he.bind] at hbuild
        cases hbuild
        exact h.refuse hshape hf he
    · exact .pure _
  · exact .pure _

theorem Host.LooksUp.resolve (raw : Value) (t : ValueType) (path : String) (f : Frame σ) :
    (f.resolve host raw t path).Searches view := by
  cases f with
  | object self shape =>
      simp only [Frame.resolve]
      split
      · exact h.invokeFactory _ _ _ _
      · exact .pure _
  | collection element slot =>
      simp only [Frame.resolve]
      split
      · split
        · refine .after (fun s => ?_) fun _ => .pure _
          unfold Host.getByName
          cases host.named? slot <;> rfl
        · exact .pure _
      · exact .pure _

theorem Host.LooksUp.resolveSymbol (raw : Value) (t : ValueType) (path : String)
    (frames : List (Frame σ)) : (resolveSymbol host raw t path frames).Searches view := by
  induction frames with
  | nil => exact .pure _
  | cons f outer ih =>
      rw [BuildReplay.resolveSymbol]
      exact .orElse (h.resolve raw t path f) (fun _ => rfl) ih

theorem Host.LooksUp.resolveArgument (sc : Scope σ) (t : ValueType) (v : Value) :
    (resolveArgument host sc t v).Searches view := by
  unfold BuildReplay.resolveArgument
  split
  · split
    · exact h.invokeFactory _ _ _ _
    · exact .pure _
  · split
    · rw [map_eq_pure_bind]
      exact .after (fun _ => rfl) fun _ => .pure _
    · exact h.resolveSymbol _ _ _ _

end LooksUp

/-! ## Overloads of a key -/

section Key

variable (host : Host σ) (sc : Scope σ) (self : ObjectRef) (key : String) (v : Value)
  (first : Option Live) (ms : List (Member σ)) (s : σ)

theorem invokeFirst_eq_tryInOrder (refusal : Option Error) :
    invokeFirst host sc self key v first refusal ms =
      tryInOrder (fun m => resolveArgument host sc (m.params.getLastD .any) v)
        (fun m argument => discard (m.invoke self (first.toList ++ [argument])))
        (sc.unresolved key) refusal (ms.filter (·.arity == first.toList.length + 1)) := by
  induction ms generalizing refusal with
  | nil => cases refusal <;> rfl
  | cons m ms ih =>
      rw [invokeFirst]
      by_cases harity : m.arity = first.toList.length + 1
      · rw [if_pos harity, List.filter_cons_of_pos (by simpa using harity), tryInOrder]
        congr 1
        funext r
        rcases r with e | _ | argument
        · cases e with
          | unsupportedCoercion path target found => exact ih _
          | _ => rfl
        · exact ih _
        · rfl
      · rw [if_neg harity, List.filter_cons_of_neg (by simpa using harity)]
        exact ih _

/-- How the overloads of a key come out. Those with a parameter for the value, behind the argument
in front of it, are tried with what the value resolves to; `called` is the one that is called, with
its argument. -/
def InvokesFirstFit (outcome : Except Error Unit × σ) (called : Option (Member σ × Live)) : Prop :=
  FirstFit (fun m => resolveArgument host sc (m.params.getLastD .any) v)
    (fun m argument => discard (m.invoke self (first.toList ++ [argument])))
    (sc.unresolved key) (ms.filter (·.arity == first.toList.length + 1)) s outcome called

/-- The overloads of a key come out in one way, with a call of the first one that fits or with none.
Where none is called, what is seen of the host stays the same. -/
theorem invokeFirst_first_fit {γ : Type} {view : σ → γ} (h : host.LooksUp view) :
    (∃ outcome called, InvokesFirstFit host sc self key v first ms s outcome called) ∧
    ∀ outcome called, InvokesFirstFit host sc self key v first ms s outcome called →
      invokeFirst host sc self key v first none ms s = outcome ∧
      (invokeFirst host sc self key v first none ms).RecordsFrom
        (invokeFirst host.recorded sc.recorded self key v first none (ms.map Member.recorded)) s
        (called.toList.map fun (m, argument) => ⟨self, m, first.toList ++ [argument]⟩) ∧
      (called = none → view outcome.2 = view s) := by
  refine ⟨exists_firstFit _ _ _ _ s, fun outcome called hfit => ⟨?_, ?_, ?_⟩⟩
  · rw [invokeFirst_eq_tryInOrder]
    exact hfit.outcome_eq
  · have hfilter : (ms.map Member.recorded).filter (·.arity == first.toList.length + 1) =
        (ms.filter (·.arity == first.toList.length + 1)).map Member.recorded := List.filter_map ..
    rw [invokeFirst_eq_tryInOrder, invokeFirst_eq_tryInOrder, hfilter]
    exact hfit.recordsFrom (fun m => resolveArgument_recorded host sc v _)
      (fun m argument s => (Act.RecordsFrom.invoke m self _ s).map _)
      (sc.unresolved_recorded key)
  · rintro rfl
    refine hfit.keeps (fun m => h.resolveArgument sc _ v) fun s => ?_
    unfold Scope.unresolved
    split <;> rfl

end Key

/-! ## The laboratory -/

section Laboratory

open Lab

theorem newVersion_not_raises {major : Int32} {text : String} {w w' : World} {e : Error} :
    ¬(newVersion major text).Raises w e w' := by
  intro h
  cases h

/-- The factories of the laboratory store what they make, and change nothing when they refuse. -/
theorem ownHost_looksUp : ownHost.LooksUp fun w => w where
  shapeOf t w := by
    cases h : shape? t <;> simp only [ownHost, h] <;> rfl
  refuse {t w shape w₁ name f argument w₂ e w'} hshape hf he := by
    have hshape? : shape? t = some shape := by
      cases h : shape? t with
      | some shape' =>
          simp only [ownHost, h] at hshape
          rw [(pure_gives.1 hshape).1]
      | none =>
          simp only [ownHost, h] at hshape
          exact absurd hshape not_throw_gives
    obtain ⟨⟨t', ds⟩, hds, rfl⟩ := Option.map_eq_some_iff.1 hshape?
    have hfactory := ((Shape.ofDeclarations_describedBy t' ds).factories hf).1
    have hmem : f ∈ (declarationTable.flatMap (·.2)).filterMap Declaration.factory? :=
      List.mem_filterMap.2 ⟨.factory f, List.mem_flatMap.2 ⟨_, List.mem_of_find?_eq_some hds,
        hfactory⟩, rfl⟩
    rw [show (declarationTable.flatMap (·.2)).filterMap Declaration.factory? =
      Version.declarations.filterMap Declaration.factory? from rfl] at hmem
    simp only [Version.declarations, List.filterMap] at hmem
    rcases hmem with _ | ⟨_, _ | ⟨_, _ | ⟨_, ⟨⟩⟩⟩⟩
    · dsimp only at he
      split at he
      · exact absurd he newVersion_not_raises
      · exact (throw_raises.1 he).2.symm
    · exact absurd he newVersion_not_raises
    · exact absurd he not_pure_raises

/-- An item attaches a text: it is no integer, no item has that name, and the overload that takes
texts is called. -/
theorem invokeFirst_first_fit_attach :
    let sc : Scope World := ⟨⟨.strict, ⟨"/"⟩⟩, ["item", "attach"],
      [.collection itemType ⟨⟨targetType, 0⟩, "children"⟩]⟩
    let ms := (Shape.ofDeclarations itemType Item.declarations).overloads "attach" 1
    ∃ m, m ∈ ms ∧ m.params = [.string] ∧
      (invokeFirst ownHost sc ⟨itemType, 0⟩ "attach" (.string "x") none none ms).RecordsFrom
        (invokeFirst ownHost.recorded sc.recorded ⟨itemType, 0⟩ "attach" (.string "x") none none
          (ms.map Member.recorded)) .empty [⟨⟨itemType, 0⟩, m, [.string "x"]⟩] := by
  intro sc ms
  obtain ⟨m₁, m₂, m₃, hms, hm₁, hm₂, hm₃⟩ : ∃ m₁ m₂ m₃, ms = [m₁, m₂, m₃] ∧
      m₁.params = [.int] ∧ m₂.params = [.object itemType] ∧ m₃.params = [.string] :=
    ⟨_, _, _, rfl, rfl, rfl, rfl⟩
  have harity : ms.filter (·.arity == (none : Option Live).toList.length + 1) =
      [m₁, m₂] ++ [m₃] := by
    simp [hms, Member.arity, hm₁, hm₂, hm₃]
  have hfit : InvokesFirstFit ownHost sc ⟨itemType, 0⟩ "attach" (.string "x") none ms .empty _
      (some (m₃, .string "x")) :=
    .called harity (.cons (.refusal (by rw [hm₁]; rfl)) (.cons (.misfit (by rw [hm₂]; rfl)) .nil))
      (by rw [hm₃]; rfl)
  have hrecords := ((invokeFirst_first_fit ownHost sc ⟨itemType, 0⟩ "attach" (.string "x") none ms
    .empty ownHost_looksUp).2 _ _ hfit).2.1
  exact ⟨m₃, by simp [hms], hm₃, hrecords⟩

end Laboratory

end BuildReplay

import BuildReplay.Live

/-! # Conversions of host fields -/

namespace BuildReplay

/-- Whether the value is a handle to an object or a container. -/
def Live.isHandle : Live → Bool
  | .object _ | .named _ _ | .list _ | .map _ | .property _ => true
  | _ => false

/-- Values of the type read as no handles. -/
class Plain (β : Type) [ToLive β] : Prop where
  isHandle_toLive : ∀ b : β, (toLive b).isHandle = false

instance : Plain Bool := ⟨fun _ => rfl⟩
instance : Plain Int32 := ⟨fun _ => rfl⟩
instance : Plain String := ⟨fun _ => rfl⟩
instance : Plain Path := ⟨fun _ => rfl⟩

instance {β : Type} [ToLive β] [Plain β] : Plain (Option β) where
  isHandle_toLive
    | none => rfl
    | some b => Plain.isHandle_toLive b

/-- Only an object is taken for one. -/
theorem eq_object_of_ofLive {α : Type} [Described α] {v : Live} {r : Ref α}
    (h : (ofLive v : Except Error (Ref α)) = .ok r) : v = .object r.object := by
  cases v with
  | object r' =>
      change (if r'.type = typeRef α then _ else _) = _ at h
      split at h
      · rename_i htype
        cases h
        exact congrArg (fun t => Live.object ⟨t, r'.id⟩) htype
      · cases h
  | _ => cases h

/-! ## Refusals -/

/-- A conversion that refuses a value does so in the name of the host. -/
class Refusing (β : Type) [OfLive β] : Prop where
  host_of_error : ∀ {v : Live} {e : Error}, (ofLive v : Except Error β) = .error e →
    ∃ message, e = .host message

/-- The refusal of a value, whatever is expected. -/
theorem mismatch_eq_error {β : Type} {v : Live} {expected : String} {e : Error}
    (h : (.error (v.mismatch expected) : Except Error β) = .error e) :
    ∃ message, e = .host message :=
  ⟨_, (Except.error.inj h).symm⟩

instance : Refusing Bool where
  host_of_error {v e} h := by
    cases v <;> first | exact mismatch_eq_error h | cases h

instance : Refusing Int32 where
  host_of_error {v e} h := by
    cases v with
    | long i =>
        change (if fitsInt i then _ else _) = _ at h
        split at h
        · cases h
        · exact mismatch_eq_error h
    | _ => first | exact mismatch_eq_error h | cases h

instance : Refusing String where
  host_of_error {v e} h := by
    cases v <;> first | exact mismatch_eq_error h | cases h

instance : Refusing Path where
  host_of_error {v e} h := by
    cases v <;> first | exact mismatch_eq_error h | cases h

instance {α : Type} [Described α] : Refusing (Ref α) where
  host_of_error {v e} h := by
    cases v with
    | object r =>
        change (if r.type = typeRef α then _ else _) = _ at h
        split at h
        · cases h
        · exact mismatch_eq_error h
    | _ => exact mismatch_eq_error h

instance {α : Type} [OfLive α] [Refusing α] : Refusing (Option α) where
  host_of_error {v e} h := by
    have hmap : ∀ r : Except Error α, r = ofLive v → r.map some = .error e →
        ∃ message, e = .host message := by
      intro r hr hmap
      cases r with
      | ok a => cases hmap
      | error e' =>
          cases hmap
          exact Refusing.host_of_error hr.symm
    cases v <;> first | exact hmap _ rfl h | cases h

/-- An enumeration refuses like any other type. -/
theorem refusing_enumerated {α : Type} [Enumerated α] {v : Live} {e : Error}
    (h : (Enumerated.ofLive v : Except Error α) = .error e) : ∃ message, e = .host message := by
  have helim : ∀ o : Option α,
      o.elim (Except.error (v.mismatch (enumRef α).name)) Except.ok = .error e →
      ∃ message, e = .host message := by
    intro o ho
    cases o with
    | none => exact mismatch_eq_error ho
    | some a => cases ho
  unfold Enumerated.ofLive at h
  split at h
  · split at h
    · exact helim _ h
    · exact mismatch_eq_error h
  · exact helim _ h
  · exact mismatch_eq_error h

end BuildReplay

import BuildReplay.Proofs.Android.Outline
import BuildReplay.Proofs.Walk

/-! # One key under both strictnesses

Strict and lenient mode differ in two places: where nothing fits a declaration, and where a table is
meant for an object that the host left unset. There strict mode refuses the key and lenient mode
leaves it out, and neither has touched the host before. -/

namespace BuildReplay

variable {σ α : Type}

/-- The errors that only strict mode raises. -/
def Error.isSkip : Error → Bool
  | .unresolvedArgument _ _ => true
  | .unassignableField _ _ _ reason => reason == "field is unset on the host"
  | _ => false

/-- Looking up a shape leaves the objects of the host alone. -/
def Host.Steady (host : Host σ) : Prop := ∀ t s, (host.shapeOf t s).2 = s

theorem Android.host_steady : Android.host.Steady := by
  intro t s
  cases h : Android.shape? t with
  | some shape => rw [Android.host_shapeOf_some h, Act.pure_apply]
  | none => rw [Android.host_shapeOf_none h, Act.throw_apply]

/-- The scope of the same key under another strictness. -/
def Scope.under (sc : Scope σ) (x : Strictness) : Scope σ :=
  { sc with options := { sc.options with strictness := x } }

theorem Scope.under_frames (sc : Scope σ) (x : Strictness) : (sc.under x).frames = sc.frames := rfl

/-! ## A lookup that finds nothing changes nothing -/

section Lookup

variable {host : Host σ} {s s' : σ} {raw : Value} {t : ValueType} {path : String}

theorem invokeFactory_none (hs : host.Steady) {factory arg : String}
    (h : (invokeFactory host t factory arg path).Gives s none s') : s' = s := by
  unfold invokeFactory at h
  split at h
  · split at h
    · exact (Act.ofExcept_gives.1 h).2.symm
    · exact (Act.pure_gives.1 h).2.symm
  · rename_i t
    obtain ⟨shape, s₁, hshape, h⟩ := Act.bind_gives.1 h
    have hs₁ : s₁ = s := by simpa [show host.shapeOf t s = _ from hshape] using hs t s
    split at h
    · obtain ⟨live, -, hlive⟩ := Act.map_gives.1 h
      cases hlive
    · rw [← hs₁]
      exact (Act.pure_gives.1 h).2.symm
  · exact (Act.pure_gives.1 h).2.symm

theorem Frame.resolve_none (hs : host.Steady) {f : Frame σ}
    (h : (f.resolve host raw t path).Gives s none s') : s' = s := by
  cases f with
  | object self shape =>
      simp only [Frame.resolve] at h
      split at h
      · exact invokeFactory_none hs h
      · exact (Act.pure_gives.1 h).2.symm
  | collection element slot =>
      simp only [Frame.resolve] at h
      split at h
      · split at h
        · obtain ⟨r, s₁, hr, h⟩ := Act.bind_gives.1 h
          rw [← Host.getByName_state hr]
          exact (Act.pure_gives.1 h).2.symm
        · exact (Act.pure_gives.1 h).2.symm
      · exact (Act.pure_gives.1 h).2.symm

theorem resolveSymbol_none (hs : host.Steady) {frames : List (Frame σ)}
    (h : (resolveSymbol host raw t path frames).Gives s none s') : s' = s := by
  induction frames generalizing s with
  | nil => exact (Act.pure_gives.1 h).2.symm
  | cons f outer ih =>
      obtain ⟨live?, s₁, hf, h⟩ := Act.bind_gives.1 h
      cases live? with
      | some live => cases (Act.pure_gives.1 h).1
      | none =>
          rw [ih h]
          exact Frame.resolve_none hs hf

theorem resolveArgument_none (hs : host.Steady) {sc : Scope σ}
    (h : (resolveArgument host sc t raw).Gives s none s') : s' = s := by
  unfold resolveArgument at h
  split at h
  · split at h
    · exact invokeFactory_none hs h
    · exact (Act.pure_gives.1 h).2.symm
  · split at h
    · obtain ⟨live, -, hlive⟩ := Act.map_gives.1 h
      cases hlive
    · exact resolveSymbol_none hs h

theorem Frame.callFirst_none {root : Path} {self : ObjectRef} {params : List Value}
    {mismatch : Option Error} {ms : List (Member σ)}
    (h : (Frame.callFirst root self params path mismatch ms).Gives s none s') : s' = s := by
  induction ms generalizing mismatch with
  | nil =>
      simp only [Frame.callFirst] at h
      split at h
      · exact absurd h Act.not_throw_gives
      · exact (Act.pure_gives.1 h).2.symm
  | cons m rest ih =>
      simp only [Frame.callFirst] at h
      split at h
      · obtain ⟨live, -, hlive⟩ := Act.map_gives.1 h
        cases hlive
      · exact ih h
      · exact absurd h Act.not_throw_gives

theorem Frame.callMember_none {root : Path} {name : String} {params : List Value} {f : Frame σ}
    (h : (f.callMember root name params path).Gives s none s') : s' = s := by
  cases f with
  | object self shape => exact callFirst_none h
  | collection element slot => exact (Act.pure_gives.1 h).2.symm

end Lookup

/-! ## Acts that agree up to what strict mode refuses -/

/-- Two outcomes of acts started in `s` are the same, or the first refuses with an error of strict
mode what the second leaves out, ending with `d`; then nothing has changed. -/
def SkipsFrom (d : α) (s : σ) (r r' : Except Error α × σ) : Prop :=
  r = r' ∨ ∃ e, e.isSkip ∧ r = (.error e, s) ∧ r' = (.ok d, s)

/-- The acts agree wherever the first does not refuse with an error of strict mode. -/
def SkipsTo (d : α) (x y : Act σ α) : Prop := ∀ s, SkipsFrom d s (x s) (y s)

namespace SkipsTo

variable {β : Type} {d : α} {x y : Act σ α}

theorem refl (d : α) (x : Act σ α) : SkipsTo d x x := fun _ => .inl rfl

/-- One act in front of both: where it ends with a value after which they differ, it has changed
nothing. -/
theorem bind {x : Act σ β} {f g : β → Act σ α}
    (h : ∀ b, f b = g b ∨ SkipsTo d (f b) (g b) ∧ ∀ s s', x.Gives s b s' → s' = s) :
    SkipsTo d (x >>= f) (x >>= g) := by
  intro s
  rcases Act.gives_or_raises x s with ⟨b, s₁, hx⟩ | ⟨e, s₁, hx⟩
  · rw [hx.bind_eq, hx.bind_eq]
    rcases h b with heq | ⟨hfg, hs⟩
    · exact .inl (by rw [heq])
    · obtain rfl := hs s s₁ hx
      exact hfg s₁
  · left
    rw [hx.bind f, hx.bind g]

theorem readExcept {r : σ → Except Error β} {f g : β → Act σ α}
    (h : ∀ b, SkipsTo d (f b) (g b)) :
    SkipsTo d (Act.readExcept r >>= f) (Act.readExcept r >>= g) :=
  bind fun b => .inr ⟨h b, fun _ _ hr => (Act.readExcept_gives.1 hr).2.symm⟩

/-- The same value at the end of both acts. -/
theorem andThen {x y : Act σ Unit} (h : SkipsTo () x y) (d : α) :
    SkipsTo d (x >>= fun _ => pure d) (y >>= fun _ => pure d) := by
  intro s
  rcases h s with hxy | ⟨e, he, hx, hy⟩
  · left
    rw [Act.bind_apply, Act.bind_apply, hxy]
  · right
    exact ⟨e, he, Act.Raises.bind hx _, Act.bind_gives.2 ⟨(), s, hy, Act.pure_gives.2 ⟨rfl, rfl⟩⟩⟩

end SkipsTo

section Step

variable {host : Host σ} (sc : Scope σ) (shape : Shape σ) (self : ObjectRef) (key : String)
  (v : Value)

theorem unresolved_skipsTo :
    SkipsTo () ((sc.under .strict).unresolved key) ((sc.under .lenient).unresolved key) :=
  fun _ => .inr ⟨_, rfl, rfl, rfl⟩

theorem unsetObject_skipsTo (f : Field σ) :
    SkipsTo .done ((sc.under .strict).unsetObject shape f)
      ((sc.under .lenient).unsetObject shape f) :=
  fun _ => .inr ⟨_, beq_self_eq_true _, rfl, rfl⟩

/-- Once an overload failed to convert the value, the strictness has no say. -/
theorem invokeFirst_under_some (x : Strictness) (first : Option Live) (e : Error)
    (ms : List (Member σ)) :
    invokeFirst host (sc.under x) self key v first (some e) ms =
      invokeFirst host sc self key v first (some e) ms := by
  induction ms with
  | nil => rfl
  | cons m rest ih =>
      simp only [invokeFirst, ih, show ∀ e', (some e <|> some e') = some e from fun _ => rfl]
      rfl

theorem invokeFirst_skipsTo (hs : host.Steady) (first : Option Live) (ms : List (Member σ)) :
    SkipsTo () (invokeFirst host (sc.under .strict) self key v first none ms)
      (invokeFirst host (sc.under .lenient) self key v first none ms) := by
  induction ms with
  | nil => exact unresolved_skipsTo sc key
  | cons m rest ih =>
      by_cases harity : m.arity = first.toList.length + 1
      · simp only [invokeFirst, if_pos harity]
        refine .bind fun r => ?_
        rcases r with e | _ | argument
        · left
          cases e with
          | unsupportedCoercion path target found =>
              simp only [show ∀ e' : Error, (none <|> some e') = some e' from fun _ => rfl,
                invokeFirst_under_some]
          | _ => rfl
        · right
          refine ⟨ih, fun s s' h => ?_⟩
          exact resolveArgument_none hs (Act.attempt_gives.1 h)
        · exact .inl rfl
      · simp only [invokeFirst, if_neg harity]
        exact ih

theorem memberStep_skipsTo (hs : host.Steady) :
    SkipsTo () (memberStep host (sc.under .strict) shape self key v)
      (memberStep host (sc.under .lenient) shape self key v) := by
  unfold memberStep
  split
  · exact invokeFirst_skipsTo sc self key v hs _ _
  · split
    · exact invokeFirst_skipsTo sc self key v hs _ _
    · exact .refl () _

theorem dispatch_skipsTo :
    SkipsTo () (dispatch host (sc.under .strict) shape self v)
      (dispatch host (sc.under .lenient) shape self v) := by
  unfold dispatch
  split
  · exact .refl () _
  · rename_i request _
    split
    · exact .refl () _
    · refine .readExcept fun target => ?_
      simp only [Scope.under_frames]
      split
      · exact unresolved_skipsTo sc request.method
      · refine .bind fun result? => ?_
        cases result? with
        | none => exact .inr ⟨unresolved_skipsTo sc _, fun _ _ h => Frame.callMember_none h⟩
        | some result => exact .inl rfl

theorem appendAll_under (x : Strictness) (slot : Slot) (element : ValueType) (index : Nat)
    (items : List Value) :
    appendAll host (sc.under x) slot element index items =
      appendAll host sc slot element index items := by
  induction items generalizing index with
  | nil => rfl
  | cons v rest ih =>
      simp only [appendAll, ih]
      rfl

theorem insertAll_under (x : Strictness) (slot : Slot) (value : ValueType) (t : Table) :
    insertAll host (sc.under x) slot value t = insertAll host sc slot value t := by
  induction t with
  | nil => rfl
  | cons e rest ih =>
      simp only [insertAll, ih]
      rfl

theorem settableStep_skipsTo (f : Field σ) :
    SkipsTo .done (settableStep host (sc.under .strict) shape self f key v)
      (settableStep host (sc.under .lenient) shape self f key v) := by
  unfold settableStep
  simp only [appendAll_under, insertAll_under]
  split
  · exact .refl _ _
  · exact .refl _ _
  · exact .refl _ _
  · exact .refl _ _
  · refine .readExcept fun target => ?_
    split
    · exact .refl _ _
    · exact unsetObject_skipsTo sc shape _
    · exact .refl _ _
  · exact .refl _ _

theorem readOnlyStep_under (x : Strictness) (f : Field σ) :
    readOnlyStep host (sc.under x) shape self f v = readOnlyStep host sc shape self f v := by
  unfold readOnlyStep
  simp only [appendAll_under, insertAll_under]
  rfl

/-- Under both strictnesses a key does the same, unless strict mode refuses it where lenient mode
leaves it out. -/
theorem keyStep_skipsTo (hs : host.Steady) :
    SkipsTo .done (keyStep host (sc.under .strict) shape self key v)
      (keyStep host (sc.under .lenient) shape self key v) := by
  unfold keyStep
  split
  · exact (dispatch_skipsTo sc shape self v).andThen _
  · exact settableStep_skipsTo sc shape self key v _
  · rw [readOnlyStep_under, readOnlyStep_under]
    exact .refl _ _
  · exact (memberStep_skipsTo sc shape self key v hs).andThen _

end Step

end BuildReplay

import BuildReplay.Android.Project
import BuildReplay.Proofs.Android.Refusal

/-! # Callbacks for variants are not refused

Builders and variants have no members and hold no objects, so a table for one of them is never
refused by the host; and a callback that was registered for a point is fired with the payloads of
that point. -/

namespace BuildReplay.Android

open Act Law

/-- The object is one that callbacks are fired with. -/
def IsPayload (r : ObjectRef) : Prop :=
  r.type = beforeVariants.payload ∨ r.type = onVariants.payload

namespace IsPayload

variable {r : ObjectRef} (h : IsPayload r)

theorem of_point {point : CallbackPoint} (hpoint : point ∈ applicationComponents.points)
    (hr : r.type = point.payload) : IsPayload r := by
  rcases List.mem_cons.1 hpoint with rfl | hpoint
  · exact .inl hr
  · cases List.mem_singleton.1 hpoint
    exact .inr hr

include h

theorem ne_application : r.type ≠ typeRef ApplicationExtension := by
  rcases h with h | h <;> rw [h] <;> exact of_decide_eq_false rfl

theorem ne_buildType : r.type ≠ typeRef BuildType := by
  rcases h with h | h <;> rw [h] <;> exact of_decide_eq_false rfl

theorem shape?_isSome : (shape? r.type).isSome := by
  rcases h with h | h <;> rw [h] <;> rfl

theorem overloads_eq_nil {shape : Shape Model} (hshape : shape? r.type = some shape) (name : String)
    (arity : Nat) : shape.overloads name arity = [] := by
  rcases h with h | h <;> rw [h] at hshape <;> cases hshape <;> rfl

end IsPayload

/-- What is known of a task that the walk over the table of a callback comes to. -/
def AtPayload (r : ObjectRef) : Task Model × Model → Prop
  | (.next _ .done _, _) => True
  | (.next sc (.object r') _, _) => r' = r ∧ sc.frames = []
  | (.entries sc shape self _, _) =>
    self = r ∧ shape? r.type = some shape ∧ sc.frames = [.object r shape]
  | _ => False

section Payload

variable {r : ObjectRef} (hr : IsPayload r)
include hr

omit hr in
theorem modelled_payload {sc : Scope Model} {shape : Shape Model} (hshape : shape? r.type = some shape)
    (hframes : sc.frames = [.object r shape]) : Modelled sc where
  object hmem := by
    rw [hframes] at hmem
    cases List.mem_singleton.1 hmem
    exact hshape
  collection hmem := by
    rw [hframes] at hmem
    cases List.mem_singleton.1 hmem

theorem AtPayload.leads {c c' : Task Model × Model} (h : Task.Leads host c c')
    (hc : AtPayload r c) : AtPayload r c' := by
  cases h with
  | @key sc shape self key v rest m goal m' hkey =>
      obtain ⟨rfl, hshape, hframes⟩ := hc
      have hsc : Modelled (sc.key key) := modelled_payload hshape hframes
      rw [(keyStep_leaf hsc hshape hr.ne_application hkey).1]
      trivial
  | keys hkey hwalk => exact hc
  | object hshape =>
      obtain ⟨rfl, hframes⟩ := hc
      exact ⟨rfl, (host_shapeOf_gives.1 hshape).1, congrArg (_ :: ·) hframes⟩
  | elements => exact hc.elim
  | element hcreate => exact hc.elim
  | others hcreate hwalk => exact hc.elim

theorem AtPayload.not_host_error {task : Task Model} {m : Model} {message : String}
    (hc : AtPayload r (task, m)) : ¬task.Fails host m (.host message) := by
  intro h
  generalize he : Error.host message = e at h
  cases h with
  | @key sc shape self key v rest _ _ m' hkey =>
      subst he
      obtain ⟨rfl, hshape, hframes⟩ := hc
      have hsc : Modelled (sc.key key) := modelled_payload hshape hframes
      have htrue : ∀ {m m' : Model}, m.Edits m' → True → True := fun _ => id
      rcases hsc.refused htrue hshape trivial hkey with hcall | ⟨-, hdispatch⟩
      · obtain ⟨-, -, -, -, -, -, -, -, -, -, ⟨b, -, rfl, -⟩, -⟩ := hcall
        exact hr.ne_buildType rfl
      · obtain ⟨request, _, _, _, frame, f, _, _, _, _, _, _, hfind, _⟩ := hdispatch
        obtain ⟨hframe, hmember⟩ := mem_of_findMember? hfind
        rw [show (sc.key key).frames = _ from hframes] at hframe
        cases List.mem_singleton.1 hframe
        rw [Frame.findMember?, Frame.overloads, hr.overloads_eq_nil hshape] at hmember
        cases hmember
  | @object sc r' entries _ _ m' hshapeOf =>
      obtain ⟨rfl, -⟩ := hc
      obtain ⟨shape, hshape⟩ := Option.isSome_iff_exists.1 hr.shape?_isSome
      exact absurd hshapeOf (shapeOf_succeeds hshape).not_raises
  | element _ => exact hc
  | entry _ => cases he

/-- A table for a payload is never refused by the host. -/
theorem replay_payload {options : Options} {start : String} {t : Table} {m m' : Model}
    {message : String} : ¬(replay host options start t r).Raises m (.host message) m' := by
  intro h
  obtain ⟨⟨task, m₁⟩, hreaches, hfails⟩ := Task.replay_breaks h
  have hstart : AtPayload r (.document options start t r, m) := ⟨rfl, rfl⟩
  exact (hreaches.keeps (fun _ _ => AtPayload.leads hr) hstart).not_host_error hr hfails

end Payload

/-! ## Registered callbacks -/

/-- The registration is one for a point, and replays a table onto the payloads of the point. -/
def Fits (r : Registration) : Prop :=
  ∃ point ∈ applicationComponents.points, r.point = point.name ∧
    ∃ path options body, r.callback = .replay path point.payload options body

/-- A point is determined by its name. -/
theorem points_determined {p q : CallbackPoint} (hp : p ∈ applicationComponents.points)
    (hq : q ∈ applicationComponents.points) (h : p.name = q.name) : p = q := by
  have hall : ∀ p ∈ applicationComponents.points, ∀ q ∈ applicationComponents.points,
      p.name = q.name → p = q := by decide
  exact hall p hp q hq h

/-- The law of acts that are not refused by the host. -/
def unrefused (σ : Type) : Law σ :=
  keeps (fun _ => True) fun e => ∀ message, e ≠ .host message

/-- Registered callbacks are not refused. -/
theorem fire_unrefused {point : CallbackPoint} (hpoint : point ∈ applicationComponents.points)
    {payload : ObjectRef} (hpayload : payload.type = point.payload) (name : String)
    {registrations : List Registration} (h : ∀ r ∈ registrations, Fits r) :
    (unrefused Model).Obeys (fire host point.name name payload registrations) := by
  induction registrations with
  | nil => exact Law.pure _ _
  | cons r rest ih =>
      obtain ⟨hr, hrest⟩ := List.forall_mem_cons.1 h
      simp only [fire]
      split
      · rename_i hselects
        refine andThen ?_ fun _ => ih hrest
        obtain ⟨point', hpoint', hname, path, options, body, hcallback⟩ := hr
        have hname' : r.point = point.name := by
          simpa using (Bool.and_eq_true_iff.1 hselects).1
        obtain rfl := points_determined hpoint' hpoint (hname.symm.trans hname')
        rw [hcallback, Callback.run, if_pos hpayload]
        exact fun m _ => ⟨trivial, fun e m' he message heq =>
          replay_payload (.of_point hpoint hpayload) (heq ▸ he)⟩
      · exact ih hrest

theorem runVariants_unrefused {registrations : List Registration}
    (h : ∀ r ∈ registrations, Fits r) (names : List String) :
    (unrefused Model).Obeys (runVariants registrations names) := by
  have hrun : ∀ {α : Type} (f : Model → α × Model), (unrefused Model).Obeys (.run f) :=
    fun f m _ => ⟨trivial, fun _ _ he => by cases he⟩
  have hbefore : beforeVariants ∈ applicationComponents.points := List.mem_cons_self
  have hon : onVariants ∈ applicationComponents.points :=
    List.mem_cons_of_mem _ List.mem_cons_self
  induction names with
  | nil => exact Law.pure _ _
  | cons name rest ih =>
      simp only [runVariants]
      refine andThen (hrun _) fun builder => ?_
      refine andThen (fire_unrefused hbefore rfl name h) fun _ => ?_
      refine andThen (keeps_read _) fun enabled => ?_
      split
      · refine andThen (hrun _) fun variant => ?_
        refine andThen (fire_unrefused hon rfl name h) fun _ => ?_
        exact andThen ih fun _ => Law.pure _ _
      · exact ih

end BuildReplay.Android

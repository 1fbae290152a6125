import BuildReplay.Proofs.Act
import BuildReplay.Proofs.Lens
import Mathlib.Algebra.BigOperators.Group.List.Lemmas
import Mathlib.Algebra.Group.Submonoid.BigOperators
import Mathlib.Data.List.Forall2

/-! # Acts that do the same everywhere

Some acts end with one result and make one change, whatever state they start in. Then acts whose
changes commute can be taken in any order, and whether all of them succeed does not depend on the
order either. -/

namespace BuildReplay

/-- How a change of contents shows in the states of a host. The states are looked at from an index,
such as the object whose contents are meant. -/
structure Track (ι σ γ : Type) where
  /-- The states to start from. -/
  Start : ι → σ → Prop
  /-- The contents of the second state are those of the first one, changed. -/
  Moves : Function.End γ → ι → σ → σ → Prop
  start : ∀ {f i s s'}, Start i s → Moves f i s s' → Start i s'
  one : ∀ {i s}, Start i s → Moves 1 i s s
  mul : ∀ {f g i s s₁ s'}, Moves f i s s₁ → Moves g i s₁ s' → Moves (g * f) i s s'

/-- Acts for the items of a list, one after the other. -/
def inOrder {σ β : Type} (step : β → Act σ Unit) : List β → Act σ Unit
  | [] => pure ()
  | b :: rest => do step b; inOrder step rest

theorem inOrder_append {σ β : Type} (step : β → Act σ Unit) (t u : List β) :
    inOrder step (t ++ u) = (do inOrder step t; inOrder step u) := by
  induction t with
  | nil => rfl
  | cons b t ih => simp only [List.cons_append, inOrder, ih, bind_assoc]

/-- Where every step succeeds from every state, so do all of them in order. -/
theorem inOrder_succeeds {σ β : Type} {step : β → Act σ Unit}
    (hstep : ∀ b s, ∃ s', (step b).Gives s () s') (t : List β) (s : σ) :
    ∃ s', (inOrder step t).Gives s () s' := by
  induction t generalizing s with
  | nil => exact ⟨s, rfl⟩
  | cons b t ih =>
      obtain ⟨s₁, hb⟩ := hstep b s
      obtain ⟨s', ht⟩ := ih s₁
      exact ⟨s', Act.bind_gives.2 ⟨(), s₁, hb, ht⟩⟩

/-- Where every step takes what is observed on by a function, all steps in order take it on by the
fold. -/
theorem inOrder_foldl {σ β τ : Type} {I : σ → Prop} {observe : σ → τ} {next : τ → β → τ}
    {step : β → Act σ Unit} (hstep : ∀ {b s s'}, I s → (step b).Gives s () s' →
      I s' ∧ observe s' = next (observe s) b) {t : List β} {s s' : σ} (hs : I s)
    (h : (inOrder step t).Gives s () s') : I s' ∧ observe s' = t.foldl next (observe s) := by
  induction t generalizing s with
  | nil =>
      obtain ⟨-, rfl⟩ := Act.pure_gives.1 h
      exact ⟨hs, rfl⟩
  | cons b t ih =>
      obtain ⟨_, s₁, hb, ht⟩ := Act.bind_gives.1 h
      obtain ⟨hs₁, hfirst⟩ := hstep hs hb
      rw [List.foldl_cons, ← hfirst]
      exact ih hs₁ ht

namespace Track

variable {ι σ γ α β : Type} (T : Track ι σ γ)

/-- From every start, the act ends with the result and makes the change. -/
def Does (x : ι → Act σ α) (r : Except Error α) (f : Function.End γ) : Prop :=
  ∀ i s, T.Start i s → ∃ s', x i s = (r, s') ∧ T.Moves f i s s'

/-- Two acts end with the same value and make the same change, or end with errors both. Neither
depends on the state they start in, and all changes are in `K`. -/
inductive Alike (K : Submonoid (Function.End γ)) (x y : ι → Act σ α) : Prop where
  | ok {a f} : f ∈ K → T.Does x (.ok a) f → T.Does y (.ok a) f → Alike K x y
  | error {e e' f f'} : f ∈ K → f' ∈ K → T.Does x (.error e) f → T.Does y (.error e') f' →
      Alike K x y

variable {T}

/-! ## Single acts -/

namespace Does

variable {x : ι → Act σ α} {y : α → ι → Act σ β} {a : α} {r : Except Error β} {e : Error}
  {f g : Function.End γ}

theorem ofExcept (r : Except Error α) : T.Does (fun _ => .ofExcept r) r 1 :=
  fun _ s hs => ⟨s, rfl, T.one hs⟩

theorem pure (a : α) : T.Does (fun _ => pure a) (.ok a) 1 := ofExcept (.ok a)

theorem throw (e : Error) : T.Does (fun _ => (throw e : Act σ α)) (.error e) 1 := ofExcept (.error e)

theorem bind (hx : T.Does x (.ok a) f) (hy : T.Does (y a) r g) :
    T.Does (fun i => x i >>= fun a => y a i) r (g * f) := by
  intro i s hs
  obtain ⟨s₁, hrun, hmoves⟩ := hx i s hs
  obtain ⟨s', hrun', hmoves'⟩ := hy i s₁ (T.start hs hmoves)
  exact ⟨s', (Act.Gives.bind_eq hrun fun a => y a i).trans hrun', T.mul hmoves hmoves'⟩

theorem bind_error (hx : T.Does x (.error e) f) :
    T.Does (fun i => x i >>= fun a => y a i) (.error e) f := by
  intro i s hs
  obtain ⟨s', hrun, hmoves⟩ := hx i s hs
  exact ⟨s', Act.Raises.bind hrun fun a => y a i, hmoves⟩

end Does

namespace Alike

variable {K K' : Submonoid (Function.End γ)} {x x' : ι → Act σ α} {y y' : α → ι → Act σ β}

theorem mono (h : T.Alike K x x') (hK : ∀ f ∈ K, f ∈ K') : T.Alike K' x x' := by
  cases h with
  | ok hf hx hx' => exact .ok (hK _ hf) hx hx'
  | error hf hf' hx hx' => exact .error (hK _ hf) (hK _ hf') hx hx'

theorem exists_does_left (h : T.Alike K x x') : ∃ r, ∃ f ∈ K, T.Does x r f := by
  cases h with
  | ok hf hx _ => exact ⟨_, _, hf, hx⟩
  | error hf _ hx _ => exact ⟨_, _, hf, hx⟩

theorem exists_does_right (h : T.Alike K x x') : ∃ r, ∃ f ∈ K, T.Does x' r f := by
  cases h with
  | ok hf _ hx' => exact ⟨_, _, hf, hx'⟩
  | error _ hf' _ hx' => exact ⟨_, _, hf', hx'⟩

theorem pure (a : α) : T.Alike K (fun _ => pure a) fun _ => pure a :=
  .ok K.one_mem (.pure a) (.pure a)

theorem throw (e e' : Error) :
    T.Alike K (fun _ => (throw e : Act σ α)) fun _ => throw e' :=
  .error K.one_mem K.one_mem (.throw e) (.throw e')

/-- Of a pure computation, only the value counts. -/
theorem ofExcept {r r' : Except Error α} (h : r.toOption = r'.toOption) :
    T.Alike K (fun _ => .ofExcept r) fun _ => .ofExcept r' := by
  cases r with
  | ok a =>
      cases r' with
      | ok a' =>
          obtain rfl : a = a' := Option.some.inj h
          exact .ok K.one_mem (.pure a) (.pure a)
      | error e' => cases h
  | error e =>
      cases r' with
      | ok a' => cases h
      | error e' => exact .throw e e'

theorem bind (hx : T.Alike K x x') (hy : ∀ a, T.Alike K (y a) (y' a)) :
    T.Alike K (fun i => x i >>= fun a => y a i) fun i => x' i >>= fun a => y' a i := by
  cases hx with
  | @ok a f hf hx hx' =>
      cases hy a with
      | ok hg hy hy' => exact .ok (K.mul_mem hg hf) (hx.bind hy) (hx'.bind hy')
      | error hg hg' hy hy' =>
          exact .error (K.mul_mem hg hf) (K.mul_mem hg' hf) (hx.bind hy) (hx'.bind hy')
  | error hf hf' hx hx' => exact .error hf hf' hx.bind_error hx'.bind_error

/-- Acts are alike where their changes show as changes of other contents. -/
theorem lift {ι' γ' : Type} {T' : Track ι' σ γ'} {K' : Submonoid (Function.End γ')}
    {z z' : ι' → Act σ α} (h : T.Alike K x x')
    (hlift : ∀ f ∈ K, ∃ g ∈ K', (∀ r, T.Does x r f → T'.Does z r g) ∧
      ∀ r, T.Does x' r f → T'.Does z' r g) :
    T'.Alike K' z z' := by
  cases h with
  | ok hf hx hx' =>
      obtain ⟨g, hg, hz, hz'⟩ := hlift _ hf
      exact .ok hg (hz _ hx) (hz' _ hx')
  | error hf hf' hx hx' =>
      obtain ⟨g, hg, hz, -⟩ := hlift _ hf
      obtain ⟨g', hg', -, hz'⟩ := hlift _ hf'
      exact .error hg hg' (hz _ hx) (hz' _ hx')

end Alike

/-! ## Acts in order -/

theorem forall_left {R : α → Prop} {t : List α} {u : List β}
    (h : List.Forall₂ (fun a _ => R a) t u) : ∀ a ∈ t, R a := by
  induction h with
  | nil => exact fun _ ha => absurd ha List.not_mem_nil
  | cons ha _ ih => exact List.forall_mem_cons.2 ⟨ha, ih⟩

theorem forall_right {R : β → Prop} {t : List α} {u : List β}
    (h : List.Forall₂ (fun _ b => R b) t u) : ∀ b ∈ u, R b := by
  induction h with
  | nil => exact fun _ hb => absurd hb List.not_mem_nil
  | cons hb _ ih => exact List.forall_mem_cons.2 ⟨hb, ih⟩

section InOrder

variable {step : β → ι → Act σ Unit} {t u t' : List β} {K' : Submonoid (Function.End γ)}

theorem Alike.inOrder (h : List.Forall₂ (fun b b' => T.Alike K' (step b) (step b')) t u) :
    T.Alike K' (fun i => BuildReplay.inOrder (step · i) t)
      fun i => BuildReplay.inOrder (step · i) u := by
  induction h with
  | nil => exact .pure ()
  | cons hb _ ih => exact hb.bind fun _ => ih

/-- Where every act succeeds, the sequence makes the changes of all, the last one outermost. -/
theorem does_inOrder {fs : List (Function.End γ)}
    (h : List.Forall₂ (fun b f => T.Does (step b) (.ok ()) f) t fs) :
    T.Does (fun i => inOrder (step · i) t) (.ok ()) fs.reverse.prod := by
  induction h with
  | nil => exact .pure ()
  | cons hb _ ih =>
      rw [List.reverse_cons, List.prod_append, List.prod_singleton]
      exact hb.bind ih

/-- Where some act fails, the sequence does. -/
theorem does_inOrder_error (hall : ∀ b ∈ t, ∃ r, ∃ f ∈ K', T.Does (step b) r f) {b : β} (hb : b ∈ t)
    {e : Error} {f : Function.End γ} (hf : f ∈ K') (he : T.Does (step b) (.error e) f) :
    ∃ e, ∃ f ∈ K', T.Does (fun i => inOrder (step · i) t) (.error e) f := by
  induction t with
  | nil => exact absurd hb List.not_mem_nil
  | cons c t ih =>
      obtain ⟨hc, hrest⟩ := List.forall_mem_cons.1 hall
      rcases List.mem_cons.1 hb with rfl | hb
      · exact ⟨e, f, hf, he.bind_error⟩
      · obtain ⟨r, g, hg, hdoes⟩ := hc
        cases r with
        | error e' => exact ⟨e', g, hg, hdoes.bind_error⟩
        | ok _ =>
            obtain ⟨e', g', hg', hlater⟩ := ih hrest hb
            exact ⟨e', g' * g, K'.mul_mem hg' hg, hdoes.bind hlater⟩

variable {K : β → Submonoid (Function.End γ)}

/-- Either all of the acts succeed, with the same changes on both sides, or some fail on each. -/
theorem changes_of_alike (h : List.Forall₂ (fun b b' => T.Alike (K b) (step b) (step b')) t u)
    (hK : ∀ b ∈ t, K b ≤ K') :
    (∃ fs : List (Function.End γ),
      List.Forall₂ (fun b f => f ∈ K b ∧ T.Does (step b) (.ok ()) f) t fs ∧
      List.Forall₂ (fun b f => T.Does (step b) (.ok ()) f) u fs) ∨
    (∃ b ∈ t, ∃ e, ∃ f ∈ K', T.Does (step b) (.error e) f) ∧
      ∃ b ∈ u, ∃ e, ∃ f ∈ K', T.Does (step b) (.error e) f := by
  induction h with
  | nil => exact .inl ⟨[], .nil, .nil⟩
  | @cons b b' t u hb _ ih =>
      obtain ⟨hKb, hK⟩ := List.forall_mem_cons.1 hK
      cases hb with
      | error hf hf' hx hy =>
          exact .inr ⟨⟨b, List.mem_cons_self, _, _, hKb hf, hx⟩,
            ⟨b', List.mem_cons_self, _, _, hKb hf', hy⟩⟩
      | @ok _ f hf hx hy =>
          rcases ih hK with ⟨fs, ht, hu⟩ | ⟨⟨c, hc, hct⟩, c', hc', hcu⟩
          · exact .inl ⟨f :: fs, .cons ⟨hf, hx⟩ ht, .cons hy hu⟩
          · exact .inr ⟨⟨c, List.mem_cons_of_mem b hc, hct⟩, c', List.mem_cons_of_mem b' hc', hcu⟩

theorem pairwise_commute {fs : List (Function.End γ)}
    (h : List.Forall₂ (fun b f => f ∈ K b) t fs)
    (hcommute : t.Pairwise fun b b' => ∀ f ∈ K b, ∀ g ∈ K b', Commute f g) :
    fs.Pairwise Commute := by
  induction h with
  | nil => exact .nil
  | @cons b f t fs hf hrest ih =>
      obtain ⟨hhead, htail⟩ := List.pairwise_cons.1 hcommute
      refine List.pairwise_cons.2 ⟨?_, ih htail⟩
      have hboth := (List.forall₂_and_left _ _).2 ⟨hhead, hrest⟩
      exact forall_right (hboth.imp fun c g hg => hg.1 f hf g hg.2)

/-- Acts whose changes commute are taken in another order. -/
theorem Alike.inOrder_perm
    (h : List.Forall₂ (fun b b' => T.Alike (K b) (step b) (step b')) t u) (hperm : u.Perm t')
    (hcommute : t.Pairwise fun b b' => ∀ f ∈ K b, ∀ g ∈ K b', Commute f g)
    (hK : ∀ b ∈ t, K b ≤ K') :
    T.Alike K' (fun i => BuildReplay.inOrder (step · i) t)
      fun i => BuildReplay.inOrder (step · i) t' := by
  have hK₂ := (List.forall₂_and_left _ _).2 ⟨hK, h⟩
  rcases changes_of_alike h hK with
    ⟨fs, ht, hu⟩ | ⟨⟨b, hb, e, f, hf, hbe⟩, c, hc, e', f', hf', hce⟩
  · obtain ⟨fs', ht', hperm'⟩ := List.perm_comp_forall₂ hperm.symm hu
    have hmem : List.Forall₂ (fun b f => f ∈ K b) t fs := ht.imp fun _ _ hf => hf.1
    have hprod : fs'.reverse.prod = fs.reverse.prod := by
      refine (List.Perm.prod_eq' ?_ ?_).symm
      · exact ((List.reverse_perm fs).trans hperm'.symm).trans (List.reverse_perm fs').symm
      · exact List.pairwise_reverse.2 ((pairwise_commute hmem hcommute).imp fun hfg => hfg.symm)
    have hin : fs.reverse.prod ∈ K' := by
      refine Submonoid.list_prod_mem K' fun f hf => ?_
      have hboth := (List.forall₂_and_left _ _).2 ⟨hK, hmem⟩
      exact forall_right (hboth.imp fun c g hg => hg.1 hg.2) f (List.mem_reverse.1 hf)
    exact .ok hin (does_inOrder (ht.imp fun _ _ hf => hf.2)) (hprod ▸ does_inOrder ht')
  · have halike : List.Forall₂ (fun b b' => T.Alike K' (step b) (step b')) t u :=
      hK₂.imp fun _ _ hbc => hbc.2.mono hbc.1
    have hleft : ∀ b ∈ t, ∃ r, ∃ f ∈ K', T.Does (step b) r f :=
      forall_left (halike.imp fun _ _ hbc => hbc.exists_does_left)
    have hright : ∀ b ∈ t', ∃ r, ∃ f ∈ K', T.Does (step b) r f := fun b hb =>
      forall_right (halike.imp fun _ _ hbc => hbc.exists_does_right) b (hperm.mem_iff.2 hb)
    obtain ⟨_, _, hg, ht⟩ := does_inOrder_error hleft hb hf hbe
    obtain ⟨_, _, hg', hu⟩ := does_inOrder_error hright (hperm.mem_iff.1 hc) hf' hce
    exact .error hg hg' ht hu

end InOrder

end Track

end BuildReplay

import BuildReplay.Android.Project
import BuildReplay.Proofs.Enclosure

/-! # Scopes on a stack

A mapper keeps the frames and the path of its key in one place. It pushes a frame or a key before it
goes on with a table, and pops it afterwards, also when there was an error. The walk hands scopes
down instead; both come to the same, and the mapper leaves its scope as it found it. -/

namespace BuildReplay

open Act

variable {σ α : Type}

/-- A key that a mapper processes. -/
structure Visit (σ : Type) where
  /-- The frames and the path of the mapper at that time. -/
  scope : Scope σ
  state : σ
  /-- What the key is applied to: an object, or a collection with an element of its name. -/
  target : Next
  key : String
  value : Value

/-- A mapper at work on a host. -/
structure Mapper (σ : Type) where
  scope : Scope σ
  host : σ
  /-- The keys that were processed so far. -/
  visits : List (Visit σ)

namespace Mapper

def pushFrame (f : Frame σ) (m : Mapper σ) : Mapper σ := { m with scope := m.scope.enter f }

def popFrame (m : Mapper σ) : Mapper σ :=
  { m with scope := { m.scope with frames := m.scope.frames.tail } }

def pushKey (key : String) (m : Mapper σ) : Mapper σ := { m with scope := m.scope.key key }

def popKey (m : Mapper σ) : Mapper σ :=
  { m with scope := { m.scope with path := m.scope.path.dropLast } }

/-- An act between a push and a pop; the pop comes after an error as well. -/
def between (push pop : Mapper σ → Mapper σ) (x : Act (Mapper σ) α) : Act (Mapper σ) α := fun m =>
  let (r, m) := x (push m)
  (r, pop m)

/-- An act of the host in the scope that the mapper is in. -/
def within (x : Scope σ → Act σ α) : Act (Mapper σ) α := fun m =>
  let (r, s) := x m.scope m.host
  (r, { m with host := s })

def record (target : Next) (key : String) (v : Value) : Act (Mapper σ) Unit :=
  .modify fun m => { m with visits := m.visits ++ [⟨m.scope, m.host, target, key, v⟩] }

mutual

/-- Goes on with the table of a key after its step. -/
def parseNext (host : Host σ) (next : Next) : Value → Act (Mapper σ) Unit
  | .table entries =>
    match next with
    | .done => pure ()
    | .object r => do
      let shape ← within fun _ => host.shapeOf r.type
      between (pushFrame (.object r shape)) popFrame (parseEntries host shape r entries)
    | .elements element slot => parseElements host element slot entries
  | _ => pure ()

/-- Applies the keys of a table to an object. -/
def parseEntries (host : Host σ) (shape : Shape σ) (self : ObjectRef) :
    List (String × Value) → Act (Mapper σ) Unit
  | [] => pure ()
  | (key, v) :: rest => do
    between (pushKey key) popKey do
      record (.object self) key v
      let next ← within fun sc => keyStep host sc shape self key v
      parseNext host next v
    parseEntries host shape self rest

/-- Makes the elements of a collection that are missing, and applies the table of each of them. -/
def parseElements (host : Host σ) (element : TypeRef) (slot : Slot) :
    List (String × Value) → Act (Mapper σ) Unit
  | [] => pure ()
  | (name, v) :: rest => do
    between (pushKey name) popKey do
      record (.elements element slot) name v
      if v.isTable then
        let r ← within fun _ => host.maybeCreate slot name
        between (pushFrame (.collection element slot)) popFrame (parseNext host (.object r) v)
      else
        within fun sc => throw <| .invalidDeclaration sc.keyPath
          ("expected a table for element `" ++ name ++ "`, found " ++ v.describe)
    parseElements host element slot rest

end

/-- Applies a table to an object. -/
def parse (host : Host σ) (t : Table) (r : ObjectRef) : Act (Mapper σ) Unit :=
  parseNext host (.object r) (.table t)

/-! ## Mappers and walks -/

/-- In a scope and a state of the host, the act comes to the same as one that is told the scope. It
leaves the scope as it was, and the keys that it processes are of the kind `P`. -/
def Follows (x : Act (Mapper σ) α) (sc : Scope σ) (s : σ) (y : Act σ α) (P : Visit σ → Prop) :
    Prop :=
  ∀ before, ∃ visits, x ⟨sc, s, before⟩ = ((y s).1, ⟨sc, (y s).2, before ++ visits⟩) ∧
    ∀ w ∈ visits, P w

namespace Follows

variable {β : Type} {x : Act (Mapper σ) α} {y : Act σ α} {sc : Scope σ} {s : σ}
  {P Q : Visit σ → Prop}

theorem mono (h : Follows x sc s y P) (hPQ : ∀ w, P w → Q w) : Follows x sc s y Q := by
  intro before
  obtain ⟨visits, hx, hvisits⟩ := h before
  exact ⟨visits, hx, fun w hw => hPQ w (hvisits w hw)⟩

theorem pure (a : α) : Follows (pure a) sc s (pure a) P :=
  fun before => ⟨[], by rw [List.append_nil]; rfl, by simp⟩

theorem within (f : Scope σ → Act σ α) : Follows (within f) sc s (f sc) P :=
  fun before => ⟨[], by rw [List.append_nil]; rfl, by simp⟩

/-- The acts after the first one start in the state that it leaves. -/
theorem bind {f : α → Act (Mapper σ) β} {g : α → Act σ β} (hx : Follows x sc s y P)
    (hf : ∀ a s', y.Gives s a s' → Follows (f a) sc s' (g a) P) :
    Follows (x >>= f) sc s (y >>= g) P := by
  intro before
  obtain ⟨visits, hx, hvisits⟩ := hx before
  rcases y.gives_or_raises s with ⟨a, s₁, hy⟩ | ⟨e, s₁, hy⟩
  · obtain ⟨later, hfa, hlater⟩ := hf a s₁ hy (before ++ visits)
    rw [show y s = (.ok a, s₁) from hy] at hx
    refine ⟨visits ++ later, ?_, fun w hw => ?_⟩
    · rw [Gives.bind_eq hx, hy.bind_eq, hfa, List.append_assoc]
    · exact (List.mem_append.1 hw).elim (hvisits w) (hlater w)
  · rw [show y s = (.error e, s₁) from hy] at hx
    refine ⟨visits, ?_, hvisits⟩
    rw [Raises.bind hx, hy.bind]

/-- A key is processed first of all. -/
theorem record {target : Next} {key : String} {v : Value} {f : Act (Mapper σ) α}
    (hkey : P ⟨sc, s, target, key, v⟩) (hf : Follows f sc s y P) :
    Follows (do Mapper.record target key v; f) sc s y P := by
  intro before
  obtain ⟨visits, hx, hvisits⟩ := hf (before ++ [⟨sc, s, target, key, v⟩])
  refine ⟨⟨sc, s, target, key, v⟩ :: visits, ?_, List.forall_mem_cons.2 ⟨hkey, hvisits⟩⟩
  rw [List.append_cons, ← hx]
  rfl

theorem inFrame {f : Frame σ} (h : Follows x (sc.enter f) s y P) :
    Follows (between (pushFrame f) popFrame x) sc s y P := by
  intro before
  obtain ⟨visits, hx, hvisits⟩ := h before
  refine ⟨visits, ?_, hvisits⟩
  simp only [between, pushFrame, hx]
  rfl

theorem atKey {key : String} (h : Follows x (sc.key key) s y P) :
    Follows (between (pushKey key) popKey x) sc s y P := by
  intro before
  obtain ⟨visits, hx, hvisits⟩ := h before
  refine ⟨visits, ?_, hvisits⟩
  simp only [between, pushKey, hx]
  simp [popKey, Scope.key]

end Follows

end Mapper

/-- The key is the first one of the task. -/
inductive Visit.Heads : Visit σ → Task σ × σ → Prop where
  | key {sc shape self key v rest s} :
      Heads ⟨sc.key key, s, .object self, key, v⟩ (.entries sc shape self ((key, v) :: rest), s)
  | name {sc element slot name v rest s} :
      Heads ⟨sc.key name, s, .elements element slot, name, v⟩
        (.elements sc element slot ((name, v) :: rest), s)

/-- In the course of the task, the walk comes to the key. -/
def Visit.ComesAfter (host : Host σ) (c : Task σ × σ) (w : Visit σ) : Prop :=
  ∃ c', Task.Reaches host c c' ∧ w.Heads c'

theorem Visit.ComesAfter.head {host : Host σ} {c c' : Task σ × σ} (hfirst : Task.Leads host c c')
    (w : Visit σ) (h : w.ComesAfter host c') : w.ComesAfter host c := by
  obtain ⟨c'', hreach, hheads⟩ := h
  exact ⟨c'', .head hfirst hreach, hheads⟩

namespace Mapper

variable (host : Host σ)

theorem parseNext_object (r : ObjectRef) (t : Table) :
    parseNext host (.object r) (.table t) = (do
      let shape ← within fun _ => host.shapeOf r.type
      between (pushFrame (.object r shape)) popFrame (parseEntries host shape r t)) := by
  rw [parseNext]

theorem parseNext_elements (element : TypeRef) (slot : Slot) (t : Table) :
    parseNext host (.elements element slot) (.table t) = parseElements host element slot t := by
  rw [parseNext]

variable {host}

theorem parseNext_follows {t : Table}
    (hentries : ∀ sc s shape self, Follows (parseEntries host shape self t) sc s
      (walkEntries host sc shape self t) (Visit.ComesAfter host (.entries sc shape self t, s)))
    (helements : ∀ sc s element slot, Follows (parseElements host element slot t) sc s
      (walkElements host sc element slot t)
      (Visit.ComesAfter host (.elements sc element slot t, s)))
    (sc : Scope σ) (s : σ) (next : Next) :
    Follows (parseNext host next (.table t)) sc s (walkNext host sc next (.table t))
      (Visit.ComesAfter host (.next sc next (.table t), s)) := by
  cases next with
  | done => exact Follows.pure ()
  | object r =>
      rw [parseNext_object, walkNext_object]
      refine (Follows.within fun _ => host.shapeOf r.type).bind fun shape s₁ hshape => ?_
      exact ((hentries _ s₁ shape r).mono (Visit.ComesAfter.head (.object hshape))).inFrame
  | elements element slot =>
      rw [parseNext_elements, walkNext_elements]
      exact (helements sc s element slot).mono (Visit.ComesAfter.head .elements)

/-- On every table, a mapper follows the walk in the scope that it is in. -/
theorem parse_follows (t : Table) :
    (∀ sc s shape self, Follows (parseEntries host shape self t) sc s
      (walkEntries host sc shape self t) (Visit.ComesAfter host (.entries sc shape self t, s))) ∧
    ∀ sc s element slot, Follows (parseElements host element slot t) sc s
      (walkElements host sc element slot t)
      (Visit.ComesAfter host (.elements sc element slot t, s)) := by
  induction t using Table.induct with
  | nil =>
      refine ⟨fun sc s shape self => ?_, fun sc s element slot => ?_⟩
      · rw [walkEntries_nil, parseEntries]
        exact Follows.pure ()
      · rw [walkElements_nil, parseElements]
        exact Follows.pure ()
  | cons key v rest hv hrest =>
      have hnext : ∀ sc s next, Follows (parseNext host next v) sc s (walkNext host sc next v)
          (Visit.ComesAfter host (.next sc next v, s)) := by
        intro sc s next
        cases v with
        | table t => exact parseNext_follows (hv t rfl).1 (hv t rfl).2 sc s next
        | _ => exact Follows.pure ()
      refine ⟨fun sc s shape self => ?_, fun sc s element slot => ?_⟩
      · rw [parseEntries, walkEntries_cons, ← bind_assoc (keyStep _ _ _ _ _ _)]
        refine Follows.bind ?_ fun _ s' hkey => ?_
        · refine Follows.atKey (Follows.record ⟨_, .refl, .key⟩ ?_)
          refine (Follows.within fun sc => keyStep host sc shape self key v).bind
            fun next s₁ hstep => ?_
          exact (hnext _ s₁ next).mono (Visit.ComesAfter.head (.key hstep))
        · obtain ⟨next, s₁, hstep, hwalk⟩ := bind_gives.1 hkey
          exact (hrest.1 sc s' shape self).mono (Visit.ComesAfter.head (.keys hstep hwalk))
      · rw [parseElements]
        by_cases htable : v.isTable
        · obtain ⟨body, rfl⟩ := Value.exists_of_isTable htable
          rw [walkElements_cons_table, ← bind_assoc (host.maybeCreate _ _), if_pos htable]
          refine Follows.bind ?_ fun _ s' helement => ?_
          · refine Follows.atKey (Follows.record ⟨_, .refl, .name⟩ ?_)
            refine (Follows.within fun _ => host.maybeCreate slot key).bind fun r s₁ hcreate => ?_
            exact ((hnext _ s₁ _).mono (Visit.ComesAfter.head (.element hcreate))).inFrame
          · obtain ⟨r, s₁, hcreate, hwalk⟩ := bind_gives.1 helement
            exact (hrest.2 sc s' element slot).mono
              (Visit.ComesAfter.head (.others hcreate hwalk))
        · have hfalse : v.isTable = false := by simpa using htable
          rw [walkElements_cons_of_not_table _ _ _ _ _ _ hfalse, if_neg htable]
          refine Follows.bind (g := fun _ => walkElements host sc element slot rest) ?_
            fun _ s' hthrow => absurd hthrow not_throw_gives
          exact Follows.atKey (Follows.record ⟨_, .refl, .name⟩ (Follows.within _))

end Mapper

/-! ## Balance -/

/-- What a mapper has around a key: the frames of the objects that enclose it and the frames that it
started with, and nothing that could be named without them. -/
structure Visit.Surrounded (host : Host σ) (start : Task σ × σ) (outer : Scope σ) (w : Visit σ)
    (es : List (Enclosure σ)) : Prop where
  /-- The key is one of a table of the document, and the scope is that of its place. -/
  place : ∃ path t, Enclosed host start es path w.target t ∧ (w.key, w.value) ∈ t ∧
    w.scope = outer.inside es (path ++ [w.key])
  /-- The innermost frame is that of the object that is being populated. -/
  innermost : ∃ e rest, es = e :: rest ∧ w.scope.frames.head? = some (.object e.self e.shape) ∧
    ∀ r, w.target = .object r → r = e.self
  /-- A text names nothing but an element of a collection around the key. -/
  names : ∀ name type text live s s',
    (resolveSymbol host (.string name) type text w.scope.frames).Gives s (some live) s' →
      ∃ element slot r, live = .object r ∧ (host.getByName slot name).Gives s' (some r) s' ∧
        ((∃ e ∈ es, e.collection? = some (element, slot)) ∨
          .collection element slot ∈ outer.frames)
  /-- A member is one of an object around the key. -/
  members : ∀ name arity f m, findMember? name arity w.scope.frames = some (f, m) →
    (∃ e ∈ es, f = .object e.self e.shape) ∨ f ∈ outer.frames

theorem Visit.surrounded_of_place {host : Host σ} {start : Task σ × σ} {outer : Scope σ}
    {w : Visit σ} {es : List (Enclosure σ)} {path : List String} {t : Table}
    (henclosed : Enclosed host start es path w.target t) (hmem : (w.key, w.value) ∈ t)
    (hscope : w.scope = outer.inside es (path ++ [w.key])) :
    w.Surrounded host start outer es where
  place := ⟨path, t, henclosed, hmem, hscope⟩
  innermost := by
    obtain ⟨e, rest, rfl, hself⟩ := henclosed.exists_innermost
    exact ⟨e, rest, rfl, by rw [hscope]; rfl, hself⟩
  names name type text live s s' h := Scope.resolveSymbol_inside (hscope ▸ h)
  members name arity f m h := Scope.findMember?_inside (hscope ▸ h)

theorem Visit.exists_surrounded {host : Host σ} {sc : Scope σ} {r : ObjectRef} {t : Table} {s : σ}
    {w : Visit σ} (h : w.ComesAfter host (.next sc (.object r) (.table t), s)) :
    ∃ es, w.Surrounded host (.next sc (.object r) (.table t), s) sc es := by
  obtain ⟨c, hreach, hheads⟩ := h
  have hstands := hreach.stands
  cases hheads with
  | key =>
      cases hstands with
      | @entries _ e es path t _ _ henclosed hsuffix hsc =>
          exact ⟨e :: es, surrounded_of_place henclosed (hsuffix.subset List.mem_cons_self)
            (by rw [hsc, Task.inside_key])⟩
  | name =>
      cases hstands with
      | @elements _ _ _ es path t _ _ henclosed hsuffix hsc =>
          exact ⟨es, surrounded_of_place henclosed (hsuffix.subset List.mem_cons_self)
            (by rw [hsc, Task.inside_key])⟩

/-- Pushes and pops are balanced, whatever the outcome: a mapper ends as the walk does, in the scope
that it started in. Around each key that it processes, it has the frames of what encloses the key,
and nothing else can be named there. -/
theorem Mapper.parse_balanced (host : Host σ) (t : Table) (r : ObjectRef) (m : Mapper σ) :
    (parse host t r m).2.scope = m.scope ∧
    ((parse host t r m).1, (parse host t r m).2.host) = populate host m.scope r t m.host ∧
    ∃ visits, (parse host t r m).2.visits = m.visits ++ visits ∧
      ∀ w ∈ visits, ∃ es,
        w.Surrounded host (.next m.scope (.object r) (.table t), m.host) m.scope es := by
  obtain ⟨visits, hparse, hvisits⟩ :=
    parseNext_follows (parse_follows t).1 (parse_follows t).2 m.scope m.host (.object r) m.visits
  have hparse : parse host t r m = _ := hparse
  rw [hparse]
  exact ⟨rfl, rfl, visits, rfl, fun w hw => Visit.exists_surrounded (hvisits w hw)⟩

/-- The third key of a document is a setting of a build type. -/
theorem Mapper.parse_balanced_debug :
    let t : Table := [("buildTypes", .table [("debug", .table [("minifyEnabled", .boolean true)])])]
    let m : Mapper Android.Model := ⟨.top ⟨.strict, ⟨"/"⟩⟩ "android",
      (Android.ApplicationExtension.create ⟨"/"⟩ .empty).2, []⟩
    let r : Ref Android.ApplicationExtension := ⟨0⟩
    ∃ w, (parse Android.host t r.object m).2.visits[2]? = some w ∧ w.key = "minifyEnabled" ∧
      ∃ es, w.Surrounded Android.host (.next m.scope (.object r.object) (.table t), m.host) m.scope
        es := by
  intro t m r
  obtain ⟨-, -, visits, hvisits, hsurrounded⟩ := parse_balanced Android.host t r.object m
  have hthird : ∃ w, (parse Android.host t r.object m).2.visits[2]? = some w ∧
      w.key = "minifyEnabled" := ⟨_, rfl, rfl⟩
  obtain ⟨w, hw, hkey⟩ := hthird
  refine ⟨w, hw, hkey, hsurrounded w ?_⟩
  rw [hvisits] at hw
  exact List.mem_of_getElem? hw

end BuildReplay

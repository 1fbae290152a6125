import BuildReplay.Android.Variants
import BuildReplay.Proofs.Track
import BuildReplay.Proofs.Walk

/-! # Registrations

A table of callbacks is gone through in the order of the document. Each child table of a callback
point is registered once, and the first entry that is refused ends the table: what stands before it
has been registered, and nothing that stands after it. -/

namespace BuildReplay

open Act

variable {σ : Type}

/-! ## What a table declares -/

/-- A child table of a callback point, under its key. -/
structure ChildTable where
  point : CallbackPoint
  key : String
  body : Table

/-- The child tables in the value of a callback point, in document order. -/
def CallbackPoint.children (p : CallbackPoint) (entries : Table) : List ChildTable :=
  entries.filterMap fun e => match e.2 with
    | .table body => some ⟨p, e.1, body⟩
    | _ => none

/-- The child tables of all callback points in a table, in document order. -/
def Components.children (c : Components σ) (t : Table) : List ChildTable :=
  t.flatMap fun e => match c.points.find? (·.name == e.1), e.2 with
    | some p, .table entries => p.children entries
    | _, _ => []

/-- The registration is that of the child table; `path` is the extension's key in the document. -/
structure ChildTable.Registers (options : Options) (path : String) (child : ChildTable)
    (r : Registration) : Prop where
  point : r.point = child.point.name
  selector_all : r.selector = .all ↔ child.key = allSelector
  selector_named : ∀ name,
    r.selector = .named name ↔ child.key ≠ allSelector ∧ child.key = name
  callback : r.callback = .replay (path ++ "." ++ child.point.name ++ "." ++ child.key)
    child.point.payload options child.body

/-- The entry is named after a callback point and holds tables only. -/
structure Components.Accepts (c : Components σ) (e : String × Value) : Prop where
  point : ∃ p ∈ c.points, p.name = e.1
  tables : ∃ entries : Table, e.2 = .table entries ∧ ∀ child ∈ entries, child.2.isTable

/-- The entry is refused with an error; `accepted` are its children before the one at fault. -/
inductive Components.Refuses (c : Components σ) (path : String) :
    String × Value → (accepted : Table) → Error → Prop where
  | noPoint {key : String} {v : Value} : (∀ p ∈ c.points, p.name ≠ key) →
      Refuses c path (key, v) [] (.unknownDeclarationKey (path ++ "." ++ key) key c.typeName
        (c.points.map (·.name)) "")
  | noTable {p : CallbackPoint} {v : Value} : p ∈ c.points → v.isTable = false →
      Refuses c path (p.name, v) [] (.invalidDeclaration (path ++ "." ++ p.name)
        ("`" ++ p.name ++ "` expects tables keyed by variant name, found " ++ v.describe))
  | noChildTable {p : CallbackPoint} {accepted after : Table} {key : String} {v : Value} :
      p ∈ c.points → (∀ child ∈ accepted, child.2.isTable) → v.isTable = false →
      Refuses c path (p.name, .table (accepted ++ (key, v) :: after)) accepted
        (.malformedVariantSelector (path ++ "." ++ p.name) p.name key)

section Configure

variable {c : Components σ} {options : Options} {path : String}

/-- The registration of a child table. -/
def ChildTable.registration (options : Options) (path : String) (child : ChildTable) :
    Registration :=
  BuildReplay.registration options (path ++ "." ++ child.point.name) child.point child.key child.body

theorem ChildTable.registers_registration (child : ChildTable) :
    child.Registers options path (child.registration options path) where
  point := rfl
  selector_all := by
    simp only [registration, BuildReplay.registration, Selector.ofKey]
    split <;> simp [*]
  selector_named name := by
    simp only [registration, BuildReplay.registration, Selector.ofKey]
    split <;> simp [*]
  callback := rfl

/-! ## One entry -/

theorem Components.find?_point {key : String} {p : CallbackPoint}
    (h : c.points.find? (·.name == key) = some p) : p ∈ c.points ∧ p.name = key :=
  ⟨List.mem_of_find?_eq_some h, by simpa using List.find?_some h⟩

theorem Components.exists_find?_point {p : CallbackPoint} (hp : p ∈ c.points) :
    ∃ q, c.points.find? (·.name == p.name) = some q ∧ q.name = p.name := by
  cases hfind : c.points.find? (·.name == p.name) with
  | none => exact absurd (List.find?_eq_none.1 hfind p hp) (by simp)
  | some q => exact ⟨q, rfl, (find?_point hfind).2⟩

variable (options path) in
/-- Tables are registered one after the other, before anything else is looked at. -/
theorem registerEntries_append (p : CallbackPoint) (register : Registration → Act σ Unit)
    {accepted : Table} (h : ∀ child ∈ accepted, child.2.isTable) (rest : Table) :
    registerEntries options (path ++ "." ++ p.name) p register (accepted ++ rest) = (do
      inOrder register ((p.children accepted).map (·.registration options path))
      registerEntries options (path ++ "." ++ p.name) p register rest) := by
  induction accepted with
  | nil => rfl
  | cons child accepted ih =>
      obtain ⟨hchild, haccepted⟩ := List.forall_mem_cons.1 h
      obtain ⟨key, v⟩ := child
      obtain ⟨body, rfl⟩ := Value.exists_of_isTable hchild
      rw [List.cons_append, registerEntries, ih haccepted]
      simp only [CallbackPoint.children, List.filterMap_cons, List.map_cons, inOrder, bind_assoc]
      rfl

theorem registerEntries_cons_of_not_table (p : CallbackPoint)
    (register : Registration → Act σ Unit) {key : String} {v : Value} (h : v.isTable = false)
    (after : Table) :
    registerEntries options path p register ((key, v) :: after) =
      throw (.malformedVariantSelector path p.name key) := by
  cases v <;> first | rfl | simp [Value.isTable] at h

theorem registerCallbacks_of_not_table (p : CallbackPoint) (register : Registration → Act σ Unit)
    {v : Value} (h : v.isTable = false) :
    registerCallbacks options path p register v = throw (.invalidDeclaration path
      ("`" ++ p.name ++ "` expects tables keyed by variant name, found " ++ v.describe)) := by
  cases v <;> first | rfl | simp [Value.isTable] at h

/-- An entry that is not refused is accepted. -/
theorem Components.accepts_or_refuses (c : Components σ) (path : String) (e : String × Value) :
    c.Accepts e ∨ ∃ accepted error, c.Refuses path e accepted error := by
  obtain ⟨key, v⟩ := e
  cases hfind : c.points.find? (·.name == key) with
  | none => exact .inr ⟨_, _, .noPoint (by simpa using hfind)⟩
  | some p =>
      obtain ⟨hp, rfl⟩ := find?_point hfind
      by_cases hv : v.isTable
      · obtain ⟨entries, rfl⟩ := Value.exists_of_isTable hv
        by_cases hall : ∀ child ∈ entries, child.2.isTable
        · exact .inl ⟨⟨p, hp, rfl⟩, entries, rfl, hall⟩
        · -- the children are split at the first one that is no table
          obtain ⟨bad, hbad⟩ := Option.isSome_iff_exists.1
            (show (entries.find? fun child => !child.2.isTable).isSome by simpa using hall)
          obtain ⟨hnot, accepted, after, rfl, hbefore⟩ := List.find?_eq_some_iff_append.1 hbad
          exact .inr ⟨accepted, _, .noChildTable hp (by simpa using hbefore) (by simpa using hnot)⟩
      · exact .inr ⟨_, _, .noTable hp (by simpa using hv)⟩

theorem Components.Refuses.not_accepts {e : String × Value} {accepted : Table} {error : Error}
    (h : c.Refuses path e accepted error) : ¬c.Accepts e := by
  rintro ⟨⟨q, hq, hname⟩, entries, htable, htables⟩
  cases h with
  | noPoint hnone => exact hnone q hq hname
  | noTable hp hv =>
      obtain rfl := htable
      cases hv
  | @noChildTable p accepted after key v hp haccepted hv =>
      obtain rfl := Value.table.inj htable
      have hchild := htables (key, v) (by simp)
      rw [hv] at hchild
      cases hchild

theorem Components.children_append (c : Components σ) (t u : Table) :
    c.children (t ++ u) = c.children t ++ c.children u :=
  List.flatMap_append

/-- An accepted entry registers all its children. -/
theorem Components.Accepts.configure_cons {e : String × Value} (h : c.Accepts e) (t : Table) :
    c.configure options path (e :: t) = (do
      inOrder c.register ((c.children [e]).map (·.registration options path))
      c.configure options path t) := by
  obtain ⟨key, v⟩ := e
  obtain ⟨⟨p, hp, hname⟩, entries, hv, htables⟩ := h
  dsimp only at hname hv
  subst hname hv
  obtain ⟨q, hfind, hq⟩ := exists_find?_point hp
  have hentries := registerEntries_append options path q c.register htables []
  rw [List.append_nil, hq] at hentries
  simp only [configure, hfind, registerCallbacks, hentries, children, List.flatMap_singleton,
    bind_assoc]
  rfl

/-- A refused entry registers the children before the one at fault, and ends with the error. -/
theorem Components.Refuses.configure_cons {e : String × Value} {accepted : Table} {error : Error}
    (h : c.Refuses path e accepted error) (t : Table) :
    c.configure options path (e :: t) = (do
      inOrder c.register
        ((c.children [(e.1, .table accepted)]).map (·.registration options path))
      throw error) := by
  cases h with
  | noPoint hnone =>
      have hfind : c.points.find? (·.name == _) = none :=
        List.find?_eq_none.2 fun p hp => by simpa using hnone p hp
      simp only [configure, hfind, children, List.flatMap_singleton]
      rfl
  | @noTable p v hp hv =>
      obtain ⟨q, hfind, hq⟩ := exists_find?_point hp
      simp only [configure, hfind, children, List.flatMap_singleton]
      rw [registerCallbacks_of_not_table q c.register hv, hq]
      rfl
  | @noChildTable p accepted after key v hp haccepted hv =>
      obtain ⟨q, hfind, hq⟩ := exists_find?_point hp
      have hentries := registerEntries_append options path q c.register haccepted
        ((key, v) :: after)
      rw [registerEntries_cons_of_not_table q c.register hv, hq] at hentries
      simp only [configure, hfind, registerCallbacks, hentries, children, List.flatMap_singleton,
        bind_assoc]
      rfl

/-! ## The whole table -/

/-- Either all entries are accepted, or the table has a first entry that is refused. -/
theorem Components.accepted_or_split (c : Components σ) (path : String) (t : Table) :
    (∀ e ∈ t, c.Accepts e) ∨ ∃ before entry after accepted error,
      t = before ++ entry :: after ∧ (∀ e ∈ before, c.Accepts e) ∧
        c.Refuses path entry accepted error := by
  induction t with
  | nil => exact .inl fun _ he => absurd he List.not_mem_nil
  | cons e t ih =>
      rcases c.accepts_or_refuses path e with he | ⟨accepted, error, he⟩
      · rcases ih with ht | ⟨before, entry, after, accepted, error, rfl, hbefore, hentry⟩
        · exact .inl (List.forall_mem_cons.2 ⟨he, ht⟩)
        · exact .inr ⟨e :: before, entry, after, accepted, error, rfl,
            List.forall_mem_cons.2 ⟨he, hbefore⟩, hentry⟩
      · exact .inr ⟨[], e, t, accepted, error, rfl, fun _ h => absurd h List.not_mem_nil, he⟩

variable (options path) in
theorem Components.configure_append {before : Table} (h : ∀ e ∈ before, c.Accepts e)
    (rest : Table) :
    c.configure options path (before ++ rest) = (do
      inOrder c.register ((c.children before).map (·.registration options path))
      c.configure options path rest) := by
  induction before with
  | nil => rfl
  | cons e before ih =>
      obtain ⟨he, hbefore⟩ := List.forall_mem_cons.1 h
      have hchildren : c.children (e :: before) = c.children [e] ++ c.children before :=
        c.children_append [e] before
      rw [List.cons_append, he.configure_cons, ih hbefore, hchildren, List.map_append,
        inOrder_append, bind_assoc]

theorem Components.configure_of_accepted {t : Table} (h : ∀ e ∈ t, c.Accepts e) :
    c.configure options path t =
      inOrder c.register ((c.children t).map (·.registration options path)) := by
  have happend := configure_append options path h []
  rw [List.append_nil] at happend
  rw [happend, configure]
  exact bind_pure _

theorem Components.configure_of_refused {before : Table} (h : ∀ e ∈ before, c.Accepts e)
    {entry : String × Value} {accepted : Table} {error : Error}
    (hentry : c.Refuses path entry accepted error) (after : Table) :
    c.configure options path (before ++ entry :: after) = (do
      inOrder c.register
        ((c.children (before ++ [(entry.1, .table accepted)])).map (·.registration options path))
      throw error) := by
  rw [configure_append _ _ h, hentry.configure_cons, children_append, List.map_append, inOrder_append,
    bind_assoc]

/-- Every child table of a callback point is registered once, in document order. The table is
accepted where each of its entries is; otherwise the first entry that is refused ends it with its
error, and what was registered by then are the child tables before the fault. -/
theorem Components.configure_registers (hregister : ∀ r s, ∃ s', (c.register r).Gives s () s')
    (options : Options) (path : String) (t : Table) (s : σ) :
    ((∃ s', (c.configure options path t).Gives s () s') ↔ ∀ e ∈ t, c.Accepts e) ∧
    (∀ s', (c.configure options path t).Gives s () s' →
      ∃ rs, List.Forall₂ (ChildTable.Registers options path) (c.children t) rs ∧
        (inOrder c.register rs).Gives s () s') ∧
    ∀ error s', (c.configure options path t).Raises s error s' →
      ∃ before entry after accepted rs, t = before ++ entry :: after ∧
        (∀ e ∈ before, c.Accepts e) ∧ c.Refuses path entry accepted error ∧
        List.Forall₂ (ChildTable.Registers options path)
          (c.children (before ++ [(entry.1, .table accepted)])) rs ∧
        (inOrder c.register rs).Gives s () s' := by
  have hregistered : ∀ children : List ChildTable,
      List.Forall₂ (ChildTable.Registers options path) children
        (children.map (·.registration options path)) := fun children =>
    List.forall₂_map_right_iff.2 (List.forall₂_same.2 fun child _ => child.registers_registration)
  rcases c.accepted_or_split path t with
    hall | ⟨before, entry, after, accepted, error, rfl, hbefore, hentry⟩
  · obtain ⟨s₁, hgives⟩ :=
      inOrder_succeeds hregister ((c.children t).map (·.registration options path)) s
    rw [configure_of_accepted hall]
    refine ⟨⟨fun _ => hall, fun _ => ⟨s₁, hgives⟩⟩, fun s' h => ⟨_, hregistered _, h⟩,
      fun error s' h => absurd h hgives.not_raises⟩
  · obtain ⟨s₁, hgives⟩ := inOrder_succeeds hregister
      ((c.children (before ++ [(entry.1, .table accepted)])).map (·.registration options path)) s
    have hraises : (c.configure options path (before ++ entry :: after)).Raises s error s₁ := by
      rw [configure_of_refused hbefore hentry]
      exact bind_raises.2 (.inr ⟨(), s₁, hgives, rfl⟩)
    refine ⟨⟨fun ⟨s', h⟩ => absurd hraises h.not_raises, fun h => ?_⟩,
      fun s' h => absurd hraises h.not_raises, fun error' s' h => ?_⟩
    · exact absurd (h entry (by simp)) hentry.not_accepts
    · obtain ⟨rfl, rfl⟩ := hraises.unique h
      exact ⟨before, entry, after, accepted, _, rfl, hbefore, hentry, hregistered _, hgives⟩

end Configure

open Android in
/-- The child tables of both points are registered in the order of the document. A value that is no
table ends the table of callbacks. -/
theorem Components.configure_registers_variants :
    (∃ rs, List.Forall₂ (ChildTable.Registers ⟨.lenient, ⟨"/"⟩⟩ "androidComponents")
        [⟨onVariants, "debug", []⟩, ⟨onVariants, "all", []⟩, ⟨beforeVariants, "debug", []⟩] rs ∧
      (inOrder applicationComponents.register rs).Gives [] ()
        (applicationComponents.configure ⟨.lenient, ⟨"/"⟩⟩ "androidComponents"
          [("onVariants", .table [("debug", .table []), ("all", .table [])]),
            ("beforeVariants", .table [("debug", .table [])])] []).2) ∧
    ¬∃ rs, (applicationComponents.configure ⟨.lenient, ⟨"/"⟩⟩ "androidComponents"
        [("onVariants", .table [("debug", .table []), ("minSdk", .boolean true)])]).Gives [] ()
      rs := by
  have hregister : ∀ (r : Registration) rs,
      ∃ rs', (applicationComponents.register r).Gives rs () rs' :=
    fun r rs => ⟨rs ++ [r], rfl⟩
  have hregistered := (configure_registers hregister ⟨.lenient, ⟨"/"⟩⟩ "androidComponents"
    [("onVariants", .table [("debug", .table []), ("all", .table [])]),
      ("beforeVariants", .table [("debug", .table [])])] []).2.1 _ (gives_of_isOk rfl)
  refine ⟨hregistered, fun h => ?_⟩
  have haccepted := (configure_registers hregister _ _ _ _).1.1 h _ List.mem_cons_self
  obtain ⟨entries, htable, htables⟩ := haccepted.tables
  obtain rfl := Value.table.inj htable
  have hminSdk := htables ("minSdk", .boolean true) (by simp)
  cases hminSdk

end BuildReplay

import BuildReplay.Proofs.Spelling

/-! # Names that a host holds

Where a walk over a table ends well, the host holds every name that the table spells: the element or
the entry was made, and nothing after it takes it away. -/

namespace BuildReplay

open Act (Law)
open Act.Law (keeps keeps_gives)

variable {σ : Type} {host : Host σ} {shapes : TypeRef → Option (Shape σ)} {name : String}
  {place : Subject}

/-! ## Spelled names -/

section Spells

variable {key : String} {v : Value} {rest : Table}

theorem Table.not_spells_nil {subject : Subject} :
    ¬Table.Spells shapes name place subject [] := by
  intro h
  cases h with
  | entry hv => cases hv
  | element hv => cases hv
  | key _ hbody _ => cases hbody
  | inside hbody _ => cases hbody

theorem Table.not_spells_other {t : Table} : ¬t.Spells shapes name place .other := nofun

/-- A table for an object spells a name in the table of its first key, or in the rest. -/
theorem Table.Spells.cases_object {type : TypeRef}
    (h : Table.Spells shapes name place (.object type) ((key, v) :: rest)) :
    (∃ shape, ∃ body : Table, shapes type = some shape ∧ v = .table body ∧
      body.Spells shapes name place (shape.subject key)) ∨
    rest.Spells shapes name place (.object type) := by
  cases h with
  | key hshape hbody h =>
      rcases List.mem_cons.1 hbody with heq | hbody
      · cases heq
        exact .inl ⟨_, _, hshape, rfl, h⟩
      · exact .inr (.key hshape hbody h)

/-- A table of elements spells the name of its first element, and what the table of this element
does, and the rest. -/
theorem Table.Spells.cases_elements {type : TypeRef}
    (h : Table.Spells shapes name place (.elements type) ((key, v) :: rest)) :
    (name = key ∧ place = .elements type) ∨
    (∃ body : Table, v = .table body ∧ body.Spells shapes name place (.object type)) ∨
    rest.Spells shapes name place (.elements type) := by
  cases h with
  | element hv =>
      rcases List.mem_cons.1 hv with heq | hv
      · cases heq
        exact .inl ⟨rfl, rfl⟩
      · exact .inr (.inr (.element hv))
  | inside hbody h =>
      rcases List.mem_cons.1 hbody with heq | hbody
      · cases heq
        exact .inr (.inl ⟨_, rfl, h⟩)
      · exact .inr (.inr (.inside hbody h))

end Spells

/-! ## Steps over tables -/

/-- From a state that `s` has grown to, the act leads to another such state. -/
abbrev Act.Law.growing (G : σ → σ → Prop) (s : σ) : Law σ := keeps (G s) fun _ => True

section Step

variable {sc : Scope σ} {shape : Shape σ} {self : ObjectRef} {f : Field σ} {key : String}
  {body : Table} {s s' : σ} {next : Next}

theorem ValueType.handsOn_of_subject {type : ValueType} {live : Live}
    (h : live.subject = type.subject) (hdone : live.next ≠ .done) : type.handsOn live := by
  cases live with
  | object r => cases type <;> first | rfl | cases h
  | named element slot => cases type <;> first | rfl | cases h
  | _ => exact absurd rfl hdone

/-- A settable field whose table is for something is read. If it is a map, the entries are put into
what was read. -/
theorem settableStep_reads (hsubject : f.type.subject ≠ .other)
    (h : (settableStep host sc shape self f key (.table body)).Gives s next s') :
    ∃ live, f.read self s = .ok live ∧ ∀ value slot, f.type = .map value → live = .map slot →
      (insertAll host sc slot value body).Gives s () s' := by
  cases htype : f.type with
  | object t =>
      rw [settableStep_table (by simp [htype]) (by simp [htype]) (by simp [htype])] at h
      obtain ⟨live, s₁, hget, -⟩ := Act.bind_gives.1 h
      exact ⟨live, (Act.readExcept_gives.1 hget).1, nofun⟩
  | named t =>
      simp only [settableStep, htype] at h
      obtain ⟨live, s₁, hget, -⟩ := Act.bind_gives.1 h
      exact ⟨live, (Act.readExcept_gives.1 hget).1, nofun⟩
  | map value =>
      simp only [settableStep, htype] at h
      obtain ⟨live, s₁, hget, h⟩ := Act.bind_gives.1 h
      obtain ⟨hread, rfl⟩ := Act.readExcept_gives.1 hget
      refine ⟨live, hread, ?_⟩
      rintro _ slot ⟨⟩ rfl
      obtain ⟨_, s₂, hinsert, h⟩ := Act.bind_gives.1 h
      obtain ⟨-, rfl⟩ := Act.pure_gives.1 h
      exact hinsert
  | _ => exact absurd (congrArg ValueType.subject htype) hsubject

/-- The step of a key whose table is for a map puts its entries into the map; for an object or a
collection, it goes on there. -/
theorem keyStep_table (hshape : shape.Describes host) (hsubject : shape.subject key ≠ .other)
    (h : (keyStep host sc shape self key (.table body)).Gives s next s') :
    ∃ f live, shape.HasField f ∧ f.read self s = .ok live ∧ host.Describes f.type self live ∧
      live.subject = shape.subject key ∧
      ((live.next ≠ .done ∧ next = live.next ∧ s' = s) ∨
        ∃ slot value, live = .map slot ∧ (insertAll host sc slot value body).Gives s () s') := by
  obtain ⟨f, hroute⟩ : ∃ f, route shape key = .settable f ∨ route shape key = .readOnly f := by
    unfold Shape.subject at hsubject
    split at hsubject
    · exact ⟨_, .inl ‹_›⟩
    · exact ⟨_, .inr ‹_›⟩
    · exact absurd rfl hsubject
  have htype : shape.subject key = f.type.subject := Shape.subject_of_route hroute
  have hf : shape.HasField f := Shape.hasField_of_route hroute
  obtain ⟨live, hread, hmap⟩ : ∃ live, f.read self s = .ok live ∧ ∀ slot, live = .map slot →
      ∃ value, (insertAll host sc slot value body).Gives s () s' := by
    rcases hroute with hroute | hroute
    · simp only [keyStep, hroute] at h
      obtain ⟨live, hread, hmap⟩ := settableStep_reads (htype ▸ hsubject) h
      refine ⟨live, hread, fun slot heq => ?_⟩
      obtain ⟨value, hvalue⟩ :=
        ValueType.exists_eq_map ((hshape hf hread).subject.symm.trans (congrArg Live.subject heq))
      exact ⟨value, hmap value slot hvalue heq⟩
    · simp only [keyStep, hroute, readOnlyStep] at h
      obtain ⟨live, s₁, hget, h⟩ := Act.bind_gives.1 h
      obtain ⟨hread, rfl⟩ := Act.readExcept_gives.1 hget
      refine ⟨live, hread, ?_⟩
      rintro slot rfl
      obtain ⟨value, s₂, hvalue, h⟩ := Act.bind_gives.1 h
      obtain ⟨-, rfl⟩ := Act.ofExcept_gives.1 hvalue
      obtain ⟨_, s₃, hinsert, h⟩ := Act.bind_gives.1 h
      obtain ⟨-, rfl⟩ := Act.pure_gives.1 h
      exact ⟨value, hinsert⟩
  have hlive : host.Describes f.type self live := hshape hf hread
  have hkind : live.subject = shape.subject key := hlive.subject.trans htype.symm
  refine ⟨f, live, hf, hread, hlive, hkind, ?_⟩
  have hon : live.next ≠ .done → next = live.next ∧ s' = s := by
    intro hdone
    have hhands : (route shape key).handsOn self s live.next := by
      rcases hroute with hroute | hroute
      · rw [hroute]
        exact ⟨live, hread, ValueType.handsOn_of_subject hlive.subject hdone, rfl⟩
      · rw [hroute]
        exact ⟨live, hread, rfl⟩
    exact h.unique ((keyStep_goesOn hdone).2 ⟨rfl, rfl, hhands⟩)
  cases live with
  | object r => exact .inl ⟨nofun, hon nofun⟩
  | named element slot => exact .inl ⟨nofun, hon nofun⟩
  | map slot =>
      obtain ⟨value, hinsert⟩ := hmap slot rfl
      exact .inr ⟨slot, value, rfl, hinsert⟩
  | _ => exact absurd hkind.symm hsubject

end Step

/-! ## Walks -/

/-- The host takes nothing away, the objects that it hands out are there, and it holds the names
under which it makes entries and elements. -/
structure Host.Supplies (G : σ → σ → Prop) (Has : ObjectRef → σ → Prop)
    (H : Subject → String → σ → Prop) (shapes : TypeRef → Option (Shape σ)) (host : Host σ) :
    Prop where
  refl : ∀ s, G s s
  obeys : ∀ s, host.Obeys (Law.growing G s)
  create : ∀ s slot name, (Law.growing G s).Obeys (host.maybeCreate slot name)
  has : ∀ {r s s'}, G s s' → Has r s → Has r s'
  holds : ∀ {place name s s'}, G s s' → H place name s → H place name s'
  declares : host.Declares shapes
  object : ∀ {shape f r r' s}, shapes r.type = some shape → shape.HasField f → Has r s →
    f.read r s = .ok (.object r') → Has r' s
  insert : ∀ {slot name item s s'}, Has slot.owner s → (host.insert slot name item).Gives s () s' →
    H .entries name s'
  maybeCreate : ∀ {slot name r c s s'}, Has slot.owner s → host.named? slot = some c →
    (host.maybeCreate slot name).Gives s r s' → H (.elements c.element) name s' ∧ Has r s'

/-- The frames around a key obey what the host does. -/
def Scope.Grows (G : σ → σ → Prop) (sc : Scope σ) : Prop :=
  ∀ s, sc.Obeys (Law.growing G s)

section Walk

variable {G : σ → σ → Prop} {Has : ObjectRef → σ → Prop} {H : Subject → String → σ → Prop}

/-- Where the walks over a table end well, all names that the table spells are held. -/
structure WalkSupplies (G : σ → σ → Prop) (Has : ObjectRef → σ → Prop)
    (H : Subject → String → σ → Prop) (host : Host σ) (shapes : TypeRef → Option (Shape σ))
    (t : Table) : Prop where
  entries : ∀ {sc : Scope σ} {shape : Shape σ} {self : ObjectRef} {s s' : σ}, sc.Grows G →
    (∀ s, shape.Obeys (Law.growing G s)) → shapes self.type = some shape →
    shape.Describes host → Has self s → (walkEntries host sc shape self t).Gives s () s' →
    ∀ {place name}, t.Spells shapes name place (.object self.type) → H place name s'
  elements : ∀ {sc : Scope σ} {element : TypeRef} {slot : Slot} {s s' : σ}, sc.Grows G →
    (∀ {c}, host.named? slot = some c → c.element = element) → Has slot.owner s →
    (walkElements host sc element slot t).Gives s () s' →
    ∀ {place name}, t.Spells shapes name place (.elements element) → H place name s'

variable (hhost : host.Supplies G Has H shapes)
include hhost

theorem Host.Supplies.grows {α : Type} {x : Act σ α} (hx : ∀ s, (Law.growing G s).Obeys x)
    {s s' : σ} {a : α} (h : x.Gives s a s') : G s s' :=
  keeps_gives (hx s) (hhost.refl s) h

theorem Host.Supplies.insertAll {sc : Scope σ} {slot : Slot} {value : ValueType} {entries : Table}
    {s s' : σ} (hslot : Has slot.owner s)
    (h : (insertAll host sc slot value entries).Gives s () s') :
    ∀ e ∈ entries, H .entries e.1 s' := by
  have hgrows : ∀ (entries : Table) s, (Law.growing G s).Obeys
      (BuildReplay.insertAll host sc slot value entries) := by
    intro entries s
    induction entries with
    | nil => exact Law.pure _ _
    | cons e rest ih =>
        exact Law.andThen (Law.ofExcept fun _ _ => trivial) fun item =>
          Law.andThen ((hhost.obeys s).insert slot e.1 item) fun _ => ih
  induction entries generalizing s with
  | nil => exact nofun
  | cons e rest ih =>
      obtain ⟨item, s₁, hitem, h⟩ := Act.bind_gives.1 h
      obtain ⟨-, rfl⟩ := Act.ofExcept_gives.1 hitem
      obtain ⟨_, s₂, hinsert, h⟩ := Act.bind_gives.1 h
      have hslot₂ : Has slot.owner s₂ :=
        hhost.has (hhost.grows (fun s => (hhost.obeys s).insert slot e.1 item) hinsert) hslot
      refine List.forall_mem_cons.2 ⟨?_, ih hslot₂ h⟩
      exact hhost.holds (hhost.grows (hgrows rest) h) (hhost.insert hslot hinsert)

theorem WalkSupplies.object {t : Table} (ht : WalkSupplies G Has H host shapes t) {sc : Scope σ}
    (hsc : sc.Grows G) {r : ObjectRef} {s s' : σ} (hr : Has r s)
    (h : (walkNext host sc (.object r) (.table t)).Gives s () s')
    (hspells : t.Spells shapes name place (.object r.type)) : H place name s' := by
  rw [walkNext_object] at h
  obtain ⟨shape, s₁, hgives, h⟩ := Act.bind_gives.1 h
  have hshape : ∀ s, shape.Obeys (Law.growing G s) := fun s =>
    (hhost.obeys s).shape hgives
  obtain ⟨hknown, hdescribes⟩ := hhost.declares hgives
  exact ht.entries (fun s => (hsc s).enter_object (hshape s) r) hshape hknown hdescribes
    (hhost.has (hhost.grows (fun s => (hhost.obeys s).shapeOf r.type) hgives) hr) h hspells

theorem Host.Supplies.walkNext_grows {sc : Scope σ} (hsc : sc.Grows G) {next : Next} {v : Value}
    {s s' : σ} (h : (walkNext host sc next v).Gives s () s') : G s s' :=
  hhost.grows (fun s =>
    (hhost.obeys s).walkNext (hhost.create s) (fun _ _ => trivial) (hsc s) next v) h

/-- A key whose step and walk end well leaves all names held that its table spells. -/
theorem WalkSupplies.key {body : Table} (hbody : WalkSupplies G Has H host shapes body)
    {sc : Scope σ} {shape : Shape σ} {self : ObjectRef} {key : String} {next : Next} {s s₁ s' : σ}
    (hsc : sc.Grows G) (hknown : shapes self.type = some shape) (hdescribes : shape.Describes host)
    (hself : Has self s) (hstep : (keyStep host sc shape self key (.table body)).Gives s next s₁)
    (hinto : (walkNext host sc next (.table body)).Gives s₁ () s')
    (hspells : body.Spells shapes name place (shape.subject key)) : H place name s' := by
  have hsubject : shape.subject key ≠ .other := by
    intro hother
    rw [hother] at hspells
    exact Table.not_spells_other hspells
  obtain ⟨f, live, hf, hread, hlive, hkind, hstep⟩ := keyStep_table hdescribes hsubject hstep
  rw [← hkind] at hspells
  rcases hstep with ⟨hon, rfl, rfl⟩ | ⟨slot, value, rfl, hinsert⟩
  · cases live with
    | object r => exact hbody.object hhost hsc (hhost.object hknown hf hself hread) hinto hspells
    | named element slot =>
        change (walkNext host sc (.elements element slot) _).Gives _ _ _ at hinto
        rw [walkNext_elements] at hinto
        exact hbody.elements hsc (hlive.element rfl) ((hlive.owner rfl).symm ▸ hself) hinto hspells
    | _ => exact absurd rfl hon
  · cases hspells with
    | entry hname =>
        have hslot : Has slot.owner s := (hlive.owner rfl).symm ▸ hself
        exact hhost.holds (hhost.walkNext_grows hsc hinto) (hhost.insertAll hslot hinsert _ hname)

/-- By induction on the table: what a key or an element makes is held when its own walk ends, and
the walks of the rest take nothing away. -/
theorem Host.Supplies.walk (t : Table) : WalkSupplies G Has H host shapes t := by
  induction t using Table.induct with
  | nil => exact ⟨fun _ _ _ _ _ _ _ _ h => absurd h Table.not_spells_nil,
      fun _ _ _ _ _ _ h => absurd h Table.not_spells_nil⟩
  | cons key v rest hv hrest =>
      have hwalk := fun (options : Options) s => (hhost.obeys s).walk (hhost.create s)
        (fun _ _ => trivial : Law.Tolerates (Law.growing G s) options.strictness) rest
      constructor
      · intro sc shape self s s' hsc hshape hknown hdescribes hself h place name hspells
        have hkey : (sc.key key).Grows G := hsc
        rw [walkEntries_cons] at h
        obtain ⟨next, s₁, hstep, h⟩ := Act.bind_gives.1 h
        obtain ⟨_, s₂, hinto, hlast⟩ := Act.bind_gives.1 h
        have hself₁ : Has self s₁ := hhost.has (hhost.grows (fun s => ((hhost.obeys s).effects
          (hkey s) (hshape s) (fun _ _ => trivial) self key v).keyStep_obeys) hstep) hself
        have hself₂ : Has self s₂ := hhost.has (hhost.walkNext_grows hkey hinto) hself₁
        rcases hspells.cases_object with ⟨shape', body, hshape', rfl, hbody⟩ | hspells
        · obtain rfl : shape = shape' := Option.some.inj (hknown.symm.trans hshape')
          refine hhost.holds (hhost.grows (fun s => (hwalk sc.options s).entries sc shape rfl
            (hsc s) (hshape s) self) hlast) ?_
          exact (hv body rfl).key hhost hkey hknown hdescribes hself hstep hinto hbody
        · exact hrest.entries hsc hshape hknown hdescribes hself₂ hlast hspells
      · intro sc element slot s s' hsc hslot hself h place name hspells
        by_cases htable : v.isTable
        · obtain ⟨body, rfl⟩ := Value.exists_of_isTable htable
          have hinside : ((sc.key key).enter (.collection element slot)).Grows G := fun s =>
            ((hsc s).key key).enter_collection element slot
          rw [walkElements_cons_table] at h
          obtain ⟨r, s₁, hcreate, h⟩ := Act.bind_gives.1 h
          obtain ⟨_, s₂, hinto, h⟩ := Act.bind_gives.1 h
          obtain ⟨c, hc, htype⟩ := Host.maybeCreate_type hcreate
          obtain ⟨hname, hr⟩ := hhost.maybeCreate hself hc hcreate
          rw [hslot hc] at htype hname
          have hself₁ : Has slot.owner s₁ :=
            hhost.has (hhost.grows (fun s => hhost.create s slot key) hcreate) hself
          have hinto₂ : G s₁ s₂ := hhost.walkNext_grows hinside hinto
          have hrest₂ : G s₂ s' := hhost.grows (fun s => (hwalk sc.options s).elements sc rfl
            (hsc s) element slot) h
          rcases hspells.cases_elements with ⟨rfl, rfl⟩ | ⟨body', heq, hbody⟩ | hspells
          · exact hhost.holds hrest₂ (hhost.holds hinto₂ hname)
          · cases heq
            refine hhost.holds hrest₂ ?_
            exact (hv body rfl).object hhost hinside hr hinto (htype ▸ hbody)
          · exact hrest.elements hsc hslot (hhost.has hinto₂ hself₁) h hspells
        · rw [walkElements_cons_of_not_table _ _ _ _ _ _ (by simpa using htable)] at h
          exact absurd h Act.not_throw_gives

/-- A document that is accepted leaves all names that it spells held. -/
theorem Host.Supplies.replay {options : Options} {start : String} {t : Table} {r : ObjectRef}
    {s s' : σ} (hr : Has r s) (h : (replay host options start t r).Gives s () s')
    (hspells : t.Spells shapes name place (.object r.type)) : H place name s' :=
  (hhost.walk t).object hhost (fun _ => Scope.top_obeys options start) hr h hspells

end Walk

end BuildReplay

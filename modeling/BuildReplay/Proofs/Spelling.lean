import BuildReplay.Proofs.Access
import BuildReplay.Proofs.Container
import BuildReplay.Proofs.Obedience
import BuildReplay.Proofs.Plain

/-! # Names that a table spells

Elements and entries are made under the keys of tables. Which tables these are is known from the
declared types of the fields that they stand under: no other key names anything. -/

namespace BuildReplay

open Act (Law)

variable {σ : Type}

/-- A table for the subject spells a name for what lies at a place: the name is a key of it where it
is a table of entries or elements, or the name is spelled by a table below. -/
inductive Table.Spells (shapes : TypeRef → Option (Shape σ)) (name : String) :
    Subject → Subject → Table → Prop where
  | entry {t : Table} {v : Value} : (name, v) ∈ t → Spells shapes name .entries .entries t
  | element {type : TypeRef} {t : Table} {v : Value} : (name, v) ∈ t →
      Spells shapes name (.elements type) (.elements type) t
  | key {place : Subject} {type : TypeRef} {shape : Shape σ} {t : Table} {key : String}
      {body : Table} : shapes type = some shape → (key, .table body) ∈ t →
      Spells shapes name place (shape.subject key) body → Spells shapes name place (.object type) t
  | inside {place : Subject} {type : TypeRef} {t : Table} {key : String} {body : Table} :
      (key, .table body) ∈ t → Spells shapes name place (.object type) body →
      Spells shapes name place (.elements type) t

theorem Table.Spells.mono {shapes : TypeRef → Option (Shape σ)} {place subject : Subject}
    {name : String} {t u : Table} (h : t.Spells shapes name place subject) (htu : t ⊆ u) :
    u.Spells shapes name place subject := by
  cases h with
  | entry hv => exact .entry (htu hv)
  | element hv => exact .element (htu hv)
  | key hshape hbody h => exact .key hshape (htu hbody) h
  | inside hbody h => exact .inside (htu hbody) h

/-! ## Typed fields -/

/-- What a table for the value describes. -/
def Live.subject : Live → Subject
  | .object r => .object r.type
  | .named element _ => .elements element
  | .map _ => .entries
  | _ => .other

/-- Where the entries or elements are that a table for the value makes. -/
def Live.slot? : Live → Option Slot
  | .named _ slot | .map slot => some slot
  | _ => none

theorem ValueType.eq_object {type : ValueType} {t : TypeRef} (h : type.subject = .object t) :
    type = .object t := by
  cases type with
  | object => exact congrArg _ (Subject.object.inj h)
  | _ => cases h

theorem ValueType.exists_eq_map {type : ValueType} (h : type.subject = .entries) :
    ∃ value, type = .map value := by
  cases type with
  | map value => exact ⟨value, rfl⟩
  | _ => cases h

/-- A table for a value of the object describes what the declared type says, and makes entries and
elements of the object's own. -/
structure Host.Describes (host : Host σ) (type : ValueType) (r : ObjectRef) (live : Live) :
    Prop where
  subject : live.subject = type.subject
  owner : ∀ {slot}, live.slot? = some slot → slot.owner = r
  element : ∀ {element slot c}, live = .named element slot → host.named? slot = some c →
    c.element = element

def Field.Describes (host : Host σ) (f : Field σ) : Prop :=
  ∀ {r s live}, f.read r s = .ok live → host.Describes f.type r live

/-- All fields of the type hold what they declare. -/
def Shape.Describes (host : Host σ) (shape : Shape σ) : Prop :=
  ∀ {f}, shape.HasField f → f.Describes host

def Declaration.Describes (host : Host σ) : Declaration σ → Prop
  | .settable f | .readOnly f => f.Describes host
  | _ => True

/-- The shapes are those of the host, and their fields hold what they declare. -/
def Host.Declares (host : Host σ) (shapes : TypeRef → Option (Shape σ)) : Prop :=
  ∀ {t s shape s'}, (host.shapeOf t).Gives s shape s' →
    shapes t = some shape ∧ shape.Describes host

theorem Shape.DescribedBy.describes {host : Host σ} {shape : Shape σ} {ds : List (Declaration σ)}
    (h : shape.DescribedBy ds) (hds : ∀ d ∈ ds, d.Describes host) : shape.Describes host := by
  rintro f ⟨name, hf | hf⟩
  · exact hds _ (h.settable hf).1
  · exact hds _ (h.readOnly hf).1

namespace Declaration

variable {host : Host σ} {α β : Type} [Stored σ α] {name : String} {type : ValueType}

theorem describes_of_not_handle {r : ObjectRef} {live : Live} (h : live.isHandle = false)
    (htype : type.subject = .other) : host.Describes type r live := by
  have hslot : live.slot? = none := by cases live <;> first | rfl | cases h
  refine ⟨?_, fun hsome => ?_, ?_⟩
  · rw [htype]
    cases live <;> first | rfl | cases h
  · rw [hslot] at hsome
    cases hsome
  · rintro _ _ _ rfl
    cases h

section Plain

variable [ToLive β] [Plain β] {get : α → β}

theorem stored_describes [OfLive β] {set : β → α → α} (htype : type.subject = .other) :
    (stored name type get set : Declaration σ).Describes host := by
  intro o s live h
  obtain ⟨a, rfl, rfl⟩ := getter_eq_ok.1 h
  exact describes_of_not_handle (Plain.isHandle_toLive _) htype

theorem viewed_describes (htype : type.subject = .other) :
    (viewed name type get : Declaration σ).Describes host := by
  intro o s live h
  obtain ⟨a, rfl, rfl⟩ := getter_eq_ok.1 h
  exact describes_of_not_handle (Plain.isHandle_toLive _) htype

end Plain

@[simp] theorem viewed_object_describes [Described β] {get : α → Ref β} :
    (viewed name (.object (typeRef β)) get : Declaration σ).Describes host := by
  intro o s live h
  obtain ⟨a, rfl, rfl⟩ := getter_eq_ok.1 h
  exact ⟨rfl, nofun, nofun⟩

@[simp] theorem list_describes : (list α name type : Declaration σ).Describes host := by
  intro o s live h
  obtain ⟨a, rfl, rfl⟩ := getter_eq_ok.1 h
  exact ⟨rfl, nofun, nofun⟩

@[simp] theorem property_describes : (property α name type : Declaration σ).Describes host := by
  intro o s live h
  obtain ⟨a, rfl, rfl⟩ := getter_eq_ok.1 h
  exact ⟨rfl, nofun, nofun⟩

@[simp] theorem map_describes : (map α name type : Declaration σ).Describes host := by
  intro o s live h
  obtain ⟨a, rfl, rfl⟩ := getter_eq_ok.1 h
  exact ⟨rfl, fun h => Option.some.inj h ▸ rfl, nofun⟩

@[simp] theorem call_describes {params : List ValueType} {body : Ref α → List Live → Access σ Live} :
    (call name params body : Declaration σ).Describes host := trivial

@[simp] theorem setter_describes [OfLive β] {set : β → α → α} :
    (setter name type set : Declaration σ).Describes host := trivial

theorem collection_describes {element : TypeRef}
    (h : ∀ r c, host.named? ⟨r, name⟩ = some c → c.element = element) :
    (collection α name element : Declaration σ).Describes host := by
  intro o s live hread
  obtain ⟨a, rfl, rfl⟩ := getter_eq_ok.1 hread
  refine ⟨rfl, fun h => Option.some.inj h ▸ rfl, ?_⟩
  rintro _ _ c ⟨⟩ hc
  exact h a.object c hc

end Declaration

section Subjects

variable {shape : Shape σ} {f : Field σ} {key : String}

theorem Shape.subject_of_route (h : route shape key = .settable f ∨ route shape key = .readOnly f) :
    shape.subject key = f.type.subject := by
  rcases h with h | h <;> rw [subject, h]

theorem Shape.hasField_of_route
    (h : route shape key = .settable f ∨ route shape key = .readOnly f) : shape.HasField f := by
  rcases h with h | h
  · obtain ⟨name, -, hf⟩ := settable?_of_route h
    exact ⟨name, .inl hf⟩
  · exact ⟨key, .inr (readOnly?_of_route h)⟩

/-- A key that goes on hands its table to what its field holds. -/
theorem Route.handsOn_describes {host : Host σ} (hshape : shape.Describes host) {self : ObjectRef}
    {s : σ} {next : Next} (h : (route shape key).handsOn self s next) :
    ∃ type live, host.Describes type self live ∧ shape.subject key = type.subject ∧
      live.next = next := by
  cases hroute : route shape key with
  | settable f =>
      rw [hroute] at h
      obtain ⟨live, hread, -, hnext⟩ := h
      exact ⟨f.type, live, hshape (Shape.hasField_of_route (.inl hroute)) hread,
        Shape.subject_of_route (.inl hroute), hnext⟩
  | readOnly f =>
      rw [hroute] at h
      obtain ⟨live, hread, hnext⟩ := h
      exact ⟨f.type, live, hshape (Shape.hasField_of_route (.inr hroute)) hread,
        Shape.subject_of_route (.inr hroute), hnext⟩
  | _ =>
      rw [hroute] at h
      exact h.elim

end Subjects

/-! ## Walks -/

section Walk

variable {L : Law σ} {host : Host σ} {shapes : TypeRef → Option (Shape σ)} {options : Options}
  {A : Subject → String → Prop}

/-- The host heeds a law, and makes entries and elements by it under names that are admitted. -/
structure Host.Admits (L : Law σ) (host : Host σ) (shapes : TypeRef → Option (Shape σ))
    (A : Subject → String → Prop) : Prop extends Host.Heeds L host where
  declares : host.Declares shapes
  insert : ∀ {name}, A .entries name → ∀ slot item, L.Obeys (host.insert slot name item)
  maybeCreate : ∀ {slot name}, (∀ c, host.named? slot = some c → A (.elements c.element) name) →
    L.Obeys (host.maybeCreate slot name)

/-- The walks below a table obey the law, where all names that the table spells are admitted. -/
structure WalkSpells (L : Law σ) (host : Host σ) (shapes : TypeRef → Option (Shape σ))
    (options : Options) (A : Subject → String → Prop) (t : Table) : Prop where
  entries : ∀ (sc : Scope σ) (shape : Shape σ) (self : ObjectRef), sc.options = options →
    sc.Obeys L → shape.Obeys L → shapes self.type = some shape → shape.Describes host →
    (∀ place name, t.Spells shapes name place (.object self.type) → A place name) →
    L.Obeys (walkEntries host sc shape self t)
  elements : ∀ (sc : Scope σ) (element : TypeRef) (slot : Slot), sc.options = options →
    sc.Obeys L → (∀ c, host.named? slot = some c → c.element = element) →
    (∀ place name, t.Spells shapes name place (.elements element) → A place name) →
    L.Obeys (walkElements host sc element slot t)

theorem Host.maybeCreate_type {slot : Slot} {name : String} {s s' : σ} {r : ObjectRef}
    (h : (host.maybeCreate slot name).Gives s r s') :
    ∃ c, host.named? slot = some c ∧ r.type = c.element := by
  unfold Host.maybeCreate at h
  split at h
  · rename_i c hc
    obtain ⟨rfl, -⟩ := h.unique (NamedCollection.maybeCreate_gives c name s)
    exact ⟨c, hc, rfl⟩
  · exact absurd h Act.not_throw_gives

variable (hhost : host.Admits L shapes A)
include hhost

theorem WalkSpells.object {t : Table} (ht : WalkSpells L host shapes options A t) (sc : Scope σ)
    (hoptions : sc.options = options) (hsc : sc.Obeys L) {r : ObjectRef}
    (hA : ∀ place name, t.Spells shapes name place (.object r.type) → A place name) :
    L.Obeys (walkNext host sc (.object r) (.table t)) := by
  rw [walkNext_object]
  refine L.bind (hhost.shapeOf _) fun _ hgives => ?_
  have hshape := hhost.shape hgives
  obtain ⟨hknown, hdescribes⟩ := hhost.declares hgives
  exact ht.entries (sc.enter (.object r _)) _ r hoptions (hsc.enter_object hshape r) hshape hknown
    hdescribes hA

theorem Host.Admits.walk (hL : Law.Tolerates L options.strictness) (t : Table) :
    WalkSpells L host shapes options A t := by
  induction t using Table.induct with
  | nil =>
      refine ⟨fun _ _ _ _ _ _ _ _ _ => ?_, fun _ _ _ _ _ _ _ => ?_⟩
      · rw [walkEntries_nil]
        exact L.pure _
      · rw [walkElements_nil]
        exact L.pure _
  | cons key v rest hv hrest =>
      refine ⟨fun sc shape self hoptions hsc hshape hknown hdescribes hA => ?_,
        fun sc element slot hoptions hsc hslot hA => ?_⟩
      · -- below the key, its table spells what it spells for the subject of the key
        have hbelow : ∀ body : Table, v = .table body → ∀ place name,
            body.Spells shapes name place (shape.subject key) → A place name :=
          fun body hbody place name h =>
            hA place name (.key hknown (hbody ▸ List.mem_cons_self) h)
        have hstep : Effects L host (sc.key key) shape self key v := by
          refine hhost.toHeeds.effectsOf (hsc.key key) hshape ?_ fun he =>
            he.tolerated (hoptions ▸ hL)
          intro f slot s s' entries raw name hf hroute hentries hmem hget item
          have hsubject : shape.subject key = .entries :=
            (Shape.subject_of_route hroute).trans
              (hdescribes hf (Act.readExcept_gives.1 hget).1).subject.symm
          have hspells : Table.Spells shapes name .entries (shape.subject key) entries := by
            rw [hsubject]
            exact .entry hmem
          exact hhost.insert (hbelow entries hentries _ _ hspells) slot item
        rw [walkEntries_cons]
        refine L.bind hstep.keyStep_obeys fun {s next s'} _ hgives => L.andThen ?_ fun _ => ?_
        · by_cases hdone : next = .done
          · rw [hdone, walkNext_done]
            exact L.pure _
          · obtain ⟨htable, -, hon⟩ := (keyStep_goesOn hdone).1 hgives
            obtain ⟨body, rfl⟩ := Value.exists_of_isTable htable
            obtain ⟨type, live, hlive, hsubject, rfl⟩ := Route.handsOn_describes hdescribes hon
            rw [hsubject, ← hlive.subject] at hbelow
            cases live with
            | object r =>
                exact (hv body rfl).object hhost (sc.key key) hoptions (hsc.key key)
                  (hbelow body rfl)
            | named element slot =>
                change L.Obeys (walkNext host _ (.elements element slot) _)
                rw [walkNext_elements]
                exact (hv body rfl).elements (sc.key key) element slot hoptions (hsc.key key)
                  (fun c => hlive.element rfl) (hbelow body rfl)
            | _ => exact absurd rfl hdone
        · exact hrest.entries sc shape self hoptions hsc hshape hknown hdescribes
            fun place name h => hA place name (h.mono (List.subset_cons_self _ _))
      · by_cases htable : v.isTable
        · obtain ⟨body, rfl⟩ := Value.exists_of_isTable htable
          rw [walkElements_cons_table]
          have hname : A (.elements element) key := hA _ _ (.element List.mem_cons_self)
          have hcreate : L.Obeys (host.maybeCreate slot key) :=
            hhost.maybeCreate fun c hc => hslot c hc ▸ hname
          refine L.bind hcreate fun _ hgives => L.andThen ?_ fun _ => ?_
          · obtain ⟨c, hc, htype⟩ := Host.maybeCreate_type hgives
            refine (hv body rfl).object hhost ((sc.key key).enter (.collection element slot))
              hoptions ((hsc.key key).enter_collection element slot)
              fun place name h => hA place name (.inside List.mem_cons_self ?_)
            rwa [htype, hslot c hc] at h
          · exact hrest.elements sc element slot hoptions hsc hslot fun place name h =>
              hA place name (h.mono (List.subset_cons_self _ _))
        · rw [walkElements_cons_of_not_table _ _ _ _ _ _ (by simpa using htable)]
          exact L.throw (hL _ fun _ _ h => by cases h)

/-- A whole document makes elements and entries under no other names than those that it spells. -/
theorem Host.Admits.replay (hL : Law.Tolerates L options.strictness) (start : String)
    {t : Table} {r : ObjectRef}
    (hA : ∀ place name, t.Spells shapes name place (.object r.type) → A place name) :
    L.Obeys (replay host options start t r) :=
  (hhost.walk hL t).object hhost (.top options start) rfl (Scope.top_obeys options start) hA

end Walk

end BuildReplay

import BuildReplay.Lab.Host
import BuildReplay.Proofs.Dictionary
import BuildReplay.Proofs.Handles
import BuildReplay.Proofs.Occurrences

/-! # Containers that are shared

A container is changed through many handles in turn. What it holds is known from the calls alone, in
their order, and is the same through every handle: lists, maps and cells hold what they accepted,
and a named collection has one element for each name that was requested. -/

namespace BuildReplay

variable {σ H : Type}

/-! ## Requests for elements -/

/-- A request for the element of a name through a handle to a named collection: one that makes it
where it is missing, or one that only looks for it. -/
inductive ElementRequest (H : Type) where
  | create (via : H) (name : String)
  | lookup (via : H) (name : String)

namespace ElementRequest

def name : ElementRequest H → String
  | create _ name | lookup _ name => name

/-- The name that there is an element of from then on. -/
def created? : ElementRequest H → Option String
  | create _ name => some name
  | lookup .. => none

/-- The names that elements were made for, as often as they were requested. -/
def created (requests : List (ElementRequest H)) : List String := requests.filterMap created?

theorem created_cons (r : ElementRequest H) (requests : List (ElementRequest H)) :
    created (r :: requests) = r.created?.toList ++ created requests := by
  cases r <;> rfl

def serve {h : Host σ} {c : NamedCollection σ} :
    ElementRequest (Handle h.named? c) → Act σ (Option ObjectRef)
  | create via name => some <$> via.maybeCreate name
  | lookup via name => via.getByName name

end ElementRequest

open ElementRequest (created)

namespace NamedCollection

variable {h : Host σ} {c : NamedCollection σ} {I : σ → Prop} {name : String} {s s' : σ}

/-- In states with `I`, making an object leaves the entries of the collection alone, and such states
are not left by making objects and entering them. -/
structure DetachedIn (c : NamedCollection σ) (I : σ → Prop) : Prop where
  entries : ∀ {s}, I s → ∀ name, c.entries.get (c.create name s).2 = c.entries.get s
  create : ∀ {s}, I s → ∀ name, I (c.create name s).2
  set : ∀ {s}, I s → ∀ entries, I (c.entries.set entries s)

theorem DetachedIn.obtain (hc : c.DetachedIn I) (hs : I s) (name : String) :
    I (c.obtain name s).2 := by
  cases hfind : c.find? name s with
  | some r => rwa [obtain_of_find? hfind]
  | none =>
      rw [obtain_of_find?_none hfind]
      exact hc.set (hc.create hs name) _

/-- A collection of objects of the type that it belongs to is left alone as long as its own object
is one of those made before. -/
theorem detachedIn_nested {α : Type} [Stored σ α] (a : Ref α)
    (field : Lens α (List (String × Ref α))) (make : String → α) :
    (a.collection field make : NamedCollection σ).DetachedIn fun s =>
      a.id < ((Stored.heap : Lens σ (Heap α)).get s).size := by
  let heap : Lens σ (Heap α) := Stored.heap
  refine ⟨fun {s} ha name => congrArg field.get ?_, fun {s} ha name => ?_, fun {s} ha entries => ?_⟩
  · change (heap.get (heap.set ((heap.get s).alloc (make name)).2 s)).cell a.id = _
    rw [heap.get_set]
    exact Heap.cell_put_of_ne _ _ (Nat.ne_of_lt ha)
  · change a.id < (heap.get (heap.set ((heap.get s).alloc (make name)).2 s)).size
    rw [heap.get_set]
    exact Nat.lt_succ_of_lt ha
  · change a.id < (heap.get (heap.set _ s)).size
    rw [heap.get_set]
    exact ha

theorem isSome_getByName_iff : (c.getByName name s).isSome ↔ name ∈ c.names s := by
  rw [getByName, Option.isSome_map, find?_isSome_iff]

/-- An element stays the element of its name as long as no entry is taken away. -/
theorem getByName_of_prefix (hkept : c.entries.get s <+: c.entries.get s')
    (hname : name ∈ c.names s) : c.getByName name s' = c.getByName name s := by
  obtain ⟨added, hadded⟩ := hkept
  obtain ⟨r, hr⟩ := Option.isSome_iff_exists.1 (find?_isSome_iff.2 hname)
  obtain ⟨e, he, rfl⟩ := Option.map_eq_some_iff.1 hr
  rw [getByName, getByName, hr, find?, ← hadded, List.find?_append, he]
  rfl

/-- A request adds the name that it makes an element for, where it is missing, and takes nothing
away. -/
structure Step (c : NamedCollection σ) (created? : Option String) (s s' : σ) : Prop where
  kept : c.entries.get s <+: c.entries.get s'
  names : ∀ before, c.names s = before.eraseDups →
    c.names s' = (before ++ created?.toList).eraseDups
  mem_names : ∀ name, name ∈ c.names s' ↔ name ∈ c.names s ++ created?.toList

theorem Step.refl (c : NamedCollection σ) (s : σ) : c.Step none s s :=
  ⟨List.prefix_rfl, fun before h => by simpa using h, fun name => by simp⟩

theorem step_obtain (hcreate : c.entries.get (c.create name s).2 = c.entries.get s) :
    c.Step (some name) s (c.obtain name s).2 where
  kept := by
    rw [entries_obtain hcreate]
    split
    · exact List.prefix_rfl
    · exact List.prefix_append _ _
  names before hbefore := by
    rw [names_obtain_of hcreate, Option.toList_some, eraseDups_concat, hbefore]
    simp only [List.mem_eraseDups]
  mem_names n := by
    rw [names_obtain_of hcreate]
    split <;> simp_all

/-- A request of either kind is answered by the element that there is after it. -/
theorem serve_step (hc : c.DetachedIn I) (hs : I s) (r : ElementRequest (Handle h.named? c)) :
    ∃ s₁, I s₁ ∧ c.Step r.created? s s₁ ∧ r.serve.Gives s (c.getByName r.name s₁) s₁ := by
  cases r with
  | create via name =>
      refine ⟨(c.obtain name s).2, hc.obtain hs name, step_obtain (hc.entries hs name),
        Act.map_gives.2 ⟨c.handle (c.obtain name s).1, ?_, ?_⟩⟩
      · rw [via.maybeCreate_eq]
        exact maybeCreate_gives c name s
      · rw [ElementRequest.name, getByName, find?_obtain_of (hc.entries hs name)]
        rfl
  | lookup via name =>
      refine ⟨s, hs, .refl c s, ?_⟩
      rw [ElementRequest.serve, via.getByName_eq]
      exact Act.read_gives.2 ⟨rfl, rfl⟩

/-- What a collection has come to by requests, and how they were answered. -/
structure Served (c : NamedCollection σ) (requests : List (ElementRequest H)) (s : σ)
    (replies : List (Except Error (Option ObjectRef))) (s' : σ) : Prop where
  /-- Nothing is taken away. -/
  kept : c.entries.get s <+: c.entries.get s'
  /-- Its names are those that elements were ever requested for, each once, in the order in which
  they came first. -/
  names : ∀ before, c.names s = before.eraseDups →
    c.names s' = (before ++ created requests).eraseDups
  /-- There are elements of the names that were requested or were there, and of no others. -/
  found : ∀ name, (c.getByName name s').isSome ↔ name ∈ c.names s ++ created requests
  length : replies.length = requests.length
  /-- Whether it was to be made or looked for, a name always stands for the one element that it has
  at the end, or for none as long as none was requested. -/
  replies : ∀ {i r}, requests[i]? = some r → replies[i]? = some (Except.ok <|
    if r.name ∈ c.names s ++ created (requests.take (i + 1)) then c.getByName r.name s' else none)

theorem Served.nil (c : NamedCollection σ) (s : σ) :
    c.Served ([] : List (ElementRequest H)) s [] s where
  kept := List.prefix_rfl
  names before hbefore := by rw [created, List.filterMap_nil, List.append_nil, hbefore]
  found name := by rw [isSome_getByName_iff, created, List.filterMap_nil, List.append_nil]
  length := rfl
  replies hr := nomatch hr

theorem Served.cons {s₁ : σ} {r : ElementRequest H} {requests : List (ElementRequest H)}
    {replies : List (Except Error (Option ObjectRef))} (hstep : c.Step r.created? s s₁)
    (hserved : c.Served requests s₁ replies s') :
    c.Served (r :: requests) s (.ok (c.getByName r.name s₁) :: replies) s' := by
  -- What is requested of `s` by the first request is there in `s₁` already.
  have hmem : ∀ (name : String) (later : List (ElementRequest H)),
      name ∈ c.names s ++ created (r :: later) ↔ name ∈ c.names s₁ ++ created later := by
    intro name later
    simp only [ElementRequest.created_cons, List.mem_append, hstep.mem_names, or_assoc]
  refine ⟨hstep.kept.trans hserved.kept, fun before hbefore => ?_, fun name => ?_, ?_,
    fun {i q} hq => ?_⟩
  · rw [hserved.names _ (hstep.names before hbefore), ElementRequest.created_cons,
      List.append_assoc]
  · rw [hserved.found, hmem]
  · rw [List.length_cons, List.length_cons, hserved.length]
  · cases i with
    | zero =>
        -- The first reply is read off the state after it; if the name is there by then, its entry
        -- is kept by all later requests.
        obtain rfl : r = q := Option.some.inj hq
        refine congrArg (fun e => some (Except.ok e)) ?_
        rw [List.take_succ_cons, List.take_zero]
        have hone : r.name ∈ c.names s ++ created [r] ↔ r.name ∈ c.names s₁ := by
          rw [hmem, created, List.filterMap_nil, List.append_nil]
        by_cases hname : r.name ∈ c.names s₁
        · rw [if_pos (hone.2 hname), getByName_of_prefix hserved.kept hname]
        · rw [if_neg (mt hone.1 hname), ← Option.not_isSome_iff_eq_none, isSome_getByName_iff]
          exact hname
    | succ i =>
        rw [List.take_succ_cons]
        simp only [hmem]
        exact hserved.replies hq

theorem callAll_serve (hc : c.DetachedIn I) (hs : I s)
    (requests : List (ElementRequest (Handle h.named? c))) :
    ∃ replies s', (callAll ElementRequest.serve requests).Gives s replies s' ∧
      I s' ∧ c.Served requests s replies s' := by
  induction requests generalizing s with
  | nil => exact ⟨[], s, callAll_nil_gives _ s, hs, .nil c s⟩
  | cons r requests ih =>
      obtain ⟨s₁, hs₁, hstep, hr⟩ := serve_step hc hs r
      obtain ⟨replies, s', hrun, hs', hserved⟩ := ih hs₁
      exact ⟨_, s', callAll_cons_gives hr hrun, hs', .cons hstep hserved⟩

end NamedCollection

/-! ## All containers -/

/-- Calls may come through any handles of one container, in any order, and some of them may fail. A
list then holds what it held and behind it what it accepted, in order; a map has under each key what
it accepted last for it, and a cell what it accepted last at all. A named collection has the names
that elements were requested for, each once and in the order in which they came first, and each name
stands for one element throughout. Nothing is changed by what is refused or only looked for, and all
handles show the same. -/
theorem containers_shared (h : Host σ) (s : σ) :
    (∀ (c : Collection σ) (offers : List (Offer (Handle h.list? c) c.Item)), ∃ s',
      (callAll (Offer.make c.push Handle.append) offers).Gives s
        (offers.map (·.reply c.accept)) s' ∧
      c.items.get s' = c.items.get s ++ offers.filterMap (·.accepted? c.accept) ∧
      Shared h.list? c c.items c.accept Handle.append s s') ∧
    (∀ (m : MapSink σ) (offers : List (String × Offer (Handle h.map? m) m.Item)), ∃ s',
      (callAll (fun o => o.2.make (m.put o.1) (Handle.insert o.1)) offers).Gives s
        (offers.map (·.2.reply m.accept)) s' ∧
      (∀ key, (m.entries.get s').get? key =
        ((offers.filterMap fun o => (o.2.accepted? m.accept).map (o.1, ·)).reverse.lookup key).or
          ((m.entries.get s).get? key)) ∧
      ∀ key, Shared h.map? m m.entries m.accept (Handle.insert key) s s') ∧
    (∀ (p : PropertyCell σ) (offers : List (Offer (Handle h.property? p) p.Item)), ∃ s',
      (callAll (Offer.make p.setItem Handle.set) offers).Gives s
        (offers.map (·.reply p.accept)) s' ∧
      p.value.get s' =
        (offers.filterMap (·.accepted? p.accept)).getLast?.or (p.value.get s) ∧
      Shared h.property? p p.value p.accept Handle.set s s') ∧
    ∀ (c : NamedCollection σ) (I : σ → Prop), c.DetachedIn I → I s →
      ∀ requests : List (ElementRequest (Handle h.named? c)), ∃ replies s',
        (callAll ElementRequest.serve requests).Gives s replies s' ∧
        c.Served requests s replies s' ∧
        ∀ via : Handle h.named? c,
          (∀ {α : Type} (observe : NamedCollection σ → σ → α),
            via.see (observe · s') = some (observe c s')) ∧
          ∀ name, (via.getByName name).Gives s' (c.getByName name s') s' := by
  refine ⟨fun c offers => ⟨_, c.callAll_gives offers s, Lens.get_modify .., ?_⟩,
    fun m offers => ⟨_, m.callAll_gives offers s, fun key => ?_, fun key => ?_⟩,
    fun p offers => ⟨_, p.callAll_gives offers s, Lens.get_modify .., ?_⟩,
    fun c I hc hs requests => ?_⟩
  · exact .of_modify (fun via v => via.append_eq v) _ s
  · rw [Lens.get_modify, Dictionary.get?_foldl_insert_lookup]
  · exact .of_modify (fun via v => via.insert_eq key v) _ s
  · exact .of_modify (fun via v => via.set_eq v) _ s
  · obtain ⟨replies, s', hrun, -, hserved⟩ := NamedCollection.callAll_serve hc hs requests
    refine ⟨replies, s', hrun, hserved, fun via => ⟨fun observe => via.see_eq _, fun name => ?_⟩⟩
    rw [via.getByName_eq]
    exact Act.read_gives.2 ⟨rfl, rfl⟩

/-- A truth value is no word, and leaves the list to the words before and after it. A target makes
targets in a collection of its own; the second of them is not there when it is looked for first. -/
theorem containers_shared_targets :
    let world : Lab.World := (alloc (Lab.Target.new "root") Lab.World.empty).2
    let words : Collection Lab.World := (Ref.mk 0 : Ref Lab.Broken).list
      { get := Lab.Broken.words, set := fun v b => { b with words := v } }
    let wordsHandle : Handle Lab.host.list? words :=
      .erased ⟨⟨typeRef Lab.Broken, 0⟩, "words"⟩ rfl
    let targets : NamedCollection Lab.World := (Ref.mk 0 : Ref Lab.Target).collection
      { get := Lab.Target.targets, set := fun v t => { t with targets := v }
        set_get := fun t => by cases t; rfl } Lab.Target.new
    let targetsHandle : Handle Lab.host.named? targets :=
      .erased ⟨⟨typeRef Lab.Target, 0⟩, "targets"⟩ rfl
    (∃ s', (callAll (Offer.make words.push Handle.append)
        [.live wordsHandle (.string "a"), .live .typed (.boolean true), .item "b"]).Gives world
          [.ok (), .error (.host "expected string but got Bool(true)"), .ok ()] s' ∧
      words.items.get s' = ["a", "b"]) ∧
    ∃ s' x y, (callAll ElementRequest.serve [.create .typed "x", .lookup targetsHandle "y",
        .create targetsHandle "y", .create targetsHandle "x", .lookup .typed "y"]).Gives world
          [.ok (some x), .ok none, .ok (some y), .ok (some x), .ok (some y)] s' ∧
      targets.names s' = ["x", "y"] := by
  intro world words wordsHandle targets targetsHandle
  obtain ⟨hlist, -, -, hnamed⟩ := containers_shared Lab.host world
  obtain ⟨s', hrun, hitems, -⟩ := hlist words
    [.live wordsHandle (.string "a"), .live .typed (.boolean true), .item "b"]
  refine ⟨⟨s', hrun, hitems⟩, ?_⟩
  obtain ⟨replies, s', hrun, hserved, -⟩ := hnamed targets _
    (NamedCollection.detachedIn_nested ⟨0⟩ _ _) Nat.one_pos [.create .typed "x",
      .lookup targetsHandle "y", .create targetsHandle "y", .create targetsHandle "x",
      .lookup .typed "y"]
  obtain ⟨x, hx⟩ := Option.isSome_iff_exists.1 ((hserved.found "x").2 (by decide))
  obtain ⟨y, hy⟩ := Option.isSome_iff_exists.1 ((hserved.found "y").2 (by decide))
  have hreplies : replies = [.ok (some x), .ok none, .ok (some y), .ok (some x), .ok (some y)] := by
    refine List.ext_getElem? fun i => ?_
    match i with
    | 0 => exact (hserved.replies (i := 0) rfl).trans (congrArg (fun e => some (Except.ok e)) hx)
    | 1 => exact hserved.replies (i := 1) rfl
    | 2 => exact (hserved.replies (i := 2) rfl).trans (congrArg (fun e => some (Except.ok e)) hy)
    | 3 => exact (hserved.replies (i := 3) rfl).trans (congrArg (fun e => some (Except.ok e)) hx)
    | 4 => exact (hserved.replies (i := 4) rfl).trans (congrArg (fun e => some (Except.ok e)) hy)
    | i + 5 => exact List.getElem?_eq_none (by rw [hserved.length]; exact Nat.le_add_left _ _)
  exact ⟨s', x, y, hreplies ▸ hrun, hserved.names [] rfl⟩

end BuildReplay

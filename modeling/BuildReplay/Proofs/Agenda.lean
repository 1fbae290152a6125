import BuildReplay.Android.Project
import BuildReplay.Proofs.Project
import BuildReplay.Proofs.Table
import Mathlib.Data.List.Forall2

/-! # The agenda of a document

A document fixes in advance which calls a project receives, and in which order. They are made one
after the other, and none is made after one that fails; a list of plugins that cannot be read is
refused before the first of them. -/

namespace BuildReplay

open Act

variable {σ : Type}

/-- A call that a project receives while a document is applied. -/
inductive Call where
  | plugin (id : String)
  /-- The extension that a key names is looked up and configured. -/
  | configure (key : String) (v : Value)
  | dependencies (declarations : Value)
  | afterEvaluate

/-- The keys that name extensions. -/
def isExtensionKey (key : String) : Bool := key != pluginsKey && key != dependenciesKey

/-- The calls for a document that lists some plugins. -/
def agenda (ids : List String) (document : Table) : List Call :=
  ids.map .plugin
    ++ (document.filter fun e => isExtensionKey e.1).map (fun e => .configure e.1 e.2)
    ++ (document.get? dependenciesKey).toList.map .dependencies
    ++ [.afterEvaluate]

/-- An entry of the plugin list, with its identifier. -/
inductive NamesPlugin : Value → String → Prop where
  | text (id : String) : NamesPlugin (.string id) id
  | table {entries : Table} {id : String} : entries.get? "id" = some (.string id) →
      NamesPlugin (.table entries) id

/-- A document lists plugins of some identifiers; one without the key lists none. -/
inductive ListsPlugins (document : Table) : List String → Prop where
  | absent : document.get? pluginsKey = none → ListsPlugins document []
  | listed {entries : List Value} {ids : List String} :
      document.get? pluginsKey = some (.array entries) → List.Forall₂ NamesPlugin entries ids →
      ListsPlugins document ids

/-! ## Plugin lists -/

theorem NamesPlugin.pluginId_eq {v : Value} {id : String} (h : NamesPlugin v id) (index : Nat) :
    pluginId index v = .ok id := by
  cases h with
  | text => rfl
  | table hid => simp only [pluginId, hid]

theorem pluginId_of_unnamed {v : Value} (h : ∀ id, ¬NamesPlugin v id) (index : Nat) :
    ∃ reason, pluginId index v = .error (.invalidDeclaration (pluginPath index) reason) := by
  unfold pluginId
  split
  · exact absurd (.text _) (h _)
  · split
    · exact absurd (.table ‹_›) (h _)
    · exact ⟨_, rfl⟩
  · exact ⟨_, rfl⟩

/-- The entries are read from the first on, and the first that is no plugin is refused. -/
theorem mapM_pluginId_of_unnamed {before : List Value} {v : Value}
    (hbefore : ∀ u ∈ before, ∃ id, NamesPlugin u id) (hv : ∀ id, ¬NamesPlugin v id)
    (after : List Value) (k : Nat) :
    ∃ reason, ((before ++ v :: after).zipIdx k).mapM (fun e => pluginId e.2 e.1) =
      .error (.invalidDeclaration (pluginPath (k + before.length)) reason) := by
  induction before generalizing k with
  | nil =>
      obtain ⟨reason, hreason⟩ := pluginId_of_unnamed hv k
      refine ⟨reason, ?_⟩
      rw [List.nil_append, List.zipIdx_cons, List.mapM_cons]
      simp only [hreason]
      rfl
  | cons u before ih =>
      obtain ⟨id, hid⟩ := hbefore u List.mem_cons_self
      obtain ⟨reason, hreason⟩ := ih (fun w hw => hbefore w (List.mem_cons_of_mem u hw)) (k + 1)
      refine ⟨reason, ?_⟩
      rw [List.cons_append, List.zipIdx_cons, List.mapM_cons]
      simp only [hid.pluginId_eq, hreason]
      rw [List.length_cons, show k + (before.length + 1) = k + 1 + before.length by omega]
      rfl

theorem mapM_pluginId {entries : List Value} {ids : List String}
    (h : List.Forall₂ NamesPlugin entries ids) (k : Nat) :
    (entries.zipIdx k).mapM (fun e => pluginId e.2 e.1) = .ok ids := by
  induction h generalizing k with
  | nil => rfl
  | cons hv _ ih =>
      rw [List.zipIdx_cons, List.mapM_cons]
      simp only [hv.pluginId_eq, ih]
      rfl

/-- A list names plugins all along, or up to a first entry that is no plugin. -/
theorem exists_named_or_unnamed (entries : List Value) :
    (∃ ids, List.Forall₂ NamesPlugin entries ids) ∨
      ∃ before v after, entries = before ++ v :: after ∧
        (∀ u ∈ before, ∃ id, NamesPlugin u id) ∧ ∀ id, ¬NamesPlugin v id := by
  induction entries with
  | nil => exact .inl ⟨[], .nil⟩
  | cons u rest ih =>
      by_cases hu : ∃ id, NamesPlugin u id
      · obtain ⟨id, hid⟩ := hu
        rcases ih with ⟨ids, hids⟩ | ⟨before, v, after, rfl, hbefore, hv⟩
        · exact .inl ⟨id :: ids, .cons hid hids⟩
        · exact .inr ⟨u :: before, v, after, rfl, List.forall_mem_cons.2 ⟨⟨id, hid⟩, hbefore⟩, hv⟩
      · exact .inr ⟨[], u, rest, rfl, fun w hw => absurd hw List.not_mem_nil, not_exists.1 hu⟩

/-- A list that cannot be read is no array, or holds an entry that is no plugin. The error points at
the list, or at the first such entry. -/
inductive Unreadable : Value → Error → Prop where
  | list {v : Value} {reason : String} : (∀ entries, v ≠ .array entries) →
      Unreadable v (.invalidDeclaration "plugins" reason)
  | entry {before : List Value} {v : Value} {after : List Value} {reason : String} :
      (∀ u ∈ before, ∃ id, NamesPlugin u id) → (∀ id, ¬NamesPlugin v id) →
      Unreadable (.array (before ++ v :: after))
        (.invalidDeclaration ("plugins[" ++ toString before.length ++ "]") reason)

theorem pluginIds_unreadable {v : Value} (h : ∀ entries ids, v = .array entries →
    ¬List.Forall₂ NamesPlugin entries ids) : ∃ e, pluginIds v = .error e ∧ Unreadable v e := by
  cases v with
  | array entries =>
      rcases exists_named_or_unnamed entries with ⟨ids, hids⟩ | ⟨before, v, after, rfl, hbefore, hv⟩
      · exact absurd hids (h entries ids rfl)
      · obtain ⟨reason, hreason⟩ := mapM_pluginId_of_unnamed hbefore hv after 0
        rw [Nat.zero_add] at hreason
        exact ⟨_, hreason, .entry hbefore hv⟩
  | _ => exact ⟨_, rfl, .list fun _ heq => by cases heq⟩

namespace Project

variable (p : Project σ) (options : Options)

/-- What a call does to the project. -/
def receive : Call → Act σ Unit
  | .plugin id => p.applyPlugin id
  | .configure key v => p.applyKey options key v
  | .dependencies declarations => p.dependencies declarations
  | .afterEvaluate => p.afterEvaluate

/-- Receives calls one after the other. -/
def receiveAll : List Call → Act σ Unit
  | [] => pure ()
  | c :: rest => do p.receive options c; receiveAll rest

/-- From `s` on the calls are made, in this order and no others, and the outcome is that of the last
one: all before it have ended well, and it may have failed. -/
inductive Makes : List Call → σ → Except Error Unit → σ → Prop where
  | none (s : σ) : Makes [] s (.ok ()) s
  | next {c calls s s₁ r s'} : (p.receive options c).Gives s () s₁ → Makes calls s₁ r s' →
      Makes (c :: calls) s r s'
  | fails {c s e s'} : (p.receive options c).Raises s e s' → Makes [c] s (.error e) s'

/-! ## Calls in sequence -/

theorem receiveAll_append (calls later : List Call) :
    p.receiveAll options (calls ++ later) = (do
      p.receiveAll options calls
      p.receiveAll options later) := by
  induction calls with
  | nil => rfl
  | cons c calls ih => simp only [List.cons_append, receiveAll, ih, bind_assoc]

/-- Calls are made from the first on, and all of them unless one fails. -/
theorem exists_makes (calls : List Call) (s : σ) :
    ∃ made, made <+: calls ∧
      p.Makes options made s (p.receiveAll options calls s).1 (p.receiveAll options calls s).2 ∧
      ((p.receiveAll options calls s).1 = .ok () → made = calls) := by
  induction calls generalizing s with
  | nil => exact ⟨[], List.prefix_rfl, .none s, fun _ => rfl⟩
  | cons c calls ih =>
      rcases (p.receive options c).gives_or_raises s with ⟨⟨⟩, s₁, hc⟩ | ⟨e, s₁, hc⟩
      · obtain ⟨made, hprefix, hmakes, hall⟩ := ih s₁
        rw [receiveAll, hc.bind_eq]
        refine ⟨c :: made, (List.prefix_cons_inj c).2 hprefix, .next hc hmakes, fun hok => ?_⟩
        rw [hall hok]
      · rw [receiveAll, hc.bind]
        exact ⟨[c], ⟨calls, rfl⟩, .fails hc, fun hok => by cases hok⟩

/-! ## The phases as calls -/

theorem applyPlugins_eq (ids : List String) :
    p.applyPlugins ids = p.receiveAll options (ids.map .plugin) := by
  induction ids with
  | nil => rfl
  | cons id ids ih => simp only [applyPlugins, List.map_cons, receiveAll, receive, ih]

theorem applyKeys_eq (t : Table) :
    p.applyKeys options t = p.receiveAll options
      ((t.filter fun e => isExtensionKey e.1).map fun e => .configure e.1 e.2) := by
  induction t with
  | nil => rfl
  | cons e t ih =>
      obtain ⟨key, v⟩ := e
      rw [List.filter_cons]
      split
      · simp only [applyKeys, List.map_cons, receiveAll, receive, ih]
        exact if_pos ‹_›
      · simp only [applyKeys, ih]
        exact if_neg ‹_›

theorem takeDependencies_eq (document : Table) :
    p.takeDependencies document =
      p.receiveAll options ((document.get? dependenciesKey).toList.map .dependencies) := by
  unfold takeDependencies
  cases document.get? dependenciesKey with
  | none => rfl
  | some declarations => exact (bind_pure_unit).symm

theorem applyListed_eq {document : Table} {ids : List String} (h : ListsPlugins document ids) :
    p.applyListed document = p.receiveAll options (ids.map .plugin) := by
  unfold applyListed
  cases h with
  | absent hnone =>
      rw [hnone]
      rfl
  | listed hsome hids =>
      rw [hsome]
      simp only [pluginIds, mapM_pluginId hids]
      exact p.applyPlugins_eq options ids

/-- A document with a readable list of plugins is applied by making the calls of its agenda. -/
theorem apply_eq_receiveAll {document : Table} {ids : List String} (h : ListsPlugins document ids) :
    p.apply options document = p.receiveAll options (agenda ids document) := by
  have hlast : p.receiveAll options [.afterEvaluate] = p.afterEvaluate := bind_pure_unit
  rw [apply_eq, p.applyListed_eq options h, p.applyKeys_eq, p.takeDependencies_eq options, agenda,
    receiveAll_append, receiveAll_append, receiveAll_append, hlast]
  simp only [bind_assoc]

/-- Where the list of plugins cannot be read, no call is made. -/
theorem apply_of_pluginIds_error {document : Table} {v : Value} {e : Error}
    (h : document.get? pluginsKey = some v) (hv : pluginIds v = .error e) :
    p.apply options document = throw e := by
  rw [apply_eq, applyListed, h]
  simp only [hv]
  rfl

/-! ## Keys in another order -/

/-- The calls depend on where the keys of extensions stand among each other, and on no other
position. -/
theorem apply_of_moved {document document' : Table} (hnodup : document.keys.Nodup)
    (hperm : document'.Perm document)
    (hkeys : (document'.filter fun e => isExtensionKey e.1) =
      document.filter fun e => isExtensionKey e.1) :
    p.apply options document' = p.apply options document := by
  rw [apply_eq, apply_eq, applyListed, applyListed, takeDependencies, takeDependencies,
    Table.get?_perm hnodup hperm, Table.get?_perm hnodup hperm, p.applyKeys_eq, p.applyKeys_eq, hkeys]

/-- The phases of a document are in order, and end at the first failure. Calls are made from the
agenda: its beginning up to the call that fails, or all of it. A list of plugins that cannot be read
is refused before any call, at its first entry that is no plugin. It does not matter where the lists
of plugins and of dependencies stand. -/
theorem apply_makes_agenda (document : Table) :
    (∀ ids, ListsPlugins document ids → ∀ s r s', p.apply options document s = (r, s') →
      ∃ made, made <+: agenda ids document ∧ p.Makes options made s r s' ∧
        (r = .ok () → made = agenda ids document)) ∧
    ((∀ ids, ¬ListsPlugins document ids) → ∃ v e, document.get? "plugins" = some v ∧
      Unreadable v e ∧ p.apply options document = throw e) ∧
    ∀ document', document.keys.Nodup → document'.Perm document →
      (document'.filter fun e => isExtensionKey e.1) =
        (document.filter fun e => isExtensionKey e.1) →
      p.apply options document' = p.apply options document := by
  refine ⟨fun ids hids s r s' hrun => ?_, fun hnone => ?_, fun document' => p.apply_of_moved options⟩
  · obtain ⟨made, hprefix, hmakes, hall⟩ := p.exists_makes options (agenda ids document) s
    rw [← p.apply_eq_receiveAll options hids, hrun] at hmakes hall
    exact ⟨made, hprefix, hmakes, hall⟩
  · cases hget : document.get? pluginsKey with
    | none => exact absurd (.absent hget) (hnone [])
    | some v =>
        obtain ⟨e, hids, hunreadable⟩ := pluginIds_unreadable fun entries ids hv hnamed =>
          hnone ids (.listed (hv ▸ hget) hnamed)
        exact ⟨v, e, hget, hunreadable, p.apply_of_pluginIds_error options hget hids⟩

/-- An extension that is configured above the plugin that registers it, a plugin that is none, and
the plugins moved to the front. -/
theorem apply_makes_agenda_android :
    (∃ p', Android.ApplicationProject.project.Makes ⟨.strict, ⟨"/"⟩⟩
      [.plugin Android.applicationPlugin, .configure "android" (.table []), .afterEvaluate]
      (Android.ApplicationProject.new ⟨"/"⟩) (.ok ()) p') ∧
    (∃ e, Unreadable (.array [.boolean true]) e ∧ Android.ApplicationProject.project.apply
      ⟨.strict, ⟨"/"⟩⟩ [("plugins", .array [.boolean true])] = throw e) ∧
    Android.ApplicationProject.project.apply ⟨.strict, ⟨"/"⟩⟩
        [("plugins", .array [.string Android.applicationPlugin]), ("android", .table [])] =
      Android.ApplicationProject.project.apply ⟨.strict, ⟨"/"⟩⟩
        [("android", .table []), ("plugins", .array [.string Android.applicationPlugin])] := by
  refine ⟨?_, ?_, ?_⟩
  · obtain ⟨made, -, hmakes, hall⟩ := (apply_makes_agenda Android.ApplicationProject.project
      ⟨.strict, ⟨"/"⟩⟩
      [("android", .table []), ("plugins", .array [.string Android.applicationPlugin])]).1
      [Android.applicationPlugin] (.listed rfl (.cons (.text _) .nil))
      (Android.ApplicationProject.new ⟨"/"⟩) (.ok ()) _ rfl
    exact ⟨_, hall rfl ▸ hmakes⟩
  · obtain ⟨v, e, hget, hunreadable, happly⟩ := (apply_makes_agenda
      Android.ApplicationProject.project ⟨.strict, ⟨"/"⟩⟩
      [("plugins", .array [.boolean true])]).2.1 (by
        rintro ids (hnone | ⟨hget, hids⟩)
        · cases hnone
        · cases hget
          cases hids with
          | cons hid _ => cases hid)
    cases hget
    exact ⟨e, hunreadable, happly⟩
  · exact (apply_makes_agenda Android.ApplicationProject.project ⟨.strict, ⟨"/"⟩⟩
      [("android", .table []), ("plugins", .array [.string Android.applicationPlugin])]).2.2 _
      (by decide) (.swap _ _ _) rfl

end Project

end BuildReplay

import BuildReplay.Lab.Host
import BuildReplay.Proofs.Container
import BuildReplay.Proofs.Own
import Mathlib.Data.List.TakeWhile

/-! # Filling lists and maps

Arrays and tables are taken into containers item by item. The first item that does not convert, or
that the container refuses, ends the run, and what was taken before it stays. -/

namespace BuildReplay

variable {σ β ι : Type}

/-! ## Runs that stop at the first failure -/

/-- The longest beginning of a list all of whose members are taken. -/
def takenPrefix (item? : β → Option ι) (items : List β) : List β :=
  items.takeWhile fun b => (item? b).isSome

theorem takenPrefix_eq_self_iff {item? : β → Option ι} {items : List β} :
    takenPrefix item? items = items ↔ ∀ b ∈ items, (item? b).isSome :=
  List.takeWhile_eq_self_iff

/-- All members of the prefix are taken, so what is read off the items made is read off them. -/
theorem map_filterMap_takenPrefix {γ : Type} {item? : β → Option ι} {f : ι → γ} {g : β → γ}
    (h : ∀ b a, item? b = some a → f a = g b) (items : List β) :
    ((takenPrefix item? items).filterMap item?).map f = (takenPrefix item? items).map g := by
  unfold takenPrefix
  induction items with
  | nil => rfl
  | cons b rest ih =>
      cases hb : item? b with
      | some a =>
          rw [List.takeWhile_cons_of_pos (by rw [hb]; rfl), List.filterMap_cons_some hb,
            List.map_cons, List.map_cons, ih, h b a hb]
      | none => rw [List.takeWhile_cons_of_neg (by rw [hb]; simp), List.filterMap_nil]; rfl

/-- A run changes the state by the items before the first that is not taken, and ends as that one
does. -/
theorem inOrder_takenPrefix {step : β → Act σ Unit} {item? : β → Option ι} {put : ι → σ → σ}
    {refuses : β → Error → Prop}
    (htaken : ∀ {b a} s, item? b = some a → (step b).Gives s () (put a s))
    (hrefused : ∀ {b} s, item? b = none → ∃ e, refuses b e ∧ (step b).Raises s e s)
    (items : List β) (s : σ) :
    (inOrder step items s).2 =
      ((takenPrefix item? items).filterMap item?).foldl (fun s a => put a s) s ∧
    ((inOrder step items s).1 = .ok () ↔ takenPrefix item? items = items) ∧
    ∀ b, items[(takenPrefix item? items).length]? = some b →
      ∃ e, refuses b e ∧ (inOrder step items s).1 = .error e := by
  unfold takenPrefix
  induction items generalizing s with
  | nil => exact ⟨rfl, ⟨fun _ => rfl, fun _ => rfl⟩, fun b hb => nomatch hb⟩
  | cons b rest ih =>
      rw [inOrder]
      cases hb : item? b with
      | some a =>
          obtain ⟨hstate, hok, hstop⟩ := ih (put a s)
          rw [(htaken s hb).bind_eq, List.takeWhile_cons_of_pos (by rw [hb]; rfl),
            List.filterMap_cons_some hb]
          refine ⟨hstate, ?_, hstop⟩
          rw [hok, List.cons_inj_right]
      | none =>
          obtain ⟨e, he, hraises⟩ := hrefused s hb
          rw [hraises.bind, List.takeWhile_cons_of_neg (by rw [hb]; simp)]
          refine ⟨rfl, by simp, fun b' hb' => ?_⟩
          cases hb'
          exact ⟨e, he, rfl⟩

/-! ## Items of a container -/

/-- What a container makes of a document value for an item of the declared type. -/
def taken? (accept : Live → Except Error ι) (root : Path) (t : ValueType) (v : Value) : Option ι :=
  (convert? root t v).bind fun live => (accept live).toOption

/-- The errors for a value that a container does not take: it does not convert, which is said under
the path of the value, or what it converts to is refused. -/
inductive Refuses (accept : Live → Except Error ι) (root : Path) (t : ValueType) (path : String)
    (v : Value) : Error → Prop where
  | conversion : convert? root t v = none →
      Refuses accept root t path v (.unsupportedCoercion path t.text v.describe)
  | container {live : Live} {e : Error} : convert? root t v = some live → accept live = .error e →
      Refuses accept root t path v e

/-- One value is converted, accepted and put into a container. -/
def takeItem (accept : Live → Except Error ι) (root : Path) (t : ValueType) (put : ι → σ → σ)
    (path : String) (v : Value) : Act σ Unit := do
  let live ← .ofExcept (coerce root (some v) t path)
  let a ← .ofExcept (accept live)
  .modify (put a)

section TakeItem

variable {accept : Live → Except Error ι} {root : Path} {t : ValueType} {v : Value}

theorem takeItem_gives (put : ι → σ → σ) (path : String) (s : σ) {a : ι}
    (h : taken? accept root t v = some a) :
    (takeItem accept root t put path v).Gives s () (put a s) := by
  obtain ⟨live, hlive, ha⟩ := Option.bind_eq_some_iff.1 h
  have haccept : accept live = .ok a := by
    cases hr : accept live with
    | ok b =>
        rw [hr] at ha
        cases ha
        rfl
    | error e =>
        rw [hr] at ha
        cases ha
  refine Act.bind_gives.2 ⟨live, s, Act.ofExcept_gives.2 ⟨?_, rfl⟩, ?_⟩
  · simp only [coerce, hlive]
  · exact Act.bind_gives.2 ⟨a, s, Act.ofExcept_gives.2 ⟨haccept, rfl⟩, Act.modify_gives.2 rfl⟩

theorem takeItem_raises (put : ι → σ → σ) (path : String) (s : σ)
    (h : taken? accept root t v = none) :
    ∃ e, Refuses accept root t path v e ∧ (takeItem accept root t put path v).Raises s e s := by
  unfold taken? at h
  cases hlive : convert? root t v with
  | none =>
      refine ⟨_, .conversion hlive, Act.Raises.bind (Act.ofExcept_raises.2 ⟨?_, rfl⟩) _⟩
      simp only [coerce, hlive]
  | some live =>
      cases haccept : accept live with
      | ok a =>
          rw [hlive, Option.bind_some, haccept] at h
          cases h
      | error e =>
          refine ⟨e, .container hlive haccept, Act.bind_raises.2 (.inr ⟨live, s, ?_, ?_⟩)⟩
          · exact Act.ofExcept_gives.2 ⟨by simp only [coerce, hlive], rfl⟩
          · exact Act.Raises.bind (Act.ofExcept_raises.2 ⟨haccept, rfl⟩) _

end TakeItem

/-! ## Lists -/

section Containers

variable {host : Host σ} {sc : Scope σ} {slot : Slot}

theorem appendAll_eq_inOrder {c : Collection σ} (hlist : host.list? slot = some c)
    (t : ValueType) (k : Nat) (items : List Value) :
    appendAll host sc slot t k items =
      inOrder (fun e => takeItem c.accept sc.options.projectRoot t
        (fun a => c.items.modify (· ++ [a])) (itemPath sc.keyPath e.2) e.1) (items.zipIdx k) := by
  induction items generalizing k with
  | nil => rfl
  | cons v items ih =>
      rw [appendAll, List.zipIdx_cons, inOrder, ← ih, takeItem, bind_assoc]
      simp only [Host.append, hlist, Collection.append]

/-- Where a predicate ignores the numbers, the numbered prefix is the prefix, numbered. -/
theorem takenPrefix_zipIdx (item? : β → Option ι) (items : List β) :
    (takenPrefix (fun e => item? e.1) items.zipIdx).map (·.1) = takenPrefix item? items := by
  unfold takenPrefix
  conv_rhs => rw [← List.zipIdx_map_fst 0 items, List.takeWhile_map]
  rfl

/-- An array is taken into a list up to the first item that is not taken. -/
theorem appendAll_takenPrefix {c : Collection σ} (hlist : host.list? slot = some c)
    (t : ValueType) (items : List Value) (s : σ) :
    let item? := taken? c.accept sc.options.projectRoot t
    let taken := takenPrefix item? items
    let run := appendAll host sc slot t 0 items s
    run.2 = c.items.modify (· ++ taken.filterMap item?) s ∧
    (run.1 = .ok () ↔ taken = items) ∧
    ∀ v, items[taken.length]? = some v →
      ∃ e, Refuses c.accept sc.options.projectRoot t (itemPath sc.keyPath taken.length) v e ∧
        run.1 = .error e := by
  intro item? taken run
  let step := fun e : Value × Nat => takeItem c.accept sc.options.projectRoot t
    (fun a => c.items.modify (· ++ [a])) (itemPath sc.keyPath e.2) e.1
  have htaken : ∀ {e : Value × Nat} {a} s, item? e.1 = some a →
      (step e).Gives s () (c.items.modify (· ++ [a]) s) := fun s h => takeItem_gives _ _ s h
  have hrefused : ∀ {e : Value × Nat} s, item? e.1 = none →
      ∃ err, Refuses c.accept sc.options.projectRoot t (itemPath sc.keyPath e.2) e.1 err ∧
        (step e).Raises s err s := fun s h => takeItem_raises _ _ s h
  obtain ⟨hstate, hok, hstop⟩ := inOrder_takenPrefix htaken hrefused items.zipIdx s
  rw [← appendAll_eq_inOrder hlist] at hstate hok hstop
  have hbeginning : (takenPrefix (fun e => item? e.1) items.zipIdx).map (·.1) = taken :=
    takenPrefix_zipIdx item? items
  have hlength : (takenPrefix (fun e => item? e.1) items.zipIdx).length = taken.length := by
    rw [← hbeginning, List.length_map]
  refine ⟨?_, hok.trans ?_, fun v hv => ?_⟩
  · rw [foldl_append_items] at hstate
    rw [hstate, ← hbeginning, List.filterMap_map]
    rfl
  · rw [takenPrefix_eq_self_iff, takenPrefix_eq_self_iff]
    conv_rhs => rw [← List.zipIdx_map_fst 0 items]
    rw [List.forall_mem_map]
  · obtain ⟨e, he, hrun⟩ := hstop (v, taken.length) (by
      rw [hlength, List.getElem?_zipIdx, hv, Nat.zero_add]
      rfl)
    exact ⟨e, he, hrun⟩

/-! ## Maps -/

theorem insertAll_eq_takeItem {m : MapSink σ} (hmap : host.map? slot = some m) (t : ValueType)
    (entries : Table) :
    insertAll host sc slot t entries = inOrder (fun e => takeItem m.accept sc.options.projectRoot t
      (fun a => m.entries.modify (·.insert e.1 a)) (sc.keyPath ++ "." ++ e.1) e.2) entries := by
  rw [insertAll_eq_inOrder]
  congr 1
  funext e
  simp only [insertEntry, takeItem, Host.insert, hmap, MapSink.insert]

/-- A table is taken into a map up to the first entry that is not taken. -/
theorem insertAll_takenPrefix {m : MapSink σ} (hmap : host.map? slot = some m)
    (t : ValueType) (entries : Table) (s : σ) :
    let item? := fun e : String × Value =>
      (taken? m.accept sc.options.projectRoot t e.2).map (e.1, ·)
    let taken := takenPrefix item? entries
    let run := insertAll host sc slot t entries s
    run.2 = m.entries.modify
      (fun d => (taken.filterMap item?).foldl (fun d e => d.insert e.1 e.2) d) s ∧
    (run.1 = .ok () ↔ taken = entries) ∧
    ∀ key v, entries[taken.length]? = some (key, v) →
      ∃ e, Refuses m.accept sc.options.projectRoot t (sc.keyPath ++ "." ++ key) v e ∧
        run.1 = .error e := by
  intro item? taken run
  let step := fun e : String × Value => takeItem m.accept sc.options.projectRoot t
    (fun a => m.entries.modify (·.insert e.1 a)) (sc.keyPath ++ "." ++ e.1) e.2
  have htaken : ∀ {e : String × Value} {a : String × m.Item} s, item? e = some a →
      (step e).Gives s () (m.entries.modify (·.insert a.1 a.2) s) := by
    intro e a s h
    obtain ⟨a, ha, rfl⟩ := Option.map_eq_some_iff.1 h
    exact takeItem_gives (fun a => m.entries.modify (·.insert e.1 a)) _ s ha
  have hrefused : ∀ {e : String × Value} s, item? e = none →
      ∃ err, Refuses m.accept sc.options.projectRoot t (sc.keyPath ++ "." ++ e.1) e.2 err ∧
        (step e).Raises s err s :=
    fun s h => takeItem_raises _ _ s (Option.map_eq_none_iff.1 h)
  obtain ⟨hstate, hok, hstop⟩ := inOrder_takenPrefix htaken hrefused entries s
  rw [← insertAll_eq_takeItem hmap] at hstate hok hstop
  exact ⟨hstate.trans (foldl_insert_entries m _ s), hok, fun key v hv => hstop (key, v) hv⟩

/-- What is made of a table's entries, with their keys. -/
theorem keys_filterMap_takenPrefix (item? : Value → Option ι) (entries : Table) :
    ((takenPrefix (fun e : String × Value => (item? e.2).map (e.1, ·)) entries).filterMap
      fun e => (item? e.2).map (e.1, ·)).map (·.1) =
    (takenPrefix (fun e : String × Value => (item? e.2).map (e.1, ·)) entries).map (·.1) := by
  refine map_filterMap_takenPrefix (fun e a h => ?_) entries
  obtain ⟨item, -, rfl⟩ := Option.map_eq_some_iff.1 h
  rfl

end Containers

/-- Lists and maps take the longest beginning of an array or a table whose values all convert and
are accepted: a list adds them to its end, in order, and a map puts them over what it has under
their keys, and changes no other key. All is well if that is the whole; else the error is that of
the first value left out, and where it does not convert, it is said at its index or key. -/
theorem containers_take_beginning (host : Host σ) (sc : Scope σ) (t : ValueType) (s : σ) :
    (∀ slot c, host.list? slot = some c → ∀ items : List Value,
      let item? := taken? c.accept sc.options.projectRoot t
      let taken := takenPrefix item? items
      let run := appendAll host sc slot t 0 items s
      run.2 = c.items.modify (· ++ taken.filterMap item?) s ∧
      (run.1 = .ok () ↔ taken = items) ∧
      ∀ v, items[taken.length]? = some v →
        ∃ e, Refuses c.accept sc.options.projectRoot t (itemPath sc.keyPath taken.length) v e ∧
          run.1 = .error e) ∧
    ∀ slot m, host.map? slot = some m → ∀ entries : Table,
      let item? := fun e : String × Value =>
        (taken? m.accept sc.options.projectRoot t e.2).map (e.1, ·)
      let taken := takenPrefix item? entries
      let run := insertAll host sc slot t entries s
      run.2 = m.entries.modify
        (fun d => (taken.filterMap item?).foldl (fun d e => d.insert e.1 e.2) d) s ∧
      (∀ key, (m.entries.get run.2).get? key =
        ((taken.filterMap item?).reverse.lookup key).or ((m.entries.get s).get? key)) ∧
      (∀ key, key ∈ (m.entries.get run.2).keys ↔
        key ∈ taken.map (·.1) ∨ key ∈ (m.entries.get s).keys) ∧
      (run.1 = .ok () ↔ taken = entries) ∧
      ∀ key v, entries[taken.length]? = some (key, v) →
        ∃ e, Refuses m.accept sc.options.projectRoot t (sc.keyPath ++ "." ++ key) v e ∧
          run.1 = .error e := by
  refine ⟨fun slot c hlist items => appendAll_takenPrefix hlist t items s,
    fun slot m hmap entries => ?_⟩
  intro item? taken run
  obtain ⟨hstate, hok, hstop⟩ : _ ∧ _ ∧ _ := @insertAll_takenPrefix σ host sc slot m hmap t entries s
  refine ⟨hstate, fun key => ?_, fun key => ?_, hok, hstop⟩
  · change (m.entries.get (insertAll host sc slot t entries s).2).get? key = _
    rw [hstate, Lens.get_modify, Dictionary.get?_foldl_insert_lookup]
  · change key ∈ (m.entries.get (insertAll host sc slot t entries s).2).keys ↔ _
    rw [hstate, Lens.get_modify, Dictionary.mem_keys_foldl_insert, keys_filterMap_takenPrefix]

/-- Of four words, the two before the truth value are added. A text converts, but the map of numbers
refuses it. -/
theorem containers_take_beginning_broken :
    let self : Ref Lab.Broken := ⟨0⟩
    let words := appendAll Lab.host ⟨⟨.strict, ⟨"/"⟩⟩, ["module", "words"], []⟩
      ⟨self.object, "words"⟩ .string 0 [.string "a", .string "a", .boolean true, .string "b"]
      Lab.World.empty
    let numbers := insertAll Lab.host ⟨⟨.strict, ⟨"/"⟩⟩, ["module", "numbers"], []⟩
      ⟨self.object, "numbers"⟩ .string [("n", .string "one")] Lab.World.empty
    (self.get words.2).words = ["a", "a"] ∧
    words.1 = .error (.unsupportedCoercion "module.words[2]" "String" "boolean true") ∧
    (self.get numbers.2).numbers.keys = [] ∧
    numbers.1 = .error (.host "expected int but got Str(\"one\")") := by
  intro self words numbers
  obtain ⟨hstate, -, hstop⟩ := (containers_take_beginning Lab.host
    ⟨⟨.strict, ⟨"/"⟩⟩, ["module", "words"], []⟩ .string Lab.World.empty).1 ⟨self.object, "words"⟩ _
      rfl [.string "a", .string "a", .boolean true, .string "b"]
  obtain ⟨hstate', -, -, -, hstop'⟩ := (containers_take_beginning Lab.host
    ⟨⟨.strict, ⟨"/"⟩⟩, ["module", "numbers"], []⟩ .string Lab.World.empty).2
      ⟨self.object, "numbers"⟩ _ rfl [("n", .string "one")]
  have hpath : itemPath (".".intercalate ["module", "words"]) 2 = "module.words[2]" := by decide
  obtain ⟨e, he, hwords⟩ := hstop (.boolean true) rfl
  obtain ⟨e', he', hnumbers⟩ := hstop' "n" (.string "one") rfl
  refine ⟨?_, ?_, ?_, ?_⟩
  · exact congrArg (fun w => ((Ref.mk 0 : Ref Lab.Broken).get w : Lab.Broken).words) hstate
  · cases he with
    | conversion =>
        rw [← hpath]
        exact hwords
    | container hlive => cases hlive
  · exact congrArg (fun w => ((Ref.mk 0 : Ref Lab.Broken).get w : Lab.Broken).numbers.keys) hstate'
  · cases he' with
    | conversion hlive => cases hlive
    | container hlive haccept =>
        cases hlive
        cases haccept
        exact hnumbers

end BuildReplay

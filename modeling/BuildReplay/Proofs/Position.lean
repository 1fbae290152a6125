import BuildReplay.Proofs.Enclosure
import BuildReplay.Proofs.Obedience

/-! # Where errors point

Where a host's own effects fail with its own errors only, every other error of a walk has a path,
and the path is that of something in the document: the value of a key, an item of its array, or a
parameter of its request. -/

namespace BuildReplay

open Act Law

variable {σ : Type}

/-- Following the keys down through tables leads from the first value to the second. -/
inductive Value.Holds : Value → List String → Value → Prop where
  | here {v} : Holds v [] v
  | under {t key v keys w} : (key, v) ∈ t → Holds v keys w → Holds (.table t) (key :: keys) w

theorem Value.holds_cons_iff {t : Table} {key : String} {keys : List String} {w : Value} :
    (Value.table t).Holds (key :: keys) w ↔ ∃ v, (key, v) ∈ t ∧ v.Holds keys w := by
  constructor
  · rintro (_ | ⟨hmem, h⟩)
    exact ⟨_, hmem, h⟩
  · rintro ⟨v, hmem, h⟩
    exact .under hmem h

theorem Value.Holds.snoc {u v : Value} {keys : List String} {t : Table} {key : String}
    (h : u.Holds keys (.table t)) (hmem : (key, v) ∈ t) : u.Holds (keys ++ [key]) v := by
  generalize hw : Value.table t = w at h
  induction h with
  | here =>
      subst hw
      exact .under hmem .here
  | under hfirst _ ih => exact .under hfirst (ih hw)

/-- The error is about something in a document that stands below some outer keys. -/
inductive Error.PointsInto (outer : List String) (d : Table) (e : Error) : Prop where
  /-- The value of a key. -/
  | value {keys v} : keys ≠ [] → (Value.table d).Holds keys v →
      e.path? = some (".".intercalate (outer ++ keys)) → PointsInto outer d e
  /-- An item of the array of a key. -/
  | item {keys items i} : keys ≠ [] → (Value.table d).Holds keys (.array items) →
      i < items.length → e.path? = some (itemPath (".".intercalate (outer ++ keys)) i) →
      PointsInto outer d e
  /-- A parameter of a request. -/
  | param {keys request params i} : keys.getLast? = some dispatchKey →
      (Value.table d).Holds keys (.table request) →
      Table.get? request "params" = some (.array params) → i < params.length →
      e.path? = some (itemPath (".".intercalate (outer ++ keys)) i) → PointsInto outer d e

/-! ## Paths -/

/-- The parts of a dotted text, empty ones included. -/
def dottedParts (text : String) : List String := (text.toList.splitOn '.').map String.ofList

theorem pathParts_eq_filter (text : String) :
    Scope.pathParts text = (dottedParts text).filter fun part => !part.isEmpty := rfl

theorem dottedParts_intercalate {parts : List String} (hne : parts ≠ [])
    (h : ∀ part ∈ parts, '.' ∉ part.toList) : dottedParts (".".intercalate parts) = parts := by
  have hsplit : (".".intercalate parts).toList.splitOn '.' = parts.map String.toList := by
    rw [String.toList_intercalate]
    refine List.splitOn_intercalate '.' (fun l hl => ?_) (by simpa using hne)
    obtain ⟨part, hpart, rfl⟩ := List.mem_map.1 hl
    exact h part hpart
  rw [dottedParts, hsplit, List.map_map]
  simp only [Function.comp_def, String.ofList_toList, List.map_id']

/-- A path of parts without dots has these parts. -/
theorem Scope.pathParts_intercalate {parts : List String}
    (h : ∀ part ∈ parts, part ≠ "" ∧ '.' ∉ part.toList) :
    pathParts (".".intercalate parts) = parts := by
  rcases eq_or_ne parts [] with rfl | hne
  · rfl
  rw [pathParts_eq_filter, dottedParts_intercalate hne fun part hpart => (h part hpart).2]
  exact List.filter_eq_self.2 fun part hpart => by simpa using (h part hpart).1

theorem intercalate_snoc {parts : List String} (h : parts ≠ []) (part : String) :
    ".".intercalate parts ++ "." ++ part = ".".intercalate (parts ++ [part]) := by
  rw [String.intercalate_append_of_ne_nil h (by simp), String.intercalate_singleton]

theorem exists_of_bind_eq_ok {ε α β : Type} {x : Except ε α} {f : α → Except ε β} {b : β}
    (h : x >>= f = .ok b) : ∃ a, x = .ok a ∧ f a = .ok b := by
  cases x with
  | error e => cases h
  | ok a => exact ⟨a, rfl, h⟩

/-- Only a request with an array of parameters has any. -/
theorem DispatchRequest.params_of_lt {v : Value} {request : DispatchRequest} {i : Nat}
    (h : ofValue v = .ok request) (hi : i < request.params.length) :
    ∃ t, v = .table t ∧ Table.get? t "params" = some (.array request.params) := by
  cases v with
  | table t =>
      refine ⟨t, rfl, ?_⟩
      simp only [ofValue] at h
      obtain ⟨target, -, h⟩ := exists_of_bind_eq_ok h
      obtain ⟨method, -, h⟩ := exists_of_bind_eq_ok h
      split at h
      · cases h
        exact absurd hi (Nat.not_lt_zero i)
      · cases h
        assumption
      · cases h
  | _ => cases h

/-! ## Keys -/

section Keys

variable {outer : Scope σ} {shape : Shape σ} {es : List (Enclosure σ)} {path : List String}
  {d t : Table} {key : String} {v : Value} {e : Error}

/-- The errors that the mapper words itself point at the key, or below it. -/
theorem OwnError.pointsInto (h : OwnError (outer.inside es (path ++ [key])) shape key v e)
    (ht : (Value.table d).Holds path (.table t)) (hmem : (key, v) ∈ t) :
    e.PointsInto outer.path d := by
  have hv : (Value.table d).Holds (path ++ [key]) v := ht.snoc hmem
  have hne : path ++ [key] ≠ [] := by simp
  cases h with
  | here hpath _ _ _ => exact .value hne hv hpath
  | item heq hi =>
      subst heq
      exact .item hne hv hi rfl
  | param hkey hrequest hi =>
      obtain ⟨request, rfl, hparams⟩ := DispatchRequest.params_of_lt hrequest hi
      exact .param (by simp [hkey]) hv hparams hi rfl
  | entry heq hentry =>
      subst heq
      refine .value (by simp) (hv.snoc hentry) ?_
      rw [← List.append_assoc, ← intercalate_snoc (by simp)]
      rfl

theorem OwnError.ne_missingValue {sc : Scope σ} (h : OwnError sc shape key v e) (p : String) :
    e ≠ .missingValue p := by
  cases h with
  | here _ hmissing _ _ => exact hmissing p
  | item _ _ => exact fun heq => by cases heq
  | param _ _ _ => exact fun heq => by cases heq
  | entry _ _ => exact fun heq => by cases heq

end Keys

/-! ## Walks -/

section Walks

variable {host : Host σ} {start : Task σ × σ} {es : List (Enclosure σ)} {path : List String}
  {target : Next} {t : Table}

/-- The tables that a walk comes to stand in the document where their scopes say. -/
theorem Enclosed.holds {sc : Scope σ} {r : ObjectRef} {d : Table} {s : σ}
    (h : Enclosed host (.next sc (.object r) (.table d), s) es path target t) :
    (Value.table d).Holds path (.table t) := by
  induction h with
  | document heq _ =>
      cases heq
      exact .here
  | object _ hmem _ _ _ ih => exact ih.snoc hmem
  | elements _ hmem _ _ ih => exact ih.snoc hmem
  | element _ hmem _ _ _ ih => exact ih.snoc hmem

/-- The types of the objects around a table obey what the host obeys. -/
theorem Enclosed.shapes_obey {L : Law σ} (hhost : host.Obeys L)
    (h : Enclosed host start es path target t) : ∀ e ∈ es, e.shape.Obeys L :=
  h.shapes hhost.shape

theorem Scope.inside_obeys {L : Law σ} {options : Options} {above : String}
    (h : ∀ e ∈ es, e.shape.Obeys L) : ((top options above).inside es path).Obeys L := by
  intro self shape hframe
  rcases mem_frames_inside.1 hframe with ⟨e, he, heq | ⟨c, -, heq⟩⟩ | hframe
  · cases heq
    exact h e he
  · cases heq
  · exact absurd hframe not_mem_top

variable (hhost : ∀ P : Error → Prop, (∀ message, P (.host message)) →
    host.Obeys (keeps (fun _ => True) P))
  (hcreate : ∀ {slot name s e s'}, (host.maybeCreate slot name).Raises s e s' →
    ∃ message, e = .host message)
include hhost hcreate

/-- Every error of a document that is not the host's own points into the document. -/
theorem replay_error {options : Options} {above : String} {d : Table} {r : ObjectRef} {s s' : σ}
    {e : Error} (h : (replay host options above d r).Raises s e s') :
    (∃ message, e = .host message) ∨
      e.PointsInto (Scope.pathParts above) d ∧ ∀ p, e ≠ .missingValue p := by
  obtain ⟨⟨task, s₁⟩, hreach, hfails⟩ := Task.replay_breaks h
  have hstands := hreach.stands
  have hobeys : host.Obeys hostOnly := hhost _ fun message => ⟨message, rfl⟩
  cases hfails with
  | @key sc shape self key v rest _ _ _ hkey =>
      cases hstands with
      | @entries _ enc es path t _ _ henclosed hsuffix hsc =>
          subst hsc
          rw [Task.inside_key] at hkey
          have hmem : (key, v) ∈ t := hsuffix.subset List.mem_cons_self
          have hshapes := henclosed.shapes_obey hobeys
          rcases hobeys.keyStep_error (Scope.inside_obeys hshapes)
            (hshapes enc List.mem_cons_self) hkey with hown | hmessage
          · exact .inr ⟨hown.pointsInto henclosed.holds hmem, hown.ne_missingValue⟩
          · exact .inl hmessage
  | object hshape => exact .inl ((hobeys.shapeOf _ _ trivial).2 _ _ hshape)
  | element hraises => exact .inl (hcreate hraises)
  | entry hv =>
      cases hstands with
      | elements henclosed hsuffix hsc =>
          subst hsc
          rw [Task.inside_key]
          refine .inr ⟨.value (by simp) (henclosed.holds.snoc (hsuffix.subset List.mem_cons_self))
            rfl, fun p heq => by cases heq⟩

end Walks

end BuildReplay

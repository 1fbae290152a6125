/-!
# Paths

A path is its text. Joining and taking the parent work on the text and normalise nothing; comparison
reads it as components, which overlook repeated slashes and inner dots.
-/

namespace BuildReplay

/-- A file path. -/
structure Path where
  text : String
deriving DecidableEq, Repr, Inhabited

namespace Path

def isAbsolute (p : Path) : Bool := p.text.toList.head? == some '/'

/-- `q` seen from `p`: an absolute `q` stands for itself, and an empty one leaves a slash at the end
of `p`. -/
def join (p q : Path) : Path :=
  if q.isAbsolute || p.text.isEmpty then q
  else if p.text.toList.getLast? == some '/' then ⟨p.text ++ q.text⟩
  else ⟨p.text ++ "/" ++ q.text⟩

instance : Div Path := ⟨join⟩

/-- The pieces of a text between slashes; there is always one. -/
def segments : List Char → List (List Char)
  | [] => [[]]
  | c :: rest =>
    if c = '/' then [] :: segments rest
    else match segments rest with
      | [] => [[c]]
      | s :: ss => (c :: s) :: ss

/-- Pieces put together again with slashes between them. -/
def ofSegments : List (List Char) → List Char
  | [] => []
  | [s] => s
  | s :: ss => s ++ '/' :: ofSegments ss

/-- An empty piece, or a single dot. -/
def isTrivial (s : List Char) : Bool := s == [] || s == ['.']

/-- What a path starts with: a slash, a dot that stands for the working directory, or a name. -/
inductive Anchor where
  | root
  | here
  | name
deriving DecidableEq, Repr

/-- The anchor of a path, and the rest of its text. -/
def anchored : List Char → Anchor × List Char
  | '/' :: rest => (.root, rest)
  | ['.'] => (.here, [])
  | '.' :: '/' :: rest => (.here, '/' :: rest)
  | cs => (.name, cs)

def Anchor.chars : Anchor → List Char
  | .root => ['/']
  | .here => ['.']
  | .name => []

/-- The path without its last component. The root and the empty path have no parent; the parent of a
single name is the empty path. -/
def parent? (p : Path) : Option Path :=
  let (anchor, body) := anchored p.text.toList
  match (segments body).reverse.dropWhile isTrivial with
  | [] => if anchor = .here then some ⟨""⟩ else none
  | _ :: before =>
    some ⟨String.ofList (anchor.chars ++ ofSegments (before.dropWhile isTrivial).reverse)⟩

theorem length_ofSegments_pos {ss : List (List Char)} {s : List Char} (hs : s ∈ ss)
    (hne : s ≠ []) : 0 < (ofSegments ss).length := by
  match ss with
  | [t] => simp_all [ofSegments, List.length_pos_iff]
  | t :: u :: rest => simp only [ofSegments, List.length_append, List.length_cons]; omega

theorem length_ofSegments_lt_append (before : List (List Char)) {after : List (List Char)}
    {s : List Char} (hs : s ∈ after) (hne : s ≠ []) :
    (ofSegments before).length < (ofSegments (before ++ after)).length := by
  obtain ⟨t, ts, rfl⟩ : ∃ t ts, after = t :: ts :=
    List.exists_cons_of_ne_nil (List.ne_nil_of_mem hs)
  match before with
  | [] => exact length_ofSegments_pos hs hne
  | [u] => simp [ofSegments]
  | u :: v :: rest =>
    have := length_ofSegments_lt_append (v :: rest) hs hne
    simp [ofSegments] at *; omega

theorem ofSegments_segments (cs : List Char) : ofSegments (segments cs) = cs := by
  induction cs with
  | nil => rfl
  | cons c rest ih =>
    simp only [segments]
    split
    · rename_i h
      cases hs : segments rest with
      | nil => simp_all [ofSegments]; simp_all [segments]
      | cons s ss => simp_all [ofSegments]
    · split
      · rename_i h; simp_all [ofSegments]
      · rename_i s ss h
        cases ss <;> simp_all [ofSegments]

theorem chars_anchored (cs : List Char) : (anchored cs).1.chars ++ (anchored cs).2 = cs := by
  unfold anchored
  split <;> rfl

theorem length_parent?_lt {p q : Path} (h : p.parent? = some q) :
    q.text.length < p.text.length := by
  have hp : p.text.length
      = ((anchored p.text.toList).1.chars ++ (anchored p.text.toList).2).length := by
    rw [chars_anchored, String.length_toList]
  rw [hp]
  simp only [parent?] at h
  generalize (anchored p.text.toList).1 = anchor at h ⊢
  generalize (anchored p.text.toList).2 = body at h ⊢
  split at h
  · split at h
    · cases h; subst anchor; simp [Anchor.chars]
    · cases h
  · rename_i last before hd
    cases h
    have hlast : last ≠ [] := by
      have := List.head_dropWhile_not isTrivial (l := (segments body).reverse) (by simp [hd])
      rintro rfl
      simp [hd, isTrivial] at this
    obtain ⟨after, hsplit, hmem⟩ : ∃ after,
        segments body = (before.dropWhile isTrivial).reverse ++ after ∧ last ∈ after := by
      refine ⟨((segments body).reverse.takeWhile isTrivial
        ++ last :: before.takeWhile isTrivial).reverse, ?_, by simp⟩
      rw [← List.reverse_append, ← List.reverse_inj, List.reverse_reverse, List.append_assoc,
        List.cons_append, List.takeWhile_append_dropWhile, ← hd, List.takeWhile_append_dropWhile]
    have := length_ofSegments_lt_append (before.dropWhile isTrivial).reverse hmem hlast
    rw [← hsplit, ofSegments_segments] at this
    simpa using this

/-- A path and everything above it, as far as its text goes. -/
def ancestors (p : Path) : List Path :=
  p :: match _h : p.parent? with
    | some q => ancestors q
    | none => []
termination_by p.text.length
decreasing_by exact length_parent?_lt _h

/-- One step of a path. -/
inductive Component where
  | root
  | here
  | parent
  | name (s : String)
deriving DecidableEq, Repr

def Component.ofSegment (s : List Char) : Component :=
  if s = ['.', '.'] then .parent else .name (String.ofList s)

/-- A path step by step. -/
def components (p : Path) : List Component :=
  let (anchor, body) := anchored p.text.toList
  let steps := ((segments body).filter fun s => !isTrivial s).map Component.ofSegment
  match anchor with
  | .root => .root :: steps
  | .here => .here :: steps
  | .name => steps

/-- The last step of a path, when it is a name. -/
def fileName? (p : Path) : Option String :=
  match p.components.getLast? with
  | some (.name s) => some s
  | _ => none

/-- The order of two steps: root, working directory, parent, then names by their code points. -/
def Component.lt : Component → Component → Bool
  | .root, .root => false
  | .root, _ => true
  | .here, .root | .here, .here => false
  | .here, _ => true
  | .parent, .name _ => true
  | .parent, _ => false
  | .name a, .name b => a < b
  | .name _, _ => false

/-- The order of two paths, step by step. -/
def lexLt : List Component → List Component → Bool
  | _, [] => false
  | [], _ :: _ => true
  | a :: as, b :: bs => a.lt b || (a == b && lexLt as bs)

/-- Whether `p` comes at or before `q`. -/
def le (p q : Path) : Bool := !lexLt q.components p.components

end Path

end BuildReplay

import BuildReplay.Host.Act
import BuildReplay.Live

/-!
# Access to objects

Every object of a host lies in a cell that is lent to any number of readers or to one writer. A
borrow that does not go together with those that still last is refused. An access is what a host
does while one of its functions runs; it takes back every object that it has lent, so no object is
lent between two calls of the host and the state needs no record of it.
-/

namespace BuildReplay

/-! ## Cells -/

/-- To whom a cell is lent. -/
inductive Borrow where
  | readers (n : Nat)
  | writer
deriving DecidableEq, Repr

/-- How a cell is asked for. -/
inductive BorrowMode where
  | shared
  | exclusive
deriving DecidableEq, Repr

namespace BorrowMode

/-- Lends a cell, where this goes together with the borrows that still last. -/
def take : BorrowMode → Borrow → Option Borrow
  | shared, .readers n => some (.readers (n + 1))
  | exclusive, .readers 0 => some .writer
  | _, _ => none

/-- Takes back a cell. -/
def giveBack : BorrowMode → Borrow → Borrow
  | shared, .readers (n + 1) => .readers n
  | exclusive, .writer => .readers 0
  | _, b => b

theorem giveBack_take {mode : BorrowMode} {b b' : Borrow} (h : mode.take b = some b') :
    mode.giveBack b' = b := by
  cases mode with
  | shared =>
      cases b with
      | readers n => cases h; rfl
      | writer => cases h
  | exclusive =>
      cases b with
      | readers n =>
          cases n with
          | zero => cases h; rfl
          | succ n => cases h
      | writer => cases h

end BorrowMode

/-- To whom each object is lent. -/
abbrev Borrows : Type := ObjectRef → Borrow

namespace Borrows

/-- No object is lent. -/
def nothing : Borrows := fun _ => .readers 0

def set (bs : Borrows) (o : ObjectRef) (b : Borrow) : Borrows := fun r => if r = o then b else bs r

theorem set_set_self (bs : Borrows) (o : ObjectRef) (b : Borrow) :
    (bs.set o b).set o (bs o) = bs := by
  funext r
  unfold set
  split
  · rw [‹r = o›]
  · rfl

theorem set_self (bs : Borrows) (o : ObjectRef) (b : Borrow) : bs.set o b o = b := if_pos rfl

end Borrows

/-! ## Accesses -/

/-- A state of a host, some of whose objects are lent. -/
structure Lent (σ : Type) where
  state : σ
  borrows : Borrows

/-- What a host does while one of its functions runs. All that it lends it takes back. -/
structure Access (σ α : Type) where
  run : Act (Lent σ) α
  restores : ∀ l, (run l).2.borrows = l.borrows

namespace Access

variable {σ α β : Type}

instance : Monad (Access σ) where
  pure a := ⟨pure a, fun _ => rfl⟩
  bind x f := {
    run := x.run >>= fun a => (f a).run
    restores := fun l => by
      have hx := x.restores l
      rw [Act.bind_apply]
      split
      · rename_i a l' heq
        rw [heq] at hx
        exact ((f a).restores l').trans hx
      · rename_i heq
        rwa [heq] at hx }

/-- An act on the state, which lends nothing. -/
def ofAct (x : Act σ α) : Access σ α where
  run l := let (r, s) := x l.state; (r, { l with state := s })
  restores _ := rfl

/-- Ends with what a pure computation ends with. -/
def ofExcept (r : Except Error α) : Access σ α := .ofAct (.ofExcept r)

/-- Ends with an error. -/
def fail (e : Error) : Access σ α := .ofAct (throw e)

/-- Reads the state. -/
def read (f : σ → α) : Access σ α := .ofAct (.read f)

/-- Changes the state. -/
def modify (f : σ → σ) : Access σ Unit := .ofAct (.modify f)

/-- Lends an object while `body` runs, or does `busy` where it cannot be lent. -/
def lending (mode : BorrowMode) (o : ObjectRef) (busy body : Access σ α) : Access σ α where
  run l := match mode.take (l.borrows o) with
    | none => busy.run l
    | some b =>
      let (r, l') := body.run { l with borrows := l.borrows.set o b }
      (r, { l' with borrows := l'.borrows.set o (mode.giveBack (l'.borrows o)) })
  restores l := by
    split
    · exact busy.restores l
    · rename_i b hb
      obtain ⟨r, l', hrun⟩ : ∃ r l', body.run { l with borrows := l.borrows.set o b } = (r, l') :=
        ⟨_, _, rfl⟩
      have hbody := body.restores { l with borrows := l.borrows.set o b }
      rw [hrun] at hbody ⊢
      change l'.borrows = l.borrows.set o b at hbody
      change l'.borrows.set o (mode.giveBack (l'.borrows o)) = l.borrows
      rw [hbody, Borrows.set_self, BorrowMode.giveBack_take hb, Borrows.set_set_self]

/-- What the access does to the state where objects are lent. -/
def during (x : Access σ α) (bs : Borrows) : Act σ α := fun s =>
  let (r, l) := x.run ⟨s, bs⟩
  (r, l.state)

/-- The access from a state whose objects are all there. -/
def act (x : Access σ α) : Act σ α := x.during .nothing

end Access

/-! ## Access through handles -/

namespace ObjectRef

variable {σ α β : Type}

/-- The refusal of an object that is lent. -/
def busy (o : ObjectRef) : Error := .host (o.type.name ++ " is already borrowed")

/-- The refusal of an object as one of another type. -/
def accessedAs (o : ObjectRef) (type : String) : Error :=
  .host (o.type.name ++ " handle accessed as " ++ type)

/-- The handle with its type, where the object is of it. -/
def cell (α : Type) [Described α] (o : ObjectRef) : Except Error (Ref α) :=
  if o.type = typeRef α then .ok ⟨o.id⟩ else .error (o.accessedAs (Described.qualified α))

/-- Lends the object as one of type `α` while `body` runs. -/
def lend [Described α] (mode : BorrowMode) (o : ObjectRef) (body : Ref α → Access σ β) :
    Access σ β := do
  let a ← .ofExcept (o.cell α)
  .lending mode o (.fail o.busy) (body a)

end ObjectRef

end BuildReplay

import BuildReplay.Decimal.Double

/-!
# Shortest decimals

The decimal with the fewest digits that reads back to a given double. The reals that round to a
double form an interval; the search tries one digit, two digits and so on, and of each grid of
decimals it tests the two neighbours of the exact value.
-/

namespace BuildReplay

/-- The number `digits * 10 ^ exponent`. -/
structure Decimal where
  digits : Nat
  exponent : Int
deriving DecidableEq, Repr

namespace Decimal

/-- Which of two equally near decimals is taken. -/
inductive Tie where
  | up
  | toEven
deriving DecidableEq, Repr

/-- The exact value `mantissa * 2 ^ exponent` of a finite double, without its sign. -/
structure Binary where
  mantissa : Nat
  exponent : Int
  /-- The gap to the next lower double is half the gap to the next higher one. -/
  narrowBelow : Bool

def Binary.ofDouble (x : Double) : Binary :=
  let scale := (x.magnitude >>> 52).toNat
  let fraction := (x.bits &&& 0xFFFFFFFFFFFFF).toNat
  if scale = 0 then ⟨fraction, -1074, false⟩
  else ⟨Nat.pow 2 52 + fraction, (scale : Int) - 1075, fraction = 0 ∧ 1 < scale⟩

/-- A non-negative fraction. -/
structure Ratio where
  num : Nat
  den : Nat

/-- The fraction `n * 2 ^ e`. -/
def Ratio.scaled (n : Nat) (e : Int) : Ratio :=
  if 0 ≤ e then ⟨n * Nat.pow 2 e.natAbs, 1⟩ else ⟨n, Nat.pow 2 e.natAbs⟩

def Ratio.ofDecimal (d : Decimal) : Ratio :=
  if 0 ≤ d.exponent then ⟨d.digits * Nat.pow 10 d.exponent.natAbs, 1⟩
  else ⟨d.digits, Nat.pow 10 d.exponent.natAbs⟩

def Ratio.compare (a b : Ratio) : Ordering := Ord.compare (a.num * b.den) (b.num * a.den)

def Binary.value (b : Binary) : Ratio := .scaled b.mantissa b.exponent

/-- Whether a decimal rounds to `b`: it lies between the midpoints to the neighbouring doubles, and
on a midpoint only when the mantissa is even. -/
def Binary.readsBack (b : Binary) (d : Decimal) : Bool :=
  let low := Ratio.scaled (4 * b.mantissa - (if b.narrowBelow then 1 else 2)) (b.exponent - 2)
  let high := Ratio.scaled (4 * b.mantissa + 2) (b.exponent - 2)
  let even := b.mantissa % 2 = 0
  match low.compare (.ofDecimal d), (Ratio.ofDecimal d).compare high with
  | .lt, .lt => true
  | .eq, .lt | .lt, .eq | .eq, .eq => even
  | _, _ => false

/-- The least `k` with `value < 10 ^ k`, for a value above zero. -/
def Ratio.scale (r : Ratio) : Int :=
  if r.den ≤ r.num then Double.digitCount (r.num / r.den)
  else 1 - Double.digitCount ((r.den - 1) / r.num)

/-- The decimal `d * 10 ^ e` with trailing zeros of `d` moved into the exponent. -/
def strip : Nat → Nat → Int → Decimal
  | fuel + 1, d, e => if d ≠ 0 ∧ d % 10 = 0 then strip fuel (d / 10) (e + 1) else ⟨d, e⟩
  | 0, d, e => ⟨d, e⟩

/-- The nearer to the value of the grid points `d` and `d + 1` that read back. -/
def Binary.nearest? (b : Binary) (tie : Tie) (d : Nat) (e : Int) : Option Nat :=
  match b.readsBack ⟨d, e⟩, b.readsBack ⟨d + 1, e⟩ with
  | true, false => some d
  | false, true => some (d + 1)
  | false, false => none
  | true, true =>
    let mid := Ratio.ofDecimal ⟨2 * d + 1, e⟩
    let twice := Ratio.scaled (2 * b.mantissa) b.exponent
    match twice.compare mid, tie with
    | .lt, _ => some d
    | .gt, _ | .eq, .up => some (d + 1)
    | .eq, .toEven => some (if d % 2 = 0 then d else d + 1)

/-- The decimal of `n` digits that reads back to `b`, if there is one. -/
def Binary.ofLength? (b : Binary) (tie : Tie) (n : Nat) : Option Decimal :=
  let e := b.value.scale - n
  let unit := Ratio.ofDecimal ⟨1, e⟩
  let d := b.value.num * unit.den / (b.value.den * unit.num)
  (b.nearest? tie d e).map fun d => strip 20 d e

/-- All digits of the exact value. -/
def Binary.exact (b : Binary) : Decimal :=
  if 0 ≤ b.exponent then ⟨b.mantissa * Nat.pow 2 b.exponent.natAbs, 0⟩
  else ⟨b.mantissa * Nat.pow 5 b.exponent.natAbs, b.exponent⟩

/-- The shortest decimal that reads back to a finite double, its sign left out. -/
def shortest (tie : Tie) (x : Double) : Decimal :=
  let b := Binary.ofDouble x
  if b.mantissa = 0 then ⟨0, 0⟩
  else ((List.range 17).findSome? fun n => b.ofLength? tie (n + 1)).getD b.exact

end Decimal

end BuildReplay

/-!
# Doubles

A double is held as its 64 bits, so that equality is decidable and a value never changes on its way
through the library. Numbers enter through `Double.ofDecimal`, rounded correctly, and leave through
`Decimal.Shortest` and `Decimal.Layout`.
-/

namespace BuildReplay

/-- An IEEE double, as its 64 bits. -/
structure Double where
  bits : UInt64
deriving DecidableEq, Repr, Inhabited

namespace Double

def zero : Double := ⟨0⟩

def infinity : Double := ⟨0x7FF0000000000000⟩

def nan : Double := ⟨0x7FF8000000000000⟩

def isNegative (x : Double) : Bool := x.bits >>> 63 == 1

def negate (x : Double) : Double := ⟨x.bits ^^^ 0x8000000000000000⟩

/-- The bits without the sign. -/
def magnitude (x : Double) : UInt64 := x.bits &&& 0x7FFFFFFFFFFFFFFF

def isZero (x : Double) : Bool := x.magnitude == 0

def isInfinite (x : Double) : Bool := x.magnitude == infinity.bits

def isNaN (x : Double) : Bool := infinity.bits < x.magnitude

/-- How many decimal digits `n` has; zero has one. -/
def digitCount (n : Nat) : Nat := (Nat.toDigits 10 n).length

/-- The whole number nearest to `num / den`, ties to even. -/
def roundRatio (num den : Nat) : Nat :=
  let q := num / den
  let twice := 2 * (num % den)
  if den < twice ∨ (twice = den ∧ q % 2 = 1) then q + 1 else q

/-- The double nearest to `num / den`, ties to even, and infinity when it is too large. The
significand counts units of `2 ^ e`, where `e` is -1074 or gives it 53 bits; one that rounds up to
54 bits carries into the exponent. -/
def ofRatio (num den : Nat) : Double :=
  let guess : Int := num.log2 - den.log2 - 52
  let e := max (-1074) (if shifted num den guess < Nat.pow 2 52 then guess - 1 else guess)
  let bits := (e + 1074).toNat * Nat.pow 2 52 + rounded num den e
  if bits < infinity.bits.toNat then ⟨.ofNat bits⟩ else infinity
where
  /-- How often `2 ^ e` goes into `num / den`. -/
  shifted (num den : Nat) (e : Int) : Nat :=
    if 0 ≤ e then num / (den * Nat.pow 2 e.natAbs) else num * Nat.pow 2 e.natAbs / den
  rounded (num den : Nat) (e : Int) : Nat :=
    if 0 ≤ e then roundRatio num (den * Nat.pow 2 e.natAbs)
    else roundRatio (num * Nat.pow 2 e.natAbs) den

/-- The double nearest to `digits * 10 ^ exponent`, ties to even, and infinity when it is too large.
Numbers far out of range are settled by their number of digits. -/
def ofDecimal (digits : Nat) (exponent : Int) : Double :=
  let lead := exponent + digitCount digits
  if digits = 0 ∨ lead < -330 then zero
  else if 320 < lead then infinity
  else if 0 ≤ exponent then ofRatio (digits * Nat.pow 10 exponent.natAbs) 1
  else ofRatio digits (Nat.pow 10 exponent.natAbs)

/-- The double nearest to an integer. -/
def ofInt (i : Int) : Double :=
  let x := ofDecimal i.natAbs 0
  if i < 0 then x.negate else x

end Double

end BuildReplay

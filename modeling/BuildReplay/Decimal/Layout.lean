import BuildReplay.Decimal.Shortest

/-!
# Layout of decimals

How the digits of a double are written: positionally or with an exponent, with or without a
fraction of zero. Each written form of the library is one value of `Layout`.
-/

namespace BuildReplay.Decimal

/-- The decisions of one written form. -/
structure Layout where
  /-- Whether a number whose leading digit stands for `10 ^ e` is written positionally. -/
  positional : Int → Bool
  /-- Integral numbers are written with a fraction of zero. -/
  fractionOfZero : Bool
  tie : Tie
  nan : String
  infinity : String

/-- Digits written positionally. -/
def positionalText (fractionOfZero : Bool) (d : Decimal) : String :=
  let digits := Nat.toDigits 10 d.digits
  let whole := digits.length + d.exponent
  if 0 ≤ d.exponent then
    String.ofList (digits ++ List.replicate (if d.digits = 0 then 0 else d.exponent.natAbs) '0')
      ++ (if fractionOfZero then ".0" else "")
  else if 0 < whole then
    String.ofList (digits.take whole.natAbs) ++ "." ++ String.ofList (digits.drop whole.natAbs)
  else "0." ++ String.ofList (List.replicate whole.natAbs '0' ++ digits)

/-- Digits written with a signed exponent. -/
def exponentText (d : Decimal) : String :=
  let digits := Nat.toDigits 10 d.digits
  let lead := d.exponent + digits.length - 1
  let fraction := digits.drop 1
  String.ofList (digits.take 1) ++ (if fraction.isEmpty then "" else "." ++ String.ofList fraction)
    ++ (if lead < 0 then "e-" else "e+") ++ toString lead.natAbs

/-- The text of a double in a layout. A zero keeps its sign; the sign of a NaN is not written. -/
def Layout.render (layout : Layout) (x : Double) : String :=
  if x.isNaN then layout.nan
  else
    let sign := if x.isNegative then "-" else ""
    if x.isInfinite then sign ++ layout.infinity
    else
      let d := shortest layout.tie x
      if layout.positional (d.exponent + Double.digitCount d.digits - 1) then
        sign ++ positionalText layout.fractionOfZero d
      else sign ++ exponentText d

end BuildReplay.Decimal

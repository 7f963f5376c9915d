import Ebnf.Document.Mismatch
import Ebnf.Text.Decimal
import Ebnf.Text.Digits
/-! What a number in JSON is taken for: an integer, if it is written as one and
is small enough, or else a floating point number. Only so many digits count for
the latter as make a number below `2 ^ 64`. -/

namespace Ebnf.Json

/-- Appends digits to a number as long as it stays below a limit. Gives the
number and the digits that are left. -/
def absorb (limit : Nat) : Nat → List Char → Nat × List Char
  | n, [] => (n, [])
  | n, c :: rest =>
    let next := n * 10 + decimalNumber [c]
    if next < limit then absorb limit next rest else (n, c :: rest)

/-- The floating point number closest to `10 ^ n`. -/
def tenTo (n : Nat) : Float := .ofScientific 1 false n

/-- The exponent of the greatest power of ten among floating point numbers. -/
def topPower : Nat := 308

/-- Divides a number by `10 ^ n`, rounding after each step. -/
def shrink (f : Float) (n : Nat) : Float :=
  if n ≤ topPower then f / tenTo n
  else if f == 0 then f
  else shrink (f / tenTo topPower) (n - topPower)
  termination_by n
  decreasing_by simp only [topPower] at *; omega

/-- Multiplies a number by a power of ten, unless the result is too large. -/
def scale? (f : Float) : Int → Option Float
  | .negSucc n => some (shrink f (n + 1))
  | .ofNat n =>
    if f == 0 then some f
    else if n ≤ topPower ∧ !(f * tenTo n).isInf then some (f * tenTo n)
    else none

/-- A number as it is written. -/
structure Numeral where
  negative : Bool
  whole : List Char
  fraction : List Char
  exponent : Option Int
  deriving DecidableEq, Repr

namespace Numeral

/-- The floating point number that a number is taken for. -/
def float? (n : Numeral) : Option Float := do
  let (digits, skipped) := absorb UInt64.size 0 n.whole
  let (digits, dropped) := absorb UInt64.size digits n.fraction
  let exponent : Int := n.exponent.getD 0 + skipped.length + dropped.length - n.fraction.length
  let f ← scale? (UInt64.ofNat digits).toFloat exponent
  return if n.negative then -f else f

/-- The integer that a number is taken for. There is no negative zero among them. -/
def integer? (n : Numeral) : Option Int :=
  let value := decimalNumber n.whole
  if n.fraction ≠ [] ∨ n.exponent ≠ none then none
  else if !n.negative ∧ value < UInt64.size then some value
  else if n.negative ∧ 0 < value ∧ value ≤ Nat.pow 2 63 then some (-value)
  else none

def found? (n : Numeral) : Option Found :=
  match n.integer? with
  | some i => some (.integer i)
  | none => n.float?.map (.decimal <| floatText ·)

end Numeral

end Ebnf.Json

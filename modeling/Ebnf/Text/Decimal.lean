/-! Floating point numbers as text: the fewest decimal digits that round to the
number, and of those the digits closest to it. All comparisons are made on
natural numbers. -/

namespace Ebnf

/-- The number `mantissa * 2 ^ exponent`. Where a new power of two starts, the
next number below is only half as far away as the next one above. -/
structure Binary where
  mantissa : Nat
  exponent : Int
  startsPower : Bool
  deriving DecidableEq, Repr

/-- The number `digits * 10 ^ exponent`. -/
structure Decimal where
  digits : Nat
  exponent : Int
  deriving DecidableEq, Repr

namespace Binary

/-- The finite number with these bits, without its sign. -/
def ofBits (bits : UInt64) : Binary :=
  let fraction := bits.toNat % Nat.pow 2 52
  let scale := bits.toNat / Nat.pow 2 52 % Nat.pow 2 11
  if scale = 0 then ⟨fraction, -1074, false⟩
  else ⟨Nat.pow 2 52 + fraction, Int.ofNat scale - 1075, fraction = 0 && 1 < scale⟩

/-- The digits of a multiple of `10 ^ exponent` that rounds to `b`. The closer of
the two next to `b` is tried first, and the even one if both are equally close. -/
def digits? (b : Binary) (exponent : Int) : Option Nat :=
  let unit := Nat.pow 2 (b.exponent - 2).toNat * Nat.pow 10 (-exponent).toNat
  let step := Nat.pow 2 (2 - b.exponent).toNat * Nat.pow 10 exponent.toNat
  let value := 4 * b.mantissa * unit
  let low := value - (if b.startsPower then 1 else 2) * unit
  let high := value + 2 * unit
  let fits (n : Nat) : Bool :=
    if b.mantissa % 2 = 0 then low ≤ n * step && n * step ≤ high
    else low < n * step && n * step < high
  let below := value / step
  let twice := 2 * (value % step)
  let above := step < twice || (twice = step && below % 2 = 1)
  (if above then [below + 1, below] else [below, below + 1]).find? fits

/-- The greatest exponent tried. No finite number has a digit further up. -/
def topExponent : Int := 309

/-- The decimal number with the fewest digits that rounds to `b`. -/
def shortest (b : Binary) : Decimal :=
  let found := (List.range 640).findSome? fun n =>
    let exponent := topExponent - Int.ofNat n
    (b.digits? exponent).map (⟨·, exponent⟩)
  if b.mantissa = 0 then ⟨0, 0⟩ else found.getD ⟨0, 0⟩

end Binary

namespace Decimal

/-- Digits on both sides of a point. A side without digits gets a zero. -/
def pointed (whole fraction : List Char) : List Char :=
  let orZero (side : List Char) := if side.isEmpty then ['0'] else side
  orZero whole ++ '.' :: orZero fraction

/-- One digit before the point, unless there is only one, and an exponent with its sign. -/
def scientific (digits : List Char) (exponent : Int) : List Char :=
  let fraction := digits.drop 1
  digits.take 1 ++ (if fraction.isEmpty then [] else '.' :: fraction)
    ++ ['e', if exponent < 0 then '-' else '+'] ++ Nat.toDigits 10 exponent.natAbs

/-- The text of a number. It has no exponent from `1e-5` up to, but without, `1e16`. -/
def text (d : Decimal) : String :=
  let digits := Nat.toDigits 10 d.digits
  let point : Int := digits.length + d.exponent
  String.ofList <|
    if -5 < point ∧ point ≤ 16 then
      pointed (digits.take point.toNat ++ List.replicate d.exponent.toNat '0')
        (List.replicate (-point).toNat '0' ++ digits.drop point.toNat)
    else scientific digits (point - 1)

end Decimal

/-- The text of a finite floating point number. -/
def floatText (f : Float) : String :=
  (if f.toBits < 0x8000000000000000 then "" else "-") ++ (Binary.ofBits f.toBits).shortest.text

end Ebnf

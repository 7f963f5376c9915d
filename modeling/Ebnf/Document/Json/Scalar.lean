import Ebnf.Document.Json.Number
import Ebnf.Document.Json.Reader
/-! The values that hold no others: strings, numbers and the three words. A value
of another kind than expected is read as far as its kind shows, and refused. -/

namespace Ebnf.Json.Reader

/-- Reads the four digits of a numbered character. -/
def hexEscape : Reader Nat := do
  let digits := (← get).rest.take 4
  Scan.skip 4
  if digits.length < 4 then fail .endOfString
  else match hexNumber? (digits.map Char.ofUInt8) with
    | some n => return n
    | none => fail .invalidEscape

/-- Reads a byte between the two halves of a surrogate pair. -/
def surrogateMark (c : Char) : Reader Unit := do
  match ← Scan.byte? with
  | none => fail .endOfString
  | some b => if b = c then return else fail .missingSurrogate

/-- Reads a character given by its number, or by a pair of surrogates. -/
def numberedChar : Reader Char := do
  let n ← hexEscape
  if 0xDC00 ≤ n ∧ n ≤ 0xDFFF then fail .loneSurrogate
  else if n < 0xD800 ∨ 0xDBFF < n then return Char.ofNat n
  else
    surrogateMark '\\'
    surrogateMark 'u'
    let low ← hexEscape
    if low < 0xDC00 ∨ 0xDFFF < low then fail .loneSurrogate
    else return Char.ofNat ((n - 0xD800) * 0x400 + (low - 0xDC00) + 0x10000)

/-- Reads what follows a backslash. -/
def escapedChar : Reader Char := do
  match ← Scan.byte? with
  | none => fail .endOfString
  | some 'b' => return '\x08'
  | some 'f' => return '\x0c'
  | some 'n' => return '\n'
  | some 'r' => return '\r'
  | some 't' => return '\t'
  | some 'u' => numberedChar
  | some c => if c = '"' ∨ c = '\\' ∨ c = '/' then return c else fail .invalidEscape

/-- Reads a string whose opening quote was read. -/
def stringRest : Reader String := loop [] fun chunks => do
  let plain ← Scan.run fun c => c ≠ '"' ∧ c ≠ '\\' ∧ ' ' ≤ c
  let chunks := plain :: chunks
  match ← Scan.byte? with
  | none => fail .endOfString
  | some '"' => return .inr (textOfBytes chunks.reverse.flatten)
  | some '\\' => return .inl (String.utf8EncodeChar (← escapedChar) :: chunks)
  | some _ => fail .controlCharacter

def digits : Reader (List Char) := List.map Char.ofUInt8 <$> Scan.run Char.isDigit

/-- Reads the exponent of a number, after its letter. The digit that makes it
`2 ^ 31` or more puts the number out of range, unless that number is zero. -/
def exponent (zero : Bool) : Reader Int := do
  let sign ← Scan.peek
  if sign = some '+' ∨ sign = some '-' then skip
  match ← Scan.byte? with
  | none => fail .endOfValue
  | some c =>
    if !c.isDigit then fail .invalidNumber
    let ahead := ((← get).run Char.isDigit).map Char.ofUInt8
    let excess := (absorb (Nat.pow 2 31) (decimalNumber [c]) ahead).2
    if !zero ∧ sign ≠ some '-' ∧ excess ≠ [] then
      Scan.skip (ahead.length - excess.length + 1)
      fail .outOfRange
    Scan.skip ahead.length
    let value := decimalNumber (c :: ahead)
    return if sign = some '-' then -value else value

/-- Reads a number after its sign. -/
def numeral (negative : Bool) : Reader Found := do
  let whole ← match ← Scan.byte? with
    | none => fail .endOfValue
    | some '0' =>
      if ((← Scan.peek).map Char.isDigit).getD false then failNext .invalidNumber else pure ['0']
    | some c => if c.isDigit then (c :: ·) <$> digits else fail .invalidNumber
  let fraction ← match ← Scan.peek with
    | some '.' => do
      skip
      match ← digits with
      | [] => if (← Scan.peek).isNone then failNext .endOfValue else failNext .invalidNumber
      | ds => pure ds
    | _ => pure []
  let power ← match ← Scan.peek with
    | some 'e' | some 'E' => do skip; some <$> exponent ((whole ++ fraction).all (· = '0'))
    | _ => pure none
  match (Numeral.mk negative whole fraction power).found? with
  | some found => return found
  | none => fail .outOfRange

/-- Refuses a value that is not of the expected type, once it is read as far as
its kind shows. -/
def mistyped {α : Type} (expected : String) : Reader α := placed do
  let found ← match ← Scan.peek with
    | some 'n' => do word "null".toList; pure .null
    | some 't' => do word "true".toList; pure (.boolean true)
    | some 'f' => do word "false".toList; pure (.boolean false)
    | some '-' => do skip; numeral true
    | some '"' => do skip; .string <$> stringRest
    | some '[' => pure .list
    | some '\x7b' => pure .object
    | some c => if c.isDigit then numeral false else failNext .expectedValue
    | none => failNext .expectedValue
  mismatch (.type found expected)

def string : Reader String := placed do
  match ← look with
  | none => failNext .endOfValue
  | some '"' => do skip; stringRest
  | some _ => mistyped "a string"

def boolean : Reader Bool := placed do
  match ← look with
  | none => failNext .endOfValue
  | some 't' => do word "true".toList; return true
  | some 'f' => do word "false".toList; return false
  | some _ => mistyped "a boolean"

/-- Takes a number for a natural number. -/
def naturalOf : Found → Reader UInt64
  | .integer n => if n < 0 then mismatch (.value (.integer n) "usize") else return .ofNat n.toNat
  | found => mismatch (.type found "usize")

def natural : Reader UInt64 := placed do
  match ← look with
  | none => failNext .endOfValue
  | some '-' => do skip; naturalOf (← numeral true)
  | some c => if c.isDigit then naturalOf (← numeral false) else mistyped "usize"

def absent : Reader Unit := placed do
  match ← look with
  | none => failNext .endOfValue
  | some 'n' => word "null".toList
  | some _ => mistyped "unit"

end Ebnf.Json.Reader

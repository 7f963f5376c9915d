import Ebnf.Document.Ron.Reader
import Ebnf.Text.Digits
/-! The values that hold no others: strings, booleans and natural numbers. -/

namespace Ebnf.Ron.Reader

def hexDigit : Reader Nat := do
  match hexDigit? (← byte) with
  | some digit => return digit
  | none => fail .invalidHexDigit

/-- Reads at most `n` hexadecimal digits up to a closing brace: how many, and
the number they stand for. -/
def escapeDigits : Nat → Nat × Nat → Reader (Nat × Nat)
  | 0, read => return read
  | n + 1, (count, value) => do
    if (← peek) = '\x7d' then return (count, value)
    else escapeDigits n (count + 1, value * 16 + (← hexDigit))

/-- Reads a character given by its number. -/
def numberedChar : Reader Char := do
  if (← byte) ≠ '\x7b' then fail .missingEscapeOpening
  let (count, value) ← escapeDigits 6 (0, 0)
  if count = 0 then fail .missingEscapeDigits
  if (← byte) ≠ '\x7d' then fail .missingEscapeClosing
  if value.isValidChar then return Char.ofNat value else fail .invalidCharacter

/-- Reads what follows a backslash. -/
def escapedChar : Reader Char := do
  match ← byte with
  | '\x27' => return '\x27'
  | '"' => return '"'
  | '\\' => return '\\'
  | 'n' => return '\n'
  | 'r' => return '\r'
  | 't' => return '\t'
  | '0' => return '\x00'
  | 'x' => do
    let high ← hexDigit
    let low ← hexDigit
    return Char.ofNat (high * 16 + low)
  | 'u' => numberedChar
  | _ => fail .unknownEscape

/-- Reads a string whose opening quote was read. -/
def stringRest : Reader String := loop ([] : List (List UInt8)) fun chunks => do
  let c ← get
  let plain := c.run fun b => b ≠ '"' ∧ b ≠ '\\'
  let chunks := plain :: chunks
  match (c.skip plain.length).peek? with
  | none => fail .expectedStringEnd
  | some b =>
    Scan.skip (plain.length + 1)
    if b = '"' then return .inr (textOfBytes chunks.reverse.flatten)
    else return .inl (String.utf8EncodeChar (← escapedChar) :: chunks)

/-- The bytes before the first place where `ending` stands. -/
def bytesBefore? (ending : List UInt8) : List UInt8 → Option (List UInt8)
  | [] => none
  | b :: rest =>
    if ending.isPrefixOf (b :: rest) then some [] else (b :: ·) <$> bytesBefore? ending rest

/-- Reads a raw string whose letter was read. It ends at a quote that as many
number signs follow as stand before the first quote. -/
def rawStringRest : Reader String := do
  let hashes ← Scan.run (· = '#')
  expect "\"" .expectedString
  match bytesBefore? (34 :: hashes) (← get).rest with
  | none => fail .expectedStringEnd
  | some bytes =>
    Scan.skip (bytes.length + 1 + hashes.length)
    return textOfBytes bytes

def string : Reader String := do
  if ← Scan.accept "\"" then stringRest
  else if ← Scan.accept "r" then rawStringRest
  else fail .expectedString

def boolean : Reader Bool := do
  if ← Scan.accept "true" then return true
  else if ← Scan.accept "false" then return false
  else fail .expectedBoolean

/-- Reads the mark of the base that a number is written in. -/
def base : Reader Nat := do
  if ← Scan.accept "0x" then return 16
  else if ← Scan.accept "0b" then return 2
  else if ← Scan.accept "0o" then return 8
  else return 10

/-- One more digit of a number below `2 ^ 64`. Underscores do not count. -/
def addDigit (base n : Nat) (c : Char) : Except Fault Nat := do
  if c = '_' then return n
  if UInt64.size ≤ n * base then throw .integerTooLarge
  let digit := (hexDigit? c).getD base
  if base ≤ digit then throw .expectedInteger
  if UInt64.size ≤ n * base + digit then throw .integerTooLarge
  return n * base + digit

def natural : Reader UInt64 := do
  let base ← base
  let digits := (← get).run fun c => c = '_' || (hexDigit? c).isSome
  match digits.map Char.ofUInt8 with
  | [] => fail .expectedInteger
  | '_' :: _ => fail .leadingUnderscore
  | cs =>
    Scan.skip cs.length
    match cs.foldlM (addDigit base) 0 with
    | .ok n => return .ofNat n
    | .error f => fail f

end Ebnf.Ron.Reader

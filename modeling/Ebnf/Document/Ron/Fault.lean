import Ebnf.Text.Quoted
/-! What can be wrong with a document in object notation. Names are shown
between backticks. -/

namespace Ebnf.Ron

inductive Fault
  | endOfText
  | unclosedComment
  | unexpectedByte (c : Char)
  | trailingCharacters
  | expectedString
  | expectedStringEnd
  | expectedBoolean
  | expectedInteger
  | expectedName
  | expectedOption
  | expectedComma
  | expectedColon
  | expectedOpening
  | expectedOpeningOf (record : String)
  | expectedClosing
  | expectedList
  | expectedListEnd
  | expectedRecord (record found : String)
  | integerTooLarge
  | leadingUnderscore
  | unknownEscape
  | invalidHexDigit
  | missingEscapeOpening
  | missingEscapeClosing
  | missingEscapeDigits
  | invalidCharacter
  | rawNameOnly (name : String)
  | expectedAttribute
  | expectedAttributeEnd
  | unknownExtension (name : String)
  | missingField (name record : String)
  | duplicateField (name record : String)
  | unknownField (name record : String) (known : List String)
  | unknownVariant (name type : String) (known : List String)
  | tooDeep
  deriving DecidableEq, Repr

def isBlank (c : Char) : Bool := c = ' ' || c = '\n' || c = '\t' || c = '\r'

def isNameStart (c : Char) : Bool := c.isAlpha || c = '_'

def isNamePart (c : Char) : Bool := c.isAlphanum || c = '_'

/-- The characters of a name that is marked as raw. -/
def isRawNamePart (c : Char) : Bool := isNamePart c || c = '.' || c = '+' || c = '-'

/-- A name between backticks, marked as raw if it has to be. -/
def shownName (name : String) : String :=
  match name.toList with
  | c :: rest =>
    if isNameStart c && rest.all isNamePart then "\x60" ++ name ++ "\x60"
    else "\x60r#" ++ name ++ "\x60"
  | [] => "\x60\x60"

/-- The names that would have done. -/
def shownChoice (names : List String) : String :=
  match names.map shownName with
  | [a] => "expected " ++ a ++ " instead"
  | [a, b] => "expected either " ++ a ++ " or " ++ b ++ " instead"
  | many => "expected one of " ++ ", ".intercalate many ++ " instead"

def Fault.message : Fault → String
  | endOfText => "Unexpected end of RON"
  | unclosedComment => "Unclosed block comment"
  | unexpectedByte c => "Unexpected byte " ++ Quoted.char c
  | trailingCharacters => "Non-whitespace trailing characters"
  | expectedString => "Expected string"
  | expectedStringEnd => "Expected end of string"
  | expectedBoolean => "Expected boolean"
  | expectedInteger => "Expected integer"
  | expectedName => "Expected identifier"
  | expectedOption => "Expected option"
  | expectedComma => "Expected comma"
  | expectedColon => "Expected colon"
  | expectedOpening => "Expected opening \x60(\x60"
  | expectedOpeningOf record => "Expected opening \x60(\x60 for struct " ++ shownName record
  | expectedClosing => "Expected closing \x60)\x60"
  | expectedList => "Expected opening \x60[\x60"
  | expectedListEnd => "Expected closing \x60]\x60"
  | expectedRecord record found =>
    "Expected struct " ++ shownName record ++ " but found " ++ shownName found
  | integerTooLarge => "Integer is out of bounds"
  | leadingUnderscore => "Unexpected leading underscore in an integer"
  | unknownEscape => "Unknown escape character"
  | invalidHexDigit => "Non-hex digit found"
  | missingEscapeOpening => "Missing \x7b in Unicode escape"
  | missingEscapeClosing => "No \x7d at the end of Unicode escape"
  | missingEscapeDigits => "Expected 1-6 digits, got 0 digits in Unicode escape"
  | invalidCharacter => "Not a valid char"
  | rawNameOnly name =>
    "Found invalid std identifier \x60" ++ name ++ "\x60, try the raw identifier \x60r#" ++ name
      ++ "\x60 instead"
  | expectedAttribute => "Expected an \x60#![enable(...)]\x60 attribute"
  | expectedAttributeEnd => "Expected closing \x60)]\x60 after the enable attribute"
  | unknownExtension name => "No RON extension named " ++ shownName name
  | missingField name record =>
    "Unexpected missing field " ++ shownName name ++ " in " ++ shownName record
  | duplicateField name record =>
    "Unexpected duplicate field " ++ shownName name ++ " in " ++ shownName record
  | unknownField name record known =>
    "Unexpected field named " ++ shownName name ++ "in " ++ shownName record ++ ", "
      ++ shownChoice known
  | unknownVariant name type known =>
    "Unexpected variant named " ++ shownName name ++ "in enum " ++ shownName type ++ ", "
      ++ shownChoice known
  | tooDeep => "Exceeded recursion limit, try increasing the limit and using "
      ++ "\x60serde_stacker\x60 to protect against a stack overflow"

end Ebnf.Ron

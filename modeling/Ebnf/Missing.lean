import Ebnf.InsertionMap
/-! Names that were looked up and not found. A ledger takes them down as they
turn up, and its report lists all of them together, each with everyone who
asked for it. -/

namespace Ebnf

/-- Who asked for a production. -/
inductive Referrer
  | root (language : String)
  | production (name : String)
  deriving DecidableEq, Repr

namespace Referrer

def text : Referrer → String
  | root language => "root of grammar '" ++ language ++ "'"
  | production name => "production '" ++ name ++ "'"

def language? : Referrer → Option String
  | root language => some language
  | production _ => none

end Referrer

/-- A name without a production, and who asked for it. -/
structure Missing where
  name : String
  referrers : List Referrer
  deriving DecidableEq, Repr

def Missing.text (m : Missing) : String :=
  "\n\t'" ++ m.name ++ "' required by " ++ ", ".intercalate (m.referrers.map Referrer.text)

/-- All the names one pass did not find. -/
structure MissingReport where
  items : List Missing
  deriving DecidableEq, Repr

namespace MissingReport

def names (r : MissingReport) : List String := r.items.map Missing.name

/-- The language whose root is missing. -/
def missingRoot? (r : MissingReport) : Option String :=
  (r.items.flatMap Missing.referrers).findSome? Referrer.language?

def text (r : MissingReport) : String :=
  "Missing productions:" ++ String.join (r.items.map Missing.text)

end MissingReport

/-- The names not found so far, in order of the first request for each. -/
structure MissingLedger where
  requests : InsertionMap String (List Referrer)

namespace MissingLedger

def empty : MissingLedger := ⟨∅⟩

instance : EmptyCollection MissingLedger := ⟨empty⟩

instance : Inhabited MissingLedger := ⟨empty⟩

def isEmpty (l : MissingLedger) : Bool := l.requests.isEmpty

/-- The referrers of a name, none if it was never missed. -/
def referrers (l : MissingLedger) (name : String) : List Referrer := (l.requests.get? name).getD []

/-- Takes down that `referrer` asked for `name` in vain. The same request is
taken down only once. -/
def record (l : MissingLedger) (name : String) (referrer : Referrer) : MissingLedger :=
  if referrer ∈ l.referrers name then l
  else ⟨l.requests.insert name (l.referrers name ++ [referrer])⟩

/-- The ledger of some requests, in order. -/
def ofList (requests : List (String × Referrer)) : MissingLedger :=
  requests.foldl (fun l r => l.record r.1 r.2) ∅

/-- Everything taken down, unless there is nothing. -/
def report? (l : MissingLedger) : Option MissingReport :=
  if l.isEmpty then none
  else some ⟨l.requests.entries.map fun e => ⟨e.1, e.2⟩⟩

end MissingLedger

end Ebnf

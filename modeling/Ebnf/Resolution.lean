import Ebnf.Grammar
import Ebnf.Table
/-! From a table to a grammar. One scan looks up the root and every name that a
body mentions. It crosses off the productions it comes by and takes down the
names it does not find; what is missing is reported together, and what was
never crossed off is pointed out. -/

namespace Ebnf

inductive ResolutionOption
  /-- No production has to be named after the language. -/
  | allowRootless
  /-- Unused productions are no reason for a warning. -/
  | skipUnused
  deriving DecidableEq, Repr

/-- Looks up every name that a body mentions, and takes down those not found. -/
def Expr.resolve {m : Type → Type} [Monad m] (e : Expr) (referrer : String)
    (lookup : String → m Bool) (ledger : MissingLedger) : m MissingLedger :=
  e.nonTerminals.foldlM (fun l name => do
    if ← lookup name then return l else return l.record name (.production referrer)) ledger

def Production.resolve {m : Type → Type} [Monad m] (p : Production) (lookup : String → m Bool)
    (ledger : MissingLedger) : m MissingLedger :=
  p.body.resolve p.name lookup ledger

/-- Fails if anything is missing, and logs the report. -/
def MissingLedger.settle (l : MissingLedger) : Logged (Except GrammarError Unit) := do
  match l.report? with
  | none => return .ok ()
  | some report =>
    Logged.log .error report.text
    return .error (.missingProductions report)

namespace Table

/-- The number of a production of `t`. -/
abbrev Id (t : Table) := Fin t.toList.length

/-- The production with a number. -/
def production (t : Table) (id : t.Id) : Production := t.toList.get id

/-- Looks a name up among the productions, and crosses off the one it finds. -/
def reach (t : Table) (name : String) : StateM (List t.Id) Bool := do
  match t.productions.id? name with
  | none => return false
  | some id =>
    modify (·.filter (·.val ≠ id))
    return (t.productions.value? id).isSome

/-- What is missing and what is not crossed off before any body is looked at. A
production named after the language is the only root. Without one, every
production of the language is a root if no root is asked for, and the root is
missing otherwise. -/
def start (t : Table) (options : List ResolutionOption) : MissingLedger × List t.Id :=
  let ids := List.finRange t.toList.length
  match t.productions.id? t.language with
  | some root => (∅, ids.filter (·.val ≠ root))
  | none =>
    if .allowRootless ∈ options then
      (∅, ids.filter fun id => (t.production id).vocabulary ≠ some t.language)
    else (MissingLedger.empty.record t.language (.root t.language), ids)

/-- What is missing and what is not crossed off after a look at every body,
whether anything leads to it or not. -/
def scan (t : Table) (options : List ResolutionOption) : MissingLedger × List t.Id :=
  let (ledger, ids) := t.start options
  (t.toList.foldlM (fun l (p : Production) => p.resolve t.reach l) ledger).run ids

/-- Logs the unused productions, if there are any. -/
def noteUnused (unused : List String) (options : List ResolutionOption) : Logged Unit :=
  if unused.isEmpty then return
  else if .skipUnused ∈ options then
    Logged.log .debug ("Keeping unused productions: " ++ ", ".intercalate unused)
  else Logged.log .warn ("Unused productions: " ++ ", ".intercalate unused)

/-- The productions of a table, each under its name. -/
def productionMap (t : Table) : ProductionMap := .ofList (t.toList.map fun p => (p.name, p))

/-- The grammar of a table, if nothing is missing. `arrange` has the last word
on the map of its productions. -/
def resolve (t : Table) (arrange : ProductionMap → ProductionMap) (options : List ResolutionOption) :
    Logged (Except GrammarError Grammar) := do
  let (ledger, ids) := t.scan options
  match ← ledger.settle with
  | .error e => return .error e
  | .ok () =>
    noteUnused (ids.map fun id => (t.production id).name) options
    Logged.log .info ("Resolved grammar '" ++ t.language ++ "'")
    return .ok ⟨t.language, t.caseSensitive, arrange t.productionMap⟩

end Table

end Ebnf

import Ebnf.Proofs.Row
import Mathlib.Tactic.FinCases
/-! Reads a written body back, one character at a time. It knows brackets, bars
and blanks, and nothing else of the body that was written. -/

namespace Ebnf

/-- Text that goes on up to a character of its own, whatever is in between. -/
inductive Token
  | quoted (mark : Char)
  | set
  | lower (inner : Row)
  | upper (inner : Row) (low : List Char)

/-- What was read since the last blank, bar or opening bracket. -/
inductive Mode
  | ready
  | barred
  | held (item : Expr)
  | word (name : List Char)
  | closed (inner : Row)
  | within (token : Token) (content : List Char)
  | named (set : List Char)

namespace Token

def stop : Token → Char
  | quoted mark => mark
  | set => ':'
  | lower _ => ','
  | upper _ _ => '\x7d'

def bound (digits : List Char) : UInt64 := .ofNat (Nat.ofDigitChars 10 digits 0)

def after (content : List Char) : Token → Mode
  | quoted _ => .held (.literal (String.ofList content))
  | set => .named content
  | lower inner => .within (.upper inner content) []
  | upper inner low =>
    .held (.repetition (bound low) (if content.isEmpty then none else some (bound content))
      inner.toExpr)

end Token

/-- The row in the innermost open brackets, and the rows in front of them. -/
structure Scanner where
  row : Row
  outer : List Row
  mode : Mode

namespace Scanner

def start : Scanner := ⟨[], [], .ready⟩

/-- What parentheses without bounds stand for. -/
def group (inner : Row) : Expr :=
  if inner = [some (.sequence [])] then .epsilon else inner.toExpr

/-- The row, if nothing more comes. Where an item is missing there was a sequence
without parts. -/
def finish (s : Scanner) : Row :=
  match s.mode with
  | .ready => s.row ++ [some (.sequence [])]
  | .held item => s.row ++ [some item]
  | .word name => s.row ++ [some (.nonTerminal (String.ofList name))]
  | .closed inner => s.row ++ [some (group inner)]
  | _ => s.row

/-- A blank or a closing bracket behind an item. -/
def delimit (row : Row) (outer : List Row) (c : Char) : Scanner :=
  if c = ' ' then ⟨row, outer, .ready⟩
  else match outer with
    | [] => ⟨row, [], .ready⟩
    | before :: rest =>
      if c = ')' then ⟨before, rest, .closed row⟩
      else if c = ']' then ⟨before, rest, .held (.optional row.toExpr)⟩
      else ⟨before, rest, .held (.repetition 0 none row.toExpr)⟩

/-- A character where an item may start. -/
def enter (s : Scanner) (c : Char) : Scanner :=
  if isLetter c then { s with mode := .word [c] }
  else if c = '\x27' ∨ c = '"' then { s with mode := .within (.quoted c) [] }
  else if c = ':' then { s with mode := .within .set [] }
  else if c = '|' then ⟨s.row ++ [none], s.outer, .barred⟩
  else if c = '(' ∨ c = '[' ∨ c = '\x7b' then ⟨[], s.row :: s.outer, .ready⟩
  else delimit s.finish s.outer c

def step (s : Scanner) (c : Char) : Scanner :=
  match s.mode with
  | .ready => s.enter c
  | .barred => { s with mode := .ready }
  | .held _ => delimit s.finish s.outer c
  | .word name =>
    if inName c then { s with mode := .word (name ++ [c]) } else delimit s.finish s.outer c
  | .closed inner =>
    if c = '\x7b' then { s with mode := .within (.lower inner) [] }
    else delimit s.finish s.outer c
  | .within token content =>
    { s with mode := if c = token.stop then token.after content else .within token (content ++ [c]) }
  | .named set =>
    match s.outer with
    | [] => s
    | before :: rest => ⟨before, rest, .held (.characterSet (String.ofList set))⟩

def run (s : Scanner) (text : List Char) : Scanner := text.foldl step s

theorem run_cons (s : Scanner) (c : Char) (rest : List Char) : s.run (c :: rest) = (s.step c).run rest :=
  rfl

theorem run_append (s : Scanner) (text more : List Char) :
    s.run (text ++ more) = (s.run text).run more :=
  List.foldl_append

variable {row : Row} {outer : List Row}

theorem run_word {name : List Char} (h : ∀ c ∈ name, inName c) (first : List Char) :
    run ⟨row, outer, .word first⟩ name = ⟨row, outer, .word (first ++ name)⟩ := by
  induction name generalizing first with
  | nil => rw [List.append_nil]; rfl
  | cons c rest ih =>
    rw [List.forall_mem_cons] at h
    have hstep : step ⟨row, outer, .word first⟩ c = ⟨row, outer, .word (first ++ [c])⟩ :=
      if_pos h.1
    rw [run_cons, hstep, ih h.2, List.append_assoc, List.singleton_append]

theorem step_within (token : Token) (content : List Char) (c : Char) :
    step ⟨row, outer, .within token content⟩ c = ⟨row, outer,
      if c = token.stop then token.after content else .within token (content ++ [c])⟩ :=
  rfl

theorem run_within {token : Token} {content : List Char} (h : token.stop ∉ content)
    (first : List Char) : run ⟨row, outer, .within token first⟩ (content ++ [token.stop])
      = ⟨row, outer, token.after (first ++ content)⟩ := by
  induction content generalizing first with
  | nil =>
    rw [List.append_nil, List.nil_append, run_cons, step_within, if_pos rfl]
    rfl
  | cons c rest ih =>
    rw [List.mem_cons, not_or] at h
    rw [List.cons_append, run_cons, step_within, if_neg (Ne.symm h.1), ih h.2, List.append_assoc,
      List.singleton_append]

/-- The reader is through with the row: it has nothing to add to it, and takes
what may follow an item for that. -/
structure Rests (s : Scanner) (row : Row) (outer : List Row) : Prop where
  finish_eq : s.finish = row
  step_eq : ∀ c ∈ [' ', ')', ']', '\x7d'], s.step c = delimit row outer c

theorem rests_ready : Rests ⟨row, outer, .ready⟩ (row ++ [some (.sequence [])]) outer := by
  refine ⟨rfl, fun c hc => ?_⟩
  fin_cases hc <;> rfl

theorem rests_held (item : Expr) : Rests ⟨row, outer, .held item⟩ (row ++ [some item]) outer :=
  ⟨rfl, fun _ _ => rfl⟩

theorem rests_word (name : List Char) : Rests ⟨row, outer, .word name⟩
    (row ++ [some (.nonTerminal (String.ofList name))]) outer := by
  refine ⟨rfl, fun c hc => if_neg ?_⟩
  fin_cases hc <;> decide

theorem rests_closed (inner : Row) :
    Rests ⟨row, outer, .closed inner⟩ (row ++ [some (group inner)]) outer := by
  refine ⟨rfl, fun c hc => if_neg ?_⟩
  fin_cases hc <;> decide

end Scanner

/-- The body that a text stands for. -/
def Expr.ofText (text : String) : Expr := (Scanner.start.run text.toList).finish.toExpr

end Ebnf

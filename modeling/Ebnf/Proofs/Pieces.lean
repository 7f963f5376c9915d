import Mathlib.Data.List.Basic
import Ebnf.Grammar
/-! Writing is offering pieces, one after the other. That holds of any place to
write to, so a place that refuses a piece gets none of those behind it. -/

namespace Ebnf

theorem map_intersperse {α β : Type} (f : α → β) (a : α) (xs : List α) :
    (xs.intersperse a).map f = (xs.map f).intersperse (f a) := by
  induction xs with
  | nil => rfl
  | cons x rest ih =>
    cases rest with
    | nil => rfl
    | cons next rest =>
      rw [List.intersperse_cons_cons, List.map_cons, List.map_cons, ih]
      rfl

variable {m : Type → Type} [Monad m] (put : String → m Unit)

theorem forM_flatten {α : Type} [LawfulMonad m] (f : α → m Unit) (xss : List (List α)) :
    xss.flatten.forM f = xss.forM (·.forM f) := by
  induction xss with
  | nil => rfl
  | cons xs rest ih =>
    simp only [List.forM_eq_forM] at ih ⊢
    rw [List.flatten_cons, List.forM_append, List.forM_cons, ih]

/-- Pieces with marks between them are put with marks between them. -/
theorem forM_intersperse [LawfulMonad m] (mark : String) (pieces : List String) :
    (pieces.intersperse mark).forM put = putBetween put mark (pieces.map put) := by
  rw [putBetween, ← map_intersperse]
  simp only [List.forM_eq_forM, List.forM_map, id_eq]

/-- Rows of pieces with marks between them are written with marks between them. -/
theorem forM_intercalate [LawfulMonad m] (mark : String) (rows : List (List String)) :
    ([mark].intercalate rows).forM put = putBetween put mark (rows.map (·.forM put)) := by
  have hmark : put mark = [mark].forM put := by
    rw [List.forM_eq_forM, List.forM_cons, List.forM_nil, bind_pure_unit]
  rw [List.intercalate, forM_flatten, putBetween, hmark,
    ← map_intersperse (fun row : List String => row.forM put)]
  simp only [List.forM_eq_forM, List.forM_map, id_eq]

theorem Literal.writeBy_eq [LawfulMonad m] (text : String) : writeBy put text = (pieces text).forM put := by
  rw [writeBy, pieces, forM_intersperse, List.map_map]
  rfl

namespace Expr

theorem forM_enclosed [LawfulMonad m] (left right : String) (row : List String) :
    (left :: row ++ [right]).forM put = (do put left; row.forM put; put right) := by
  simp only [List.forM_eq_forM, List.cons_append, List.forM_cons, List.forM_append, List.forM_nil, bind_pure_unit]

mutual

theorem writeBy_eq [LawfulMonad m] : ∀ e : Expr, e.writeBy put = e.pieces.forM put
  | epsilon => by simp [writeBy, pieces]
  | literal text => by rw [writeBy, pieces, Literal.writeBy_eq]
  | characterSet name => by simp [writeBy, pieces]
  | nonTerminal name => by simp [writeBy, pieces]
  | sequence parts => by rw [writeBy, pieces, forM_intercalate, writeParts_eq]
  | alternatives branches => by rw [writeBy, pieces, forM_intercalate, writeBranches_eq]
  | optional body => by rw [writeBy, pieces, forM_enclosed, writeBy_eq body]
  | repetition min max body => by
    rw [writeBy, pieces]
    split
    · rw [forM_enclosed, writeBy_eq body]
    · simp [writeBy_eq body]

theorem writeParts_eq [LawfulMonad m] : ∀ parts : List Expr,
    writeParts put parts = (partPieces parts).map (·.forM put)
  | [] => rfl
  | e :: rest => by
    rw [writeParts, partPieces, List.map_cons, writeBy_eq e, writeParts_eq rest]
    split
    · rw [forM_enclosed]
    · rfl

theorem writeBranches_eq [LawfulMonad m] : ∀ branches : List Expr,
    writeBranches put branches = (branchPieces branches).map (·.forM put)
  | [] => rfl
  | e :: rest => by rw [writeBranches, branchPieces, List.map_cons, writeBy_eq e, writeBranches_eq rest]

end

end Expr

/-- Writing a production offers its pieces one after the other. -/
theorem Production.writeBy_eq [LawfulMonad m] (p : Production) : p.writeBy put = p.pieces.forM put := by
  rw [writeBy, pieces, Expr.writeBy_eq]
  cases p.description with
  | none => simp [descriptionPieces]
  | some d => simp [descriptionPieces]

/-- Writing a grammar offers the pieces of its productions, production after production. -/
theorem Grammar.accept_writeBy [LawfulMonad m] (g : Grammar) :
    g.accept (Production.writeBy put) = (g.toList.flatMap Production.pieces).forM put := by
  rw [accept, List.flatMap, forM_flatten, List.forM_eq_forM, List.forM_eq_forM, List.forM_map]
  exact congrArg (forM g.toList) (funext (Production.writeBy_eq put))

end Ebnf

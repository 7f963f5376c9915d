import Ebnf.Expr
/-! The walk through a body finds the names that recursion on the body finds.
The list of what is still to be visited grows and shrinks, so the statement is
about that list: what is found is what all its bodies mention, in order. -/

namespace Ebnf.Expr

theorem namesAll_append (as bs : List Expr) : namesAll (as ++ bs) = namesAll as ++ namesAll bs := by
  induction as with
  | nil => rfl
  | cons a as ih => simp only [List.cons_append, namesAll, ih, List.append_assoc]

theorem walk_eq_namesAll (todo : List Expr) : walk todo = namesAll todo := by
  fun_induction walk todo with
  | case1 => rfl
  | case2 name rest ih => simp only [namesAll, names, ih, List.singleton_append]
  | case3 parts rest ih => rw [ih, namesAll_append]; rfl
  | case4 branches rest ih => rw [ih, namesAll_append]; rfl
  | case5 body rest ih => exact ih
  | case6 min max body rest ih => exact ih
  | case7 e rest _ _ _ _ _ ih =>
    cases e with
    | epsilon => exact ih
    | literal => exact ih
    | characterSet => exact ih
    | _ => simp_all

theorem nonTerminals_eq_names (e : Expr) : e.nonTerminals = e.names := by
  rw [nonTerminals, walk_eq_namesAll, namesAll, namesAll, List.append_nil]

end Ebnf.Expr

import Ebnf.Proofs.Writing
/-! Writing into a place that runs full. What is left there is the beginning of
what would be left without a limit, as much as there is room for, and after the
first piece that does not fit no other is offered. -/

namespace Ebnf

/-- Leaves `text` where there is room for it, and as much of its beginning as
there is room for otherwise. Only in the first case does it get to its end. -/
structure Writer.Fills (w : Writer Unit) (text : String) : Prop where
  unlimited : w.rendering none = (text, true)
  limited : ∀ k, w.rendering (some k) =
    (String.ofList (text.toList.take (min k text.length)), decide (text.length ≤ k))

theorem Writer.rendering_put_eq (text : String) (limit : Option Nat) : (put text).rendering limit =
    (((Sink.ofLimit limit).put text).1.kept, ((Sink.ofLimit limit).put text).2) := by
  rw [rendering, put]
  rcases (Sink.ofLimit limit).put text with ⟨sink, _ | _⟩ <;> rfl

theorem Writer.fills_put (text : String) : (put text).Fills text where
  unlimited := rendering_put text
  limited k := by
    rw [rendering_put_eq, ← String.length_toList, ← List.take_eq_take_min, String.length_toList]
    change ("" ++ String.ofList (text.toList.take k), _) = _
    rw [String.empty_append]
    rfl

/-- A sink next to a list of all the texts it was ever offered. -/
abbrev Witnessed := ExceptT Full (StateM (List String × Sink))

/-- Offers a text to a sink, before a witness. -/
def Witnessed.put (text : String) : Witnessed Unit := fun (offers, sink) =>
  let (result, after) := Writer.put text sink
  (result, offers ++ [text], after)

/-- The texts that a place with room for `k` characters is offered out of some:
all up to the first that does not fit, and that one. -/
def offered : Nat → List String → List String
  | _, [] => []
  | k, text :: rest => if text.length ≤ k then text :: offered (k - text.length) rest else [text]

theorem Witnessed.put_bind (text : String) (w : Witnessed Unit) (offers : List String) (sink : Sink) :
    (put text >>= fun _ => w) (offers, sink) =
      if (sink.put text).2 then w (offers ++ [text], (sink.put text).1)
      else (.error .full, offers ++ [text], (sink.put text).1) := by
  rcases h : sink.put text with ⟨after, _ | _⟩ <;>
    simp only [bind, ExceptT.bind, ExceptT.mk, ExceptT.bindCont, StateT.bind, put, Writer.put, h] <;> rfl

/-- A witness sees no offer after the first that was refused. -/
theorem run_witnessed (pieces offers : List String) (kept : String) (k : Nat) :
    pieces.forM Witnessed.put (offers, ⟨kept, some k⟩) =
      ((pieces.forM Writer.put ⟨kept, some k⟩).1, offers ++ offered k pieces,
        (pieces.forM Writer.put ⟨kept, some k⟩).2) := by
  -- every piece that fits takes its length off the room there is for the others
  induction pieces generalizing offers kept k with
  | nil =>
    rw [offered, List.append_nil]
    rfl
  | cons text rest ih =>
    have hput : (Sink.mk kept (some k)).put text =
        (⟨kept ++ String.ofList (text.toList.take k), some (k - text.length)⟩, decide (text.length ≤ k)) := rfl
    rw [List.forM_eq_forM, List.forM_eq_forM] at ih ⊢
    rw [List.forM_cons, List.forM_cons, Witnessed.put_bind, Writer.put_bind, hput, offered]
    by_cases hfits : text.length ≤ k
    · simp only [hfits, decide_true, if_true]
      rw [ih, List.append_assoc, List.singleton_append]
    · simp only [hfits, decide_false, Bool.false_eq_true, if_false]

/-- What writers leave in a place that runs full is the beginning of what they
leave in one that does not, as much as fits, and they get to their end if all of
it fits. After a piece that does not fit nothing more is offered. -/
theorem rendering_leaves_prefix :
    (∀ g : Grammar, g.write.Fills (String.join (g.toList.map Production.text))) ∧
    (∀ p : Production, p.write.Fills p.text) ∧
    (∀ e : Expr, (e.writeBy Writer.put).Fills e.text) ∧
    (∀ (p : Production) (k : Nat), let result := p.write.run.run (.ofLimit (some k))
      (p.writeBy Witnessed.put).run.run ([], .ofLimit (some k)) = (result.1, offered k p.pieces, result.2)) ∧
    ∀ (g : Grammar) (k : Nat), let result := g.write.run.run (.ofLimit (some k))
      (g.accept (Production.writeBy Witnessed.put)).run.run ([], .ofLimit (some k)) =
        (result.1, offered k (g.toList.flatMap Production.pieces), result.2) := by
  refine ⟨fun g => ?_, fun p => ?_, fun e => ?_, fun p k => ?_, fun g k => ?_⟩
  · rw [Grammar.write, Grammar.accept, forM_write]
    exact Writer.fills_put _
  · rw [Production.write_eq]
    exact Writer.fills_put _
  · rw [Expr.writeBy_eq, Writer.forM_put, Expr.text]
    exact Writer.fills_put _
  · rw [Production.write, Production.writeBy_eq, Production.writeBy_eq]
    exact run_witnessed _ [] "" k
  · have hwrite : g.write = (g.toList.flatMap Production.pieces).forM Writer.put := Grammar.accept_writeBy _ g
    rw [Grammar.accept_writeBy, hwrite]
    exact run_witnessed _ [] "" k

/-- The limit falls between the two quotation marks of a part of a literal. -/
example : (Production.mk "q" none none (.sequence [.nonTerminal "a", .literal "x'\""])).write.rendering (some 13)
    = ("q ::= a 'x' \"", false) := by decide

end Ebnf

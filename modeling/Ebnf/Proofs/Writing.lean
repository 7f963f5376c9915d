import Ebnf.Proofs.Pieces
/-! What writers leave behind. Pieces written one after the other come to the same as
their text written at once, in a place that runs full as well, so what is written of some
productions is their texts in a row. -/

namespace Ebnf

theorem Sink.put_append (sink : Sink) (a b : String) :
    sink.put (a ++ b) = if (sink.put a).2 then (sink.put a).1.put b else sink.put a := by
  obtain ⟨kept, _ | room⟩ := sink
  · simp [put, String.append_assoc]
  · have htake : (a ++ b).toList.take room = a.toList.take room ++ b.toList.take (room - a.length) := by
      rw [String.toList_append, List.take_append, String.length_toList]
    by_cases ha : a.length ≤ room
    · have hfits : a.length + b.length ≤ room ↔ b.length ≤ room - a.length := by omega
      simp only [put, ha, decide_true, if_true, htake, hfits, String.ofList_append, String.append_assoc,
        String.length_append, Nat.sub_add_eq]
    · have hfull : ¬ a.length + b.length ≤ room := by omega
      have hnone : room - a.length = 0 := by omega
      simp only [put, ha, hfull, htake, hnone, decide_false, Bool.false_eq_true, if_false, List.take_zero,
        List.append_nil, String.length_append, Nat.sub_add_eq, Nat.zero_sub]

theorem Sink.put_empty (sink : Sink) : sink.put "" = (sink, true) := by
  obtain ⟨kept, _ | room⟩ := sink <;> simp [put]

namespace Writer

theorem put_bind (a : String) (w : Writer Unit) (sink : Sink) : (put a >>= fun _ => w) sink =
    if (sink.put a).2 then w (sink.put a).1 else (.error .full, (sink.put a).1) := by
  rcases h : sink.put a with ⟨after, _ | _⟩ <;>
    simp only [bind, ExceptT.bind, ExceptT.mk, ExceptT.bindCont, StateT.bind, put, h] <;> rfl

theorem put_append (a b : String) : (put a >>= fun _ => put b) = put (a ++ b) := by
  funext sink
  rw [put_bind, put, put, sink.put_append]
  by_cases h : (sink.put a).2
  · rw [if_pos h, if_pos h]
  · rw [if_neg h, if_neg h]
    rcases ha : sink.put a with ⟨after, _ | _⟩
    · rfl
    · exact absurd (by rw [ha]) h

theorem put_empty : put "" = pure () := by
  funext sink
  rw [put, sink.put_empty]
  rfl

theorem forM_put (pieces : List String) : pieces.forM put = put (String.join pieces) := by
  induction pieces with
  | nil => exact put_empty.symm
  | cons a pieces ih =>
    rw [List.forM_eq_forM] at ih ⊢
    rw [List.forM_cons, ih, put_append, String.join_cons]

end Writer

theorem Production.write_eq (p : Production) : p.write = Writer.put p.text := by
  rw [write, writeBy_eq, Writer.forM_put, text]

/-- What is written of some productions is their texts in a row. -/
theorem forM_write (ps : List Production) :
    ps.forM Production.write = Writer.put (String.join (ps.map Production.text)) := by
  rw [← Writer.forM_put, List.forM_eq_forM, List.forM_eq_forM, List.forM_map]
  exact congrArg (forM ps) (funext Production.write_eq)

theorem Writer.rendering_put (text : String) : (put text).rendering none = (text, true) := by
  change ("" ++ text, true) = _
  rw [String.empty_append]

theorem rendering_forM_write (ps : List Production) :
    (ps.forM Production.write).rendering none = (String.join (ps.map Production.text), true) := by
  rw [forM_write, Writer.rendering_put]

end Ebnf

import Ebnf.Proofs.Decoding
/-! A record that has a member too many is not read at all, and nor is a document
that has such a record in it. -/

namespace Ebnf

open Json Json.Decoder

namespace Expr

theorem marks_repetitionRecord (body : Decoder Expr) : Marks (repetitionRecord body) where
  own f hf v g draft h := by
    simp only [repetitionRecord, List.mem_cons, List.not_mem_nil, or_false] at hf
    rcases hf with rfl | rfl | rfl <;> obtain ⟨a, -, rfl⟩ := exists_set_of_run h <;> rfl
  others f hf f' hf' v g draft h htaken := by
    simp only [repetitionRecord, List.mem_cons, List.not_mem_nil, or_false] at hf hf'
    rcases hf with rfl | rfl | rfl <;> obtain ⟨a, -, rfl⟩ := exists_set_of_run h <;>
      rcases hf' with rfl | rfl | rfl <;> first | exact htaken | rfl

/-- No variant is read off an object with more than one member, or with one whose
value is refused. -/
theorem refuses_variant {name : String} {v : Json} {r : Nat → Decoder Expr}
    (hrun : ∀ n, (Expr.read (n + 1) : Decoder Expr).run (.object [(name, v)]) = (r n).run v)
    (h : Refuses r v) (before after : List (String × Json)) :
    Refuses Expr.read (.object (before ++ (name, v) :: after)) := by
  intro n
  cases n with
  | zero => exact ⟨.tooDeep, rfl⟩
  | succ n =>
    -- only an object with no other member gets as far as the value
    match before, after with
    | [], [] =>
      rw [List.nil_append, hrun]
      exact h n
    | [], _ :: _ => exact ⟨_, rfl⟩
    | _ :: [], _ => exact ⟨_, rfl⟩
    | _ :: _ :: _, _ => exact ⟨_, rfl⟩

end Expr

theorem ProductionSpec.marks_recordOf (body : Decoder Expr) : Marks (recordOf body) where
  own f hf v g draft h := by
    simp only [recordOf, List.mem_cons, List.not_mem_nil, or_false] at hf
    rcases hf with rfl | rfl | rfl <;> obtain ⟨a, -, rfl⟩ := exists_set_of_run h <;> rfl
  others f hf f' hf' v g draft h htaken := by
    simp only [recordOf, List.mem_cons, List.not_mem_nil, or_false] at hf hf'
    rcases hf with rfl | rfl | rfl <;> obtain ⟨a, -, rfl⟩ := exists_set_of_run h <;>
      rcases hf' with rfl | rfl | rfl <;> first | exact htaken | rfl

theorem VocabularySpec.marks_recordOf (productions : Decoder (List ProductionSpec)) :
    Marks (recordOf productions) where
  own f hf v g draft h := by
    simp only [recordOf, List.mem_cons, List.not_mem_nil, or_false] at hf
    rcases hf with rfl | rfl <;> obtain ⟨a, -, rfl⟩ := exists_set_of_run h <;> rfl
  others f hf f' hf' v g draft h htaken := by
    simp only [recordOf, List.mem_cons, List.not_mem_nil, or_false] at hf hf'
    rcases hf with rfl | rfl <;> obtain ⟨a, -, rfl⟩ := exists_set_of_run h <;>
      rcases hf' with rfl | rfl <;> first | exact htaken | rfl

theorem GrammarSpec.marks_recordOf (productions : Decoder (List ProductionSpec)) :
    Marks (recordOf productions) where
  own f hf v g draft h := by
    simp only [recordOf, List.mem_cons, List.not_mem_nil, or_false] at hf
    rcases hf with rfl | rfl | rfl | rfl <;> obtain ⟨a, -, rfl⟩ := exists_set_of_run h <;> rfl
  others f hf f' hf' v g draft h htaken := by
    simp only [recordOf, List.mem_cons, List.not_mem_nil, or_false] at hf hf'
    rcases hf with rfl | rfl | rfl | rfl <;> obtain ⟨a, -, rfl⟩ := exists_set_of_run h <;>
      rcases hf' with rfl | rfl | rfl | rfl <;> first | exact htaken | rfl

namespace Json.Role

/-- The value cannot be read as what it stands for. -/
def Refused : Role → Json → Prop
  | scalar, _ => False
  | list role, w => ∃ before v after, w = .list (before ++ v :: after) ∧ role.Refused v
  | expr, w => Refuses Expr.read w
  | repetition, w => Refuses (fun n => Decoder.record (Expr.repetitionRecord (Expr.read n))) w
  | production, w => Refuses ProductionSpec.read w
  | vocabulary, w => Refuses VocabularySpec.read w
  | grammar, w => Refuses GrammarSpec.read w

variable {role : Role} {v w : Json}

theorem refuses_items {α : Type} {r : Nat → Decoder α} (h : (list role).Refused w)
    (hitem : ∀ v, role.Refused v → Refuses r v) : Refuses (fun n => Decoder.list (r n)) w := by
  obtain ⟨before, v, after, rfl, hv⟩ := h
  exact .list (hitem v hv) before after

/-- Whatever holds a refused value is refused itself. -/
theorem refused_of_member {name : String} (h : (role.member name).Refused v)
    (before after : List (String × Json)) : role.Refused (.object (before ++ (name, v) :: after)) := by
  unfold member at h
  split at h
  · exact Expr.refuses_variant (fun _ => rfl) ((refuses_items h fun _ => id).map Expr.sequence) before after
  · exact Expr.refuses_variant (fun _ => rfl) ((refuses_items h fun _ => id).map Expr.alternatives) before after
  · exact Expr.refuses_variant (fun _ => rfl) (h.map Expr.optional) before after
  · exact .member (fun n => Expr.marks_repetitionRecord _) (fun _ => rfl) h before after
  · exact .member (fun n => ProductionSpec.marks_recordOf _) (fun _ => rfl) h before after
  · exact Expr.refuses_variant (fun _ => rfl) h before after
  · exact .member (fun n => VocabularySpec.marks_recordOf _) (fun _ => rfl) (refuses_items h fun _ => id) before after
  · exact .member (fun n => GrammarSpec.marks_recordOf _) (fun _ => rfl) (refuses_items h fun _ => id) before after
  · obtain ⟨_, _, _, -, h⟩ := h
    exact h.elim
  · exact h.elim

theorem refused_of_stray {name : String} {before after : List (String × Json)} (hfields : role.fields ≠ [])
    (h : name ∉ role.fields ∨ name ∈ (before ++ after).map Prod.fst) :
    role.Refused (.object (before ++ (name, v) :: after)) := by
  cases role with
  | scalar | list | expr => exact absurd rfl hfields
  | repetition => exact .stray (fun n => Expr.marks_repetitionRecord _) (fields .repetition) (fun _ => rfl) h
  | production => exact .stray (fun n => ProductionSpec.marks_recordOf _) (fields .production) (fun _ => rfl) h
  | vocabulary => exact .stray (fun n => VocabularySpec.marks_recordOf _) (fields .vocabulary) (fun _ => rfl) h
  | grammar => exact .stray (fun n => GrammarSpec.marks_recordOf _) (fields .grammar) (fun _ => rfl) h

theorem refused_of_overfills (h : Overfills role v w) : role.Refused w := by
  induction h with
  | here v before after hfields h => exact refused_of_stray hfields h
  | inMember before after _ ih => exact refused_of_member ih before after
  | inItem before after _ ih => exact ⟨before, _, after, rfl, ih⟩

end Json.Role

namespace Json

variable {α : Type} {role : Role} {write : α → Json} {r : Nat → Decoder α}

/-- What is written is read back after any number of changes that keep what is
meant, and no value is read that has a member too many. -/
structure ReadsBack (role : Role) (write : α → Json) (read? : Json → Except Mismatch α) : Prop where
  respelled : ∀ a v, Relation.ReflTransGen role.Respells (write a) v → read? v = .ok a
  overfilled : ∀ v w, role.Overfills v w → ∃ m, read? w = .error m

theorem readsBack_decode (hself : ∀ a, role.Varies (write a) (write a))
    (htakes : ∀ a v, role.Varies (write a) v → Takes r v a) (hrefuses : ∀ w, role.Refused w → Refuses r w) :
    ReadsBack role write (decode r) where
  respelled a v h := (htakes a v (.of_respells (hself a) h)).decode_eq
  overfilled _ w h := (hrefuses w (Role.refused_of_overfills h)).decode_eq

/-- Whatever is written down is read back from its value, with the members of
objects in any order and any fields left out that have their defaults; and it is
not read if any record in it has an unknown member, or one a second time. -/
theorem documents_read_back :
    ReadsBack .expr Expr.toJson toExpr? ∧ ReadsBack .production ProductionSpec.toJson toProductionSpec? ∧
      ReadsBack .vocabulary VocabularySpec.toJson toVocabularySpec? ∧
      ReadsBack .grammar GrammarSpec.toJson toGrammarSpec? := by
  refine ⟨?_, ?_, ?_, ?_⟩
  · exact readsBack_decode Expr.varies_toJson Expr.takes_of_varies fun _ => id
  · exact readsBack_decode ProductionSpec.varies_toJson ProductionSpec.takes_of_varies fun _ => id
  · exact readsBack_decode VocabularySpec.varies_toJson VocabularySpec.takes_of_varies fun _ => id
  · exact readsBack_decode GrammarSpec.varies_toJson GrammarSpec.takes_of_varies fun _ => id

/-- One stroke or more. -/
def repetitionSpec : GrammarSpec := ⟨"Tally", true, [], [⟨"Tally", none, .repetition 1 none (.literal "|")⟩]⟩

/-- The value of a grammar like `repetitionSpec`, given the bounds of its repetition. -/
def respelledSpec (bounds : List (String × Json)) : Json :=
  .object [("productions", .list [.object [("name", .string "Tally"), ("description", .null),
    ("body", .object [("Repetition", .object (bounds ++ [("expr", .object [("Literal", .string "|")])]))])]]),
    ("language", .string "Tally")]

/-- Only the deepest record has a member too many. -/
theorem repetitionSpec_reads_back : toGrammarSpec? (respelledSpec [("min", .number 1)]) = .ok repetitionSpec ∧
    ∃ m, toGrammarSpec? (respelledSpec [("min", .number 1), ("least", .number 1)]) = .error m := by
  constructor
  · refine documents_read_back.2.2.2.respelled repetitionSpec _ ?_
    refine .head (.leaveOut [("language", .string "Tally")] _ rfl) ?_
    refine .head (.leaveOut [("language", .string "Tally")] _ rfl) ?_
    refine .head (.reorder (.swap _ _ _)) (.single ?_)
    refine .inMember [] [("language", .string "Tally")] <| .inItem [] [] ?_
    refine .inMember [("name", .string "Tally"), ("description", .null)] [] <| .inMember [] [] ?_
    exact .leaveOut [("min", .number 1)] [("expr", .object [("Literal", .string "|")])] rfl
  · refine documents_read_back.2.2.2.overfilled (respelledSpec [("min", .number 1)]) _ ?_
    refine .inMember [] [("language", .string "Tally")] <| .inItem [] [] ?_
    refine .inMember [("name", .string "Tally"), ("description", .null)] [] <| .inMember [] [] ?_
    exact .here (.number 1) [("min", .number 1)] _ (by decide) (.inl (by decide))

end Json

end Ebnf

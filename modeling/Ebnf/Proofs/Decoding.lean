import Ebnf.Proofs.Members
import Ebnf.Proofs.Respelling
import Ebnf.Proofs.Shape
/-! What is written down as a value is read back from it, whatever order its members
are in and whether or not its defaults are there; and a record that has a member
too many is not read at all. -/

namespace Ebnf

namespace Json

namespace Decoder

theorem takes_string (s : String) : Takes (fun _ => Source.string) (.string s) s := fun _ _ => rfl

theorem takes_boolean (b : Bool) : Takes (fun _ => Source.boolean) (.boolean b) b := fun _ _ => rfl

theorem takes_natural (k : UInt64) : Takes (fun _ => Source.natural) (.number k.toNat) k := by
  intro n _
  have hsize : ¬ ((k.toNat : Int) < 0 ∨ Int.ofNat UInt64.size ≤ (k.toNat : Int)) := by
    have hlt := k.toNat_lt_size
    simp only [Int.ofNat_eq_natCast]
    omega
  have hrun : (Source.natural : Decoder UInt64).run (.number k.toNat) =
      (if (k.toNat : Int) < 0 ∨ Int.ofNat UInt64.size ≤ (k.toNat : Int) then
        reject (.value (.integer k.toNat) "usize")
      else return .ofNat (k.toNat : Int).toNat : Decoder UInt64).run (.number k.toNat) := rfl
  rw [hrun, if_neg hsize, Int.toNat_natCast, UInt64.ofNat_toNat]
  rfl

theorem takes_natural? (k : Option UInt64) : Takes (fun _ => Source.optional Source.natural)
    (k.elim .null fun n => .number n.toNat) k := by
  intro n hn
  cases k with
  | none => rfl
  | some k => exact (takes_natural k).map some n hn

theorem takes_text? (s : Option String) : Takes (fun _ => Source.optional Source.string) (.ofText? s) s := by
  intro n _
  cases s <;> rfl

theorem takes_all {α : Type} {role : Role} {write : α → Json} {r : Nat → Decoder α} {as : List α} {ws : List Json}
    (h : List.Forall₂ (Role.Varies role) (as.map write) ws)
    (hall : ∀ a ∈ as, ∀ v, role.Varies (write a) v → Takes r v a) : List.Forall₂ (Takes r) ws as := by
  induction as generalizing ws with
  | nil =>
    cases h
    exact .nil
  | cons a rest ih =>
    cases h with
    | cons hw hrest =>
      rw [List.forall_mem_cons] at hall
      exact .cons (hall.1 _ hw) (ih hrest hall.2)

theorem takes_items {α : Type} {role : Role} {write : α → Json} {r : Nat → Decoder α} {as : List α} {w : Json}
    (h : Role.Varies (.list role) (.list (as.map write)) w)
    (hall : ∀ a ∈ as, ∀ v, role.Varies (write a) v → Takes r v a) :
    Takes (fun n => Source.list (r n)) w as := by
  obtain ⟨ws, rfl, hws⟩ := h.exists_items
  exact .list (takes_all hws hall)

/-- The value of a field that was read, or else has its default. -/
theorem getD_of_seen {α : Type} {name : String} {seen : List String} {a default : α}
    (h : name ∈ seen ∨ a = default) : (if name ∈ seen then some a else none).getD default = a := by
  split
  · rfl
  · next hnew => exact (h.resolve_left hnew).symm

/-- A record is read off what may become of its object, if its members are, one at a
time, and what is left out has its default. -/
theorem takes_record {σ α : Type} {d : Nat → Record Decoder σ α} {role : Role} {ms : List (String × Json)}
    {w : Json} {a : α} (h : Role.Varies role (.object ms) w) (draft : List String → σ)
    (hblank : ∀ n, (d n).blank = draft [])
    (hmember : ∀ m ∈ ms, ∀ w, Role.Varies (role.member m.1) m.2 w → ∀ n, w.depth < n → ∀ seen, m.1 ∉ seen →
      Decoder.member (d n) (draft seen) (m.1, w) = .ok (draft (m.1 :: seen)))
    (hfinish : ∀ n seen, (∀ m ∈ ms, m.1 ∈ seen ∨ role.default? m.1 = some m.2) →
      (d n).finish (draft seen) = .ok a) :
    Takes (fun n => Source.record (d n)) w a := by
  obtain ⟨os, rfl, hos⟩ := h.exists_members
  refine Takes.record draft hblank hos.nodup (fun o ho n hn seen hnew => ?_) fun n seen hseen => ?_
  · obtain ⟨v, hv, hvar⟩ := hos.exists_source o ho
    exact hmember (o.1, v) hv o.2 hvar n hn seen hnew
  · exact hfinish n seen fun m hm => hos.mem_seen_or hm hseen

end Decoder

end Json

open Json Json.Decoder

namespace Expr

theorem toJsonAll_eq_map (es : List Expr) : toJsonAll es = es.map toJson := by
  induction es with
  | nil => rfl
  | cons e rest ih => rw [toJsonAll, ih, List.map_cons]

theorem takes_variant {name : String} {v : Json} {r : Nat → Decoder Expr} {e : Expr}
    (hrun : ∀ n, (Expr.read (n + 1) : Decoder Expr).run (.object [(name, v)]) = (r n).run v)
    (h : Takes r v e) : Takes Expr.read (.object [(name, v)]) e := by
  intro n hn
  -- what stands beside the name is one less deep than the object, and so is its reader
  have hle : v.depth ≤ depthMembers [(name, v)] := depth_le_depthMembers (List.mem_singleton_self (name, v))
  rw [Json.depth] at hn
  cases n with
  | zero => omega
  | succ n =>
    rw [hrun]
    exact h n (by omega)

/-- The draft of a repetition of which these fields are read. -/
def repetitionSeen (min : UInt64) (max : Option UInt64) (body : Expr) (seen : List String) : RepetitionDraft where
  min := if "min" ∈ seen then some min else none
  max := if "max" ∈ seen then some max else none
  expr := if "expr" ∈ seen then some body else none

theorem takes_repetition {min : UInt64} {max : Option UInt64} {body : Expr} {w : Json}
    (h : Role.Varies .repetition (.object [("min", .number min.toNat),
      ("max", max.elim .null fun n => .number n.toNat), ("expr", body.toJson)]) w)
    (hbody : ∀ v, Role.Varies .expr body.toJson v → Takes Expr.read v body) :
    Takes (fun n => Source.record (repetitionRecord (Expr.read n))) w (repetition min max body) := by
  refine takes_record h (repetitionSeen min max body) (fun _ => rfl) ?_ fun n seen hseen => ?_
  · simp only [List.forall_mem_cons, List.not_mem_nil, false_implies, implies_true, and_true]
    refine ⟨?_, ?_, ?_⟩ <;> intro w hvar n hn seen hnew
    · obtain rfl := hvar.eq_of_depth rfl
      exact member_of_field (repetitionRecord _) rfl (if_neg hnew) (takes_natural min n hn) (by simp [repetitionSeen])
    · obtain rfl := hvar.eq_of_depth (by cases max <;> rfl)
      exact member_of_field (repetitionRecord _) rfl (if_neg hnew) (takes_natural? max n hn) (by simp [repetitionSeen])
    · exact member_of_field (repetitionRecord _) rfl (if_neg hnew) (hbody w hvar n hn) (by simp [repetitionSeen])
  · simp only [List.forall_mem_cons, List.not_mem_nil, false_implies, implies_true, and_true] at hseen
    obtain ⟨hmin, hmax, hexpr⟩ := hseen
    have hleft : "max" ∈ seen ∨ max = none := by
      refine hmax.imp_right fun h => ?_
      cases max with
      | none => rfl
      | some k => cases h
    rw [repetitionSeen, if_pos (hmin.resolve_right nofun), if_pos (hexpr.resolve_right nofun)]
    exact congrArg (fun m => Except.ok (repetition min m body)) (getD_of_seen hleft)

/-- A body is read off everything that may become of its value. -/
theorem takes_of_varies (e : Expr) : ∀ v, Role.Varies .expr e.toJson v → Takes Expr.read v e := by
  induction e with
  | epsilon =>
    intro v h
    obtain rfl := h.eq_of_depth rfl
    intro n hn
    cases n with
    | zero => omega
    | succ n => rfl
  | literal text =>
    intro v h
    obtain ⟨u, rfl, hu⟩ := h.exists_member rfl
    obtain rfl := hu.eq_of_depth rfl
    exact takes_variant (fun _ => rfl) ((takes_string text).map literal)
  | characterSet name =>
    intro v h
    obtain ⟨u, rfl, hu⟩ := h.exists_member rfl
    obtain rfl := hu.eq_of_depth rfl
    exact takes_variant (fun _ => rfl) ((takes_string name).map characterSet)
  | nonTerminal name =>
    intro v h
    obtain ⟨u, rfl, hu⟩ := h.exists_member rfl
    obtain rfl := hu.eq_of_depth rfl
    exact takes_variant (fun _ => rfl) ((takes_string name).map nonTerminal)
  | sequence parts ih =>
    intro v h
    obtain ⟨u, rfl, hu⟩ := h.exists_member rfl
    rw [toJsonAll_eq_map] at hu
    exact takes_variant (fun _ => rfl) ((takes_items hu ih).map sequence)
  | alternatives branches ih =>
    intro v h
    obtain ⟨u, rfl, hu⟩ := h.exists_member rfl
    rw [toJsonAll_eq_map] at hu
    exact takes_variant (fun _ => rfl) ((takes_items hu ih).map alternatives)
  | optional body ih =>
    intro v h
    obtain ⟨u, rfl, hu⟩ := h.exists_member rfl
    exact takes_variant (fun _ => rfl) ((ih u hu).map optional)
  | repetition min max body ih =>
    intro v h
    obtain ⟨u, rfl, hu⟩ := h.exists_member rfl
    exact takes_variant (fun _ => rfl) (takes_repetition hu ih)

theorem varies_toJson (e : Expr) : Role.Varies .expr e.toJson e.toJson := by
  induction e with
  | epsilon => exact .leaf rfl
  | literal | characterSet | nonTerminal =>
    refine .object_refl (List.nodup_singleton _) ?_
    rw [List.forall_mem_singleton]
    exact .leaf rfl
  | sequence parts ih | alternatives parts ih =>
    refine .object_refl (List.nodup_singleton _) ?_
    rw [List.forall_mem_singleton, toJsonAll_eq_map]
    exact .list_refl (List.forall_mem_map.2 ih)
  | optional body ih =>
    refine .object_refl (List.nodup_singleton _) ?_
    rw [List.forall_mem_singleton]
    exact ih
  | repetition min max body ih =>
    refine .object_refl (List.nodup_singleton _) ?_
    rw [List.forall_mem_singleton]
    refine .object_refl (by simp) ?_
    simp only [List.forall_mem_cons, List.not_mem_nil, false_implies, implies_true, and_true]
    exact ⟨.leaf rfl, .leaf (by cases max <;> rfl), ih⟩

end Expr

namespace ProductionSpec

/-- The draft of a production of which these fields are read. -/
def seenOf (s : ProductionSpec) (seen : List String) : Draft where
  name := if "name" ∈ seen then some s.name else none
  description := if "description" ∈ seen then some s.description else none
  body := if "body" ∈ seen then some s.body else none

theorem takes_of_varies (s : ProductionSpec) (w : Json) (h : Role.Varies .production s.toJson w) :
    Takes ProductionSpec.read w s := by
  refine takes_record h s.seenOf (fun _ => rfl) ?_ fun n seen hseen => ?_
  · simp only [List.forall_mem_cons, List.not_mem_nil, false_implies, implies_true, and_true]
    refine ⟨?_, ?_, ?_⟩ <;> intro w hvar n hn seen hnew
    · obtain rfl := hvar.eq_of_depth rfl
      exact member_of_field (recordOf _) rfl (if_neg hnew) (takes_string s.name n hn) (by simp [seenOf])
    · obtain rfl := hvar.eq_of_depth (by cases s.description <;> rfl)
      exact member_of_field (recordOf _) rfl (if_neg hnew) (takes_text? s.description n hn) (by simp [seenOf])
    · have hread := s.body.takes_of_varies w hvar n hn
      exact member_of_field (recordOf _) rfl (if_neg hnew) hread (by simp [seenOf])
  · simp only [List.forall_mem_cons, List.not_mem_nil, false_implies, implies_true, and_true] at hseen
    obtain ⟨hname, hdescription, hbody⟩ := hseen
    have hleft : "description" ∈ seen ∨ s.description = none := by
      refine hdescription.imp_right fun h => ?_
      cases hs : s.description with
      | none => rfl
      | some text =>
        rw [hs] at h
        cases h
    rw [seenOf, if_pos (hname.resolve_right nofun), if_pos (hbody.resolve_right nofun)]
    exact congrArg (fun d => Except.ok (ProductionSpec.mk s.name d s.body)) (getD_of_seen hleft)

theorem varies_toJson (s : ProductionSpec) : Role.Varies .production s.toJson s.toJson := by
  refine .object_refl (by simp) ?_
  simp only [List.forall_mem_cons, List.not_mem_nil, false_implies, implies_true, and_true]
  exact ⟨.leaf rfl, .leaf (by cases s.description <;> rfl), s.body.varies_toJson⟩

end ProductionSpec

namespace VocabularySpec

/-- The draft of a vocabulary of which these fields are read. -/
def seenOf (s : VocabularySpec) (seen : List String) : Draft where
  language := if "language" ∈ seen then some s.language else none
  productions := if "productions" ∈ seen then some s.productions else none

theorem takes_of_varies (s : VocabularySpec) (w : Json) (h : Role.Varies .vocabulary s.toJson w) :
    Takes VocabularySpec.read w s := by
  refine takes_record h s.seenOf (fun _ => rfl) ?_ fun n seen hseen => ?_
  · simp only [List.forall_mem_cons, List.not_mem_nil, false_implies, implies_true, and_true]
    refine ⟨?_, ?_⟩ <;> intro w hvar n hn seen hnew
    · obtain rfl := hvar.eq_of_depth rfl
      exact member_of_field (recordOf _) rfl (if_neg hnew) (takes_string s.language n hn) (by simp [seenOf])
    · have hread := takes_items hvar (fun p _ => p.takes_of_varies) n hn
      exact member_of_field (recordOf _) rfl (if_neg hnew) hread (by simp [seenOf])
  · simp only [List.forall_mem_cons, List.not_mem_nil, false_implies, implies_true, and_true] at hseen
    obtain ⟨hlanguage, hproductions⟩ := hseen
    rw [seenOf, if_pos (hlanguage.resolve_right nofun), if_pos (hproductions.resolve_right nofun)]
    rfl

theorem varies_toJson (s : VocabularySpec) : Role.Varies .vocabulary s.toJson s.toJson := by
  refine .object_refl (by simp) ?_
  simp only [List.forall_mem_cons, List.not_mem_nil, false_implies, implies_true, and_true]
  exact ⟨.leaf rfl, .list_refl (List.forall_mem_map.2 fun p _ => p.varies_toJson)⟩

end VocabularySpec

namespace GrammarSpec

/-- The draft of a grammar of which these fields are read. -/
def seenOf (s : GrammarSpec) (seen : List String) : Draft where
  language := if "language" ∈ seen then some s.language else none
  caseSensitive := if "case_sensitive" ∈ seen then some s.caseSensitive else none
  vocabularies := if "vocabularies" ∈ seen then some s.vocabularies else none
  productions := if "productions" ∈ seen then some s.productions else none

theorem takes_of_varies (s : GrammarSpec) (w : Json) (h : Role.Varies .grammar s.toJson w) :
    Takes GrammarSpec.read w s := by
  refine takes_record h s.seenOf (fun _ => rfl) ?_ fun n seen hseen => ?_
  · simp only [List.forall_mem_cons, List.not_mem_nil, false_implies, implies_true, and_true]
    refine ⟨?_, ?_, ?_, ?_⟩ <;> intro w hvar n hn seen hnew
    · obtain rfl := hvar.eq_of_depth rfl
      exact member_of_field (recordOf _) rfl (if_neg hnew) (takes_string s.language n hn) (by simp [seenOf])
    · obtain rfl := hvar.eq_of_depth rfl
      exact member_of_field (recordOf _) rfl (if_neg hnew) (takes_boolean s.caseSensitive n hn) (by simp [seenOf])
    · have hread := takes_items hvar (fun path _ v hv => hv.eq_of_depth rfl ▸ takes_string path) n hn
      exact member_of_field (recordOf _) rfl (if_neg hnew) hread (by simp [seenOf])
    · have hread := takes_items hvar (fun p _ => p.takes_of_varies) n hn
      exact member_of_field (recordOf _) rfl (if_neg hnew) hread (by simp [seenOf])
  · simp only [List.forall_mem_cons, List.not_mem_nil, false_implies, implies_true, and_true] at hseen
    obtain ⟨hlanguage, hcase, hvocabularies, hproductions⟩ := hseen
    have hc : "case_sensitive" ∈ seen ∨ s.caseSensitive = true :=
      hcase.imp_right fun h => (Json.boolean.inj (Option.some.inj h)).symm
    have hv : "vocabularies" ∈ seen ∨ s.vocabularies = [] :=
      hvocabularies.imp_right fun h => List.map_eq_nil_iff.1 (Json.list.inj (Option.some.inj h)).symm
    rw [seenOf, if_pos (hlanguage.resolve_right nofun), if_pos (hproductions.resolve_right nofun)]
    exact congrArg₂ (fun c vs => Except.ok (GrammarSpec.mk s.language c vs s.productions)) (getD_of_seen hc)
      (getD_of_seen hv)

theorem varies_toJson (s : GrammarSpec) : Role.Varies .grammar s.toJson s.toJson := by
  refine .object_refl (by simp) ?_
  simp only [List.forall_mem_cons, List.not_mem_nil, false_implies, implies_true, and_true]
  refine ⟨.leaf rfl, .leaf rfl, .list_refl ?_, .list_refl ?_⟩
  · exact List.forall_mem_map.2 fun _ _ => .leaf rfl
  · exact List.forall_mem_map.2 fun p _ => p.varies_toJson

end GrammarSpec

end Ebnf

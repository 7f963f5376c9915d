import Ebnf.Document.Json.Value
import Ebnf.Proofs.Results
import Mathlib.Data.List.Nodup
/-! What a reader makes of lists and objects. A record takes the members of an
object in any order, each of its fields at most once, and nothing else; a list
is read if everything in it is. -/

namespace Ebnf.Json

theorem depth_le_depthAll {v : Json} {vs : List Json} (h : v ∈ vs) : v.depth ≤ depthAll vs := by
  induction vs with
  | nil => cases h
  | cons u rest ih =>
    rw [depthAll]
    rcases List.mem_cons.mp h with rfl | h
    · exact Nat.le_max_left _ _
    · exact Nat.le_trans (ih h) (Nat.le_max_right _ _)

theorem depth_le_depthMembers {m : String × Json} {ms : List (String × Json)} (h : m ∈ ms) :
    m.2.depth ≤ depthMembers ms := by
  induction ms with
  | nil => cases h
  | cons u rest ih =>
    rw [depthMembers]
    rcases List.mem_cons.mp h with rfl | h
    · exact Nat.le_max_left _ _
    · exact Nat.le_trans (ih h) (Nat.le_max_right _ _)

namespace Decoder

variable {α β σ : Type}

/-- The reader gets `a` out of the value, if it may go deeper than the value does. -/
def Takes (r : Nat → Decoder α) (v : Json) (a : α) : Prop := ∀ n, v.depth < n → (r n).run v = .ok a

/-- The reader fails on the value, however deep it may go. -/
def Refuses (r : Nat → Decoder α) (v : Json) : Prop := ∀ n, ∃ m, (r n).run v = .error m

variable {r : Nat → Decoder α} {v : Json} {a : α}

theorem Takes.decode_eq (h : Takes r v a) : decode r v = .ok a := h _ (Nat.lt_succ_self _)

theorem Refuses.decode_eq (h : Refuses r v) : ∃ m, decode r v = .error m := h _

theorem Takes.map (f : α → β) (h : Takes r v a) : Takes (fun n => f <$> r n) v (f a) := by
  intro n hn
  rw [ReaderT.run_map, h n hn]
  rfl

theorem Refuses.map (f : α → β) (h : Refuses r v) : Refuses (fun n => f <$> r n) v := by
  intro n
  obtain ⟨m, hm⟩ := h n
  exact ⟨m, by rw [ReaderT.run_map, hm]; rfl⟩

theorem run_list (d : Decoder α) (vs : List Json) : (list d).run (.list vs) = vs.mapM d.run := by
  have hlift (u : Json) : (vs.mapM fun v => (liftM (d.run v) : Decoder α)).run u = vs.mapM d.run := by
    induction vs with
    | nil => rfl
    | cons v rest ih =>
      rw [List.mapM_cons, List.mapM_cons, ReaderT.run_bind]
      refine bind_congr fun a => ?_
      rw [ReaderT.run_bind, ih]
      rfl
  exact hlift _

theorem Takes.list {vs : List Json} {as : List α} (h : List.Forall₂ (Takes r) vs as) :
    Takes (fun n => Decoder.list (r n)) (.list vs) as := by
  intro n hn
  have hall : ∀ v ∈ vs, v.depth < n := by
    intro v hv
    have hle := depth_le_depthAll hv
    rw [depth] at hn
    omega
  rw [run_list]
  clear hn
  induction h with
  | nil => rfl
  | cons h _ ih =>
    rw [List.forall_mem_cons] at hall
    rw [List.mapM_cons, h n hall.1, ih hall.2]
    rfl

theorem Refuses.list (h : Refuses r v) (before after : List Json) :
    Refuses (fun n => Decoder.list (r n)) (.list (before ++ v :: after)) := by
  intro n
  obtain ⟨m, hm⟩ := h n
  rw [run_list, List.mapM_append, List.mapM_cons, hm]
  cases before.mapM (r n).run with
  | error m' => exact ⟨m', rfl⟩
  | ok as => exact ⟨m, rfl⟩

section Records

variable (d : Record Decoder σ α)

/-- What becomes of the draft of a record in the end. -/
def finished (draft : σ) : Except Mismatch α :=
  match d.finish draft with
  | .ok a => .ok a
  | .error name => .error (.missingField name)

theorem run_record (ms : List (String × Json)) :
    (record d).run (.object ms) = ms.foldlM (member d) d.blank >>= finished d := by
  have hrun : (record d).run (.object ms) = ms.foldlM (member d) d.blank >>= fun draft =>
      (match d.finish draft with
      | .ok a => pure a
      | .error name => reject (.missingField name) : Decoder α).run (.object ms) := rfl
  rw [hrun]
  refine bind_congr fun draft => ?_
  rw [finished]
  cases d.finish draft <;> rfl

theorem member_of_field {τ : Type} {name : String} {get : σ → Option τ} {set : τ → σ → σ} {r : Decoder τ}
    (hfield : d.field? name = some (.of name get set r)) {draft next : σ} (hnew : get draft = none)
    {v : Json} {a : τ} (hread : r.run v = .ok a) (hnext : set a draft = next) :
    member d draft (name, v) = .ok next := by
  have hr : (set <$> r).run v = .ok (set a) := by
    rw [ReaderT.run_map, hread]
    rfl
  have htaken : (Field.of name get set r).taken draft = false :=
    Option.isSome_eq_false_iff.2 (by simp [hnew])
  rw [member, hfield, ← hnext]
  simp only [htaken]
  exact bind_eq_ok_iff.2 ⟨set a, hr, rfl⟩

variable {d}

/-- A record is read off an object if there is a draft for every set of names,
such that each member takes the draft without its name to the one with it. -/
theorem Takes.record {d : Nat → Record Decoder σ α} (draft : List String → σ) {a : α}
    {ms : List (String × Json)} (hblank : ∀ n, (d n).blank = draft [])
    (hnodup : (ms.map Prod.fst).Nodup)
    (hmember : ∀ m ∈ ms, ∀ n, m.2.depth < n → ∀ seen, m.1 ∉ seen →
      member (d n) (draft seen) m = .ok (draft (m.1 :: seen)))
    (hfinish : ∀ n seen, (∀ m ∈ ms, m.1 ∈ seen) → (d n).finish (draft seen) = .ok a) :
    Takes (fun n => Decoder.record (d n)) (.object ms) a := by
  intro n hn
  have hdepth : ∀ m ∈ ms, m.2.depth < n := by
    intro m hm
    have hle := depth_le_depthMembers hm
    rw [depth] at hn
    omega
  have hfold (rest : List (String × Json)) (hrest : ∀ m ∈ rest, m ∈ ms) (hnd : (rest.map Prod.fst).Nodup)
      (seen : List String) (hnew : ∀ m ∈ rest, m.1 ∉ seen) :
      rest.foldlM (member (d n)) (draft seen) = .ok (draft ((rest.map Prod.fst).reverse ++ seen)) := by
    induction rest generalizing seen with
    | nil => rfl
    | cons m rest ih =>
      rw [List.forall_mem_cons] at hrest hnew
      rw [List.map_cons, List.nodup_cons] at hnd
      rw [List.foldlM_cons, hmember m hrest.1 n (hdepth m hrest.1) seen hnew.1, List.map_cons,
        List.reverse_cons, List.append_assoc]
      refine ih hrest.2 hnd.2 (m.1 :: seen) fun m' hm' => ?_
      rw [List.mem_cons, not_or]
      exact ⟨fun heq => hnd.1 (heq ▸ List.mem_map_of_mem hm'), hnew.2 m' hm'⟩
  have hseen : ∀ m ∈ ms, m.1 ∈ (ms.map Prod.fst).reverse ++ [] := by
    intro m hm
    simp only [List.append_nil, List.mem_reverse]
    exact List.mem_map_of_mem hm
  rw [run_record, hblank, hfold ms (fun _ h => h) hnodup [] (by simp)]
  have hdone := hfinish n _ hseen
  exact bind_eq_ok_iff.2 ⟨_, rfl, by rw [finished, hdone]⟩

/-- Reading a field marks it as taken, and keeps the marks there are. -/
structure Marks (d : Record Decoder σ α) : Prop where
  own : ∀ f ∈ d.fields, ∀ v g draft, f.read.run v = .ok g → f.taken (g draft)
  others : ∀ f ∈ d.fields, ∀ f' ∈ d.fields, ∀ v g draft, f.read.run v = .ok g →
    f'.taken draft → f'.taken (g draft)

theorem of_member_eq_ok {draft next : σ} {m : String × Json} (h : member d draft m = .ok next) :
    ∃ f g, d.field? m.1 = some f ∧ f.taken draft = false ∧ f.read.run m.2 = .ok g ∧ next = g draft := by
  rw [member] at h
  cases hf : d.field? m.1 with
  | none =>
    rw [hf] at h
    cases h
  | some f =>
    simp only [hf] at h
    split at h
    · cases h
    · next hnew =>
      obtain ⟨g, hg, hnext⟩ := bind_eq_ok_iff.1 h
      exact ⟨f, g, rfl, Bool.eq_false_iff.2 hnew, hg, (Except.ok.inj hnext).symm⟩

theorem of_foldlM_member (hd : Marks d) {ms : List (String × Json)} {draft out : σ}
    (h : ms.foldlM (member d) draft = .ok out) :
    (ms.map Prod.fst).Nodup ∧
      ∀ m ∈ ms, ∃ f g, d.field? m.1 = some f ∧ f.taken draft = false ∧ f.read.run m.2 = .ok g := by
  induction ms generalizing draft with
  | nil => simp
  | cons m rest ih =>
    rw [List.foldlM_cons] at h
    obtain ⟨next, hm, hrest⟩ := bind_eq_ok_iff.1 h
    obtain ⟨f, g, hfield, hnew, hg, rfl⟩ := of_member_eq_ok hm
    have hf : f ∈ d.fields := List.mem_of_find?_eq_some hfield
    obtain ⟨hnodup, hall⟩ := ih hrest
    constructor
    · rw [List.map_cons, List.nodup_cons]
      refine ⟨fun hmem => ?_, hnodup⟩
      -- a second member of this name would find its field taken
      obtain ⟨m', hm', hname⟩ := List.mem_map.1 hmem
      obtain ⟨f', g', hfield', hnew', -⟩ := hall m' hm'
      rw [hname, hfield] at hfield'
      obtain rfl := Option.some.inj hfield'
      rw [hd.own f hf m.2 g draft hg] at hnew'
      cases hnew'
    · rw [List.forall_mem_cons]
      refine ⟨⟨f, g, hfield, hnew, hg⟩, fun m' hm' => ?_⟩
      obtain ⟨f', g', hfield', hnew', hg'⟩ := hall m' hm'
      refine ⟨f', g', hfield', ?_, hg'⟩
      rw [Bool.eq_false_iff]
      intro htaken
      have hf' : f' ∈ d.fields := List.mem_of_find?_eq_some hfield'
      rw [hd.others f hf f' hf' m.2 g draft hg htaken] at hnew'
      cases hnew'

/-- What a record takes: members with distinct names of fields, and values that
these can be read off. -/
def Admits (d : Record Decoder σ α) (ms : List (String × Json)) : Prop :=
  (ms.map Prod.fst).Nodup ∧ ∀ m ∈ ms, ∃ f g, d.field? m.1 = some f ∧ f.read.run m.2 = .ok g

theorem admits_of_run_record (hd : Marks d) {ms : List (String × Json)} {a : α}
    (h : (record d).run (.object ms) = .ok a) : Admits d ms := by
  rw [run_record] at h
  obtain ⟨out, hout, -⟩ := bind_eq_ok_iff.1 h
  obtain ⟨hnodup, hall⟩ := of_foldlM_member hd hout
  refine ⟨hnodup, fun m hm => ?_⟩
  obtain ⟨f, g, hfield, -, hg⟩ := hall m hm
  exact ⟨f, g, hfield, hg⟩

theorem Refuses.record {d : Nat → Record Decoder σ α} (hd : ∀ n, Marks (d n)) {ms : List (String × Json)}
    (h : ∀ n, ¬ Admits (d n) ms) : Refuses (fun n => Decoder.record (d n)) (.object ms) := by
  intro n
  cases hrun : (Decoder.record (d n)).run (.object ms) with
  | error m => exact ⟨m, rfl⟩
  | ok a => exact absurd (admits_of_run_record (hd n) hrun) (h n)

/-- A member that is no field of the record, or one more of a name that is there. -/
theorem Refuses.stray {d : Nat → Record Decoder σ α} (hd : ∀ n, Marks (d n)) (names : List String)
    (hnames : ∀ n, (d n).names = names) {name : String} {v : Json} {before after : List (String × Json)}
    (h : name ∉ names ∨ name ∈ (before ++ after).map Prod.fst) :
    Refuses (fun n => Decoder.record (d n)) (.object (before ++ (name, v) :: after)) := by
  refine .record hd fun n => ?_
  rintro ⟨hnodup, hall⟩
  rcases h with h | h
  · obtain ⟨f, g, hfield, -⟩ := hall (name, v) (by simp)
    rw [← hnames n] at h
    refine h (List.mem_map.2 ⟨f, List.mem_of_find?_eq_some hfield, ?_⟩)
    simpa using List.find?_some hfield
  · rw [List.map_append, List.map_cons, List.nodup_middle, List.nodup_cons, ← List.map_append] at hnodup
    exact hnodup.1 h

/-- A field that is set to what is read for it. -/
theorem exists_set_of_run {τ : Type} {name : String} {get : σ → Option τ} {set : τ → σ → σ} {r : Decoder τ}
    {v : Json} {g : σ → σ} (h : (Field.of name get set r).read.run v = .ok g) :
    ∃ a, r.run v = .ok a ∧ g = set a := by
  rw [Field.of, ReaderT.run_map] at h
  cases hr : r.run v with
  | error m =>
    rw [hr] at h
    cases h
  | ok a =>
    rw [hr] at h
    exact ⟨a, rfl, (Except.ok.inj h).symm⟩

/-- A member that its field cannot be read off. -/
theorem Refuses.member {d : Nat → Record Decoder σ α} (hd : ∀ n, Marks (d n)) {τ : Type} {name : String}
    {get : σ → Option τ} {set : τ → σ → σ} {r : Nat → Decoder τ}
    (hfield : ∀ n, (d n).field? name = some (.of name get set (r n))) {v : Json} (h : Refuses r v)
    (before after : List (String × Json)) :
    Refuses (fun n => Decoder.record (d n)) (.object (before ++ (name, v) :: after)) := by
  refine .record hd fun n => ?_
  rintro ⟨-, hall⟩
  obtain ⟨f, g, hf, hg⟩ := hall (name, v) (by simp)
  rw [hfield n] at hf
  obtain rfl := Option.some.inj hf
  obtain ⟨a, ha, -⟩ := exists_set_of_run hg
  obtain ⟨m, hm⟩ := h n
  rw [hm] at ha
  cases ha

end Records

end Decoder

end Ebnf.Json

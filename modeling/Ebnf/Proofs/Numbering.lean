import Mathlib.Data.List.Induction
import Mathlib.Data.List.Nodup
import Ebnf.NameIndex
import Ebnf.Register
/-! Names, numbers and values in step. However many offers a register has turned down, the
name with a number is the name accepted in that place, and the value with it is the one it
was offered with; no number that was given out leads astray. A `NameIndex` that gets the
same offers gives the same replies and the same answers. -/

namespace Ebnf

theorem getElem?_concat_eq_some_iff {β : Type} {l : List β} {a b : β} {i : Nat} :
    (l ++ [a])[i]? = some b ↔ l[i]? = some b ∨ i = l.length ∧ a = b := by
  rcases Nat.lt_trichotomy i l.length with h | rfl | h
  · rw [List.getElem?_append_left h]
    have hne : i ≠ l.length := by omega
    simp [hne]
  · simp
  · have hout : (l ++ [a]).length ≤ i := by simp; omega
    rw [List.getElem?_eq_none hout, List.getElem?_eq_none (by omega)]
    have hne : i ≠ l.length := by omega
    simp [hne]

section Offers

variable {α : Type}

/-- Of named values offered one after the other, those whose name was not offered before. -/
def firstOffers : List (String × α) → List (String × α)
  | [] => []
  | e :: rest => e :: (firstOffers rest).filter (·.1 ≠ e.1)

theorem mem_names_firstOffers {offers : List (String × α)} {name : String} :
    name ∈ (firstOffers offers).map Prod.fst ↔ name ∈ offers.map Prod.fst := by
  induction offers with
  | nil => rfl
  | cons e rest ih =>
    simp only [firstOffers, List.map_cons, List.mem_cons, ← ih, List.mem_map, List.mem_filter, decide_eq_true_eq]
    by_cases h : name = e.1
    · simp [h]
    · simp only [h, false_or]
      constructor
      · rintro ⟨x, ⟨hx, -⟩, rfl⟩
        exact ⟨x, hx, rfl⟩
      · rintro ⟨x, hx, rfl⟩
        exact ⟨x, ⟨hx, h⟩, rfl⟩

theorem firstOffers_concat (offers : List (String × α)) (e : String × α) : firstOffers (offers ++ [e]) =
    if e.1 ∈ offers.map Prod.fst then firstOffers offers else firstOffers offers ++ [e] := by
  induction offers with
  | nil => rfl
  | cons d rest ih =>
    rw [List.cons_append, firstOffers, ih, firstOffers, List.map_cons]
    by_cases hd : e.1 = d.1
    · have hmem : e.1 ∈ d.1 :: rest.map Prod.fst := hd ▸ List.mem_cons_self ..
      rw [if_pos hmem]
      split
      · rfl
      · simp [hd]
    · simp only [List.mem_cons, hd, false_or]
      split
      · rfl
      · simp [hd]

/-- Later offers leave what was accepted where it is. -/
theorem firstOffers_stay (offers more : List (String × α)) : firstOffers offers <+: firstOffers (offers ++ more) := by
  induction more using List.reverseRecOn with
  | nil => exact (List.append_nil offers).symm ▸ List.prefix_refl _
  | append_singleton more e ih =>
    rw [← List.append_assoc, firstOffers_concat]
    split
    · exact ih
    · exact ih.trans (List.prefix_append _ _)

end Offers

namespace NameIndex

variable {α : Type}

/-- Takes in named values one after the other, and collects the replies. -/
def insertAll (m : NameIndex α) : List (String × α) → List (Except String Nat) × NameIndex α
  | [] => ([], m)
  | e :: rest =>
    match m.insert e.1 e.2 with
    | .error taken => (.error taken :: (m.insertAll rest).1, (m.insertAll rest).2)
    | .ok (id, n) => (.ok id :: (n.insertAll rest).1, (n.insertAll rest).2)

theorem id?_eq_some_iff (m : NameIndex α) {name : String} {i : Nat} :
    m.id? name = some i ↔ m.names[i]? = some name := by
  rw [id?, List.idxOf?_eq_some_iff, List.getElem?_eq_some_iff]
  constructor
  · rintro ⟨h, hname, -⟩
    exact ⟨h, hname⟩
  · rintro ⟨h, hname⟩
    refine ⟨h, hname, fun j hj hother => ?_⟩
    -- a name that came up before would have two places
    have hij : j = i := m.nodup_names.getElem_inj_iff.1 (hother.trans hname.symm)
    omega

end NameIndex

namespace Register

variable {α : Type}

/-- A register has the numbers and the values of what was accepted. -/
structure Keeps (r : Register α) (accepted : List (String × α)) : Prop where
  id?_eq_some_iff : ∀ name i, r.id? name = some i ↔ (accepted.map Prod.fst)[i]? = some name
  values : r.values = accepted.map Prod.snd

section Step

variable {r : Register α} {accepted : List (String × α)} {name : String}

theorem keeps_empty : (∅ : Register α).Keeps [] := ⟨fun _ _ => ⟨nofun, nofun⟩, rfl⟩

theorem Keeps.length (h : r.Keeps accepted) : r.values.length = accepted.length := by
  rw [h.values, List.length_map]

theorem Keeps.isSome_id?_iff (h : r.Keeps accepted) : (r.id? name).isSome ↔ name ∈ accepted.map Prod.fst := by
  rw [Option.isSome_iff_exists, List.mem_iff_getElem?]
  exact exists_congr (h.id?_eq_some_iff name)

theorem Keeps.insert_of_mem (h : r.Keeps accepted) (hname : name ∈ accepted.map Prod.fst) (value : α) :
    r.insert name value = (.error name, r) := if_pos (h.isSome_id?_iff.2 hname)

theorem Keeps.insert_of_not_mem (h : r.Keeps accepted) (hname : name ∉ accepted.map Prod.fst) (value : α) :
    (r.insert name value).1 = .ok accepted.length ∧
      (r.insert name value).2.Keeps (accepted ++ [(name, value)]) := by
  have hfree : ¬(r.numbers.get? name).isSome := mt h.isSome_id?_iff.1 hname
  unfold insert
  rw [if_neg hfree]
  refine ⟨congrArg Except.ok h.length, fun other i => ?_, ?_⟩
  · have hnumber : ((r.numbers.insert name r.values.length).get? other) =
        if name = other then some r.values.length else r.id? other := InsertionMap.get?_insert ..
    unfold id?
    rw [List.map_append, List.map_singleton, getElem?_concat_eq_some_iff, hnumber, List.length_map]
    split
    · next heq =>
      -- the newcomer, which has no place among the names before it
      subst heq
      have hnone : (accepted.map Prod.fst)[i]? ≠ some name := fun hi => hname (List.mem_of_getElem? hi)
      simp only [hnone, h.length, false_or, and_true, Option.some_inj]
      exact eq_comm
    · next hne =>
      simp [hne, h.id?_eq_some_iff]
  · simp [h.values]

/-- The reply to the offer that comes last is that of the register before it. -/
theorem insertAll_concat (r : Register α) (offers : List (String × α)) (e : String × α) :
    r.insertAll (offers ++ [e]) = ((r.insertAll offers).1 ++ [((r.insertAll offers).2.insert e.1 e.2).1],
      ((r.insertAll offers).2.insert e.1 e.2).2) := by
  induction offers generalizing r with
  | nil => rfl
  | cons d rest ih =>
    rw [List.cons_append, insertAll, ih]
    rfl

end Step

theorem keeps_insertAll (offers : List (String × α)) :
    ((∅ : Register α).insertAll offers).2.Keeps (firstOffers offers) := by
  induction offers using List.reverseRecOn with
  | nil => exact keeps_empty
  | append_singleton offers e ih =>
    rw [insertAll_concat, firstOffers_concat]
    by_cases he : e.1 ∈ offers.map Prod.fst
    · rw [if_pos he, ih.insert_of_mem (mem_names_firstOffers.2 he)]
      exact ih
    · rw [if_neg he]
      exact (ih.insert_of_not_mem (mt mem_names_firstOffers.1 he) e.2).2

/-- The numbers given out are those from `0` on, one after the other. -/
theorem numbers_insertAll (offers : List (String × α)) :
    ((∅ : Register α).insertAll offers).1.filterMap Except.toOption = List.range (firstOffers offers).length := by
  induction offers using List.reverseRecOn with
  | nil => rfl
  | append_singleton offers e ih =>
    have hkeeps := keeps_insertAll offers
    rw [insertAll_concat, List.filterMap_append, ih, firstOffers_concat]
    by_cases he : e.1 ∈ offers.map Prod.fst
    · rw [if_pos he, hkeeps.insert_of_mem (mem_names_firstOffers.2 he)]
      exact List.append_nil _
    · rw [if_neg he, (hkeeps.insert_of_not_mem (mt mem_names_firstOffers.1 he) e.2).1, List.length_append,
        List.length_singleton, List.range_succ]
      rfl

section Answers

variable {r : Register α} {accepted : List (String × α)}

theorem get_of_value? {id : Nat} {value : α} (h : r.value? id = some value) : r.get id = .ok value := by
  unfold value? at h
  unfold get
  rw [h]

theorem get_error_iff (r : Register α) (id : Nat) : (∃ a, r.get id = .error a) ↔ r.value? id = none := by
  unfold get value?
  cases r.values[id]? <;> simp

theorem find?_of_none {name : String} (h : r.id? name = none) : r.find? name = .ok none := by
  unfold id? at h
  unfold find?
  rw [h]

theorem named_of_none {name : String} (h : r.id? name = none) : r.named name = .error (.name name) := by
  unfold id? at h
  unfold named
  rw [h]

/-- Where the number of a name has a value, both ways to the value go through. -/
theorem find?_of_some {name : String} {id : Nat} {value : α} (h : r.id? name = some id)
    (hvalue : r.value? id = some value) : r.find? name = .ok (some value) ∧ r.named name = .ok value := by
  unfold id? at h
  unfold find? named
  rw [h]
  dsimp only
  rw [get_of_value? hvalue]
  exact ⟨rfl, rfl⟩

theorem Keeps.value? (h : r.Keeps accepted) (i : Nat) : r.value? i = accepted[i]?.map Prod.snd := by
  unfold Register.value?
  rw [h.values, List.getElem?_map]

theorem Keeps.id?_of_getElem? (h : r.Keeps accepted) {i : Nat} {e : String × α} (he : accepted[i]? = some e) :
    r.id? e.1 = some i ∧ r.value? i = some e.2 := by
  rw [h.id?_eq_some_iff, h.value?, List.getElem?_map, he]
  exact ⟨rfl, rfl⟩

/-- A name is there with its number and its value, or it is not there at all. -/
theorem Keeps.cases (h : r.Keeps accepted) (name : String) :
    r.id? name = none ∨ ∃ i e, accepted[i]? = some e ∧ e.1 = name ∧ r.id? name = some i := by
  cases hid : r.id? name with
  | none => exact .inl rfl
  | some i =>
    have hi := (h.id?_eq_some_iff name i).1 hid
    rw [List.getElem?_map, Option.map_eq_some_iff] at hi
    obtain ⟨e, he, rfl⟩ := hi
    exact .inr ⟨i, e, he, rfl, rfl⟩

end Answers

/-- What a register answers that has accepted some named values and no others. -/
structure Answers (r : Register α) (accepted : List (String × α)) : Prop where
  /-- The number of a name is its place among those accepted. -/
  number : ∀ name i, r.id? name = some i ↔ (accepted.map Prod.fst)[i]? = some name
  lookups : ∀ i e, accepted[i]? = some e →
    r.find? e.1 = .ok (some e.2) ∧ r.value? i = some e.2 ∧ r.named e.1 = .ok e.2 ∧ r.get i = .ok e.2
  found : ∀ name, ∃ v, r.find? name = .ok v
  named_astray : ∀ name, (∃ a, r.named name = .error a) ↔ r.find? name = .ok none
  get_astray : ∀ i, (∃ a, r.get i = .error a) ↔ r.value? i = none
  ids : r.ids = List.range accepted.length
  values : r.values = accepted.map Prod.snd
  size : r.size = accepted.length

theorem Keeps.answers {r : Register α} {accepted : List (String × α)} (h : r.Keeps accepted) :
    r.Answers accepted := by
  have hlookups : ∀ i e, accepted[i]? = some e → r.find? e.1 = .ok (some e.2) ∧ r.value? i = some e.2 ∧
      r.named e.1 = .ok e.2 ∧ r.get i = .ok e.2 := by
    intro i e he
    obtain ⟨hid, hvalue⟩ := h.id?_of_getElem? he
    obtain ⟨hfind, hnamed⟩ := find?_of_some hid hvalue
    exact ⟨hfind, hvalue, hnamed, get_of_value? hvalue⟩
  constructor
  case number => exact h.id?_eq_some_iff
  case lookups => exact hlookups
  case found =>
    intro name
    rcases h.cases name with hnone | ⟨i, e, he, rfl, -⟩
    · exact ⟨none, find?_of_none hnone⟩
    · exact ⟨some e.2, (hlookups i e he).1⟩
  case named_astray =>
    intro name
    rcases h.cases name with hnone | ⟨i, e, he, rfl, -⟩
    · exact iff_of_true ⟨_, named_of_none hnone⟩ (find?_of_none hnone)
    · obtain ⟨hfind, -, hnamed, -⟩ := hlookups i e he
      rw [hfind, hnamed]
      exact iff_of_false nofun nofun
  case get_astray => exact r.get_error_iff
  case ids =>
    unfold ids
    rw [h.length]
  case values => exact h.values
  case size => exact h.length

section Index

variable {r : Register α} {m : NameIndex α}

theorem Keeps.index_id? (h : r.Keeps m.entries) (name : String) : r.id? name = m.id? name :=
  Option.ext fun i => (h.id?_eq_some_iff name i).trans m.id?_eq_some_iff.symm

theorem Keeps.index_value? (h : r.Keeps m.entries) (i : Nat) : r.value? i = m.value? i :=
  congrArg (·[i]?) h.values

theorem Keeps.index_find? (h : r.Keeps m.entries) (name : String) : r.find? name = .ok (m.find? name) := by
  unfold NameIndex.find?
  rw [← h.index_id?]
  rcases h.cases name with hnone | ⟨i, e, he, rfl, hid⟩
  · rw [find?_of_none hnone, hnone]
    rfl
  · have hvalue := (h.id?_of_getElem? he).2
    rw [(find?_of_some hid hvalue).1, hid, Option.bind_some, ← h.index_value?, hvalue]

/-- A register and an index that keep the same go on to keep the same, with the same replies. -/
theorem keeps_index_insertAll (h : r.Keeps m.entries) (offers : List (String × α)) :
    (r.insertAll offers).1 = (m.insertAll offers).1 ∧
      (r.insertAll offers).2.Keeps (m.insertAll offers).2.entries := by
  induction offers generalizing r m with
  | nil => exact ⟨rfl, h⟩
  | cons e rest ih =>
    unfold insertAll NameIndex.insertAll
    cases hinsert : m.insert e.1 e.2 with
    | error taken =>
      obtain ⟨rfl, hmem⟩ := (m.insert_eq_error_iff _ _ _).1 hinsert
      rw [h.insert_of_mem hmem]
      exact ⟨congrArg _ (ih h).1, (ih h).2⟩
    | ok next =>
      obtain ⟨id, n⟩ := next
      obtain ⟨hfree, rfl, hentries⟩ := NameIndex.of_insert_eq_ok hinsert
      obtain ⟨hreply, hkeeps⟩ := h.insert_of_not_mem hfree e.2
      rw [← hentries] at hkeeps
      dsimp only
      rw [hreply]
      exact ⟨congrArg _ (ih hkeeps).1, (ih hkeeps).2⟩

end Index

/-- A name that is there is turned down, and any other gets the next number. -/
theorem insert_insertAll (offers : List (String × α)) (name : String) (value : α) :
    let r := ((∅ : Register α).insertAll offers).2
    r.insert name value = if (r.id? name).isSome then (.error name, r)
      else (.ok r.size, ((∅ : Register α).insertAll (offers ++ [(name, value)])).2) := by
  intro r
  have hkeeps : r.Keeps (firstOffers offers) := keeps_insertAll offers
  split
  · next hname => exact hkeeps.insert_of_mem (hkeeps.isSome_id?_iff.1 hname) value
  · next hname =>
    obtain ⟨hreply, -⟩ := hkeeps.insert_of_not_mem (mt hkeeps.isSome_id?_iff.2 hname) value
    rw [insertAll_concat]
    exact Prod.ext (hreply.trans (congrArg Except.ok hkeeps.length.symm)) rfl

/-- A number stays with its name and its value, whatever is offered later. -/
theorem id?_insertAll_append (offers more : List (String × α)) {name : String} {i : Nat}
    (h : ((∅ : Register α).insertAll offers).2.id? name = some i) :
    ((∅ : Register α).insertAll (offers ++ more)).2.id? name = some i ∧
      ((∅ : Register α).insertAll (offers ++ more)).2.value? i = ((∅ : Register α).insertAll offers).2.value? i := by
  have hkeeps := keeps_insertAll offers
  have hmore := keeps_insertAll (offers ++ more)
  obtain ⟨e, he, rfl⟩ : ∃ e, (firstOffers offers)[i]? = some e ∧ e.1 = name := by
    have hi := (hkeeps.id?_eq_some_iff name i).1 h
    rwa [List.getElem?_map, Option.map_eq_some_iff] at hi
  have hstays : (firstOffers (offers ++ more))[i]? = some e := by
    obtain ⟨hlt, rfl⟩ := List.getElem?_eq_some_iff.1 he
    exact List.prefix_iff_getElem?.1 (firstOffers_stay offers more) i hlt
  obtain ⟨hid, hvalue⟩ := hmore.id?_of_getElem? hstays
  exact ⟨hid, hvalue.trans (hkeeps.id?_of_getElem? he).2.symm⟩

/-- Whatever is offered to a register, it accepts each name once, and numbers the names in
the order in which it accepts them. A name that is there is handed back and changes
nothing; numbers and values stay as they are, whatever is offered later. The index that
tables use replies and answers in the same way. -/
theorem insertAll_in_step (offers : List (String × α)) :
    let r : Register α := ((∅ : Register α).insertAll offers).2
    let m : NameIndex α := ((∅ : NameIndex α).insertAll offers).2
    r.Answers (firstOffers offers) ∧
      ((∅ : Register α).insertAll offers).1.filterMap Except.toOption = List.range (firstOffers offers).length ∧
      (∀ name value, r.insert name value =
        if (r.id? name).isSome then (.error name, r)
        else (.ok r.size, ((∅ : Register α).insertAll (offers ++ [(name, value)])).2)) ∧
      (∀ more name i, r.id? name = some i →
        ((∅ : Register α).insertAll (offers ++ more)).2.id? name = some i ∧
          ((∅ : Register α).insertAll (offers ++ more)).2.value? i = r.value? i) ∧
      ((∅ : Register α).insertAll offers).1 = ((∅ : NameIndex α).insertAll offers).1 ∧
      r.values = m.values ∧
      (∀ name, r.id? name = m.id? name ∧ r.find? name = .ok (m.find? name)) ∧
      ∀ i, r.value? i = m.value? i := by
  intro r m
  have hkeeps : r.Keeps (firstOffers offers) := keeps_insertAll offers
  obtain ⟨hreplies, hindex⟩ := keeps_index_insertAll (m := (∅ : NameIndex α)) keeps_empty offers
  refine ⟨hkeeps.answers, numbers_insertAll offers, insert_insertAll offers, ?_, hreplies, hindex.values, ?_,
    hindex.index_value?⟩
  · intro more name i hid
    exact id?_insertAll_append offers more hid
  · intro name
    exact ⟨hindex.index_id? name, hindex.index_find? name⟩

theorem insertAll_in_step_repeatedName :
    let offers := [("b", 1), ("a", 2), ("b", 3)]
    ((∅ : Register Nat).insertAll offers).2.named "a" = .ok 2 ∧
      ((∅ : Register Nat).insertAll offers).2.insert "b" 4 = (.error "b", ((∅ : Register Nat).insertAll offers).2) ∧
      ((∅ : Register Nat).insertAll (offers ++ [("c", 5), ("a", 6)])).2.id? "a" = some 1 ∧
      ∃ a, ((∅ : Register Nat).insertAll offers).2.named "c" = .error a := by
  intro offers
  obtain ⟨hanswers, -, hinsert, hstays, -⟩ := insertAll_in_step offers
  refine ⟨(hanswers.lookups 1 ("a", 2) rfl).2.2.1, hinsert "b" 4, (hstays [("c", 5), ("a", 6)] "a" 1 rfl).1, ?_⟩
  exact (hanswers.named_astray "c").2 rfl

end Register

end Ebnf

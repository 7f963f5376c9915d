import Ebnf.Document.Json.Value
import Mathlib.Data.List.Nodup
import Mathlib.Logic.Relation
/-! What may change in the value of a document without changing what is meant: the
order of the members of an object, and whether a field that has its default is
there. However many such changes are made, one after the other and at any depth,
each object has then some of the members it had at first, and misses none but
defaults. -/

namespace Ebnf.Json

/-- What a value stands for in a document. -/
inductive Role
  | scalar
  | list (of : Role)
  | expr
  | repetition
  | production
  | vocabulary
  | grammar
  deriving DecidableEq

namespace Role

/-- The fields of a record, none for what is not a record. -/
def fields : Role → List String
  | repetition => ["min", "max", "expr"]
  | production => ["name", "description", "body"]
  | vocabulary => ["language", "productions"]
  | grammar => ["language", "case_sensitive", "vocabularies", "productions"]
  | _ => []

/-- What the value beside a name stands for. -/
def member : Role → String → Role
  | expr, "Sequence" | expr, "Alternatives" => list expr
  | expr, "Optional" | repetition, "expr" | production, "body" => expr
  | expr, "Repetition" => repetition
  | vocabulary, "productions" | grammar, "productions" => list production
  | grammar, "vocabularies" => list scalar
  | _, _ => scalar

/-- The value of a field that is left out. -/
def default? : Role → String → Option Json
  | repetition, "max" | production, "description" => some .null
  | grammar, "case_sensitive" => some (.boolean true)
  | grammar, "vocabularies" => some (.list [])
  | _, _ => none

/-- One change of a value, at any depth: members in another order, or one that has
its default left out. -/
inductive Respells : Role → Json → Json → Prop
  | reorder {role : Role} {ms ns : List (String × Json)} : ms.Perm ns →
      Respells role (.object ms) (.object ns)
  | leaveOut {role : Role} {name : String} {v : Json} (before after : List (String × Json)) :
      role.default? name = some v →
      Respells role (.object (before ++ (name, v) :: after)) (.object (before ++ after))
  | inMember {role : Role} {name : String} {v w : Json} (before after : List (String × Json)) :
      Respells (role.member name) v w →
      Respells role (.object (before ++ (name, v) :: after)) (.object (before ++ (name, w) :: after))
  | inItem {role : Role} {v w : Json} (before after : List Json) : Respells role v w →
      Respells (.list role) (.list (before ++ v :: after)) (.list (before ++ w :: after))

/-- A value with one member more in one of its records, at any depth: one that is
no field of the record, or that is there already. -/
inductive Overfills : Role → Json → Json → Prop
  | here {role : Role} {name : String} (v : Json) (before after : List (String × Json)) :
      role.fields ≠ [] → (name ∉ role.fields ∨ name ∈ (before ++ after).map Prod.fst) →
      Overfills role (.object (before ++ after)) (.object (before ++ (name, v) :: after))
  | inMember {role : Role} {name : String} {v w : Json} (before after : List (String × Json)) :
      Overfills (role.member name) v w →
      Overfills role (.object (before ++ (name, v) :: after)) (.object (before ++ (name, w) :: after))
  | inItem {role : Role} {v w : Json} (before after : List Json) : Overfills role v w →
      Overfills (.list role) (.list (before ++ v :: after)) (.list (before ++ w :: after))

/-- What any number of changes may lead to. Each member that is left comes from one
of the same name, and where none is left there was a default. -/
inductive Varies : Role → Json → Json → Prop
  | leaf {role : Role} {v : Json} : v.depth = 0 → Varies role v v
  | list {role : Role} {vs ws : List Json} : vs.length = ws.length →
      (∀ i (hv : i < vs.length) (hw : i < ws.length), Varies role vs[i] ws[i]) →
      Varies (.list role) (.list vs) (.list ws)
  | object {role : Role} {ms os : List (String × Json)} (source : String → Json) :
      (ms.map Prod.fst).Nodup → (os.map Prod.fst).Nodup →
      (∀ o ∈ os, (o.1, source o.1) ∈ ms) →
      (∀ o ∈ os, Varies (role.member o.1) (source o.1) o.2) →
      (∀ m ∈ ms, m.1 ∈ os.map Prod.fst ∨ role.default? m.1 = some m.2) →
      Varies role (.object ms) (.object os)

variable {role : Role}

theorem default_cases {name : String} {v : Json} (h : role.default? name = some v) :
    v.depth = 0 ∨ v = .list [] := by
  unfold default? at h
  split at h <;> cases h <;> simp [depth]

/-- A default does not come from anything but itself. -/
theorem Varies.eq_default {name : String} {v w : Json} {role' : Role} (h : Varies role' v w)
    (hw : role.default? name = some w) : v = w := by
  cases h with
  | leaf => rfl
  | list hlen =>
    rcases default_cases hw with h | h
    · simp [depth] at h
    · cases h
      rw [List.length_nil, List.length_eq_zero_iff] at hlen
      rw [hlen]
  | object =>
    rcases default_cases hw with h | h
    · simp [depth] at h
    · cases h

theorem Varies.eq_of_depth {v w : Json} (h : Varies role v w) (hv : v.depth = 0) : w = v := by
  cases h with
  | leaf => rfl
  | list => simp [depth] at hv
  | object => simp [depth] at hv

theorem Varies.exists_items {vs : List Json} {w : Json} (h : Varies (.list role) (.list vs) w) :
    ∃ ws, w = .list ws ∧ List.Forall₂ (Varies role) vs ws := by
  cases h with
  | leaf hdepth => simp [depth] at hdepth
  | list hlen hall => exact ⟨_, rfl, List.forall₂_iff_get.2 ⟨hlen, hall⟩⟩

/-- The members that are left of an object. -/
structure Leaves (role : Role) (ms os : List (String × Json)) : Prop where
  nodup : (os.map Prod.fst).Nodup
  exists_source : ∀ o ∈ os, ∃ v, (o.1, v) ∈ ms ∧ Varies (role.member o.1) v o.2
  mem_or : ∀ m ∈ ms, m.1 ∈ os.map Prod.fst ∨ role.default? m.1 = some m.2

theorem Varies.exists_members {ms : List (String × Json)} {w : Json} (h : Varies role (.object ms) w) :
    ∃ os, w = .object os ∧ Leaves role ms os := by
  cases h with
  | leaf hdepth => simp [depth] at hdepth
  | object source _ hos hmem hvar hleft =>
    exact ⟨_, rfl, hos, fun o ho => ⟨source o.1, hmem o ho, hvar o ho⟩, hleft⟩

/-- A field that was written is read, or has its default. -/
theorem Leaves.mem_seen_or {ms os : List (String × Json)} (h : Leaves role ms os) {name : String} {v : Json}
    (hm : (name, v) ∈ ms) {seen : List String} (hseen : ∀ o ∈ os, o.1 ∈ seen) :
    name ∈ seen ∨ role.default? name = some v := by
  refine (h.mem_or (name, v) hm).imp_left fun hname => ?_
  obtain ⟨o, ho, rfl⟩ := List.mem_map.1 hname
  exact hseen o ho

/-- The only member of an object stays alone. -/
theorem Varies.exists_member {name : String} {v w : Json} (h : Varies role (.object [(name, v)]) w)
    (hdefault : role.default? name = none) : ∃ u, w = .object [(name, u)] ∧ Varies (role.member name) v u := by
  obtain ⟨os, rfl, hos⟩ := h.exists_members
  have hsource : ∀ o ∈ os, o.1 = name ∧ Varies (role.member name) v o.2 := by
    intro o ho
    obtain ⟨v', hv', hvar⟩ := hos.exists_source o ho
    obtain ⟨hname, rfl⟩ := Prod.mk.inj (List.mem_singleton.1 hv')
    exact ⟨hname, hname ▸ hvar⟩
  match os with
  | [] =>
    have hleft := hos.mem_or (name, v) (by simp)
    simp [hdefault] at hleft
  | [o] =>
    obtain ⟨hname, hvar⟩ := hsource o (by simp)
    exact ⟨o.2, by rw [← hname], hvar⟩
  | o :: o' :: rest =>
    have hnodup := hos.nodup
    have ho := (hsource o (by simp)).1
    have ho' := (hsource o' (by simp)).1
    simp [ho, ho'] at hnodup

/-- A list varies from itself if everything in it does. -/
theorem Varies.list_refl {vs : List Json} (h : ∀ v ∈ vs, Varies role v v) :
    Varies (.list role) (.list vs) (.list vs) :=
  .list rfl fun i hv _ => h vs[i] (List.getElem_mem hv)

/-- An object varies from itself if the values of its members do, and their names are distinct. -/
theorem Varies.object_refl {ms : List (String × Json)} (hnodup : (ms.map Prod.fst).Nodup)
    (h : ∀ m ∈ ms, Varies (role.member m.1) m.2 m.2) : Varies role (.object ms) (.object ms) := by
  have hget : ∀ m ∈ ms, ((ms.find? (·.1 == m.1)).map Prod.snd).getD .null = m.2 := by
    intro m hm
    cases hfind : ms.find? (·.1 == m.1) with
    | none =>
      have hne := List.find?_eq_none.1 hfind m hm
      simp at hne
    | some m' =>
      have hname : m'.1 = m.1 := by simpa using List.find?_some hfind
      rw [List.inj_on_of_nodup_map hnodup (List.mem_of_find?_eq_some hfind) hm hname]
      rfl
  refine .object (fun name => ((ms.find? (·.1 == name)).map Prod.snd).getD .null) hnodup hnodup ?_ ?_ ?_
  · intro m hm
    rw [hget m hm]
    exact hm
  · intro m hm
    rw [hget m hm]
    exact h m hm
  · intro m hm
    exact .inl (List.mem_map_of_mem hm)

/-- One more change still varies from the value there was at first. -/
theorem Varies.respell {v u w : Json} (h : Varies role v u) (hstep : Respells role u w) : Varies role v w := by
  induction hstep generalizing v with
  | reorder hperm =>
    cases h with
    | leaf hdepth => simp [depth] at hdepth
    | object source hms hos hmem hvar hleft =>
      refine .object source hms ((hperm.map Prod.fst).nodup_iff.1 hos) (fun o ho => ?_) (fun o ho => ?_) (fun m hm => ?_)
      · exact hmem o (hperm.mem_iff.2 ho)
      · exact hvar o (hperm.mem_iff.2 ho)
      · exact (hleft m hm).imp_left (hperm.map Prod.fst).mem_iff.1
  | @leaveOut role name d before after hdefault =>
    cases h with
    | leaf hdepth => simp [depth] at hdepth
    | object source hms hos hmem hvar hleft =>
      have hsub : (before ++ after).Sublist (before ++ (name, d) :: after) :=
        (List.sublist_cons_self _ _).append_left before
      refine .object source hms (hos.sublist (hsub.map Prod.fst)) (fun o ho => ?_) (fun o ho => ?_) (fun m hm => ?_)
      · exact hmem o (hsub.subset ho)
      · exact hvar o (hsub.subset ho)
      · -- what was left out now, if anything, has its default and comes from that
        rcases hleft m hm with hname | hname
        · by_cases hm' : m.1 = name
          · right
            have ho : (name, d) ∈ before ++ (name, d) :: after := by simp
            have hsource := hmem _ ho
            have hd := (hvar _ ho).eq_default hdefault
            rw [List.inj_on_of_nodup_map hms hm hsource hm', hd]
            exact hdefault
          · left
            simp only [List.map_append, List.map_cons, List.mem_append, List.mem_cons] at hname ⊢
            tauto
        · exact .inr hname
  | @inMember role name u w before after _ ih =>
    cases h with
    | leaf hdepth => simp [depth] at hdepth
    | object source hms hos hmem hvar hleft =>
      have hnames : (before ++ (name, w) :: after).map Prod.fst = (before ++ (name, u) :: after).map Prod.fst := by
        simp
      have hold : ∀ o ∈ before ++ (name, w) :: after, o = (name, w) ∨ o ∈ before ++ (name, u) :: after := by
        intro o ho
        simp only [List.mem_append, List.mem_cons] at ho ⊢
        tauto
      have hu : (name, u) ∈ before ++ (name, u) :: after := by simp
      refine .object source hms (hnames ▸ hos) (fun o ho => ?_) (fun o ho => ?_) (fun m hm => ?_)
      · rcases hold o ho with rfl | ho
        · exact hmem (name, u) hu
        · exact hmem o ho
      · rcases hold o ho with rfl | ho
        · exact ih (hvar (name, u) hu)
        · exact hvar o ho
      · rw [hnames]
        exact hleft m hm
  | @inItem role u w before after _ ih =>
    cases h with
    | leaf hdepth => simp [depth] at hdepth
    | @list _ vs _ hlen hall =>
      have hset : before ++ w :: after = (before ++ u :: after).set before.length w := by simp
      rw [hset]
      refine .list (by simpa using hlen) fun i hv hw => ?_
      rw [List.length_set] at hw
      rw [List.getElem_set]
      split
      · next hi =>
        subst hi
        have hu : (before ++ u :: after)[before.length] = u := by simp
        exact ih (hu ▸ hall _ hv hw)
      · exact hall i hv hw

/-- After any number of changes. -/
theorem Varies.of_respells {v w : Json} (hv : Varies role v v)
    (h : Relation.ReflTransGen (Respells role) v w) : Varies role v w := by
  induction h with
  | refl => exact hv
  | tail _ hstep ih => exact ih.respell hstep

end Role

end Ebnf.Json

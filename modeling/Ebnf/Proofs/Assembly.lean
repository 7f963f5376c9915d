import Ebnf.Proofs.Naming
/-! Putting tables together. A production is added at the end under the tag it
has, or under that of the table, and refused if its name is taken; productions
of distinct new names are all added, in their order. -/

namespace Ebnf

namespace Table

variable {t u : Table} {p : Production}

/-- `u` is `t` with `ps` at the end. -/
structure Extends (t u : Table) (ps : List Production) : Prop where
  language : u.language = t.language
  caseSensitive : u.caseSensitive = t.caseSensitive
  toList : u.toList = t.toList ++ ps.map (·.tagged t.language)

theorem Extends.refl (t : Table) : t.Extends t [] := ⟨rfl, rfl, by simp⟩

theorem Extends.trans {v : Table} {ps qs : List Production} (h : t.Extends u ps) (h' : u.Extends v qs) :
    t.Extends v (ps ++ qs) where
  language := h'.language.trans h.language
  caseSensitive := h'.caseSensitive.trans h.caseSensitive
  toList := by rw [h'.toList, h.toList, h.language, List.map_append, List.append_assoc]

theorem Extends.names {ps : List Production} (h : t.Extends u ps) :
    u.names = t.names ++ ps.map Production.name := by
  rw [Table.names, h.toList, List.map_append, List.map_map]
  rfl

/-- What putting in a production can come to. -/
theorem insert_cases (t : Table) (p : Production) :
    (p.name ∈ t.names ∧ t.insert p = .error p.name) ∨
      (p.name ∉ t.names ∧ ∃ u, t.insert p = .ok u ∧ t.Extends u [p]) := by
  unfold insert
  split
  · next name h =>
    obtain ⟨rfl, hn⟩ := (NameIndex.insert_eq_error_iff _ _ _ _).1 h
    exact Or.inl ⟨t.names_eq ▸ hn, rfl⟩
  · next id ps h =>
    obtain ⟨hn, -, he⟩ := NameIndex.of_insert_eq_ok h
    refine Or.inr ⟨t.names_eq ▸ hn, _, rfl, rfl, rfl, ?_⟩
    simp [toList, NameIndex.values, he]

end Table

namespace Assembly

theorem run_add (p : Production) (t : Table) :
    (add p).run.run t = match t.insert p with
      | .ok u => ⟨(.ok (), u), []⟩
      | .error name => ⟨(.error (.duplicateDefinition name), t),
        [⟨.error, "Duplicate definition of '" ++ name ++ "' production"⟩]⟩ := by
  have hget : StateT.run (ExceptT.run (get : Assembly Table)) t = ⟨(.ok t, t), []⟩ := rfl
  rw [add, ExceptT.run_bind, StateT.run_bind, hget]
  dsimp only [bind]
  cases t.insert p <;> rfl

theorem addAll_cons (p : Production) (ps : List Production) :
    addAll (p :: ps) = add p >>= fun _ => addAll ps := List.forM_cons ..

theorem run_addAll (ps : List Production) (t : Table) (h : (t.names ++ ps.map Production.name).Nodup) :
    ∃ u, (addAll ps).run.run t = ⟨(.ok (), u), []⟩ ∧ t.Extends u ps := by
  induction ps generalizing t with
  | nil => exact ⟨t, rfl, .refl t⟩
  | cons p ps ih =>
    have hp : p.name ∉ t.names := fun hp =>
      List.disjoint_of_nodup_append h hp (List.mem_cons_self ..)
    rcases t.insert_cases p with ⟨hn, -⟩ | ⟨-, u, hu, hext⟩
    · exact absurd hn hp
    obtain ⟨v, hv, hext'⟩ := ih u (by rw [hext.names, List.append_assoc]; exact h)
    refine ⟨v, ?_, hext.trans hext'⟩
    rw [addAll_cons, ExceptT.run_bind, StateT.run_bind, run_add, hu]
    exact hv

/-- Work followed by other work, which is left undone after an error. -/
theorem on_bind (w w' : Assembly Unit) (t : Table) :
    (w >>= fun _ => w').on t = w.on t >>= fun r =>
      match r with
      | (u, none) => w'.on u
      | (u, some e) => pure (u, some e) := by
  rw [on, on, ExceptT.run_bind, StateT.run_bind]
  rcases w.run.run t with ⟨⟨_ | _, u⟩, es⟩
  · rfl
  · simp [on, bind, pure]

theorem on_add_of_mem {t : Table} {p : Production} (h : p.name ∈ t.names) :
    (add p).on t = ⟨(t, some (.duplicateDefinition p.name)),
      [⟨.error, "Duplicate definition of '" ++ p.name ++ "' production"⟩]⟩ := by
  rcases t.insert_cases p with ⟨-, hp⟩ | ⟨hn, -⟩
  · rw [on, run_add, hp]
    rfl
  · exact absurd h hn

theorem on_add_of_not_mem {t : Table} {p : Production} (h : p.name ∉ t.names) :
    ∃ u, (add p).on t = ⟨(u, none), []⟩ ∧ t.Extends u [p] := by
  rcases t.insert_cases p with ⟨hn, -⟩ | ⟨-, u, hu, hext⟩
  · exact absurd hn h
  · refine ⟨u, ?_, hext⟩
    rw [on, run_add, hu]
    rfl

theorem on_merge_of_error {v : Vocabulary} {e : GrammarError} (h : v.productions = .error e) (t : Table) :
    (merge v).on t = ⟨(t, some e), []⟩ := by
  rw [merge, h]
  rfl

theorem on_merge_of_ok {v : Vocabulary} {ps : List Production} (h : v.productions = .ok ps) (t : Table) :
    (merge v).on t = ⟨((addAll ps).on t).value,
      ⟨.info, "Merging " ++ toString ps.length ++ " productions from vocabulary '" ++ v.name
        ++ "' into '" ++ t.language ++ "'"⟩ :: ((addAll ps).on t).entries⟩ := by
  rw [merge, h]
  rfl

end Assembly

end Ebnf

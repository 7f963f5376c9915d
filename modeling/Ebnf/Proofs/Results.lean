/-! Work with a result or an error: what is known of its steps when all of it went
through, and which step it was when it did not. -/

namespace Ebnf

variable {α β ε : Type}

theorem bind_eq_ok_iff {x : Except ε α} {k : α → Except ε β} {b : β} :
    x >>= k = .ok b ↔ ∃ a, x = .ok a ∧ k a = .ok b := by
  cases x <;> simp [bind, Except.bind]

theorem bind_eq_error_iff {x : Except ε α} {k : α → Except ε β} {e : ε} :
    x >>= k = .error e ↔ x = .error e ∨ ∃ a, x = .ok a ∧ k a = .error e := by
  cases x <;> simp [bind, Except.bind]

variable {f g : β → α → Except ε β}

/-- Two loops agree if their steps do wherever the loop can get to. -/
theorem foldlM_congr_of_inv {I : β → Prop} (hstep : ∀ b a, I b → f b a = g b a)
    (hinv : ∀ b a c, I b → g b a = .ok c → I c) (as : List α) {b : β} (hb : I b) :
    as.foldlM f b = as.foldlM g b := by
  induction as generalizing b with
  | nil => rfl
  | cons a as ih =>
    rw [List.foldlM_cons, List.foldlM_cons, hstep b a hb]
    cases hc : g b a with
    | error e => rfl
    | ok c => exact ih (hinv b a c hb hc)

/-- A loop fails at the first step that fails. -/
theorem exists_of_foldlM_eq_error {as : List α} {b : β} {e : ε} (h : as.foldlM f b = .error e) :
    ∃ before a after c, as = before ++ a :: after ∧ before.foldlM f b = .ok c ∧ f c a = .error e := by
  induction as generalizing b with
  | nil => cases h
  | cons a as ih =>
    rw [List.foldlM_cons] at h
    rcases bind_eq_error_iff.1 h with ha | ⟨c, hc, h⟩
    · exact ⟨[], a, as, b, rfl, rfl, ha⟩
    · obtain ⟨before, x, after, d, rfl, hd, he⟩ := ih h
      refine ⟨a :: before, x, after, d, rfl, ?_, he⟩
      rw [List.foldlM_cons]
      exact bind_eq_ok_iff.2 ⟨c, hc, hd⟩

end Ebnf

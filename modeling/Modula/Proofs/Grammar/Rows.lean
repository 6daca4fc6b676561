import Modula.Grammar

/-! # Rows of forms

What is still to come in a text is a row of forms, one behind the other. `Meets fs w` says that the
kinds `w` meet the forms `fs` in turn; each kind of form in front of a row is taken apart by one
equivalence, so a row is read from the left without ever cutting `w`.

The end of the text stands behind every sentence and nowhere else in it (`Sentence.append_eof`), so
a viable row that reaches the end is a sentence already (`viable_append_eof`). -/

namespace Modula.Grammar
set_option autoImplicit false

/-- `Meets fs w`: the row `w` of kinds splits into parts that have the forms `fs` in turn. -/
inductive Meets : List Form → List TokenKind → Prop where
  | nil : Meets [] []
  | cons {f : Form} {fs : List Form} {v w : List TokenKind} :
      Derives f v → Meets fs w → Meets (f :: fs) (v ++ w)

variable {a b f : Form} {fs gs : List Form} {k : TokenKind} {v w : List TokenKind}

/-! ## Rows as a whole -/

@[simp] theorem meets_nil : Meets [] w ↔ w = [] := by
  constructor
  · intro h
    cases h
    rfl
  · rintro rfl
    exact .nil

theorem meets_cons : Meets (f :: fs) w ↔ ∃ u v, w = u ++ v ∧ Derives f u ∧ Meets fs v := by
  constructor
  · intro h
    cases h with
    | cons hf hfs => exact ⟨_, _, rfl, hf, hfs⟩
  · intro hx
    obtain ⟨u, v, rfl, hf, hfs⟩ := hx
    exact .cons hf hfs

theorem meets_singleton : Meets [f] w ↔ Derives f w := by
  rw [meets_cons]
  constructor
  · intro hx
    obtain ⟨u, v, rfl, hf, hv⟩ := hx
    rw [meets_nil.mp hv, List.append_nil]
    exact hf
  · intro h
    exact ⟨w, [], (List.append_nil w).symm, h, .nil⟩

theorem meets_congr_tail (h : ∀ v, Meets fs v ↔ Meets gs v) :
    Meets (f :: fs) w ↔ Meets (f :: gs) w := by
  simp only [meets_cons, h]

/-! ## The form in front -/

@[simp] theorem not_meets_terminal_nil : ¬ Meets (.terminal k :: fs) [] := by
  rw [meets_cons]
  intro h
  obtain ⟨u, v, he, hd, _⟩ := h
  cases hd
  cases he

@[simp] theorem meets_terminal_cons {c : TokenKind} :
    Meets (.terminal c :: fs) (k :: w) ↔ k = c ∧ Meets fs w := by
  rw [meets_cons]
  constructor
  · intro h
    obtain ⟨u, v, he, hd, hv⟩ := h
    cases hd
    obtain ⟨rfl, rfl⟩ := List.cons.inj he
    exact ⟨rfl, hv⟩
  · intro h
    obtain ⟨rfl, hw⟩ := h
    exact ⟨[k], w, rfl, .terminal k, hw⟩

theorem meets_nonterminal {n : Nonterminal} :
    Meets (.nonterminal n :: fs) w ↔ Meets (rule n :: fs) w := by
  rw [meets_cons, meets_cons]
  constructor
  · intro h
    obtain ⟨u, v, he, hd, hv⟩ := h
    cases hd with
    | nonterminal hr => exact ⟨u, v, he, hr, hv⟩
  · intro h
    obtain ⟨u, v, he, hd, hv⟩ := h
    exact ⟨u, v, he, .nonterminal hd, hv⟩

@[simp] theorem meets_both : Meets (.both a b :: fs) w ↔ Meets (a :: b :: fs) w := by
  constructor
  · rw [meets_cons]
    intro hx
    obtain ⟨u, v, rfl, hd, hv⟩ := hx
    cases hd with
    | both ha hb =>
      rw [List.append_assoc]
      exact .cons ha (.cons hb hv)
  · intro h
    obtain ⟨u, r, rfl, ha, hr⟩ := meets_cons.mp h
    obtain ⟨v, r, rfl, hb, hr⟩ := meets_cons.mp hr
    rw [← List.append_assoc]
    exact .cons (.both ha hb) hr

@[simp] theorem meets_row : Meets (.row f gs :: fs) w ↔ Meets (f :: (gs ++ fs)) w := by
  induction gs generalizing f w with
  | nil => exact Iff.rfl
  | cons g gs ih =>
    rw [Form.row, meets_both]
    exact meets_congr_tail fun _ => ih

@[simp] theorem meets_either :
    Meets (.either a b :: fs) w ↔ Meets (a :: fs) w ∨ Meets (b :: fs) w := by
  constructor
  · rw [meets_cons]
    intro hx
    obtain ⟨u, v, rfl, hd, hv⟩ := hx
    cases hd with
    | left ha => exact Or.inl (.cons ha hv)
    | right hb => exact Or.inr (.cons hb hv)
  · rintro (h | h)
    · obtain ⟨u, v, rfl, ha, hv⟩ := meets_cons.mp h
      exact .cons (.left ha) hv
    · obtain ⟨u, v, rfl, hb, hv⟩ := meets_cons.mp h
      exact .cons (.right hb) hv

@[simp] theorem meets_optional :
    Meets (.optional a :: fs) w ↔ Meets fs w ∨ Meets (a :: fs) w := by
  constructor
  · rw [meets_cons]
    intro hx
    obtain ⟨u, v, rfl, hd, hv⟩ := hx
    cases hd with
    | absent => exact Or.inl hv
    | present ha => exact Or.inr (.cons ha hv)
  · rintro (h | h)
    · exact .cons .absent h
    · obtain ⟨u, v, rfl, ha, hv⟩ := meets_cons.mp h
      exact .cons (.present ha) hv

theorem meets_repeated :
    Meets (.repeated a :: fs) w ↔ Meets fs w ∨ Meets (a :: .repeated a :: fs) w := by
  constructor
  · rw [meets_cons]
    intro hx
    obtain ⟨u, v, rfl, hd, hv⟩ := hx
    cases hd with
    | done => exact Or.inl hv
    | again ha hr =>
      rw [List.append_assoc]
      exact Or.inr (.cons ha (.cons hr hv))
  · rintro (h | h)
    · exact .cons .done h
    · obtain ⟨u, r, rfl, ha, hr⟩ := meets_cons.mp h
      obtain ⟨v, r, rfl, hb, hr⟩ := meets_cons.mp hr
      rw [← List.append_assoc]
      exact .cons (.again ha hb) hr

/-! ## Where a sentence ends -/

/-- A form inside of a text: neither the end of a text nor a whole text occurs in it. -/
def Form.Inner : Form → Prop
  | .terminal k => k ≠ .eof
  | .nonterminal n => n ≠ .declarations
  | .both a b | .either a b => a.Inner ∧ b.Inner
  | .optional a | .repeated a => a.Inner

theorem rule_inner {n : Nonterminal} (h : n ≠ .declarations) : (rule n).Inner := by
  cases n <;> simp [rule, Form.row, Form.Inner] at h ⊢

theorem Derives.eof_not_mem (h : Derives f w) (hf : f.Inner) : TokenKind.eof ∉ w := by
  induction h with
  | terminal k => simpa using hf.symm
  | nonterminal _ ih => exact ih (rule_inner hf)
  | both _ _ iha ihb => simpa using ⟨iha hf.1, ihb hf.2⟩
  | left _ ih => exact ih hf.1
  | right _ ih => exact ih hf.2
  | absent => simp
  | present _ ih => exact ih hf
  | done => simp
  | again _ _ iha ihb => simpa using ⟨iha hf, ihb hf⟩

theorem Sentence.split (h : Sentence w) : ∃ v, w = v ++ [.eof] ∧ TokenKind.eof ∉ v := by
  rw [Sentence, ← meets_singleton, meets_nonterminal, rule, meets_row] at h
  obtain ⟨u, r, rfl, hd, hr⟩ := meets_cons.mp h
  have he : r = [.eof] := by
    cases r with
    | nil => exact absurd hr not_meets_terminal_nil
    | cons k r =>
      obtain ⟨rfl, hn⟩ := meets_terminal_cons.mp hr
      rw [meets_nil.mp hn]
  exact ⟨u, by rw [he], hd.eof_not_mem (by simp [Form.Inner])⟩

theorem Sentence.append_eof (h : Sentence (v ++ .eof :: w)) : w = [] := by
  obtain ⟨u, he, hu⟩ := h.split
  rcases List.append_eq_append_iff.mp he with ⟨r, rfl, hr⟩ | ⟨r, rfl, hr⟩
  · cases r with
    | nil => exact (List.cons.inj hr).2
    | cons k r =>
      obtain ⟨rfl, _⟩ := List.cons.inj hr
      simp at hu
  · cases r with
    | nil => exact (List.cons.inj hr.symm).2
    | cons k r => simp at hr

theorem Viable.of_append (h : Viable (v ++ w)) : Viable v := by
  obtain ⟨rest, hr⟩ := h
  rw [List.append_assoc] at hr
  exact ⟨w ++ rest, hr⟩

theorem viable_append_eof : Viable (v ++ [.eof]) ↔ Sentence (v ++ [.eof]) := by
  constructor
  · intro hx
    obtain ⟨rest, h⟩ := hx
    rw [List.append_assoc] at h
    have hr : rest = [] := h.append_eof
    subst hr
    exact h
  · intro h
    exact ⟨[], by rwa [List.append_nil]⟩

end Modula.Grammar

import Modula.Proofs.Grammar.Viability
import Modula.Proofs.Token.KindSet

/-! # What goals ask for

A stack of goals that does not take a kind says what it expected in its place. An expectation stands
for a form (`Expectation.form`), and the kinds that it names are those with which the form can start
(`contains_kinds_iff`).

* `feed_error_unique`: what is expected does not depend on the kind that was not taken.
* `Grounded gs`: the last goal asks for whole sections up to the end of the text, and no other one
  takes the end. It holds of the goal of a whole text and every step before the end keeps it
  (`feed_grounded`).
* `Fed.viable_expected`: whatever has the form that was expected can come in place of the kind.
* `feed_of_grounded`: where the end of the text could come, a new section is taken as at the front of
  a text. -/

namespace Modula
set_option autoImplicit false

open Grammar Goal

variable {g : Goal} {gs new rest : List Goal} {k l : TokenKind} {v w : List TokenKind}
  {e e' : Expectation}

/-! ## Expectations as forms -/

/-- The form that an expectation asks for. -/
def Expectation.form : Expectation → Form
  | token k => .terminal k
  | declaration => .nonterminal .declaration
  | type => .nonterminal .type
  | simpleType => .nonterminal .simpleType
  | constant => .nonterminal .constant

namespace Grammar

theorem take_of_mem_first (h : k ∈ g.first) : ∃ new, g.move k = .take new := by
  cases g with
  | token c =>
    have hk : k = c := by simpa [first] using h
    exact ⟨[], by simp [move, hk]⟩
  | _ => cases k <;> simp [first, move, afterStructured?, afterSimple?] at h ⊢

theorem mem_first_iff (hg : g.nullable = false) : k ∈ g.first ↔ ∃ w, Derives g.form (k :: w) := by
  simp only [← meets_singleton, meets_form_cons, hg, Bool.false_eq_true, false_and, false_or,
    List.append_nil]
  constructor
  · intro h
    obtain ⟨new, hm⟩ := take_of_mem_first h
    obtain ⟨w, hw⟩ := exists_meets new
    exact ⟨w, new, hm, hw⟩
  · intro hx
    obtain ⟨w, new, hm, _⟩ := hx
    exact mem_first_of_take hm

/-- What a goal says that it expected when it fails; `none` if it never does. -/
def Goal.expectation? : Goal → Option Expectation
  | token k => some (.token k)
  | sections => some (.token .eof)
  | type => some .type
  | simpleType => some .simpleType
  | constant => some .constant
  | _ => none

theorem expectation?_of_fail (h : g.move k = .fail e) : g.expectation? = some e := by
  cases g with
  | token c =>
    by_cases hk : k = c
    · simp [move, hk] at h
    · simp only [move, if_neg hk, Move.fail.injEq] at h
      rw [expectation?, h]
  | _ => cases k <;> cases h <;> rfl

theorem derives_of_expectation? (h : g.expectation? = some e) (hd : Derives e.form v) :
    Derives g.form v := by
  cases g with
  | sections =>
    cases h
    cases hd
    exact .nonterminal (.both .done (.terminal .eof))
  | token _ | type | simpleType | constant =>
    cases h
    exact hd
  | _ => cases h

theorem derives_declaration_cons :
    (∃ w, Derives (.nonterminal .declaration) (k :: w)) ↔ k ∈ [TokenKind.type, .var] := by
  simp only [← meets_singleton, meets_nonterminal, rule, meets_either, meets_row,
    meets_terminal_cons, List.mem_cons, List.not_mem_nil, or_false]
  constructor
  · rintro ⟨w, h | h⟩
    · exact .inl h.1
    · exact .inr h.1
  · rintro (rfl | rfl)
    · exact ⟨[], .inl ⟨rfl, meets_singleton.mpr .done⟩⟩
    · exact ⟨[], .inr ⟨rfl, meets_singleton.mpr .done⟩⟩

end Grammar

theorem Expectation.contains_kinds_iff (e : Expectation) (k : TokenKind) :
    e.kinds.contains k = true ↔ ∃ w, Derives e.form (k :: w) := by
  cases e with
  | token c =>
    rw [kinds, KindSet.contains_ofList]
    exact mem_first_iff (g := .token c) rfl
  | declaration =>
    rw [kinds, firstDeclaration, KindSet.contains_ofList]
    exact derives_declaration_cons.symm
  | type =>
    rw [kinds, firstType, KindSet.contains_union, firstSimpleType, KindSet.contains_ofList,
      KindSet.contains_ofList, ← List.mem_append]
    exact mem_first_iff (g := .type) rfl
  | simpleType =>
    rw [kinds, firstSimpleType, KindSet.contains_ofList]
    exact mem_first_iff (g := .simpleType) rfl
  | constant =>
    rw [kinds, firstConstant, KindSet.contains_ofList]
    exact mem_first_iff (g := .constant) rfl

namespace Grammar

/-! ## Two kinds that are not taken -/

/-- A goal that passes a kind fails at none, so two kinds that a stack does not take come down to
the same goal. -/
theorem feed_error_unique (h : feed gs k = .error e) (h' : feed gs l = .error e') : e = e' := by
  induction gs with
  | nil =>
    cases h
    cases h'
    rfl
  | cons g gs ih =>
    cases hk : g.move k with
    | take new =>
      rw [feed_of_take hk] at h
      cases h
    | pass =>
      rw [feed_of_pass hk] at h
      cases hl : g.move l with
      | take new =>
        rw [feed_of_take hl] at h'
        cases h'
      | pass =>
        rw [feed_of_pass hl] at h'
        exact ih h h'
      | fail f => exact absurd hl (move_ne_fail (nullable_of_pass hk))
    | fail f =>
      rw [feed_of_fail hk] at h
      cases hl : g.move l with
      | take new =>
        rw [feed_of_take hl] at h'
        cases h'
      | pass => exact absurd hk (move_ne_fail (nullable_of_pass hl))
      | fail f' =>
        rw [feed_of_fail hl] at h'
        have hf := (expectation?_of_fail hk).symm.trans (expectation?_of_fail hl)
        cases h
        cases h'
        exact Option.some.inj hf

theorem Fed.unique {rest' : List Goal} (h : Fed gs v rest) (h' : Fed gs v rest') : rest = rest' := by
  induction h with
  | nil =>
    cases h'
    rfl
  | cons hk _ ih =>
    cases h' with
    | cons hk' hr =>
      rw [hk] at hk'
      cases hk'
      exact ih hr

/-! ## Grounded stacks -/

/-- The last goal asks for sections up to the end of the text, and no other one takes the end. -/
def Grounded (gs : List Goal) : Prop :=
  ∃ inner, gs = inner ++ [.sections] ∧ ∀ g ∈ inner, TokenKind.eof ∉ g.first

theorem eof_not_mem_first_of_take (h : g.move k = .take new) (hg : TokenKind.eof ∉ g.first) :
    ∀ g' ∈ new, TokenKind.eof ∉ g'.first := by
  cases g with
  | token c =>
    by_cases hk : k = c
    · simp only [move, if_pos hk] at h
      cases h
      simp
    · simp [move, hk] at h
  | sections => exact absurd (by decide) hg
  | _ => cases k <;> cases h <;> decide

theorem feed_grounded (hg : Grounded gs) (hk : k ≠ .eof) (h : feed gs k = .ok rest) :
    Grounded rest := by
  obtain ⟨inner, rfl, hi⟩ := hg
  induction inner with
  | nil =>
    rcases feed_cases h with ⟨new, hm, rfl⟩ | ⟨_, hf⟩
    · cases k <;> cases hm
      · exact absurd rfl hk
      · exact ⟨[.typeDecls], rfl, by decide⟩
      · exact ⟨[.varDecls], rfl, by decide⟩
    · cases hf
  | cons g inner ih =>
    rw [List.forall_mem_cons] at hi
    rcases feed_cases h with ⟨new, hm, rfl⟩ | ⟨_, hf⟩
    · refine ⟨new ++ inner, (List.append_assoc new inner _).symm, fun g' hg' => ?_⟩
      rcases List.mem_append.mp hg' with hn | hn
      · exact eof_not_mem_first_of_take hm hi.1 g' hn
      · exact hi.2 g' hn
    · exact ih hi.2 hf

theorem Fed.grounded (h : Fed gs v rest) (hg : Grounded gs) (hv : TokenKind.eof ∉ v) :
    Grounded rest := by
  induction h with
  | nil => exact hg
  | cons hk _ ih =>
    rw [List.mem_cons, not_or] at hv
    exact ih (feed_grounded hg (Ne.symm hv.1) hk) hv.2

theorem grounded_sections : Grounded [.sections] := ⟨[], rfl, by simp⟩

/-! ## What was expected can come -/

theorem exists_meets_of_error (hs : Goal.sections ∈ gs) (h : feed gs k = .error e)
    (hd : Derives e.form v) : ∃ w, Meets (forms gs) (v ++ w) := by
  induction gs with
  | nil => cases hs
  | cons g gs ih =>
    cases hm : g.move k with
    | take new =>
      rw [feed_of_take hm] at h
      cases h
    | pass =>
      -- the goal is met by nothing, so the sections stand behind it
      rw [feed_of_pass hm] at h
      have hg := nullable_of_pass hm
      have hne : Goal.sections ≠ g := by
        rintro rfl
        cases hg
      obtain ⟨w, hw⟩ := ih (List.mem_of_ne_of_mem hne hs) h
      have hn : Meets (forms (g :: gs)) ([] ++ (v ++ w)) := .cons (derives_nil hg) hw
      exact ⟨w, hn⟩
    | fail f =>
      rw [feed_of_fail hm] at h
      cases h
      obtain ⟨w, hw⟩ := exists_meets gs
      exact ⟨w, .cons (derives_of_expectation? (expectation?_of_fail hm) hd) hw⟩

theorem Fed.viable_expected {u : List TokenKind} (h : Fed [.sections] v rest)
    (hv : TokenKind.eof ∉ v) (he : feed rest k = .error e) (hd : Derives e.form u) :
    Viable (v ++ u) := by
  obtain ⟨inner, rfl, _⟩ := h.grounded grounded_sections hv
  obtain ⟨w, hw⟩ := exists_meets_of_error (by simp) he hd
  refine ⟨w, ?_⟩
  rw [List.append_assoc]
  exact meets_singleton.mp ((h.meets_iff orderly_sections).mpr hw)

/-! ## Where the end could come -/

theorem pass_of_nullable (hg : g.nullable = true) (hk : k ∈ sections.first) :
    g.move k = .pass := by
  have hs : k = .type ∨ k = .var ∨ k = .eof := by simpa [first] using hk
  rcases hs with rfl | rfl | rfl <;> cases g <;> cases hg <;> rfl

theorem feed_of_grounded (hg : Grounded gs) (he : feed gs .eof = .ok rest)
    (hk : k ∈ sections.first) : feed gs k = feed [.sections] k := by
  obtain ⟨inner, rfl, hi⟩ := hg
  induction inner with
  | nil => rfl
  | cons g inner ih =>
    rw [List.forall_mem_cons] at hi
    rcases feed_cases he with ⟨new, hm, _⟩ | ⟨hm, hf⟩
    · exact absurd (mem_first_of_take hm) hi.1
    · rw [List.cons_append, feed_of_pass (pass_of_nullable (nullable_of_pass hm) hk)]
      exact ih hi.2 hf

end Grammar
end Modula

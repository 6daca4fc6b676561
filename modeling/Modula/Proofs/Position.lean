import Mathlib.Data.List.DropRight
import Modula.Proofs.Diagnostic

/-! # Lines and columns

A reader counts lines and columns as it goes, one character behind. The count is right at every
offset of a text (`after_take`): the line is one more than there are line breaks before the offset,
and the column one more than there are characters behind the last of them. So what stands at a place
is found from its line and column alone.

* `Token.StandsAt`, `Diagnostic.StandsAt`: what is to be found at an offset, and the line and column
  it has there.
* `Reads.exists_marks`: the tokens of a text have rising offsets and do not overlap.
* `positions_exact`: both for all tokens and diagnostics of a text. -/

namespace Modula
set_option autoImplicit false

namespace Position

/-! ## Counting characters -/

/-- The line and column of an offset of a text, from the line breaks before it. -/
def atOffset (u : List Char) (o : Nat) : Position :=
  ⟨1 + (u.take o).count '\n', 1 + ((u.take o).rtakeWhile (· ≠ '\n')).length⟩

theorem after_col (cs : List Char) :
    (origin.after cs).col = 1 + (cs.rtakeWhile (· ≠ '\n')).length := by
  induction cs using List.reverseRecOn with
  | nil => rfl
  | append_singleton cs c ih =>
    rw [after_append, after_cons, after_nil, List.rtakeWhile_concat]
    by_cases hc : c = '\n'
    · subst hc
      rfl
    · have hn : some c ≠ some '\n' := fun h => hc (Option.some.inj h)
      rw [next_of_ne _ hn, ih]
      simp [hc]
      omega

theorem after_take (u : List Char) (o : Nat) : origin.after (u.take o) = atOffset u o := by
  have hl := after_line origin (u.take o)
  have hc := after_col (u.take o)
  rw [atOffset, ← hc]
  exact congrArg (Position.mk · _) hl

theorem after_left (pre u : List Char) : origin.after pre = atOffset (pre ++ u) pre.length := by
  rw [← after_take, List.take_left]

/-! ## The order of reading -/

/-- In a line further up, or in the same line further left. -/
def Before (p q : Position) : Prop := p.line < q.line ∨ p.line = q.line ∧ p.col < q.col

theorem Before.trans {p q r : Position} (h : p.Before q) (h' : q.Before r) : p.Before r := by
  unfold Before at *
  omega

theorem before_next (p : Position) (c : Char) : p.Before (p.next (some c)) := by
  unfold Before next
  split
  · exact .inl (Nat.lt_succ_self _)
  · exact .inr ⟨rfl, Nat.lt_succ_self _⟩

theorem before_after (p : Position) {cs : List Char} (h : cs ≠ []) : p.Before (p.after cs) := by
  induction cs generalizing p with
  | nil => exact absurd rfl h
  | cons c cs ih =>
    have hn := p.before_next c
    rw [after_cons]
    by_cases hcs : cs = []
    · subst hcs
      exact hn
    · exact hn.trans (ih _ hcs)

theorem atOffset_before {u : List Char} {o o' : Nat} (h : o < o') (ho : o' ≤ u.length) :
    (atOffset u o).Before (atOffset u o') := by
  have hs : u.take o' = u.take o ++ (u.take o').drop o := by
    have ht := List.take_append_drop o (u.take o')
    rw [List.take_take, Nat.min_eq_left (Nat.le_of_lt h)] at ht
    exact ht.symm
  have hne : (u.take o').drop o ≠ [] := by
    apply List.ne_nil_of_length_pos
    rw [List.length_drop, List.length_take]
    omega
  rw [← after_take, ← after_take, hs, after_append]
  exact before_after _ hne

end Position

/-! ## What stands where -/

/-- The token `t` stands at the offset `o` of the text `u`. -/
structure Token.StandsAt (u : List Char) (t : Token) (o : Nat) : Prop where
  position : t.position = .atOffset u o
  le_length : o ≤ u.length
  lexeme : t.kind ≠ .eof → t.lexeme.toList <+: u.drop o
  ends : t.kind = .eof → o = u.length

/-- The diagnostic `d` is about what stands at the offset `o` of the text `u` with the tokens
`ts`. -/
structure Diagnostic.StandsAt (u : List Char) (ts : List Token) (d : Diagnostic) (o : Nat) :
    Prop where
  position : d.position = .atOffset u o
  foreign : ∀ c, d.fault = .invalidCharacter c → u[o]? = some c
  unclosed : d.fault = .unterminatedComment → ['(', '*'] <+: u.drop o
  unexpected : ∀ e, d.fault = .expected e → ∃ t ∈ ts, t.StandsAt u o

variable {p : Position} {u pre before rest : List Char} {t : Token} {ts : List Token}
  {fault : Option Diagnostic} {d : Diagnostic}

theorem Placed.standsAt (h : Placed (.after .origin pre) u before t rest)
    (he : t.kind = .eof → t.lexeme = "") : t.StandsAt (pre ++ u) (pre.length + before.length) := by
  have ht : pre ++ u = (pre ++ before) ++ (t.lexeme.toList ++ rest) := by
    rw [h.text]
    simp
  have hp := Position.after_left (pre ++ before) (t.lexeme.toList ++ rest)
  rw [← List.length_append, ht]
  refine ⟨h.prepend.position.trans hp, ?_, fun _ => ?_, fun hk => ?_⟩
  · simp only [List.length_append]
    omega
  · rw [List.drop_left]
    exact List.prefix_append _ _
  · rw [he hk, h.ends hk]
    simp

/-! ## The tokens of a text -/

theorem Reads.lexeme_of_eof (h : Reads p u ts fault) (ht : t ∈ ts) (hk : t.kind = .eof) :
    t.lexeme = "" := by
  rcases h.spelled ht with hs | hs
  · exact hs.2
  · exact absurd hk (ofLexeme?_ne hs).1

theorem Reads.lexeme_pos (h : Reads p u ts fault) (ht : t ∈ ts) (hk : t.kind ≠ .eof) :
    0 < t.lexeme.length := by
  rcases h.spelled ht with hs | hs
  · exact absurd hs.1 hk
  · have hl : t.lexeme.toList ≠ [] := by
      apply ofLexeme?_ne_nil
      rw [String.ofList_toList]
      exact hs
    rw [← String.length_toList]
    exact List.length_pos_of_ne_nil hl

/-- The tokens of a text that stands behind `pre`, with their offsets. -/
theorem Reads.exists_marks (h : Reads (.after .origin pre) u ts fault) :
    ∃ marks : List (Token × Nat), marks.map Prod.fst = ts ∧
      (∀ m ∈ marks, pre.length ≤ m.2 ∧ m.1.StandsAt (pre ++ u) m.2) ∧
      marks.Pairwise fun a b => a.2 < b.2 ∧ a.2 + a.1.lexeme.length ≤ b.2 := by
  induction ts generalizing pre u with
  | nil => exact ⟨[], rfl, nofun, .nil⟩
  | cons t ts ih =>
    obtain ⟨before, rest, hp, _, hrest, hend⟩ := h.of_cons
    have hs := hp.standsAt (h.lexeme_of_eof List.mem_cons_self)
    by_cases hk : t.kind = .eof
    · obtain ⟨rfl, rfl⟩ := hend hk
      refine ⟨[(t, pre.length + before.length)], rfl, fun m hm => ?_, List.pairwise_singleton _ _⟩
      rw [List.mem_singleton.mp hm]
      exact ⟨Nat.le_add_right _ _, hs⟩
    · have hr := hrest hk
      rw [← Position.after_append] at hr
      -- the other tokens stand behind `pre`, the gap and the lexeme
      obtain ⟨marks, hm, hall, hpw⟩ := ih hr
      have ht : pre ++ (before ++ t.lexeme.toList) ++ rest = pre ++ u := by
        rw [hp.text]
        simp
      have hle : ∀ m ∈ marks, pre.length + before.length + t.lexeme.length ≤ m.2 := by
        intro m hmem
        have hl := (hall m hmem).1
        rw [List.length_append, List.length_append, String.length_toList] at hl
        omega
      refine ⟨(t, pre.length + before.length) :: marks, by rw [List.map_cons, hm], ?_, ?_⟩
      · intro m hmem
        rcases List.mem_cons.mp hmem with rfl | hmem
        · exact ⟨Nat.le_add_right _ _, hs⟩
        · have hl := hle m hmem
          have hst := (hall m hmem).2
          rw [ht] at hst
          exact ⟨by omega, hst⟩
      · refine List.pairwise_cons.mpr ⟨fun m hmem => ?_, hpw⟩
        have hl := hle m hmem
        have hpos := h.lexeme_pos List.mem_cons_self hk
        dsimp only
        omega

theorem Reads.exists_standsAt (h : Reads .origin u ts fault) (ht : t ∈ ts) :
    ∃ o, t.StandsAt u o := by
  rw [← Position.after_nil .origin] at h
  obtain ⟨marks, hm, hall, _⟩ := h.exists_marks
  rw [← hm] at ht
  obtain ⟨m, hmem, rfl⟩ := List.mem_map.mp ht
  exact ⟨m.2, (hall m hmem).2⟩

/-! ## The faults of a text -/

theorem Reads.fault_standsAt (h : Reads .origin u ts (some d)) : ∃ o, d.StandsAt u ts o := by
  cases h with
  | @faulty pre rest _ f hu _ hf =>
    subst hu
    refine ⟨pre.length, ⟨Position.after_left pre rest, ?_, ?_, ?_⟩⟩
    · intro c hc
      cases hf with
      | foreign _ =>
        cases hc
        simp
      | unclosed _ => cases hc
    · intro hc
      rw [List.drop_left]
      cases hf with
      | foreign _ => cases hc
      | unclosed _ => exact ⟨_, rfl⟩
    · intro e he
      dsimp only at he
      subst he
      cases hf

theorem standsAt_of_check {cs : List Char} (h : check cs = .error d) :
    ∃ o, d.StandsAt (visible cs) (tokenStream cs).1 o := by
  have hr := reads_tokenStream cs
  rw [check_eq_verdict] at h
  rcases verdict_error h with ⟨k, t, e, hk, _, _, rfl⟩ | ⟨_, hf⟩
  · have ht := List.mem_of_getElem? hk
    obtain ⟨o, ho⟩ := hr.exists_standsAt ht
    exact ⟨o, ho.position, nofun, nofun, fun _ _ => ⟨t, ht, ho⟩⟩
  · rw [hf] at hr
    exact hr.fault_standsAt

/-- Each token of a text stands where its line and column say: its lexeme is there, or the end of
the text. The tokens do not overlap and their places rise. A diagnostic is about what stands where
its line and column say: the foreign character, the opening of the comment that is not closed, or
the token that was not expected. -/
theorem positions_exact (cs : List Char) :
    (∀ ts, tokenize cs = .ok ts →
      ∃ marks : List (Token × Nat), marks.map Prod.fst = ts ∧
        (∀ m ∈ marks, m.1.StandsAt (visible cs) m.2) ∧
        marks.Pairwise fun a b => a.2 < b.2 ∧ a.2 + a.1.lexeme.length ≤ b.2 ∧
          a.1.position.Before b.1.position) ∧
    (∀ d, tokenize cs = .error d →
      d.stage = .lexical ∧ ∃ o, d.StandsAt (visible cs) (tokenStream cs).1 o) ∧
    (∀ d, check cs = .error d → ∃ o, d.StandsAt (visible cs) (tokenStream cs).1 o) := by
  refine ⟨fun ts h => ?_, fun d h => ?_, fun d h => standsAt_of_check h⟩
  · have hr := tokenStream_eq_iff.mp (tokenize_eq_ok_iff.mp h)
    rw [← Position.after_nil .origin] at hr
    obtain ⟨marks, hm, hall, hpw⟩ := hr.exists_marks
    refine ⟨marks, hm, fun m hmem => (hall m hmem).2, hpw.imp_of_mem fun ha hb hab => ?_⟩
    have ha' := (hall _ ha).2
    have hb' := (hall _ hb).2
    refine ⟨hab.1, hab.2, ?_⟩
    rw [ha'.position, hb'.position]
    exact Position.atOffset_before hab.1 hb'.le_length
  · obtain ⟨ts, ht⟩ := tokenize_eq_error_iff.mp h
    have hr := tokenStream_eq_iff.mp ht
    rw [ht]
    exact ⟨hr.fault_stage, hr.fault_standsAt⟩

theorem positions_exact_across_lines :
    (∃ marks : List (Token × Nat),
      marks.map Prod.fst =
        [⟨.var, "VAR", ⟨1, 1⟩⟩, ⟨.ident, "é", ⟨2, 3⟩⟩, ⟨.eof, "", ⟨3, 1⟩⟩] ∧
      ∀ m ∈ marks, m.1.StandsAt "VAR(*\n*)é\n".toList m.2) ∧
    (∃ o, Diagnostic.StandsAt "x\n\n ?".toList (tokenStream "x\n\n ?".toList).1
      ⟨.invalidCharacter '?', ⟨3, 2⟩⟩ o) ∧
    (∃ o, Diagnostic.StandsAt "VAR x\n;".toList (tokenStream "VAR x\n;".toList).1
      ⟨.expected (.token .colon), ⟨2, 1⟩⟩ o) := by
  have ht : tokenize "VAR(*\n*)é\n".toList =
      .ok [⟨.var, "VAR", ⟨1, 1⟩⟩, ⟨.ident, "é", ⟨2, 3⟩⟩, ⟨.eof, "", ⟨3, 1⟩⟩] := by decide +kernel
  have hl : tokenize "x\n\n ?".toList = .error ⟨.invalidCharacter '?', ⟨3, 2⟩⟩ := by
    decide +kernel
  have hc : check "VAR x\n;".toList = .error ⟨.expected (.token .colon), ⟨2, 1⟩⟩ := by
    decide +kernel
  obtain ⟨marks, hm, hall, _⟩ := (positions_exact _).1 _ ht
  exact ⟨⟨marks, hm, hall⟩, ((positions_exact _).2.1 _ hl).2, (positions_exact _).2.2 _ hc⟩

end Modula

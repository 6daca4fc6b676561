import Mathlib.Logic.Function.Iterate
import Modula.Proofs.Checker
import Modula.Proofs.Independence

/-! # Asking again

A checker that has been asked may be asked again, and goes on at the token it was looking at. Each
time it gets further into its text, or it comes to rest (`run_step`): at the end, at a token that
begins no section, or between the word that opens a section and a character that begins no token.
At rest it says the same again and again and reads nothing more (`Rests.run`). So as many questions
as the text has characters bring it there (`Facing.rests`). -/

namespace Modula
set_option autoImplicit false

open Grammar Goal

/-! ## One more token -/

namespace Cursor

variable {κ : Type} [Sink κ] {c : Cursor κ} {u rest : List Char} {p q : Position}
  {answer : Except Diagnostic Token}

/-- What the next token of the text `u` can be, with the text behind it and the place of that. -/
inductive Turn (u : List Char) : Except Diagnostic Token → List Char → Position → Prop where
  | token {t : Token} {rest : List Char} {q : Position} :
      t.kind ≠ .eof → rest.length < u.length → Turn u (.ok t) rest q
  | ended {t : Token} {q : Position} : t.kind = .eof → Turn u (.ok t) [] q
  | foreign {ch : Char} {rest : List Char} {q : Position} :
      Foreign ch → rest.length < u.length → Turn u (.error ⟨.invalidCharacter ch, q⟩) (ch :: rest) q
  | unclosed {p q : Position} : u ≠ [] → Turn u (.error ⟨.unterminatedComment, p⟩) [] q

theorem Turn.length_le (h : Turn u answer rest q) : rest.length ≤ u.length := by
  cases h with
  | token _ hl => exact Nat.le_of_lt hl
  | ended _ => exact Nat.zero_le _
  | foreign _ hl => exact hl
  | unclosed _ => exact Nat.zero_le _

theorem Turn.eq_nil {t : Token} (h : Turn u (.ok t) rest q) (hk : t.kind = .eof) : rest = [] := by
  cases h with
  | token hn _ => exact absurd hk hn
  | ended _ => rfl

theorem Turn.stage {d : Diagnostic} (h : Turn u (.error d) rest q) : d.stage = .lexical := by
  cases h with
  | foreign _ _ => rfl
  | unclosed _ => rfl

theorem At.turn_of_fails {g : List Char} {f : Fault} (hg : Gap g) (hf : Fails rest f)
    (h : c.At (g ++ rest) p) :
    ∃ left q, Turn (g ++ rest) c.nextToken.1 left q ∧ c.nextToken.2.At left q := by
  obtain ⟨d, hd, hn⟩ := h.nextToken_gap hg
  rw [hn]
  cases hf with
  | @foreign ch rest hf =>
    rw [hd.nextToken_foreign hf]
    refine ⟨ch :: rest, _, .foreign hf ?_, hd⟩
    rw [List.length_append, List.length_cons]
    omega
  | unclosed hb =>
    obtain ⟨e, he, ha⟩ := hd.nextToken_unclosed hb
    rw [he]
    exact ⟨[], _, .unclosed (by simp), ha⟩

theorem At.turn (h : c.At u p) :
    ∃ rest q, Turn u c.nextToken.1 rest q ∧ c.nextToken.2.At rest q := by
  obtain ⟨ts, fault, hr⟩ := exists_reads p u
  rcases hr.cases with ⟨g, l, rest, k, _, hg, hk, hm, rfl, -⟩ | ⟨hg, -⟩ |
    ⟨g, rest, f, hg, hf, rfl, -⟩
  · obtain ⟨d, hd, ha⟩ := h.nextToken_gap_lexeme hg hk hm
    rw [hd]
    refine ⟨rest, _, .token (ofLexeme?_ne hk).1 ?_, ha⟩
    have hl : 0 < l.length := List.length_pos_iff.mpr (ofLexeme?_ne_nil hk)
    simp only [List.length_append]
    omega
  · rw [← List.append_nil u] at h
    obtain ⟨d, hd, hn⟩ := h.nextToken_gap hg
    rw [hn, hd.nextToken_nil]
    exact ⟨[], _, .ended rfl, hd⟩
  · exact h.turn_of_fails hg hf

end Cursor

namespace Checker

variable {κ : Type} {s : Checker κ} {u : List Char} {p : Position} {r : Except Diagnostic Unit}

/-! ## One run -/

/-- The checker has the text `u` behind the token it is looking at, and no text behind the end. -/
structure Facing (s : Checker κ) (u : List Char) (p : Position) : Prop where
  cursor : s.cursor.At u p
  ended : s.lookahead.kind = .eof → u = []

/-- What a run that began in front of `u` comes to: it is not further from the end than before, it
accepts nothing but the end, and rejects no token but the one it is looking at. -/
structure Leaves (u : List Char) (r : Except Diagnostic Unit × Checker κ) : Prop where
  facing : ∃ u' p', r.2.Facing u' p' ∧ u'.length ≤ u.length
  accepted : r.1 = .ok () → r.2.lookahead.kind = .eof
  rejected : ∀ d, r.1 = .error d → d.stage = .syntactic → d.position = r.2.lookahead.position

variable [Sink κ]

theorem Facing.turn {answer : Except Diagnostic Token} {c : Cursor κ} (h : s.Facing u p)
    (hn : (noteSection s.cursor s.lookahead).nextToken = (answer, c)) :
    ∃ rest q, Cursor.Turn u answer rest q ∧ c.At rest q := by
  have ht := (h.cursor.noteSection s.lookahead).turn
  rw [hn] at ht
  exact ht

theorem Facing.pursue (h : s.Facing u p) (gs : List Goal) : Leaves u (s.pursue gs) := by
  fun_induction Checker.pursue gs s generalizing u p with
  | case1 gs s e hf =>
    refine ⟨⟨u, p, h, Nat.le_refl _⟩, (fun ha => by cases ha), ?_⟩
    rintro _ ⟨⟩ _
    rfl
  | case2 gs s rest hf d c hn =>
    obtain ⟨left, q, ht, hc⟩ := h.turn hn
    refine ⟨⟨left, q, ⟨hc, fun hk => ?_⟩, ht.length_le⟩, (fun ha => by cases ha), ?_⟩
    · have hl := ht.length_le
      rw [h.ended hk] at hl
      exact List.length_eq_zero_iff.mp (Nat.le_zero.mp hl)
    · rintro _ ⟨⟩ hd
      rw [ht.stage] at hd
      cases hd
  | case3 gs s rest hf t c hn hk =>
    obtain ⟨left, q, ht, hc⟩ := h.turn hn
    rw [h.ended hk] at ht
    -- behind the end there is nothing but the end
    cases ht with
    | token _ hl => cases hl
    | ended hk' =>
      refine ⟨⟨[], q, ⟨hc, fun _ => rfl⟩, Nat.zero_le _⟩, fun _ => hk', ?_⟩
      rintro d ⟨⟩
  | case4 gs s rest hf t c hn hk ih =>
    obtain ⟨left, q, ht, hc⟩ := h.turn hn
    have hs : Facing ⟨c, t, s.calls + 1⟩ left q := ⟨hc, ht.eq_nil⟩
    obtain ⟨⟨u', p', hu, hl⟩, ha, hr⟩ := ih hs
    exact ⟨⟨u', p', hu, Nat.le_trans hl ht.length_le⟩, ha, hr⟩

theorem Facing.run (h : s.Facing u p) : Leaves u s.run := by
  rw [run_eq_pursue]
  exact h.pursue [.sections]

/-! ## At rest -/

/-- The checker is where it stays: it says `r` whenever it is asked. -/
inductive Rests : Except Diagnostic Unit → Checker κ → Prop where
  | ended {s : Checker κ} {p : Position} :
      s.cursor.At [] p → s.lookahead.kind = .eof → Rests (.ok ()) s
  | astray {s : Checker κ} : s.lookahead.kind ∉ [.type, .var, .eof] →
      Rests (.error ⟨.expected (.token .eof), s.lookahead.position⟩) s
  | blocked {s : Checker κ} {ch : Char} {rest : List Char} {p : Position} :
      s.lookahead.kind = .type ∨ s.lookahead.kind = .var → Foreign ch →
      s.cursor.At (ch :: rest) p → Rests (.error ⟨.invalidCharacter ch, p⟩) s

/-- Nothing is read of the source or copied into the sink between the two. -/
structure Idle (s t : Checker κ) : Prop where
  source : t.cursor.source = s.cursor.source
  sink : t.cursor.sink = s.cursor.sink

theorem feed_sections_of_not_mem {k : TokenKind} (h : k ∉ [.type, .var, .eof]) :
    feed [.sections] k = .error (.token .eof) := by
  cases k with
  | type | var | eof => exact absurd (by decide) h
  | _ => rfl

theorem exists_feed_sections {k : TokenKind} (h : k = .type ∨ k = .var) :
    ∃ gs, feed [.sections] k = .ok gs ∧ feed gs .eof = .ok [] := by
  rcases h with rfl | rfl
  · exact ⟨_, rfl, rfl⟩
  · exact ⟨_, rfl, rfl⟩

omit [Sink κ] in
theorem idle_noteSection (s : Checker κ) (t : Token) (n : Nat) :
    s.Idle ⟨noteSection s.cursor s.lookahead, t, n⟩ := by
  unfold noteSection
  split
  · exact ⟨rfl, rfl⟩
  · exact ⟨rfl, rfl⟩

theorem Rests.run (h : Rests r s) : s.run.1 = r ∧ Rests r s.run.2 ∧ s.Idle s.run.2 := by
  cases h with
  | @ended _ p hc hk =>
    have hn := hc.noteSection s.lookahead
    have hf : feed [.sections] s.lookahead.kind = .ok [] := by rw [hk]; rfl
    rw [run_eq_pursue, pursue_eq hf, hn.nextToken_nil]
    dsimp only
    rw [if_pos hk]
    exact ⟨rfl, .ended hn rfl, idle_noteSection s _ _⟩
  | astray hk =>
    rw [run_eq_pursue, Checker.pursue, feed_sections_of_not_mem hk]
    exact ⟨rfl, .astray hk, rfl, rfl⟩
  | blocked hk hf hc =>
    have hn := hc.noteSection s.lookahead
    obtain ⟨gs, hg, -⟩ := exists_feed_sections hk
    rw [run_eq_pursue, pursue_eq hg, hn.nextToken_foreign hf]
    exact ⟨rfl, .blocked hk hf hn, idle_noteSection s _ _⟩

omit [Sink κ] in
theorem Leaves.rests {x : Except Diagnostic Unit × Checker κ} (h : Leaves u x) (ha : x.1 = .ok ()) :
    Rests (.ok ()) x.2 := by
  obtain ⟨⟨u', p', hu, -⟩, hk, -⟩ := h
  have hc := hu.cursor
  rw [hu.ended (hk ha)] at hc
  exact .ended hc (hk ha)

theorem run_of_section (h : s.Facing u p)
    (hk : s.lookahead.kind = .type ∨ s.lookahead.kind = .var) :
    Rests s.run.1 s.run.2 ∨ ∃ u' p', s.run.2.Facing u' p' ∧ u'.length < u.length := by
  obtain ⟨gs, hf, he⟩ := exists_feed_sections hk
  have hne : s.lookahead.kind ≠ .eof := by
    rcases hk with hk | hk <;> rw [hk] <;> decide
  rcases hn : (noteSection s.cursor s.lookahead).nextToken with ⟨answer, c⟩
  obtain ⟨rest, q, ht, hc⟩ := h.turn hn
  rw [run_eq_pursue, pursue_eq hf, hn]
  cases ht with
  | @token t _ _ hk' hl =>
    have hs : Facing ⟨c, t, s.calls + 1⟩ rest q := ⟨hc, fun hk => absurd hk hk'⟩
    obtain ⟨u', p', hu, hl'⟩ := (hs.pursue gs).facing
    dsimp only
    rw [if_neg hne]
    exact .inr ⟨u', p', hu, Nat.lt_of_le_of_lt hl' hl⟩
  | @ended t _ hk' =>
    have hs : Facing ⟨c, t, s.calls + 1⟩ [] q := ⟨hc, fun _ => rfl⟩
    have hg : feed gs t.kind = .ok [] := hk' ▸ he
    have ha := pursue_of_eof (s := ⟨c, t, s.calls + 1⟩) hg hk' hc
    have hr := (hs.pursue gs).rests ha
    dsimp only
    rw [if_neg hne, ha]
    exact .inl hr
  | foreign hch _ => exact .inl (.blocked hk hch hc)
  | unclosed hu => exact .inr ⟨[], q, ⟨hc, fun _ => rfl⟩, List.length_pos_iff.mpr hu⟩

/-- A run brings the checker to rest or further into its text. -/
theorem run_step (h : s.Facing u p) :
    Rests s.run.1 s.run.2 ∨ ∃ u' p', s.run.2.Facing u' p' ∧ u'.length < u.length := by
  by_cases hk : s.lookahead.kind ∈ [.type, .var, .eof]
  · simp only [List.mem_cons, List.not_mem_nil, or_false] at hk
    rcases hk with hk | hk | hk
    · exact run_of_section h (.inl hk)
    · exact run_of_section h (.inr hk)
    · have hc := h.cursor
      rw [h.ended hk] at hc
      obtain ⟨hr, hs, -⟩ := (Rests.ended hc hk).run
      rw [hr]
      exact .inl hs
  · obtain ⟨hr, hs, -⟩ := (Rests.astray hk).run
    rw [hr]
    exact .inl hs

/-! ## One run after the other -/

/-- The checker once it has been asked `n` times. -/
def after (s : Checker κ) (n : Nat) : Checker κ := (fun s => s.run.2)^[n] s

/-- What the checker says when it has been asked `n` times before. -/
def result (s : Checker κ) (n : Nat) : Except Diagnostic Unit := (s.after n).run.1

theorem after_succ (s : Checker κ) (n : Nat) : s.after (n + 1) = s.run.2.after n := rfl

theorem result_succ (s : Checker κ) (n : Nat) : s.result (n + 1) = s.run.2.result n := rfl

theorem run_after (s : Checker κ) (n : Nat) : (s.after n).run.2 = s.after (n + 1) :=
  (Function.iterate_succ_apply' (fun s : Checker κ => s.run.2) n s).symm

theorem after_add (s : Checker κ) (m n : Nat) : s.after (m + n) = (s.after n).after m :=
  Function.iterate_add_apply _ m n s

theorem result_add (s : Checker κ) (m n : Nat) : s.result (m + n) = (s.after n).result m := by
  rw [result, after_add, result]

theorem Facing.after (h : s.Facing u p) (n : Nat) :
    ∃ u' p', (s.after n).Facing u' p' ∧ u'.length ≤ u.length := by
  induction n generalizing s u p with
  | zero => exact ⟨u, p, h, Nat.le_refl _⟩
  | succ n ih =>
    obtain ⟨u', p', hu, hl⟩ := h.run.facing
    obtain ⟨u'', p'', hu', hl'⟩ := ih hu
    exact ⟨u'', p'', hu', Nat.le_trans hl' hl⟩

theorem Rests.after (h : Rests r s) (n : Nat) :
    Rests r (s.after n) ∧ s.Idle (s.after n) := by
  induction n generalizing s with
  | zero => exact ⟨h, rfl, rfl⟩
  | succ n ih =>
    obtain ⟨-, hr, hi⟩ := h.run
    obtain ⟨hn, hi'⟩ := ih hr
    exact ⟨hn, hi'.source.trans hi.source, hi'.sink.trans hi.sink⟩

theorem Rests.result (h : Rests r s) (n : Nat) : s.result n = r := (h.after n).1.run.1

/-- A text of at most `n` characters leaves the checker at rest after one question more. -/
theorem Facing.rests {n : Nat} (h : s.Facing u p) (hn : u.length ≤ n) :
    Rests (s.result n) (s.after (n + 1)) := by
  induction n generalizing s u p with
  | zero =>
    rcases run_step h with hr | ⟨u', p', -, hl⟩
    · exact hr
    · omega
  | succ n ih =>
    rw [result_succ, after_succ]
    rcases run_step h with hr | ⟨u', p', hu, hl⟩
    · rw [hr.result]
      exact (hr.after (n + 1)).1
    · exact ih hu (by omega)

theorem start_of_token {c : Cursor κ} {t : Token} (h : c.nextToken.1 = .ok t) :
    start c = .ok ⟨c.nextToken.2, t, 1⟩ := by
  rcases hn : c.nextToken with ⟨answer, d⟩
  rw [hn] at h
  cases h
  rw [start, hn]

theorem facing_of_start {source : Source} {sink : κ} {journal : Journal}
    (h : start (Cursor.load source sink journal) = .ok s) :
    ∃ u p, s.Facing u p ∧ u.length ≤ source.text.length := by
  obtain ⟨rest, q, ht, hc⟩ := (Cursor.load_at source sink journal).turn
  unfold start at h
  rcases hn : (Cursor.load source sink journal).nextToken with ⟨_ | t, c⟩
  · rw [hn] at h
    cases h
  · rw [hn] at h ht hc
    cases h
    exact ⟨rest, q, ⟨hc, ht.eq_nil⟩, ht.length_le⟩

end Checker

/-- A checker in front of a text of `n` characters is asked again and again. Once it accepts, it
always does. Once it rejects a token that neither opens a section nor is the end, it always says
that the end was expected there. In any case all that it says after `n` questions is the same, and
after one more it reads nothing of its source and copies nothing into its sink. -/
theorem runs_settle {κ : Type} [Sink κ] {source : Source} {sink : κ} {journal : Journal}
    {s : Checker κ} (h : Checker.start (Cursor.load source sink journal) = .ok s) :
    (∀ i j, i < j → s.result i = .ok () → s.result j = .ok ()) ∧
    (∀ i j d, i < j → s.result i = .error d → d.stage = .syntactic →
      (s.after (i + 1)).lookahead.kind ∉ [.type, .var, .eof] →
      d.position = (s.after (i + 1)).lookahead.position ∧
      ∃ e, s.result j = .error e ∧ e.stage = .syntactic ∧ e.message = "EOF expected" ∧
        e.position = d.position) ∧
    (∀ i, source.text.length ≤ i → s.result i = s.result source.text.length) ∧
    (∀ i, source.text.length + 1 ≤ i → (s.after (source.text.length + 1)).Idle (s.after i)) := by
  obtain ⟨u, p, hs, hl⟩ := Checker.facing_of_start h
  have hrest := hs.rests hl
  -- at any time later than a question the checker has been asked some times more
  have later : ∀ {i j : Nat}, i < j → s.result j = (s.after (i + 1)).result (j - (i + 1)) := by
    intro i j hij
    rw [← Checker.result_add, Nat.sub_add_cancel hij]
  refine ⟨fun i j hij ha => ?_, fun i j d hij hd hst hk => ?_, fun i hi => ?_, fun i hi => ?_⟩
  · obtain ⟨u', p', hf, -⟩ := hs.after i
    have hr := hf.run.rests ha
    rw [Checker.run_after] at hr
    rw [later hij, hr.result]
  · obtain ⟨u', p', hf, -⟩ := hs.after i
    have hpos := hf.run.rejected d hd hst
    rw [Checker.run_after] at hpos
    have hm : (Expectation.token .eof).message = "EOF expected" := by decide
    refine ⟨hpos, ⟨.expected (.token .eof), d.position⟩, ?_, rfl, hm, rfl⟩
    rw [later hij, (Checker.Rests.astray hk).result, hpos]
  · rcases Nat.eq_or_lt_of_le hi with rfl | hlt
    · rfl
    · rw [later hlt, hrest.result]
  · have hi' := (hrest.after (i - (source.text.length + 1))).2
    rw [← Checker.after_add, Nat.sub_add_cancel hi] at hi'
    exact hi'

/-- The name that should have been a colon is not the end either. The word in the place of a colon
opens a section, in which the comment is not closed, so that nothing is left of it then. -/
theorem runs_settle_missing_colon :
    (∃ s, Checker.start (Cursor.load (.ofString "VAR x y;") Discard.discard #[]) = .ok s ∧
      s.result 0 = .error ⟨.expected (.token .colon), ⟨1, 7⟩⟩ ∧
      ∀ j, 0 < j → ∃ e, s.result j = .error e ∧ e.stage = .syntactic ∧
        e.message = "EOF expected" ∧ e.position = ⟨1, 7⟩) ∧
    (∃ s, Checker.start (Cursor.load (.ofString "VAR x TYPE (*") Discard.discard #[]) = .ok s ∧
      s.result 0 = .error ⟨.expected (.token .colon), ⟨1, 7⟩⟩ ∧
      s.result 1 = .error ⟨.unterminatedComment, ⟨1, 12⟩⟩ ∧
      ∀ j, 2 < j → s.result j = .ok ()) := by
  constructor
  · have hs := Checker.start_of_token (c := Cursor.load (.ofString "VAR x y;") Discard.discard #[])
      (t := ⟨.var, "VAR", ⟨1, 1⟩⟩) (by decide +kernel)
    refine ⟨_, hs, by decide +kernel, fun j hj => ?_⟩
    exact ((runs_settle hs).2.1 0 j ⟨.expected (.token .colon), ⟨1, 7⟩⟩ hj (by decide +kernel) rfl
      (by decide +kernel)).2
  · have hs := Checker.start_of_token
      (c := Cursor.load (.ofString "VAR x TYPE (*") Discard.discard #[])
      (t := ⟨.var, "VAR", ⟨1, 1⟩⟩) (by decide +kernel)
    refine ⟨_, hs, by decide +kernel, by decide +kernel, fun j hj => ?_⟩
    exact (runs_settle hs).1 2 j hj (by decide +kernel)

end Modula

import Modula.Checker
import Modula.Proofs.Grammar.Viability
import Modula.Proofs.Token.KindSet

/-! # Procedures and goals

What the procedures of a checker still have to do, all those that have been called included, is a
stack of goals. `Checker.pursue` takes one token after the other from such a stack, without any
procedure. `Serves s gs r hs` says that the outcome `r` of a procedure at `s` is what becomes of the
goals `gs`, with `hs` in their place, whatever goals are below; and that no fault of it is among
those that are `unheard`.

Some procedures serve a goal only at certain tokens, those that their callers have made sure of: a
record type is only gone into at its word. Elsewhere they would find a fault of their own, which is
why there are expectations that are `unheard`. These tokens are the hypotheses of the lemmas below,
and each lemma about a caller has to meet them.

* `Serves.seq`, `Serves.frame`: one procedure behind the other, and goals below.
* `serves_loop`, `serves_further`: a loop serves a goal that its body leaves as it is.
* `serves_type`: the procedures that call each other, by induction on what is left to be read.
* `run_eq_pursue`, `run_heard`: a run pursues sections up to the end, and its faults are heard. -/

namespace Modula
set_option autoImplicit false

open Grammar Goal

theorem Cursor.nextToken_stage {κ : Type} [Sink κ] {c : Cursor κ} {d : Diagnostic}
    (h : c.nextToken.1 = .error d) : d.stage = .lexical := by
  fun_induction nextToken c with
  | case1 => cases h
  | case2 _ _ _ _ _ _ _ ih => exact ih h
  | case3 =>
    cases h
    rfl
  | case4 => cases h
  | case5 c e ch _ _ =>
    unfold scan at h
    split at h
    · cases h
    · split at h
      · cases h
      · split at h
        · dsimp only at h
          split at h <;> cases h
        · split at h
          · cases h
          · cases h
            rfl

namespace Checker

variable {κ : Type}

/-! ## Pursuing goals -/

/-- Notes the word that opens a section, if the token is one. -/
def noteSection (c : Cursor κ) (t : Token) : Cursor κ :=
  if t.kind = .type ∨ t.kind = .var then c.note (.sectionOpened t.kind t.position.line) else c

@[simp] theorem noteSection_pending (c : Cursor κ) (t : Token) :
    (noteSection c t).pending = c.pending := by
  unfold noteSection
  split <;> simp

/-- A kind that neither opens a section nor ends the text. -/
def plain (k : TokenKind) : Bool := k ≠ .type && k ≠ .var && k ≠ .eof

theorem ne_eof_of_plain {k : TokenKind} (h : plain k = true) : k ≠ .eof := by
  rintro rfl
  cases h

theorem noteSection_of_plain {s : Checker κ} (h : plain s.lookahead.kind = true) :
    noteSection s.cursor s.lookahead = s.cursor := by
  refine if_neg ?_
  rintro (hk | hk)
  · rw [hk] at h
    cases h
  · rw [hk] at h
    cases h

theorem noteSection_of_head {s : Checker κ}
    (h : s.lookahead.kind = .type ∨ s.lookahead.kind = .var) :
    noteSection s.cursor s.lookahead = s.noteHead.cursor := if_pos h

variable [Sink κ]

/-- Pursues some goals until the end of the text has been accepted or a fault turns up. -/
def pursue (goals : List Goal) (s : Checker κ) : Except Diagnostic Unit × Checker κ :=
  match Goal.feed goals s.lookahead.kind with
  | .error expected => (.error (s.fault expected), s)
  | .ok rest =>
    match _h : (noteSection s.cursor s.lookahead).nextToken with
    | (.error d, c) => (.error d, ⟨c, s.lookahead, s.calls + 1⟩)
    | (.ok t, c) =>
      if s.lookahead.kind = .eof then (.ok (), ⟨c, t, s.calls + 1⟩)
      else pursue rest ⟨c, t, s.calls + 1⟩
termination_by s.left
decreasing_by
  next hk =>
  have hn := Cursor.nextToken_pending (noteSection s.cursor s.lookahead)
  rw [_h, noteSection_pending] at hn
  have hs := pending_lt_left hk
  simp only [left] at *
  omega

variable {s : Checker κ} {g : Goal} {gs gs' hs is ks new rest : List Goal} {k wanted : TokenKind}
  {P Q : Checker κ → Prop}

theorem pursue_eq (hf : feed gs s.lookahead.kind = .ok rest) :
    s.pursue gs =
      match (noteSection s.cursor s.lookahead).nextToken with
      | (.error d, c) => (.error d, ⟨c, s.lookahead, s.calls + 1⟩)
      | (.ok t, c) =>
        if s.lookahead.kind = .eof then (.ok (), ⟨c, t, s.calls + 1⟩)
        else pursue rest ⟨c, t, s.calls + 1⟩ := by
  rw [pursue, hf]
  dsimp only
  split <;> next h => rw [h]

theorem pursue_of_fail {e : Expectation} (hm : g.move s.lookahead.kind = .fail e) :
    s.pursue (g :: rest) = (.error (s.fault e), s) := by
  rw [pursue, feed_of_fail hm]

theorem pursue_congr (h : feed gs s.lookahead.kind = feed gs' s.lookahead.kind) :
    s.pursue gs = s.pursue gs' := by
  rw [pursue, pursue, h]

theorem pursue_of_pass (hm : g.move s.lookahead.kind = .pass) :
    s.pursue (g :: rest) = s.pursue rest := pursue_congr (feed_of_pass hm)

/-- The checker with `n` more calls on its count. -/
def more (n : Nat) (s : Checker κ) : Checker κ := { s with calls := n + s.calls }

/-- The count goes on from where it stands and decides nothing. -/
theorem pursue_more (gs : List Goal) (n : Nat) (s : Checker κ) :
    (s.more n).pursue gs = ((s.pursue gs).1, (s.pursue gs).2.more n) := by
  fun_induction pursue gs s with
  | case1 gs s e hf =>
    rw [pursue, more, hf]
    rfl
  | case2 gs s rest hf d c hn =>
    rw [pursue_eq (s := s.more n) hf, more, hn]
    rfl
  | case3 gs s rest hf t c hn hk =>
    rw [pursue_eq (s := s.more n) hf, more, hn]
    exact if_pos hk
  | case4 gs s rest hf t c hn hk ih =>
    rw [pursue_eq (s := s.more n) hf, more, hn, ← ih]
    exact if_neg hk

theorem pursue_counted (gs : List Goal) (c : Cursor κ) (t : Token) (n : Nat) :
    pursue gs ⟨c, t, n⟩ = ((pursue gs ⟨c, t, 0⟩).1, (pursue gs ⟨c, t, 0⟩).2.more n) :=
  pursue_more gs n ⟨c, t, 0⟩

theorem exists_of_bind_eq_ok {ε α β : Type} {x : Except ε α} {f : α → Except ε β} {b : β}
    (h : (x >>= f) = .ok b) : ∃ a, x = .ok a ∧ f a = .ok b := by
  cases x with
  | error e => cases h
  | ok a => exact ⟨a, rfl, h⟩

/-! ## Serving goals -/

/-- What is never expected, since it is asked for at no other token. -/
def unheard : List Expectation :=
  [.declaration, .token .lbracket, .token .lparen, .token .array, .token .record, .token .set,
    .token .pointer]

/-- The fault is none of those that never come up. -/
def Heard (d : Diagnostic) : Prop := ∀ e, d.fault = .expected e → e ∉ unheard

/-- Pursues goals behind the outcome of a procedure. -/
def resume (goals : List Goal) : Outcome κ { t : Checker κ // P t } → Except Diagnostic Unit × Checker κ
  | .error (d, t) => (.error d, t)
  | .ok t => t.1.pursue goals

/-- At `s` the outcome `r` is what becomes of the goals `gs`, with `hs` in their place. -/
structure Serves (s : Checker κ) (gs : List Goal) (r : Outcome κ { t : Checker κ // P t })
    (hs : List Goal) : Prop where
  pursue : ∀ rest, s.pursue (gs ++ rest) = resume (hs ++ rest) r
  heard : ∀ d t, r = .error (d, t) → Heard d

variable {r : Outcome κ { t : Checker κ // P t }}

theorem Serves.pure (s : Checker κ) (h : P s) :
    Serves s gs (Pure.pure ⟨s, h⟩ : Outcome κ { t : Checker κ // P t }) gs := by
  refine ⟨fun _ => rfl, ?_⟩
  rintro _ _ ⟨⟩

theorem Serves.frame (h : Serves s gs r hs) (ks : List Goal) :
    Serves s (gs ++ ks) r (hs ++ ks) := by
  refine ⟨fun rest => ?_, h.heard⟩
  rw [List.append_assoc, h.pursue, List.append_assoc]

theorem Serves.seq {f : { t : Checker κ // P t } → Outcome κ { t : Checker κ // Q t }}
    (h : Serves s gs r hs) (hf : ∀ t, Serves t.1 hs (f t) is) : Serves s gs (r >>= f) is := by
  rcases r with ⟨d, t⟩ | t
  · exact ⟨h.pursue, by rintro d' t' ⟨⟩; exact h.heard d t rfl⟩
  · exact ⟨fun rest => (h.pursue rest).trans ((hf t).pursue rest), (hf t).heard⟩

/-- The goals may be exchanged for others of which the token makes the same. -/
theorem Serves.of_pursue_eq (h : Serves s gs r hs)
    (he : ∀ rest, s.pursue (gs' ++ rest) = s.pursue (gs ++ rest)) : Serves s gs' r hs :=
  ⟨fun rest => (he rest).trans (h.pursue rest), h.heard⟩

theorem heard_of_lexical {d : Diagnostic} (h : d.stage = .lexical) : Heard d := by
  intro e he
  rw [Diagnostic.stage, he] at h
  cases h

omit [Sink κ] in
theorem heard_fault {e : Expectation} (h : e ∉ unheard) : Heard (s.fault e) := by
  rintro _ ⟨⟩
  exact h

/-! ## One token -/

theorem advance_of_error {d : Diagnostic} {c : Cursor κ}
    (h : s.cursor.nextToken = (.error d, c)) :
    s.advance = .error (d, ⟨c, s.lookahead, s.calls + 1⟩) := by
  unfold advance
  split
  · next hn =>
    rw [h] at hn
    cases hn
    rfl
  · next hn =>
    rw [h] at hn
    cases hn

theorem advance_of_ok {t : Token} {c : Cursor κ} (h : s.cursor.nextToken = (.ok t, c)) :
    ∃ u, u.1 = ⟨c, t, s.calls + 1⟩ ∧ s.advance = .ok u := by
  unfold advance
  split
  · next hn =>
    rw [h] at hn
    cases hn
  · next hn =>
    rw [h] at hn
    cases hn
    exact ⟨_, rfl, rfl⟩

theorem advance_heard {d : Diagnostic} {t : Checker κ} (h : s.advance = .error (d, t)) :
    Heard d := by
  rcases hn : s.cursor.nextToken with ⟨d' | t', c⟩
  · rw [advance_of_error hn] at h
    cases h
    exact heard_of_lexical (Cursor.nextToken_stage (congrArg Prod.fst hn))
  · obtain ⟨_, _, ha⟩ := advance_of_ok hn
    rw [ha] at h
    cases h

/-- A goal that takes the token leaves new goals behind it; the note about a section is made before
the next token is read. -/
theorem pursue_of_take {t : Checker κ} (hm : g.move s.lookahead.kind = .take new)
    (hk : s.lookahead.kind ≠ .eof)
    (ht : t = ⟨noteSection s.cursor s.lookahead, s.lookahead, s.calls⟩) :
    s.pursue (g :: rest) = resume (new ++ rest) t.advance := by
  subst ht
  rw [pursue_eq (feed_of_take hm)]
  rcases hn : (noteSection s.cursor s.lookahead).nextToken with ⟨d | t, c⟩
  · rw [advance_of_error hn]
    rfl
  · obtain ⟨u, hu, ha⟩ := advance_of_ok
      (s := ⟨noteSection s.cursor s.lookahead, s.lookahead, s.calls⟩) hn
    rw [ha, resume, hu]
    exact if_neg hk

theorem serves_advance (hm : g.move s.lookahead.kind = .take new)
    (hk : plain s.lookahead.kind = true) : Serves s [g] s.advance new := by
  have hs : s = ⟨noteSection s.cursor s.lookahead, s.lookahead, s.calls⟩ := by
    rw [noteSection_of_plain hk]
  exact ⟨fun _ => pursue_of_take hm (ne_eof_of_plain hk) hs, fun _ _ => advance_heard⟩

theorem serves_advance_at (hk : s.lookahead.kind = k) (hm : g.move k = .take new)
    (hp : plain k = true) : Serves s [g] s.advance new := by
  subst hk
  exact serves_advance hm hp

/-- The word that opens a section is noted before it is gone past. -/
theorem serves_head (hm : g.move s.lookahead.kind = .take new)
    (hk : s.lookahead.kind = .type ∨ s.lookahead.kind = .var) :
    Serves s [g] s.noteHead.advance new := by
  have hs : s.noteHead = ⟨noteSection s.cursor s.lookahead, s.lookahead, s.calls⟩ := by
    rw [noteSection_of_head hk]
    rfl
  have hne : s.lookahead.kind ≠ .eof := by
    rcases hk with hk | hk <;> rw [hk] <;> decide
  exact ⟨fun _ => pursue_of_take hm hne hs, fun _ _ => advance_heard⟩

/-- Where the token is known to be the wanted one, a goal that takes it is served. -/
theorem serves_accept (hk : s.lookahead.kind = wanted) (hm : g.move wanted = .take new)
    (hp : plain wanted = true) : Serves s [g] (s.accept wanted) new := by
  subst hk
  rw [accept, dif_pos rfl]
  exact (serves_advance hm hp).seq fun ⟨t, _⟩ => .pure t _

/-- Where it is not known, the token has to be a goal of its own, and may be missed. -/
theorem serves_token (hp : plain wanted = true) (hu : Expectation.token wanted ∉ unheard) :
    Serves s [token wanted] (s.accept wanted) [] := by
  by_cases hk : s.lookahead.kind = wanted
  · exact serves_accept hk (if_pos rfl) hp
  · rw [accept, dif_neg hk]
    refine ⟨fun rest => pursue_of_fail (if_neg hk), ?_⟩
    rintro _ _ ⟨⟩
    exact heard_fault hu

theorem serves_expectAny {e : Expectation}
    {f : PLift (e.kinds.contains s.lookahead.kind = true) → Outcome κ { t : Checker κ // P t }}
    (hu : e ∉ unheard) (hm : ∀ k, e.kinds.contains k = false → g.move k = .fail e)
    (hf : ∀ h, Serves s [g] (f h) hs) : Serves s [g] (s.expectAny e >>= f) hs := by
  by_cases hk : e.kinds.contains s.lookahead.kind = true
  · rw [expectAny, dif_pos hk]
    exact hf ⟨hk⟩
  · rw [expectAny, dif_neg hk]
    refine ⟨fun rest => pursue_of_fail (hm _ (Bool.eq_false_iff.mpr hk)), ?_⟩
    rintro _ _ ⟨⟩
    exact heard_fault hu

theorem serves_constant (s : Checker κ) : Serves s [.constant] s.constant [] := by
  have ht : ∀ k, Expectation.constant.kinds.contains k = true →
      Goal.constant.move k = .take [] ∧ plain k = true := by decide
  have hf : ∀ k, ¬ Expectation.constant.kinds.contains k = true →
      Goal.constant.move k = .fail .constant := by decide
  rw [Checker.constant]
  refine Serves.seq ?_ fun ⟨t, _⟩ => .pure t _
  rw [acceptAny]
  split
  · next hk => exact (serves_advance (ht _ hk).1 (ht _ hk).2).seq fun ⟨t, _⟩ => .pure t _
  · next hk =>
    refine ⟨fun rest => pursue_of_fail (hf _ hk), ?_⟩
    rintro _ _ ⟨⟩
    exact heard_fault (by decide)

/-! ## Loops -/

section Loop

variable {calls : TokenKind → Bool}
  {body : (t : Checker κ) → calls t.lookahead.kind = true → t.left ≤ s.left → Past t}

/-- A loop serves a goal that its body leaves in place, and leaves what is pursued of that goal at
a token that calls for no further turn. -/
theorem serves_loop_of
    (hexit : ∀ t : Checker κ, calls t.lookahead.kind = false →
      ∀ rest, t.pursue (g :: rest) = t.pursue (hs ++ rest))
    (hbody : ∀ t hc hl, Serves t [g] (body t hc hl) [g]) :
    Serves s [g] (s.loop calls body) hs := by
  fun_induction loop calls s body with
  | case1 s body hc ih =>
    refine (hbody s _ _).seq fun ⟨t, ht⟩ => ?_
    refine Serves.seq (ih t ht fun u hu hl => hbody u hu _) fun ⟨u, _⟩ => ?_
    exact .pure u _
  | case2 s body hc =>
    exact (Serves.pure s _).of_pursue_eq (hexit s (Bool.eq_false_iff.mpr hc))

theorem serves_loop (hexit : ∀ k, calls k = false → g.move k = .pass)
    (hbody : ∀ t hc hl, Serves t [g] (body t hc hl) [g]) :
    Serves s [g] (s.loop calls body) [] :=
  serves_loop_of (fun _ hc _ => pursue_of_pass (hexit _ hc)) hbody

omit [Sink κ] in
theorem calls_of_loop {u : { t : Checker κ // t.left ≤ s.left }}
    (h : s.loop calls body = .ok u) : calls u.1.lookahead.kind = false := by
  fun_induction loop calls s body with
  | case1 s body hc ih =>
    obtain ⟨t, -, ht⟩ := exists_of_bind_eq_ok h
    obtain ⟨v, hv, hu⟩ := exists_of_bind_eq_ok ht
    cases hu
    exact ih t.1 t.2 hv
  | case2 s body hc =>
    cases h
    exact Bool.eq_false_iff.mpr hc

end Loop

theorem serves_further (js : List Goal) {separator : TokenKind} {he : separator ≠ .eof}
    {item : (t : Checker κ) → t.left < s.left → Onward t}
    (hm : ∀ k, (k == separator) = false → g.move k = .pass)
    (ht : g.move separator = .take (js ++ [g])) (hp : plain separator = true)
    (hi : ∀ t hl, Serves t js (item t hl) []) :
    Serves s [g] (s.further separator he item) [] := by
  rw [further]
  refine serves_loop hm fun t hc _ => ?_
  have hk : t.lookahead.kind = separator := by simpa using hc
  refine Serves.seq (serves_advance_at hk ht hp) fun ⟨u, _⟩ => ?_
  exact ((hi u _).frame [g]).seq fun ⟨v, _⟩ => .pure v _

/-! ## Simple types -/

/-- Behind its first name, a row of names serves the goal for the rest of it. -/
theorem Serves.names {separator : TokenKind} {he : separator ≠ .eof}
    (h : Serves s gs (s.accept .ident) (g :: hs))
    (hm : ∀ k, (k == separator) = false → g.move k = .pass)
    (ht : g.move separator = .take [token .ident, g]) (hp : plain separator = true) :
    Serves s gs (s.names separator he) hs := by
  rw [Checker.names]
  refine h.seq fun ⟨t, _⟩ => ?_
  refine Serves.seq (Serves.frame (serves_further [token .ident] hm ht hp fun v _ => ?_) hs)
    fun ⟨u, _⟩ => .pure u _
  exact (serves_token rfl (by decide)).seq fun ⟨w, _⟩ => .pure w _

theorem Serves.identList (h : Serves s gs (s.accept .ident) (moreNames :: hs)) :
    Serves s gs s.identList hs := h.names (by decide) rfl rfl

theorem Serves.qualIdent (h : Serves s gs (s.accept .ident) (qualifiers :: hs)) :
    Serves s gs s.qualIdent hs := h.names (by decide) rfl rfl

theorem Serves.subrange (h : Serves s gs (s.accept .lbracket) (afterBracket ++ hs)) :
    Serves s gs s.subrange hs := by
  rw [Checker.subrange]
  refine h.seq fun ⟨t, _⟩ => ?_
  refine ((serves_constant t).frame _).seq fun ⟨u, _⟩ => ?_
  refine ((serves_token rfl (by decide)).frame _).seq fun ⟨v, _⟩ => ?_
  refine ((serves_constant v).frame _).seq fun ⟨w, _⟩ => ?_
  exact ((serves_token rfl (by decide)).frame hs).seq fun ⟨x, _⟩ => .pure x _

theorem serves_enumeration (hk : s.lookahead.kind = .lparen) :
    Serves s [.simpleType] s.enumeration [] := by
  rw [enumeration]
  refine (serves_accept hk rfl rfl).seq fun ⟨t, _⟩ => ?_
  refine Serves.seq (.identList ((serves_token rfl (by decide)).frame _)) fun ⟨u, _⟩ => ?_
  exact (serves_token rfl (by decide)).seq fun ⟨v, _⟩ => .pure v _

/-- Only a name begins a simple type that neither of the brackets opens. -/
theorem eq_ident_of_simpleType : ∀ k, Expectation.simpleType.kinds.contains k = true →
    k ≠ .lparen → k ≠ .lbracket → k = .ident := by decide

theorem serves_simpleType (s : Checker κ) : Serves s [.simpleType] s.simpleType [] := by
  rw [Checker.simpleType]
  refine serves_expectAny (by decide) (by decide) fun ⟨hk⟩ => ?_
  split
  · next h => exact serves_enumeration h
  · next h => exact .subrange (serves_accept h rfl rfl)
  · next hp hb =>
    have hi := eq_ident_of_simpleType _ hk hp hb
    refine Serves.seq (.qualIdent (serves_accept hi rfl rfl)) fun ⟨t, _⟩ => ?_
    dsimp only
    split
    · next hb => exact (Serves.subrange (serves_accept hb rfl rfl)).seq fun ⟨u, _⟩ => .pure u _
    · next hb =>
      have hm : ∀ k, k ≠ .lbracket → bounds.move k = .pass := by decide
      exact (Serves.pure t _).of_pursue_eq fun rest => pursue_of_pass (hm _ hb)

theorem serves_setType (hk : s.lookahead.kind = .set) : Serves s [.type] s.setType [] := by
  rw [setType]
  refine (serves_accept hk rfl rfl).seq fun ⟨t, _⟩ => ?_
  refine ((serves_token rfl (by decide)).frame _).seq fun ⟨u, _⟩ => ?_
  exact (serves_simpleType u).seq fun ⟨v, _⟩ => .pure v _

/-! ## Types -/

section Inside

-- types that begin behind the token that is looked at
variable (ih : ∀ t : Checker κ, t.left < s.left → Serves t [.type] t.type [])
include ih

theorem serves_arrayType (hk : s.lookahead.kind = .array) :
    Serves s [.type] s.arrayType [] := by
  rw [arrayType]
  refine (serves_accept hk rfl rfl).seq fun ⟨t, ht⟩ => ?_
  refine ((serves_simpleType t).frame _).seq fun ⟨u, hu⟩ => ?_
  refine Serves.seq (Serves.frame (serves_further [.simpleType] (g := moreIndices)
    (by decide) rfl rfl fun w _ => ?_) _) fun ⟨v, hv⟩ => ?_
  · exact (serves_simpleType w).seq fun ⟨x, _⟩ => .pure x _
  · refine ((serves_token rfl (by decide)).frame _).seq fun ⟨w, hw⟩ => ?_
    exact (ih w (by grind [pending_lt_left])).seq fun ⟨x, _⟩ => .pure x _

theorem serves_pointerType (hk : s.lookahead.kind = .pointer) :
    Serves s [.type] s.pointerType [] := by
  rw [pointerType]
  refine (serves_accept hk rfl rfl).seq fun ⟨t, ht⟩ => ?_
  refine ((serves_token rfl (by decide)).frame _).seq fun ⟨u, hu⟩ => ?_
  exact (ih u (by grind [pending_lt_left])).seq fun ⟨v, _⟩ => .pure v _

theorem serves_fieldList {t : Checker κ} (ht : t.left < s.left) :
    Serves t [.fields] t.fieldList [] := by
  rw [fieldList]
  split
  · next hk =>
    refine Serves.seq (.identList (serves_accept hk rfl rfl)) fun ⟨u, hu⟩ => ?_
    refine ((serves_token rfl (by decide)).frame _).seq fun ⟨v, hv⟩ => ?_
    exact (ih v (by grind [pending_lt_left])).seq fun ⟨w, _⟩ => .pure w _
  · next hk =>
    have hm : ∀ k, k ≠ .ident → fields.move k = .pass := by decide
    exact (Serves.pure t _).of_pursue_eq fun rest => pursue_of_pass (hm _ hk)

theorem serves_fieldLists {t : Checker κ} (ht : t.left < s.left) :
    Serves t [.fields, .moreFields] t.fieldLists [] := by
  rw [fieldLists]
  refine ((serves_fieldList ih ht).frame _).seq fun ⟨u, hu⟩ => ?_
  refine Serves.seq (serves_further [fields] (by decide) rfl rfl fun v hv => ?_)
    fun ⟨v, _⟩ => .pure v _
  exact serves_fieldList ih (Nat.lt_trans (Nat.lt_of_lt_of_le hv hu) ht)

theorem serves_recordType (hk : s.lookahead.kind = .record) :
    Serves s [.type] s.recordType [] := by
  rw [recordType]
  refine (serves_accept hk rfl rfl).seq fun ⟨t, ht⟩ => ?_
  refine ((serves_fieldLists ih (by grind [pending_lt_left])).frame [_]).seq fun ⟨u, _⟩ => ?_
  exact (serves_token rfl (by decide)).seq fun ⟨v, _⟩ => .pure v _

end Inside

/-- A token that opens a simple type is the same to both goals. -/
theorem move_type_eq : ∀ k, Expectation.type.kinds.contains k = true → k ≠ .array →
    k ≠ .record → k ≠ .set → k ≠ .pointer →
    Goal.type.move k = Goal.simpleType.move k := by decide

theorem serves_type (s : Checker κ) : Serves s [.type] s.type [] := by
  have inside : ∀ t : Checker κ, t.left < s.left → Serves t [.type] t.type [] :=
    fun t _ => serves_type t
  rw [Checker.type]
  refine serves_expectAny (by decide) (by decide) fun ⟨hk⟩ => ?_
  split
  · next h => exact serves_arrayType inside h
  · next h => exact serves_recordType inside h
  · next h => exact serves_setType h
  · next h => exact serves_pointerType inside h
  · next ha hr hs hp =>
    have hm := move_type_eq _ hk ha hr hs hp
    refine (serves_simpleType s).of_pursue_eq fun rest => pursue_congr ?_
    rw [List.singleton_append, List.singleton_append, feed, feed, hm]
termination_by s.left

/-! ## Declarations -/

theorem serves_typeDecl (hk : s.lookahead.kind = .ident) :
    Serves s [typeDecls] s.typeDecl [token .semicolon, typeDecls] := by
  rw [typeDecl]
  refine (serves_accept hk rfl rfl).seq fun ⟨t, _⟩ => ?_
  refine ((serves_token rfl (by decide)).frame _).seq fun ⟨u, _⟩ => ?_
  exact ((serves_type u).frame _).seq fun ⟨v, _⟩ => .pure v _

theorem serves_varDecl (hk : s.lookahead.kind = .ident) :
    Serves s [varDecls] s.varDecl [token .semicolon, varDecls] := by
  rw [varDecl]
  refine Serves.seq (.identList (serves_accept hk rfl rfl)) fun ⟨t, _⟩ => ?_
  refine ((serves_token rfl (by decide)).frame _).seq fun ⟨u, _⟩ => ?_
  exact ((serves_type u).frame _).seq fun ⟨v, _⟩ => .pure v _

theorem serves_listed {declare : (t : Checker κ) → Past t}
    (hm : ∀ k, (k == .ident) = false → g.move k = .pass)
    (hd : ∀ t : Checker κ, t.lookahead.kind = .ident →
      Serves t [g] (declare t) [token .semicolon, g]) :
    Serves s [g] (s.listed declare) [] := by
  refine serves_loop hm fun t ht _ => ?_
  refine (hd t (by simpa using ht)).seq fun ⟨u, _⟩ => ?_
  exact ((serves_token rfl (by decide)).frame [g]).seq fun ⟨v, _⟩ => .pure v _

theorem eq_var_of_declaration : ∀ k, Expectation.declaration.kinds.contains k = true →
    k ≠ .type → k = .var := by decide

theorem serves_declaration (hk : Expectation.declaration.kinds.contains s.lookahead.kind = true) :
    Serves s [.sections] s.declaration [.sections] := by
  rw [declaration, expectAny, dif_pos hk]
  show Serves s [.sections] (ite (s.lookahead.kind = .type) _ _) [.sections]
  split
  · next ht =>
    refine (serves_head (by rw [ht]; rfl) (.inl ht)).seq fun ⟨t, _⟩ => ?_
    refine ((serves_listed (by decide) fun _ => serves_typeDecl).frame [.sections]).seq ?_
    exact fun ⟨u, _⟩ => .pure u _
  · next ht =>
    have hv := eq_var_of_declaration _ hk ht
    refine (serves_head (by rw [hv]; rfl) (.inr hv)).seq fun ⟨t, _⟩ => ?_
    refine ((serves_listed (by decide) fun _ => serves_varDecl).frame [.sections]).seq ?_
    exact fun ⟨u, _⟩ => .pure u _

/-! ## A whole run -/

theorem serves_sections (s : Checker κ) :
    Serves s [.sections]
      (s.loop Expectation.firstDeclaration.contains fun u _ _ => u.declaration) [.sections] :=
  serves_loop_of (fun _ _ _ => rfl) fun _ hc _ => serves_declaration hc

/-- Behind the last section only the end can come. -/
theorem pursue_sections (hk : Expectation.firstDeclaration.contains s.lookahead.kind = false) :
    s.pursue [.sections] =
      match s.accept .eof with
      | .error (d, t) => (.error d, t)
      | .ok t => (.ok (), t.1) := by
  by_cases he : s.lookahead.kind = .eof
  · have hf : feed [.sections] s.lookahead.kind = .ok [] := by rw [he]; rfl
    have hn : noteSection s.cursor s.lookahead = s.cursor := by simp [noteSection, he]
    rw [pursue_eq hf, hn, accept, dif_pos he]
    rcases ha : s.cursor.nextToken with ⟨d | t, c⟩
    · rw [advance_of_error ha]
      rfl
    · obtain ⟨u, hu, hadv⟩ := advance_of_ok ha
      rw [hadv]
      show ite (s.lookahead.kind = .eof) _ _ = (Except.ok (), u.1)
      rw [if_pos he, hu]
  · have hm : ∀ k, Expectation.firstDeclaration.contains k = false → k ≠ .eof →
        Goal.sections.move k = .fail (.token .eof) := by decide
    rw [pursue_of_fail (hm _ hk he), accept, dif_neg he]

theorem accept_eof_heard {d : Diagnostic} {t : Checker κ}
    (h : s.accept .eof = .error (d, t)) : Heard d := by
  rw [accept] at h
  split at h
  · cases ha : s.advance with
    | error e =>
      rw [ha] at h
      cases h
      exact advance_heard ha
    | ok u =>
      rw [ha] at h
      cases h
  · cases h
    exact heard_fault (by decide)

theorem run_eq_pursue (s : Checker κ) : s.run = s.pursue [.sections] := by
  have hs : s.pursue [.sections] = resume [.sections] _ := (serves_sections s).pursue []
  rw [hs, run, declarations]
  cases hl : s.loop Expectation.firstDeclaration.contains fun u _ _ => u.declaration with
  | error e => rfl
  | ok t =>
    rw [resume, pursue_sections (calls_of_loop hl)]
    dsimp only [bind, Except.bind]
    cases t.1.accept .eof <;> rfl

theorem run_heard {d : Diagnostic} (h : s.run.1 = .error d) : Heard d := by
  rw [run, declarations] at h
  cases hl : s.loop Expectation.firstDeclaration.contains fun u _ _ => u.declaration with
  | error e =>
    rw [hl] at h
    cases h
    exact (serves_sections s).heard e.1 e.2 hl
  | ok t =>
    rw [hl] at h
    cases ha : t.1.accept .eof with
    | error e =>
      dsimp only [bind, Except.bind] at h
      rw [ha] at h
      cases h
      exact accept_eof_heard ha
    | ok u =>
      dsimp only [bind, Except.bind] at h
      rw [ha] at h
      cases h

end Checker
end Modula

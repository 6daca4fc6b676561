import Modula.Proofs.Diagnostic
import Modula.Proofs.Resumption

/-! # What stands before a fault

Some goals come up behind certain tokens only: a type behind a sign that announces one, a constant
inside brackets. `Expectation.heralds` lists these tokens for what is expected. The procedures that
begin with a bracket or with the word of a structured type are called at just that token, so what
they would say at another one is never said (`Heard.message_not_mem`).

* `Announced prev gs`: behind a token of the kind `prev` each goal of the stack is in its place, being
  announced by that token or by the goal for a token right above it. Every step keeps this
  (`feed_announced`), and so does a row (`Fed.announced`).
* `feed_error_heralded`: what such a stack expects is heralded by the last token.
* `diagnostic_context`: which messages a checker never gives, however often it is asked, and what
  stands before the token that a text is rejected at. -/

namespace Modula
set_option autoImplicit false

open Grammar Goal

/-! ## Heralds -/

namespace Expectation

/-- The kinds of tokens one of which stands right before what is expected; `none` if any may. -/
def heralds : Expectation → Option (List TokenKind)
  | token .ident => some [.comma, .dot, .lparen]
  | token _ | declaration => none
  | type => some [.equals, .colon, .of, .toKeyword]
  | simpleType => some [.array, .of, .comma]
  | constant => some [.lbracket, .dotdot]

/-- A token of the kind `prev` heralds what is expected; `none` stands for a token that is not
known, or for no token. -/
def Heralded (prev : Option TokenKind) (e : Expectation) : Prop :=
  ∀ ks ∈ e.heralds, ∃ k ∈ prev, k ∈ ks

instance decidableHeralded (prev : Option TokenKind) (e : Expectation) :
    Decidable (e.Heralded prev) :=
  inferInstanceAs (Decidable (∀ ks ∈ e.heralds, ∃ k ∈ prev, k ∈ ks))

theorem Heralded.of_none {e : Expectation} (h : e.Heralded none) (prev : Option TokenKind) :
    e.Heralded prev := by
  intro ks hks
  obtain ⟨k, hk, -⟩ := h ks hks
  cases hk

end Expectation

namespace Grammar

variable {g : Goal} {gs new rest : List Goal} {k : TokenKind} {v : List TokenKind}
  {prev : Option TokenKind} {e : Expectation}

/-! ## Stacks in which every goal is announced -/

/-- The kind of the token that meets a goal, if it is always one token of one kind. -/
def Goal.herald : Goal → Option TokenKind
  | token k => some k
  | _ => none

/-- Each goal can expect what it does: behind a token of the kind `prev` the topmost one, and the
others behind what the goal above them takes. -/
def Announced : Option TokenKind → List Goal → Prop
  | _, [] => True
  | prev, g :: gs => (∀ e ∈ g.expectation?, e.Heralded prev) ∧ Announced g.herald gs

instance decidableAnnounced :
    (prev : Option TokenKind) → (gs : List Goal) → Decidable (Announced prev gs)
  | _, [] => .isTrue trivial
  | prev, g :: gs =>
    @instDecidableAnd (∀ e ∈ g.expectation?, e.Heralded prev) (Announced g.herald gs)
      inferInstance (decidableAnnounced g.herald gs)

theorem Announced.of_none (h : Announced none gs) (prev : Option TokenKind) :
    Announced prev gs := by
  cases gs with
  | nil => exact trivial
  | cons g gs => exact ⟨fun e he => (h.1 e he).of_none prev, h.2⟩

theorem Announced.append (hn : Announced prev new) (hg : Announced none gs) :
    Announced prev (new ++ gs) := by
  induction new generalizing prev with
  | nil => exact hg.of_none prev
  | cons g new ih => exact ⟨hn.1, ih hn.2⟩

/-- The goals that a goal leaves in its place are announced by the token that it takes. -/
theorem announced_of_take (h : g.move k = .take new) : Announced (some k) new := by
  cases g with
  | token c =>
    by_cases hk : k = c
    · simp only [move, if_pos hk] at h
      cases h
      exact trivial
    · simp [move, hk] at h
  | _ => cases k <;> cases h <;> decide

theorem herald_of_nullable (hg : g.nullable = true) : g.herald = none := by
  cases g <;> cases hg <;> rfl

theorem feed_announced (hg : Announced prev gs) (h : feed gs k = .ok rest) :
    Announced (some k) rest := by
  induction gs generalizing prev with
  | nil => cases h
  | cons g gs ih =>
    rcases feed_cases h with ⟨new, hm, rfl⟩ | ⟨hm, hf⟩
    · have hn := announced_of_take hm
      cases g with
      | token c =>
        -- what comes behind the goal is announced by just this token
        by_cases hk : k = c
        · subst hk
          simp only [move, if_true, Move.take.injEq] at hm
          subst hm
          exact hg.2
        · simp [move, hk] at hm
      | _ => exact hn.append hg.2
    · have hb := hg.2
      rw [herald_of_nullable (nullable_of_pass hm)] at hb
      exact ih hb hf

theorem feed_error_heralded (hg : Announced prev gs) (h : feed gs k = .error e) :
    e.Heralded prev := by
  induction gs generalizing prev with
  | nil =>
    cases h
    intro ks hks
    cases hks
  | cons g gs ih =>
    cases hm : g.move k with
    | take new =>
      rw [feed_of_take hm] at h
      cases h
    | pass =>
      have hb := hg.2
      rw [feed_of_pass hm] at h
      rw [herald_of_nullable (nullable_of_pass hm)] at hb
      exact (ih hb h).of_none prev
    | fail f =>
      rw [feed_of_fail hm] at h
      cases h
      exact hg.1 e (expectation?_of_fail hm)

theorem announced_sections : Announced none [.sections] := by decide

theorem Fed.announced (h : Fed gs v rest) (hg : Announced prev gs) :
    Announced (v.getLast?.or prev) rest := by
  induction h generalizing prev with
  | nil => exact hg
  | @cons gs next rest k v hk _ ih =>
    have hl : (k :: v).getLast?.or prev = v.getLast?.or (some k) := by
      rw [List.getLast?_cons]
      cases v.getLast? <;> rfl
    rw [hl]
    exact ih (feed_announced hg hk)

end Grammar

/-! ## Messages that are never given -/

theorem Fault.head?_message (c : Char) :
    (Fault.invalidCharacter c).message.toList.head? = some 'i' := by
  have hi : "invalid character '".toList.head? = some 'i' := by decide +kernel
  change (("invalid character '" ++ c.toString) ++ "'").toList.head? = some 'i'
  rw [String.toList_append, String.toList_append, List.append_assoc, List.head?_append, hi]
  rfl

namespace Checker

variable {κ : Type} [Sink κ] {s : Checker κ}

/-- The messages of what is unheard are told apart from all others. -/
theorem Heard.message_not_mem {d : Diagnostic} (h : Heard d) :
    d.message ∉ unheard.map Expectation.message := by
  have hall : ∀ e ∈ unheard,
      e.message ≠ "unterminated comment" ∧ e.message.toList.head? ≠ some 'i' := by decide +kernel
  intro hm
  obtain ⟨e, he, hd⟩ := List.mem_map.mp hm
  obtain ⟨hu, hi⟩ := hall e he
  rw [hd, Diagnostic.message] at hu hi
  cases hf : d.fault with
  | unterminatedComment =>
    rw [hf] at hu
    exact hu rfl
  | invalidCharacter c =>
    rw [hf] at hi
    exact hi (Fault.head?_message c)
  | expected e' =>
    rw [Diagnostic.message, hf] at hd
    exact h e' hf (Expectation.message_injective hd ▸ he)

theorem result_message_not_mem {i : Nat} {d : Diagnostic} (hd : s.result i = .error d) :
    d.message ∉ unheard.map Expectation.message := (run_heard hd).message_not_mem

/-! ## What procedures would say elsewhere -/

theorem accept_stray {wanted : TokenKind} (h : s.lookahead.kind ≠ wanted) :
    s.accept wanted = .error (s.fault (.token wanted), s) := dif_neg h

/-- Called at a token that it does not begin with, a procedure finds a fault that is unheard. -/
theorem procedures_stray (s : Checker κ) :
    (s.lookahead.kind ∉ [.type, .var] → s.declaration = .error (s.fault .declaration, s)) ∧
    (s.lookahead.kind ≠ .lbracket → s.subrange = .error (s.fault (.token .lbracket), s)) ∧
    (s.lookahead.kind ≠ .lparen → s.enumeration = .error (s.fault (.token .lparen), s)) ∧
    (s.lookahead.kind ≠ .array → s.arrayType = .error (s.fault (.token .array), s)) ∧
    (s.lookahead.kind ≠ .record → s.recordType = .error (s.fault (.token .record), s)) ∧
    (s.lookahead.kind ≠ .set → s.setType = .error (s.fault (.token .set), s)) ∧
    (s.lookahead.kind ≠ .pointer → s.pointerType = .error (s.fault (.token .pointer), s)) := by
  refine ⟨fun h => ?_, fun h => ?_, fun h => ?_, fun h => ?_, fun h => ?_, fun h => ?_, fun h => ?_⟩
  · have hk : ∀ k, k ∉ [TokenKind.type, .var] → Expectation.declaration.kinds.contains k ≠ true := by
      decide
    rw [declaration, expectAny, dif_neg (hk _ h)]
    rfl
  · rw [subrange, accept_stray h]
    rfl
  · rw [enumeration, accept_stray h]
    rfl
  · rw [arrayType, accept_stray h]
    rfl
  · rw [recordType, accept_stray h]
    rfl
  · rw [setType, accept_stray h]
    rfl
  · rw [pointerType, accept_stray h]
    rfl

end Checker

/-! ## The token before the one at fault -/

theorem herald_of_rejected {cs : List Char} {d : Diagnostic} {e : Expectation}
    {ks : List TokenKind} {before : List Token} {t : Token} (h : check cs = .error d)
    (hs : d.stage = .syntactic) (hr : RejectedAt cs before t) (hm : d.message = e.message)
    (he : e.heralds = some ks) : ∃ prev, before.getLast? = some prev ∧ prev.kind ∈ ks := by
  obtain ⟨before', t', mid, e', hr', -, hf, hfail, rfl⟩ := exists_rejectedAt h hs
  obtain rfl := hr.unique hr'
  obtain rfl := Expectation.message_injective hm
  have ha := hf.announced announced_sections
  rw [Option.or_none] at ha
  obtain ⟨k, hk, hks⟩ := feed_error_heralded ha hfail ks he
  rw [kinds, List.getLast?_map] at hk
  obtain ⟨prev, hp, rfl⟩ := Option.map_eq_some_iff.mp hk
  exact ⟨prev, hp, hks⟩

/-- The context of diagnostics. A checker that is asked again and again, whatever its source, never
says that `TYPE or VAR`, an opening bracket or parenthesis, or the word of a structured type was
expected, although each of these is what one of its procedures says at another token. A text that is
rejected for its syntax is so at the first token up to which its kinds are not viable; if the message
asks for an identifier, a simple type, a type or a constant, there is a token right before that one,
and it is of a kind that announces what is asked for. -/
theorem diagnostic_context :
    (∀ {κ : Type} [Sink κ] (source : Source) (sink : κ) (journal : Journal) (s : Checker κ),
      Checker.start (Cursor.load source sink journal) = .ok s →
      ∀ i d, s.result i = .error d →
        d.message ∉ ["TYPE or VAR expected", "[ expected", "( expected", "ARRAY expected",
          "RECORD expected", "SET expected", "POINTER expected"]) ∧
    (∀ {κ : Type} [Sink κ] (s : Checker κ),
      (s.lookahead.kind ∉ [.type, .var] → s.declaration = .error (s.fault .declaration, s)) ∧
      (s.lookahead.kind ≠ .lbracket → s.subrange = .error (s.fault (.token .lbracket), s)) ∧
      (s.lookahead.kind ≠ .lparen → s.enumeration = .error (s.fault (.token .lparen), s)) ∧
      (s.lookahead.kind ≠ .array → s.arrayType = .error (s.fault (.token .array), s)) ∧
      (s.lookahead.kind ≠ .record → s.recordType = .error (s.fault (.token .record), s)) ∧
      (s.lookahead.kind ≠ .set → s.setType = .error (s.fault (.token .set), s)) ∧
      (s.lookahead.kind ≠ .pointer → s.pointerType = .error (s.fault (.token .pointer), s))) ∧
    (∀ (cs : List Char) (d : Diagnostic), check cs = .error d → d.stage = .syntactic →
      ∃ before t, RejectedAt cs before t ∧ d.position = t.position ∧
        (d.message = "identifier expected" →
          ∃ prev, before.getLast? = some prev ∧ prev.kind ∈ [.comma, .dot, .lparen]) ∧
        (d.message = "simple type expected" →
          ∃ prev, before.getLast? = some prev ∧ prev.kind ∈ [.array, .of, .comma]) ∧
        (d.message = "type expected" →
          ∃ prev, before.getLast? = some prev ∧ prev.kind ∈ [.equals, .colon, .of, .toKeyword]) ∧
        (d.message = "number or identifier expected" →
          ∃ prev, before.getLast? = some prev ∧ prev.kind ∈ [.lbracket, .dotdot])) := by
  refine ⟨fun _ _ _ _ _ _ _ => Checker.result_message_not_mem, Checker.procedures_stray,
    fun cs d h hs => ?_⟩
  obtain ⟨before, t, mid, e, hr, -, -, -, hd⟩ := exists_rejectedAt h hs
  have hi : (Expectation.token .ident).message = "identifier expected" := by decide
  refine ⟨before, t, hr, by rw [hd], fun hm => ?_, fun hm => ?_, fun hm => ?_, fun hm => ?_⟩
  · exact herald_of_rejected h hs hr (hm.trans hi.symm) rfl
  · exact herald_of_rejected (e := .simpleType) h hs hr hm rfl
  · exact herald_of_rejected (e := .type) h hs hr hm rfl
  · exact herald_of_rejected (e := .constant) h hs hr hm rfl

/-- A checker that stays in front of a bracket, and a text for each of the four messages. -/
theorem diagnostic_context_reached :
    (∃ s, Checker.start (Cursor.load (.ofString "VAR [ TYPE T = ;") Discard.discard #[]) = .ok s ∧
      s.result 0 = .error ⟨.expected (.token .eof), ⟨1, 5⟩⟩ ∧
      ∀ i d, s.result i = .error d → d.message ≠ "[ expected") ∧
    (∃ before t prev, RejectedAt "VAR a, : T;".toList before t ∧ t.position = ⟨1, 8⟩ ∧
      before.getLast? = some prev ∧ prev.kind ∈ [.comma, .dot, .lparen]) ∧
    (∃ before t prev, RejectedAt "TYPE T = ARRAY OF X;".toList before t ∧ t.position = ⟨1, 16⟩ ∧
      before.getLast? = some prev ∧ prev.kind ∈ [.array, .of, .comma]) ∧
    (∃ before t prev, RejectedAt "TYPE T = ;".toList before t ∧ t.position = ⟨1, 10⟩ ∧
      before.getLast? = some prev ∧ prev.kind ∈ [.equals, .colon, .of, .toKeyword]) ∧
    (∃ before t prev, RejectedAt "TYPE T = [1..];".toList before t ∧ t.position = ⟨1, 14⟩ ∧
      before.getLast? = some prev ∧ prev.kind ∈ [.lbracket, .dotdot]) := by
  obtain ⟨hnever, -, hcontext⟩ := diagnostic_context
  refine ⟨?_, ?_, ?_, ?_, ?_⟩
  · have hs := Checker.start_of_token
      (c := Cursor.load (.ofString "VAR [ TYPE T = ;") Discard.discard #[])
      (t := ⟨.var, "VAR", ⟨1, 1⟩⟩) (by decide +kernel)
    refine ⟨_, hs, by decide +kernel, fun i d hd hm => ?_⟩
    apply hnever _ _ _ _ hs i d hd
    rw [hm]
    decide
  · obtain ⟨before, t, hr, hp, hi, -⟩ := hcontext "VAR a, : T;".toList
      ⟨.expected (.token .ident), ⟨1, 8⟩⟩ (by decide +kernel) rfl
    obtain ⟨prev, hb, hk⟩ := hi (by decide)
    exact ⟨before, t, prev, hr, hp.symm, hb, hk⟩
  · obtain ⟨before, t, hr, hp, -, hi, -⟩ := hcontext "TYPE T = ARRAY OF X;".toList
      ⟨.expected .simpleType, ⟨1, 16⟩⟩ (by decide +kernel) rfl
    obtain ⟨prev, hb, hk⟩ := hi rfl
    exact ⟨before, t, prev, hr, hp.symm, hb, hk⟩
  · obtain ⟨before, t, hr, hp, -, -, hi, -⟩ := hcontext "TYPE T = ;".toList
      ⟨.expected .type, ⟨1, 10⟩⟩ (by decide +kernel) rfl
    obtain ⟨prev, hb, hk⟩ := hi rfl
    exact ⟨before, t, prev, hr, hp.symm, hb, hk⟩
  · obtain ⟨before, t, hr, hp, -, -, -, hi⟩ := hcontext "TYPE T = [1..];".toList
      ⟨.expected .constant, ⟨1, 14⟩⟩ (by decide +kernel) rfl
    obtain ⟨prev, hb, hk⟩ := hi rfl
    exact ⟨before, t, prev, hr, hp.symm, hb, hk⟩

end Modula

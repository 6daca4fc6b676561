import Modula.Proofs.Descent
import Modula.Proofs.Token.Tiling

/-! # What the checker finds

A run of the checker pursues goals, one token behind the scanner (`Checker.run_eq_pursue`). Along a
tiling of the text this is the same as feeding the tokens to the goals and going on behind them
(`At.proceed_tiled`), so what it finds depends on the tokens of the text and the fault behind them
alone (`check_eq_verdict`).

* `check_eq_ok_iff`: a text is accepted just in case it has tokens and their kinds are a sentence.
* `check_first_fault`: a rejected text is rejected at the first token up to which its kinds are not
  viable, and by a lexical fault only if they are viable up to that fault. -/

namespace Modula
set_option autoImplicit false

open Grammar Goal

/-! ## Feeding tokens -/

/-- Feeds tokens to goals; the first token that is not taken is at fault. -/
def feedTokens : List Goal → List Token → Except Diagnostic (List Goal)
  | gs, [] => .ok gs
  | gs, t :: ts =>
    match feed gs t.kind with
    | .error e => .error ⟨.expected e, t.position⟩
    | .ok next => feedTokens next ts

/-- What goals make of tokens with a fault, or none, behind them. -/
def verdict (gs : List Goal) (ts : List Token) (fault : Option Diagnostic) :
    Except Diagnostic Unit :=
  (feedTokens gs ts).bind fun _ =>
    match fault with
    | none => .ok ()
    | some d => .error d

def kinds (ts : List Token) : List TokenKind := ts.map Token.kind

variable {gs rest : List Goal} {ts : List Token} {d : Diagnostic}

theorem feedTokens_eq_ok_iff : feedTokens gs ts = .ok rest ↔ Fed gs (kinds ts) rest := by
  induction ts generalizing gs with
  | nil =>
    constructor
    · intro h
      cases h
      exact .nil rest
    · intro h
      cases h
      rfl
  | cons t ts ih =>
    rw [feedTokens]
    constructor
    · intro h
      cases hk : feed gs t.kind with
      | error e =>
        rw [hk] at h
        cases h
      | ok next =>
        rw [hk] at h
        exact .cons hk (ih.mp h)
    · intro h
      cases h with
      | cons hk hr =>
        rw [hk]
        exact ih.mpr hr

theorem feedTokens_error (h : feedTokens gs ts = .error d) :
    ∃ before t after mid e, ts = before ++ t :: after ∧ Fed gs (kinds before) mid ∧
      feed mid t.kind = .error e ∧ d = ⟨.expected e, t.position⟩ := by
  induction ts generalizing gs with
  | nil => cases h
  | cons t ts ih =>
    rw [feedTokens] at h
    cases hk : feed gs t.kind with
    | error e =>
      rw [hk] at h
      cases h
      exact ⟨[], t, ts, gs, e, rfl, .nil gs, hk, rfl⟩
    | ok next =>
      rw [hk] at h
      obtain ⟨before, u, after, mid, e, rfl, hf, he, hd⟩ := ih h
      exact ⟨t :: before, u, after, mid, e, rfl, .cons hk hf, he, hd⟩

theorem feedTokens_append (us : List Token) :
    feedTokens gs (ts ++ us) = (feedTokens gs ts).bind (feedTokens · us) := by
  induction ts generalizing gs with
  | nil => rfl
  | cons t ts ih =>
    rw [List.cons_append, feedTokens, feedTokens]
    cases feed gs t.kind with
    | error e => rfl
    | ok next => exact ih

/-! ## The checker along a text -/

theorem Cursor.At.noteSection {κ : Type} {c : Cursor κ} {cs : List Char} {p : Position}
    (h : c.At cs p) (t : Token) : (Checker.noteSection c t).At cs p := by
  unfold Checker.noteSection
  split
  · exact h.note _
  · exact h

variable {κ : Type} [Sink κ]

/-- Reads the next token and pursues goals from there. -/
def Cursor.proceed (gs : List Goal) (c : Cursor κ) : Except Diagnostic Unit :=
  match c.nextToken with
  | (.error d, _) => .error d
  | (.ok t, c) => (Checker.pursue gs ⟨c, t, 0⟩).1

theorem Cursor.check_eq_proceed (c : Cursor κ) : c.check.1 = c.proceed [.sections] := by
  unfold check Checker.start proceed
  rcases c.nextToken with ⟨_ | t, c⟩
  · rfl
  · dsimp only
    rw [Checker.run_eq_pursue, Checker.pursue_counted]

namespace Checker

variable {s : Checker κ} {next : List Goal}

theorem pursue_of_error {e : Expectation} (h : feed gs s.lookahead.kind = .error e) :
    (s.pursue gs).1 = .error (s.fault e) := by
  rw [pursue, h]

theorem pursue_of_ok (h : feed gs s.lookahead.kind = .ok next) (hk : s.lookahead.kind ≠ .eof) :
    (s.pursue gs).1 = (noteSection s.cursor s.lookahead).proceed next := by
  rw [pursue_eq h, Cursor.proceed]
  rcases (noteSection s.cursor s.lookahead).nextToken with ⟨d | t, c⟩
  · rfl
  · dsimp only
    rw [if_neg hk, pursue_counted]

theorem pursue_of_eof (h : feed gs s.lookahead.kind = .ok next) (hk : s.lookahead.kind = .eof)
    {p : Position} (hc : s.cursor.At [] p) : (s.pursue gs).1 = .ok () := by
  rw [pursue, h]
  dsimp only
  split
  · next hn =>
    rw [(hc.noteSection s.lookahead).nextToken_nil] at hn
    cases hn
  · rw [if_pos hk]

end Checker

namespace Cursor

variable {c : Cursor κ} {p : Position} {pre rest : List Char}

theorem At.proceed_tiled (ht : Tiled p pre ts rest) (h : c.At (pre ++ rest) p) :
    ∃ d : Cursor κ, d.At rest (p.after pre) ∧
      ∀ gs, c.proceed gs = (feedTokens gs ts).bind (d.proceed ·) := by
  induction ht generalizing c with
  | gap hg =>
    obtain ⟨d, hd, hn⟩ := h.nextToken_gap hg
    refine ⟨d, hd, fun gs => ?_⟩
    rw [proceed, hn]
    rfl
  | @lexeme p g l pre rest k ts hg hk hm _ ih =>
    rw [List.append_assoc] at h
    obtain ⟨e, he, ha⟩ := h.nextToken_gap_lexeme hg hk hm
    -- the token is noted before the next one is read, which leaves the cursor where it is
    obtain ⟨f, hf, hr⟩ := ih (ha.noteSection ⟨k, String.ofList l, p.after g⟩)
    refine ⟨f, by simpa using hf, fun gs => ?_⟩
    rw [proceed, he, feedTokens]
    dsimp only
    cases hg : feed gs k with
    | error e => exact Checker.pursue_of_error hg
    | ok next =>
      rw [Checker.pursue_of_ok hg (ofLexeme?_ne hk).1]
      exact hr next

theorem At.proceed_nil (h : c.At [] p) :
    c.proceed gs = (feedTokens gs [⟨.eof, "", p⟩]).bind fun _ => .ok () := by
  rw [proceed, h.nextToken_nil, feedTokens]
  dsimp only
  cases hg : feed gs .eof with
  | error e => exact Checker.pursue_of_error hg
  | ok next => exact Checker.pursue_of_eof hg rfl h

theorem At.proceed_fails {fault : Fault} (hf : Fails rest fault) (h : c.At rest p) :
    c.proceed gs = .error ⟨fault, p⟩ := by
  obtain ⟨d, hd⟩ := h.nextToken_fails hf
  rw [proceed, hd]

theorem At.proceed_reads {u : List Char} {fault : Option Diagnostic} (h : c.At u p)
    (hr : Reads p u ts fault) : c.proceed gs = verdict gs ts fault := by
  cases hr with
  | whole ht =>
    obtain ⟨d, hd, he⟩ := At.proceed_tiled ht (by simpa using h)
    rw [he, verdict, feedTokens_append]
    cases feedTokens gs _ with
    | error d => rfl
    | ok next => exact hd.proceed_nil
  | faulty hu ht hf =>
    subst hu
    obtain ⟨d, hd, he⟩ := h.proceed_tiled ht
    rw [he, verdict]
    cases feedTokens gs ts with
    | error d => rfl
    | ok next => exact hd.proceed_fails hf

end Cursor

theorem check_eq_verdict (cs : List Char) :
    check cs = verdict [.sections] (tokenStream cs).1 (tokenStream cs).2 := by
  have ha := Cursor.load_at (.ofChars cs) Discard.discard #[]
  rw [Source.text_ofChars] at ha
  have hr := reads_tokenStream cs
  rw [check, Cursor.check_eq_proceed]
  exact ha.proceed_reads hr

/-! ## Acceptance -/

theorem verdict_eq_ok_iff {fault : Option Diagnostic} :
    verdict [.sections] ts fault = .ok () ↔ fault = none ∧ Viable (kinds ts) := by
  rw [viable_iff_fed]
  simp only [← feedTokens_eq_ok_iff, verdict]
  cases feedTokens [.sections] ts with
  | error d => simp [Except.bind]
  | ok rest => cases fault <;> simp [Except.bind]

theorem kinds_of_tokenize {cs : List Char} (h : tokenize cs = .ok ts) :
    ∃ v, kinds ts = v ++ [.eof] := by
  have hr := tokenStream_eq_iff.mp (tokenize_eq_ok_iff.mp h)
  cases hr with
  | @whole ls _ => exact ⟨kinds ls, by simp [kinds]⟩

/-- A text is accepted just in case it consists of tokens and their kinds are a sentence. -/
theorem check_eq_ok_iff (cs : List Char) :
    check cs = .ok () ↔ ∃ ts, tokenize cs = .ok ts ∧ Sentence (kinds ts) := by
  rw [check_eq_verdict, verdict_eq_ok_iff]
  constructor
  · intro h
    obtain ⟨hn, hv⟩ := h
    have ht : tokenize cs = .ok (tokenStream cs).1 :=
      tokenize_eq_ok_iff.mpr (Prod.ext rfl hn)
    obtain ⟨v, he⟩ := kinds_of_tokenize ht
    refine ⟨_, ht, ?_⟩
    rw [he] at hv ⊢
    exact viable_append_eof.mp hv
  · intro h
    obtain ⟨ts, ht, hs⟩ := h
    obtain ⟨v, he⟩ := kinds_of_tokenize ht
    rw [tokenize_eq_ok_iff.mp ht]
    rw [he] at hs
    refine ⟨rfl, ?_⟩
    rw [he]
    exact viable_append_eof.mpr hs

/-! ## Rejection -/

theorem viable_take {m n : Nat} (h : Viable (kinds (ts.take m))) (hn : n ≤ m) :
    Viable (kinds (ts.take n)) := by
  have he := List.take_append_drop n (ts.take m)
  rw [List.take_take, Nat.min_eq_left hn] at he
  rw [← he, kinds, List.map_append] at h
  exact h.of_append

/-- Goals find fault with the first token that makes the kinds before it a row of no sentence, and
pass on the fault behind the tokens if there is no such token. -/
theorem verdict_error {fault : Option Diagnostic}
    (h : verdict [.sections] ts fault = .error d) :
    (∃ (k : Nat) (t : Token) (e : Expectation), ts[k]? = some t ∧ Viable (kinds (ts.take k)) ∧
      ¬ Viable (kinds (ts.take (k + 1))) ∧ d = ⟨.expected e, t.position⟩) ∨
    (Viable (kinds ts) ∧ fault = some d) := by
  cases hf : feedTokens [.sections] ts with
  | error d' =>
    unfold verdict at h
    rw [hf] at h
    cases h
    obtain ⟨before, t, after, mid, e, rfl, hb, he, hd⟩ := feedTokens_error hf
    refine Or.inl ⟨before.length, t, e, by simp, ?_, ?_, hd⟩
    · rw [List.take_left]
      exact viable_iff_fed.mpr ⟨mid, hb⟩
    · have ht : (before ++ t :: after).take (before.length + 1) = before ++ [t] :=
        List.take_length_add_append 1
      rw [ht, kinds, List.map_append]
      intro hv
      obtain ⟨next, hn⟩ := hb.viable_snoc_iff.mp hv
      rw [he] at hn
      cases hn
  | ok rest =>
    unfold verdict at h
    rw [hf] at h
    refine Or.inr ⟨viable_iff_fed.mpr ⟨rest, feedTokens_eq_ok_iff.mp hf⟩, ?_⟩
    cases fault with
    | none => cases h
    | some d' =>
      cases h
      rfl

/-- The place of the first fault. With `t₀, t₁, …` the tokens of a rejected text up to its end or
its first lexical fault: if `k` is the least index such that no sentence starts with the kinds of
`t₀, …, tₖ`, the text is rejected for its syntax at `tₖ`; if there is none, it is rejected by the
lexical fault behind the tokens. -/
theorem check_first_fault {cs : List Char} {d : Diagnostic} (h : check cs = .error d) :
    (∀ (k : Nat) (t : Token), (tokenStream cs).1[k]? = some t →
      ¬ Viable (kinds ((tokenStream cs).1.take (k + 1))) →
      (∀ j < k, Viable (kinds ((tokenStream cs).1.take (j + 1)))) →
      d.stage = .syntactic ∧ d.position = t.position) ∧
    ((∀ k < (tokenStream cs).1.length, Viable (kinds ((tokenStream cs).1.take (k + 1)))) →
      (tokenStream cs).2 = some d) := by
  rw [check_eq_verdict] at h
  rcases verdict_error h with ⟨m, u, e, hu, hm, hn, rfl⟩ | ⟨hv, hf⟩
  · refine ⟨fun k t ht hk hj => ?_, fun hall => ?_⟩
    · -- the prefix up to `m` is viable and the one behind it is not, so `m` is the least index
      have hkm : k = m := by
        by_contra hne
        rcases Nat.lt_or_gt_of_ne hne with hlt | hgt
        · exact hk (viable_take hm hlt)
        · exact hn (hj m hgt)
      subst hkm
      rw [ht] at hu
      cases hu
      exact ⟨rfl, rfl⟩
    · obtain ⟨hlt, _⟩ := List.getElem?_eq_some_iff.mp hu
      exact absurd (hall m hlt) hn
  · refine ⟨fun k t ht hk hj => ?_, fun _ => hf⟩
    have hall : Viable (kinds ((tokenStream cs).1.take (tokenStream cs).1.length)) := by
      rwa [List.take_length]
    obtain ⟨hlt, _⟩ := List.getElem?_eq_some_iff.mp ht
    exact absurd (viable_take hall hlt) hk

theorem check_first_fault_at_token_and_behind :
    (∃ d, check "VAR x y; #".toList = .error d ∧ d.stage = .syntactic ∧ d.position = ⟨1, 7⟩) ∧
      ∃ d, check "VAR x #".toList = .error d ∧ (tokenStream "VAR x #".toList).2 = some d := by
  have hs : (tokenStream "VAR x y; #".toList).1[2]? = some ⟨.ident, "y", ⟨1, 7⟩⟩ := by
    decide +kernel
  refine ⟨⟨⟨.expected (.token .colon), ⟨1, 7⟩⟩, by decide +kernel, ?_⟩,
    ⟨⟨.invalidCharacter '#', ⟨1, 7⟩⟩, by decide +kernel, ?_⟩⟩
  · exact (check_first_fault (by decide +kernel)).1 2 _ hs (by decide +kernel) (by decide +kernel)
  · exact (check_first_fault (by decide +kernel)).2 (by decide +kernel)

end Modula

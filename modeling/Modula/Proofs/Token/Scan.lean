import Modula.Proofs.Token.Lexeme

/-! # What the scanner reads

The scanner followed on the text at its cursor. Each of its loops moves over the part of the text
that it is meant for (`At.skipComment_closed`, `At.takeRun`), a gap in front changes nothing
(`At.nextToken_gap`), and behind it the next token is the lexeme that stands there
(`At.nextToken_lexeme`), the end (`At.nextToken_nil`) or a fault (`At.nextToken_fails`). -/

namespace Modula.Cursor
set_option autoImplicit false

variable {κ : Type} {c : Cursor κ} {ch : Char} {cs g l rest : List Char} {p : Position}
  {k : TokenKind}

theorem At.emit (h : c.At cs p) (t : Token) : ∃ d, emit t c = (.ok t, d) ∧ d.At cs p :=
  ⟨_, rfl, h.note _⟩

variable [Sink κ]

/-! ## Loops -/

theorem skipBlanks_of_isBlank (h : c.current = some ch) (hb : isBlank ch = true) :
    c.skipBlanks = c.advance.skipBlanks := by
  rw [skipBlanks]
  split
  · next hn => rw [h] at hn; cases hn
  · next ch' hs =>
    rw [h] at hs
    cases hs
    rw [if_pos hb]

theorem skipBlanks_eq_self (h : ∀ ch ∈ c.current, isBlank ch = false) : c.skipBlanks = c := by
  rw [skipBlanks]
  split
  · rfl
  · next ch hs =>
    rw [h ch hs]
    rfl

theorem skipComment_of_none (h : c.current = none) : c.skipComment = (false, c) := by
  rw [skipComment]
  split
  · rfl
  · next ch hs => rw [h] at hs; cases hs

theorem skipComment_of_some (h : c.current = some ch) :
    c.skipComment = if ch = '*' ∧ c.advance.current = some ')' then (true, c.advance.advance)
      else c.advance.skipComment := by
  rw [skipComment]
  split
  · next hn => rw [h] at hn; cases hn
  · next ch' hs =>
    rw [h] at hs
    cases hs
    rfl

theorem At.skipComment_open (h : c.At cs p) (hb : CommentBody cs) :
    ∃ d, c.skipComment = (false, d) ∧ d.At [] (p.after cs) := by
  induction cs generalizing c p with
  | nil => exact ⟨c, skipComment_of_none h.current_nil, h⟩
  | cons ch cs ih =>
    rw [CommentBody, List.infix_cons_iff, not_or] at hb
    obtain ⟨d, hd, ha⟩ := ih h.advance hb.2
    refine ⟨d, ?_, ha⟩
    rw [skipComment_of_some h.current_cons, if_neg, hd]
    intro hx
    obtain ⟨rfl, hn⟩ := hx
    rw [h.advance.current] at hn
    obtain ⟨ds, rfl⟩ := List.head?_eq_some_iff.mp hn
    exact hb.1 ⟨ds, rfl⟩

theorem At.skipComment_closed {body : List Char} (hb : CommentBody body)
    (h : c.At (body ++ '*' :: ')' :: rest) p) :
    ∃ d, c.skipComment = (true, d) ∧ d.At rest (p.after (body ++ ['*', ')'])) := by
  induction body generalizing c p with
  | nil =>
    refine ⟨c.advance.advance, ?_, h.advance.advance⟩
    rw [skipComment_of_some h.current_cons, if_pos ⟨rfl, h.advance.current_cons⟩]
  | cons ch body ih =>
    rw [CommentBody, List.infix_cons_iff, not_or] at hb
    obtain ⟨d, hd, ha⟩ := ih hb.2 h.advance
    refine ⟨d, ?_, ha⟩
    rw [skipComment_of_some h.current_cons, if_neg, hd]
    intro hx
    obtain ⟨rfl, hn⟩ := hx
    rw [h.advance.current] at hn
    -- the bracket could only be the second character of the body
    cases body with
    | nil => cases hn
    | cons ch body =>
      cases hn
      exact hb.1 ⟨body, rfl⟩

theorem takeRun_of_stop {q : Char → Bool} (taken : String)
    (h : ∀ ch ∈ c.current, q ch = false) : c.takeRun q taken = (taken, c) := by
  rw [takeRun]
  split
  · rfl
  · next ch hs =>
    rw [h ch hs]
    rfl

theorem takeRun_of_some {q : Char → Bool} (taken : String) (h : c.current = some ch)
    (hq : q ch = true) : c.takeRun q taken = c.advance.takeRun q (taken.push ch) := by
  rw [takeRun]
  split
  · next hn => rw [h] at hn; cases hn
  · next ch' hs =>
    rw [h] at hs
    cases hs
    rw [if_pos hq]

theorem At.takeRun {q : Char → Bool} (taken : String) (hl : ∀ ch ∈ l, q ch = true)
    (hr : ∀ ch ∈ rest.head?, q ch = false) (h : c.At (l ++ rest) p) :
    ∃ d, c.takeRun q taken = (taken ++ String.ofList l, d) ∧ d.At rest (p.after l) := by
  induction l generalizing c p taken with
  | nil =>
    refine ⟨c, ?_, h⟩
    rw [takeRun_of_stop taken (by rw [h.current]; exact hr)]
    simp
  | cons ch l ih =>
    obtain ⟨d, hd, ha⟩ := ih (taken.push ch) (fun x hx => hl x (List.mem_cons_of_mem ch hx)) h.advance
    refine ⟨d, ?_, ha⟩
    rw [takeRun_of_some taken h.current_cons (hl ch List.mem_cons_self), hd]
    congr 1
    apply String.toList_injective
    simp

/-! ## Cases of one token -/

theorem nextToken_of_isBlank (h : c.current = some ch) (hb : isBlank ch = true) :
    c.nextToken = c.advance.nextToken := by
  rw [nextToken, nextToken, skipBlanks_of_isBlank h hb]

theorem nextToken_of_none (h : c.current = none) :
    c.nextToken = (.ok ⟨.eof, "", c.position⟩, c) := by
  have hs : c.skipBlanks = c := skipBlanks_eq_self (by simp [h])
  rw [nextToken]
  dsimp only
  split
  · rw [hs]
  · next ch hc => rw [hs, h] at hc; cases hc

theorem nextToken_of_some (h : c.current = some ch) (hb : isBlank ch = false) :
    c.nextToken =
      if ch = '(' then
        if c.advance.current = some '*' then
          match (c.advance.advance.note (.comment c.position)).skipComment with
          | (true, d) => d.nextToken
          | (false, d) => (.error ⟨.unterminatedComment, c.position⟩, d)
        else emit ⟨.lparen, "(", c.position⟩ c.advance
      else c.scan ch := by
  have hs : c.skipBlanks = c := skipBlanks_eq_self (by simp [h, hb])
  rw [nextToken]
  dsimp only
  split
  · next hn => rw [hs, h] at hn; cases hn
  · next ch' hc =>
    rw [hs, h] at hc
    cases hc
    rw [hs]
    congr 2
    split <;> next hf => rw [hf]

theorem nextToken_of_paren (h : c.current = some '(') (hn : c.advance.current ≠ some '*') :
    c.nextToken = emit ⟨.lparen, "(", c.position⟩ c.advance := by
  rw [nextToken_of_some h (by decide), if_pos rfl, if_neg hn]

theorem nextToken_of_scan (h : c.current = some ch) (hb : isBlank ch = false) (hp : ch ≠ '(') :
    c.nextToken = c.scan ch := by
  rw [nextToken_of_some h hb, if_neg hp]

/-! ## Gaps -/

theorem At.nextToken_comment {body : List Char} (hb : CommentBody body)
    (h : c.At ('(' :: '*' :: (body ++ '*' :: ')' :: cs)) p) :
    ∃ d : Cursor κ, d.At cs (p.after ('(' :: '*' :: (body ++ ['*', ')']))) ∧ c.nextToken = d.nextToken := by
  obtain ⟨d, hd, ha⟩ := (h.advance.advance.note (.comment c.position)).skipComment_closed hb
  refine ⟨d, ha, ?_⟩
  rw [nextToken_of_some h.current_cons (by decide), if_pos rfl, if_pos h.advance.current_cons, hd]

theorem At.nextToken_gap (hg : Gap g) (h : c.At (g ++ cs) p) :
    ∃ d : Cursor κ, d.At cs (p.after g) ∧ c.nextToken = d.nextToken := by
  induction hg generalizing c p with
  | nil => exact ⟨c, h, rfl⟩
  | blank hb _ ih =>
    obtain ⟨d, hd, he⟩ := ih h.advance
    exact ⟨d, hd, (nextToken_of_isBlank h.current_cons hb).trans he⟩
  | comment hb _ ih =>
    rw [List.cons_append, List.cons_append, List.append_assoc] at h
    obtain ⟨d, hd, he⟩ := h.nextToken_comment hb
    obtain ⟨e, ha, hn⟩ := ih hd
    refine ⟨e, ?_, he.trans hn⟩
    simpa using ha

/-! ## What stands behind a gap -/

theorem At.nextToken_nil (h : c.At [] p) : c.nextToken = (.ok ⟨.eof, "", p⟩, c) := by
  rw [nextToken_of_none h.current_nil, h.position]

theorem At.nextToken_word (hl : isWord l = true)
    (hr : ∀ ch ∈ rest.head?, Text.isAlphanumeric ch = false) (h : c.At (l ++ rest) p) :
    ∃ d, c.nextToken = (.ok (.ofWord (String.ofList l) p), d) ∧ d.At rest (p.after l) := by
  cases l with
  | nil => cases hl
  | cons ch l =>
    have hc : Text.isAlphabetic ch = true := (Bool.and_eq_true_iff.mp hl).1
    have hall := isAlphanumeric_of_isWord hl
    have hn : Text.isAlphanumeric ch = true := hall ch List.mem_cons_self
    have hp : ch ≠ '(' := by
      rintro rfl
      exact absurd hc (by decide)
    obtain ⟨d, hd, ha⟩ := h.takeRun "" hall hr
    rw [nextToken_of_scan h.current_cons (isBlank_of_isAlphanumeric hn) hp, scan, if_pos hc, hd,
      h.position, String.empty_append]
    exact ha.emit _

theorem At.nextToken_number (hl : isNumber l = true) (hr : ∀ ch ∈ rest.head?, ch.isDigit = false)
    (h : c.At (l ++ rest) p) :
    ∃ d, c.nextToken = (.ok ⟨.number, String.ofList l, p⟩, d) ∧ d.At rest (p.after l) := by
  cases l with
  | nil => cases hl
  | cons ch l =>
    have hall := isDigit_of_isNumber hl
    have hc : ch.isDigit = true := hall ch List.mem_cons_self
    have hp : ch ≠ '(' := by
      rintro rfl
      exact absurd hc (by decide)
    obtain ⟨d, hd, ha⟩ := h.takeRun "" hall hr
    rw [nextToken_of_scan h.current_cons
      (isBlank_of_isAlphanumeric (isAlphanumeric_of_isDigit hc)) hp, scan,
      isAlphabetic_of_isDigit hc, if_neg Bool.false_ne_true, if_pos hc, hd, h.position,
      String.empty_append]
    exact ha.emit _

theorem scan_dot : c.scan '.' =
    if c.advance.current = some '.' then emit ⟨.dotdot, "..", c.position⟩ c.advance.advance
    else emit ⟨.dot, ".", c.position⟩ c.advance := by
  have ha : Text.isAlphabetic '.' = false := by decide
  have hd : '.'.isDigit = false := by decide
  simp only [scan, ha, hd, Bool.false_eq_true, if_false, if_true]

theorem scan_of_mark (hm : TokenKind.mark? ch = some k) :
    c.scan ch = emit ⟨k, ch.toString, c.position⟩ c.advance := by
  have hs : Text.isAlphabetic ch = false ∧ ch.isDigit = false ∧ ch ≠ '.' := by
    unfold TokenKind.mark? at hm
    split at hm <;> cases hm <;> decide
  simp only [scan, hs, hm, Bool.false_eq_true, if_false]

theorem At.nextToken_punctuation (hl : TokenKind.punctuation? l = some k) (hm : Maximal l rest)
    (h : c.At (l ++ rest) p) :
    ∃ d, c.nextToken = (.ok ⟨k, String.ofList l, p⟩, d) ∧ d.At rest (p.after l) := by
  rcases punctuation?_cases hl with ⟨rfl, rfl⟩ | ⟨rfl, rfl⟩ | ⟨rfl, rfl⟩ | ⟨ch, rfl, hk⟩
  · have hn : c.advance.current ≠ some '.' := by
      rw [h.advance.current]
      exact hm.dot rfl
    rw [nextToken_of_scan h.current_cons (by decide) (by decide), scan_dot, if_neg hn, h.position]
    exact h.advance.emit _
  · rw [nextToken_of_scan h.current_cons (by decide) (by decide), scan_dot,
      if_pos h.advance.current_cons, h.position]
    exact h.advance.advance.emit _
  · have hn : c.advance.current ≠ some '*' := by
      rw [h.advance.current]
      exact hm.paren rfl
    rw [nextToken_of_paren h.current_cons hn, h.position]
    exact h.advance.emit _
  · have hs : isBlank ch = false ∧ ch ≠ '(' := by
      unfold TokenKind.mark? at hk
      split at hk <;> cases hk <;> decide
    rw [nextToken_of_scan h.current_cons hs.1 hs.2, scan_of_mark hk, h.position,
      Char.toString_eq_singleton, String.singleton_eq_ofList]
    exact h.advance.emit _

theorem At.nextToken_lexeme (hk : TokenKind.ofLexeme? (String.ofList l) = some k)
    (hm : Maximal l rest) (h : c.At (l ++ rest) p) :
    ∃ d, c.nextToken = (.ok ⟨k, String.ofList l, p⟩, d) ∧ d.At rest (p.after l) := by
  rcases ofLexeme?_cases hk with ⟨hl, rfl⟩ | ⟨hl, rfl⟩ | hl
  · exact h.nextToken_word hl (hm.word hl)
  · exact h.nextToken_number hl (hm.number hl)
  · exact h.nextToken_punctuation hl hm

theorem At.nextToken_gap_lexeme (hg : Gap g) (hk : TokenKind.ofLexeme? (String.ofList l) = some k)
    (hm : Maximal l rest) (h : c.At (g ++ l ++ rest) p) :
    ∃ d, c.nextToken = (.ok ⟨k, String.ofList l, p.after g⟩, d) ∧ d.At rest (p.after (g ++ l)) := by
  rw [List.append_assoc] at h
  obtain ⟨d, hd, hn⟩ := h.nextToken_gap hg
  obtain ⟨e, he, ha⟩ := hd.nextToken_lexeme hk hm
  rw [← Position.after_append] at ha
  exact ⟨e, hn.trans he, ha⟩

theorem scan_of_foreign (hf : Foreign ch) :
    c.scan ch = (.error ⟨.invalidCharacter ch, c.position⟩, c) := by
  obtain ⟨-, ha, hd, hn⟩ := hf
  have hm : TokenKind.mark? ch = none := by
    unfold TokenKind.mark?
    split
    case h_9 => rfl
    all_goals exact absurd (by decide) hn
  have hp : ch ≠ '.' := by
    rintro rfl
    exact hn (by decide)
  simp only [scan, ha, hd, hm, hp, Bool.false_eq_true, if_false]

theorem At.nextToken_foreign (hf : Foreign ch) (h : c.At (ch :: cs) p) :
    c.nextToken = (.error ⟨.invalidCharacter ch, p⟩, c) := by
  have hb : isBlank ch = false := decide_eq_false (Char.not_le.mpr hf.1)
  have hp : ch ≠ '(' := by
    rintro rfl
    exact hf.2.2.2 (by decide)
  rw [nextToken_of_scan h.current_cons hb hp, scan_of_foreign hf, h.position]

theorem At.nextToken_unclosed (hb : CommentBody cs) (h : c.At ('(' :: '*' :: cs) p) :
    ∃ d, c.nextToken = (.error ⟨.unterminatedComment, p⟩, d) ∧
      d.At [] (p.after ('(' :: '*' :: cs)) := by
  obtain ⟨d, hd, ha⟩ := (h.advance.advance.note (.comment c.position)).skipComment_open hb
  refine ⟨d, ?_, ha⟩
  rw [nextToken_of_some h.current_cons (by decide), if_pos rfl, if_pos h.advance.current_cons,
    hd, h.position]

theorem At.nextToken_fails {fault : Fault} (hf : Fails cs fault) (h : c.At cs p) :
    ∃ d, c.nextToken = (.error ⟨fault, p⟩, d) := by
  cases hf with
  | foreign hf => exact ⟨c, h.nextToken_foreign hf⟩
  | unclosed hb =>
    obtain ⟨d, hd, _⟩ := h.nextToken_unclosed hb
    exact ⟨d, hd⟩

end Modula.Cursor

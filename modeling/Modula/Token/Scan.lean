import Modula.Cursor
import Modula.Text.Numeric

/-! # Reading tokens

Tokens are separated by blanks and comments. A blank is any character up to the space; a comment
runs from an opening parenthesis with a star to the first star with a closing parenthesis, so
comments do not nest. A word is a letter and the letters and numbers after it, a number is a run
of ASCII digits, and everything else is punctuation of one or two characters. Each token is the
longest there is, and is known as soon as the one character behind it has been seen. -/

set_option autoImplicit false

namespace Modula

/-- A character that only separates tokens. -/
def isBlank (c : Char) : Bool := c ≤ ' '

namespace Cursor

variable {κ : Type}

/-! ## Answers -/

/-- A token with the cursor behind it, noted in the journal. -/
def emit (t : Token) (c : Cursor κ) : Except Diagnostic Token × Cursor κ :=
  (.ok t, c.note (.scanned t))

/-- How much of `pending` an answer has to have used up: a token that is not the end has at least
one character. -/
def used : Except Diagnostic Token → Nat
  | .ok t => if t.kind = .eof then 0 else 1
  | .error _ => 0

theorem used_le_one (r : Except Diagnostic Token) : used r ≤ 1 := by
  unfold used
  split
  · split <;> omega
  · omega

theorem emit_pending_lt {t : Token} {c d : Cursor κ} (h : c.pending < d.pending) :
    (emit t c).2.pending + used (emit t c).1 ≤ d.pending := by
  have := used_le_one (emit t c).1
  have : (emit t c).2.pending = c.pending := rfl
  omega

/-! ## Between tokens -/

variable [Sink κ]

/-- Moves to the first character that is no blank. -/
def skipBlanks (c : Cursor κ) : Cursor κ :=
  match _h : c.current with
  | none => c
  | some ch => if isBlank ch then c.advance.skipBlanks else c
termination_by c.pending
decreasing_by exact advance_pending_lt _h

/-- Moves past the end of a comment; `false` if the text ends before it. -/
def skipComment (c : Cursor κ) : Bool × Cursor κ :=
  match _h : c.current with
  | none => (false, c)
  | some ch =>
    let d := c.advance
    if ch = '*' ∧ d.current = some ')' then (true, d.advance) else d.skipComment
termination_by c.pending
decreasing_by exact advance_pending_lt _h

/-- Moves past the characters that `p` holds of and adds them to `taken`. -/
def takeRun (p : Char → Bool) (taken : String) (c : Cursor κ) : String × Cursor κ :=
  match _h : c.current with
  | none => (taken, c)
  | some ch => if p ch then c.advance.takeRun p (taken.push ch) else (taken, c)
termination_by c.pending
decreasing_by exact advance_pending_lt _h

theorem skipBlanks_pending_le (c : Cursor κ) : c.skipBlanks.pending ≤ c.pending := by
  fun_induction skipBlanks c with
  | case1 => exact Nat.le_refl _
  | case2 c ch _ _ ih => exact Nat.le_trans ih (advance_pending_le c)
  | case3 => exact Nat.le_refl _

theorem skipComment_pending_le (c : Cursor κ) : c.skipComment.2.pending ≤ c.pending := by
  fun_induction skipComment c with
  | case1 => exact Nat.le_refl _
  | case2 c ch _ d _ => exact Nat.le_trans (advance_pending_le d) (advance_pending_le c)
  | case3 c ch _ d _ ih => exact Nat.le_trans ih (advance_pending_le c)

theorem takeRun_pending_le (p : Char → Bool) (taken : String) (c : Cursor κ) :
    (c.takeRun p taken).2.pending ≤ c.pending := by
  fun_induction takeRun p taken c with
  | case1 => exact Nat.le_refl _
  | case2 _ c ch _ _ ih => exact Nat.le_trans ih (advance_pending_le c)
  | case3 => exact Nat.le_refl _

theorem takeRun_pending_lt {p : Char → Bool} {taken : String} {c : Cursor κ} {ch : Char}
    (h : c.current = some ch) (hp : p ch = true) :
    (c.takeRun p taken).2.pending < c.pending := by
  rw [takeRun]
  split
  · next hn => rw [h] at hn; cases hn
  · next ch' hs =>
    have : ch' = ch := Option.some.inj (hs.symm.trans h)
    rw [this, if_pos hp]
    exact Nat.lt_of_le_of_lt (takeRun_pending_le p _ _) (advance_pending_lt h)

/-! ## One token -/

/-- The token at a character that is no blank, no opening parenthesis and not the end. -/
def scan (ch : Char) (c : Cursor κ) : Except Diagnostic Token × Cursor κ :=
  let p := c.position
  if Text.isAlphabetic ch then
    let (word, c) := c.takeRun Text.isAlphanumeric ""
    emit (.ofWord word p) c
  else if ch.isDigit then
    let (digits, c) := c.takeRun Char.isDigit ""
    emit ⟨.number, digits, p⟩ c
  else if ch = '.' then
    let c := c.advance
    if c.current = some '.' then emit ⟨.dotdot, "..", p⟩ c.advance
    else emit ⟨.dot, ".", p⟩ c
  else match TokenKind.mark? ch with
    | some kind => emit ⟨kind, ch.toString, p⟩ c.advance
    | none => (.error ⟨.invalidCharacter ch, p⟩, c)

theorem scan_pending {ch : Char} {c : Cursor κ} (h : c.current = some ch) :
    (c.scan ch).2.pending + used (c.scan ch).1 ≤ c.pending := by
  have ha := advance_pending_lt h
  unfold scan
  split
  · next hw =>
    exact emit_pending_lt (takeRun_pending_lt h (Text.isAlphanumeric_of_isAlphabetic hw))
  · split
    · next hd => exact emit_pending_lt (takeRun_pending_lt h hd)
    · split
      · dsimp only
        split
        · exact emit_pending_lt (Nat.lt_of_le_of_lt (advance_pending_le _) ha)
        · exact emit_pending_lt ha
      · split
        · exact emit_pending_lt ha
        · exact Nat.le_refl _

theorem comment_pending_lt {d f : Cursor κ} {ch : Char} {event : Event} {closed : Bool}
    (h : d.current = some ch)
    (hs : (d.advance.advance.note event).skipComment = (closed, f)) : f.pending < d.pending := by
  have h1 := skipComment_pending_le (d.advance.advance.note event)
  rw [hs, note_pending] at h1
  have h2 := advance_pending_le d.advance
  have h3 := advance_pending_lt h
  exact Nat.lt_of_le_of_lt (Nat.le_trans h1 h2) h3

/-- The next token, or the fault in its place. At the end of the text this is the end again and
again; at a character that starts no token it is that fault again and again. -/
def nextToken (c : Cursor κ) : Except Diagnostic Token × Cursor κ :=
  let d := c.skipBlanks
  match _h : d.current with
  | none => (.ok ⟨.eof, "", d.position⟩, d)
  | some ch =>
    if ch = '(' then
      let e := d.advance
      if e.current = some '*' then
        match _hs : (e.advance.note (.comment d.position)).skipComment with
        | (true, f) => f.nextToken
        | (false, f) => (.error ⟨.unterminatedComment, d.position⟩, f)
      else emit ⟨.lparen, "(", d.position⟩ e
    else d.scan ch
termination_by c.pending
decreasing_by
  have h1 : d.pending ≤ c.pending := skipBlanks_pending_le c
  have h2 : f.pending < d.pending := comment_pending_lt _h _hs
  omega

theorem nextToken_pending (c : Cursor κ) :
    c.nextToken.2.pending + used c.nextToken.1 ≤ c.pending := by
  fun_induction nextToken c with
  | case1 c d h => exact skipBlanks_pending_le c
  | case2 c d e he f hs h ih =>
    have h1 : d.pending ≤ c.pending := skipBlanks_pending_le c
    have h2 : f.pending < d.pending := comment_pending_lt h hs
    omega
  | case3 c d e he f hs h =>
    have h1 : d.pending ≤ c.pending := skipBlanks_pending_le c
    have h2 : f.pending < d.pending := comment_pending_lt h hs
    simp only [used]
    omega
  | case4 c d e he h =>
    exact Nat.le_trans (emit_pending_lt (advance_pending_lt h)) (skipBlanks_pending_le c)
  | case5 c d ch h _ => exact Nat.le_trans (scan_pending h) (skipBlanks_pending_le c)

/-! ## All tokens -/

/-- Adds the tokens up to the end of the text or a fault to `before`. Without a fault the end is
the last of them. -/
def tokensFrom (before : Array Token) (c : Cursor κ) :
    Array Token × Option Diagnostic × Cursor κ :=
  match _h : c.nextToken with
  | (.error d, c') => (before, some d, c')
  | (.ok t, c') =>
    if t.kind = .eof then (before.push t, none, c') else c'.tokensFrom (before.push t)
termination_by c.pending
decreasing_by
  next ht =>
  have := nextToken_pending c
  rw [_h] at this
  simp only [used, if_neg ht] at this
  omega

end Cursor

/-- The tokens of a text, the last and no other being its end, or the first fault in it. What
happens on the way is added to a journal. -/
def tokenizeNoting (journal : Journal) (cs : List Char) :
    Except Diagnostic (List Token) × Journal :=
  match (Cursor.load (.ofChars cs) Discard.discard journal).tokensFrom #[] with
  | (tokens, none, c) => (.ok tokens.toList, c.journal)
  | (_, some d, c) => (.error d, c.journal)

/-- The tokens of a text, the last and no other being its end, or the first fault in it. -/
def tokenize (cs : List Char) : Except Diagnostic (List Token) := (tokenizeNoting #[] cs).1

end Modula

import Modula.Token.Scan

/-! # Checking declarations

A checker reads the tokens of a text one ahead: it looks at one token and decides by its kind alone.
There is one procedure for each rule of the grammar, under the name of what the rule is about. A
procedure stops at the first fault, or goes past the tokens of its rule. It never goes back, which
`Past` and `Onward` keep with the checker that it leaves; this is also why procedures that call each
other, or themselves in a loop, come to an end.

After a fault the checker can be asked to go on: it then starts anew at the token it was looking at,
which after a lexical fault is still the token before it. -/

set_option autoImplicit false

namespace Modula

structure Checker (κ : Type) where
  cursor : Cursor κ
  lookahead : Token
  /-- How often a token has been called for. Nothing depends on it. -/
  calls : Nat

namespace Checker

variable {κ : Type}

/-- A bound on what is still to be read, the token that is looked at included. -/
def left (s : Checker κ) : Nat := s.cursor.pending + Cursor.used (.ok s.lookahead)

theorem pending_lt_left {s : Checker κ} (h : s.lookahead.kind ≠ .eof) :
    s.cursor.pending < s.left := by
  have hu : Cursor.used (.ok s.lookahead) = 1 := if_neg h
  rw [left, hu]
  exact Nat.lt_succ_self _

theorem pending_lt_of_contains {s : Checker κ} {set : KindSet} (he : set.contains .eof = false)
    (h : set.contains s.lookahead.kind = true) : s.cursor.pending < s.left := by
  apply pending_lt_left
  intro hk
  rw [hk, he] at h
  cases h

/-- What a procedure comes to: a fault with the checker that it leaves, or a value. -/
abbrev Outcome (κ : Type) (α : Type) : Type := Except (Diagnostic × Checker κ) α

/-- What comes of going past one token or more from `s`. -/
abbrev Past (s : Checker κ) : Type := Outcome κ { t : Checker κ // t.left < s.left }

/-- What comes of going past some tokens or none from `s`. -/
abbrev Onward (s : Checker κ) : Type := Outcome κ { t : Checker κ // t.left ≤ s.left }

/-- The fault of looking at another token than what is expected. -/
def fault (s : Checker κ) (expected : Expectation) : Diagnostic :=
  ⟨.expected expected, s.lookahead.position⟩

/-- Notes the word that opens a section. -/
def noteHead (s : Checker κ) : Checker κ :=
  { s with cursor := s.cursor.note (.sectionOpened s.lookahead.kind s.lookahead.position.line) }

theorem noteHead_pending (s : Checker κ) : s.noteHead.cursor.pending = s.cursor.pending := rfl

/-- Finds fault with the token that is looked at unless it is one of those that are expected. -/
def expectAny (s : Checker κ) (expected : Expectation) :
    Outcome κ (PLift (expected.kinds.contains s.lookahead.kind = true)) :=
  if h : expected.kinds.contains s.lookahead.kind = true then .ok ⟨h⟩
  else .error (s.fault expected, s)

/-! ## Going past tokens -/

variable [Sink κ]

/-- A checker at the first token behind a cursor. -/
def start (c : Cursor κ) : Except (Diagnostic × Cursor κ) (Checker κ) :=
  match c.nextToken with
  | (.ok t, c) => .ok ⟨c, t, 1⟩
  | (.error d, c) => .error (d, c)

/-- Goes past the token that is looked at. A fault in place of the next one leaves it in sight. -/
def advance (s : Checker κ) : Outcome κ { t : Checker κ // t.left ≤ s.cursor.pending } :=
  match h : s.cursor.nextToken with
  | (.error d, c) => .error (d, ⟨c, s.lookahead, s.calls + 1⟩)
  | (.ok t, c) =>
    have hc : c.pending + Cursor.used (.ok t) ≤ s.cursor.pending := by
      have hn := Cursor.nextToken_pending s.cursor
      rwa [h] at hn
    .ok ⟨⟨c, t, s.calls + 1⟩, hc⟩

/-- Goes past one token of a kind. -/
def accept (s : Checker κ) (wanted : TokenKind) :
    Outcome κ { t : Checker κ // t.left ≤ s.cursor.pending ∧ s.lookahead.kind = wanted } :=
  if h : s.lookahead.kind = wanted then do
    let ⟨t, ht⟩ ← s.advance
    return ⟨t, ht, h⟩
  else .error (s.fault (.token wanted), s)

/-- Goes past one of the tokens that are expected. -/
def acceptAny (s : Checker κ) (expected : Expectation) :
    Outcome κ { t : Checker κ //
      t.left ≤ s.cursor.pending ∧ expected.kinds.contains s.lookahead.kind = true } :=
  if h : expected.kinds.contains s.lookahead.kind = true then do
    let ⟨t, ht⟩ ← s.advance
    return ⟨t, ht, h⟩
  else .error (s.fault expected, s)

/-- Does something again and again, as long as the token that is looked at is of a kind that calls
for it. -/
def loop (calls : TokenKind → Bool) (s : Checker κ)
    (body : (t : Checker κ) → calls t.lookahead.kind = true → t.left ≤ s.left → Past t) : Onward s :=
  if h : calls s.lookahead.kind = true then do
    let ⟨t, _⟩ ← body s h (Nat.le_refl _)
    let ⟨u, _⟩ ← t.loop calls fun v hv _ => body v hv (by omega)
    return ⟨u, by omega⟩
  else return ⟨s, Nat.le_refl _⟩
termination_by s.left

/-- Goes past separators with something behind each of them. -/
def further (separator : TokenKind) (he : separator ≠ .eof) (s : Checker κ)
    (item : (t : Checker κ) → t.left < s.left → Onward t) : Onward s :=
  s.loop (· == separator) fun t ht _ => do
    have hk : t.lookahead.kind = separator := by simpa using ht
    let ⟨u, _⟩ ← t.advance
    let ⟨v, _⟩ ← item u (by grind [pending_lt_left])
    return ⟨v, by grind [pending_lt_left]⟩

/-! ## Simple types -/

/-- A name, and further ones behind separators. -/
def names (separator : TokenKind) (he : separator ≠ .eof) (s : Checker κ) : Past s := do
  let ⟨t, _⟩ ← s.accept .ident
  let ⟨u, _⟩ ← t.further separator he fun v _ => do
    let ⟨w, _⟩ ← v.accept .ident
    return ⟨w, by grind [pending_lt_left]⟩
  return ⟨u, by grind [pending_lt_left]⟩

def identList (s : Checker κ) : Past s := s.names .comma (by decide)

def qualIdent (s : Checker κ) : Past s := s.names .dot (by decide)

def enumeration (s : Checker κ) : Past s := do
  let ⟨t, _⟩ ← s.accept .lparen
  let ⟨u, _⟩ ← t.identList
  let ⟨v, _⟩ ← u.accept .rparen
  return ⟨v, by grind [pending_lt_left]⟩

def constant (s : Checker κ) : Past s := do
  let ⟨t, ht⟩ ← s.acceptAny .constant
  return ⟨t, Nat.lt_of_le_of_lt ht.1 (pending_lt_of_contains (by decide) ht.2)⟩

def subrange (s : Checker κ) : Past s := do
  let ⟨t, _⟩ ← s.accept .lbracket
  let ⟨u, _⟩ ← t.constant
  let ⟨v, _⟩ ← u.accept .dotdot
  let ⟨w, _⟩ ← v.constant
  let ⟨x, _⟩ ← w.accept .rbracket
  return ⟨x, by grind [pending_lt_left]⟩

def simpleType (s : Checker κ) : Past s := do
  let _ ← s.expectAny .simpleType
  match s.lookahead.kind with
  | .lparen => s.enumeration
  | .lbracket => s.subrange
  | _ =>
    let ⟨t, _⟩ ← s.qualIdent
    if t.lookahead.kind = .lbracket then
      let ⟨u, _⟩ ← t.subrange
      return ⟨u, by omega⟩
    else return ⟨t, by omega⟩

def setType (s : Checker κ) : Past s := do
  let ⟨t, _⟩ ← s.accept .set
  let ⟨u, _⟩ ← t.accept .of
  let ⟨v, _⟩ ← u.simpleType
  return ⟨v, by grind [pending_lt_left]⟩

/-! ## Types

These procedures call each other. A type inside another one begins behind a token of that one; the
ones that are called at the same token are ranked. -/

mutual

def type (s : Checker κ) : Past s := do
  let _ ← s.expectAny .type
  match s.lookahead.kind with
  | .array => arrayType s
  | .record => recordType s
  | .set => s.setType
  | .pointer => pointerType s
  | _ => s.simpleType
termination_by 4 * s.left + 3
decreasing_by all_goals omega

def arrayType (s : Checker κ) : Past s := do
  let ⟨t, _⟩ ← s.accept .array
  let ⟨u, _⟩ ← t.simpleType
  let ⟨v, _⟩ ← u.further .comma (by decide) fun w _ => do
    let ⟨x, _⟩ ← w.simpleType
    return ⟨x, by omega⟩
  let ⟨w, _⟩ ← v.accept .of
  let ⟨x, _⟩ ← type w
  return ⟨x, by grind [pending_lt_left]⟩
termination_by 4 * s.left + 2
decreasing_by all_goals grind [pending_lt_left]

def recordType (s : Checker κ) : Past s := do
  let ⟨t, _⟩ ← s.accept .record
  let ⟨u, _⟩ ← fieldLists t
  let ⟨v, _⟩ ← u.accept .endKeyword
  return ⟨v, by grind [pending_lt_left]⟩
termination_by 4 * s.left + 2
decreasing_by all_goals grind [pending_lt_left]

def fieldLists (s : Checker κ) : Onward s := do
  let ⟨t, _⟩ ← fieldList s
  let ⟨u, _⟩ ← t.further .semicolon (by decide) fun v _ => fieldList v
  return ⟨u, by omega⟩
termination_by 4 * s.left + 1
decreasing_by all_goals grind [pending_lt_left]

def fieldList (s : Checker κ) : Onward s :=
  if s.lookahead.kind = .ident then do
    let ⟨t, _⟩ ← s.identList
    let ⟨u, _⟩ ← t.accept .colon
    let ⟨v, _⟩ ← type u
    return ⟨v, by grind [pending_lt_left]⟩
  else return ⟨s, Nat.le_refl _⟩
termination_by 4 * s.left
decreasing_by all_goals grind [pending_lt_left]

def pointerType (s : Checker κ) : Past s := do
  let ⟨t, _⟩ ← s.accept .pointer
  let ⟨u, _⟩ ← t.accept .toKeyword
  let ⟨v, _⟩ ← type u
  return ⟨v, by grind [pending_lt_left]⟩
termination_by 4 * s.left + 2
decreasing_by all_goals grind [pending_lt_left]

end

/-! ## Declarations -/

def typeDecl (s : Checker κ) : Past s := do
  let ⟨t, _⟩ ← s.accept .ident
  let ⟨u, _⟩ ← t.accept .equals
  let ⟨v, _⟩ ← u.type
  return ⟨v, by grind [pending_lt_left]⟩

def varDecl (s : Checker κ) : Past s := do
  let ⟨t, _⟩ ← s.identList
  let ⟨u, _⟩ ← t.accept .colon
  let ⟨v, _⟩ ← u.type
  return ⟨v, by grind [pending_lt_left]⟩

/-- The declarations of a section, each of which a semicolon ends. -/
def listed (declare : (t : Checker κ) → Past t) (s : Checker κ) : Onward s :=
  s.loop (· == .ident) fun t _ _ => do
    let ⟨u, _⟩ ← declare t
    let ⟨v, _⟩ ← u.accept .semicolon
    return ⟨v, by grind [pending_lt_left]⟩

def declaration (s : Checker κ) : Past s := do
  let ⟨hk⟩ ← s.expectAny .declaration
  have hs := pending_lt_of_contains (by decide) hk
  if s.lookahead.kind = .type then
    let ⟨t, _⟩ ← s.noteHead.advance
    let ⟨u, _⟩ ← t.listed typeDecl
    return ⟨u, by grind [noteHead_pending]⟩
  else
    let ⟨t, _⟩ ← s.noteHead.advance
    let ⟨u, _⟩ ← t.listed varDecl
    return ⟨u, by grind [noteHead_pending]⟩

def declarations (s : Checker κ) : Outcome κ (Checker κ) := do
  let ⟨t, _⟩ ← s.loop Expectation.firstDeclaration.contains fun u _ _ => u.declaration
  let ⟨u, _⟩ ← t.accept .eof
  return u

/-- Checks that declarations come up to the end of the text. -/
def run (s : Checker κ) : Except Diagnostic Unit × Checker κ :=
  match s.declarations with
  | .error (d, t) => (.error d, t)
  | .ok t => (.ok (), t)

end Checker

namespace Cursor

variable {κ : Type} [Sink κ]

/-- Whether the text at a cursor consists of declarations. -/
def check (c : Cursor κ) : Except Diagnostic Unit × Cursor κ :=
  match Checker.start c with
  | .error (d, c) => (.error d, c)
  | .ok s =>
    let (result, s) := s.run
    (result, s.cursor)

end Cursor

/-- Whether a text consists of declarations, and the first fault if it does not. -/
def check (cs : List Char) : Except Diagnostic Unit :=
  (Cursor.load (.ofChars cs) Discard.discard #[]).check.1

end Modula

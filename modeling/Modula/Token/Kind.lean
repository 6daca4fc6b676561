/-! # Kinds of tokens

Each kind has a fixed code, which the token dump prints, and a name, which diagnostics and the
journal use. Keywords are spelled in capitals. -/

set_option autoImplicit false

namespace Modula

inductive TokenKind where
  /-- A placeholder that no text gives rise to. -/
  | noSymbol
  | eof
  | ident
  | number
  | type
  | var
  | array
  | record
  | endKeyword
  | set
  | of
  | pointer
  | toKeyword
  | equals
  | comma
  | semicolon
  | colon
  | dot
  | lbracket
  | rbracket
  | lparen
  | rparen
  | star
  | dotdot
  deriving DecidableEq, Repr

namespace TokenKind

/-- The code of a kind in a token dump. -/
def code : TokenKind → Nat
  | noSymbol => 0
  | eof => 1
  | ident => 2
  | number => 3
  | type => 4
  | var => 5
  | array => 6
  | record => 7
  | endKeyword => 8
  | set => 9
  | of => 10
  | pointer => 11
  | toKeyword => 12
  | equals => 13
  | comma => 14
  | semicolon => 15
  | colon => 16
  | dot => 17
  | lbracket => 18
  | rbracket => 19
  | lparen => 20
  | rparen => 21
  | star => 22
  | dotdot => 23

/-- Every kind, in the order of the codes. -/
def all : List TokenKind :=
  [noSymbol, eof, ident, number, type, var, array, record, endKeyword, set, of, pointer,
    toKeyword, equals, comma, semicolon, colon, dot, lbracket, rbracket, lparen, rparen, star,
    dotdot]

def ofCode? (n : Nat) : Option TokenKind := all[n]?

/-- The name of a kind in diagnostics and in the journal. -/
def name : TokenKind → String
  | noSymbol => "no symbol"
  | eof => "EOF"
  | ident => "identifier"
  | number => "number"
  | type => "TYPE"
  | var => "VAR"
  | array => "ARRAY"
  | record => "RECORD"
  | endKeyword => "END"
  | set => "SET"
  | of => "OF"
  | pointer => "POINTER"
  | toKeyword => "TO"
  | equals => "="
  | comma => ","
  | semicolon => ";"
  | colon => ":"
  | dot => "."
  | lbracket => "["
  | rbracket => "]"
  | lparen => "("
  | rparen => ")"
  | star => "*"
  | dotdot => ".."

/-- The keyword spelled by a word; lower-case words are never keywords. -/
def keyword? : String → Option TokenKind
  | "TYPE" => some type
  | "VAR" => some var
  | "ARRAY" => some array
  | "RECORD" => some record
  | "END" => some endKeyword
  | "SET" => some set
  | "OF" => some of
  | "POINTER" => some pointer
  | "TO" => some toKeyword
  | _ => none

/-- The punctuation mark that one character is on its own. The opening parenthesis and the dot
are missing: what they are depends on the character after them. -/
def mark? : Char → Option TokenKind
  | '=' => some equals
  | ',' => some comma
  | ';' => some semicolon
  | ':' => some colon
  | '[' => some lbracket
  | ']' => some rbracket
  | ')' => some rparen
  | '*' => some star
  | _ => none

theorem mem_all (k : TokenKind) : k ∈ all := by cases k <;> decide

instance decidableForall {p : TokenKind → Prop} [DecidablePred p] : Decidable (∀ k, p k) :=
  decidable_of_decidable_of_iff (p := ∀ k ∈ all, p k)
    ⟨fun h k => h k (mem_all k), fun h k _ => h k⟩

@[simp] theorem ofCode?_code (k : TokenKind) : ofCode? k.code = some k := by cases k <;> rfl

theorem code_lt (k : TokenKind) : k.code < 24 := by cases k <;> decide

theorem code_inj {k l : TokenKind} (h : k.code = l.code) : k = l := by
  have hk := ofCode?_code k
  rw [h, ofCode?_code] at hk
  exact (Option.some.inj hk).symm

end TokenKind
end Modula

import Modula.Token.Kind

/-! # The grammar of declarations

A text of declarations, in extended Backus-Naur form:

    Declarations = { Declaration } EOF .
    Declaration  = TYPE { TypeDecl ";" } | VAR { VarDecl ";" } .
    TypeDecl     = identifier "=" Type .
    VarDecl      = IdentList ":" Type .
    Type         = SimpleType | ArrayType | RecordType | SetType | PointerType .
    SimpleType   = QualIdent [ Subrange ] | Enumeration | Subrange .
    QualIdent    = identifier { "." identifier } .
    Subrange     = "[" Constant ".." Constant "]" .
    Constant     = number | identifier .
    Enumeration  = "(" IdentList ")" .
    IdentList    = identifier { "," identifier } .
    ArrayType    = ARRAY SimpleType { "," SimpleType } OF Type .
    RecordType   = RECORD FieldLists END .
    FieldLists   = FieldList { ";" FieldList } .
    FieldList    = [ IdentList ":" Type ] .
    SetType      = SET OF SimpleType .
    PointerType  = POINTER TO Type .

`rule` holds these rules, and `Derives` says what it means for a row of token kinds to have the form
that one of them asks for. A row is viable if some sentence starts with it. -/

set_option autoImplicit false

namespace Modula.Grammar

inductive Nonterminal where
  | declarations
  | declaration
  | typeDecl
  | varDecl
  | type
  | simpleType
  | qualIdent
  | subrange
  | constant
  | enumeration
  | identList
  | arrayType
  | recordType
  | fieldLists
  | fieldList
  | setType
  | pointerType
  deriving DecidableEq, Repr

/-- The right-hand side of a rule. -/
inductive Form where
  | terminal (k : TokenKind)
  | nonterminal (n : Nonterminal)
  /-- One form and then the other. -/
  | both (a b : Form)
  | either (a b : Form)
  | optional (a : Form)
  /-- Any number of times, also none. -/
  | repeated (a : Form)
  deriving DecidableEq, Repr

namespace Form

/-- The forms of a row, one after the other. -/
def row (first : Form) : List Form → Form
  | [] => first
  | next :: rest => both first (row next rest)

end Form

/-- The rule of each nonterminal. -/
def rule : Nonterminal → Form
  | .declarations => .row (.repeated (.nonterminal .declaration)) [.terminal .eof]
  | .declaration =>
    .either
      (.row (.terminal .type) [.repeated (.row (.nonterminal .typeDecl) [.terminal .semicolon])])
      (.row (.terminal .var) [.repeated (.row (.nonterminal .varDecl) [.terminal .semicolon])])
  | .typeDecl => .row (.terminal .ident) [.terminal .equals, .nonterminal .type]
  | .varDecl => .row (.nonterminal .identList) [.terminal .colon, .nonterminal .type]
  | .type =>
    .either (.nonterminal .simpleType) (.either (.nonterminal .arrayType)
      (.either (.nonterminal .recordType)
        (.either (.nonterminal .setType) (.nonterminal .pointerType))))
  | .simpleType =>
    .either (.row (.nonterminal .qualIdent) [.optional (.nonterminal .subrange)])
      (.either (.nonterminal .enumeration) (.nonterminal .subrange))
  | .qualIdent => .row (.terminal .ident) [.repeated (.row (.terminal .dot) [.terminal .ident])]
  | .subrange =>
    .row (.terminal .lbracket) [.nonterminal .constant, .terminal .dotdot, .nonterminal .constant,
      .terminal .rbracket]
  | .constant => .either (.terminal .number) (.terminal .ident)
  | .enumeration => .row (.terminal .lparen) [.nonterminal .identList, .terminal .rparen]
  | .identList => .row (.terminal .ident) [.repeated (.row (.terminal .comma) [.terminal .ident])]
  | .arrayType =>
    .row (.terminal .array) [.nonterminal .simpleType,
      .repeated (.row (.terminal .comma) [.nonterminal .simpleType]), .terminal .of,
      .nonterminal .type]
  | .recordType =>
    .row (.terminal .record) [.nonterminal .fieldLists, .terminal .endKeyword]
  | .fieldLists =>
    .row (.nonterminal .fieldList)
      [.repeated (.row (.terminal .semicolon) [.nonterminal .fieldList])]
  | .fieldList =>
    .optional (.row (.nonterminal .identList) [.terminal .colon, .nonterminal .type])
  | .setType => .row (.terminal .set) [.terminal .of, .nonterminal .simpleType]
  | .pointerType => .row (.terminal .pointer) [.terminal .toKeyword, .nonterminal .type]

/-- `Derives f w`: the row `w` of kinds has the form `f`. -/
inductive Derives : Form → List TokenKind → Prop where
  | terminal (k : TokenKind) : Derives (.terminal k) [k]
  | nonterminal {n : Nonterminal} {w : List TokenKind} :
      Derives (rule n) w → Derives (.nonterminal n) w
  | both {a b : Form} {v w : List TokenKind} :
      Derives a v → Derives b w → Derives (.both a b) (v ++ w)
  | left {a b : Form} {w : List TokenKind} : Derives a w → Derives (.either a b) w
  | right {a b : Form} {w : List TokenKind} : Derives b w → Derives (.either a b) w
  | absent {a : Form} : Derives (.optional a) []
  | present {a : Form} {w : List TokenKind} : Derives a w → Derives (.optional a) w
  | done {a : Form} : Derives (.repeated a) []
  | again {a : Form} {v w : List TokenKind} :
      Derives a v → Derives (.repeated a) w → Derives (.repeated a) (v ++ w)

/-- A complete row of declarations, the end of the text included. -/
def Sentence (w : List TokenKind) : Prop := Derives (.nonterminal .declarations) w

/-- Some sentence starts with `w`. -/
def Viable (w : List TokenKind) : Prop := ∃ rest, Sentence (w ++ rest)

end Modula.Grammar

import Modula.Diagnostic

/-! # Goals

What is still to come in a text is a stack of goals. The kind of the next token decides what
becomes of the topmost one: it takes the token and leaves new goals in its place, or it is met
without the token, or it fails and says what it expected. Sentences of the grammar are measured
against such stacks, and so are the procedures of the checker. -/

set_option autoImplicit false

namespace Modula.Grammar

/-- Something that the rest of a text has to provide. -/
inductive Goal where
  /-- One token of a kind. -/
  | token (kind : TokenKind)
  /-- Sections up to the end of the text. -/
  | sections
  /-- The declarations of a type section. -/
  | typeDecls
  /-- The declarations of a variable section. -/
  | varDecls
  | type
  | simpleType
  /-- The rest of a qualified name. -/
  | qualifiers
  /-- The bounds that may follow a name. -/
  | bounds
  | constant
  /-- The rest of a list of names. -/
  | moreNames
  /-- The rest of a list of index types. -/
  | moreIndices
  /-- The fields of one type, if there are any. -/
  | fields
  /-- The rest of the fields of a record. -/
  | moreFields
  deriving DecidableEq, Repr

/-- What a goal does about the next token. -/
inductive Move where
  /-- Takes the token and leaves these goals. -/
  | take (goals : List Goal)
  /-- Is met without it. -/
  | pass
  | fail (expected : Expectation)
  deriving DecidableEq, Repr

namespace Goal

/-- What follows the bracket that opens a subrange. -/
def afterBracket : List Goal := [constant, token .dotdot, constant, token .rbracket]

/-- What follows the token that opens a simple type; `none` if it opens none. -/
def afterSimple? : TokenKind → Option (List Goal)
  | .ident => some [qualifiers, bounds]
  | .lparen => some [token .ident, moreNames, token .rparen]
  | .lbracket => some afterBracket
  | _ => none

/-- What follows the word that opens a structured type; `none` if it opens none. -/
def afterStructured? : TokenKind → Option (List Goal)
  | .array => some [simpleType, moreIndices, token .of, type]
  | .record => some [fields, moreFields, token .endKeyword]
  | .set => some [token .of, simpleType]
  | .pointer => some [token .toKeyword, type]
  | _ => none

def move : Goal → TokenKind → Move
  | token wanted, k => if k = wanted then .take [] else .fail (.token wanted)
  | sections, .type => .take [typeDecls, sections]
  | sections, .var => .take [varDecls, sections]
  | sections, .eof => .take []
  | sections, _ => .fail (.token .eof)
  | typeDecls, .ident => .take [token .equals, type, token .semicolon, typeDecls]
  | typeDecls, _ => .pass
  | varDecls, .ident => .take [moreNames, token .colon, type, token .semicolon, varDecls]
  | varDecls, _ => .pass
  | type, k =>
    match afterStructured? k <|> afterSimple? k with
    | some goals => .take goals
    | none => .fail .type
  | simpleType, k =>
    match afterSimple? k with
    | some goals => .take goals
    | none => .fail .simpleType
  | qualifiers, .dot => .take [token .ident, qualifiers]
  | qualifiers, _ => .pass
  | bounds, .lbracket => .take afterBracket
  | bounds, _ => .pass
  | constant, .number => .take []
  | constant, .ident => .take []
  | constant, _ => .fail .constant
  | moreNames, .comma => .take [token .ident, moreNames]
  | moreNames, _ => .pass
  | moreIndices, .comma => .take [simpleType, moreIndices]
  | moreIndices, _ => .pass
  | fields, .ident => .take [moreNames, token .colon, type]
  | fields, _ => .pass
  | moreFields, .semicolon => .take [fields, moreFields]
  | moreFields, _ => .pass

/-- Feeds one kind to a stack of goals and gives the goals behind it. With no goal left only the
end of the text could come. -/
def feed : List Goal → TokenKind → Except Expectation (List Goal)
  | [], _ => .error (.token .eof)
  | goal :: goals, k =>
    match goal.move k with
    | .take new => .ok (new ++ goals)
    | .pass => feed goals k
    | .fail expected => .error expected

end Goal
end Modula.Grammar

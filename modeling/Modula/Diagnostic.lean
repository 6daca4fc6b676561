import Modula.Text.Position
import Modula.Token.KindSet

/-! # Diagnostics

The one error of a run: what is wrong and where. A lexical fault is found while tokens are read, a
syntax fault says what was expected in place of the token that was found. -/

set_option autoImplicit false

namespace Modula

/-- The part of the work that found a fault. -/
inductive Stage where
  | lexical
  | syntactic
  deriving DecidableEq, Repr

def Stage.name : Stage → String
  | lexical => "lexical"
  | syntactic => "syntax"

/-- What a syntax fault asks for. -/
inductive Expectation where
  | token (kind : TokenKind)
  | declaration
  | type
  | simpleType
  | constant
  deriving DecidableEq, Repr

namespace Expectation

/-- The kinds with which a declaration starts. -/
def firstDeclaration : KindSet := .ofList [.type, .var]

/-- The kinds with which a simple type starts. -/
def firstSimpleType : KindSet := .ofList [.ident, .lparen, .lbracket]

/-- The kinds with which a type starts. -/
def firstType : KindSet := firstSimpleType.union (.ofList [.array, .record, .set, .pointer])

/-- The kinds that a constant consists of. -/
def firstConstant : KindSet := .ofList [.number, .ident]

/-- The kinds that would have been accepted, as far as the message names them. -/
def kinds : Expectation → KindSet
  | token k => .ofList [k]
  | declaration => firstDeclaration
  | type => firstType
  | simpleType => firstSimpleType
  | constant => firstConstant

def message : Expectation → String
  | token k => k.name ++ " expected"
  | declaration => "TYPE or VAR expected"
  | type => "type expected"
  | simpleType => "simple type expected"
  | constant => "number or identifier expected"

end Expectation

/-- What is wrong with a text. -/
inductive Fault where
  | unterminatedComment
  | invalidCharacter (c : Char)
  | expected (what : Expectation)
  deriving DecidableEq, Repr

namespace Fault

def stage : Fault → Stage
  | expected _ => .syntactic
  | _ => .lexical

def message : Fault → String
  | unterminatedComment => "unterminated comment"
  | invalidCharacter c => "invalid character '" ++ c.toString ++ "'"
  | expected what => what.message

end Fault

/-- A fault and its place. -/
structure Diagnostic where
  fault : Fault
  position : Position
  deriving DecidableEq, Repr

namespace Diagnostic

/-- The line by which a fault is reported. -/
def render (stage : Stage) (message : String) (p : Position) : String :=
  stage.name ++ " error at line " ++ toString p.line ++ ", col " ++ toString p.col ++ ": "
    ++ message

def stage (d : Diagnostic) : Stage := d.fault.stage

def message (d : Diagnostic) : String := d.fault.message

def display (d : Diagnostic) : String := render d.stage d.message d.position

end Diagnostic
end Modula

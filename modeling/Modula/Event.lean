import Modula.Diagnostic
import Modula.IoError
import Modula.Path
import Modula.Text.Quoted
import Modula.Token

/-! # The journal of a run

Everything worth noting that happens in a run, in order. An event is kept as what happened; its
level and its wording are read off it. -/

set_option autoImplicit false

namespace Modula

inductive Level where
  | trace
  | debug
  | info
  | warn
  deriving DecidableEq, Repr

def Level.name : Level → String
  | trace => "trace"
  | debug => "debug"
  | info => "info"
  | warn => "warn"

inductive Event where
  /-- A source has been opened. -/
  | opened (path : Path)
  /-- A transcript has been created. -/
  | transcribing (path : Path)
  | sourceFailed (e : IoError)
  | transcriptFailed (e : IoError)
  /-- A token other than the end of the text has been read. -/
  | scanned (token : Token)
  /-- The two characters that open a comment have been read. -/
  | comment (position : Position)
  /-- The word that opens a section is about to be accepted. -/
  | sectionOpened (kind : TokenKind) (line : Nat)
  | aborting (message : String)
  | rejected (d : Diagnostic)
  deriving DecidableEq, Repr

abbrev Journal := Array Event

namespace Journal

/-- Notes the failure of a source, if there was one. -/
def sourceError (journal : Journal) : Option IoError → Journal
  | none => journal
  | some e => journal.push (.sourceFailed e)

/-- Notes the failure of a transcript, if there was one. -/
def transcriptError (journal : Journal) : Option IoError → Journal
  | none => journal
  | some e => journal.push (.transcriptFailed e)

end Journal

namespace Event

def level : Event → Level
  | scanned _ => .trace
  | opened _ | transcribing _ | comment _ | sectionOpened _ _ | aborting _ => .debug
  | rejected _ => .info
  | sourceFailed _ | transcriptFailed _ => .warn

def message : Event → String
  | opened path => "opened " ++ path.display
  | transcribing path => "writing transcript to " ++ path.display
  | sourceFailed e => "source read failed: " ++ e.message
  | transcriptFailed e => "transcript write failed: " ++ e.message
  | scanned t =>
    t.kind.name ++ " " ++ Text.quoted t.lexeme ++ " at " ++ toString t.position.line ++ ":"
      ++ toString t.position.col
  | comment p => "skipping comment at line " ++ toString p.line ++ ", col " ++ toString p.col
  | sectionOpened kind line => kind.name ++ " section at line " ++ toString line
  | aborting message => "aborting: " ++ message
  | rejected d => "rejected: " ++ d.display

end Event
end Modula

import Modula.Checker
import Modula.Output.Buffered
import Modula.Output.Reporter
import Modula.Output.Transcript

/-! # Sessions

A session reads a source that has been opened, with a transcript of it beside, and either checks
it or dumps its tokens. Results go to the output, a diagnostic to the console and the transcript. -/

set_option autoImplicit false

namespace Modula

/-- How a session ends that nothing got in the way of. -/
inductive Outcome where
  | accepted
  | rejected (d : Diagnostic)
  deriving DecidableEq, Repr

def Outcome.exitCode : Outcome → Nat
  | accepted => 0
  | rejected _ => 1

/-- What can get in the way of a session. -/
inductive Failure where
  | unreadable (path : Path) (e : IoError)
  /-- The transcript would replace the source. -/
  | ownTranscript (path : Path)
  | uncreatable (path : Path) (e : IoError)
  | output (e : IoError)
  | transcript (e : IoError)
  | report (e : IoError)
  deriving DecidableEq, Repr

namespace Failure

def message : Failure → String
  | unreadable path _ => "Failed to read " ++ path.display
  | ownTranscript path =>
    "Refusing to overwrite " ++ path.display ++ ": the transcript would replace the source"
  | uncreatable path _ => "Failed to create transcript " ++ path.display
  | output e => e.message
  | transcript _ => "Failed to write transcript"
  | report _ => "Failed to report diagnostic"

/-- The failure behind a failure. -/
def cause : Failure → Option IoError
  | unreadable _ e | uncreatable _ e | transcript e | report e => some e
  | ownTranscript _ | output _ => none

/-- The messages from the outermost to the innermost. -/
def chain (f : Failure) : List String := f.message :: (f.cause.map IoError.message).toList

/-- How a failure is shown at the end of a run. -/
def shown (f : Failure) : String :=
  "Error: " ++ f.message ++ "\n" ++
    match f.cause with
    | none => ""
    | some e => "\nCaused by:\n    " ++ e.message ++ "\n"

end Failure

/-- What a session leaves behind. -/
structure Session where
  result : Except Failure Outcome
  out : Store
  console : Store
  transcript : Transcript Buffered
  journal : Journal

namespace Session

/-- Closes the transcript, after the diagnostic if there is one. -/
def finish (verdict : Except Diagnostic Unit) (transcript : Transcript Buffered)
    (out console : Store) (journal : Journal) : Session :=
  match verdict with
  | .ok _ =>
    let (closed, transcript) := transcript.close
    let result := match closed with
      | .ok _ => .ok .accepted
      | .error e => .error (.transcript e)
    ⟨result, out, console, transcript, journal⟩
  | .error d =>
    let reporter : Reporter Store (Transcript Buffered) :=
      ⟨console, transcript, journal.push (.rejected d)⟩
    let (reported, reporter) := reporter.abort d.display
    let result := match reported with
      | .ok _ => .ok (.rejected d)
      | .error e => .error (.report e)
    ⟨result, out, reporter.console, reporter.sink, reporter.journal⟩

/-- What is printed for a text that consists of declarations. -/
def accepted : String := "Parsed correctly\n"

/-- Checks a source. -/
def check (source : Source) (transcript : Transcript Buffered) (out console : Store)
    (journal : Journal) : Session :=
  let (verdict, cursor) := (Cursor.load source transcript journal).check
  match verdict with
  | .error d => finish (.error d) cursor.sink out console cursor.journal
  | .ok _ =>
    match out.write (Utf8.bytes accepted) with
    | (.ok _, out) => finish (.ok ()) cursor.sink out console cursor.journal
    | (.error e, out) => ⟨.error (.output e), out, console, cursor.sink, cursor.journal⟩

/-- Writes a line for each token, up to the end of the text or a fault. -/
def dumpFrom {κ : Type} [Sink κ] (out : Store) (c : Cursor κ) :
    Except IoError (Except Diagnostic Unit) × Store × Cursor κ :=
  match _h : c.nextToken with
  | (.error d, c') => (.ok (.error d), out, c')
  | (.ok t, c') =>
    match out.write (Utf8.bytes (t.dump ++ "\n")) with
    | (.error e, out) => (.error e, out, c')
    | (.ok _, out) => if t.kind = .eof then (.ok (.ok ()), out, c') else dumpFrom out c'
termination_by c.pending
decreasing_by
  next ht =>
  have := c.nextToken_pending
  rw [_h] at this
  simp only [Cursor.used, if_neg ht] at this
  omega

/-- Dumps the tokens of a source. -/
def dump (source : Source) (transcript : Transcript Buffered) (out console : Store)
    (journal : Journal) : Session :=
  match dumpFrom out (Cursor.load source transcript journal) with
  | (.ok verdict, out, cursor) => finish verdict cursor.sink out console cursor.journal
  | (.error e, out, cursor) =>
    ⟨.error (.output e), out, console, cursor.sink, cursor.journal⟩

/-- The bytes of the transcript once it has been given up. -/
def transcribed (s : Session) : Array UInt8 := s.transcript.out.settle.held

end Session
end Modula

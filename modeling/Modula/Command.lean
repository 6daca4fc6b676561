import Modula.FileTree
import Modula.Session

/-! # Commands

A command opens the source at a path, creates the transcript next to it and runs a session, which
reads the source from then on. A source that is found to be its own transcript is refused before
anything is written. -/

set_option autoImplicit false

namespace Modula

inductive Command where
  | check
  | tokens
  deriving DecidableEq, Repr

namespace Command

/-- The session of a command. -/
def session (command : Command) (source : Source) (store out console : Store)
    (journal : Journal) : Session :=
  let transcript := Transcript.ofWriter (Buffered.ofStore store)
  match command with
  | check => Session.check source transcript out console journal
  | tokens => Session.dump source transcript out console journal

/-- A source and a transcript that are ready, and the tree with the transcript in it. -/
structure Opened where
  source : Source
  handle : FileTree.Handle
  tree : FileTree
  journal : Journal

/-- Opens the source at a path and creates its transcript. -/
def openFiles (tree : FileTree) (path : Path) : Except Failure Opened × Journal :=
  match tree.openAt path with
  | .error e => (.error (.unreadable path e), #[])
  | .ok stream =>
    let journal : Journal := #[.opened path]
    let target := path.transcript Path.transcriptExtension
    if tree.same path target then (.error (.ownTranscript path), journal)
    else match tree.create target with
      | .error e => (.error (.uncreatable target e), journal)
      | .ok (handle, tree) =>
        let journal := journal.push (.transcribing target)
        (.ok ⟨tree.contents stream, handle, tree, journal⟩, journal)

/-- What a command leaves behind. -/
structure Run where
  result : Except Failure Outcome
  out : Store
  console : Store
  tree : FileTree
  journal : Journal

/-- The store behind a handle. -/
def storeOf : FileTree.Handle → Store
  | .file _ => .unbounded
  | .device => .refusing .noSpace

def run (command : Command) (tree : FileTree) (path : Path) (out : Store)
    (console : Store := .unbounded) : Run :=
  match openFiles tree path with
  | (.error failure, journal) => ⟨.error failure, out, console, tree, journal⟩
  | (.ok opened, _) =>
    let session := command.session opened.source (storeOf opened.handle) out console opened.journal
    ⟨session.result, session.out, session.console,
      opened.tree.save session.transcribed opened.handle, session.journal⟩

end Command
end Modula

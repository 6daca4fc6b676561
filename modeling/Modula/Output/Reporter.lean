import Modula.Event
import Modula.Output.Sink
import Modula.Output.Writer
import Modula.Text.Utf8

/-! # Reporting

A reporter writes messages both to a sink and to a console. The sink gets its line whatever the
console does. -/

set_option autoImplicit false

namespace Modula

structure Reporter (γ κ : Type) where
  console : γ
  sink : κ
  journal : Journal

namespace Reporter

variable {γ κ : Type} [Writer γ] [Sink κ]

def echo (r : Reporter γ κ) (c : Char) : Reporter γ κ :=
  let (sink, failure) := Sink.echo r.sink c
  { r with sink, journal := Journal.transcriptError r.journal failure }

def line (r : Reporter γ κ) (s : String) : Reporter γ κ :=
  let (sink, failure) := Sink.line r.sink s
  { r with sink, journal := Journal.transcriptError r.journal failure }

def close (r : Reporter γ κ) : Except IoError Unit × Reporter γ κ :=
  let (result, sink) := Sink.close r.sink
  (result, { r with sink })

/-- Writes a line to the console. -/
def print (r : Reporter γ κ) (message : String) : Except IoError Unit × Reporter γ κ :=
  let (result, console) := Writer.write r.console (Utf8.bytes message ++ [0x0A])
  (result, { r with console })

/-- Writes a line to the sink, then to the console. -/
def report (r : Reporter γ κ) (message : String) : Except IoError Unit × Reporter γ κ :=
  (r.line message).print message

/-- Hands on what the console has taken, if all went well so far. -/
def flushIfOk (r : Reporter γ κ) : Except IoError Unit → Except IoError Unit × Reporter γ κ
  | .error e => (.error e, r)
  | .ok _ =>
    let (result, console) := Writer.flush r.console
    (result, { r with console })

/-- Reports a message and closes the sink. A failure of the sink comes before one of the
console. -/
def abort (r : Reporter γ κ) (message : String) : Except IoError Unit × Reporter γ κ :=
  let r := { r with journal := r.journal.push (.aborting message) }
  let (written, r) := r.report message
  let (shown, r) := r.flushIfOk written
  let (closed, r) := r.close
  (match closed with
    | .error e => .error e
    | .ok _ => shown, r)

/-- Something that can be done with a reporter and the sink behind it. -/
inductive Step where
  /-- Copies each character of a text into the sink. -/
  | echo (text : String)
  | line (text : String)
  | close
  | report (message : String)
  | abort (message : String)
  deriving DecidableEq, Repr

def step (r : Reporter γ κ) : Step → Except IoError Unit × Reporter γ κ
  | .echo text => (.ok (), text.toList.foldl echo r)
  | .line text => (.ok (), r.line text)
  | .close => r.close
  | .report message => r.report message
  | .abort message => r.abort message

end Reporter
end Modula

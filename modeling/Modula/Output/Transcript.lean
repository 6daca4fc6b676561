import Modula.Output.Sink
import Modula.Output.Writer
import Modula.Text.Utf8

/-! # Transcripts

A transcript is a sink over a writer. Lines in it start on a fresh line. The first failure is
remembered, nothing is written after it, and closing the transcript gives it back; closing a
transcript again does nothing. -/

set_option autoImplicit false

namespace Modula

structure Transcript (ω : Type) where
  out : ω
  /-- The first failure, until the transcript is closed. -/
  error : Option IoError
  closed : Bool
  /-- Whether the next byte starts a line. -/
  fresh : Bool
  deriving DecidableEq, Repr

namespace Transcript

variable {ω : Type} [Writer ω]

def ofWriter (out : ω) : Transcript ω := ⟨out, none, false, true⟩

/-- The byte that ends a line. -/
def newline : UInt8 := 0x0A

/-- Writes some bytes, unless the transcript is closed or has failed. -/
def write (t : Transcript ω) (chunk : List UInt8) : Transcript ω × Option IoError :=
  if t.closed || t.error.isSome then (t, none)
  else
    match Writer.write t.out chunk with
    | (.ok _, out) =>
      let fresh := match chunk.getLast? with
        | some last => last == newline
        | none => t.fresh
      ({ t with out, fresh }, none)
    | (.error e, out) => ({ t with out, error := some e }, some e)

def echo (t : Transcript ω) (c : Char) : Transcript ω × Option IoError :=
  t.write (String.utf8EncodeChar c)

def line (t : Transcript ω) (s : String) : Transcript ω × Option IoError :=
  let (t, first) := if t.fresh then (t, none) else t.write [newline]
  let (t, second) := t.write (Utf8.bytes s)
  let (t, third) := t.write [newline]
  (t, first <|> second <|> third)

def close (t : Transcript ω) : Except IoError Unit × Transcript ω :=
  if t.closed then (.ok (), t)
  else
    match t.error with
    | some e => (.error e, { t with error := none, closed := true })
    | none =>
      let (result, out) := Writer.flush t.out
      (result, { t with out, closed := true })

instance : Sink (Transcript ω) := ⟨echo, line, close⟩

end Transcript
end Modula

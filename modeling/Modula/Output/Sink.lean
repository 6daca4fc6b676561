import Modula.IoError

/-! # Sinks

A sink gets a copy of every character that is read, and whole lines in between. It never stops
the reading: a failure is kept until the sink is closed. -/

set_option autoImplicit false

namespace Modula

class Sink (κ : Type) where
  /-- Copies one character. The failure is the one that this copy met, if it met any. -/
  echo : κ → Char → κ × Option IoError
  /-- Adds a line of its own. The failure is the one that this line met, if it met any. -/
  line : κ → String → κ × Option IoError
  close : κ → Except IoError Unit × κ

/-- A sink that keeps nothing. -/
inductive Discard where
  | discard
  deriving DecidableEq, Repr

instance : Sink Discard where
  echo d _ := (d, none)
  line d _ := (d, none)
  close d := (.ok (), d)

end Modula

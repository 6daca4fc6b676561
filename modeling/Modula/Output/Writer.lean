import Modula.IoError

/-! # Stores for bytes

A writer takes bytes and can be asked to hand them on. `Store` is the plain one: it holds what it
was given, up to a limit. -/

set_option autoImplicit false

namespace Modula

/-- Something that bytes can be written to. -/
class Writer (ω : Type) where
  /-- Takes all the bytes or fails; after a failure some of them may have been taken. -/
  write : ω → List UInt8 → Except IoError Unit × ω
  /-- Hands on what has been taken. -/
  flush : ω → Except IoError Unit × ω

/-- Holds the bytes it was given. -/
structure Store where
  /-- How many bytes it can hold; `none` if there is no bound. -/
  limit : Option Nat
  /-- The failure of a write for which there is no room. -/
  refusal : IoError
  /-- The failure of every flush, if flushing fails. -/
  flushError : Option IoError
  held : Array UInt8
  /-- How often it has been asked to flush. -/
  flushes : Nat
  deriving DecidableEq, Repr

namespace Store

/-- A store without bound that never fails. -/
def unbounded : Store := ⟨none, .diskFull, none, #[], 0⟩

/-- A store that takes nothing. -/
def refusing (e : IoError) : Store := ⟨some 0, e, none, #[], 0⟩

/-- How many of `n` more bytes it takes. -/
def room (s : Store) (n : Nat) : Nat :=
  match s.limit with
  | none => n
  | some limit => min n (limit - s.held.size)

/-- Takes as many bytes as there is room for, and fails if some are left. -/
def write (s : Store) (chunk : List UInt8) : Except IoError Unit × Store :=
  let n := chunk.length
  let room := s.room n
  if room = n then (.ok (), { s with held := s.held ++ chunk })
  else (.error s.refusal, { s with held := s.held ++ chunk.take room })

def flush (s : Store) : Except IoError Unit × Store :=
  (match s.flushError with
    | none => .ok ()
    | some e => .error e,
   { s with flushes := s.flushes + 1 })

instance : Writer Store := ⟨write, flush⟩

end Store
end Modula

import Modula.IoError

/-! # Sources of characters

A source is the list of the answers it will give, one for each time it is asked. An answer is a
character or none, and may carry the failure that was met on the way. None does not have to be
the last answer: more characters may follow it. Past the list every answer is none. -/

set_option autoImplicit false

namespace Modula

/-- One answer of a source. -/
structure Reading where
  char : Option Char
  /-- The failure that the source met while it looked for the character. -/
  error : Option IoError
  deriving DecidableEq, Repr

namespace Reading

def ofChar (c : Char) : Reading := ⟨some c, none⟩

/-- Nothing to read for now. -/
def nothing : Reading := ⟨none, none⟩

end Reading

structure Source where
  /-- The answers that are still to come. -/
  upcoming : List Reading
  /-- How often the source has been asked. -/
  asked : Nat
  deriving DecidableEq, Repr

namespace Source

def ofReadings (readings : List Reading) : Source := ⟨readings, 0⟩

/-- The characters of a text, one after the other. -/
def ofChars (cs : List Char) : Source := ofReadings (cs.map Reading.ofChar)

def ofString (s : String) : Source := ofChars s.toList

/-- Asks for the next answer. -/
def read (s : Source) : Reading × Source :=
  match s with
  | ⟨[], n⟩ => (.nothing, ⟨[], n + 1⟩)
  | ⟨r :: rs, n⟩ => (r, ⟨rs, n + 1⟩)

@[simp] theorem read_cons (r : Reading) (rs : List Reading) (n : Nat) :
    read ⟨r :: rs, n⟩ = (r, ⟨rs, n + 1⟩) := rfl

@[simp] theorem read_asked (s : Source) : s.read.2.asked = s.asked + 1 := by
  rcases s with ⟨_ | _, _⟩ <;> rfl

@[simp] theorem read_upcoming (s : Source) : s.read.2.upcoming = s.upcoming.tail := by
  rcases s with ⟨_ | _, _⟩ <;> rfl

theorem upcoming_pos_of_read {s : Source} {p : Char → Bool} {c : Char}
    (h : s.read.1.char.filter p = some c) : 0 < s.upcoming.length := by
  rcases s with ⟨_ | ⟨r, rs⟩, n⟩
  · cases h
  · exact Nat.succ_pos _

end Source
end Modula

/-! # Positions in a text

Lines and columns count from 1 and a column counts characters. Before anything has been read a
reader stands at `Position.start`, in column 0 of the first line. -/

set_option autoImplicit false

namespace Modula

/-- A place in a text: the line and the character's column in it. -/
structure Position where
  line : Nat
  col : Nat
  deriving DecidableEq, Repr

namespace Position

/-- Where a reader stands that has not read anything yet. -/
def start : Position := ⟨1, 0⟩

/-- The place of the character that follows `current` (`none` before the first one). -/
def next (p : Position) (current : Option Char) : Position :=
  if current = some '\n' then ⟨p.line + 1, 1⟩ else ⟨p.line, p.col + 1⟩

@[simp] theorem next_newline (p : Position) : p.next (some '\n') = ⟨p.line + 1, 1⟩ := rfl

theorem next_of_ne {current : Option Char} (p : Position) (h : current ≠ some '\n') :
    p.next current = ⟨p.line, p.col + 1⟩ := if_neg h

end Position
end Modula

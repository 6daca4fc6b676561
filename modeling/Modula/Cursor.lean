import Modula.Event
import Modula.Output.Sink
import Modula.Source

/-! # Cursors

A cursor looks at one character of a source at a time and echoes each into a sink when it first
sees it. A NUL ends the text as the end of the source does, and a text that has ended stays so. -/

set_option autoImplicit false

namespace Modula

structure Cursor (κ : Type) where
  source : Source
  sink : κ
  /-- The character looked at; `none` before the first one and after the last. -/
  current : Option Char
  /-- Whether the text has ended. -/
  ended : Bool
  /-- The place of the character looked at. -/
  position : Position
  journal : Journal

namespace Cursor

variable {κ : Type}

/-- A cursor in front of the first character. -/
def start (source : Source) (sink : κ) (journal : Journal) : Cursor κ :=
  ⟨source, sink, none, false, .start, journal⟩

def note (c : Cursor κ) (e : Event) : Cursor κ := { c with journal := c.journal.push e }

/-- A bound on how many characters the cursor still has to look at. -/
def pending (c : Cursor κ) : Nat :=
  c.source.upcoming.length + if c.current.isSome then 1 else 0

theorem pending_of_none {c : Cursor κ} (h : c.current = none) :
    c.pending = c.source.upcoming.length := by
  rw [pending, h]
  rfl

theorem pending_of_some {c : Cursor κ} {ch : Char} (h : c.current = some ch) :
    c.pending = c.source.upcoming.length + 1 := by
  rw [pending, h]
  rfl

@[simp] theorem note_pending (c : Cursor κ) (e : Event) : (c.note e).pending = c.pending := rfl

/-! ## Moving on -/

variable [Sink κ]

/-- Moves to the next character. -/
def advance (c : Cursor κ) : Cursor κ :=
  match c with
  | ⟨source, sink, current, ended, position, journal⟩ =>
    if ended then ⟨source, sink, none, ended, position, journal⟩
    else
      let position := position.next current
      let (reading, source) := source.read
      let journal := Journal.sourceError journal reading.error
      match reading.char.filter (· ≠ '\x00') with
      | none => ⟨source, sink, none, true, position, journal⟩
      | some ch =>
        let (sink, failure) := Sink.echo sink ch
        ⟨source, sink, some ch, false, position, Journal.transcriptError journal failure⟩

/-- A cursor at the first character of a source. -/
def load (source : Source) (sink : κ) (journal : Journal) : Cursor κ :=
  (start source sink journal).advance

theorem advance_of_ended {c : Cursor κ} (h : c.ended = true) :
    c.advance = { c with current := none } := by
  rcases c with ⟨source, sink, current, ended, position, journal⟩
  cases h
  rfl

theorem advance_of_none {c : Cursor κ} (h : c.ended = false)
    (hr : c.source.read.1.char.filter (· ≠ '\x00') = none) :
    c.advance =
      { c with
        source := c.source.read.2
        current := none
        ended := true
        position := c.position.next c.current
        journal := Journal.sourceError c.journal c.source.read.1.error } := by
  rcases c with ⟨source, sink, current, ended, position, journal⟩
  cases h
  simp only [advance, hr]
  rfl

theorem advance_of_some {c : Cursor κ} {ch : Char} (h : c.ended = false)
    (hr : c.source.read.1.char.filter (· ≠ '\x00') = some ch) :
    c.advance =
      { source := c.source.read.2
        sink := (Sink.echo c.sink ch).1
        current := some ch
        ended := false
        position := c.position.next c.current
        journal := Journal.transcriptError (Journal.sourceError c.journal c.source.read.1.error)
          (Sink.echo c.sink ch).2 } := by
  rcases c with ⟨source, sink, current, ended, position, journal⟩
  cases h
  simp only [advance, hr]
  rfl

theorem advance_pending_le_upcoming (c : Cursor κ) :
    c.advance.pending ≤ c.source.upcoming.length := by
  cases he : c.ended with
  | true =>
    rw [advance_of_ended he]
    exact Nat.le_refl _
  | false =>
    cases hr : c.source.read.1.char.filter (· ≠ '\x00') with
    | none =>
      rw [advance_of_none he hr, pending_of_none rfl, Source.read_upcoming, List.length_tail]
      exact Nat.sub_le _ _
    | some ch =>
      rw [advance_of_some he hr, pending_of_some rfl, Source.read_upcoming, List.length_tail]
      have := Source.upcoming_pos_of_read hr
      omega

theorem advance_pending_le (c : Cursor κ) : c.advance.pending ≤ c.pending :=
  Nat.le_trans c.advance_pending_le_upcoming (Nat.le_add_right _ _)

theorem advance_pending_lt {c : Cursor κ} {ch : Char} (h : c.current = some ch) :
    c.advance.pending < c.pending := by
  rw [pending_of_some h]
  exact Nat.lt_succ_of_le c.advance_pending_le_upcoming

end Cursor
end Modula

import Modula.Source
import Modula.Text.Utf8

/-! # Characters from bytes

Bytes are read through a buffer. When it is used up it is filled again: an empty fill is the end of
the data for the call that meets it, a fill that was interrupted is tried again, and any other
failure ends the reading for good. A byte is looked at first and consumed when it is used.

A lead byte announces how many bytes its character has, each of the others has to be a continuation
byte, and a byte that is none is left to start the next character. A sequence that breaks off or
encodes nothing gives one replacement character. -/

set_option autoImplicit false

namespace Modula.Source

/-- What one fill of the buffer brings. -/
inductive Fill where
  | bytes (chunk : List UInt8)
  | interrupted
  | failed (e : IoError)
  deriving DecidableEq, Repr

structure Reader where
  /-- The bytes of the last fill that have not been consumed. -/
  buffer : List UInt8
  /-- What the fills that are still to come will bring. -/
  fills : List Fill
  /-- Whether a failure has ended the reading. -/
  done : Bool
  deriving DecidableEq, Repr

namespace Reader

/-! ## Looking at a byte -/

/-- The buffer, filled if it is used up. Behind the last fill it stays empty. -/
def fill (r : Reader) : Fill × Reader :=
  match r.buffer, r.fills with
  | [], .bytes chunk :: fills => (.bytes chunk, { r with buffer := chunk, fills := fills })
  | [], trouble :: fills => (trouble, { r with fills := fills })
  | buffer, _ => (.bytes buffer, r)

theorem length_fills_of_interrupted {r r' : Reader} (h : r.fill = (.interrupted, r')) :
    r'.fills.length < r.fills.length := by
  unfold fill at h
  split at h
  · cases h
  · next hf =>
    cases h
    rw [hf]
    exact Nat.lt_succ_self _
  · cases h

/-- What a look for a byte finds. -/
structure Look where
  byte : Option UInt8
  /-- The failure that ended the reading, if this look met it. -/
  error : Option IoError
  reader : Reader

/-- Looks at the next byte, which stays in the buffer. -/
def peek (r : Reader) : Look :=
  if r.done then ⟨none, none, r⟩
  else
    match _h : r.fill with
    | (.bytes buffer, r) => ⟨buffer.head?, none, r⟩
    | (.interrupted, r) => r.peek
    | (.failed e, r) => ⟨none, some e, { r with done := true }⟩
termination_by r.fills.length
decreasing_by exact length_fills_of_interrupted _h

/-- Uses up the byte that was looked at. -/
def consume (r : Reader) : Reader := { r with buffer := r.buffer.tail }

/-! ## One character -/

/-- What follows a lead byte. -/
structure Tail where
  /-- The continuation bytes, if they are as many as were announced. -/
  bytes : Option (List UInt8)
  error : Option IoError
  reader : Reader

/-- Consumes `n` continuation bytes, up to the first byte that is none. -/
def gather : Nat → Reader → Tail
  | 0, r => ⟨some [], none, r⟩
  | n + 1, r =>
    match r.peek with
    | ⟨some b, _, r⟩ =>
      if Utf8.isContinuation b then
        let t := gather n r.consume
        { t with bytes := t.bytes.map (b :: ·) }
      else ⟨none, none, r⟩
    | ⟨none, e, r⟩ => ⟨none, e, r⟩

/-- One answer, and the reader behind it. -/
def next (r : Reader) : Reading × Reader :=
  match r.peek with
  | ⟨none, e, r⟩ => (⟨none, e⟩, r)
  | ⟨some lead, _, r⟩ =>
    match Utf8.width? lead with
    | none => (.ofChar Utf8.replacement, r.consume)
    | some n =>
      let t := gather (n - 1) r.consume
      (⟨some ((t.bytes.bind (Utf8.decodeChar? lead)).getD Utf8.replacement), t.error⟩, t.reader)

end Reader

/-! ## What looks find

A look finds a byte, the end of the data for this time, or a failure. In this order they are the
pieces of a reader. Each answer uses some of them up, so there are only so many answers. -/

inductive Piece where
  | byte (b : UInt8)
  /-- No byte this time. -/
  | pause
  | failure (e : IoError)
  deriving DecidableEq, Repr

def Fill.pieces : Fill → List Piece
  | bytes [] => [.pause]
  | bytes chunk => chunk.map .byte
  | interrupted => []
  | failed e => [.failure e]

namespace Reader

variable {r : Reader}

def pieces (r : Reader) : List Piece :=
  if r.done then [] else r.buffer.map .byte ++ r.fills.flatMap Fill.pieces

/-- What a look can find, by the piece in front. -/
inductive Finds : List Piece → Look → Prop where
  | nothing {r : Reader} : r.pieces = [] → Finds [] ⟨none, none, r⟩
  | byte {r : Reader} {b : UInt8} {ps : List Piece} :
      r.pieces = .byte b :: ps → r.consume.pieces = ps → Finds (.byte b :: ps) ⟨some b, none, r⟩
  | pause {r : Reader} {ps : List Piece} : r.pieces = ps → Finds (.pause :: ps) ⟨none, none, r⟩
  | failure {r : Reader} {e : IoError} {ps : List Piece} :
      r.pieces = [] → Finds (.failure e :: ps) ⟨none, some e, r⟩

theorem pieces_of_done (h : r.done = true) : r.pieces = [] := if_pos h

theorem finds_of_fill {r' : Reader} {buffer : List UInt8} (hd : r.done = false)
    (h : r.fill = (.bytes buffer, r')) : Finds r.pieces ⟨buffer.head?, none, r'⟩ := by
  rcases r with ⟨_ | ⟨c, cs⟩, _ | ⟨⟨_ | ⟨b, bs⟩⟩ | _ | e, fills⟩, done⟩ <;> cases hd <;> cases h
  · exact .nothing rfl
  · exact .pause rfl
  all_goals exact .byte rfl rfl

theorem pieces_of_interrupted {r' : Reader} (h : r.fill = (.interrupted, r')) :
    r'.pieces = r.pieces := by
  rcases r with ⟨_ | ⟨c, cs⟩, _ | ⟨chunk | _ | e, fills⟩, done⟩ <;> cases h
  rfl

theorem finds_of_failed {r' : Reader} {e : IoError} (hd : r.done = false)
    (h : r.fill = (.failed e, r')) : Finds r.pieces ⟨none, some e, { r' with done := true }⟩ := by
  rcases r with ⟨_ | ⟨c, cs⟩, _ | ⟨chunk | _ | e, fills⟩, done⟩ <;> cases hd <;> cases h
  exact .failure rfl

theorem peek_finds (r : Reader) : Finds r.pieces r.peek := by
  fun_induction peek r with
  | case1 r hd =>
    have hp := pieces_of_done hd
    rw [hp]
    exact .nothing hp
  | case2 r hd buffer r' h => exact finds_of_fill (Bool.eq_false_iff.mpr hd) h
  | case3 r hd r' h ih =>
    rw [← pieces_of_interrupted h]
    exact ih
  | case4 r hd e r' h => exact finds_of_failed (Bool.eq_false_iff.mpr hd) h

/-! ## All answers -/

theorem length_gather_le (n : Nat) (r : Reader) :
    (gather n r).reader.pieces.length ≤ r.pieces.length := by
  induction n generalizing r with
  | zero => exact Nat.le_refl _
  | succ n ih =>
    have hf := r.peek_finds
    rw [gather]
    generalize r.pieces = ps at hf ⊢
    generalize r.peek = look at hf ⊢
    cases hf with
    | nothing h => exact Nat.le_of_eq (congrArg List.length h)
    | @byte r' b ps h hc =>
      dsimp only
      split
      · have hl := ih r'.consume
        rw [hc] at hl
        exact Nat.le_succ_of_le hl
      · exact Nat.le_of_eq (congrArg List.length h)
    | pause h => rw [h]; exact Nat.le_succ _
    | failure h => rw [h]; exact Nat.zero_le _

theorem length_next_lt (h : r.pieces ≠ []) : r.next.2.pieces.length < r.pieces.length := by
  have hf := r.peek_finds
  rw [next]
  generalize r.pieces = ps at h hf ⊢
  generalize r.peek = look at hf ⊢
  cases hf with
  | nothing _ => exact absurd rfl h
  | @byte r' b ps hp hc =>
    dsimp only
    split
    · rw [hc]; exact Nat.lt_succ_self _
    · next n _ =>
      have hl := length_gather_le (n - 1) r'.consume
      rw [hc] at hl
      exact Nat.lt_succ_of_le hl
  | pause hp => rw [hp]; exact Nat.lt_succ_self _
  | failure hp => rw [hp]; exact Nat.succ_pos _

/-- Nothing is left but interruptions, if anything: from now on every answer is none. -/
def spent (r : Reader) : Bool :=
  r.done || r.buffer.isEmpty && r.fills.all (· == .interrupted)

theorem spent_iff (r : Reader) : r.spent = true ↔ r.pieces = [] := by
  rcases r with ⟨buffer, fills, done⟩
  cases done with
  | true => simp [spent, pieces]
  | false =>
    have hf : ∀ f : Fill, f = .interrupted ↔ f.pieces = [] := by
      rintro (⟨_ | ⟨b, bs⟩⟩ | _ | e) <;> simp [Fill.pieces]
    simp [spent, pieces, hf]

/-- Adds the answers of the reader to those in `before`. -/
def readingsFrom (before : Array Reading) (r : Reader) : Array Reading :=
  if _h : r.spent then before else readingsFrom (before.push r.next.1) r.next.2
termination_by r.pieces.length
decreasing_by exact length_next_lt fun hp => _h (r.spent_iff.mpr hp)

/-- The answers of the reader up to the last one that is not just none for ever. -/
def readings (r : Reader) : List Reading := (readingsFrom #[] r).toList

end Reader

/-- The characters of what a run of fills brings. -/
def ofFills (fills : List Fill) : Source := ofReadings (Reader.readings ⟨[], fills, false⟩)

/-- The characters of some bytes that are all in the buffer. -/
def ofBytes (bs : List UInt8) : Source := ofReadings (Reader.readings ⟨bs, [], false⟩)

end Modula.Source

import Modula.Source.Bytes

/-! # Reading as decoding

What a reader answers depends on its pieces alone, however they are spread over the buffer and the
fills and however often a fill is interrupted. `decode` takes one answer from a row of pieces
without any buffer, and `readings` takes all of them.

* `gather_eq`, `next_eq`: the reader consumes what the decoder takes, and nothing else.
* `Reader.readings_eq`: so its answers are those of the decoder.
* `answer_ofReader`: the list of these answers is what the reader says when it is asked again and
  again. -/

namespace Modula.Source
set_option autoImplicit false

/-! ## The decoder -/

/-- What was found after a lead byte: the continuation bytes, whether they are as many as were
announced, the failure that broke them off, and what is left. -/
structure Sequel where
  bytes : List UInt8
  complete : Bool
  error : Option IoError
  rest : List Piece

/-- Takes `n` continuation bytes. A pause or a failure is used up, another byte is left. -/
def sequel : Nat → List Piece → Sequel
  | 0, ps => ⟨[], true, none, ps⟩
  | n + 1, .byte b :: ps =>
    if Utf8.isContinuation b then
      let s := sequel n ps
      { s with bytes := b :: s.bytes }
    else ⟨[], false, none, .byte b :: ps⟩
  | _ + 1, .pause :: ps => ⟨[], false, none, ps⟩
  | _ + 1, .failure e :: _ => ⟨[], false, some e, []⟩
  | _ + 1, [] => ⟨[], false, none, []⟩

theorem sequel_rest_length (n : Nat) (ps : List Piece) :
    (sequel n ps).rest.length ≤ ps.length := by
  fun_induction sequel n ps with
  | case1 => exact Nat.le_refl _
  | case2 n b ps _ s ih => exact Nat.le_succ_of_le ih
  | case3 => exact Nat.le_refl _
  | case4 => exact Nat.le_succ _
  | case5 => exact Nat.zero_le _
  | case6 => exact Nat.zero_le _

/-- The character of a lead byte and its sequel. -/
def Sequel.char (s : Sequel) (lead : UInt8) : Char :=
  if s.complete then (Utf8.decodeChar? lead s.bytes).getD Utf8.replacement else Utf8.replacement

/-- One answer and the pieces behind it. Nothing comes after a failure. -/
def decode : List Piece → Option (Reading × List Piece)
  | [] => none
  | .pause :: ps => some (.nothing, ps)
  | .failure e :: _ => some (⟨none, some e⟩, [])
  | .byte b :: ps =>
    match Utf8.width? b with
    | none => some (.ofChar Utf8.replacement, ps)
    | some n =>
      let s := sequel (n - 1) ps
      some (⟨some (s.char b), s.error⟩, s.rest)

theorem decode_length {ps rest : List Piece} {r : Reading} (h : decode ps = some (r, rest)) :
    rest.length < ps.length := by
  unfold decode at h
  split at h
  · cases h
  · cases h; simp
  · cases h; simp
  · next b ps =>
    split at h
    · cases h; simp
    · next n _ =>
      cases h
      have := sequel_rest_length (n - 1) ps
      simp only [List.length_cons]
      omega

/-- The answers that the pieces give, one after the other. -/
def readings (ps : List Piece) : List Reading :=
  match _h : decode ps with
  | none => []
  | some (r, rest) => r :: readings rest
termination_by ps.length
decreasing_by exact decode_length _h

theorem readings_of_none {ps : List Piece} (h : decode ps = none) : readings ps = [] := by
  rw [readings]
  split
  · rfl
  · next hs => rw [h] at hs; cases hs

theorem readings_of_some {ps rest : List Piece} {r : Reading} (h : decode ps = some (r, rest)) :
    readings ps = r :: readings rest := by
  rw [readings]
  split
  · next hn => rw [h] at hn; cases hn
  · next r' rest' hs => rw [h] at hs; cases hs; rfl

/-! ## The reader along its pieces -/

namespace Reader

variable {r : Reader}

theorem gather_eq (n : Nat) (r : Reader) :
    (gather n r).bytes =
        (if (sequel n r.pieces).complete then some (sequel n r.pieces).bytes else none) ∧
      (gather n r).error = (sequel n r.pieces).error ∧
      (gather n r).reader.pieces = (sequel n r.pieces).rest := by
  induction n generalizing r with
  | zero => exact ⟨rfl, rfl, rfl⟩
  | succ n ih =>
    have hf := r.peek_finds
    rw [gather]
    generalize r.pieces = ps at hf ⊢
    generalize r.peek = look at hf ⊢
    cases hf with
    | nothing h => exact ⟨rfl, rfl, h⟩
    | @byte r' b ps h hc =>
      rw [sequel]
      dsimp only
      split
      · obtain ⟨hb, he, hr⟩ := ih r'.consume
        rw [hc] at hb he hr
        refine ⟨?_, he, hr⟩
        dsimp only
        rw [hb]
        split <;> rfl
      · exact ⟨rfl, rfl, h⟩
    | pause h => exact ⟨rfl, rfl, h⟩
    | failure h => exact ⟨rfl, rfl, h⟩

theorem next_eq (h : r.pieces ≠ []) : decode r.pieces = some (r.next.1, r.next.2.pieces) := by
  have hf := r.peek_finds
  rw [next]
  generalize r.pieces = ps at h hf ⊢
  generalize r.peek = look at hf ⊢
  cases hf with
  | nothing _ => exact absurd rfl h
  | @byte r' b ps hp hc =>
    rw [decode]
    dsimp only
    cases Utf8.width? b with
    | none =>
      dsimp only
      rw [hc]
    | some n =>
      obtain ⟨hb, he, hr⟩ := gather_eq (n - 1) r'.consume
      rw [hc] at hb he hr
      dsimp only
      rw [hb, he, hr, Sequel.char]
      split <;> rfl
  | pause hp =>
    dsimp only
    rw [hp]
    rfl
  | failure hp =>
    dsimp only
    rw [hp]
    rfl

theorem next_of_nil (h : r.pieces = []) : r.next.1 = .nothing ∧ r.next.2.pieces = [] := by
  have hf := r.peek_finds
  rw [next]
  rw [h] at hf
  generalize r.peek = look at hf ⊢
  cases hf with
  | nothing hp => exact ⟨rfl, hp⟩

theorem readingsFrom_eq (before : Array Reading) (r : Reader) :
    (readingsFrom before r).toList = before.toList ++ Source.readings r.pieces := by
  fun_induction readingsFrom before r with
  | case1 before r h =>
    rw [r.spent_iff.mp h, readings_of_none rfl, List.append_nil]
  | case2 before r h ih =>
    have hp : r.pieces ≠ [] := fun hp => h (r.spent_iff.mpr hp)
    rw [ih, readings_of_some (next_eq hp), Array.toList_push, List.append_assoc]
    rfl

theorem readings_eq (r : Reader) : r.readings = Source.readings r.pieces := by
  rw [readings, readingsFrom_eq]
  rfl

end Reader

theorem ofFills_eq (fills : List Fill) :
    ofFills fills = ofReadings (readings (fills.flatMap Fill.pieces)) := by
  rw [ofFills, Reader.readings_eq]
  rfl

theorem ofBytes_eq_readings (bs : List UInt8) : ofBytes bs = ofReadings (readings (bs.map .byte)) := by
  rw [ofBytes, Reader.readings_eq, Reader.pieces]
  simp

/-! ## One answer after the other -/

/-- What a source answers when it has been asked `n` times before. -/
def answer (s : Source) : Nat → Reading
  | 0 => s.read.1
  | n + 1 => s.read.2.answer n

theorem answer_eq (s : Source) (n : Nat) : s.answer n = s.upcoming[n]?.getD .nothing := by
  induction n generalizing s with
  | zero => rcases s with ⟨_ | ⟨r, rs⟩, m⟩ <;> rfl
  | succ n ih =>
    rw [answer, ih, read_upcoming]
    rcases s with ⟨_ | ⟨r, rs⟩, m⟩ <;> rfl

/-- What a reader answers when it has been asked `n` times before. -/
def Reader.answer (r : Reader) : Nat → Reading
  | 0 => r.next.1
  | n + 1 => r.next.2.answer n

/-- The reader goes on as its list of answers does, also behind the end of the list. -/
theorem answer_ofReader (r : Reader) (n : Nat) : (ofReadings r.readings).answer n = r.answer n := by
  rw [answer_eq, r.readings_eq, ofReadings]
  induction n generalizing r with
  | zero =>
    by_cases hp : r.pieces = []
    · rw [hp, readings_of_none rfl]
      exact (Reader.next_of_nil hp).1.symm
    · rw [readings_of_some (Reader.next_eq hp)]
      rfl
  | succ n ih =>
    rw [Reader.answer, ← ih]
    by_cases hp : r.pieces = []
    · rw [hp, (Reader.next_of_nil hp).2, readings_of_none rfl]
      rfl
    · rw [readings_of_some (Reader.next_eq hp)]
      rfl

end Modula.Source

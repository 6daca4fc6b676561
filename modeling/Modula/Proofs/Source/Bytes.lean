import Modula.Proofs.Echo
import Modula.Proofs.Source.Pieces

/-! # Reading bytes

Bytes that come without a failure give one character after the other and then nothing, so a source
of bytes is the source of the text that they are read as (`ofBytes_eq`). The decoder takes the bytes
of a character as a whole (`decode_encodeChar`), so a text that was encoded is read back
(`decoded_encode`) and checked as the text itself is (`ofBytes_encode_agrees`). -/

namespace Modula
set_option autoImplicit false

namespace Source

/-! ## Bytes without a failure -/

/-- The text that bytes are read as. -/
def decoded (bs : List UInt8) : List Char := (ofBytes bs).upcoming.filterMap Reading.char

theorem decoded_eq (bs : List UInt8) :
    decoded bs = (readings (bs.map .byte)).filterMap Reading.char := by
  rw [decoded, ofBytes_eq_readings, ofReadings]

theorem sequel_bytes (n : Nat) (bs : List UInt8) :
    (sequel n (bs.map .byte)).error = none ∧
      ∃ rest : List UInt8,
        (sequel n (bs.map .byte)).rest = rest.map .byte ∧ rest.length ≤ bs.length := by
  induction n generalizing bs with
  | zero => exact ⟨rfl, bs, rfl, Nat.le_refl _⟩
  | succ n ih =>
    cases bs with
    | nil => exact ⟨rfl, [], rfl, Nat.le_refl _⟩
    | cons b bs =>
      obtain ⟨he, rest, hr, hl⟩ := ih bs
      rw [List.map_cons, sequel]
      split
      · exact ⟨he, rest, hr, Nat.le_succ_of_le hl⟩
      · exact ⟨rfl, b :: bs, rfl, Nat.le_refl _⟩

theorem decode_bytes (b : UInt8) (bs : List UInt8) :
    ∃ (c : Char) (rest : List UInt8),
      decode ((b :: bs).map .byte) = some (.ofChar c, rest.map .byte) ∧
        rest.length < (b :: bs).length := by
  rw [List.map_cons, decode]
  cases Utf8.width? b with
  | none => exact ⟨_, bs, rfl, Nat.lt_succ_self _⟩
  | some n =>
    obtain ⟨he, rest, hr, hl⟩ := sequel_bytes (n - 1) bs
    dsimp only
    rw [he, hr]
    exact ⟨_, rest, rfl, Nat.lt_succ_of_le hl⟩

/-- Every answer is a character, and nothing goes wrong. -/
theorem readings_bytes (bs : List UInt8) :
    readings (bs.map .byte) = (decoded bs).map Reading.ofChar := by
  induction hn : bs.length using Nat.strong_induction_on generalizing bs with
  | _ n ih =>
  subst hn
  rw [decoded_eq]
  cases bs with
  | nil =>
    rw [List.map_nil, readings_of_none rfl]
    rfl
  | cons b bs =>
    obtain ⟨c, rest, hd, hl⟩ := decode_bytes b bs
    rw [readings_of_some hd, List.filterMap_cons]
    have hr := ih _ hl rest rfl
    rw [decoded_eq] at hr
    exact congrArg (Reading.ofChar c :: ·) hr

theorem ofBytes_eq (bs : List UInt8) : ofBytes bs = ofChars (decoded bs) := by
  rw [ofBytes_eq_readings, readings_bytes, ofChars]

theorem text_ofBytes (bs : List UInt8) : (ofBytes bs).text = visible (decoded bs) := by
  rw [ofBytes_eq, text_ofChars]

/-! ## Encoded text -/

theorem sequel_of_continuation {bs : List UInt8} (h : ∀ b ∈ bs, Utf8.isContinuation b = true)
    (ps : List Piece) : sequel bs.length (bs.map .byte ++ ps) = ⟨bs, true, none, ps⟩ := by
  induction bs with
  | nil => rfl
  | cons b bs ih =>
    rw [List.forall_mem_cons] at h
    rw [List.map_cons, List.cons_append, List.length_cons, sequel, if_pos h.1, ih h.2]

/-- The decoder takes exactly the bytes of a character. -/
theorem decode_encodeChar (c : Char) (ps : List Piece) :
    decode ((String.utf8EncodeChar c).map .byte ++ ps) = some (.ofChar c, ps) := by
  obtain ⟨lead, rest, he, hs⟩ := Utf8.encoding_spec c
  rw [he, List.map_cons, List.cons_append, decode, hs.width]
  dsimp only
  rw [Nat.add_sub_cancel, sequel_of_continuation hs.continuation]
  simp only [Sequel.char, if_true, hs.decodeChar? he, Option.getD_some, Reading.ofChar]

theorem readings_encode (cs : List Char) :
    readings ((Utf8.encode cs).map .byte) = cs.map Reading.ofChar := by
  induction cs with
  | nil => exact readings_of_none rfl
  | cons c cs ih =>
    rw [Utf8.encode_cons, List.map_append, readings_of_some (decode_encodeChar c _), ih]
    rfl

theorem decoded_encode (cs : List Char) : decoded (Utf8.encode cs) = cs := by
  rw [decoded_eq, readings_encode, List.filterMap_map]
  exact List.filterMap_some

theorem ofBytes_encode (cs : List Char) : ofBytes (Utf8.encode cs) = ofChars cs := by
  rw [ofBytes_eq, decoded_encode]

/-! ## One answer after the other -/

theorem answer_ofChars (cs : List Char) (n : Nat) : (ofChars cs).answer n = ⟨cs[n]?, none⟩ := by
  rw [answer_eq, ofChars, ofReadings, List.getElem?_map]
  cases cs[n]? <;> rfl

end Source

/-! ## Checking encoded text -/

/-- The bytes of a text are read as its characters and then as nothing. So a check of them comes to
the same verdict as a check of the text and copies the same into any sink; and if it accepts a text
without NUL, a transcript of it is the bytes again. -/
theorem ofBytes_encode_agrees (cs : List Char) :
    (∀ n, (Source.ofBytes (Utf8.encode cs)).answer n = ⟨cs[n]?, none⟩) ∧
    (∀ {κ : Type} [Sink κ] (sink : κ) (journal : Journal),
      (Cursor.load (.ofBytes (Utf8.encode cs)) sink journal).check =
        (Cursor.load (.ofChars cs) sink journal).check ∧
      (Cursor.load (.ofBytes (Utf8.encode cs)) sink journal).check.1 = check cs ∧
      (Cursor.load (.ofBytes (Utf8.encode cs)) sink journal).check.2.sink =
        Sink.copied sink (echoed cs)) ∧
    (∀ (store : Store) (journal : Journal), store.limit = none → store.held = #[] →
      check cs = .ok () → '\x00' ∉ cs →
      (Cursor.load (.ofBytes (Utf8.encode cs)) (Transcript.ofWriter store)
        journal).check.2.sink.out.held.toList = Utf8.encode cs) := by
  rw [Source.ofBytes_encode]
  have ht := Source.text_ofChars cs
  refine ⟨Source.answer_ofChars cs, fun sink journal => ?_, fun store journal hl hh ha hn => ?_⟩
  · exact ⟨rfl, check_of_text ht sink journal, check_copies ht sink journal⟩
  · have ho : (Transcript.ofWriter store).Open Store.Holds [] :=
      Transcript.open_ofWriter ⟨hl, by rw [hh]⟩
    have hc := ho.copied Store.keeps_holds (echoed cs)
    rw [check_copies ht, hc.out.held, echoed_of_accepted ha, visible_of_not_mem hn, List.nil_append]

theorem ofBytes_encode_agrees_four_widths :
    (Source.ofBytes (Utf8.encode "VAR é€𝄞:T;".toList)).answer 6 = ⟨some '𝄞', none⟩ ∧
    (Cursor.load (.ofBytes (Utf8.encode "VAR é:T;".toList)) (Transcript.ofWriter Store.unbounded)
      #[]).check.2.sink.out.held.toList = Utf8.encode "VAR é:T;".toList :=
  ⟨(ofBytes_encode_agrees "VAR é€𝄞:T;".toList).1 6,
    (ofBytes_encode_agrees "VAR é:T;".toList).2.2 .unbounded #[] rfl rfl (by decide +kernel)
      (by decide +kernel)⟩

end Modula

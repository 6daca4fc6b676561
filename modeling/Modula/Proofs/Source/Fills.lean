import Modula.Proofs.Source.Segments

/-! # Bytes in fills

The pieces of a reader are the bytes that its fills deliver, and then nothing or a failure
(`Delivers.pieces`). So how bytes are cut into fills and how often a fill is interrupted makes no
difference to what is read (`Delivers.answer`). A failure reads as the end of the bytes before it,
whatever would come behind it, and a sequence that it cuts gives a replacement character
(`decoded_cut`). So a check of the fills goes as a check of the bytes (`fills_transparent`). -/

namespace Modula
set_option autoImplicit false

namespace Source

variable {fills : List Fill} {bs : List UInt8} {s t : Source}

/-! ## What fills deliver -/

/-- The fills bring the bytes in chunks, some of them after interruptions, and then end or fail.
Anything may come behind a failure. -/
inductive Delivers : List Fill → List UInt8 → Prop where
  | ended : Delivers [] []
  | failed (e : IoError) (more : List Fill) : Delivers (.failed e :: more) []
  | interrupted {fills : List Fill} {bs : List UInt8} :
      Delivers fills bs → Delivers (.interrupted :: fills) bs
  | chunk {chunk bs : List UInt8} {fills : List Fill} :
      chunk ≠ [] → Delivers fills bs → Delivers (.bytes chunk :: fills) (chunk ++ bs)

theorem pieces_of_ne_nil {chunk : List UInt8} (h : chunk ≠ []) :
    (Fill.bytes chunk).pieces = chunk.map .byte := by
  cases chunk with
  | nil => exact absurd rfl h
  | cons b chunk => rfl

theorem Delivers.pieces (h : Delivers fills bs) :
    ∃ ps, Broken ps ∧ fills.flatMap Fill.pieces = bs.map .byte ++ ps := by
  induction h with
  | ended => exact ⟨[], .ended, rfl⟩
  | failed e more => exact ⟨_, .failed e (more.flatMap Fill.pieces), rfl⟩
  | interrupted _ ih => exact ih
  | chunk hc _ ih =>
    obtain ⟨ps, hp, he⟩ := ih
    refine ⟨ps, hp, ?_⟩
    rw [List.flatMap_cons, pieces_of_ne_nil hc, he, List.map_append, List.append_assoc]

/-! ## What is read of them -/

theorem map_char_readings {ps : List Piece} (hp : Broken ps) (bs : List UInt8) :
    ∃ m, (readings (bs.map .byte ++ ps)).map Reading.char =
      (decoded bs).map some ++ List.replicate m none := by
  induction bs using segments.induct generalizing ps with
  | case1 =>
    rw [List.map_nil, List.nil_append, decoded_nil]
    cases hp with
    | ended => exact ⟨0, by rw [readings_of_none rfl]; rfl⟩
    | failed e more => exact ⟨1, by rw [readings_of_some rfl, readings_of_none rfl]; rfl⟩
  | case2 b bs ih =>
    obtain ⟨e, ps', hps, hd⟩ := decode_segment hp b bs
    have hp' : Broken ps' := by
      rcases hps with rfl | rfl
      · exact hp
      · exact .ended
    obtain ⟨m, hm⟩ := ih hp'
    refine ⟨m, ?_⟩
    rw [readings_of_some hd, List.map_cons, hm, decoded_cons, List.map_cons, List.cons_append]

theorem Delivers.answer (h : Delivers fills bs) (n : Nat) :
    ((ofFills fills).answer n).char = (decoded bs)[n]? := by
  obtain ⟨ps, hp, he⟩ := h.pieces
  obtain ⟨m, hm⟩ := map_char_readings hp bs
  rw [← he] at hm
  have hn : ((ofFills fills).answer n).char =
      ((readings (fills.flatMap Fill.pieces)).map Reading.char)[n]?.getD none := by
    rw [answer_eq, List.getElem?_map, ofFills_eq, ofReadings]
    cases (readings (fills.flatMap Fill.pieces))[n]? <;> rfl
  rw [hn, hm]
  by_cases hl : n < (decoded bs).length
  · rw [List.getElem?_append_left (by rwa [List.length_map]), List.getElem?_map,
      List.getElem?_eq_getElem hl]
    rfl
  · rw [List.getElem?_append_right (by rw [List.length_map]; omega), List.getElem?_replicate,
      List.getElem?_eq_none (Nat.le_of_not_lt hl)]
    split <;> rfl

/-- A sequence of which only the first bytes have come is one replacement character. -/
theorem decoded_cut {lead : UInt8} {rest : List UInt8} {n : Nat} (hw : Utf8.width? lead = some n)
    (hn : rest.length + 1 < n) (hr : ∀ b ∈ rest, Utf8.isContinuation b = true) (x : List UInt8) :
    decoded (x ++ lead :: rest) = decoded x ++ [Utf8.replacement] := by
  have hy : ∀ b ∈ (lead :: rest).head?, Utf8.isContinuation b = false := by
    intro b hb
    cases hb
    exact Utf8.isContinuation_of_width? hw
  have ht : trailing lead rest = rest := by
    rw [trailing, continued, announced, hw, Option.getD_some, List.take_of_length_le (by omega),
      List.takeWhile_eq_self_iff]
    exact hr
  have hd : Utf8.decodeChar? lead rest = none := by
    apply Utf8.decodeChar?_of_width?
    rw [hw, Ne, Option.some_inj]
    omega
  rw [decoded_append hy, decoded_cons, ht, hd, List.drop_length, decoded_nil]
  rfl

/-! ## Sources with the same characters -/

theorem text_of_answers (h : ∀ n, (s.answer n).char = (t.answer n).char) : s.text = t.text := by
  induction hl : s.upcoming.length generalizing s t with
  | zero =>
    -- neither source has a first character
    have hs : s.read.1.char = none := by
      rcases s with ⟨_ | ⟨r, rs⟩, m⟩
      · rfl
      · cases hl
    have ht : t.read.1.char = none := (h 0).symm.trans hs
    rw [text_of_none (by rw [hs]; rfl), text_of_none (by rw [ht]; rfl)]
  | succ l ih =>
    have hr : s.read.1.char = t.read.1.char := h 0
    cases hc : s.read.1.char.filter (· ≠ '\x00') with
    | none => rw [text_of_none hc, text_of_none (hr ▸ hc)]
    | some ch =>
      have hrest : s.read.2.text = t.read.2.text := by
        apply ih fun n => h (n + 1)
        rw [read_upcoming, List.length_tail, hl, Nat.add_sub_cancel]
      have hc' : t.read.1.char.filter (· ≠ '\x00') = some ch := hr ▸ hc
      rw [text_of_some hc, text_of_some hc', hrest]

theorem Delivers.text (h : Delivers fills bs) : (ofFills fills).text = visible (decoded bs) := by
  rw [← text_ofBytes]
  apply text_of_answers
  intro n
  rw [h.answer, answer_ofBytes]

end Source

/-- A reader that is asked again and again reads its fills as the bytes that they deliver: one
character after the other and then nothing, however the bytes are cut, however often a fill is
interrupted, and whatever comes behind a failure. Of a sequence that breaks off, at a failure or at
the end, one replacement character is left. So a check comes to the same verdict on both and copies
the same into its sink. -/
theorem fills_transparent {fills : List Source.Fill} {bs : List UInt8}
    (h : Source.Delivers fills bs) :
    (∀ n, (Source.ofFills fills).answer n = (Source.Reader.mk [] fills false).answer n ∧
      ((Source.ofFills fills).answer n).char = (Source.decoded bs)[n]? ∧
      (Source.ofBytes bs).answer n = ⟨(Source.decoded bs)[n]?, none⟩) ∧
    (∀ (x : List UInt8) (lead : UInt8) (rest : List UInt8) (n : Nat), bs = x ++ lead :: rest →
      Utf8.width? lead = some n → rest.length + 1 < n →
      (∀ b ∈ rest, Utf8.isContinuation b = true) →
      Source.decoded bs = Source.decoded x ++ [Utf8.replacement]) ∧
    (∀ {κ : Type} [Sink κ] (sink : κ) (journal journal' : Journal),
      (Cursor.load (.ofFills fills) sink journal).check.1 =
        (Cursor.load (.ofBytes bs) sink journal').check.1 ∧
      (Cursor.load (.ofFills fills) sink journal).check.2.sink =
        (Cursor.load (.ofBytes bs) sink journal').check.2.sink) := by
  have hf : (Source.ofFills fills).text = visible (Source.decoded bs) := h.text
  have hb : (Source.ofBytes bs).text = visible (Source.decoded bs) := Source.text_ofBytes bs
  refine ⟨fun n => ⟨Source.answer_ofReader _ n, h.answer n, Source.answer_ofBytes bs n⟩, ?_,
    fun sink journal journal' => ?_⟩
  · rintro x lead rest n rfl hw hn hr
    exact Source.decoded_cut hw hn hr x
  · rw [check_of_text hf, check_of_text hb, check_copies hf, check_copies hb]
    exact ⟨rfl, rfl⟩

/-- The device fails in the middle of a character, the rest of which it would give later. -/
theorem fills_transparent_cut_character :
    ((Source.ofFills [.bytes [0x56, 0x41], .interrupted, .bytes [0x52, 0x20, 0xC3],
      .failed .deviceGone, .bytes [0xA9]]).answer 5).char = none ∧
    Source.decoded [0x56, 0x41, 0x52, 0x20, 0xC3] =
      Source.decoded [0x56, 0x41, 0x52, 0x20] ++ [Utf8.replacement] ∧
    (Cursor.load (.ofFills [.bytes [0x56, 0x41], .interrupted, .bytes [0x52, 0x20, 0xC3],
      .failed .deviceGone, .bytes [0xA9]]) (Recorder.mk []) #[]).check.2.sink =
      (Cursor.load (.ofBytes [0x56, 0x41, 0x52, 0x20, 0xC3]) (Recorder.mk [])
        #[]).check.2.sink := by
  have hd : Source.Delivers [.bytes [0x56, 0x41], .interrupted, .bytes [0x52, 0x20, 0xC3],
      .failed .deviceGone, .bytes [0xA9]] [0x56, 0x41, 0x52, 0x20, 0xC3] :=
    .chunk (List.cons_ne_nil _ _)
      (.interrupted (.chunk (List.cons_ne_nil _ _) (.failed .deviceGone [.bytes [0xA9]])))
  refine ⟨((fills_transparent hd).1 5).2.1.trans ?_, ?_, ((fills_transparent hd).2.2 _ #[] #[]).2⟩
  · decide +kernel
  · exact (fills_transparent hd).2.1 [0x56, 0x41, 0x52, 0x20] 0xC3 [] 2 rfl (by decide) (by decide)
      (by simp)

end Modula

import Mathlib.Data.List.Forall2
import Modula.Proofs.Source.Bytes

/-! # The segments of some bytes

The decoder cuts its bytes into segments, a lead byte and the continuation bytes behind it, as many
as the lead announces or as there are. Each segment gives one character: the one that it encodes, or
the replacement character if it encodes none (`decoded_cons`).

* `decoded_append`: two runs of bytes are read apart if the second does not go on with a segment of
  the first, so reading falls into step again behind malformed bytes (`decoded_resynchronises`).
* `decoded_partition`: the segments and the characters go together, one by one. -/

namespace Modula
set_option autoImplicit false

namespace Source

variable {x y bs : List UInt8} {b : UInt8}

/-! ## One segment -/

/-- How many continuation bytes a byte announces; one that starts nothing announces none. -/
def announced (lead : UInt8) : Nat := (Utf8.width? lead).getD 1 - 1

/-- The continuation bytes in front of some bytes, as far as `n` of them. -/
def continued (n : Nat) (bs : List UInt8) : List UInt8 :=
  (bs.take n).takeWhile Utf8.isContinuation

/-- The bytes behind a lead byte that belong to its segment. -/
def trailing (lead : UInt8) (bs : List UInt8) : List UInt8 := continued (announced lead) bs

/-- The pieces end, or they break off with a failure. -/
inductive Broken : List Piece → Prop where
  | ended : Broken []
  | failed (e : IoError) (more : List Piece) : Broken (.failure e :: more)

theorem trailing_isPrefix (lead : UInt8) (bs : List UInt8) : trailing lead bs <+: bs := by
  have ht : trailing lead bs <+: bs.take (announced lead) := List.takeWhile_prefix _
  exact ht.trans <| List.take_prefix _ _

theorem length_trailing_le (lead : UInt8) (bs : List UInt8) :
    (trailing lead bs).length ≤ 3 := by
  have ht : trailing lead bs <+: bs.take (announced lead) := List.takeWhile_prefix _
  have ha : announced lead ≤ 3 := by
    unfold announced Utf8.width?
    split_ifs <;> decide
  have hl := ht.length_le
  rw [List.length_take] at hl
  omega

theorem isContinuation_of_mem_trailing {lead : UInt8} (h : b ∈ trailing lead bs) :
    Utf8.isContinuation b = true := List.mem_takeWhile_imp h

theorem trailing_of_width? (h : Utf8.width? b = none) (bs : List UInt8) : trailing b bs = [] := by
  simp [trailing, continued, announced, h]

/-- What the decoder takes behind a lead byte, if the bytes are all there is or a failure comes
behind them. -/
theorem sequel_broken {ps : List Piece} (hp : Broken ps) (n : Nat) (bs : List UInt8) :
    (sequel n (bs.map .byte ++ ps)).bytes = continued n bs ∧
      ((sequel n (bs.map .byte ++ ps)).complete = true ↔ (continued n bs).length = n) ∧
      ∃ ps', (ps' = ps ∨ ps' = []) ∧ (sequel n (bs.map .byte ++ ps)).rest =
        (bs.drop (continued n bs).length).map .byte ++ ps' := by
  unfold continued
  induction n generalizing bs with
  | zero => exact ⟨rfl, by simp [sequel], ps, .inl rfl, rfl⟩
  | succ n ih =>
    cases bs with
    | nil =>
      cases hp with
      | ended => exact ⟨rfl, by simp [sequel], [], .inr rfl, rfl⟩
      | failed e more => exact ⟨rfl, by simp [sequel], [], .inr rfl, rfl⟩
    | cons b bs =>
      obtain ⟨hb, hc, ps', hps, hr⟩ := ih bs
      rw [List.map_cons, List.cons_append, sequel, List.take_succ_cons, List.takeWhile_cons]
      split
      · refine ⟨congrArg (b :: ·) hb, ?_, ps', hps, hr⟩
        rw [List.length_cons, Nat.succ_inj]
        exact hc
      · exact ⟨rfl, by simp, ps, .inl rfl, rfl⟩

/-- The decoder takes one segment and leaves the bytes behind it. -/
theorem decode_segment {ps : List Piece} (hp : Broken ps) (b : UInt8) (bs : List UInt8) :
    ∃ e ps', (ps' = ps ∨ ps' = []) ∧ decode ((b :: bs).map .byte ++ ps) =
      some (⟨some ((Utf8.decodeChar? b (trailing b bs)).getD Utf8.replacement), e⟩,
        (bs.drop (trailing b bs).length).map .byte ++ ps') := by
  rw [List.map_cons, List.cons_append, decode]
  cases hw : Utf8.width? b with
  | none =>
    have hd : Utf8.decodeChar? b [] = none := Utf8.decodeChar?_of_width? (by simp [hw])
    rw [trailing_of_width? hw, hd]
    exact ⟨none, ps, .inl rfl, rfl⟩
  | some n =>
    have ht : continued (n - 1) bs = trailing b bs := by
      rw [trailing, announced, hw]
      rfl
    obtain ⟨hb, hc, ps', hps, hr⟩ := sequel_broken hp (n - 1) bs
    rw [ht] at hb hc hr
    refine ⟨(sequel (n - 1) (bs.map .byte ++ ps)).error, ps', hps, ?_⟩
    dsimp only
    rw [hr, Sequel.char, hb]
    by_cases hn : (trailing b bs).length = n - 1
    · rw [if_pos (hc.mpr hn)]
    · -- a segment that is too short encodes nothing
      have hd : Utf8.decodeChar? b (trailing b bs) = none := by
        apply Utf8.decodeChar?_of_width?
        rw [hw]
        intro h
        cases h
        exact hn rfl
      rw [if_neg (fun h => hn (hc.mp h)), hd]
      rfl

/-! ## All segments -/

/-- The segments that the decoder cuts some bytes into. -/
def segments : List UInt8 → List (List UInt8)
  | [] => []
  | b :: bs => (b :: trailing b bs) :: segments (bs.drop (trailing b bs).length)
termination_by bs => bs.length
decreasing_by simp only [List.length_cons, List.length_drop]; omega

@[simp] theorem decoded_nil : decoded [] = [] := by
  rw [decoded_eq, List.map_nil, readings_of_none rfl]
  rfl

/-- Each segment gives one character. -/
theorem decoded_cons (b : UInt8) (bs : List UInt8) :
    decoded (b :: bs) = (Utf8.decodeChar? b (trailing b bs)).getD Utf8.replacement ::
      decoded (bs.drop (trailing b bs).length) := by
  obtain ⟨e, ps', hps, hd⟩ := decode_segment .ended b bs
  have hps' : ps' = [] := by simpa using hps
  rw [List.append_nil, hps', List.append_nil] at hd
  rw [decoded_eq, readings_of_some hd, List.filterMap_cons, decoded_eq]

theorem decoded_cons_of_width? (h : Utf8.width? b = none) (bs : List UInt8) :
    decoded (b :: bs) = Utf8.replacement :: decoded bs := by
  have hd : Utf8.decodeChar? b [] = none := Utf8.decodeChar?_of_width? (by simp [h])
  rw [decoded_cons, trailing_of_width? h, hd]
  rfl

theorem answer_ofBytes (bs : List UInt8) (n : Nat) :
    (ofBytes bs).answer n = ⟨(decoded bs)[n]?, none⟩ := by
  rw [ofBytes_eq, answer_ofChars]

/-! ## Falling into step again -/

theorem continued_append (hy : ∀ b ∈ y.head?, Utf8.isContinuation b = false) (n : Nat)
    (x : List UInt8) : continued n (x ++ y) = continued n x := by
  unfold continued
  induction x generalizing n with
  | nil =>
    cases n with
    | zero => rfl
    | succ n =>
      cases y with
      | nil => rfl
      | cons b y =>
        rw [List.nil_append, List.take_succ_cons, List.takeWhile_cons, hy b rfl]
        rfl
  | cons a x ih =>
    cases n with
    | zero => rfl
    | succ n => rw [List.cons_append, List.take_succ_cons, List.take_succ_cons, List.takeWhile_cons,
        List.takeWhile_cons, ih]

theorem decoded_append (hy : ∀ b ∈ y.head?, Utf8.isContinuation b = false) (x : List UInt8) :
    decoded (x ++ y) = decoded x ++ decoded y := by
  induction x using segments.induct with
  | case1 => rw [List.nil_append, decoded_nil, List.nil_append]
  | case2 b x ih =>
    have ht : trailing b (x ++ y) = trailing b x := continued_append hy _ x
    have hd : (x ++ y).drop (trailing b x).length = x.drop (trailing b x).length ++ y :=
      List.drop_append_of_le_length (trailing_isPrefix b x).length_le
    rw [List.cons_append, decoded_cons, decoded_cons b x, ht, hd, ih, List.cons_append]

theorem decoded_encodeChar_append (c : Char) (y : List UInt8) :
    decoded (String.utf8EncodeChar c ++ y) = c :: decoded y := by
  rw [decoded_eq, List.map_append, readings_of_some (decode_encodeChar c _), List.filterMap_cons,
    decoded_eq]
  rfl

theorem head?_encodeChar (c : Char) (y : List UInt8) :
    ∀ b ∈ (String.utf8EncodeChar c ++ y).head?, Utf8.isContinuation b = false := by
  obtain ⟨lead, rest, he, hs⟩ := Utf8.encoding_spec c
  intro b hb
  rw [he] at hb
  cases hb
  exact Utf8.isContinuation_of_width? hs.width

theorem head?_encode (cs : List Char) :
    ∀ b ∈ (Utf8.encode cs).head?, Utf8.isContinuation b = false := by
  cases cs with
  | nil => simp
  | cons c cs => exact head?_encodeChar c _

/-! ## Malformed bytes -/

theorem decoded_of_isContinuation (hx : ∀ b ∈ x, Utf8.isContinuation b = true) :
    decoded (x ++ y) = List.replicate x.length Utf8.replacement ++ decoded y := by
  induction x with
  | nil => rfl
  | cons b x ih =>
    rw [List.forall_mem_cons] at hx
    rw [List.cons_append, decoded_cons_of_width? (Utf8.width?_of_isContinuation hx.1), ih hx.2]
    rfl

theorem decoded_of_unfit {lead : UInt8} {rest : List UInt8} (hf : Utf8.Form lead rest)
    (hu : Utf8.Unfit lead rest) (y : List UInt8) :
    ∃ m, 0 < m ∧ decoded (lead :: rest ++ y) = List.replicate m Utf8.replacement ++ decoded y := by
  rw [List.cons_append]
  rcases hf.width? with hw | hw
  · -- the bytes are one segment, which no character has
    have ht : trailing lead (rest ++ y) = rest := by
      rw [trailing, continued, announced, hw, Option.getD_some, Nat.add_sub_cancel, List.take_left,
        List.takeWhile_eq_self_iff]
      exact hf.continuation
    have hd : Utf8.decodeChar? lead rest = none := Utf8.decodeChar?_eq_none_iff.mpr hu.encode_ne
    refine ⟨1, Nat.one_pos, ?_⟩
    rw [decoded_cons, ht, hd, List.drop_left]
    rfl
  · -- no segment starts with the lead, so each byte is one of its own
    refine ⟨rest.length + 1, Nat.succ_pos _, ?_⟩
    rw [decoded_cons_of_width? hw, decoded_of_isContinuation hf.continuation]
    rfl

/-! ## The partition -/

/-- One segment and its character: the segment encodes the character, or it encodes none and all
its bytes but the first are continuation bytes. -/
structure Segment (s : List UInt8) (c : Char) : Prop where
  nonempty : s ≠ []
  short : s.length ≤ 4
  reading : s = String.utf8EncodeChar c ∨
    (∀ d, s ≠ String.utf8EncodeChar d) ∧ c = Utf8.replacement ∧ ∀ b ∈ s.tail, 0x80 ≤ b ∧ b ≤ 0xBF

theorem segment_trailing (b : UInt8) (bs : List UInt8) :
    Segment (b :: trailing b bs)
      ((Utf8.decodeChar? b (trailing b bs)).getD Utf8.replacement) where
  nonempty := List.cons_ne_nil _ _
  short := Nat.succ_le_succ (length_trailing_le b bs)
  reading := by
    cases hd : Utf8.decodeChar? b (trailing b bs) with
    | some c => exact .inl (Utf8.encode_of_decodeChar? hd).symm
    | none =>
      refine .inr ⟨fun d he => Utf8.decodeChar?_eq_none_iff.mp hd d he.symm, rfl, fun a ha => ?_⟩
      exact (Utf8.isContinuation_iff_le a).mp (isContinuation_of_mem_trailing ha)

theorem flatten_segments (bs : List UInt8) : (segments bs).flatten = bs := by
  induction bs using segments.induct with
  | case1 => rw [segments, List.flatten_nil]
  | case2 b bs ih =>
    have ht := List.prefix_iff_eq_append.mp (trailing_isPrefix b bs)
    rw [segments, List.flatten_cons, ih, List.cons_append, ht]

theorem forall₂_segments (bs : List UInt8) :
    List.Forall₂ Segment (segments bs) (decoded bs) := by
  induction bs using segments.induct with
  | case1 =>
    rw [segments, decoded_nil]
    exact .nil
  | case2 b bs ih =>
    rw [segments, decoded_cons]
    exact .cons (segment_trailing b bs) ih

theorem encode_decoded_iff (bs : List UInt8) :
    Utf8.encode (decoded bs) = bs ↔ bs.toByteArray.IsValidUTF8 := by
  constructor
  · intro h
    exact ⟨decoded bs, congrArg List.toByteArray h.symm⟩
  · rintro ⟨cs, hcs⟩
    have he : bs = Utf8.encode cs := List.toByteArray_inj.mp hcs
    rw [he, decoded_encode]

end Source

/-- The characters that some bytes are read as go one by one with the segments of a partition of
the bytes. So encoding them gives the bytes back just in case these are valid UTF-8; and bytes that
carry a number in a longer form than it needs, or one that no character has, are read as nothing but
replacement characters wherever they stand. -/
theorem decoded_partition (bs : List UInt8) :
    (∀ n, (Source.ofBytes bs).answer n = ⟨(Source.decoded bs)[n]?, none⟩) ∧
    (∃ cut : List (List UInt8), cut.flatten = bs ∧
      List.Forall₂ Source.Segment cut (Source.decoded bs)) ∧
    (Utf8.encode (Source.decoded bs) = bs ↔ bs.toByteArray.IsValidUTF8) ∧
    (∀ (x : List UInt8) (lead : UInt8) (rest y : List UInt8), bs = x ++ (lead :: rest ++ y) →
      Utf8.Form lead rest → Utf8.Unfit lead rest →
      ∃ m, 0 < m ∧ Source.decoded bs =
        Source.decoded x ++ (List.replicate m Utf8.replacement ++ Source.decoded y)) := by
  refine ⟨Source.answer_ofBytes bs,
    ⟨Source.segments bs, Source.flatten_segments bs, Source.forall₂_segments bs⟩,
    Source.encode_decoded_iff bs, ?_⟩
  rintro x lead rest y rfl hf hu
  obtain ⟨m, hm, hd⟩ := Source.decoded_of_unfit hf hu y
  have hy : ∀ b ∈ (lead :: rest ++ y).head?, Utf8.isContinuation b = false := by
    intro b hb
    cases hb
    exact hf.isContinuation
  exact ⟨m, hm, by rw [Source.decoded_append hy, hd]⟩

/-- A slash in three bytes, a surrogate, and a number past the last code point. -/
theorem decoded_partition_unfit :
    (∃ m, 0 < m ∧ Source.decoded [0x61, 0xE0, 0x80, 0xAF, 0x78] =
      Source.decoded [0x61] ++ (List.replicate m Utf8.replacement ++ Source.decoded [0x78])) ∧
    (∃ m, 0 < m ∧ Source.decoded [0xED, 0xA0, 0x80] =
      Source.decoded [] ++ (List.replicate m Utf8.replacement ++ Source.decoded [])) ∧
    (∃ m, 0 < m ∧ Source.decoded [0xC3, 0xF4, 0x90, 0x80, 0x80] =
      Source.decoded [0xC3] ++ (List.replicate m Utf8.replacement ++ Source.decoded [])) := by
  refine ⟨?_, ?_, ?_⟩
  · exact (decoded_partition _).2.2.2 [0x61] 0xE0 [0x80, 0xAF] [0x78] rfl
      ⟨by decide, List.all_eq_true.mp rfl⟩ (.inl (by decide))
  · exact (decoded_partition _).2.2.2 [] 0xED [0xA0, 0x80] [] rfl
      ⟨by decide, List.all_eq_true.mp rfl⟩ (.inr (.inl (by decide)))
  · exact (decoded_partition _).2.2.2 [0xC3] 0xF4 [0x90, 0x80, 0x80] [] rfl
      ⟨by decide, List.all_eq_true.mp rfl⟩ (.inr (.inr (by decide)))

/-- Behind any bytes, malformed or not, reading goes on as if it began there: with bytes that do not
begin with a continuation byte, with a character whatever comes behind it, and so with a whole
text. -/
theorem decoded_resynchronises (x : List UInt8) :
    (∀ n, (Source.ofBytes x).answer n = ⟨(Source.decoded x)[n]?, none⟩) ∧
    (∀ y : List UInt8, (∀ b ∈ y.head?, ¬(0x80 ≤ b ∧ b ≤ 0xBF)) →
      Source.decoded (x ++ y) = Source.decoded x ++ Source.decoded y) ∧
    (∀ (c : Char) (y : List UInt8), Source.decoded (x ++ (String.utf8EncodeChar c ++ y)) =
      Source.decoded x ++ c :: Source.decoded y) ∧
    (∀ cs : List Char, Source.decoded (x ++ Utf8.encode cs) = Source.decoded x ++ cs) := by
  refine ⟨Source.answer_ofBytes x, fun y hy => ?_, fun c y => ?_, fun cs => ?_⟩
  · apply Source.decoded_append
    intro b hb
    rw [Bool.eq_false_iff, Ne, Utf8.isContinuation_iff_le]
    exact hy b hb
  · rw [Source.decoded_append (Source.head?_encodeChar c y), Source.decoded_encodeChar_append]
  · rw [Source.decoded_append (Source.head?_encode cs), Source.decoded_encode]

/-- Three of the four bytes of a character, and then others. -/
theorem decoded_resynchronises_cut_character :
    Source.decoded ([0xF0, 0x9D, 0x84] ++ [0x28, 0xE2, 0x82]) =
      Source.decoded [0xF0, 0x9D, 0x84] ++ Source.decoded [0x28, 0xE2, 0x82] ∧
    Source.decoded ([0xF0, 0x9D, 0x84] ++ Utf8.encode "é;".toList) =
      Source.decoded [0xF0, 0x9D, 0x84] ++ "é;".toList :=
  ⟨(decoded_resynchronises [0xF0, 0x9D, 0x84]).2.1 [0x28, 0xE2, 0x82]
      (by rintro b ⟨⟩; decide),
    (decoded_resynchronises [0xF0, 0x9D, 0x84]).2.2.2 "é;".toList⟩

end Modula

import Modula.Proofs.Source.Bytes

/-! # Rejections that are decided

A checker that rejects a text without having come to its end has looked at a front of it and at
nothing behind. That front decides the rejection (`Decided`): with any other text behind it the
checker stops at the same character with the same fault (`decided_of_reads`, by induction on the
tokens). Since every character that is looked at is asked for once (`Cursor.Asks`), two sources that
agree in the characters one of them was asked for are rejected alike (`rejection_online`). -/

namespace Modula
set_option autoImplicit false

open Grammar Goal

/-! ## Answers and text -/

namespace Source

variable {s : Source} {w rest : List Char} {m : Nat}

theorem filter_eq_some_iff {r : Reading} {ch : Char} :
    r.char.filter (· ≠ '\x00') = some ch ↔ r.char = some ch ∧ ch ≠ '\x00' := by
  rw [Option.filter_eq_some_iff, decide_eq_true_iff]

theorem le_length_text (h : ∀ i < m, ∃ ch, (s.answer i).char = some ch ∧ ch ≠ '\x00') :
    m ≤ s.text.length := by
  induction m generalizing s with
  | zero => exact Nat.zero_le _
  | succ m ih =>
    obtain ⟨ch, hc⟩ := h 0 (Nat.succ_pos m)
    rw [text_of_some (filter_eq_some_iff.mpr hc), List.length_cons]
    exact Nat.succ_le_succ (ih fun i hi => h (i + 1) (Nat.succ_lt_succ hi))

theorem read_of_text {u : List Char} {ch : Char} (h : s.text = ch :: u) :
    s.read.1.char.filter (· ≠ '\x00') = some ch ∧ s.read.2.text = u := by
  cases hr : s.read.1.char.filter (· ≠ '\x00') with
  | none =>
    rw [text_of_none hr] at h
    cases h
  | some c =>
    rw [text_of_some hr] at h
    obtain ⟨rfl, hu⟩ := List.cons.inj h
    exact ⟨rfl, hu⟩

theorem answer_of_text (h : s.text = w ++ rest) {i : Nat} (hi : i < w.length) :
    (s.answer i).char = w[i]? := by
  induction w generalizing s i with
  | nil => cases hi
  | cons c w ih =>
    obtain ⟨hc, hw⟩ := read_of_text h
    cases i with
    | zero => exact (filter_eq_some_iff.mp hc).1
    | succ i => exact ih hw (Nat.lt_of_succ_lt_succ hi)

theorem text_of_same_answers {t : Source} (h : s.text = w ++ rest)
    (ht : ∀ i < w.length, (t.answer i).char = (s.answer i).char) :
    ∃ rest', t.text = w ++ rest' := by
  induction w generalizing s t with
  | nil => exact ⟨t.text, rfl⟩
  | cons c w ih =>
    obtain ⟨hc, hw⟩ := read_of_text h
    have hr : t.read.1.char = s.read.1.char := ht 0 (Nat.succ_pos _)
    rw [← hr] at hc
    obtain ⟨rest', hrest⟩ := ih hw fun i hi => ht (i + 1) (Nat.succ_lt_succ hi)
    exact ⟨rest', by rw [text_of_some hc, hrest, List.cons_append]⟩

end Source

/-! ## Counting requests -/

namespace Cursor

variable {κ : Type} {c d : Cursor κ} {u : List Char} {n : Nat} {p : Position}

/-- A cursor over the text `u`, the source of which had been asked `n` times before, has asked for
each character that is not unread, and for the end if it has come to it. -/
def Asks (n : Nat) (u : List Char) (c : Cursor κ) : Prop :=
  c.source.asked + c.unread.length = n + u.length + if c.ended then 1 else 0

theorem At.asked_eq {seen rest : List Char} {ch : Char} (h : c.At (ch :: rest) p)
    (hc : Asks n (seen ++ rest) c) : c.source.asked = n + seen.length := by
  unfold Asks at hc
  rw [h.unread, h.ended, List.tail_cons, List.length_append] at hc
  simp only [List.isEmpty_cons, Bool.false_eq_true, if_false] at hc
  omega

variable [Sink κ]

theorem Asks.advance (c : Cursor κ) (h : Asks n u c) : Asks n u c.advance := by
  unfold Asks at h ⊢
  cases he : c.ended with
  | true =>
    rw [he] at h
    rw [advance_of_ended he]
    simpa [Cursor.unread, he] using h
  | false =>
    simp only [Cursor.unread, he, Bool.false_eq_true, if_false] at h
    cases hc : c.source.read.1.char.filter (· ≠ '\x00') with
    | none =>
      rw [Source.text_of_none hc, List.length_nil] at h
      rw [advance_of_none he hc]
      simp only [Cursor.unread, if_true, Source.read_asked, List.length_nil]
      omega
    | some ch =>
      rw [Source.text_of_some hc, List.length_cons] at h
      rw [advance_of_some he hc]
      simp only [Cursor.unread, Bool.false_eq_true, if_false, Source.read_asked]
      omega

theorem Reaches.asks (h : Reaches c d) (hc : Asks n u c) : Asks n u d :=
  h.invariant Asks.advance (fun _ _ hn => hn) hc

theorem load_asks (source : Source) (sink : κ) (journal : Journal) :
    Asks source.asked source.text (load source sink journal) :=
  Asks.advance (start source sink journal) rfl

end Cursor

/-! ## Fronts that decide -/

variable {p : Position} {g l u front rest : List Char} {ch : Char} {k : TokenKind}
  {gs next : List Goal} {ts : List Token} {d : Diagnostic}

/-- Whatever comes behind `ch`, a checker with the goals `gs` rejects a text that begins with `front`
and `ch` for the fault `d`, and looks at nothing behind `ch`. -/
def Decided (gs : List Goal) (p : Position) (front : List Char) (ch : Char) (d : Diagnostic) :
    Prop :=
  ∃ q, ∀ {κ : Type} [Sink κ] (c : Cursor κ) (rest : List Char), c.At (front ++ ch :: rest) p →
    (c.chase gs).1 = .error d ∧ (c.chase gs).2.At (ch :: rest) q

theorem head?_append_cons (front rest rest' : List Char) (ch : Char) :
    (front ++ ch :: rest).head? = (front ++ ch :: rest').head? := by
  cases front <;> rfl

namespace Cursor

variable {κ : Type} [Sink κ] {c : Cursor κ}

theorem At.chase_gap (hg : Gap u) (h : c.At u p) : (c.chase gs).2.ended = true := by
  rw [← List.append_nil u] at h
  obtain ⟨d, hd, hn⟩ := h.nextToken_gap hg
  have ht := hn.trans hd.nextToken_nil
  cases hf : feed gs .eof with
  | error e =>
    rw [chase_of_fail ht hf]
    exact hd.ended
  | ok next => exact (chase_of_eof ht hf rfl hd).ended

end Cursor

theorem decided_of_foreign (hg : Gap g) (hf : Foreign ch) :
    Decided gs p g ch ⟨.invalidCharacter ch, p.after g⟩ := by
  refine ⟨p.after g, fun c rest hc => ?_⟩
  obtain ⟨d, hd, hn⟩ := hc.nextToken_gap hg
  rw [Cursor.chase_of_error (hn.trans (hd.nextToken_foreign hf))]
  exact ⟨rfl, hd⟩

theorem decided_of_fail {e : Expectation} (hg : Gap g)
    (hk : TokenKind.ofLexeme? (String.ofList l) = some k) (hm : Maximal l (ch :: rest))
    (hf : feed gs k = .error e) : Decided gs p (g ++ l) ch ⟨.expected e, p.after g⟩ := by
  refine ⟨p.after (g ++ l), fun c rest' hc => ?_⟩
  have hm' : Maximal l (ch :: rest') := hm.of_head rfl
  obtain ⟨d, hd, ha⟩ := hc.nextToken_gap_lexeme hg hk hm'
  rw [Cursor.chase_of_fail hd hf]
  exact ⟨rfl, ha⟩

theorem decided_of_take (hg : Gap g) (hk : TokenKind.ofLexeme? (String.ofList l) = some k)
    (hm : Maximal l (front ++ ch :: rest)) (hf : feed gs k = .ok next)
    (hd : Decided next (p.after (g ++ l)) front ch d) : Decided gs p (g ++ l ++ front) ch d := by
  obtain ⟨q, hq⟩ := hd
  refine ⟨q, fun c rest' hc => ?_⟩
  rw [List.append_assoc] at hc
  obtain ⟨e, he, ha⟩ := hc.nextToken_gap_lexeme hg hk (hm.of_head (head?_append_cons _ _ _ _))
  rw [Cursor.chase_of_take he hf (ofLexeme?_ne hk).1]
  exact hq _ rest' (ha.noteSection _)

/-- A checker that rejects a text and has not come to its end has looked at a front that decides
the rejection. -/
theorem decided_of_reads {κ : Type} [Sink κ] {c : Cursor κ} {fault : Option Diagnostic}
    (hr : Reads p u ts fault) (hc : c.At u p) (h : (c.chase gs).1 = .error d)
    (he : (c.chase gs).2.ended = false) :
    ∃ front ch rest, u = front ++ ch :: rest ∧ Decided gs p front ch d := by
  induction ts generalizing p u gs c with
  | nil =>
    obtain ⟨g, rest, f, hg, hf, rfl, _⟩ := hr.of_nil
    obtain ⟨e, ha, hn⟩ := hc.nextToken_gap hg
    cases hf with
    | @foreign ch rest hf =>
      rw [Cursor.chase_of_error (hn.trans (ha.nextToken_foreign hf))] at h
      cases h
      exact ⟨g, ch, rest, rfl, decided_of_foreign hg hf⟩
    | unclosed hb =>
      -- the end of an open comment is the end of the text
      obtain ⟨b, hb, hend⟩ := ha.nextToken_unclosed hb
      rw [Cursor.chase_of_error (hn.trans hb), hend.ended] at he
      cases he
  | cons t ts ih =>
    rcases hr.cases with ⟨g, l, rest, k, ts', hg, hk, hm, rfl, hts, hrest⟩ | ⟨hg, _, _⟩ |
      ⟨_, _, _, _, _, _, hts, _⟩
    · obtain ⟨rfl, rfl⟩ := List.cons.inj hts
      obtain ⟨b, hb, ha⟩ := hc.nextToken_gap_lexeme hg hk hm
      cases hf : feed gs k with
      | error e =>
        rw [Cursor.chase_of_fail hb hf] at h he
        cases h
        cases rest with
        | nil =>
          rw [ha.ended] at he
          cases he
        | cons ch rest => exact ⟨g ++ l, ch, rest, rfl, decided_of_fail hg hk hm hf⟩
      | ok next =>
        rw [Cursor.chase_of_take hb hf (ofLexeme?_ne hk).1] at h he
        obtain ⟨front, ch, rest, rfl, hd⟩ := ih hrest (ha.noteSection _) h he
        exact ⟨g ++ l ++ front, ch, rest, by simp, decided_of_take hg hk hm hf hd⟩
    · rw [hc.chase_gap hg] at he
      cases he
    · cases hts

/-! ## Two sources -/

section Sources

variable {κ : Type} [Sink κ]

theorem check_of_decided {source : Source} (hd : Decided [.sections] .origin front ch d)
    (h : source.text = front ++ ch :: rest) (sink : κ) (journal : Journal) :
    (Cursor.load source sink journal).check.1 = .error d ∧
      (Cursor.load source sink journal).check.2.source.asked =
        source.asked + (front ++ [ch]).length ∧
      (Cursor.load source sink journal).check.2.sink = Sink.copied sink (front ++ [ch]) := by
  have hu : source.text = (front ++ [ch]) ++ rest := by rw [h, List.append_assoc]; rfl
  have ha := Cursor.load_at source sink journal
  have hr := (Cursor.load source sink journal).check_reaches
  have hs := hr.copies (Cursor.load_copies source sink journal)
  have hn := hr.asks (Cursor.load_asks source sink journal)
  obtain ⟨q, hq⟩ := hd
  rw [h] at ha
  rw [hu] at hs hn
  obtain ⟨he, hat⟩ := hq _ rest ha
  rw [← Cursor.check_eq_chase] at he hat
  exact ⟨he, hat.asked_eq hn, hat.sink_eq hs⟩

theorem ended_of_asked {source : Source} {sink : κ} {journal : Journal} {m : Nat}
    (hm : (Cursor.load source sink journal).check.2.source.asked = source.asked + m)
    (hr : ∀ i < m, ∃ ch, (source.answer i).char = some ch ∧ ch ≠ '\x00') :
    (Cursor.load source sink journal).check.2.ended = false := by
  have hn := (Cursor.check_reaches _).asks (Cursor.load_asks source sink journal)
  have hl := Source.le_length_text hr
  -- at the end the checker would have asked for the whole text and once more
  rw [Bool.eq_false_iff]
  intro he
  simp only [Cursor.Asks, Cursor.unread, he, if_true, List.length_nil, hm] at hn
  omega

end Sources

/-- A rejection is decided by what has been read. If a check of the source `s` fails after it has
asked for `m` characters, all of them real, a check of any source `t` that begins with the same `m`
characters fails with the same diagnostic, asks for `m` characters too, and both copy just these
characters into their sinks. -/
theorem rejection_online {κ κ' : Type} [Sink κ] [Sink κ'] {s t : Source} {sink : κ} {sink' : κ'}
    {journal journal' : Journal} {d : Diagnostic} {m : Nat}
    (h : (Cursor.load s sink journal).check.1 = .error d)
    (hm : (Cursor.load s sink journal).check.2.source.asked = s.asked + m)
    (hr : ∀ i < m, ∃ ch, (s.answer i).char = some ch ∧ ch ≠ '\x00')
    (ht : ∀ i < m, (t.answer i).char = (s.answer i).char) :
    (Cursor.load t sink' journal').check.1 = .error d ∧
      (Cursor.load t sink' journal').check.2.source.asked = t.asked + m ∧
      ∃ w : List Char, w.length = m ∧ (∀ i < m, (s.answer i).char = w[i]?) ∧
        (Cursor.load s sink journal).check.2.sink = Sink.copied sink w ∧
        (Cursor.load t sink' journal').check.2.sink = Sink.copied sink' w := by
  have he := ended_of_asked hm hr
  obtain ⟨ts, fault, hreads⟩ := exists_reads .origin s.text
  rw [Cursor.check_eq_chase] at h he
  obtain ⟨front, ch, rest, hu, hd⟩ :=
    decided_of_reads hreads (Cursor.load_at s sink journal) h he
  obtain ⟨-, hasked, hsink⟩ := check_of_decided hd hu sink journal
  obtain rfl : (front ++ [ch]).length = m := by omega
  -- the characters that were asked for are those of the front, so the other text begins with it too
  have hw : s.text = (front ++ [ch]) ++ rest := by rw [hu, List.append_assoc]; rfl
  obtain ⟨rest', ht'⟩ := Source.text_of_same_answers hw ht
  have hu' : t.text = front ++ ch :: rest' := by rw [ht', List.append_assoc]; rfl
  obtain ⟨hfail, hasked', hsink'⟩ := check_of_decided hd hu' sink' journal'
  exact ⟨hfail, hasked', front ++ [ch], rfl, fun i hi => Source.answer_of_text hw hi, hsink, hsink'⟩

/-- The character behind the name that should have been a colon is the last one that matters, even
if a comment begins behind it or the device fails. -/
theorem rejection_online_missing_colon :
    (Cursor.load (.ofString "VAR x y;(* z") Discard.discard #[]).check.1 =
      .error ⟨.expected (.token .colon), ⟨1, 7⟩⟩ ∧
    (Cursor.load (.ofFills [.bytes (Utf8.bytes "VAR x y;"), .failed .deviceGone]) (Recorder.mk [])
      #[]).check.2.source.asked = 8 := by
  have hs : (Cursor.load (.ofString "VAR x y; z") Discard.discard #[]).check.1 =
      .error ⟨.expected (.token .colon), ⟨1, 7⟩⟩ := by decide +kernel
  have hm : (Cursor.load (.ofString "VAR x y; z") Discard.discard #[]).check.2.source.asked =
      (Source.ofString "VAR x y; z").asked + 8 := by decide +kernel
  have hr : ∀ i < 8, ∃ ch, ((Source.ofString "VAR x y; z").answer i).char = some ch ∧
      ch ≠ '\x00' := by
    intro i hi
    have hi' : i < "VAR x y; z".toList.length := Nat.lt_trans hi (by decide)
    refine ⟨"VAR x y; z".toList[i], ?_, ?_⟩
    · rw [Source.ofString, Source.answer_ofChars, List.getElem?_eq_getElem hi']
    · intro hz
      exact absurd (hz ▸ List.getElem_mem hi') (by decide +kernel)
  refine ⟨(rejection_online hs hm hr ?_).1, (rejection_online hs hm hr ?_).2.1⟩
  · decide +kernel
  · decide +kernel

end Modula

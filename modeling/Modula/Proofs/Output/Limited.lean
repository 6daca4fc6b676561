import Modula.Proofs.Output.Transcript

/-! # Transcripts over a store with a limit

What is done to a transcript before it is closed makes up an ideal text (`Transcript.ideal`), and the
store behind it holds as much of that text as it has room for (`Store.keeping`).

* `Tracks s t bs`: the transcript `t` over the store `s` is open and `bs` is its ideal text. It has
  remembered a failure just in case there is no room for all of `bs`. Every operation but closing
  keeps this (`Tracks.perform`), and so does a run of them (`Tracks.after`).
* `after_of_closed`: a closed transcript stays as it is.
* `transcript_exact`: what the store holds at every point, and what closing gives. -/

namespace Modula
set_option autoImplicit false

/-! ## Stores with a limit -/

namespace Store

variable {s : Store} {limit : Option Nat} {bs chunk : List UInt8}

/-- As many of the bytes as there is room for. -/
def within (limit : Option Nat) (bs : List UInt8) : List UInt8 :=
  match limit with
  | none => bs
  | some n => bs.take n

/-- There is no room for all of the bytes. -/
def Overflows (limit : Option Nat) (bs : List UInt8) : Prop := ∃ n ∈ limit, n < bs.length

/-- A store that has been given `bs` in all. -/
def keeping (s : Store) (bs : List UInt8) : Store :=
  { s with held := (within s.limit bs).toArray }

theorem not_overflows_nil : ¬ Overflows limit [] := by
  intro hx
  obtain ⟨n, _, hn⟩ := hx
  exact Nat.not_lt_zero n hn

theorem Overflows.append (h : Overflows limit bs) (chunk : List UInt8) :
    Overflows limit (bs ++ chunk) := by
  obtain ⟨n, hn, hl⟩ := h
  refine ⟨n, hn, ?_⟩
  rw [List.length_append]
  omega

theorem Overflows.within_append (h : Overflows limit bs) (chunk : List UInt8) :
    within limit (bs ++ chunk) = within limit bs := by
  obtain ⟨n, rfl, hl⟩ := h
  exact List.take_append_of_le_length (Nat.le_of_lt hl)

theorem keeping_nil (h : s.held = #[]) : s.keeping [] = s := by
  have hw : within s.limit [] = [] := by cases s.limit <;> simp [within]
  rw [keeping, hw, ← h]

theorem within_append (s : Store) (bs chunk : List UInt8) :
    within s.limit (bs ++ chunk) =
      within s.limit bs ++ chunk.take ((s.keeping bs).room chunk.length) := by
  unfold room keeping within
  cases s.limit with
  | none => simp
  | some n =>
    have hr : n - min n bs.length = n - bs.length := by omega
    simp only [List.size_toArray, List.length_take, hr]
    rw [List.take_append, Nat.min_comm, ← List.take_eq_take_min]

theorem keeping_append (s : Store) (bs chunk : List UInt8) :
    s.keeping (bs ++ chunk) = { s.keeping bs with
      held := (s.keeping bs).held ++ chunk.take ((s.keeping bs).room chunk.length) } := by
  rw [keeping, within_append]
  simp [keeping]

theorem fits_keeping (h : ¬ Overflows s.limit (bs ++ chunk)) :
    (s.keeping bs).Fits chunk.length := by
  intro n hn
  have hl : ¬ n < (bs ++ chunk).length := fun hlt => h ⟨n, hn, hlt⟩
  have hs : s.limit = some n := hn
  simp only [keeping, within, hs, List.size_toArray, List.length_take]
  rw [List.length_append] at hl
  omega

theorem not_fits_keeping (hb : ¬ Overflows s.limit bs) (h : Overflows s.limit (bs ++ chunk)) :
    ¬ (s.keeping bs).Fits chunk.length := by
  obtain ⟨n, hn, hl⟩ := h
  have hbs : ¬ n < bs.length := fun hlt => hb ⟨n, hn, hlt⟩
  have hs : s.limit = some n := hn
  intro hf
  have hc := hf n hn
  simp only [keeping, within, hs, List.size_toArray, List.length_take] at hc
  rw [List.length_append] at hl
  omega

theorem write_keeping (h : ¬ Overflows s.limit (bs ++ chunk)) :
    (s.keeping bs).write chunk = (.ok (), s.keeping (bs ++ chunk)) := by
  have hf := fits_keeping h
  rw [write_of_fits hf, keeping_append, (room_eq_iff _ _).mpr hf, List.take_length]

theorem write_keeping_of_overflows (hb : ¬ Overflows s.limit bs)
    (h : Overflows s.limit (bs ++ chunk)) :
    (s.keeping bs).write chunk = (.error s.refusal, s.keeping (bs ++ chunk)) := by
  rw [write_of_not_fits (not_fits_keeping hb h), keeping_append]
  rfl

instance decidableOverflows (limit : Option Nat) (bs : List UInt8) :
    Decidable (Overflows limit bs) :=
  inferInstanceAs (Decidable (∃ n ∈ limit, n < bs.length))

/-- What a store says to the last of some writes by which it has been given `bs` in all. -/
def reply (s : Store) (bs : List UInt8) : Except IoError Unit :=
  if Overflows s.limit bs then .error s.refusal else .ok ()

/-- A full store takes no more, so what it has been given in all decides every write of something. -/
theorem write_keeping_eq (s : Store) (bs : List UInt8) (hc : chunk ≠ []) :
    (s.keeping bs).write chunk = (s.reply (bs ++ chunk), s.keeping (bs ++ chunk)) := by
  by_cases h : Overflows s.limit (bs ++ chunk)
  · have hf : ¬ (s.keeping bs).Fits chunk.length := by
      obtain ⟨n, hn, hl⟩ := h
      have hs : s.limit = some n := hn
      have hp : 0 < chunk.length := List.length_pos_iff.mpr hc
      intro hf
      have hr := hf n hn
      simp only [keeping, within, hs, List.size_toArray, List.length_take] at hr
      rw [List.length_append] at hl
      omega
    rw [write_of_not_fits hf, keeping_append, reply, if_pos h]
    rfl
  · rw [write_keeping h, reply, if_neg h]

end Store

/-! ## Operations on sinks -/

namespace Sink

/-- Something that is done to a sink. -/
inductive Op where
  | echo (c : Char)
  | line (s : String)
  | close
  deriving DecidableEq, Repr

variable {κ : Type} [Sink κ]

def perform (sink : κ) : Op → κ
  | .echo c => (Sink.echo sink c).1
  | .line s => (Sink.line sink s).1
  | .close => (Sink.close sink).2

/-- A sink after some operations. -/
def after (sink : κ) (ops : List Op) : κ := ops.foldl perform sink

@[simp] theorem after_cons (sink : κ) (op : Op) (ops : List Op) :
    after sink (op :: ops) = after (perform sink op) ops := rfl

@[simp] theorem after_append (sink : κ) (ops ops' : List Op) :
    after sink (ops ++ ops') = after (after sink ops) ops' := List.foldl_append

end Sink

namespace Transcript

open Sink (Op)

variable {s : Store} {t : Transcript Store} {bs : List UInt8} {ops : List Op}

/-! ## The ideal text -/

/-- The text of a transcript with room for everything, when one more operation is done. -/
def extended (bs : List UInt8) : Op → List UInt8
  | .echo c => bs ++ String.utf8EncodeChar c
  | .line s => bs ++ lineBreak bs ++ Utf8.bytes s ++ [newline]
  | .close => bs

/-- The text that the operations before the first closing make up. -/
def ideal (ops : List Op) : List UInt8 := (ops.takeWhile (· ≠ .close)).foldl extended []

theorem ideal_of_open (h : .close ∉ ops) : ideal ops = ops.foldl extended [] := by
  have ht : ops.takeWhile (· ≠ .close) = ops := by
    rw [← List.append_nil ops, List.takeWhile_append_of_pos, List.takeWhile_nil]
    intro op hop
    exact decide_eq_true fun e => h (e ▸ hop)
  rw [ideal, ht]

theorem ideal_of_closed (h : .close ∉ ops) (later : List Op) :
    ideal (ops ++ .close :: later) = ideal ops := by
  have ht : (ops ++ .close :: later).takeWhile (· ≠ .close) = ops := by
    rw [List.takeWhile_append_of_pos, List.takeWhile_cons]
    · simp
    · intro op hop
      exact decide_eq_true fun e => h (e ▸ hop)
  rw [ideal_of_open h, ideal, ht]

/-! ## Before the transcript is closed -/

/-- An open transcript over the store `s`, to which `bs` has been written as far as there was room.
Without a failure it knows whether a line starts behind `bs`. -/
structure Tracks (s : Store) (t : Transcript Store) (bs : List UInt8) : Prop where
  closed : t.closed = false
  out : t.out = s.keeping bs
  error : Store.Overflows s.limit bs → t.error = some s.refusal
  sound : ¬ Store.Overflows s.limit bs → t.error = none ∧ t.fresh = decide (AtLineStart bs)

theorem tracks_ofWriter (h : s.held = #[]) : (ofWriter s).Tracks s [] where
  closed := rfl
  out := (Store.keeping_nil h).symm
  error ho := absurd ho Store.not_overflows_nil
  sound _ := ⟨rfl, rfl⟩

theorem write_of_silent (h : t.closed = true ∨ t.error.isSome = true) (chunk : List UInt8) :
    t.write chunk = (t, none) := by
  rw [Transcript.write, if_pos (Bool.or_eq_true_iff.mpr h)]

theorem line_eq_writes (t : Transcript Store) (text : String) :
    (t.line text).1 = (((if t.fresh then (t, none) else t.write [newline]).1.write
      (Utf8.bytes text)).1.write [newline]).1 := rfl

theorem Tracks.write_of_overflows (h : t.Tracks s bs) (ho : Store.Overflows s.limit bs)
    (chunk : List UInt8) : t.write chunk = (t, none) := by
  apply write_of_silent
  right
  rw [h.error ho]
  rfl

/-- Once there is no room the ideal text grows and the store does not. -/
theorem Tracks.append_of_overflows (h : t.Tracks s bs) (ho : Store.Overflows s.limit bs)
    (chunk : List UInt8) : t.Tracks s (bs ++ chunk) where
  closed := h.closed
  out := by rw [h.out, Store.keeping, Store.keeping, ho.within_append]
  error _ := h.error ho
  sound hn := absurd (ho.append chunk) hn

theorem Tracks.write (h : t.Tracks s bs) (chunk : List UInt8) :
    (t.write chunk).1.Tracks s (bs ++ chunk) := by
  by_cases ho : Store.Overflows s.limit bs
  · rw [h.write_of_overflows ho]
    exact h.append_of_overflows ho chunk
  · obtain ⟨he, hf⟩ := h.sound ho
    have hw : Writer.write t.out chunk = (s.keeping bs).write chunk := by
      rw [h.out]
      rfl
    unfold Transcript.write
    rw [h.closed, he, hw]
    by_cases hc : Store.Overflows s.limit (bs ++ chunk)
    · rw [Store.write_keeping_of_overflows ho hc]
      exact ⟨rfl, rfl, fun _ => rfl, fun hn => absurd hc hn⟩
    · rw [Store.write_keeping hc]
      refine ⟨rfl, rfl, fun hx => absurd hx hc, fun _ => ⟨rfl, ?_⟩⟩
      rw [← fresh_append, ← hf]
      rfl

theorem Tracks.lineBreak (h : t.Tracks s bs) :
    (if t.fresh then (t, none) else t.write [newline]).1.Tracks s (bs ++ lineBreak bs) := by
  by_cases ho : Store.Overflows s.limit bs
  · -- after a failure `fresh` is out of date, but no write does anything then
    rw [h.write_of_overflows ho, ite_self]
    exact h.append_of_overflows ho _
  · rw [(h.sound ho).2, Transcript.lineBreak]
    by_cases hs : AtLineStart bs
    · rw [decide_eq_true hs, if_pos rfl, if_pos hs, List.append_nil]
      exact h
    · rw [decide_eq_false hs, if_neg Bool.false_ne_true, if_neg hs]
      exact h.write [newline]

theorem Tracks.line (h : t.Tracks s bs) (text : String) :
    (t.line text).1.Tracks s (bs ++ Transcript.lineBreak bs ++ Utf8.bytes text ++ [newline]) := by
  rw [line_eq_writes]
  exact (h.lineBreak.write (Utf8.bytes text)).write [newline]

theorem Tracks.perform {op : Op} (h : t.Tracks s bs) (hop : op ≠ .close) :
    (Sink.perform t op).Tracks s (extended bs op) := by
  cases op with
  | echo c => exact h.write (String.utf8EncodeChar c)
  | line text => exact h.line text
  | close => exact absurd rfl hop

theorem Tracks.after (h : t.Tracks s bs) (hc : .close ∉ ops) :
    (Sink.after t ops).Tracks s (ops.foldl extended bs) := by
  induction ops generalizing t bs with
  | nil => exact h
  | cons op ops ih =>
    rw [List.mem_cons, not_or] at hc
    exact ih (h.perform (Ne.symm hc.1)) hc.2

/-! ## Closing -/

theorem Tracks.close_of_overflows (h : t.Tracks s bs) (ho : Store.Overflows s.limit bs) :
    t.close = (.error s.refusal, { t with error := none, closed := true }) := by
  rw [Transcript.close, h.closed, h.error ho]
  rfl

theorem Tracks.close (h : t.Tracks s bs) (ho : ¬ Store.Overflows s.limit bs) :
    t.close = (s.flush.1,
      { t with out := { t.out with flushes := t.out.flushes + 1 }, closed := true }) := by
  have hf : Writer.flush t.out = (s.flush.1, { t.out with flushes := t.out.flushes + 1 }) := by
    rw [h.out]
    rfl
  rw [Transcript.close, h.closed, (h.sound ho).1, hf]
  rfl

theorem Tracks.closed_close (h : t.Tracks s bs) :
    t.close.2.closed = true ∧ t.close.2.out.held = t.out.held := by
  by_cases ho : Store.Overflows s.limit bs
  · rw [h.close_of_overflows ho]
    exact ⟨rfl, rfl⟩
  · rw [h.close ho]
    exact ⟨rfl, rfl⟩

theorem close_of_closed (h : t.closed = true) : t.close = (.ok (), t) := by
  rw [Transcript.close, if_pos h]

theorem perform_of_closed (h : t.closed = true) (op : Op) : Sink.perform t op = t := by
  have hw : ∀ chunk, t.write chunk = (t, none) := write_of_silent (Or.inl h)
  cases op with
  | echo c => exact congrArg Prod.fst (hw _)
  | line text =>
    have hl : (t.line text).1 = t := by rw [line_eq_writes, hw, ite_self, hw, hw]
    exact hl
  | close => exact congrArg Prod.snd (close_of_closed h)

theorem after_of_closed (h : t.closed = true) (ops : List Op) : Sink.after t ops = t := by
  induction ops with
  | nil => rfl
  | cons op ops ih => rw [Sink.after_cons, perform_of_closed h, ih]

theorem Tracks.after_first_close {earlier : List Op} (h : t.Tracks s bs) (hc : .close ∉ earlier)
    (later : List Op) :
    Sink.after t (earlier ++ .close :: later) = (Sink.after t earlier).close.2 := by
  rw [Sink.after_append, Sink.after_cons]
  exact after_of_closed (h.after hc).closed_close.1 later

/-- A transcript over a store that holds nothing at first. After any operations the store holds as
much of their ideal text as it has room for. Closing the transcript for the first time gives the
failure of the write for which there was no room, if there was one; otherwise it flushes the store
once and gives the result of that. Closing it again gives nothing wrong, and no operation does
anything to a transcript that has been closed. -/
theorem transcript_exact {s : Store} (hs : s.held = #[]) (ops : List Op) :
    let t := Sink.after (ofWriter s) ops
    t.out.held.toList = Store.within s.limit (ideal ops) ∧
    (.close ∉ ops → t.out.flushes = s.flushes ∧
      (Store.Overflows s.limit (ideal ops) →
        t.close.1 = .error s.refusal ∧ t.close.2.out = t.out) ∧
      (¬ Store.Overflows s.limit (ideal ops) →
        t.close.1 = s.flush.1 ∧ t.close.2.out = { t.out with flushes := s.flushes + 1 })) ∧
    (.close ∈ ops → t.close.1 = .ok () ∧ ∀ op, Sink.perform t op = t) := by
  intro t
  have h0 := tracks_ofWriter hs
  by_cases hc : .close ∈ ops
  · obtain ⟨earlier, later, rfl, hn⟩ := List.eq_append_cons_of_mem hc
    have he := h0.after hn
    have ht : t = (Sink.after (ofWriter s) earlier).close.2 := h0.after_first_close hn later
    obtain ⟨hclosed, hheld⟩ := he.closed_close
    rw [← ht] at hclosed hheld
    refine ⟨?_, fun hno => absurd hc hno, fun _ => ?_⟩
    · rw [hheld, he.out, ideal_of_closed hn, ideal_of_open hn]
      rfl
    · exact ⟨by rw [close_of_closed hclosed], perform_of_closed hclosed⟩
  · have ht : t.Tracks s (ideal ops) := by
      rw [ideal_of_open hc]
      exact h0.after hc
    refine ⟨by rw [ht.out]; rfl, fun _ => ⟨by rw [ht.out]; rfl, fun ho => ?_, fun ho => ?_⟩,
      fun hyes => absurd hyes hc⟩
    · rw [ht.close_of_overflows ho]
      exact ⟨rfl, rfl⟩
    · rw [ht.close ho, ht.out]
      exact ⟨rfl, rfl⟩

/-- The limit falls into the line, behind the line break in front of it. -/
theorem transcript_exact_cut_line :
    (Sink.after (ofWriter (⟨some 4, .diskFull, some .flushFailed, #[], 0⟩ : Store))
      [.echo 'é', .line "ab"]).out.held.toList = [0xC3, 0xA9, 0x0A, 0x61] ∧
    (Sink.after (ofWriter (⟨some 4, .diskFull, some .flushFailed, #[], 0⟩ : Store))
      [.echo 'é', .line "ab"]).close.1 = .error .diskFull ∧
    (Sink.after (ofWriter (⟨some 4, .diskFull, some .flushFailed, #[], 0⟩ : Store))
      [.echo 'é']).close.1 = .error .flushFailed ∧
    (Sink.after (ofWriter (⟨some 4, .diskFull, some .flushFailed, #[], 0⟩ : Store))
      [.echo 'é', .close]).close.1 = .ok () := by
  have h := transcript_exact (s := ⟨some 4, .diskFull, some .flushFailed, #[], 0⟩) rfl
  refine ⟨(h _).1, (((h _).2.1 (by decide)).2.1 ?_).1, (((h _).2.1 (by decide)).2.2 ?_).1,
    ((h _).2.2 (by decide)).1⟩
  · exact ⟨4, rfl, by decide⟩
  · rintro ⟨n, hn, hl⟩
    cases hn
    exact absurd hl (by decide)

end Transcript
end Modula

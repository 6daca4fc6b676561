import Modula.Output.Buffered
import Modula.Output.Transcript
import Modula.Proofs.Text.Utf8

/-! # What a transcript hands to its writer

A writer is seen through a relation `Holds w bs` to the bytes it was given, and a writer that takes
everything keeps it from one write to the next (`Writer.Keeps`). A store without bound does, and so
does a buffer in front of one, with the bytes that wait counted in. Over such a writer a transcript
is the bytes of the characters that were copied into it (`Open.copied`), with each line on a line of
its own (`Open.line`). -/

namespace Modula
set_option autoImplicit false

/-! ## Copying a text into a sink -/

/-- A sink after the characters `cs` have been copied into it, one after the other. -/
def Sink.copied {κ : Type} [Sink κ] (sink : κ) (cs : List Char) : κ :=
  cs.foldl (fun s c => (Sink.echo s c).1) sink

namespace Sink

variable {κ : Type} [Sink κ]

@[simp] theorem copied_nil (sink : κ) : copied sink [] = sink := rfl

@[simp] theorem copied_cons (sink : κ) (c : Char) (cs : List Char) :
    copied sink (c :: cs) = copied (Sink.echo sink c).1 cs := rfl

@[simp] theorem copied_append (sink : κ) (cs ds : List Char) :
    copied sink (cs ++ ds) = copied (copied sink cs) ds := List.foldl_append

end Sink

/-! ## Writers that take everything -/

/-- Every write succeeds, and the bytes that a writer was given grow by what is written. -/
def Writer.Keeps {ω : Type} [Writer ω] (Holds : ω → List UInt8 → Prop) : Prop :=
  ∀ w bs chunk, Holds w bs → ∃ w', Writer.write w chunk = (.ok (), w') ∧ Holds w' (bs ++ chunk)

namespace Store

/-- A store without bound that holds `bs`. -/
structure Holds (s : Store) (bs : List UInt8) : Prop where
  limit : s.limit = none
  held : s.held.toList = bs

/-- There is room for `n` more bytes. -/
def Fits (s : Store) (n : Nat) : Prop := ∀ limit ∈ s.limit, n ≤ limit - s.held.size

theorem room_eq_iff (s : Store) (n : Nat) : s.room n = n ↔ s.Fits n := by
  unfold room Fits
  cases s.limit with
  | none => simp
  | some limit =>
    simp only [Option.mem_def, Option.some.injEq, forall_eq']
    omega

theorem write_of_fits {s : Store} {chunk : List UInt8} (h : s.Fits chunk.length) :
    s.write chunk = (.ok (), { s with held := s.held ++ chunk }) := by
  simp only [write, (room_eq_iff s _).mpr h, if_true]

theorem write_of_not_fits {s : Store} {chunk : List UInt8} (h : ¬ s.Fits chunk.length) :
    s.write chunk =
      (.error s.refusal, { s with held := s.held ++ chunk.take (s.room chunk.length) }) := by
  rw [← room_eq_iff] at h
  simp only [write, if_neg h]

theorem write_of_unbounded {s : Store} (h : s.limit = none) (chunk : List UInt8) :
    s.write chunk = (.ok (), { s with held := s.held ++ chunk }) :=
  write_of_fits (by simp [Fits, h])

theorem keeps_holds : Writer.Keeps Holds := by
  intro s bs chunk h
  refine ⟨_, write_of_unbounded h.limit chunk, h.limit, ?_⟩
  rw [Array.toList_appendList, h.held]

end Store

namespace Buffered

variable {b : Buffered} {bs chunk : List UInt8}

/-- The bytes that were taken, first those that were handed on and then those that wait. -/
def taken (b : Buffered) : List UInt8 := b.store.held.toList ++ b.waiting.toList

/-- A buffer that has taken `bs`, in front of a store that never fails. -/
structure Holds (b : Buffered) (bs : List UInt8) : Prop where
  limit : b.store.limit = none
  flushError : b.store.flushError = none
  taken : b.taken = bs

theorem Holds.drain (h : b.Holds bs) :
    ∃ b', b.drain = (.ok (), b') ∧ b'.Holds bs ∧ b'.waiting = #[] ∧ b'.store.held.toList = bs := by
  have hd : b.drain =
      (.ok (), ⟨{ b.store with held := b.store.held ++ b.waiting.toList }, #[]⟩) := by
    rw [Buffered.drain, Store.write_of_unbounded h.limit]
  have hh : (b.store.held ++ b.waiting.toList).toList = bs := by
    rw [Array.toList_appendList, ← h.taken, Buffered.taken]
  refine ⟨_, hd, ⟨h.limit, h.flushError, ?_⟩, rfl, hh⟩
  rw [Buffered.taken, hh, List.append_nil]

/-- Bytes go past the buffer only if none wait in it. -/
theorem Holds.place (h : b.Holds bs) (hw : capacity ≤ chunk.length → b.waiting = #[]) :
    ∃ b', b.place chunk = (.ok (), b') ∧ b'.Holds (bs ++ chunk) := by
  by_cases hc : capacity ≤ chunk.length
  · refine ⟨{ b with store := { b.store with held := b.store.held ++ chunk } }, ?_,
      h.limit, h.flushError, ?_⟩
    · rw [Buffered.place, if_pos hc, Store.write_of_unbounded h.limit]
    · rw [← h.taken, Buffered.taken, Buffered.taken, hw hc]
      simp
  · refine ⟨{ b with waiting := b.waiting ++ chunk }, ?_, h.limit, h.flushError, ?_⟩
    · rw [Buffered.place, if_neg hc]
    · rw [← h.taken, Buffered.taken, Buffered.taken, Array.toList_appendList, List.append_assoc]

theorem keeps_holds : Writer.Keeps Holds := by
  intro b bs chunk h
  change ∃ w', b.write chunk = (.ok (), w') ∧ _
  rw [Buffered.write]
  by_cases hf : capacity - b.waiting.size < chunk.length
  · obtain ⟨d, hd, hh, hw, _⟩ := h.drain
    rw [if_pos hf, hd]
    exact hh.place fun _ => hw
  · rw [if_neg hf]
    -- a chunk as long as the buffer fits into it only if the buffer is empty
    refine h.place fun hc => ?_
    have hp : 0 < capacity := by decide
    exact Array.size_eq_zero_iff.mp (by omega)

theorem Holds.flush (h : b.Holds bs) : ∃ b', b.flush = (.ok (), b') ∧ b'.Holds bs := by
  obtain ⟨d, hd, hh, _⟩ := h.drain
  refine ⟨{ d with store := { d.store with flushes := d.store.flushes + 1 } }, ?_,
    hh.limit, hh.flushError, hh.taken⟩
  rw [Buffered.flush, hd]
  dsimp only
  rw [Store.flush, hh.flushError]

/-- What has been taken is in the store in the end. -/
theorem Holds.settle (h : b.Holds bs) : b.settle.held.toList = bs := by
  obtain ⟨d, hd, _, _, hs⟩ := h.drain
  rw [Buffered.settle, hd]
  exact hs

theorem holds_ofStore_unbounded : (ofStore .unbounded).Holds [] := ⟨rfl, rfl, rfl⟩

end Buffered

/-! ## Transcripts -/

namespace Transcript

variable {ω : Type} {Holds : ω → List UInt8 → Prop} {t : Transcript ω} {bs : List UInt8}

/-- Whether what comes behind `bs` starts a line. -/
def AtLineStart (bs : List UInt8) : Prop := bs = [] ∨ bs.getLast? = some newline

instance decidableAtLineStart (bs : List UInt8) : Decidable (AtLineStart bs) :=
  inferInstanceAs (Decidable (_ ∨ _))

/-- What has to be written behind `bs` for the next byte to start a line. -/
def lineBreak (bs : List UInt8) : List UInt8 := if AtLineStart bs then [] else [newline]

/-- A transcript that is not closed and has written `bs` without a failure. -/
structure Open (Holds : ω → List UInt8 → Prop) (t : Transcript ω) (bs : List UInt8) : Prop where
  out : Holds t.out bs
  error : t.error = none
  closed : t.closed = false
  fresh : t.fresh = decide (AtLineStart bs)

/-- The last byte decides whether a line starts behind it, and without one nothing changes. -/
theorem fresh_append (bs chunk : List UInt8) :
    (match chunk.getLast? with
      | some last => last == newline
      | none => decide (AtLineStart bs)) = decide (AtLineStart (bs ++ chunk)) := by
  rcases List.eq_nil_or_concat chunk with rfl | ⟨init, b, rfl⟩
  · rw [List.append_nil]
    rfl
  · rw [List.concat_eq_append]
    have hs : AtLineStart (bs ++ (init ++ [b])) ↔ b = newline := by
      simp [AtLineStart, ← List.append_assoc]
    rw [List.getLast?_concat, decide_eq_decide.mpr hs]
    rfl

theorem open_ofWriter {w : ω} (h : Holds w []) : Open Holds (ofWriter w) [] :=
  ⟨h, rfl, rfl, rfl⟩

variable [Writer ω]

theorem Open.write (hk : Writer.Keeps Holds) (h : t.Open Holds bs) (chunk : List UInt8) :
    ∃ t', t.write chunk = (t', none) ∧ t'.Open Holds (bs ++ chunk) := by
  obtain ⟨w, hw, ho⟩ := hk t.out bs chunk h.out
  refine ⟨{ t with out := w, fresh := decide (AtLineStart (bs ++ chunk)) }, ?_,
    ho, h.error, h.closed, rfl⟩
  rw [Transcript.write, h.closed, h.error, hw, ← fresh_append, ← h.fresh]
  rfl

theorem Open.copied (hk : Writer.Keeps Holds) (h : t.Open Holds bs) (cs : List Char) :
    (Sink.copied t cs).Open Holds (bs ++ Utf8.encode cs) := by
  induction cs generalizing t bs with
  | nil =>
    rw [Sink.copied_nil, Utf8.encode_nil, List.append_nil]
    exact h
  | cons c cs ih =>
    obtain ⟨u, hu, ho⟩ := h.write hk (String.utf8EncodeChar c)
    have he : (Sink.echo t c).1 = u := congrArg Prod.fst hu
    rw [Sink.copied_cons, he, Utf8.encode_cons, ← List.append_assoc]
    exact ih ho

theorem Open.line (hk : Writer.Keeps Holds) (h : t.Open Holds bs) (s : String) :
    ∃ t', t.line s = (t', none) ∧
      t'.Open Holds (bs ++ lineBreak bs ++ Utf8.bytes s ++ [newline]) := by
  have hb : ∃ u, (if t.fresh then (t, none) else t.write [newline]) = (u, none) ∧
      u.Open Holds (bs ++ lineBreak bs) := by
    rw [h.fresh, lineBreak]
    by_cases hs : AtLineStart bs
    · rw [decide_eq_true hs, if_pos rfl, if_pos hs, List.append_nil]
      exact ⟨t, rfl, h⟩
    · rw [decide_eq_false hs, if_neg Bool.false_ne_true, if_neg hs]
      exact h.write hk [newline]
  obtain ⟨u, hu, hou⟩ := hb
  obtain ⟨v, hv, hov⟩ := hou.write hk (Utf8.bytes s)
  obtain ⟨w, hw, how⟩ := hov.write hk [newline]
  refine ⟨w, ?_, how⟩
  rw [Transcript.line, hu]
  dsimp only
  rw [hv]
  dsimp only
  rw [hw]
  rfl

/-- A transcript over a buffer that never fails is closed without a failure, and all that it has
written arrives. -/
theorem Open.close {t : Transcript Buffered} (h : t.Open Buffered.Holds bs) :
    ∃ t', t.close = (.ok (), t') ∧ t'.out.settle.held.toList = bs := by
  obtain ⟨b, hb, hh⟩ := h.out.flush
  have hf : Writer.flush t.out = (.ok (), b) := hb
  refine ⟨{ t with out := b, closed := true }, ?_, hh.settle⟩
  rw [Transcript.close, h.closed, h.error, hf]
  rfl

end Transcript
end Modula

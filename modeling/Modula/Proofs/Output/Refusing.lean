import Modula.Proofs.Output.Transcript

/-! # Transcripts on a device that takes nothing

A device that can be opened and refuses every byte is not noticed at once, since the first bytes for
it wait in a buffer. The failure comes up when the buffer is full, or else when the transcript is
closed, and is kept until then.

* `Buffered.write_stuck`: what is written waits as well, or the failure comes up.
* `Blocked e t bs`: `bs` has been written to the transcript `t`, and all of it waits, or the failure
  `e` of the device has come up. Every write keeps this (`Blocked.write`), and so does a text that is
  copied (`Blocked.copied`).
* `Blocked.close`: closing gives the failure just in case there was anything to write. -/

namespace Modula
set_option autoImplicit false

/-! ## Writing to the device -/

namespace Store

variable {e : IoError} {chunk : List UInt8}

theorem write_refusing (h : chunk ≠ []) :
    (refusing e).write chunk = (.error e, refusing e) := by
  have hf : ¬ (refusing e).Fits chunk.length := by
    intro hf
    have hl := hf 0 rfl
    exact h (List.length_eq_zero_iff.mp (Nat.le_zero.mp hl))
  rw [write_of_not_fits hf]
  simp [refusing, room]

end Store

namespace Buffered

variable {e : IoError} {bs chunk : List UInt8}

/-- A buffer in which `bs` wait for a store that takes nothing. -/
def stuck (e : IoError) (bs : List UInt8) : Buffered := ⟨.refusing e, bs.toArray⟩

theorem drain_stuck_nil : (stuck e []).drain = (.ok (), stuck e []) := rfl

theorem drain_stuck (h : bs ≠ []) : ∃ b, (stuck e bs).drain = (.error e, b) := by
  simp only [drain, stuck, Store.write_refusing h]
  exact ⟨_, rfl⟩

theorem place_stuck (e : IoError) (bs chunk : List UInt8) :
    (stuck e bs).place chunk = (.ok (), stuck e (bs ++ chunk)) ∨
    (chunk ≠ [] ∧ ∃ b, (stuck e bs).place chunk = (.error e, b)) := by
  unfold place
  by_cases hc : capacity ≤ chunk.length
  · have hn : chunk ≠ [] := by
      rintro rfl
      exact absurd hc (by decide)
    refine .inr ⟨hn, ?_⟩
    rw [if_pos hc, stuck, Store.write_refusing hn]
    exact ⟨_, rfl⟩
  · rw [if_neg hc]
    simp [stuck]

/-- What is written waits as well, or the failure of the store comes up. -/
theorem write_stuck (e : IoError) (bs chunk : List UInt8) :
    Writer.write (stuck e bs) chunk = (.ok (), stuck e (bs ++ chunk)) ∨
    (bs ++ chunk ≠ [] ∧ ∃ b, Writer.write (stuck e bs) chunk = (.error e, b)) := by
  have placed := place_stuck e bs chunk
  have hne : chunk ≠ [] → bs ++ chunk ≠ [] := fun h => by simp [h]
  change (stuck e bs).write chunk = _ ∨ (_ ∧ ∃ b, (stuck e bs).write chunk = _)
  unfold write
  by_cases hf : capacity - (stuck e bs).waiting.size < chunk.length
  · -- what waits is handed on first, which fails unless nothing does
    rw [if_pos hf]
    by_cases hb : bs = []
    · subst hb
      rw [drain_stuck_nil]
      exact placed.imp_right fun h => ⟨hne h.1, h.2⟩
    · obtain ⟨b, hd⟩ := drain_stuck (e := e) hb
      rw [hd]
      exact .inr ⟨by simp [hb], b, rfl⟩
  · rw [if_neg hf]
    exact placed.imp_right fun h => ⟨hne h.1, h.2⟩

theorem flush_stuck (h : bs ≠ []) : ∃ b, Writer.flush (stuck e bs) = (.error e, b) := by
  obtain ⟨b, hd⟩ := drain_stuck (e := e) h
  change ∃ b, (stuck e bs).flush = (.error e, b)
  rw [flush, hd]
  exact ⟨b, rfl⟩

end Buffered

/-! ## Transcripts on the device -/

namespace Transcript

variable {e : IoError} {t : Transcript Buffered} {bs : List UInt8}

/-- An open transcript on a device that takes nothing, to which `bs` has been written: all of it
waits, or there was something to write and the failure of the device has come up. -/
structure Blocked (e : IoError) (t : Transcript Buffered) (bs : List UInt8) : Prop where
  closed : t.closed = false
  out : (t.error = none ∧ t.out = .stuck e bs) ∨ (t.error = some e ∧ bs ≠ [])

theorem blocked_ofWriter (e : IoError) :
    (ofWriter (Buffered.ofStore (.refusing e))).Blocked e [] := ⟨rfl, .inl ⟨rfl, rfl⟩⟩

theorem Blocked.write (h : t.Blocked e bs) (chunk : List UInt8) :
    (t.write chunk).1.Blocked e (bs ++ chunk) := by
  rcases h.out with ⟨hn, ho⟩ | ⟨he, hb⟩
  · unfold Transcript.write
    rw [h.closed, hn, ho]
    rcases Buffered.write_stuck e bs chunk with hw | ⟨hb, b, hw⟩
    · rw [hw]
      exact ⟨rfl, .inl ⟨rfl, rfl⟩⟩
    · rw [hw]
      exact ⟨rfl, .inr ⟨rfl, hb⟩⟩
  · have hw : t.write chunk = (t, none) := by simp [Transcript.write, he]
    rw [hw]
    exact ⟨h.closed, .inr ⟨he, by simp [hb]⟩⟩

theorem Blocked.copied (h : t.Blocked e bs) (cs : List Char) :
    (Sink.copied t cs).Blocked e (bs ++ Utf8.encode cs) := by
  induction cs generalizing t bs with
  | nil =>
    rw [Sink.copied_nil, Utf8.encode_nil, List.append_nil]
    exact h
  | cons c cs ih =>
    rw [Sink.copied_cons, Utf8.encode_cons, ← List.append_assoc]
    exact ih (h.write (String.utf8EncodeChar c))

/-- A line is something to write, also if its text is empty. -/
theorem Blocked.line (h : t.Blocked e bs) (s : String) :
    ∃ bs', bs' ≠ [] ∧ (t.line s).1.Blocked e bs' := by
  have hb : ∃ bs', (if t.fresh then (t, none) else t.write [newline]).1.Blocked e bs' := by
    split
    · exact ⟨bs, h⟩
    · exact ⟨_, h.write [newline]⟩
  obtain ⟨bs', hb⟩ := hb
  exact ⟨_, by simp, (hb.write (Utf8.bytes s)).write [newline]⟩

theorem Blocked.close (h : t.Blocked e bs) :
    t.close.1 = if bs = [] then .ok () else .error e := by
  unfold Transcript.close
  rw [h.closed]
  rcases h.out with ⟨hn, ho⟩ | ⟨he, hb⟩
  · rw [hn, ho]
    by_cases hb : bs = []
    · subst hb
      rfl
    · obtain ⟨b, hf⟩ := Buffered.flush_stuck (e := e) hb
      simp [hf, hb]
  · simp [he, hb]

end Transcript
end Modula

import Modula.Proofs.Descent
import Modula.Proofs.Output.Transcript
import Modula.Proofs.Text

/-! # How a cursor moves

Scanning and checking do nothing to a cursor but move it on and make notes: `Reaches c d` says that
`d` comes of `c` in this way. What every such step keeps is therefore kept by a whole run
(`Reaches.invariant`). First of all a run copies each character into the sink as it comes up, so
that what was copied and what is still unread make up the text (`Reaches.copies`). -/

namespace Modula.Cursor
set_option autoImplicit false

variable {κ : Type} [Sink κ]

/-- `d` is `c` after some moves and notes. -/
inductive Reaches : Cursor κ → Cursor κ → Prop where
  | refl (c : Cursor κ) : Reaches c c
  | advance {c d : Cursor κ} : Reaches c d → Reaches c d.advance
  | note {c d : Cursor κ} (e : Event) : Reaches c d → Reaches c (d.note e)

namespace Reaches

variable {c d e : Cursor κ}

theorem trans (h : Reaches c d) (h' : Reaches d e) : Reaches c e := by
  induction h' with
  | refl => exact h
  | advance _ ih => exact .advance ih
  | note e _ ih => exact .note e ih

theorem invariant {P : Cursor κ → Prop} (h : Reaches c d) (advance : ∀ c, P c → P c.advance)
    (note : ∀ c e, P c → P (c.note e)) (hc : P c) : P d := by
  induction h with
  | refl => exact hc
  | advance _ ih => exact advance _ ih
  | note e _ ih => exact note _ e ih

end Reaches

/-! ## Scanning -/

theorem advance_reaches (c : Cursor κ) : Reaches c c.advance := .advance (.refl c)

theorem skipBlanks_reaches (c : Cursor κ) : Reaches c c.skipBlanks := by
  fun_induction skipBlanks c with
  | case1 c => exact .refl c
  | case2 c ch _ _ ih => exact c.advance_reaches.trans ih
  | case3 c => exact .refl c

theorem skipComment_reaches (c : Cursor κ) : Reaches c c.skipComment.2 := by
  fun_induction skipComment c with
  | case1 c => exact .refl c
  | case2 c ch _ d _ => exact .advance c.advance_reaches
  | case3 c ch _ d _ ih => exact c.advance_reaches.trans ih

theorem takeRun_reaches (p : Char → Bool) (taken : String) (c : Cursor κ) :
    Reaches c (c.takeRun p taken).2 := by
  fun_induction takeRun p taken c with
  | case1 _ c => exact .refl c
  | case2 _ c ch _ _ ih => exact c.advance_reaches.trans ih
  | case3 _ c => exact .refl c

theorem Reaches.emit {c d : Cursor κ} (h : Reaches c d) (t : Token) :
    Reaches c (Cursor.emit t d).2 := .note _ h

theorem scan_reaches (ch : Char) (c : Cursor κ) : Reaches c (c.scan ch).2 := by
  unfold scan
  split
  · exact (c.takeRun_reaches _ _).emit _
  · split
    · exact (c.takeRun_reaches _ _).emit _
    · split
      · dsimp only
        split
        · exact c.advance_reaches.advance.emit _
        · exact c.advance_reaches.emit _
      · split
        · exact c.advance_reaches.emit _
        · exact .refl c

theorem comment_reaches {d f : Cursor κ} {event : Event} {closed : Bool}
    (h : (d.advance.advance.note event).skipComment = (closed, f)) : Reaches d f := by
  have hc := skipComment_reaches (d.advance.advance.note event)
  rw [h] at hc
  exact (Reaches.note event d.advance_reaches.advance).trans hc

theorem nextToken_reaches (c : Cursor κ) : Reaches c c.nextToken.2 := by
  fun_induction nextToken c with
  | case1 c d _ => exact c.skipBlanks_reaches
  | case2 c d e _ f hs _ ih => exact (c.skipBlanks_reaches.trans (comment_reaches hs)).trans ih
  | case3 c d e _ f hs _ => exact c.skipBlanks_reaches.trans (comment_reaches hs)
  | case4 c d e _ _ => exact (c.skipBlanks_reaches.advance).emit _
  | case5 c d ch _ _ => exact c.skipBlanks_reaches.trans (d.scan_reaches ch)

theorem reaches_of_nextToken {c d : Cursor κ} {answer : Except Diagnostic Token}
    (h : c.nextToken = (answer, d)) : Reaches c d := by
  have hn := c.nextToken_reaches
  rw [h] at hn
  exact hn

/-! ## Checking -/

omit [Sink κ] in
theorem noteSection_eq (c : Cursor κ) (t : Token) :
    Checker.noteSection c t = c ∨ ∃ e, Checker.noteSection c t = c.note e := by
  unfold Checker.noteSection
  split
  · exact Or.inr ⟨_, rfl⟩
  · exact Or.inl rfl

theorem nextToken_noteSection_reaches {c d : Cursor κ} {t : Token}
    {answer : Except Diagnostic Token}
    (h : (Checker.noteSection c t).nextToken = (answer, d)) : Reaches c d := by
  have hn := reaches_of_nextToken h
  rcases noteSection_eq c t with he | ⟨e, he⟩
  · rw [he] at hn
    exact hn
  · rw [he] at hn
    exact (Reaches.note e (.refl c)).trans hn

theorem pursue_reaches (gs : List Grammar.Goal) (s : Checker κ) :
    Reaches s.cursor (s.pursue gs).2.cursor := by
  fun_induction Checker.pursue gs s with
  | case1 gs s _ _ => exact .refl _
  | case2 gs s _ _ d c h => exact nextToken_noteSection_reaches h
  | case3 gs s _ _ t c h _ => exact nextToken_noteSection_reaches h
  | case4 gs s _ _ t c h _ ih => exact (nextToken_noteSection_reaches h).trans ih

theorem check_reaches (c : Cursor κ) : Reaches c c.check.2 := by
  have hn := c.nextToken_reaches
  unfold check Checker.start
  rcases hd : c.nextToken with ⟨_ | t, d⟩ <;> rw [hd] at hn
  · exact hn
  · dsimp only
    rw [Checker.run_eq_pursue]
    exact hn.trans (pursue_reaches [.sections] ⟨d, t, 1⟩)

/-! ## Copying into the sink -/

/-- The characters that the cursor has not looked at yet. -/
def unread (c : Cursor κ) : List Char := if c.ended then [] else c.source.text

/-- The characters of `u` that are not unread have been copied into the sink, which was `sink` at
first. -/
def Copies (sink : κ) (u : List Char) (c : Cursor κ) : Prop :=
  ∃ seen, c.sink = Sink.copied sink seen ∧ u = seen ++ c.unread

theorem Copies.advance {sink : κ} {u : List Char} (c : Cursor κ) (h : Copies sink u c) :
    Copies sink u c.advance := by
  obtain ⟨seen, hs, hu⟩ := h
  cases he : c.ended with
  | true =>
    rw [advance_of_ended he]
    exact ⟨seen, hs, hu⟩
  | false =>
    have hr : c.unread = c.source.text := by rw [unread, he]; rfl
    cases hc : c.source.read.1.char.filter (· ≠ '\x00') with
    | none =>
      rw [advance_of_none he hc]
      refine ⟨seen, hs, ?_⟩
      rw [hu, hr, Source.text_of_none hc]
      rfl
    | some ch =>
      rw [advance_of_some he hc]
      refine ⟨seen ++ [ch], ?_, ?_⟩
      · rw [Sink.copied_append, ← hs]
        rfl
      · rw [hu, hr, Source.text_of_some hc, List.append_assoc]
        rfl

theorem Reaches.copies {c d : Cursor κ} {sink : κ} {u : List Char} (h : Reaches c d)
    (hc : Copies sink u c) : Copies sink u d :=
  h.invariant Copies.advance (fun _ _ hn => hn) hc

theorem load_copies (source : Source) (sink : κ) (journal : Journal) :
    Copies sink source.text (load source sink journal) :=
  Copies.advance (start source sink journal) ⟨[], rfl, rfl⟩

omit [Sink κ] in
theorem At.unread {c : Cursor κ} {cs : List Char} {p : Position} (h : c.At cs p) :
    c.unread = cs.tail := by
  cases cs with
  | nil => rw [Cursor.unread, h.ended]; rfl
  | cons ch cs => rw [Cursor.unread, h.ended, h.source (List.cons_ne_nil ch cs)]; rfl

/-- Where a cursor stands in its text says what has been copied: all up to and including the
character it looks at. -/
theorem At.sink_eq {c : Cursor κ} {seen rest : List Char} {p : Position} {sink : κ}
    (h : c.At rest p) (hc : Copies sink (seen ++ rest.tail) c) :
    c.sink = Sink.copied sink seen := by
  obtain ⟨seen', hs, hu⟩ := hc
  rw [h.unread] at hu
  rw [hs, List.append_cancel_right hu]

end Modula.Cursor

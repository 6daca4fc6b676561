import Modula.Proofs.Dump
import Modula.Proofs.Independence
import Modula.Proofs.Token.Repetition

/-! # What a command reads

A session is what its command reads and prints, and then its end (`session_eq`). The first part,
`Command.reading`, is the same over any sink.

* `reading_agree`, `reading_reaches`: what is read and printed does not depend on the sink, and the
  cursor does nothing but move on.
* `reading_copies`: so every sink gets the same characters, `Command.echoes`. There are none only if
  the text is empty (`echoes_eq_nil_iff`).
* `reading_of_fits`: an output with room for all that is printed leaves it to the text whether the
  command finds fault with it. -/

namespace Modula
set_option autoImplicit false

/-! ## Two cursors that look the same -/

namespace Cursor

variable {κ κ' : Type} [Sink κ] [Sink κ'] {c : Cursor κ} {d : Cursor κ'} {sink : κ} {sink' : κ'}
  {u : List Char}

theorem load_view (source : Source) (sink : κ) (sink' : κ') (journal journal' : Journal) :
    (load source sink journal).view = (load source sink' journal').view :=
  advance_view rfl

theorem exists_nextToken {answer : Except Diagnostic Token} {c' : Cursor κ} (h : c.view = d.view)
    (hn : c.nextToken = (answer, c')) : ∃ d', d.nextToken = (answer, d') ∧ c'.view = d'.view := by
  have ha := nextToken_agree h
  rw [hn] at ha
  exact ha.exists_eq

theorem copied_of_view (h : c.view = d.view) (hc : Copies sink u c) (hd : Copies sink' u d) :
    ∃ w, c.sink = Sink.copied sink w ∧ d.sink = Sink.copied sink' w := by
  obtain ⟨w, hs, hu⟩ := hc
  obtain ⟨w', hs', hu'⟩ := hd
  have hv : d.unread = c.unread := by
    have he : d.ended = c.ended := (congrArg View.ended h).symm
    have hsrc : d.source = c.source := (congrArg View.source h).symm
    rw [unread, unread, he, hsrc]
  rw [hv, hu] at hu'
  rw [← List.append_cancel_right hu'] at hs'
  exact ⟨w, hs, hs'⟩

end Cursor

/-! ## Parts of a session -/

namespace Session

variable {κ κ' : Type}

/-- An output and a cursor without its sink and its journal. -/
def view (x : Store × Cursor κ) : Store × View := (x.1, x.2.view)

/-- Prints that a text was accepted, if it was. -/
def announce (out : Store) :
    Except Diagnostic Unit → Except IoError (Except Diagnostic Unit) × Store
  | .error d => (.ok (.error d), out)
  | .ok _ =>
    match out.write (Utf8.bytes accepted) with
    | (.ok _, out) => (.ok (.ok ()), out)
    | (.error e, out) => (.error e, out)

/-- The end of a session behind what has been read. -/
def conclude (console : Store) :
    Except IoError (Except Diagnostic Unit) × Store × Cursor (Transcript Buffered) → Session
  | (.ok verdict, out, c) => finish verdict c.sink out console c.journal
  | (.error e, out, c) => ⟨.error (.output e), out, console, c.sink, c.journal⟩

variable [Sink κ] [Sink κ'] {c : Cursor κ} {d : Cursor κ'}

theorem dumpFrom_agree (out : Store) (h : c.view = d.view) :
    Agree view view (dumpFrom out c) (dumpFrom out d) := by
  fun_induction dumpFrom out c generalizing d with
  | case1 out c fault c' hn =>
    obtain ⟨d', hd, hv⟩ := Cursor.exists_nextToken h hn
    rw [dumpFrom_of_fault hd]
    exact ⟨rfl, congrArg (out, ·) hv⟩
  | case2 out c t c' hn e out' hw =>
    obtain ⟨d', hd, hv⟩ := Cursor.exists_nextToken h hn
    rw [dumpFrom_eq out d, hd]
    dsimp only
    rw [hw]
    exact ⟨rfl, congrArg (out', ·) hv⟩
  | case3 out c t c' hn _ out' hw hk =>
    obtain ⟨d', hd, hv⟩ := Cursor.exists_nextToken h hn
    rw [dumpFrom_eq out d, hd]
    dsimp only
    rw [hw]
    dsimp only
    rw [if_pos hk]
    exact ⟨rfl, congrArg (out', ·) hv⟩
  | case4 out c t c' hn _ out' hw hk ih =>
    obtain ⟨d', hd, hv⟩ := Cursor.exists_nextToken h hn
    rw [dumpFrom_eq out d, hd]
    dsimp only
    rw [hw]
    dsimp only
    rw [if_neg hk]
    exact ih hv

/-- With room for all rows a dump gives what the tokens of the text end in. -/
theorem dumpFrom_of_fits {p : Position} {u : List Char} {ts : List Token}
    {fault : Option Diagnostic} {out : Store} (hr : Reads p u ts fault) (hc : c.At u p)
    (hf : out.Fits (Utf8.encode (ts.flatMap Token.row)).length) :
    (dumpFrom out c).1 = .ok (ending fault) := by
  induction ts generalizing p u out c with
  | nil =>
    obtain ⟨g, rest, f, hg, hfail, rfl, rfl⟩ := hr.of_nil
    obtain ⟨d, hd, hn⟩ := hc.nextToken_gap hg
    obtain ⟨d', hd'⟩ := hd.nextToken_fails hfail
    rw [dumpFrom_of_fault (hn.trans hd')]
    rfl
  | cons t ts ih =>
    obtain ⟨before, rest, hp, hg, hrest, hend⟩ := hr.of_cons
    obtain ⟨d, hn, hd⟩ := hg c hc
    rw [List.flatMap_cons, Utf8.encode_append, List.length_append] at hf
    have hrow : out.Fits (Utf8.bytes (t.dump ++ "\n")).length := by
      rw [t.bytes_dump]
      intro limit hl
      have hle := hf limit hl
      omega
    rw [dumpFrom_eq, hn]
    dsimp only
    rw [Store.write_of_fits hrow]
    dsimp only
    by_cases hk : t.kind = .eof
    · obtain ⟨-, rfl⟩ := hend hk
      rw [if_pos hk]
      rfl
    · rw [if_neg hk]
      apply ih (hrest hk) hd
      intro limit hl
      have hle := hf limit hl
      have hsize : (out.held ++ Utf8.encode t.row).size =
          out.held.size + (Utf8.encode t.row).length := by
        rw [← Array.length_toList, Array.toList_appendList, List.length_append,
          Array.length_toList]
      rw [t.bytes_dump, hsize]
      dsimp only at hl
      omega

end Session

/-! ## Reading for a command -/

namespace Command

variable {κ κ' : Type} [Sink κ] [Sink κ'] {c : Cursor κ} {d : Cursor κ'}

/-- What a command reads at a cursor and prints: its verdict or the failure of its output. -/
def reading (command : Command) (out : Store) (c : Cursor κ) :
    Except IoError (Except Diagnostic Unit) × Store × Cursor κ :=
  match command with
  | tokens => Session.dumpFrom out c
  | check =>
    let (verdict, c) := c.check
    let (answer, out) := Session.announce out verdict
    (answer, out, c)

theorem session_eq (command : Command) (source : Source) (store out console : Store)
    (journal : Journal) :
    command.session source store out console journal =
      Session.conclude console (command.reading out
        (Cursor.load source (Transcript.ofWriter (Buffered.ofStore store)) journal)) := by
  cases command with
  | tokens =>
    change Session.dump source _ out console journal = Session.conclude _ (Session.dumpFrom out _)
    rw [Session.dump]
    rcases Session.dumpFrom out (Cursor.load source _ journal) with ⟨_ | _, _, _⟩ <;> rfl
  | check =>
    change Session.check source _ out console journal = Session.conclude _ _
    rw [Session.check, reading]
    rcases (Cursor.load source (Transcript.ofWriter (Buffered.ofStore store)) journal).check with
      ⟨_ | _, _⟩
    · rfl
    · dsimp only [Session.announce]
      rcases out.write (Utf8.bytes Session.accepted) with ⟨_ | _, _⟩ <;> rfl

theorem reading_agree (command : Command) (out : Store) (h : c.view = d.view) :
    Agree Session.view Session.view (command.reading out c) (command.reading out d) := by
  cases command with
  | tokens => exact Session.dumpFrom_agree out h
  | check =>
    have ha := Cursor.check_agree h
    rcases hc : c.check with ⟨verdict, c'⟩
    rw [hc] at ha
    obtain ⟨d', hd, hv⟩ := ha.exists_eq
    rw [reading, reading, hc, hd]
    exact ⟨rfl, congrArg ((Session.announce out verdict).2, ·) hv⟩

theorem reading_reaches (command : Command) (out : Store) (c : Cursor κ) :
    c.Reaches (command.reading out c).2.2 := by
  cases command with
  | tokens => exact Session.dumpFrom_reaches out c
  | check => exact c.check_reaches

/-- The characters that a command copies while it reads a source, into a transcript as into any other
sink (`reading_copies`). -/
def echoes (command : Command) (source : Source) (out : Store) : List Char :=
  (command.reading out (Cursor.load source (Recorder.mk []) #[])).2.2.sink.heard

theorem reading_copies (command : Command) (source : Source) (out : Store) (sink : κ)
    (journal : Journal) :
    (command.reading out (Cursor.load source sink journal)).2.2.sink =
      Sink.copied sink (command.echoes source out) := by
  have hv := (command.reading_agree out
    (Cursor.load_view source sink (Recorder.mk []) journal #[])).view
  have hc := (command.reading_reaches out _).copies (Cursor.load_copies source sink journal)
  have hd := (command.reading_reaches out _).copies
    (Cursor.load_copies source (Recorder.mk []) #[])
  obtain ⟨w, hs, hw⟩ := Cursor.copied_of_view (congrArg Prod.snd hv) hc hd
  rw [hs, echoes, hw, Recorder.heard_copied]
  rfl

/-- A command looks at the first character at least. -/
theorem echoes_eq_nil_iff (command : Command) (source : Source) (out : Store) :
    command.echoes source out = [] ↔ source.text = [] := by
  have hr := command.reading_reaches out (Cursor.load source (Recorder.mk []) #[])
  obtain ⟨w, hs, hu⟩ := hr.copies (Cursor.load_copies source (Recorder.mk []) #[])
  obtain ⟨seen, rest, ht, ha⟩ := (Cursor.load_at source (Recorder.mk []) #[]).of_reaches hr
  have he : command.echoes source out = w := by
    rw [echoes, hs, Recorder.heard_copied]
    rfl
  rw [he]
  rw [ha.unread] at hu
  constructor
  · rintro rfl
    -- what is left is a proper part of a text that is not empty
    have hl := congrArg List.length (hu.symm.trans ht)
    simp only [List.length_append, List.length_tail, List.length_nil] at hl
    rw [ht, List.append_eq_nil_iff, ← List.length_eq_zero_iff, ← List.length_eq_zero_iff]
    omega
  · intro hn
    rw [hn] at hu
    exact (List.append_eq_nil_iff.mp hu.symm).1

/-! ## The verdict of a command -/

/-- Whether a command finds fault with a text. -/
def verdict (command : Command) (cs : List Char) : Except Diagnostic Unit :=
  match command with
  | check => Modula.check cs
  | tokens => (tokenize cs).map fun _ => ()

/-- What a command prints for a text. -/
def printed (command : Command) (cs : List Char) : List UInt8 :=
  match command with
  | check =>
    match Modula.check cs with
    | .ok _ => Utf8.bytes Session.accepted
    | .error _ => []
  | tokens => dumped cs

theorem ending_tokenStream (cs : List Char) :
    ending (tokenStream cs).2 = (tokenize cs).map fun _ => () := by
  cases ht : tokenize cs with
  | ok ts =>
    rw [tokenize_eq_ok_iff.mp ht]
    rfl
  | error d =>
    obtain ⟨ts, hts⟩ := tokenize_eq_error_iff.mp ht
    rw [hts]
    rfl

theorem reading_of_fits {command : Command} {source : Source} {cs : List Char} {out : Store}
    (h : source.text = visible cs) (hf : out.Fits (command.printed cs).length) (sink : κ)
    (journal : Journal) :
    (command.reading out (Cursor.load source sink journal)).1 = .ok (command.verdict cs) := by
  cases command with
  | tokens =>
    have hc := Cursor.load_at source sink journal
    rw [h] at hc
    rw [verdict, ← ending_tokenStream]
    exact Session.dumpFrom_of_fits (reads_tokenStream cs) hc hf
  | check =>
    have hv := check_of_text h sink journal
    change (Session.announce out (Cursor.load source sink journal).check.1).1 = .ok (Modula.check cs)
    rw [hv]
    cases hc : Modula.check cs with
    | error d => rfl
    | ok _ =>
      simp only [printed, hc] at hf
      rw [Session.announce, Store.write_of_fits hf]

end Command
end Modula

import Modula.Proofs.Echo
import Modula.Proofs.Output.Reporter
import Modula.Session

/-! # What a session leaves in its transcript

The transcript of a session over a file that never fails is the part of the text that was copied,
and behind it, if the text was rejected, the diagnostic on a line of its own (`annotated`). This
does not depend on whether the transcript has been closed: a session that could not print its result
still hands on what it has copied (`check_unprinted`). -/

namespace Modula
set_option autoImplicit false

/-! ## A message behind a text -/

/-- A text with a message behind it, on a line of its own. -/
def annotated (cs : List Char) (message : String) : List Char :=
  cs ++ (if cs = [] ∨ cs.getLast? = some '\n' then [] else ['\n']) ++ message.toList ++ ['\n']

theorem atLineStart_encode_iff (cs : List Char) :
    Transcript.AtLineStart (Utf8.encode cs) ↔ cs = [] ∨ cs.getLast? = some '\n' :=
  or_congr (Utf8.encode_eq_nil_iff cs) (Utf8.getLast?_encode_eq_newline_iff cs)

theorem encode_annotated (cs : List Char) (message : String) :
    Utf8.encode (annotated cs message) =
      Utf8.encode cs ++ Transcript.lineBreak (Utf8.encode cs) ++ Utf8.bytes message ++
        [Transcript.newline] := by
  have hn : Utf8.encode ['\n'] = [Transcript.newline] := by decide
  have hb : Utf8.encode (if cs = [] ∨ cs.getLast? = some '\n' then [] else ['\n']) =
      Transcript.lineBreak (Utf8.encode cs) := by
    rw [Transcript.lineBreak]
    by_cases h : Transcript.AtLineStart (Utf8.encode cs)
    · rw [if_pos h, if_pos ((atLineStart_encode_iff cs).mp h)]
      rfl
    · rw [if_neg h, if_neg fun hx => h ((atLineStart_encode_iff cs).mpr hx)]
      exact hn
  rw [annotated, Utf8.encode_append, Utf8.encode_append, Utf8.encode_append, hb, hn]
  rfl

/-! ## The end of a session -/

namespace Session

variable {t : Transcript Buffered} {bs : List UInt8}

/-- A session has come to a result, with `out` as its output and `bs` in its transcript. -/
structure Leaves (s : Session) (result : Except Failure Outcome) (out : Store) (bs : List UInt8) :
    Prop where
  result : s.result = result
  out : s.out = out
  transcribed : s.transcribed.toList = bs

theorem finish_accepted (h : t.Open Buffered.Holds bs) (out console : Store) (journal : Journal) :
    (finish (.ok ()) t out console journal).Leaves (.ok .accepted) out bs := by
  obtain ⟨u, hu, hs⟩ := h.close
  rw [finish, hu]
  exact ⟨rfl, rfl, hs⟩

/-- What becomes of a rejection once its line has gone to a console. -/
def rejection (console : Store) (d : Diagnostic) : Except Failure Outcome :=
  match (Reporter.shown console d.display).1 with
  | .ok _ => .ok (.rejected d)
  | .error e => .error (.report e)

theorem rejection_of_takesLine {console : Store} {d : Diagnostic}
    (h : Reporter.TakesLine console d.display) : rejection console d = .ok (.rejected d) := by
  rw [rejection, Reporter.shown_of_takesLine h]

theorem rejection_of_not_takesLine {console : Store} {d : Diagnostic}
    (h : ¬ Reporter.TakesLine console d.display) : ∃ e, rejection console d = .error (.report e) := by
  obtain ⟨e, he⟩ := Reporter.shown_of_not_takesLine h
  rw [rejection, he]
  exact ⟨e, rfl⟩

/-- The console does not get in the way of the transcript, and is all that gets in the way of the
report. -/
theorem finish_rejected (h : t.Open Buffered.Holds bs) (d : Diagnostic) (out console : Store)
    (journal : Journal) :
    (finish (.error d) t out console journal).Leaves (rejection console d) out
      (bs ++ Transcript.lineBreak bs ++ Utf8.bytes d.display ++ [Transcript.newline]) := by
  obtain ⟨u, hu, ho⟩ := h.line Buffered.keeps_holds d.display
  obtain ⟨v, hv, hs⟩ := ho.close
  have hl : Sink.line t d.display = (u, none) := hu
  have hc : Sink.close u = (.ok (), v) := hv
  obtain ⟨j, ha⟩ := Reporter.abort_eq (Reporter.mk console t (journal.push (.rejected d))) d.display
  rw [finish, ha, hl, hc]
  exact ⟨rfl, rfl, hs⟩

/-! ## Checking a source -/

variable {cs : List Char} {source : Source}

/-- A transcript that has just been begun, in a file. -/
def begun : Transcript Buffered := .ofWriter (.ofStore .unbounded)

theorem exists_checked (h : source.text = visible cs) (journal : Journal) :
    ∃ cursor, (Cursor.load source begun journal).check = (Modula.check cs, cursor) ∧
      cursor.sink.Open Buffered.Holds (Utf8.encode (echoed cs)) := by
  have ho : begun.Open Buffered.Holds [] :=
    Transcript.open_ofWriter Buffered.holds_ofStore_unbounded
  refine ⟨_, Prod.ext (check_of_text h begun journal) rfl, ?_⟩
  rw [check_copies h]
  exact ho.copied Buffered.keeps_holds (echoed cs)

theorem check_accepted (h : source.text = visible cs) (hv : Modula.check cs = .ok ()) {out : Store}
    (hf : out.Fits (Utf8.bytes accepted).length) (console : Store) (journal : Journal) :
    (check source begun out console journal).Leaves (.ok .accepted)
      { out with held := out.held ++ Utf8.bytes accepted } (Utf8.encode (visible cs)) := by
  obtain ⟨cursor, hc, ho⟩ := exists_checked h journal
  rw [echoed_of_accepted hv] at ho
  rw [check, hc, hv, Store.write_of_fits hf]
  exact finish_accepted ho _ _ _

/-- The transcript is given up without having been closed, with all of the text in it. -/
theorem check_unprinted (h : source.text = visible cs) (hv : Modula.check cs = .ok ())
    {out : Store} (hf : ¬ out.Fits (Utf8.bytes accepted).length) (console : Store)
    (journal : Journal) :
    (check source begun out console journal).Leaves (.error (.output out.refusal))
      (out.write (Utf8.bytes accepted)).2 (Utf8.encode (visible cs)) := by
  obtain ⟨cursor, hc, ho⟩ := exists_checked h journal
  rw [echoed_of_accepted hv] at ho
  rw [check, hc, hv, Store.write_of_not_fits hf]
  exact ⟨rfl, rfl, ho.out.settle⟩

/-- Whether the line can be printed decides how the session ends, not what it has copied. -/
theorem check_transcribed (h : source.text = visible cs) (hv : Modula.check cs = .ok ())
    (out console : Store) (journal : Journal) :
    (check source begun out console journal).transcribed.toList = Utf8.encode (visible cs) := by
  by_cases hf : out.Fits (Utf8.bytes accepted).length
  · exact (check_accepted h hv hf console journal).transcribed
  · exact (check_unprinted h hv hf console journal).transcribed

theorem check_rejected (h : source.text = visible cs) {d : Diagnostic}
    (hv : Modula.check cs = .error d) (out console : Store) (journal : Journal) :
    (check source begun out console journal).Leaves (rejection console d) out
      (Utf8.encode (annotated (echoed cs) d.display)) := by
  obtain ⟨cursor, hc, ho⟩ := exists_checked h journal
  rw [check, hc, hv, encode_annotated]
  exact finish_rejected ho d out _ _

end Session
end Modula

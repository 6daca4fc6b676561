import Modula.Output.Reporter
import Modula.Proofs.Output.Limited

/-! # A sink and a console side by side

A reporter keeps its two destinations apart. To the sink a report is a line and an abort is a line
and a closing (`Step.ops`), whatever the console makes of it; to the console each of them is one
printed line (`Step.printed`), whatever has become of the sink.

* `after_sink`: the sink after some steps is the sink after their operations.
* `Shows console r bs`: the console of `r` has been given `bs` in all and holds what it has room
  for. Every step keeps this (`Shows.step`), and so does a run of them (`Shows.after`).
* `sink_console_apart`: both at every point of a run, and what each step gives there. -/

namespace Modula.Reporter
set_option autoImplicit false

open Sink (Op)
open Transcript (newline)

/-! ## What a step is to each side -/

def Step.ops : Step → List Op
  | .echo text => text.toList.map .echo
  | .line text => [.line text]
  | .close => [.close]
  | .report message => [.line message]
  | .abort message => [.line message, .close]

def Step.printed : Step → List UInt8
  | .report message | .abort message => Utf8.bytes message ++ [newline]
  | .echo _ | .line _ | .close => []

variable {γ κ : Type} [Writer γ] [Sink κ]

/-- A reporter after some steps. -/
def after (r : Reporter γ κ) (steps : List Step) : Reporter γ κ :=
  steps.foldl (fun r s => (r.step s).2) r

@[simp] theorem after_cons (r : Reporter γ κ) (s : Step) (steps : List Step) :
    r.after (s :: steps) = (r.step s).2.after steps := rfl

/-! ## One step -/

omit [Writer γ] in
theorem foldl_echo (r : Reporter γ κ) (cs : List Char) :
    (cs.foldl echo r).sink = Sink.after r.sink (cs.map .echo) ∧
      (cs.foldl echo r).console = r.console := by
  induction cs generalizing r with
  | nil => exact ⟨rfl, rfl⟩
  | cons c cs ih => exact ih (r.echo c)

theorem report_eq (r : Reporter γ κ) (m : String) :
    r.report m = ((Writer.write r.console (Utf8.bytes m ++ [newline])).1,
      ⟨(Writer.write r.console (Utf8.bytes m ++ [newline])).2, (Sink.line r.sink m).1,
        Journal.transcriptError r.journal (Sink.line r.sink m).2⟩) := rfl

/-- What comes of a line on a console that is flushed behind it. -/
def shown (console : γ) (m : String) : Except IoError Unit × γ :=
  match Writer.write console (Utf8.bytes m ++ [newline]) with
  | (.error e, w) => (.error e, w)
  | (.ok _, w) => Writer.flush w

theorem report_flushIfOk (r : Reporter γ κ) (m : String) :
    ∃ journal, (r.report m).2.flushIfOk (r.report m).1 =
      ((shown r.console m).1, ⟨(shown r.console m).2, (Sink.line r.sink m).1, journal⟩) := by
  rw [report_eq, shown]
  cases Writer.write r.console (Utf8.bytes m ++ [newline]) with
  | mk written w => cases written <;> exact ⟨_, rfl⟩

/-- The sink is closed behind the line in any case, and only its own failure hides that of the
console. -/
theorem abort_eq (r : Reporter γ κ) (m : String) :
    ∃ journal, r.abort m =
      (match (Sink.close (Sink.line r.sink m).1).1 with
        | .error e => .error e
        | .ok _ => (shown r.console m).1,
       ⟨(shown r.console m).2, (Sink.close (Sink.line r.sink m).1).2, journal⟩) := by
  obtain ⟨journal, h⟩ := report_flushIfOk { r with journal := r.journal.push (.aborting m) } m
  refine ⟨journal, ?_⟩
  simp only [abort, h]
  rfl

/-- A console has room for a line and hands it on. -/
structure TakesLine (console : Store) (m : String) : Prop where
  fits : console.Fits (Utf8.bytes m ++ [newline]).length
  flushed : console.flushError = none

theorem takesLine_unbounded (m : String) : TakesLine .unbounded m := ⟨by rintro _ ⟨⟩, rfl⟩

theorem shown_of_fits {console : Store} {m : String}
    (h : console.Fits (Utf8.bytes m ++ [newline]).length) :
    (shown console m).1 = console.flush.1 := by
  have hw : Writer.write console (Utf8.bytes m ++ [newline]) = (.ok (), _) := Store.write_of_fits h
  rw [shown, hw]
  rfl

theorem shown_of_takesLine {console : Store} {m : String} (h : TakesLine console m) :
    (shown console m).1 = .ok () := by
  rw [shown_of_fits h.fits, Store.flush, h.flushed]

theorem shown_of_not_takesLine {console : Store} {m : String} (h : ¬ TakesLine console m) :
    ∃ e, (shown console m).1 = .error e := by
  by_cases hf : console.Fits (Utf8.bytes m ++ [newline]).length
  · cases he : console.flushError with
    | none => exact absurd ⟨hf, he⟩ h
    | some e =>
      refine ⟨e, ?_⟩
      rw [shown_of_fits hf, Store.flush, he]
  · have hw : Writer.write console (Utf8.bytes m ++ [newline]) = (.error console.refusal, _) :=
      Store.write_of_not_fits hf
    rw [shown, hw]
    exact ⟨_, rfl⟩

/-! ## The sink -/

theorem step_sink (r : Reporter γ κ) (s : Step) :
    (r.step s).2.sink = Sink.after r.sink s.ops := by
  cases s with
  | echo text => exact (foldl_echo r text.toList).1
  | line text => rfl
  | close => rfl
  | report m => rfl
  | abort m =>
    obtain ⟨journal, h⟩ := abort_eq r m
    rw [step, h]
    rfl

theorem after_sink (r : Reporter γ κ) (steps : List Step) :
    (r.after steps).sink = Sink.after r.sink (steps.flatMap Step.ops) := by
  induction steps generalizing r with
  | nil => rfl
  | cons s steps ih => rw [after_cons, ih, step_sink, List.flatMap_cons, Sink.after_append]

/-! ## The console -/

section Console

variable {console : Store} {r : Reporter Store κ} {bs : List UInt8}

/-- The console of a reporter, which was `console` at first, has been given `bs` in all. -/
def Shows (console : Store) (r : Reporter Store κ) (bs : List UInt8) : Prop :=
  r.console = { console with flushes := r.console.flushes }.keeping bs

omit [Sink κ] in
theorem Shows.write (h : r.Shows console bs) (m : String) :
    Writer.write r.console (Utf8.bytes m ++ [newline]) =
      (console.reply (bs ++ (Utf8.bytes m ++ [newline])),
        { console with flushes := r.console.flushes }.keeping
          (bs ++ (Utf8.bytes m ++ [newline]))) := by
  have hc : Utf8.bytes m ++ [newline] ≠ [] := by simp
  have hw := Store.write_keeping_eq { console with flushes := r.console.flushes } bs hc
  rw [← h] at hw
  exact hw

omit [Sink κ] in
theorem Shows.shown_of_overflows (h : r.Shows console bs) {m : String}
    (ho : Store.Overflows console.limit (bs ++ (Utf8.bytes m ++ [newline]))) :
    shown r.console m = (.error console.refusal,
      { console with flushes := r.console.flushes }.keeping
        (bs ++ (Utf8.bytes m ++ [newline]))) := by
  rw [shown, h.write, Store.reply, if_pos ho]

omit [Sink κ] in
theorem Shows.shown_of_room (h : r.Shows console bs) {m : String}
    (ho : ¬ Store.Overflows console.limit (bs ++ (Utf8.bytes m ++ [newline]))) :
    shown r.console m = (console.flush.1,
      { console with flushes := r.console.flushes + 1 }.keeping
        (bs ++ (Utf8.bytes m ++ [newline]))) := by
  rw [shown, h.write, Store.reply, if_neg ho]
  rfl

theorem Shows.step (h : r.Shows console bs) (s : Step) :
    (r.step s).2.Shows console (bs ++ s.printed) := by
  cases s with
  | echo text =>
    have he := (foldl_echo r text.toList).2
    unfold Shows
    rw [Reporter.step, he, Step.printed, List.append_nil]
    exact h
  | line text =>
    rw [Step.printed, List.append_nil]
    exact h
  | close =>
    rw [Step.printed, List.append_nil]
    exact h
  | report m =>
    unfold Shows
    rw [Reporter.step, report_eq, h.write]
    rfl
  | abort m =>
    obtain ⟨journal, ha⟩ := abort_eq r m
    unfold Shows
    rw [Reporter.step, ha]
    by_cases ho : Store.Overflows console.limit (bs ++ (Utf8.bytes m ++ [newline]))
    · rw [h.shown_of_overflows ho]
      rfl
    · rw [h.shown_of_room ho]
      rfl

theorem Shows.after (h : r.Shows console bs) (steps : List Step) :
    (r.after steps).Shows console (bs ++ steps.flatMap Step.printed) := by
  induction steps generalizing r bs with
  | nil =>
    rw [List.flatMap_nil, List.append_nil]
    exact h
  | cons s steps ih =>
    rw [after_cons, List.flatMap_cons, ← List.append_assoc]
    exact ih (h.step s)

/-! ## What a step gives -/

theorem Shows.report_result (h : r.Shows console bs) (m : String) :
    (r.step (.report m)).1 = console.reply (bs ++ (Step.report m).printed) := by
  rw [Reporter.step, report_eq, h.write]
  rfl

theorem Shows.abort_of_overflows (h : r.Shows console bs) {m : String}
    (ho : Store.Overflows console.limit (bs ++ (Utf8.bytes m ++ [newline]))) :
    (r.step (.abort m)).1 =
        (match (Sink.close (Sink.line r.sink m).1).1 with
          | .error e => .error e
          | .ok _ => .error console.refusal) ∧
      (r.step (.abort m)).2.console.flushes = r.console.flushes := by
  obtain ⟨journal, ha⟩ := abort_eq r m
  rw [Reporter.step, ha, h.shown_of_overflows ho]
  exact ⟨rfl, rfl⟩

theorem Shows.abort_of_room (h : r.Shows console bs) {m : String}
    (ho : ¬ Store.Overflows console.limit (bs ++ (Utf8.bytes m ++ [newline]))) :
    (r.step (.abort m)).1 =
        (match (Sink.close (Sink.line r.sink m).1).1 with
          | .error e => .error e
          | .ok _ => console.flush.1) ∧
      (r.step (.abort m)).2.console.flushes = r.console.flushes + 1 := by
  obtain ⟨journal, ha⟩ := abort_eq r m
  rw [Reporter.step, ha, h.shown_of_room ho]
  exact ⟨rfl, rfl⟩

theorem Shows.step_flushes (h : r.Shows console bs) {s : Step} (hs : ∀ m, s ≠ .abort m) :
    (r.step s).2.console.flushes = r.console.flushes := by
  cases s with
  | echo text => rw [Reporter.step, (foldl_echo r text.toList).2]
  | line text => rfl
  | close => rfl
  | report m =>
    rw [Reporter.step, report_eq, h.write]
    rfl
  | abort m => exact absurd rfl (hs m)

end Console

/-- A reporter after any steps `before`, over any sink and with a console that holds nothing at
first. The sink is what the operations of the steps make of it alone: the console has no say in what
its writer holds, how often it is flushed and what its closings give. The console holds as much of
the printed lines as it has room for, and the sink has no say in that. A report fails just in case
there is no room for all lines so far; an abort gives the failure of closing the sink, otherwise
that of the line on the console, otherwise that of flushing it, and the console is flushed just in
case it has taken the line. -/
theorem sink_console_apart {console : Store} (hc : console.held = #[]) (sink : κ)
    (journal : Journal) (before : List Step) :
    let r := (Reporter.mk console sink journal).after before
    let alone := Sink.after sink (before.flatMap Step.ops)
    let lines := before.flatMap Step.printed
    r.sink = alone ∧
    r.console.held.toList = Store.within console.limit lines ∧
    (r.step .close).1 = (Sink.close alone).1 ∧
    (∀ m, (r.step (.report m)).1 =
      if Store.Overflows console.limit (lines ++ (Utf8.bytes m ++ [newline])) then
        .error console.refusal
      else .ok ()) ∧
    (∀ m, let closed := (Sink.close (Sink.after alone [.line m])).1
      (Store.Overflows console.limit (lines ++ (Utf8.bytes m ++ [newline])) →
        (r.step (.abort m)).1 =
            (match closed with
              | .error e => .error e
              | .ok _ => .error console.refusal) ∧
          (r.step (.abort m)).2.console.flushes = r.console.flushes) ∧
      (¬ Store.Overflows console.limit (lines ++ (Utf8.bytes m ++ [newline])) →
        (r.step (.abort m)).1 =
            (match closed with
              | .error e => .error e
              | .ok _ => console.flush.1) ∧
          (r.step (.abort m)).2.console.flushes = r.console.flushes + 1)) ∧
    (∀ s, (∀ m, s ≠ .abort m) → (r.step s).2.console.flushes = r.console.flushes) := by
  intro r alone lines
  have hs : r.sink = alone := after_sink _ before
  have h0 : (Reporter.mk console sink journal).Shows console [] := (Store.keeping_nil hc).symm
  have hr : r.Shows console lines := h0.after before
  refine ⟨hs, ?_, ?_, hr.report_result, fun m => ?_, fun s => hr.step_flushes⟩
  · rw [hr]
    rfl
  · rw [← hs]
    rfl
  · rw [← hs]
    exact ⟨hr.abort_of_overflows, hr.abort_of_room⟩

/-- A reporter with little room on either side. -/
def cramped : Reporter Store (Transcript Store) :=
  ⟨⟨some 4, .diskFull, some .flushFailed, #[], 0⟩, .ofWriter ⟨some 5, .noSpace, none, #[], 0⟩, #[]⟩

/-- The first abort gives the failure of the sink; the second one finds the sink closed, which is
nothing wrong, and so gives the failure of the console. -/
theorem sink_console_apart_both_full :
    (cramped.after [.echo "é", .report "ab", .abort "c"]).console.held.toList =
      Utf8.bytes "ab\nc" ∧
    ((cramped.after [.echo "é", .report "ab"]).step (.abort "c")).1 = .error .noSpace ∧
    ((cramped.after [.echo "é", .report "ab", .abort "c"]).step (.abort "d")).1 =
      .error .diskFull := by
  have hc : cramped.console.held = #[] := rfl
  have h := sink_console_apart hc cramped.sink cramped.journal
  have hb := h [.echo "é", .report "ab"]
  have ha := h [.echo "é", .report "ab", .abort "c"]
  refine ⟨ha.2.1.trans (by decide +kernel), ?_, ?_⟩
  · exact ((hb.2.2.2.2.1 "c").1 (by decide +kernel)).1.trans rfl
  · exact ((ha.2.2.2.2.1 "d").1 (by decide +kernel)).1.trans rfl

end Modula.Reporter

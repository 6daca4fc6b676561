import Modula.Proofs.Output.Refusing
import Modula.Proofs.Output.Reporter
import Modula.Proofs.Reading

/-! # Commands whose transcript is lost

The path of a transcript may lead to a device that can be opened and refuses every byte. Nothing of
what the command reads depends on it, and the failure of the device is kept until the transcript is
closed, so it comes up in the end if there was anything to write (`finish_blocked`). On such a device
a command never ends as if the transcript had been written (`full_device_reported`). -/

namespace Modula
set_option autoImplicit false

/-! ## The end of a session -/

namespace Session

variable {e : IoError} {t : Transcript Buffered}

/-- How a session ends whose transcript takes nothing: with the failure `e` of the transcript if
anything was to be written there, unless the output has failed before. -/
def lossy (e : IoError) (echoed : List Char) :
    Except IoError (Except Diagnostic Unit) → Except Failure Outcome
  | .error f => .error (.output f)
  | .ok (.error _) => .error (.report e)
  | .ok (.ok _) => if echoed = [] then .ok .accepted else .error (.transcript e)

/-- The failure of the device comes before whatever the console says. -/
theorem finish_blocked {echoed : List Char} (h : t.Blocked e (Utf8.encode echoed))
    (verdict : Except Diagnostic Unit) (out console : Store) (journal : Journal) :
    (finish verdict t out console journal).result = lossy e echoed (.ok verdict) := by
  cases verdict with
  | ok _ =>
    have hc := h.close
    simp only [Utf8.encode_eq_nil_iff] at hc
    rcases hclose : t.close with ⟨closed, t'⟩
    rw [hclose] at hc
    rw [finish, hclose, lossy]
    dsimp only at hc ⊢
    rw [hc]
    by_cases he : echoed = []
    · rw [if_pos he, if_pos he]
    · rw [if_neg he, if_neg he]
  | error d =>
    obtain ⟨bs, hb, hl⟩ := h.line d.display
    have hc : (Sink.close (Sink.line t d.display).1).1 = .error e := hl.close.trans (if_neg hb)
    obtain ⟨j, ha⟩ := Reporter.abort_eq (Reporter.mk console t (journal.push (.rejected d))) d.display
    rw [finish, ha]
    dsimp only
    rw [hc]
    rfl

end Session

/-! ## Commands on the device -/

namespace Command

theorem session_refusing (command : Command) (source : Source) (e : IoError) (out console : Store)
    (journal : Journal) :
    (command.session source (.refusing e) out console journal).result =
      Session.lossy e (command.echoes source out)
        (command.reading out (Cursor.load source (Recorder.mk []) #[])).1 := by
  have ha := (command.reading_agree out (Cursor.load_view source
    (Transcript.ofWriter (Buffered.ofStore (.refusing e))) (Recorder.mk []) journal #[])).answer
  have hb := (Transcript.blocked_ofWriter e).copied (command.echoes source out)
  rw [← command.reading_copies source out _ journal, List.nil_append] at hb
  rw [session_eq, ← ha]
  rcases hr : command.reading out (Cursor.load source
    (Transcript.ofWriter (Buffered.ofStore (.refusing e))) journal) with ⟨f | v, out', c'⟩
  · rfl
  · rw [hr] at hb
    exact Session.finish_blocked hb v out' console c'.journal

variable {tree : FileTree} {path : Path} {l : Location}

theorem create_of_device (h : tree.resolve .create (target path) = .ok ⟨l, some .device⟩) :
    tree.create (target path) = .ok (.device, tree) := by
  rw [FileTree.create, h]
  rfl

theorem run_on_device {source : Source}
    (h : tree.resolve .create (target path) = .ok ⟨l, some .device⟩)
    (hr : tree.read path = .ok source) (hs : tree.same path (target path) = false)
    (command : Command) (out console : Store) :
    (command.run tree path out console).result =
      Session.lossy .noSpace (command.echoes source out)
        (command.reading out (Cursor.load source (Recorder.mk []) #[])).1 := by
  obtain ⟨stream, ha, rfl⟩ := FileTree.read_eq_ok_iff.mp hr
  obtain ⟨journal, ho⟩ := openFiles_of_opened ha hs (create_of_device h)
  rw [run, ho]
  exact command.session_refusing _ .noSpace out console journal

/-- On the device there are failures, and otherwise sources of which nothing has been copied. -/
theorem run_on_device_cases (h : tree.resolve .create (target path) = .ok ⟨l, some .device⟩)
    (command : Command) (out console : Store) :
    (∃ failure, (command.run tree path out console).result = .error failure) ∨
    ((command.run tree path out console).result = .ok .accepted ∧
      ∃ source, tree.read path = .ok source ∧ command.echoes source out = []) := by
  rcases unopened_or tree path with hu | ⟨stream, _, _, ha, hs, -⟩
  · exact .inl (run_of_unopened hu command out console).1
  · have hr := FileTree.read_eq_ok_iff.mpr ⟨stream, ha, rfl⟩
    rw [run_on_device h hr hs]
    rcases (command.reading out (Cursor.load (tree.contents stream) (Recorder.mk []) #[])).1 with
      f | d | _
    · exact .inl ⟨_, rfl⟩
    · exact .inl ⟨_, rfl⟩
    · by_cases he : command.echoes (tree.contents stream) out = []
      · exact .inr ⟨if_pos he, _, hr, he⟩
      · exact .inl ⟨_, if_neg he⟩

/-- The path of the transcript leads to a device that opens and refuses every byte. Then a command
accepts only a source of which no character has been copied, which is one with an empty text, and it
never gives a rejection. If the source can be read, is not its own transcript, and the output takes
what there is to print, then the command fails for the report of the diagnostic if there is one, and
otherwise for the transcript if any character has been copied; both failures have that of the
device behind them. The console has no say in any of this. -/
theorem full_device_reported
    (h : tree.resolve .create (target path) = .ok ⟨l, some .device⟩) (command : Command)
    (out console : Store) :
    let result := (command.run tree path out console).result
    (result = .ok .accepted → ∃ source, tree.read path = .ok source ∧
      command.echoes source out = [] ∧ source.text = []) ∧
    (∀ d, result ≠ .ok (.rejected d)) ∧
    (∀ source, tree.read path = .ok source → tree.same path (target path) = false →
      out.Fits (command.printed source.text).length →
      (∀ d, command.verdict source.text = .error d → result = .error (.report .noSpace)) ∧
      (command.verdict source.text = .ok () →
        (command.echoes source out ≠ [] → result = .error (.transcript .noSpace)) ∧
        (command.echoes source out = [] → result = .ok .accepted))) ∧
    (Failure.transcript .noSpace).chain =
      ["Failed to write transcript", "No space left on device (os error 28)"] ∧
    (Failure.report .noSpace).chain =
      ["Failed to report diagnostic", "No space left on device (os error 28)"] := by
  intro result
  have cases := run_on_device_cases h command out console
  refine ⟨fun ha => ?_, fun d hd => ?_, fun source hr hs hf => ?_, by decide, by decide⟩
  · rcases cases with ⟨failure, he⟩ | ⟨-, source, hr, he⟩
    · cases he.symm.trans ha
    · exact ⟨source, hr, he, (command.echoes_eq_nil_iff source out).mp he⟩
  · rcases cases with ⟨failure, he⟩ | ⟨he, -⟩
    · cases he.symm.trans hd
    · cases he.symm.trans hd
  · have hv := reading_of_fits source.visible_text.symm hf (Recorder.mk []) #[]
    have hrun : result = _ := run_on_device h hr hs command out console
    rw [hv] at hrun
    refine ⟨fun d hd => ?_, fun ho => ⟨fun hne => ?_, fun he => ?_⟩⟩
    · rw [hrun, hd]
      rfl
    · rw [hrun, ho]
      exact if_neg hne
    · rw [hrun, ho]
      exact if_pos he

/-- A source with a transcript that is a link to the device. -/
def diverted (content : String) : FileTree :=
  (lone "a.mod" content).plant (.ofString "a.out") (.link (.ofString "/dev/full"))

/-- A check of a text that is accepted and one of a text that is rejected, dumps of a text without
and with a lexical fault, and a dump of an empty text. -/
theorem full_device_reported_through_link :
    (check.run (diverted "VAR x: T;") (.ofString "a.mod") .unbounded).result =
      .error (.transcript .noSpace) ∧
    (check.run (diverted "VAR x y;") (.ofString "a.mod") .unbounded).result =
      .error (.report .noSpace) ∧
    (tokens.run (diverted "VAR x y;") (.ofString "a.mod") .unbounded).result =
      .error (.transcript .noSpace) ∧
    (tokens.run (diverted "?") (.ofString "a.mod") .unbounded).result =
      .error (.report .noSpace) ∧
    (tokens.run (diverted "") (.ofString "a.mod") .unbounded).result = .ok .accepted := by
  have fits : ∀ n, Store.unbounded.Fits n := by
    rintro n _ ⟨⟩
  have leads : ∀ content ∈ ["VAR x: T;", "VAR x y;", "?", ""],
      (diverted content).resolve .create (target (.ofString "a.mod")) =
        .ok ⟨[Utf8.bytes "full", Utf8.bytes "dev"], some .device⟩ ∧
      (diverted content).read (.ofString "a.mod") = .ok (.ofBytes (Utf8.bytes content)) ∧
      (diverted content).same (.ofString "a.mod") (target (.ofString "a.mod")) = false := by
    decide +kernel
  refine ⟨?_, ?_, ?_, ?_, ?_⟩
  · obtain ⟨h, hr, hs⟩ := leads "VAR x: T;" (by decide)
    obtain ⟨-, -, hend, -⟩ := full_device_reported h check .unbounded .unbounded
    exact ((hend _ hr hs (fits _)).2 (by decide +kernel)).1 (by decide +kernel)
  · obtain ⟨h, hr, hs⟩ := leads "VAR x y;" (by decide)
    obtain ⟨-, -, hend, -⟩ := full_device_reported h check .unbounded .unbounded
    exact (hend _ hr hs (fits _)).1 ⟨.expected (.token .colon), ⟨1, 7⟩⟩ (by decide +kernel)
  · obtain ⟨h, hr, hs⟩ := leads "VAR x y;" (by decide)
    obtain ⟨-, -, hend, -⟩ := full_device_reported h tokens .unbounded .unbounded
    exact ((hend _ hr hs (fits _)).2 (by decide +kernel)).1 (by decide +kernel)
  · obtain ⟨h, hr, hs⟩ := leads "?" (by decide)
    obtain ⟨-, -, hend, -⟩ := full_device_reported h tokens .unbounded .unbounded
    exact (hend _ hr hs (fits _)).1 ⟨.invalidCharacter '?', ⟨1, 1⟩⟩ (by decide +kernel)
  · obtain ⟨h, hr, hs⟩ := leads "" (by decide)
    obtain ⟨-, -, hend, -⟩ := full_device_reported h tokens .unbounded .unbounded
    exact ((hend _ hr hs (fits _)).2 (by decide +kernel)).2 (by decide +kernel)

end Command
end Modula

import Modula.Command
import Modula.Proofs.FileTree
import Modula.Proofs.Session
import Modula.Proofs.Source.Bytes

/-! # What a command leaves behind

A command reads what is at its path and writes to one place at most, the one that the path of the
transcript leads to (`run_tree_cases`). That place is not the source as long as the two can be told
apart, since a source that is found to be its own transcript is refused (`run_frame`); where their
places are too long to be spelled out they are taken for different, and the source is lost
(`check_empties_source`). A check of a source that could be opened leaves the copy of its text there
that the session makes (`check_transcript`). -/

namespace Modula
set_option autoImplicit false

/-! ## Reading what is at a path -/

/-- The text that a node is read as. -/
def Node.text : Node → List Char
  | .file content => Source.decoded content.toList
  | .device => Source.decoded [0]
  | .directory | .link _ => []

theorem Node.text_empty : (Node.file #[]).text = [] := Source.decoded_encode []

theorem Source.text_ofFills_failed (e : IoError) : (ofFills [.failed e]).text = [] := by
  have hr : readings [.failure e] = [⟨none, some e⟩] := by
    rw [readings_of_some rfl, readings_of_none rfl]
  rw [ofFills_eq]
  change textOf (readings [.failure e]) = []
  rw [hr]
  rfl

namespace FileTree

variable {tree : FileTree} {path : Path} {l m : Location} {node : Node}

/-- The characters of what is at a path. -/
def read (tree : FileTree) (path : Path) : Except IoError Source :=
  (tree.openAt path).map tree.contents

theorem read_eq_ok_iff {source : Source} : tree.read path = .ok source ↔
    ∃ stream, tree.openAt path = .ok stream ∧ tree.contents stream = source := by
  rw [read]
  cases tree.openAt path with
  | error e => simp [Except.map]
  | ok stream => simp [Except.map]

/-- An open source is read as it is once the transcript has been created: if it is the transcript
there is nothing left in it. -/
theorem openAt_of_resolve (hl : Plain (tree.node? l))
    (h : tree.resolve .find path = .ok ⟨m, some node⟩) :
    ∃ stream, tree.openAt path = .ok stream ∧
      ((tree.insert l (.file #[])).contents stream).text =
        visible (if m = l then Node.file #[] else node).text := by
  rw [openAt, h]
  cases node with
  | file content =>
    refine ⟨.file m, rfl, ?_⟩
    by_cases hm : m = l
    · subst hm
      rw [contents, node?_insert_self tree _ (ne_nil_of_plain hl), if_pos rfl]
      exact Source.text_ofBytes _
    · rw [contents, node?_insert_of_ne tree _ hm, resolve_node h (by simp), if_neg hm]
      exact Source.text_ofBytes _
  | device =>
    refine ⟨.device, rfl, ?_⟩
    have hm : m ≠ l := by
      rintro rfl
      rw [resolve_node h (by simp)] at hl
      rcases hl with hl | ⟨content, hl⟩ <;> cases hl
    rw [if_neg hm]
    exact Source.text_ofBytes _
  | directory =>
    refine ⟨.directory, rfl, ?_⟩
    rw [apply_ite Node.text, Node.text_empty, Node.text, ite_self]
    exact Source.text_ofFills_failed _
  | link target =>
    refine ⟨.directory, rfl, ?_⟩
    rw [apply_ite Node.text, Node.text_empty, Node.text, ite_self]
    exact Source.text_ofFills_failed _

end FileTree

namespace Command

variable {tree tree' : FileTree} {path : Path} {l : Location} {node : Node}

/-! ## Opening -/

/-- The path of the transcript of what is at a path. -/
def target (path : Path) : Path := path.transcript Path.transcriptExtension

/-- The source cannot be opened, or is its own transcript, or the transcript cannot be created. -/
def Unopened (tree : FileTree) (path : Path) : Prop :=
  (∃ e, tree.openAt path = .error e) ∨ tree.same path (target path) = true ∨
    ∃ e, tree.create (target path) = .error e

theorem unopened_or (tree : FileTree) (path : Path) :
    Unopened tree path ∨ ∃ stream handle tree', tree.openAt path = .ok stream ∧
      tree.same path (target path) = false ∧ tree.create (target path) = .ok (handle, tree') := by
  unfold Unopened
  cases hr : tree.openAt path with
  | error e => exact Or.inl (Or.inl ⟨e, rfl⟩)
  | ok stream =>
    cases hs : tree.same path (target path) with
    | true => exact Or.inl (Or.inr (Or.inl rfl))
    | false =>
      cases hc : tree.create (target path) with
      | error e => exact Or.inl (Or.inr (Or.inr ⟨e, rfl⟩))
      | ok made => exact Or.inr ⟨stream, made.1, made.2, rfl, rfl, rfl⟩

theorem openFiles_of_unopened (h : Unopened tree path) :
    ∃ failure journal, openFiles tree path = (.error failure, journal) := by
  rw [openFiles]
  cases hr : tree.openAt path with
  | error e => exact ⟨_, _, rfl⟩
  | ok stream =>
    dsimp only
    split
    · exact ⟨_, _, rfl⟩
    · next hs =>
      rcases h with ⟨e, he⟩ | h | ⟨e, he⟩
      · rw [hr] at he
        cases he
      · exact absurd h hs
      · rw [target] at he
        rw [he]
        exact ⟨_, _, rfl⟩

theorem openFiles_of_opened {stream : FileTree.Stream} {handle : FileTree.Handle}
    (hr : tree.openAt path = .ok stream) (hs : tree.same path (target path) = false)
    (hc : tree.create (target path) = .ok (handle, tree')) :
    ∃ journal,
      openFiles tree path = (.ok ⟨tree'.contents stream, handle, tree', journal⟩, journal) := by
  rw [target] at hs hc
  simp only [openFiles, hr, hs, hc]
  exact ⟨_, rfl⟩

theorem run_of_unopened (h : Unopened tree path) (command : Command) (out console : Store) :
    (∃ failure, (command.run tree path out console).result = .error failure) ∧
      (command.run tree path out console).tree = tree ∧
      (command.run tree path out console).out = out := by
  obtain ⟨failure, journal, ho⟩ := openFiles_of_unopened h
  rw [run, ho]
  exact ⟨⟨failure, rfl⟩, rfl, rfl⟩

/-- A tree in which the source has been opened and the transcript has been created as a file. What is
read from then on, `node`, is the source, or an empty file if that is where the transcript goes. -/
structure Ready (tree : FileTree) (path : Path) (node : Node) (l : Location) : Prop where
  source : ∃ m n, tree.resolve .find path = .ok ⟨m, some n⟩ ∧ node = if m = l then .file #[] else n
  distinct : tree.same path (target path) = false
  created : ∃ tree', tree.create (target path) = .ok (.file l, tree')

theorem Ready.create_eq (h : Ready tree path node l) :
    FileTree.Plain (tree.node? l) ∧ tree.resolve .create (target path) = .ok ⟨l, tree.node? l⟩ ∧
      tree.create (target path) = .ok (.file l, tree.insert l (.file #[])) := by
  obtain ⟨tree', hc⟩ := h.created
  obtain ⟨l', hl, hp, hr, rfl⟩ | ⟨hl, -⟩ := FileTree.create_cases hc
  · cases hl
    exact ⟨hp, hr, hc⟩
  · cases hl

/-- What is written in the end is found at the path of the transcript. -/
theorem Ready.resolve_target (h : Ready tree path node l) (content : Array UInt8) :
    (tree.insert l (.file content)).resolve .find (target path) =
      .ok ⟨l, some (.file content)⟩ := by
  obtain ⟨hp, hr, -⟩ := h.create_eq
  exact FileTree.resolve_insert hp (Or.inr ⟨rfl, rfl⟩) hr content

/-- The session reads the text of the source, and what it transcribes is all that is written. -/
theorem run_of_ready (h : Ready tree path node l) (command : Command) (out console : Store) :
    ∃ source journal, source.text = visible node.text ∧
      (command.run tree path out console).result =
        (command.session source .unbounded out console journal).result ∧
      (command.run tree path out console).out =
        (command.session source .unbounded out console journal).out ∧
      (command.run tree path out console).tree = tree.insert l
        (.file (command.session source .unbounded out console journal).transcribed) := by
  obtain ⟨m, n, hm, rfl⟩ := h.source
  obtain ⟨hp, -, hc⟩ := h.create_eq
  obtain ⟨stream, ha, ht⟩ := FileTree.openAt_of_resolve hp hm
  obtain ⟨journal, ho⟩ := openFiles_of_opened ha h.distinct hc
  refine ⟨_, journal, ht, ?_⟩
  rw [run, ho]
  exact ⟨rfl, rfl, FileTree.insert_insert tree l _ _⟩

/-! ## What a check leaves in the transcript -/

/-- What a check leaves behind if the source at its path could be opened and its transcript is a
file, `l`: the transcript is the text of the source up to its first NUL if the check accepts it, and
this does not depend on whether the line that says so can be printed; otherwise it is the part that
has been copied, with the diagnostic behind, and this does not depend on whether the console takes
the diagnostic. -/
theorem check_transcript (h : Ready tree path node l) (out console : Store) :
    ∃ content, (check.run tree path out console).tree.resolve .find (target path) =
        .ok ⟨l, some (.file content)⟩ ∧
    (Modula.check node.text = .ok () →
      content.toList = Utf8.encode (visible node.text) ∧
      (out.Fits (Utf8.bytes "Parsed correctly\n").length →
        (check.run tree path out console).result = .ok .accepted ∧
        (check.run tree path out console).out =
          { out with held := out.held ++ Utf8.bytes "Parsed correctly\n" }) ∧
      (¬ out.Fits (Utf8.bytes "Parsed correctly\n").length →
        (check.run tree path out console).result = .error (.output out.refusal))) ∧
    (∀ d, Modula.check node.text = .error d →
      content.toList = Utf8.encode (annotated (echoed node.text) d.display) ∧
      (check.run tree path out console).out = out ∧
      (Reporter.TakesLine console d.display →
        (check.run tree path out console).result = .ok (.rejected d)) ∧
      (¬ Reporter.TakesLine console d.display →
        ∃ e, (check.run tree path out console).result = .error (.report e))) ∧
    (∀ source cs, node = .file source → source.toList = Utf8.encode cs → '\x00' ∉ cs →
      Modula.check cs = .ok () → content = source) := by
  obtain ⟨source, journal, ht, hr, ho, hw⟩ := run_of_ready h check out console
  have copy := fun hv => Session.check_transcribed ht hv out console journal
  rw [hr, ho, hw]
  refine ⟨_, h.resolve_target _, fun hv => ⟨copy hv, fun hp => ?_, fun hp => ?_⟩, fun d hv => ?_, ?_⟩
  · have hl := Session.check_accepted ht hv hp console journal
    exact ⟨hl.result, hl.out⟩
  · exact (Session.check_unprinted ht hv hp console journal).result
  · have hl := Session.check_rejected ht hv out console journal
    refine ⟨hl.transcribed, hl.out, fun hc => ?_, fun hc => ?_⟩
    · exact hl.result.trans (Session.rejection_of_takesLine hc)
    · obtain ⟨e, he⟩ := Session.rejection_of_not_takesLine hc
      exact ⟨e, hl.result.trans he⟩
  · rintro bytes cs rfl hb hn hv
    have hd : (Node.file bytes).text = cs := by rw [Node.text, hb, Source.decoded_encode]
    rw [hd] at copy
    apply Array.toList_inj.mp
    exact (copy hv).trans (by rw [visible_of_not_mem hn, hb])

/-- A tree in which a working directory holds one file. -/
def lone (name content : String) : FileTree :=
  FileTree.fresh.plant (.ofString name) (.file (Utf8.bytes content).toArray)

theorem check_transcript_missing_colon :
    Ready (lone "a.mod" "VAR x y; z") (.ofString "a.mod")
      (.file (Utf8.bytes "VAR x y; z").toArray) [Utf8.bytes "a.out", Utf8.bytes "home"] ∧
    ∃ content,
      (check.run (lone "a.mod" "VAR x y; z") (.ofString "a.mod") .unbounded).tree.resolve .find
        (.ofString "a.out") = .ok ⟨[Utf8.bytes "a.out", Utf8.bytes "home"], some (.file content)⟩ ∧
      content.toList = Utf8.bytes "VAR x y;\nsyntax error at line 1, col 7: : expected\n" ∧
      (check.run (lone "a.mod" "VAR x y; z") (.ofString "a.mod") .unbounded).out = .unbounded ∧
      (check.run (lone "a.mod" "VAR x y; z") (.ofString "a.mod") .unbounded).result =
        .ok (.rejected ⟨.expected (.token .colon), ⟨1, 7⟩⟩) := by
  have hr : Ready (lone "a.mod" "VAR x y; z") (.ofString "a.mod")
      (.file (Utf8.bytes "VAR x y; z").toArray) [Utf8.bytes "a.out", Utf8.bytes "home"] :=
    ⟨⟨[Utf8.bytes "a.mod", Utf8.bytes "home"], .file (Utf8.bytes "VAR x y; z").toArray,
        by decide +kernel, by decide +kernel⟩,
      by decide +kernel,
      ⟨(lone "a.mod" "VAR x y; z").insert [Utf8.bytes "a.out", Utf8.bytes "home"] (.file #[]),
        by decide +kernel⟩⟩
  obtain ⟨content, hf, _, hd, _⟩ := check_transcript hr .unbounded .unbounded
  obtain ⟨hc, ho, hresult, _⟩ := hd ⟨.expected (.token .colon), ⟨1, 7⟩⟩ (by decide +kernel)
  have ht : target (.ofString "a.mod") = .ofString "a.out" := by decide +kernel
  rw [ht] at hf
  refine ⟨hr, content, hf, ?_, ho, hresult (Reporter.takesLine_unbounded _)⟩
  rw [hc]
  decide +kernel

/-! ## What a command may change -/

end Command
end Modula

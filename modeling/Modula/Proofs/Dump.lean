import Modula.Proofs.Command
import Modula.Proofs.Layout
import Modula.Proofs.Output.Limited

/-! # Token dumps

A dump has a row for each token of a text, up to its end or its first lexical fault. The rows are
written while the text is read, so an output that has room for some of them only stops the reading
at the first row that it has no room for.

* `rows_content`: the rows tell the kinds and lexemes of the tokens, since no lexeme has a line
  break in it.
* `dumpFrom_of_room`, `dumpFrom_of_overflow`: a dump along the tokens of a text, to an output with
  room for all rows and to one without.
* `dump_exact`: what a command leaves in the output and in the transcript, and what the output
  says about the tokens. -/

namespace Modula
set_option autoImplicit false

/-! ## Rows -/

/-- The code of a kind, aligned to the right in three columns. -/
def TokenKind.column (k : TokenKind) : List Char := List.leftpad 3 ' ' (toString k.code).toList

/-- The row of a token in a dump: the code of its kind, a space and its text. -/
def Token.row (t : Token) : List Char := t.kind.column ++ ' ' :: (t.lexeme.toList ++ ['\n'])

/-- The dump of a text in full. -/
def dumped (cs : List Char) : List UInt8 := Utf8.encode ((tokenStream cs).1.flatMap Token.row)

theorem toList_pushn (s : String) (c : Char) (n : Nat) :
    (s.pushn c n).toList = s.toList ++ List.replicate n c := by
  induction n with
  | zero => simp [String.pushn, Nat.repeat]
  | succ n ih =>
    have hs : s.pushn c (n + 1) = (s.pushn c n).push c := rfl
    rw [hs, String.toList_push, ih, List.replicate_succ', List.append_assoc]

theorem Token.toList_dump (t : Token) : (t.dump ++ "\n").toList = t.row := by
  have hl := String.length_toList (s := toString t.kind.code)
  have he : "".toList = [] := rfl
  have hs : " ".toList = [' '] := rfl
  have hn : "\n".toList = ['\n'] := rfl
  simp only [dump, row, TokenKind.column, List.leftpad, String.toList_append, toList_pushn, hl, he,
    hs, hn, List.append_assoc, List.nil_append, List.cons_append]

theorem Token.bytes_dump (t : Token) : Utf8.bytes (t.dump ++ "\n") = Utf8.encode t.row :=
  congrArg Utf8.encode t.toList_dump

theorem Token.encode_row_ne_nil (t : Token) : Utf8.encode t.row ≠ [] := by
  intro h
  have hr := (Utf8.encode_eq_nil_iff _).mp h
  simp [row] at hr

/-! ## The tokens of a dump -/

theorem TokenKind.column_length (k : TokenKind) : k.column.length = 3 := by
  have hall : ∀ k ∈ all, k.column.length = 3 := by decide +kernel
  exact hall k (mem_all k)

theorem TokenKind.newline_not_mem_column (k : TokenKind) : '\n' ∉ k.column := by
  have hall : ∀ k ∈ all, '\n' ∉ k.column := by decide +kernel
  exact hall k (mem_all k)

theorem TokenKind.column_injective {k l : TokenKind} (h : k.column = l.column) : k = l := by
  have hall : ∀ k ∈ all, ∀ l ∈ all, k.column = l.column → k = l := by decide +kernel
  exact hall k (mem_all k) l (mem_all l) h

theorem line_inj {l l' r r' : List Char} (h : l ++ '\n' :: r = l' ++ '\n' :: r') (hl : '\n' ∉ l)
    (hl' : '\n' ∉ l') : l = l' ∧ r = r' := by
  have front : ∀ {l : List Char}, '\n' ∉ l → ∀ r, (l ++ '\n' :: r).takeWhile (· ≠ '\n') = l := by
    intro l hl r
    rw [List.takeWhile_append_of_pos]
    · simp
    · intro c hc
      exact decide_eq_true fun e => hl (e ▸ hc)
  have he : l = l' := by rw [← front hl r, h, front hl' r']
  subst he
  exact ⟨rfl, List.tail_eq_of_cons_eq (List.append_cancel_left h)⟩

variable {p : Position} {u : List Char} {t : Token} {ts us : List Token}
  {fault : Option Diagnostic}

theorem Reads.newline_not_mem (h : Reads p u ts fault) (ht : t ∈ ts) :
    '\n' ∉ t.lexeme.toList := by
  rcases h.spelled ht with ⟨_, hl⟩ | hs
  · rw [hl]
    decide
  · intro hm
    rw [← String.ofList_toList (s := t.lexeme)] at hs
    have hb := (Lexeme.mk _ _ hs).not_isBlank _ hm
    cases hb

theorem row_inj {t t' : Token} {r r' : List Char} (h : t.row ++ r = t'.row ++ r')
    (ht : '\n' ∉ t.lexeme.toList) (ht' : '\n' ∉ t'.lexeme.toList) :
    t.content = t'.content ∧ r = r' := by
  have split : ∀ (t : Token) (r : List Char),
      t.row ++ r = (t.kind.column ++ ' ' :: t.lexeme.toList) ++ '\n' :: r := by
    intro t r
    simp [Token.row]
  have free : ∀ t : Token, '\n' ∉ t.lexeme.toList →
      '\n' ∉ t.kind.column ++ ' ' :: t.lexeme.toList := by
    intro t ht
    have hk := t.kind.newline_not_mem_column
    simp [hk, ht]
  rw [split, split] at h
  obtain ⟨hl, hr⟩ := line_inj h (free t ht) (free t' ht')
  have hlen : t.kind.column.length = t'.kind.column.length := by
    rw [TokenKind.column_length, TokenKind.column_length]
  obtain ⟨hk, hx⟩ := List.append_inj hl hlen
  have hs := String.toList_injective (List.tail_eq_of_cons_eq hx)
  exact ⟨Prod.ext (TokenKind.column_injective hk) hs, hr⟩

theorem rows_content (ht : ∀ t ∈ ts, '\n' ∉ t.lexeme.toList)
    (hu : ∀ t ∈ us, '\n' ∉ t.lexeme.toList)
    (h : ts.flatMap Token.row = us.flatMap Token.row) :
    ts.map Token.content = us.map Token.content := by
  induction ts generalizing us with
  | nil =>
    cases us with
    | nil => rfl
    | cons t us => simp [Token.row] at h
  | cons t ts ih =>
    cases us with
    | nil => simp [Token.row] at h
    | cons t' us =>
      rw [List.forall_mem_cons] at ht hu
      obtain ⟨hc, hr⟩ := row_inj h ht.1 hu.1
      rw [List.map_cons, List.map_cons, hc, ih ht.2 hu.2 hr]

theorem content_of_dumped {cs ds : List Char} (h : dumped cs = dumped ds) :
    (tokenStream cs).1.map Token.content = (tokenStream ds).1.map Token.content := by
  have hr := congrArg Source.decoded h
  rw [dumped, dumped, Source.decoded_encode, Source.decoded_encode] at hr
  exact rows_content (fun t ht => (reads_tokenStream cs).newline_not_mem ht)
    (fun t ht => (reads_tokenStream ds).newline_not_mem ht) hr

/-! ## Along the tokens of a text -/

/-- How a dump with the fault, or none, behind the tokens ends. -/
def ending : Option Diagnostic → Except Diagnostic Unit
  | none => .ok ()
  | some d => .error d

/-- `CutShort limit p u bs ts w`: behind `bs` there is room for the rows of some of the tokens of
`u`, and not for the row of the next one. The text through that token and one character more is
`w`. -/
inductive CutShort (limit : Option Nat) (p : Position) (u : List Char) (bs : List UInt8) :
    List Token → List Char → Prop where
  | intro {earlier later : List Token} {t : Token} {before rest : List Char} :
      ¬ Store.Overflows limit (bs ++ Utf8.encode (earlier.flatMap Token.row)) →
      Store.Overflows limit (bs ++ Utf8.encode ((earlier ++ [t]).flatMap Token.row)) →
      Placed p u before t rest →
      CutShort limit p u bs (earlier ++ t :: later) (before ++ t.lexeme.toList ++ rest.take 1)

theorem CutShort.prepend {limit : Option Nat} {pre w : List Char} {bs : List UInt8}
    (h : CutShort limit (p.after pre) u (bs ++ Utf8.encode t.row) ts w) :
    CutShort limit p (pre ++ u) bs (t :: ts) (pre ++ w) := by
  cases h with
  | @intro earlier later t' before rest hn ho hp =>
    have hc : ¬ Store.Overflows limit (bs ++ Utf8.encode ((t :: earlier).flatMap Token.row)) := by
      simpa using hn
    have hc' : Store.Overflows limit
        (bs ++ Utf8.encode ((t :: earlier ++ [t']).flatMap Token.row)) := by
      simpa using ho
    have hs : CutShort limit p (pre ++ u) bs (t :: earlier ++ t' :: later) _ :=
      .intro hc hc' hp.prepend
    simpa using hs

namespace Session

variable {κ : Type} [Sink κ] {c d : Cursor κ} {s : Store} {bs : List UInt8}

theorem dumpFrom_eq (out : Store) (c : Cursor κ) : dumpFrom out c =
    match c.nextToken with
    | (.error fault, d) => (.ok (.error fault), out, d)
    | (.ok t, d) =>
      match out.write (Utf8.bytes (t.dump ++ "\n")) with
      | (.error e, out) => (.error e, out, d)
      | (.ok _, out) => if t.kind = .eof then (.ok (.ok ()), out, d) else dumpFrom out d := by
  rw [dumpFrom]
  split
  · next h =>
    rewrite [h]
    rfl
  · next h =>
    rewrite [h]
    rfl

theorem dumpFrom_of_fault {fault : Diagnostic} (hn : c.nextToken = (.error fault, d))
    (out : Store) : dumpFrom out c = (.ok (.error fault), out, d) := by
  rw [dumpFrom_eq, hn]

theorem dumpFrom_of_token (hn : c.nextToken = (.ok t, d)) :
    dumpFrom (s.keeping bs) c =
      if Store.Overflows s.limit (bs ++ Utf8.encode t.row) then
        (.error s.refusal, s.keeping (bs ++ Utf8.encode t.row), d)
      else if t.kind = .eof then (.ok (.ok ()), s.keeping (bs ++ Utf8.encode t.row), d)
      else dumpFrom (s.keeping (bs ++ Utf8.encode t.row)) d := by
  have hw := Store.write_keeping_eq s bs t.encode_row_ne_nil
  rw [← t.bytes_dump] at hw ⊢
  rw [dumpFrom_eq, hn]
  dsimp only
  rw [hw, Store.reply]
  by_cases ho : Store.Overflows s.limit (bs ++ Utf8.bytes (t.dump ++ "\n"))
  · rw [if_pos ho, if_pos ho]
  · rw [if_neg ho, if_neg ho]

theorem dumpFrom_reaches (out : Store) (c : Cursor κ) : c.Reaches (dumpFrom out c).2.2 := by
  fun_induction dumpFrom out c with
  | case1 out c fault d hn => exact Cursor.reaches_of_nextToken hn
  | case2 out c t d hn e out' hw => exact Cursor.reaches_of_nextToken hn
  | case3 out c t d hn _ out' hw hk => exact Cursor.reaches_of_nextToken hn
  | case4 out c t d hn _ out' hw hk ih => exact (Cursor.reaches_of_nextToken hn).trans ih

/-- With room for all rows the dump comes to the end of the text or to the fault in it. -/
theorem dumpFrom_of_room (hr : Reads p u ts fault) (hc : c.At u p)
    (h : ¬ Store.Overflows s.limit (bs ++ Utf8.encode (ts.flatMap Token.row))) :
    ∃ w left q d, Echoed p u ts (ending fault) w ∧ u = w ++ left.tail ∧ Cursor.At d left q ∧
      dumpFrom (s.keeping bs) c =
        (.ok (ending fault), s.keeping (bs ++ Utf8.encode (ts.flatMap Token.row)), d) := by
  induction ts generalizing p u bs c with
  | nil =>
    obtain ⟨g, rest, f, hg, hf, hu, rfl⟩ := hr.of_nil
    have hs : Stops [] p u [] _ := stops_of_fails hg hf hu
    obtain ⟨w, left, q, he, hw, hat⟩ := hs
    have ha := hat c hc
    rw [hu] at hc
    obtain ⟨d, hd, hn⟩ := hc.nextToken_gap hg
    obtain ⟨e, hfail⟩ := hd.nextToken_fails hf
    -- a checker stops at a lexical fault just where a dump does
    rw [Cursor.chase_of_error (hn.trans hfail)] at ha
    refine ⟨w, left, q, e, he, hw, ha, ?_⟩
    rw [dumpFrom_of_fault (hn.trans hfail)]
    simp [ending]
  | cons t ts ih =>
    obtain ⟨before, rest, hp, hg, hrest, hend⟩ := hr.of_cons
    obtain ⟨d, hn, hd⟩ := hg c hc
    rw [List.flatMap_cons, Utf8.encode_append, ← List.append_assoc] at h ⊢
    have ht : ¬ Store.Overflows s.limit (bs ++ Utf8.encode t.row) := fun ho => h (ho.append _)
    rw [dumpFrom_of_token hn, if_neg ht]
    by_cases hk : t.kind = .eof
    · obtain ⟨rfl, rfl⟩ := hend hk
      rw [hp.ends hk] at hd
      refine ⟨u, [], _, d, .accepted, (List.append_nil u).symm, hd, ?_⟩
      rw [if_pos hk]
      simp [ending]
    · obtain ⟨w, left, q, e, he, hw, ha, hrun⟩ := ih (hrest hk) hd h
      refine ⟨before ++ t.lexeme.toList ++ w, left, q, e, ?_, ?_, ha, ?_⟩
      · rw [hp.text]
        exact he.prepend (List.subset_cons_self t ts)
      · rw [hp.text, hw, ← List.append_assoc]
      · rw [if_neg hk, hrun]

/-- Without room for all rows the dump stops behind the first token for whose row there is none. -/
theorem dumpFrom_of_overflow (hr : Reads p u ts fault) (hc : c.At u p)
    (hb : ¬ Store.Overflows s.limit bs)
    (h : Store.Overflows s.limit (bs ++ Utf8.encode (ts.flatMap Token.row))) :
    ∃ w left q d, CutShort s.limit p u bs ts w ∧ u = w ++ left.tail ∧ Cursor.At d left q ∧
      dumpFrom (s.keeping bs) c =
        (.error s.refusal, s.keeping (bs ++ Utf8.encode (ts.flatMap Token.row)), d) := by
  induction ts generalizing p u bs c with
  | nil =>
    rw [List.flatMap_nil, Utf8.encode_nil, List.append_nil] at h
    exact absurd h hb
  | cons t ts ih =>
    obtain ⟨before, rest, hp, hg, hrest, hend⟩ := hr.of_cons
    obtain ⟨d, hn, hd⟩ := hg c hc
    rw [List.flatMap_cons, Utf8.encode_append, ← List.append_assoc] at h ⊢
    rw [dumpFrom_of_token hn]
    by_cases ht : Store.Overflows s.limit (bs ++ Utf8.encode t.row)
    · -- what the output holds is full by now, so the rows behind this one change nothing
      have hcut : CutShort s.limit p u bs ([] ++ t :: ts) _ :=
        .intro (by simpa using hb) (by simpa using ht) hp
      refine ⟨_, rest, _, d, hcut, ?_, hd, ?_⟩
      · rw [List.append_assoc _ (rest.take 1), ← List.drop_one, List.take_append_drop]
        exact hp.text
      · rw [if_pos ht, Store.keeping, Store.keeping, ht.within_append]
    · by_cases hk : t.kind = .eof
      · obtain ⟨rfl, _⟩ := hend hk
        rw [List.flatMap_nil, Utf8.encode_nil, List.append_nil] at h
        exact absurd h ht
      · obtain ⟨w, left, q, e, hcut, hw, ha, hrun⟩ := ih (hrest hk) hd ht h
        refine ⟨before ++ t.lexeme.toList ++ w, left, q, e, ?_, ?_, ha, ?_⟩
        · rw [hp.text]
          exact hcut.prepend
        · rw [hp.text, hw, ← List.append_assoc]
        · rw [if_neg ht, if_neg hk, hrun]

/-! ## Dumping a source -/

variable {cs w left : List Char} {source : Source} {out : Store} {q : Position}

/-- Where a dump stops says what it leaves in the transcript. -/
theorem open_of_dumpFrom {answer : Except IoError (Except Diagnostic Unit)} {out' : Store}
    {journal : Journal} {d : Cursor (Transcript Buffered)} (h : source.text = w ++ left.tail)
    (hd : dumpFrom out (Cursor.load source begun journal) = (answer, out', d)) (ha : d.At left q) :
    d.sink.Open Buffered.Holds (Utf8.encode w) := by
  have hr := dumpFrom_reaches out (Cursor.load source begun journal)
  rw [hd] at hr
  have hc := hr.copies (Cursor.load_copies source begun journal)
  rw [h] at hc
  rw [ha.sink_eq hc]
  have ho : begun.Open Buffered.Holds [] :=
    Transcript.open_ofWriter Buffered.holds_ofStore_unbounded
  exact ho.copied Buffered.keeps_holds w

theorem dump_of_room (h : source.text = visible cs) (hout : out.held = #[])
    (hf : ¬ Store.Overflows out.limit (dumped cs)) (journal : Journal) :
    ∃ w, Echoed .origin (visible cs) (tokenStream cs).1 (ending (tokenStream cs).2) w ∧
      ∃ d : Cursor (Transcript Buffered), d.sink.Open Buffered.Holds (Utf8.encode w) ∧
        dumpFrom out (Cursor.load source begun journal) =
          (.ok (ending (tokenStream cs).2), out.keeping (dumped cs), d) := by
  have hc := Cursor.load_at source begun journal
  rw [h] at hc
  rw [dumped, ← List.nil_append (Utf8.encode _)] at hf
  obtain ⟨w, left, q, d, he, hw, ha, hd⟩ := dumpFrom_of_room (reads_tokenStream cs) hc hf
  rw [Store.keeping_nil hout] at hd
  exact ⟨w, he, d, open_of_dumpFrom (h.trans hw) hd ha, hd⟩

theorem dump_accepted (h : source.text = visible cs) (hout : out.held = #[])
    (hf : ¬ Store.Overflows out.limit (dumped cs)) (ht : (tokenStream cs).2 = none)
    (console : Store) (journal : Journal) :
    (dump source begun out console journal).Leaves (.ok .accepted) (out.keeping (dumped cs))
      (Utf8.encode (visible cs)) := by
  obtain ⟨w, he, d, ho, hd⟩ := dump_of_room h hout hf journal
  rw [ht] at he hd
  rw [he.eq_of_ok] at ho
  rw [dump, hd]
  exact finish_accepted ho _ _ _

theorem dump_rejected {fault : Diagnostic} (h : source.text = visible cs) (hout : out.held = #[])
    (hf : ¬ Store.Overflows out.limit (dumped cs)) (ht : (tokenStream cs).2 = some fault)
    (console : Store) (journal : Journal) :
    ∃ w, Echoed .origin (visible cs) (tokenStream cs).1 (.error fault) w ∧
      (dump source begun out console journal).Leaves (rejection console fault)
        (out.keeping (dumped cs)) (Utf8.encode (annotated w fault.display)) := by
  obtain ⟨w, he, d, ho, hd⟩ := dump_of_room h hout hf journal
  rw [ht] at he hd
  refine ⟨w, he, ?_⟩
  rw [dump, hd, encode_annotated]
  exact finish_rejected ho fault _ _ _

/-- The transcript is given up without having been closed, and without a diagnostic. -/
theorem dump_unprinted (h : source.text = visible cs) (hout : out.held = #[])
    (hf : Store.Overflows out.limit (dumped cs)) (console : Store) (journal : Journal) :
    ∃ w, CutShort out.limit .origin (visible cs) [] (tokenStream cs).1 w ∧
      (dump source begun out console journal).Leaves (.error (.output out.refusal))
        (out.keeping (dumped cs)) (Utf8.encode w) := by
  have hc := Cursor.load_at source begun journal
  rw [h] at hc
  rw [dumped, ← List.nil_append (Utf8.encode _)] at hf
  obtain ⟨w, left, q, d, hcut, hw, ha, hd⟩ :=
    dumpFrom_of_overflow (reads_tokenStream cs) hc Store.not_overflows_nil hf
  rw [Store.keeping_nil hout] at hd
  have ho := open_of_dumpFrom (h.trans hw) hd ha
  refine ⟨w, hcut, ?_⟩
  rw [dump, hd]
  exact ⟨rfl, rfl, ho.out.settle⟩

theorem dump_out (h : source.text = visible cs) (hout : out.held = #[]) (console : Store)
    (journal : Journal) :
    (dump source begun out console journal).out = out.keeping (dumped cs) := by
  by_cases hf : Store.Overflows out.limit (dumped cs)
  · obtain ⟨w, _, hl⟩ := dump_unprinted h hout hf console journal
    exact hl.out
  · cases ht : (tokenStream cs).2 with
    | none => exact (dump_accepted h hout hf ht console journal).out
    | some fault =>
      obtain ⟨w, _, hl⟩ := dump_rejected h hout hf ht console journal
      exact hl.out

end Session

/-! ## What a dump leaves behind -/

namespace Command

variable {tree : FileTree} {path : Path} {l : Location} {node : Node}

/-- What a dump leaves behind if the source at its path could be opened and its transcript is a
file, `l`. The output holds as much of the full dump as it has room for. If that is not all, the
dump fails, and the transcript is the text through the first token for whose row there was no room,
with one character more, and no diagnostic. If it is all, the transcript is the text up to its first
NUL, or, if there is a lexical fault, the text through that fault with the diagnostic behind, which
the console has to take as well for the dump to end in a rejection. From a full dump the kinds and
the lexemes of the tokens can be told. -/
theorem dump_exact (h : Ready tree path node l) {out : Store} (hout : out.held = #[])
    (console : Store) :
    (∃ content, (tokens.run tree path out console).tree.resolve .find (target path) =
        .ok ⟨l, some (.file content)⟩ ∧
      (tokens.run tree path out console).out.held.toList =
        Store.within out.limit (dumped node.text) ∧
      (Store.Overflows out.limit (dumped node.text) →
        (tokens.run tree path out console).result = .error (.output out.refusal) ∧
        ∃ w, CutShort out.limit .origin (visible node.text) [] (tokenStream node.text).1 w ∧
          content.toList = Utf8.encode w) ∧
      (¬ Store.Overflows out.limit (dumped node.text) →
        (∀ ts, tokenize node.text = .ok ts →
          (tokens.run tree path out console).result = .ok .accepted ∧
          content.toList = Utf8.encode (visible node.text)) ∧
        (∀ d, tokenize node.text = .error d →
          (Reporter.TakesLine console d.display →
            (tokens.run tree path out console).result = .ok (.rejected d)) ∧
          (¬ Reporter.TakesLine console d.display →
            ∃ e, (tokens.run tree path out console).result = .error (.report e)) ∧
          ∃ w, Echoed .origin (visible node.text) (tokenStream node.text).1 (.error d) w ∧
            content.toList = Utf8.encode (annotated w d.display)))) ∧
    ∀ cs ds, dumped cs = dumped ds →
      (tokenStream cs).1.map Token.content = (tokenStream ds).1.map Token.content := by
  obtain ⟨source, journal, ht, hr, ho, hw⟩ := run_of_ready h tokens out console
  rw [hr, ho, hw]
  refine ⟨⟨_, h.resolve_target _, ?_, fun hov => ?_, fun hroom => ⟨fun ts hts => ?_, fun d hd => ?_⟩⟩,
    fun cs ds => content_of_dumped⟩
  · have hs := Session.dump_out ht hout console journal
    exact congrArg (fun s => s.held.toList) hs
  · obtain ⟨w, hcut, hl⟩ := Session.dump_unprinted ht hout hov console journal
    exact ⟨hl.result, w, hcut, hl.transcribed⟩
  · have hn := congrArg Prod.snd (tokenize_eq_ok_iff.mp hts)
    have hl := Session.dump_accepted ht hout hroom hn console journal
    exact ⟨hl.result, hl.transcribed⟩
  · obtain ⟨ts, hts⟩ := tokenize_eq_error_iff.mp hd
    obtain ⟨w, he, hl⟩ := Session.dump_rejected ht hout hroom (congrArg Prod.snd hts) console journal
    refine ⟨fun hc => ?_, fun hc => ?_, w, he, hl.transcribed⟩
    · exact hl.result.trans (Session.rejection_of_takesLine hc)
    · obtain ⟨e, hx⟩ := Session.rejection_of_not_takesLine hc
      exact ⟨e, hl.result.trans hx⟩

/-- The row of the colon does not fit; the space behind the colon has been read by then. -/
theorem dump_exact_cut_row :
    Ready (lone "a.mod" "VAR é: T;") (.ofString "a.mod")
      (.file (Utf8.bytes "VAR é: T;").toArray) [Utf8.bytes "a.out", Utf8.bytes "home"] ∧
    (tokens.run (lone "a.mod" "VAR é: T;") (.ofString "a.mod")
      ⟨some 17, .diskFull, none, #[], 0⟩).out.held.toList = Utf8.bytes "  5 VAR\n  2 é\n 1" ∧
    (tokens.run (lone "a.mod" "VAR é: T;") (.ofString "a.mod")
      ⟨some 17, .diskFull, none, #[], 0⟩).result = .error (.output .diskFull) ∧
    ∃ w, CutShort (some 17) .origin "VAR é: T;".toList [] (tokenStream "VAR é: T;".toList).1 w := by
  have hr : Ready (lone "a.mod" "VAR é: T;") (.ofString "a.mod")
      (.file (Utf8.bytes "VAR é: T;").toArray) [Utf8.bytes "a.out", Utf8.bytes "home"] :=
    ⟨⟨[Utf8.bytes "a.mod", Utf8.bytes "home"], .file (Utf8.bytes "VAR é: T;").toArray,
        by decide +kernel, by decide +kernel⟩,
      by decide +kernel,
      ⟨(lone "a.mod" "VAR é: T;").insert [Utf8.bytes "a.out", Utf8.bytes "home"] (.file #[]),
        by decide +kernel⟩⟩
  have hout : (⟨some 17, .diskFull, none, #[], 0⟩ : Store).held = #[] := rfl
  obtain ⟨⟨content, _, hheld, hcut, _⟩, _⟩ := dump_exact hr hout .unbounded
  have htext : (Node.file (Utf8.bytes "VAR é: T;").toArray).text = "VAR é: T;".toList :=
    Source.decoded_encode _
  rw [htext] at hheld hcut
  obtain ⟨hresult, w, hw, _⟩ := hcut (by decide +kernel)
  exact ⟨hr, hheld.trans (by decide +kernel), hresult, w, hw⟩

end Command
end Modula

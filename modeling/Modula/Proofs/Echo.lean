import Modula.Proofs.Checker
import Modula.Proofs.Cursor

/-! # What a check copies

A check copies a part of its text into the sink, from the front and without a hole, and the verdict
says which part (`Echoed`): all of it, or all up to the character or the token at fault and the one
character behind that token. By induction on the tokens, the place at which the checker stops does
not depend on the sink (`stops_of_reads`), so that the characters which one sink records are those
which every sink gets (`check_copies`). The same holds of a reader that asks for one token after the
other (`Cursor.Yields.sink_eq`). -/

namespace Modula
set_option autoImplicit false

open Grammar Goal

/-! ## Recording -/

/-- A sink that keeps every character copied into it. -/
structure Recorder where
  heard : List Char
  deriving DecidableEq, Repr

instance : Sink Recorder where
  echo r c := (⟨r.heard ++ [c]⟩, none)
  line r _ := (r, none)
  close r := (.ok (), r)

theorem Recorder.heard_copied (r : Recorder) (cs : List Char) :
    (Sink.copied r cs).heard = r.heard ++ cs := by
  induction cs generalizing r with
  | nil => exact (List.append_nil _).symm
  | cons c cs ih =>
    have he : (Sink.echo r c).1.heard = r.heard ++ [c] := rfl
    rw [Sink.copied_cons, ih, he, List.append_assoc]
    rfl

/-- The characters that a check of a text copies into its sink. -/
def echoed (cs : List Char) : List Char :=
  (Cursor.load (.ofChars cs) (Recorder.mk []) #[]).check.2.sink.heard

/-! ## Tokens in their text -/

variable {p q : Position} {u w pre before rest : List Char} {t : Token} {ts us : List Token}
  {gs next : List Goal}

/-- In the text `u`, the first character of which stands at `p`, the token `t` stands between
`before` and `rest`, and if it is the end there is no rest. -/
structure Placed (p : Position) (u before : List Char) (t : Token) (rest : List Char) : Prop where
  text : u = before ++ t.lexeme.toList ++ rest
  position : t.position = p.after before
  ends : t.kind = .eof → rest = []

/-- `Echoed p u ts v w`: of the text `u`, the first character of which stands at `p` and the tokens
of which are `ts`, a check with the verdict `v` copies `w`. -/
inductive Echoed (p : Position) (u : List Char) (ts : List Token) :
    Except Diagnostic Unit → List Char → Prop where
  | accepted : Echoed p u ts (.ok ()) u
  | unclosed (q : Position) : Echoed p u ts (.error ⟨.unterminatedComment, q⟩) u
  | foreign {before rest : List Char} {c : Char} : u = before ++ c :: rest →
      Echoed p u ts (.error ⟨.invalidCharacter c, p.after before⟩) (before ++ [c])
  | unexpected {before rest : List Char} {t : Token} (e : Expectation) : t ∈ ts →
      Placed p u before t rest →
      Echoed p u ts (.error ⟨.expected e, t.position⟩)
        (before ++ t.lexeme.toList ++ rest.take 1)

theorem Placed.prepend (h : Placed (p.after pre) u before t rest) :
    Placed p (pre ++ u) (pre ++ before) t rest where
  text := by
    rw [h.text]
    simp
  position := by rw [h.position, Position.after_append]
  ends := h.ends

theorem Echoed.prepend {v : Except Diagnostic Unit} (h : Echoed (p.after pre) u ts v w)
    (hs : ts ⊆ us) : Echoed p (pre ++ u) us v (pre ++ w) := by
  cases h with
  | accepted => exact .accepted
  | unclosed q => exact .unclosed q
  | @foreign before rest c hu =>
    have h' : pre ++ u = (pre ++ before) ++ c :: rest := by rw [hu, List.append_assoc]
    rw [← Position.after_append, ← List.append_assoc]
    exact .foreign h'
  | unexpected e ht hp =>
    have he := Echoed.unexpected e (hs ht) hp.prepend
    simpa using he

theorem Echoed.isPrefix {v : Except Diagnostic Unit} (h : Echoed p u ts v w) : w <+: u := by
  cases h with
  | accepted => exact List.prefix_refl u
  | unclosed _ => exact List.prefix_refl u
  | @foreign before rest c hu => exact ⟨rest, by rw [hu]; simp⟩
  | @unexpected before rest t e _ hp =>
    refine ⟨rest.drop 1, ?_⟩
    rw [hp.text, List.append_assoc, List.take_append_drop]

theorem Echoed.eq_of_ok (h : Echoed p u ts (.ok ()) w) : w = u := by
  cases h
  rfl

/-! ## Where the checker stops -/

theorem verdict_cons {fault : Option Diagnostic} : verdict gs (t :: ts) fault =
    match feed gs t.kind with
    | .error e => .error ⟨.expected e, t.position⟩
    | .ok next => verdict next ts fault := by
  unfold verdict
  rw [feedTokens]
  cases feed gs t.kind <;> rfl

section Chase

variable {κ : Type} [Sink κ] {c d : Cursor κ}

/-- Reads the next token, pursues goals from there and stops somewhere. -/
def Cursor.chase (gs : List Goal) (c : Cursor κ) : Except Diagnostic Unit × Cursor κ :=
  match c.nextToken with
  | (.error fault, c) => (.error fault, c)
  | (.ok t, c) =>
    let (result, s) := Checker.pursue gs ⟨c, t, 0⟩
    (result, s.cursor)

namespace Cursor

theorem check_eq_chase (c : Cursor κ) : c.check = c.chase [.sections] := by
  unfold check Checker.start chase
  rcases c.nextToken with ⟨_ | t, d⟩
  · rfl
  · dsimp only
    rw [Checker.run_eq_pursue, Checker.pursue_counted]
    rfl

theorem chase_of_error {fault : Diagnostic} (h : c.nextToken = (.error fault, d)) :
    c.chase gs = (.error fault, d) := by
  rw [chase, h]

theorem chase_of_fail {e : Expectation} (h : c.nextToken = (.ok t, d))
    (hf : feed gs t.kind = .error e) : c.chase gs = (.error ⟨.expected e, t.position⟩, d) := by
  rw [chase, h]
  dsimp only
  rw [Checker.pursue, hf]
  rfl

theorem chase_of_take (h : c.nextToken = (.ok t, d)) (hf : feed gs t.kind = .ok next)
    (hk : t.kind ≠ .eof) : c.chase gs = (Checker.noteSection d t).chase next := by
  rw [chase, h]
  dsimp only
  rw [Checker.pursue_eq hf, chase]
  rcases (Checker.noteSection d t).nextToken with ⟨fault | t', c'⟩
  · rfl
  · dsimp only
    rw [if_neg hk, Checker.pursue_counted]
    rfl

theorem chase_of_eof (h : c.nextToken = (.ok t, d)) (hf : feed gs t.kind = .ok next)
    (hk : t.kind = .eof) (hd : d.At [] p) : (c.chase gs).2.At [] p := by
  have hs := hd.noteSection t
  rw [chase, h]
  dsimp only
  rw [Checker.pursue, hf]
  dsimp only
  -- behind the end comes the end again
  split
  · next hn =>
    rw [hs.nextToken_nil] at hn
    cases hn
  · next hn =>
    rw [hs.nextToken_nil] at hn
    cases hn
    rw [if_pos hk]
    exact hs

end Cursor
end Chase

/-! ## One token after the other -/

/-- Whatever the sink is, the next token of the text `u` is `t`, and `rest` stands behind it. -/
def Gives (p : Position) (u : List Char) (t : Token) (rest : List Char) (q : Position) : Prop :=
  ∀ {κ : Type} [Sink κ] (c : Cursor κ), c.At u p →
    ∃ d : Cursor κ, c.nextToken = (.ok t, d) ∧ d.At rest q

theorem Reads.of_nil {fault : Option Diagnostic} (h : Reads p u [] fault) :
    ∃ g rest f, Gap g ∧ Fails rest f ∧ u = g ++ rest ∧ fault = some ⟨f, p.after g⟩ := by
  rcases h.cases with ⟨_, _, _, _, _, _, _, _, _, hts, _⟩ | ⟨_, hts, _⟩ |
    ⟨g, rest, f, hg, hf, hu, _, he⟩
  · cases hts
  · cases hts
  · exact ⟨g, rest, f, hg, hf, hu, he⟩

/-- The first token of a text that has been read stands in it, and the others are read behind it. -/
theorem Reads.of_cons {fault : Option Diagnostic} (h : Reads p u (t :: ts) fault) :
    ∃ before rest, Placed p u before t rest ∧
      Gives p u t rest (p.after (before ++ t.lexeme.toList)) ∧
      (t.kind ≠ .eof → Reads (p.after (before ++ t.lexeme.toList)) rest ts fault) ∧
      (t.kind = .eof → ts = [] ∧ fault = none) := by
  rcases h.cases with ⟨g, l, rest, k, ts', hg, hk, hm, hu, hts, hr⟩ | ⟨hg, hts, hn⟩ |
    ⟨_, _, _, _, _, _, hts, _⟩
  · obtain ⟨rfl, rfl⟩ := List.cons.inj hts
    have hne : k ≠ .eof := (ofLexeme?_ne hk).1
    dsimp only
    rw [String.toList_ofList]
    refine ⟨g, rest, ⟨by rw [hu, String.toList_ofList], rfl, fun he => absurd he hne⟩, ?_,
      fun _ => hr, fun he => absurd he hne⟩
    intro κ _ c hc
    rw [hu] at hc
    exact hc.nextToken_gap_lexeme hg hk hm
  · obtain ⟨rfl, rfl⟩ := List.cons.inj hts
    have hu : u ++ "".toList = u := List.append_nil u
    refine ⟨u, [], ⟨by simp, rfl, fun _ => rfl⟩, ?_, fun he => absurd rfl he, fun _ => ⟨rfl, hn⟩⟩
    intro κ _ c hc
    rw [← List.append_nil u] at hc
    obtain ⟨d, hd, hn⟩ := hc.nextToken_gap hg
    refine ⟨d, hn.trans hd.nextToken_nil, ?_⟩
    dsimp only
    rw [hu]
    exact hd
  · cases hts

/-! ## The whole run -/

/-- A checker with the goals `gs` that comes to the verdict `v` stops in the text `u` just where
`Echoed` says, whatever the sink is: the character it looks at is the last one that is copied. -/
def Stops (gs : List Goal) (p : Position) (u : List Char) (ts : List Token)
    (v : Except Diagnostic Unit) : Prop :=
  ∃ w left q, Echoed p u ts v w ∧ u = w ++ left.tail ∧
    ∀ {κ : Type} [Sink κ] (c : Cursor κ), c.At u p → (c.chase gs).2.At left q

theorem stops_of_fails {g : List Char} {f : Fault} (hg : Gap g) (hf : Fails rest f)
    (hu : u = g ++ rest) : Stops gs p u ts (.error ⟨f, p.after g⟩) := by
  cases hf with
  | @foreign ch rest hf =>
    refine ⟨g ++ [ch], ch :: rest, p.after g, .foreign hu, by rw [hu]; simp, fun c hc => ?_⟩
    rw [hu] at hc
    obtain ⟨d, hd, hn⟩ := hc.nextToken_gap hg
    rw [Cursor.chase_of_error (hn.trans (hd.nextToken_foreign hf))]
    exact hd
  | @unclosed rest hb =>
    refine ⟨u, [], p.after u, .unclosed _, (List.append_nil u).symm, fun c hc => ?_⟩
    rw [hu] at hc
    obtain ⟨d, hd, hn⟩ := hc.nextToken_gap hg
    obtain ⟨e, he, ha⟩ := hd.nextToken_unclosed hb
    rw [Cursor.chase_of_error (hn.trans he), hu, Position.after_append]
    exact ha

theorem stops_of_fail {e : Expectation} (hp : Placed p u before t rest) (hg : Gives p u t rest q)
    (hf : feed gs t.kind = .error e) :
    Stops gs p u (t :: ts) (.error ⟨.expected e, t.position⟩) := by
  refine ⟨_, rest, q, .unexpected e List.mem_cons_self hp, ?_, fun c hc => ?_⟩
  · rw [List.append_assoc _ (rest.take 1), ← List.drop_one, List.take_append_drop]
    exact hp.text
  · obtain ⟨d, hd, ha⟩ := hg c hc
    rw [Cursor.chase_of_fail hd hf]
    exact ha

theorem stops_of_take {v : Except Diagnostic Unit} (hp : Placed p u before t rest)
    (hg : Gives p u t rest (p.after (before ++ t.lexeme.toList)))
    (hf : feed gs t.kind = .ok next) (hk : t.kind ≠ .eof)
    (hs : Stops next (p.after (before ++ t.lexeme.toList)) rest ts v) :
    Stops gs p u (t :: ts) v := by
  obtain ⟨w, left, q, he, hw, hc⟩ := hs
  refine ⟨before ++ t.lexeme.toList ++ w, left, q, ?_, ?_, fun c ha => ?_⟩
  · rw [hp.text]
    exact he.prepend (List.subset_cons_self t ts)
  · rw [hp.text, hw, ← List.append_assoc]
  · obtain ⟨d, hd, hr⟩ := hg c ha
    rw [Cursor.chase_of_take hd hf hk]
    exact hc _ (hr.noteSection t)

theorem stops_of_eof (hp : Placed p u before t rest) (hg : Gives p u t rest q)
    (hf : feed gs t.kind = .ok next) (hk : t.kind = .eof) : Stops gs p u (t :: ts) (.ok ()) := by
  rw [hp.ends hk] at hg
  refine ⟨u, [], q, .accepted, (List.append_nil u).symm, fun c hc => ?_⟩
  obtain ⟨d, hd, ha⟩ := hg c hc
  exact Cursor.chase_of_eof hd hf hk ha

/-- The checker stops at the verdict on the tokens of its text. -/
theorem stops_of_reads {fault : Option Diagnostic} (hr : Reads p u ts fault) (gs : List Goal) :
    Stops gs p u ts (verdict gs ts fault) := by
  -- each token is taken by the goals, which go on behind it, or the checker stops at it
  induction ts generalizing p u gs with
  | nil =>
    obtain ⟨g, rest, f, hg, hf, hu, rfl⟩ := hr.of_nil
    exact stops_of_fails hg hf hu
  | cons t ts ih =>
    obtain ⟨before, rest, hp, hg, hrest, hend⟩ := hr.of_cons
    rw [verdict_cons]
    cases hf : feed gs t.kind with
    | error e => exact stops_of_fail hp hg hf
    | ok next =>
      by_cases hk : t.kind = .eof
      · obtain ⟨rfl, rfl⟩ := hend hk
        exact stops_of_eof hp hg hf hk
      · exact stops_of_take hp hg hf hk (ih (hrest hk) next)

/-! ## The echo of a text -/

theorem exists_echo (cs : List Char) : ∃ w,
    Echoed .origin (visible cs) (tokenStream cs).1 (check cs) w ∧
      ∀ {κ : Type} [Sink κ] (source : Source) (sink : κ) (journal : Journal),
        source.text = visible cs →
          (Cursor.load source sink journal).check.2.sink = Sink.copied sink w := by
  have hr := reads_tokenStream cs
  obtain ⟨w, left, q, he, hw, hc⟩ := stops_of_reads hr [.sections]
  rw [← check_eq_verdict] at he
  refine ⟨w, he, fun source sink journal hs => ?_⟩
  have ha := Cursor.load_at source sink journal
  have hd := (Cursor.check_reaches _).copies (Cursor.load_copies source sink journal)
  rw [hs] at ha
  rw [hs, hw] at hd
  rw [Cursor.check_eq_chase] at hd ⊢
  exact (hc _ ha).sink_eq hd

theorem echoed_eq_of_copies {cs w : List Char}
    (h : ∀ {κ : Type} [Sink κ] (source : Source) (sink : κ) (journal : Journal),
      source.text = visible cs →
        (Cursor.load source sink journal).check.2.sink = Sink.copied sink w) : echoed cs = w := by
  rw [echoed, h _ _ _ (Source.text_ofChars cs), Recorder.heard_copied]
  rfl

theorem echoed_of_check (cs : List Char) :
    Echoed .origin (visible cs) (tokenStream cs).1 (check cs) (echoed cs) := by
  obtain ⟨w, he, hw⟩ := exists_echo cs
  rw [echoed_eq_of_copies hw]
  exact he

theorem echoed_of_accepted {cs : List Char} (h : check cs = .ok ()) : echoed cs = visible cs := by
  have he := echoed_of_check cs
  rw [h] at he
  exact he.eq_of_ok

/-- Every sink gets the characters that a recording one gets. -/
theorem check_copies {κ : Type} [Sink κ] {cs : List Char} {source : Source}
    (h : source.text = visible cs) (sink : κ) (journal : Journal) :
    (Cursor.load source sink journal).check.2.sink = Sink.copied sink (echoed cs) := by
  obtain ⟨w, _, hw⟩ := exists_echo cs
  rw [echoed_eq_of_copies hw]
  exact hw source sink journal h

theorem check_of_text {κ : Type} [Sink κ] {cs : List Char} {source : Source}
    (h : source.text = visible cs) (sink : κ) (journal : Journal) :
    (Cursor.load source sink journal).check.1 = check cs := by
  have ha := Cursor.load_at source sink journal
  rw [h] at ha
  rw [Cursor.check_eq_proceed, check_eq_verdict]
  exact ha.proceed_reads (reads_tokenStream cs)

/-! ## Asking for one token after the other -/

namespace Cursor

variable {κ : Type} [Sink κ] {c d : Cursor κ}

/-- Asked for a token again and again, `c` answers with the tokens `ts` and is then `d`. -/
inductive Yields : Cursor κ → List Token → Cursor κ → Prop where
  | nil (c : Cursor κ) : Yields c [] c
  | cons {c d e : Cursor κ} {t : Token} {ts : List Token} :
      c.nextToken = (.ok t, d) → Yields d ts e → Yields c (t :: ts) e

theorem Yields.reaches (h : Yields c ts d) : Reaches c d := by
  induction h with
  | nil c => exact .refl c
  | cons hn _ ih => exact (reaches_of_nextToken hn).trans ih

theorem At.nextToken_placed (h : c.At u p) (hn : c.nextToken = (.ok t, d)) :
    ∃ before rest, Placed p u before t rest ∧ d.At rest (p.after (before ++ t.lexeme.toList)) := by
  obtain ⟨ts, fault, hr⟩ := exists_reads p u
  cases ts with
  | nil =>
    obtain ⟨g, rest, f, hg, hf, rfl, _⟩ := hr.of_nil
    obtain ⟨e, he, hc⟩ := h.nextToken_gap hg
    obtain ⟨e', he'⟩ := he.nextToken_fails hf
    rw [hc, he'] at hn
    cases hn
  | cons t' ts =>
    obtain ⟨before, rest, hp, hg, _⟩ := hr.of_cons
    obtain ⟨d', hd, ha⟩ := hg c h
    rw [hn] at hd
    cases hd
    exact ⟨before, rest, hp, ha⟩

theorem Yields.placed (hy : Yields c (ts ++ [t]) d) (h : c.At u p) :
    ∃ before rest, Placed p u before t rest ∧ d.At rest (p.after (before ++ t.lexeme.toList)) := by
  induction ts generalizing c u p with
  | nil =>
    cases hy with
    | cons hn hy =>
      cases hy
      exact h.nextToken_placed hn
  | cons s ts ih =>
    cases hy with
    | cons hn hy =>
      obtain ⟨before, rest, hp, hd⟩ := h.nextToken_placed hn
      obtain ⟨before', rest', hp', he⟩ := ih hy hd
      have hq := hp'.prepend
      rw [← hp.text] at hq
      refine ⟨_, rest', hq, ?_⟩
      rw [List.append_assoc (before ++ s.lexeme.toList), Position.after_append p]
      exact he

/-- Behind the last token one character is looked at, if there is one. -/
theorem Yields.sink_eq {source : Source} {sink : κ} {journal : Journal}
    (hy : (load source sink journal).Yields ts d) :
    ∃ passed rest, source.text = passed ++ rest ∧
      d.sink = Sink.copied sink (passed ++ rest.take 1) ∧ (ts = [] → passed = []) ∧
      ∀ t ∈ ts.getLast?, ∃ before, Placed .origin source.text before t rest ∧
        passed = before ++ t.lexeme.toList := by
  have ha := load_at source sink journal
  have hc := hy.reaches.copies (load_copies source sink journal)
  rcases List.eq_nil_or_concat ts with rfl | ⟨init, t, rfl⟩
  · cases hy
    refine ⟨[], source.text, rfl, ha.sink_eq ?_, fun _ => rfl, by simp⟩
    rw [List.nil_append, ← List.drop_one, List.take_append_drop]
    exact hc
  · rw [List.concat_eq_append] at hy ⊢
    obtain ⟨before, rest, hp, hd⟩ := hy.placed ha
    refine ⟨before ++ t.lexeme.toList, rest, hp.text, hd.sink_eq ?_, by simp, ?_⟩
    · rw [List.append_assoc, ← List.drop_one, List.take_append_drop, ← hp.text]
      exact hc
    · intro t' ht
      rw [List.getLast?_concat] at ht
      cases ht
      exact ⟨before, hp, rfl⟩

end Cursor

/-- What is copied of a text up to its first NUL: by a check, the part that its verdict says, the
same into any sink; by a reader that has been given some tokens, all up to the end of the last one
and the character behind it, if there is one. -/
theorem echo_exact (cs : List Char) :
    echoed cs <+: visible cs ∧
    Echoed .origin (visible cs) (tokenStream cs).1 (check cs) (echoed cs) ∧
    (∀ {κ : Type} [Sink κ] (sink : κ) (journal : Journal),
      (Cursor.load (.ofChars cs) sink journal).check.1 = check cs ∧
      (Cursor.load (.ofChars cs) sink journal).check.2.sink = Sink.copied sink (echoed cs)) ∧
    (∀ {κ : Type} [Sink κ] (sink : κ) (journal : Journal) (ts : List Token) (d : Cursor κ),
      (Cursor.load (.ofChars cs) sink journal).Yields ts d →
      ∃ passed rest, visible cs = passed ++ rest ∧
        d.sink = Sink.copied sink (passed ++ rest.take 1) ∧ (ts = [] → passed = []) ∧
        ∀ t ∈ ts.getLast?, ∃ before, Placed .origin (visible cs) before t rest ∧
          passed = before ++ t.lexeme.toList) := by
  have ht := Source.text_ofChars cs
  refine ⟨(echoed_of_check cs).isPrefix, echoed_of_check cs, fun sink journal => ?_,
    fun sink journal ts d hy => ?_⟩
  · exact ⟨check_of_text ht sink journal, check_copies ht sink journal⟩
  · rw [← ht]
    exact hy.sink_eq

theorem echo_exact_behind_first_token :
    echoed "VAR x y; z".toList = "VAR x y;".toList ∧
    ∃ d : Cursor Recorder, (Cursor.load (.ofChars "VAR x".toList) (Recorder.mk []) #[]).Yields
        [⟨.var, "VAR", ⟨1, 1⟩⟩] d ∧
      ∃ passed rest, visible "VAR x".toList = passed ++ rest ∧
        d.sink = Sink.copied (Recorder.mk []) (passed ++ rest.take 1) ∧
        ∃ before, Placed .origin (visible "VAR x".toList) before ⟨.var, "VAR", ⟨1, 1⟩⟩ rest ∧
          passed = before ++ "VAR".toList := by
  refine ⟨by decide +kernel, _, .cons (Prod.ext ?_ rfl) (.nil _), ?_⟩
  · decide +kernel
  · obtain ⟨passed, rest, hu, hs, _, hl⟩ := (echo_exact "VAR x".toList).2.2.2 (Recorder.mk []) #[]
      [⟨.var, "VAR", ⟨1, 1⟩⟩] _ (.cons (Prod.ext (by decide +kernel) rfl) (.nil _))
    exact ⟨passed, rest, hu, hs, hl _ rfl⟩

end Modula

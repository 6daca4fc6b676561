import Modula.Proofs.Token.Scan

/-! # The tokens of a text

A reader that goes on token by token moves along a tiling of its text (`At.tokensFrom_tiled`). So
the tokens of a text are those of its tiling (`tokenStream_eq_iff`): up to the end, which is a token
of its own, or up to the place where the tiling stops short. `tokenize_iff_tiled` states both cases for
the list of all tokens of a text, the one with and the one without a fault. -/

namespace Modula
set_option autoImplicit false

/-! ## Kinds of tokens -/

theorem keyword?_ne {s : String} {k : TokenKind} (h : TokenKind.keyword? s = some k) :
    k ≠ .eof ∧ k ≠ .noSymbol := by
  unfold TokenKind.keyword? at h
  split at h <;> cases h <;> decide

theorem ofLexeme?_ne {s : String} {k : TokenKind} (h : TokenKind.ofLexeme? s = some k) :
    k ≠ .eof ∧ k ≠ .noSymbol := by
  unfold TokenKind.ofLexeme? at h
  split at h
  · next hk =>
    cases h
    exact keyword?_ne hk
  · split at h
    · cases h
      decide
    · split at h
      · cases h
        decide
      · unfold TokenKind.punctuation? at h
        split at h <;> cases h <;> decide

theorem Tiled.kind_of_mem {p : Position} {pre rest : List Char} {ts : List Token} {t : Token}
    (h : Tiled p pre ts rest) (ht : t ∈ ts) : TokenKind.ofLexeme? t.lexeme = some t.kind := by
  induction h with
  | gap _ => cases ht
  | lexeme _ hk _ _ ih =>
    rcases List.mem_cons.mp ht with rfl | ht
    · exact hk
    · exact ih ht

theorem Fails.stage {rest : List Char} {fault : Fault} (h : Fails rest fault) :
    fault.stage = .lexical := by
  cases h <;> rfl

/-! ## Token by token -/

namespace Cursor

variable {κ : Type} [Sink κ] {c : Cursor κ} {pre rest : List Char} {p : Position} {ts : List Token}

theorem tokensFrom_eq (before : Array Token) (c : Cursor κ) : c.tokensFrom before =
    match c.nextToken with
    | (.error d, c') => (before, some d, c')
    | (.ok t, c') =>
      if t.kind = .eof then (before.push t, none, c') else c'.tokensFrom (before.push t) := by
  rw [tokensFrom]
  split <;> next h => rw [h]

theorem At.tokensFrom_tiled (ht : Tiled p pre ts rest) (h : c.At (pre ++ rest) p)
    (before : Array Token) : ∃ d : Cursor κ, d.At rest (p.after pre) ∧
      c.tokensFrom before = d.tokensFrom (before ++ ts.toArray) := by
  induction ht generalizing c before with
  | gap hg =>
    obtain ⟨d, hd, hn⟩ := h.nextToken_gap hg
    refine ⟨d, hd, ?_⟩
    rw [tokensFrom_eq, hn, ← tokensFrom_eq]
    simp
  | @lexeme p g l pre rest k ts hg hk hm _ ih =>
    rw [List.append_assoc] at h
    obtain ⟨e, he, ha⟩ := h.nextToken_gap_lexeme hg hk hm
    obtain ⟨f, hf, hr⟩ := ih ha (before.push ⟨k, String.ofList l, p.after g⟩)
    refine ⟨f, by simpa using hf, ?_⟩
    rw [tokensFrom_eq, he]
    dsimp only
    rw [if_neg (ofLexeme?_ne hk).1, hr]
    simp

theorem At.tokensFrom_nil (h : c.At [] p) (before : Array Token) :
    c.tokensFrom before = (before.push ⟨.eof, "", p⟩, none, c) := by
  rw [tokensFrom_eq, h.nextToken_nil]
  rfl

theorem At.tokensFrom_fails {fault : Fault} (hf : Fails rest fault) (h : c.At rest p)
    (before : Array Token) : ∃ d, c.tokensFrom before = (before, some ⟨fault, p⟩, d) := by
  obtain ⟨d, hd⟩ := h.nextToken_fails hf
  exact ⟨d, by rw [tokensFrom_eq, hd]⟩

end Cursor

/-! ## The tokens of a text -/

/-- The tokens of a text up to its end or its first lexical fault, and that fault. -/
def tokenStream (cs : List Char) : List Token × Option Diagnostic :=
  let (tokens, fault, _) := (Cursor.load (.ofChars cs) Discard.discard #[]).tokensFrom #[]
  (tokens.toList, fault)

/-- `Reads p u ts fault`: the text `u`, the first character of which stands at `p`, has the tokens
`ts`, the last of which is its end unless a fault comes before it. -/
inductive Reads (p : Position) (u : List Char) : List Token → Option Diagnostic → Prop where
  | whole {ts : List Token} :
      Tiled p u ts [] → Reads p u (ts ++ [⟨.eof, "", p.after u⟩]) none
  | faulty {pre rest : List Char} {ts : List Token} {fault : Fault} :
      u = pre ++ rest → Tiled p pre ts rest → Fails rest fault →
      Reads p u ts (some ⟨fault, p.after pre⟩)

theorem exists_reads (p : Position) (u : List Char) : ∃ ts fault, Reads p u ts fault := by
  obtain ⟨pre, ts, rest, rfl, ht, rfl | ⟨fault, hf⟩⟩ := exists_tiled p u
  · rw [List.append_nil]
    exact ⟨_, _, .whole ht⟩
  · exact ⟨_, _, .faulty rfl ht hf⟩

/-- A token of a text is the end and has no text of its own, or is of the kind that its lexeme
spells. -/
theorem Reads.spelled {p : Position} {u : List Char} {ts : List Token} {fault : Option Diagnostic}
    {t : Token} (h : Reads p u ts fault) (ht : t ∈ ts) :
    (t.kind = .eof ∧ t.lexeme = "") ∨ TokenKind.ofLexeme? t.lexeme = some t.kind := by
  cases h with
  | whole hl =>
    rcases List.mem_append.mp ht with ht | ht
    · exact .inr (hl.kind_of_mem ht)
    · rw [List.mem_singleton.mp ht]
      exact .inl ⟨rfl, rfl⟩
  | faulty _ hl _ => exact .inr (hl.kind_of_mem ht)

/-- What stands in front of a text that has been read: a lexeme behind a gap, and then the rest of
the tokens; or nothing but a gap up to the end; or a fault behind a gap. -/
theorem Reads.cases {p : Position} {u : List Char} {ts : List Token} {fault : Option Diagnostic}
    (h : Reads p u ts fault) :
    (∃ (g l rest : List Char) (k : TokenKind) (ts' : List Token), Gap g ∧
      TokenKind.ofLexeme? (String.ofList l) = some k ∧ Maximal l rest ∧ u = g ++ l ++ rest ∧
      ts = ⟨k, String.ofList l, p.after g⟩ :: ts' ∧ Reads (p.after (g ++ l)) rest ts' fault) ∨
    (Gap u ∧ ts = [⟨.eof, "", p.after u⟩] ∧ fault = none) ∨
    (∃ (g rest : List Char) (f : Fault), Gap g ∧ Fails rest f ∧ u = g ++ rest ∧ ts = [] ∧
      fault = some ⟨f, p.after g⟩) := by
  cases h with
  | whole ht =>
    cases ht with
    | gap hg => exact Or.inr (Or.inl ⟨hg, rfl, rfl⟩)
    | @lexeme _ g l pre _ k ts hg hk hm ht =>
      rw [List.append_nil] at hm
      refine Or.inl ⟨g, l, pre, k, _, hg, hk, hm, rfl, rfl, ?_⟩
      rw [Position.after_append p (g ++ l) pre]
      exact .whole ht
  | faulty hu ht hf =>
    cases ht with
    | gap hg => exact Or.inr (Or.inr ⟨_, _, _, hg, hf, hu, rfl, rfl⟩)
    | @lexeme _ g l pre _ k ts hg hk hm ht =>
      rw [List.append_assoc] at hu
      refine Or.inl ⟨g, l, _, k, _, hg, hk, hm, hu, rfl, ?_⟩
      rw [Position.after_append p (g ++ l) pre]
      exact .faulty rfl ht hf

theorem Cursor.At.tokensFrom {κ : Type} [Sink κ] {c : Cursor κ} {p : Position} {u : List Char}
    {ts : List Token} {fault : Option Diagnostic} (h : c.At u p) (hr : Reads p u ts fault) :
    ∃ d, c.tokensFrom #[] = (ts.toArray, fault, d) := by
  cases hr with
  | whole ht =>
    obtain ⟨d, hd, he⟩ := At.tokensFrom_tiled ht (by simpa using h) #[]
    refine ⟨d, ?_⟩
    rw [he, hd.tokensFrom_nil]
    simp
  | faulty hu ht hf =>
    subst hu
    obtain ⟨d, hd, he⟩ := h.tokensFrom_tiled ht #[]
    obtain ⟨e, hn⟩ := hd.tokensFrom_fails hf (#[] ++ List.toArray _)
    refine ⟨e, ?_⟩
    rw [he, hn]
    simp

theorem tokenStream_of_reads {cs : List Char} {ts : List Token} {fault : Option Diagnostic}
    (h : Reads .origin (visible cs) ts fault) : tokenStream cs = (ts, fault) := by
  have ha := Cursor.load_at (.ofChars cs) Discard.discard #[]
  rw [Source.text_ofChars] at ha
  obtain ⟨d, hd⟩ := ha.tokensFrom h
  rw [tokenStream, hd]

theorem tokenStream_eq_iff {cs : List Char} {ts : List Token} {fault : Option Diagnostic} :
    tokenStream cs = (ts, fault) ↔ Reads .origin (visible cs) ts fault := by
  constructor
  · intro h
    obtain ⟨ts', fault', hr⟩ := exists_reads .origin (visible cs)
    rw [tokenStream_of_reads hr] at h
    cases h
    exact hr
  · exact tokenStream_of_reads

theorem reads_tokenStream (cs : List Char) :
    Reads .origin (visible cs) (tokenStream cs).1 (tokenStream cs).2 :=
  tokenStream_eq_iff.mp rfl

theorem tokenize_eq (cs : List Char) : tokenize cs =
    match tokenStream cs with
    | (ts, none) => .ok ts
    | (_, some d) => .error d := by
  unfold tokenize tokenizeNoting tokenStream
  rcases (Cursor.load (.ofChars cs) Discard.discard #[]).tokensFrom #[] with ⟨ts, _ | d, c⟩ <;> rfl

theorem tokenize_eq_ok_iff {cs : List Char} {ts : List Token} :
    tokenize cs = .ok ts ↔ tokenStream cs = (ts, none) := by
  rw [tokenize_eq]
  rcases tokenStream cs with ⟨us, _ | d⟩ <;> simp

theorem tokenize_eq_error_iff {cs : List Char} {d : Diagnostic} :
    tokenize cs = .error d ↔ ∃ ts, tokenStream cs = (ts, some d) := by
  rw [tokenize_eq]
  rcases tokenStream cs with ⟨us, _ | d⟩ <;> simp

/-- A text up to its first NUL consists of tokens just in case it is a gap, a lexeme, a gap and so
on up to its end, and these are its tokens. Otherwise it is so up to a place where neither a gap nor
a lexeme goes on, and the fault is what is wrong there. -/
theorem tokenize_iff_tiled (cs : List Char) :
    (∀ ts, tokenize cs = .ok ts ↔ ∃ ls, Tiled .origin (visible cs) ls [] ∧
      (∀ t ∈ ls, TokenKind.ofLexeme? t.lexeme = some t.kind ∧ t.kind ≠ .eof ∧ t.kind ≠ .noSymbol) ∧
      ts = ls ++ [⟨.eof, "", Position.origin.after (visible cs)⟩]) ∧
    (∀ d, tokenize cs = .error d ↔ ∃ pre ls rest, visible cs = pre ++ rest ∧
      Tiled .origin pre ls rest ∧ Fails rest d.fault ∧ d.stage = .lexical ∧
      d.position = Position.origin.after pre) := by
  refine ⟨fun ts => ?_, fun d => ?_⟩
  · rw [tokenize_eq_ok_iff, tokenStream_eq_iff]
    constructor
    · intro h
      cases h with
      | @whole ls ht =>
        refine ⟨ls, ht, fun t hm => ?_, rfl⟩
        have hk := ht.kind_of_mem hm
        exact ⟨hk, ofLexeme?_ne hk⟩
    · intro hx
      obtain ⟨ls, ht, _, rfl⟩ := hx
      exact .whole ht
  · rw [tokenize_eq_error_iff]
    simp only [tokenStream_eq_iff]
    constructor
    · intro hx
      obtain ⟨ls, h⟩ := hx
      cases h with
      | faulty hu ht hf => exact ⟨_, ls, _, hu, ht, hf, hf.stage, rfl⟩
    · intro hx
      obtain ⟨pre, ls, rest, hu, ht, hf, _, hp⟩ := hx
      have hr := Reads.faulty hu ht hf
      rw [← hp] at hr
      exact ⟨ls, hr⟩

end Modula

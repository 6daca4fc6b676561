import Modula.Proofs.Text
import Modula.Token.Scan

/-! # Lexemes and gaps

The shape of a text without any reader: what a lexeme is and of which kind (`TokenKind.ofLexeme?`),
where one ends (`Maximal`), what may stand between two of them (`Gap`), and what neither starts a
lexeme nor goes on with a gap (`Fails`). `Tiled p pre ts rest` puts these together: with `rest`
behind it, `pre` is a gap, a lexeme, a gap, and so on, and `ts` are the tokens of the lexemes.
Every text is tiled up to its end or up to something that fails (`exists_tiled`). -/

namespace Modula
set_option autoImplicit false

/-! ## Lexemes -/

/-- A letter and the letters and numbers after it. -/
def isWord : List Char → Bool
  | [] => false
  | c :: cs => Text.isAlphabetic c && cs.all Text.isAlphanumeric

/-- A run of ASCII digits. -/
def isNumber (l : List Char) : Bool := !l.isEmpty && l.all Char.isDigit

namespace TokenKind

def punctuation? : List Char → Option TokenKind
  | ['='] => some equals
  | [','] => some comma
  | [';'] => some semicolon
  | [':'] => some colon
  | ['.'] => some dot
  | ['.', '.'] => some dotdot
  | ['['] => some lbracket
  | [']'] => some rbracket
  | ['('] => some lparen
  | [')'] => some rparen
  | ['*'] => some star
  | _ => none

/-- The kind of the token with a given text; `none` if no token has it. -/
def ofLexeme? (l : String) : Option TokenKind :=
  match keyword? l with
  | some k => some k
  | none =>
    if isWord l.toList then some ident
    else if isNumber l.toList then some number
    else punctuation? l.toList

end TokenKind

/-- A lexeme that does not go on with the text behind it. -/
structure Maximal (l rest : List Char) : Prop where
  word : isWord l = true → ∀ c ∈ rest.head?, Text.isAlphanumeric c = false
  number : isNumber l = true → ∀ c ∈ rest.head?, c.isDigit = false
  dot : l = ['.'] → rest.head? ≠ some '.'
  paren : l = ['('] → rest.head? ≠ some '*'

/-! ## Gaps and faults -/

/-- The text of a comment between its brackets: the end of a comment does not occur in it. -/
def CommentBody (cs : List Char) : Prop := ¬ ['*', ')'] <:+: cs

instance decidableCommentBody (cs : List Char) : Decidable (CommentBody cs) :=
  inferInstanceAs (Decidable (¬ _))

/-- Blanks and comments. -/
inductive Gap : List Char → Prop where
  | nil : Gap []
  | blank {c : Char} {g : List Char} : isBlank c = true → Gap g → Gap (c :: g)
  | comment {body g : List Char} :
      CommentBody body → Gap g → Gap ('(' :: '*' :: (body ++ '*' :: ')' :: g))

/-- A character with which neither a gap nor a lexeme starts. -/
def Foreign (c : Char) : Prop :=
  ' ' < c ∧ Text.isAlphabetic c = false ∧ c.isDigit = false ∧
    c ∉ ['=', ',', ';', ':', '.', '[', ']', '(', ')', '*']

/-- What is wrong at the front of a text that goes on with neither a gap nor a lexeme. -/
inductive Fails : List Char → Fault → Prop where
  | foreign {c : Char} {rest : List Char} : Foreign c → Fails (c :: rest) (.invalidCharacter c)
  | unclosed {rest : List Char} :
      CommentBody rest → Fails ('(' :: '*' :: rest) .unterminatedComment

/-- `Tiled p pre ts rest`: with `rest` behind it, the text `pre` is a gap, a lexeme, a gap, a lexeme
and so on up to a gap, and `ts` are the tokens of the lexemes if its first character stands at
`p`. -/
inductive Tiled : Position → List Char → List Token → List Char → Prop where
  | gap {p : Position} {g rest : List Char} : Gap g → Tiled p g [] rest
  | lexeme {p : Position} {g l pre rest : List Char} {k : TokenKind} {ts : List Token} :
      Gap g → TokenKind.ofLexeme? (String.ofList l) = some k → Maximal l (pre ++ rest) →
      Tiled (p.after (g ++ l)) pre ts rest →
      Tiled p (g ++ l ++ pre) (⟨k, String.ofList l, p.after g⟩ :: ts) rest

/-! ## Classes of characters -/

theorem isDigit_iff {c : Char} : c.isDigit = true ↔ 48 ≤ c.toNat ∧ c.toNat ≤ 57 := by
  simp [Char.isDigit, UInt32.le_iff_toNat_le]

theorem isAlpha_iff {c : Char} : c.isAlpha = true ↔
    (65 ≤ c.toNat ∧ c.toNat ≤ 90) ∨ (97 ≤ c.toNat ∧ c.toNat ≤ 122) := by
  have hd : c.isAlpha =
      (decide (65 ≤ c.val ∧ c.val ≤ 90) || (decide (97 ≤ c.val) && decide (c.val ≤ 122))) := rfl
  rw [hd]
  simp [UInt32.le_iff_toNat_le]

theorem isAlphabetic_of_isDigit {c : Char} (h : c.isDigit = true) :
    Text.isAlphabetic c = false := by
  have hd := isDigit_iff.mp h
  have ha : c.toNat < 0x80 := by omega
  rw [Text.isAlphabetic_of_ascii ha, Bool.eq_false_iff]
  intro hl
  have := isAlpha_iff.mp hl
  omega

theorem isDigit_of_isAlphabetic {c : Char} (h : Text.isAlphabetic c = true) :
    c.isDigit = false := by
  rw [Bool.eq_false_iff]
  intro hd
  rw [isAlphabetic_of_isDigit hd] at h
  cases h

theorem isAlphanumeric_of_isDigit {c : Char} (h : c.isDigit = true) :
    Text.isAlphanumeric c = true := by
  have hd := isDigit_iff.mp h
  have ha : c.toNat < 0x80 := by omega
  rw [Text.isAlphanumeric, Text.isNumeric_of_ascii ha, h, Bool.or_true]

theorem isDigit_of_not_isAlphanumeric {c : Char} (h : Text.isAlphanumeric c = false) :
    c.isDigit = false := by
  rw [Bool.eq_false_iff]
  intro hd
  rw [isAlphanumeric_of_isDigit hd] at h
  cases h

theorem isAlphanumeric_of_isBlank {c : Char} (h : isBlank c = true) :
    Text.isAlphanumeric c = false := by
  have hn : c.toNat ≤ 32 := by
    have hc : c ≤ ' ' := of_decide_eq_true h
    exact hc
  have ha : c.toNat < 0x80 := by omega
  rw [Text.isAlphanumeric, Text.isAlphabetic_of_ascii ha, Text.isNumeric_of_ascii ha,
    Bool.eq_false_iff]
  intro hl
  rcases Bool.or_eq_true_iff.mp hl with hl | hl
  · have := isAlpha_iff.mp hl
    omega
  · have := isDigit_iff.mp hl
    omega

theorem isBlank_of_isAlphanumeric {c : Char} (h : Text.isAlphanumeric c = true) :
    isBlank c = false := by
  rw [Bool.eq_false_iff]
  intro hb
  rw [isAlphanumeric_of_isBlank hb] at h
  cases h

/-! ## Kinds of lexemes -/

variable {l rest : List Char} {k : TokenKind}

theorem isWord_of_keyword {s : String} (h : TokenKind.keyword? s = some k) :
    isWord s.toList = true := by
  unfold TokenKind.keyword? at h
  split at h
  case h_10 => cases h
  all_goals decide

theorem isNumber_of_isWord (h : isWord l = true) : isNumber l = false := by
  cases l with
  | nil => rfl
  | cons c cs =>
    have hc : Text.isAlphabetic c = true := (Bool.and_eq_true_iff.mp h).1
    simp [isNumber, isDigit_of_isAlphabetic hc]

theorem isAlphanumeric_of_isWord (h : isWord l = true) :
    ∀ c ∈ l, Text.isAlphanumeric c = true := by
  cases l with
  | nil => cases h
  | cons c cs =>
    rw [isWord, Bool.and_eq_true, List.all_eq_true] at h
    intro d hd
    rcases List.mem_cons.mp hd with rfl | hd
    · exact Text.isAlphanumeric_of_isAlphabetic h.1
    · exact h.2 d hd

theorem isDigit_of_isNumber (h : isNumber l = true) :
    ∀ c ∈ l, c.isDigit = true := by
  rw [isNumber, Bool.and_eq_true, List.all_eq_true] at h
  exact h.2

theorem ofLexeme?_of_isWord (h : isWord l = true) :
    TokenKind.ofLexeme? (String.ofList l) =
      some ((TokenKind.keyword? (String.ofList l)).getD .ident) := by
  rw [TokenKind.ofLexeme?, String.toList_ofList, if_pos h]
  cases TokenKind.keyword? (String.ofList l) <;> rfl

theorem ofLexeme?_of_not_isWord (h : isWord l = false) :
    TokenKind.ofLexeme? (String.ofList l) =
      if isNumber l then some .number else TokenKind.punctuation? l := by
  have hk : TokenKind.keyword? (String.ofList l) = none := by
    rw [Option.eq_none_iff_forall_ne_some]
    intro k hk
    have hw := isWord_of_keyword hk
    rw [String.toList_ofList, h] at hw
    cases hw
  rw [TokenKind.ofLexeme?, hk, String.toList_ofList, h]
  rfl

theorem ofLexeme?_of_isNumber (h : isNumber l = true) :
    TokenKind.ofLexeme? (String.ofList l) = some .number := by
  have hw : isWord l = false := by
    rw [Bool.eq_false_iff]
    intro hw
    rw [isNumber_of_isWord hw] at h
    cases h
  rw [ofLexeme?_of_not_isWord hw, if_pos h]

theorem punctuation?_cases (h : TokenKind.punctuation? l = some k) :
    (l = ['.'] ∧ k = .dot) ∨ (l = ['.', '.'] ∧ k = .dotdot) ∨ (l = ['('] ∧ k = .lparen) ∨
      ∃ c, l = [c] ∧ TokenKind.mark? c = some k := by
  unfold TokenKind.punctuation? at h
  split at h <;> cases h <;> simp [TokenKind.mark?]

theorem class_of_punctuation? (h : TokenKind.punctuation? l = some k) :
    isWord l = false ∧ isNumber l = false := by
  unfold TokenKind.punctuation? at h
  split at h <;> cases h <;> decide

theorem class_of_mem_punctuation? (h : TokenKind.punctuation? l = some k) :
    ∀ c ∈ l, Text.isAlphanumeric c = false ∧ isBlank c = false := by
  have ha : l.all (fun c => !Text.isAlphanumeric c && !isBlank c) = true := by
    unfold TokenKind.punctuation? at h
    split at h <;> cases h <;> decide
  intro c hc
  have hc := List.all_eq_true.mp ha c hc
  simpa using hc

theorem ofLexeme?_of_punctuation? (h : TokenKind.punctuation? l = some k) :
    TokenKind.ofLexeme? (String.ofList l) = some k := by
  obtain ⟨hw, hn⟩ := class_of_punctuation? h
  rw [ofLexeme?_of_not_isWord hw, hn]
  exact h

theorem ofLexeme?_cases (h : TokenKind.ofLexeme? (String.ofList l) = some k) :
    (isWord l = true ∧ k = (TokenKind.keyword? (String.ofList l)).getD .ident) ∨
      (isNumber l = true ∧ k = .number) ∨ TokenKind.punctuation? l = some k := by
  cases hw : isWord l with
  | true =>
    rw [ofLexeme?_of_isWord hw] at h
    exact Or.inl ⟨rfl, (Option.some.inj h).symm⟩
  | false =>
    rw [ofLexeme?_of_not_isWord hw] at h
    cases hn : isNumber l with
    | true =>
      rw [hn] at h
      exact Or.inr (Or.inl ⟨rfl, (Option.some.inj h).symm⟩)
    | false =>
      rw [hn] at h
      exact Or.inr (Or.inr h)

/-! ## Where lexemes end -/

theorem maximal_of_isWord (hl : isWord l = true)
    (h : ∀ c ∈ rest.head?, Text.isAlphanumeric c = false) : Maximal l rest where
  word _ := h
  number hn := by
    rw [isNumber_of_isWord hl] at hn
    cases hn
  dot he := by
    subst he
    exact absurd hl (by decide)
  paren he := by
    subst he
    exact absurd hl (by decide)

theorem maximal_of_isNumber (hl : isNumber l = true)
    (h : ∀ c ∈ rest.head?, c.isDigit = false) : Maximal l rest where
  word hw := by
    rw [isNumber_of_isWord hw] at hl
    cases hl
  number _ := h
  dot he := by
    subst he
    exact absurd hl (by decide)
  paren he := by
    subst he
    exact absurd hl (by decide)

theorem maximal_of_punctuation? (hl : TokenKind.punctuation? l = some k)
    (hd : l = ['.'] → rest.head? ≠ some '.') (hp : l = ['('] → rest.head? ≠ some '*') :
    Maximal l rest where
  word hw := by
    rw [(class_of_punctuation? hl).1] at hw
    cases hw
  number hn := by
    rw [(class_of_punctuation? hl).2] at hn
    cases hn
  dot := hd
  paren := hp

/-- Only the character behind a lexeme says whether it ends there. -/
theorem Maximal.of_head {rest' : List Char} (h : Maximal l rest) (hh : rest.head? = rest'.head?) :
    Maximal l rest' where
  word := hh ▸ h.word
  number := hh ▸ h.number
  dot := hh ▸ h.dot
  paren := hh ▸ h.paren

theorem head?_dropWhile (p : Char → Bool) (cs : List Char) :
    ∀ c ∈ (cs.dropWhile p).head?, p c = false := by
  intro c hc
  have h := List.head?_dropWhile_not p cs
  rw [Option.mem_def.mp hc] at h
  exact h

/-! ## Every text is tiled -/

theorem exists_commentBody {cs : List Char} (h : ¬ CommentBody cs) :
    ∃ body rest, cs = body ++ '*' :: ')' :: rest ∧ CommentBody body := by
  induction cs with
  | nil => exact absurd (by simp [CommentBody]) h
  | cons c cs ih =>
    rw [CommentBody, not_not, List.infix_cons_iff] at h
    by_cases hp : ['*', ')'] <+: c :: cs
    · obtain ⟨rest, hr⟩ := hp
      exact ⟨[], rest, hr.symm, by simp [CommentBody]⟩
    · obtain ⟨body, rest, rfl, hb⟩ := ih (not_not.mpr (h.resolve_left hp))
      refine ⟨c :: body, rest, rfl, ?_⟩
      rw [CommentBody, List.infix_cons_iff, not_or]
      refine ⟨fun hc => hp ?_, hb⟩
      exact hc.trans (List.prefix_append (c :: body) ('*' :: ')' :: rest))

theorem exists_lexeme {c : Char} {cs : List Char} (hb : isBlank c = false)
    (hp : c = '(' → cs.head? ≠ some '*') (hf : ¬ Foreign c) :
    ∃ l k rest, c :: cs = l ++ rest ∧ TokenKind.ofLexeme? (String.ofList l) = some k ∧
      Maximal l rest := by
  by_cases hw : Text.isAlphabetic c = true
  · have hl : isWord (c :: cs.takeWhile Text.isAlphanumeric) = true := by
      simp [isWord, hw]
    refine ⟨_, _, cs.dropWhile Text.isAlphanumeric, ?_, ofLexeme?_of_isWord hl,
      maximal_of_isWord hl (head?_dropWhile _ cs)⟩
    rw [List.cons_append, List.takeWhile_append_dropWhile]
  by_cases hd : c.isDigit = true
  · have hl : isNumber (c :: cs.takeWhile Char.isDigit) = true := by
      simp [isNumber, hd]
    refine ⟨_, _, cs.dropWhile Char.isDigit, ?_, ofLexeme?_of_isNumber hl,
      maximal_of_isNumber hl (head?_dropWhile _ cs)⟩
    rw [List.cons_append, List.takeWhile_append_dropWhile]
  by_cases ht : c = '.' ∧ cs.head? = some '.'
  · obtain ⟨rfl, ht⟩ := ht
    obtain ⟨cs, rfl⟩ := List.head?_eq_some_iff.mp ht
    exact ⟨['.', '.'], .dotdot, cs, rfl, by decide,
      maximal_of_punctuation? rfl (by simp) (by simp)⟩
  have hm : ∃ k, TokenKind.punctuation? [c] = some k := by
    have hs : ' ' < c := by
      have := of_decide_eq_false hb
      exact Char.not_le.mp this
    have hc : c ∈ ['=', ',', ';', ':', '.', '[', ']', '(', ')', '*'] := by
      by_contra hc
      exact hf ⟨hs, Bool.eq_false_iff.mpr hw, Bool.eq_false_iff.mpr hd, hc⟩
    simp only [List.mem_cons, List.not_mem_nil, or_false] at hc
    rcases hc with rfl | rfl | rfl | rfl | rfl | rfl | rfl | rfl | rfl | rfl <;> exact ⟨_, rfl⟩
  obtain ⟨k, hk⟩ := hm
  refine ⟨[c], k, cs, rfl, ofLexeme?_of_punctuation? hk, maximal_of_punctuation? hk ?_ ?_⟩
  · intro he hh
    exact ht ⟨List.singleton_inj.mp he, hh⟩
  · intro he
    exact hp (List.singleton_inj.mp he)

theorem ofLexeme?_ne_nil (h : TokenKind.ofLexeme? (String.ofList l) = some k) : l ≠ [] := by
  rintro rfl
  have hn : TokenKind.ofLexeme? (String.ofList []) = none := by decide
  rw [hn] at h
  cases h

theorem Gap.append {g h : List Char} (hg : Gap g) (hh : Gap h) : Gap (g ++ h) := by
  induction hg with
  | nil => exact hh
  | blank hc _ ih => exact .blank hc ih
  | comment hb _ ih =>
    have := Gap.comment hb ih
    simpa using this

theorem Tiled.prepend {p : Position} {g pre rest : List Char} {ts : List Token} (hg : Gap g)
    (h : Tiled (p.after g) pre ts rest) : Tiled p (g ++ pre) ts rest := by
  cases h with
  | gap hh => exact .gap (hg.append hh)
  | lexeme hh hk hm ht =>
    rw [← Position.after_append] at ht ⊢
    rw [← List.append_assoc] at ht
    have := Tiled.lexeme (hg.append hh) hk hm ht
    simpa using this

theorem exists_tiled (p : Position) (cs : List Char) : ∃ pre ts rest, cs = pre ++ rest ∧
    Tiled p pre ts rest ∧ (rest = [] ∨ ∃ fault, Fails rest fault) := by
  -- what stands in front of the text, a gap or a lexeme, is never empty, so the rest is shorter
  induction hn : cs.length using Nat.strong_induction_on generalizing cs p with
  | _ n ih =>
  subst hn
  cases cs with
  | nil => exact ⟨[], [], [], rfl, .gap .nil, Or.inl rfl⟩
  | cons c cs =>
    -- a gap in front of a tiled rest is part of its first gap
    have gap : ∀ g ds, c :: cs = g ++ ds → g ≠ [] → Gap g → ∃ pre ts rest, c :: cs = pre ++ rest ∧
        Tiled p pre ts rest ∧ (rest = [] ∨ ∃ fault, Fails rest fault) := by
      intro g ds he hne hg
      have hlt : ds.length < (c :: cs).length := by
        have := List.length_pos_iff.mpr hne
        rw [he, List.length_append]
        omega
      obtain ⟨pre, ts, rest, rfl, ht, hr⟩ := ih _ hlt (p.after g) ds rfl
      exact ⟨g ++ pre, ts, rest, by rw [he, List.append_assoc], ht.prepend hg, hr⟩
    by_cases hb : isBlank c = true
    · exact gap [c] cs rfl (List.cons_ne_nil _ _) (.blank hb .nil)
    by_cases hp : c = '(' ∧ cs.head? = some '*'
    · obtain ⟨rfl, hp⟩ := hp
      obtain ⟨cs, rfl⟩ := List.head?_eq_some_iff.mp hp
      by_cases hc : CommentBody cs
      · exact ⟨[], [], _, rfl, .gap .nil, Or.inr ⟨_, .unclosed hc⟩⟩
      · obtain ⟨body, ds, rfl, hbody⟩ := exists_commentBody hc
        refine gap _ ds ?_ (List.cons_ne_nil _ _) (.comment hbody .nil)
        simp
    by_cases hf : Foreign c
    · exact ⟨[], [], _, rfl, .gap .nil, Or.inr ⟨_, .foreign hf⟩⟩
    · obtain ⟨l, k, ds, he, hk, hm⟩ :=
        exists_lexeme (Bool.eq_false_iff.mpr hb) (fun h1 h2 => hp ⟨h1, h2⟩) hf
      have hlt : ds.length < (c :: cs).length := by
        have := List.length_pos_iff.mpr (ofLexeme?_ne_nil hk)
        rw [he, List.length_append]
        omega
      obtain ⟨pre, ts, rest, rfl, ht, hr⟩ := ih _ hlt (p.after ([] ++ l)) ds rfl
      refine ⟨[] ++ l ++ pre, _, rest, ?_, .lexeme .nil hk hm ht, hr⟩
      rw [he, List.nil_append, List.append_assoc]

end Modula

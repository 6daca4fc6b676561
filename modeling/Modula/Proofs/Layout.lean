import Mathlib.Data.List.Chain
import Modula.Proofs.Checker

/-! # Layouts

A layout writes lexemes in a row with a gap before the first and behind every one of them. A gap may
be missing between two lexemes unless they would be read as something else together
(`Lexeme.Merges`). Such a text is tiled as it was written (`exists_tiled_items`), so reading gives
the lexemes back whatever the gaps are (`exists_tokenize_layout`), and the checker, which sees the
kinds alone, finds the same fault in it or none (`check_fault`). -/

namespace Modula
set_option autoImplicit false

open Grammar Goal

/-! ## Lexemes with gaps between them -/

/-- A text that is one token, with its kind. -/
structure Lexeme where
  text : List Char
  kind : TokenKind
  spelled : TokenKind.ofLexeme? (String.ofList text) = some kind

/-- A gap without NUL. -/
structure Filler where
  text : List Char
  gap : Gap text
  nulFree : '\x00' ∉ text

/-- Two lexemes that are read as something else if nothing stands between them. -/
def Lexeme.Merges (a b : Lexeme) : Prop :=
  (isWord a.text = true ∧ (isWord b.text = true ∨ isNumber b.text = true)) ∨
    (isNumber a.text = true ∧ isNumber b.text = true) ∨
    (a.text = ['.'] ∧ (b.text = ['.'] ∨ b.text = ['.', '.'])) ∨
    (a.text = ['('] ∧ b.text = ['*'])

instance Lexeme.decidableMerges (a b : Lexeme) : Decidable (a.Merges b) :=
  inferInstanceAs (Decidable (_ ∨ _))

/-- Lexemes, each with the gap behind it, of which those that merge are kept apart. -/
def Apart (items : List (Lexeme × Filler)) : Prop :=
  items.IsChain fun a b => a.2.text = [] → ¬ a.1.Merges b.1

instance decidableApart (items : List (Lexeme × Filler)) : Decidable (Apart items) :=
  inferInstanceAs (Decidable (List.IsChain _ _))

def itemsText (items : List (Lexeme × Filler)) : List Char :=
  items.flatMap fun i => i.1.text ++ i.2.text

structure Layout where
  lead : Filler
  items : List (Lexeme × Filler)
  apart : Apart items

namespace Layout

def text (L : Layout) : List Char := L.lead.text ++ itemsText L.items

def lexemes (L : Layout) : List Lexeme := L.items.map Prod.fst

end Layout

/-- What a token says without its place. -/
def Token.content (t : Token) : TokenKind × String := (t.kind, t.lexeme)

def Lexeme.content (l : Lexeme) : TokenKind × String := (l.kind, String.ofList l.text)

/-! ## Characters of a layout -/

namespace Lexeme

variable (l : Lexeme)

theorem ne_nil : l.text ≠ [] := ofLexeme?_ne_nil l.spelled

theorem not_isBlank : ∀ c ∈ l.text, isBlank c = false := by
  intro c hc
  rcases ofLexeme?_cases l.spelled with ⟨hw, _⟩ | ⟨hn, _⟩ | hp
  · exact isBlank_of_isAlphanumeric (isAlphanumeric_of_isWord hw c hc)
  · have hd := isDigit_of_isNumber hn c hc
    exact isBlank_of_isAlphanumeric (isAlphanumeric_of_isDigit hd)
  · exact (class_of_mem_punctuation? hp c hc).2

theorem nulFree : '\x00' ∉ l.text := by
  intro hm
  have hb := l.not_isBlank _ hm
  cases hb

end Lexeme

/-! ## Where lexemes of a layout end -/

theorem Gap.head_eq {g : List Char} (h : Gap g) :
    ∀ c ∈ g.head?, isBlank c = true ∨ c = '(' := by
  intro c hc
  cases h with
  | nil => cases hc
  | blank hb _ =>
    cases hc
    exact Or.inl hb
  | comment _ _ =>
    cases hc
    exact Or.inr rfl

theorem maximal_of_gap {l g rest : List Char} (hg : Gap g) (hne : g ≠ []) :
    Maximal l (g ++ rest) := by
  have hh : ∀ c ∈ (g ++ rest).head?,
      Text.isAlphanumeric c = false ∧ c ≠ '.' ∧ c ≠ '*' := by
    intro c hc
    rw [List.head?_append_of_ne_nil g hne] at hc
    rcases hg.head_eq c hc with hb | rfl
    · refine ⟨isAlphanumeric_of_isBlank hb, ?_, ?_⟩
      · rintro rfl
        cases hb
      · rintro rfl
        cases hb
    · decide
  refine ⟨fun _ c hc => (hh c hc).1, fun _ c hc => ?_, fun _ hc => ?_, fun _ hc => ?_⟩
  · exact isDigit_of_not_isAlphanumeric (hh c hc).1
  · exact (hh _ hc).2.1 rfl
  · exact (hh _ hc).2.2 rfl

theorem isDigit_of_head_isWord {l : List Char} {c : Char} (hl : isWord l = true)
    (hc : c ∈ l.head?) : c.isDigit = false := by
  cases l with
  | nil => cases hc
  | cons d l =>
    cases hc
    exact isDigit_of_isAlphabetic (Bool.and_eq_true_iff.mp hl).1

theorem Lexeme.punctuation?_of_head {l : Lexeme} {c : Char} (hc : c ∈ l.text.head?)
    (ha : Text.isAlphanumeric c = false) : TokenKind.punctuation? l.text = some l.kind := by
  have hm : c ∈ l.text := List.mem_of_mem_head? hc
  rcases ofLexeme?_cases l.spelled with ⟨hw, _⟩ | ⟨hn, _⟩ | hp
  · rw [isAlphanumeric_of_isWord hw c hm] at ha
    cases ha
  · rw [isAlphanumeric_of_isDigit (isDigit_of_isNumber hn c hm)] at ha
    cases ha
  · exact hp

theorem Lexeme.text_of_head_dot {l : Lexeme} (h : '.' ∈ l.text.head?) :
    l.text = ['.'] ∨ l.text = ['.', '.'] := by
  have hp := l.punctuation?_of_head h (by decide)
  rcases punctuation?_cases hp with ⟨ht, _⟩ | ⟨ht, _⟩ | ⟨ht, _⟩ | ⟨c, ht, _⟩
  · exact Or.inl ht
  · exact Or.inr ht
  · rw [ht] at h
    exact absurd h (by decide)
  · rw [ht] at h
    cases h
    exact Or.inl ht

theorem Lexeme.text_of_head_star {l : Lexeme} (h : '*' ∈ l.text.head?) : l.text = ['*'] := by
  have hp := l.punctuation?_of_head h (by decide)
  rcases punctuation?_cases hp with ⟨ht, _⟩ | ⟨ht, _⟩ | ⟨ht, _⟩ | ⟨c, ht, _⟩
  · rw [ht] at h
    exact absurd h (by decide)
  · rw [ht] at h
    exact absurd h (by decide)
  · rw [ht] at h
    exact absurd h (by decide)
  · rw [ht] at h
    cases h
    exact ht

theorem maximal_of_not_merges {a b : Lexeme} (h : ¬ a.Merges b) (rest : List Char) :
    Maximal a.text (b.text ++ rest) := by
  have hh : (b.text ++ rest).head? = b.text.head? := List.head?_append_of_ne_nil _ b.ne_nil
  simp only [Lexeme.Merges, not_or, not_and] at h
  obtain ⟨hword, hnumber, hdot, hparen⟩ := h
  rcases ofLexeme?_cases a.spelled with ⟨ha, _⟩ | ⟨ha, _⟩ | ha
  · apply maximal_of_isWord ha
    rw [hh]
    intro c hc
    rcases ofLexeme?_cases b.spelled with ⟨hb, _⟩ | ⟨hb, _⟩ | hb
    -- a word goes on with letters and digits, and only marks start with neither
    · exact absurd hb (hword ha).1
    · exact absurd hb (hword ha).2
    · exact (class_of_mem_punctuation? hb c (List.mem_of_mem_head? hc)).1
  · apply maximal_of_isNumber ha
    rw [hh]
    intro c hc
    rcases ofLexeme?_cases b.spelled with ⟨hb, _⟩ | ⟨hb, _⟩ | hb
    · exact isDigit_of_head_isWord hb hc
    · exact absurd hb (hnumber ha)
    · have hn := (class_of_mem_punctuation? hb c (List.mem_of_mem_head? hc)).1
      exact isDigit_of_not_isAlphanumeric hn
  · apply maximal_of_punctuation? ha
    · intro he hc
      rw [hh] at hc
      rcases Lexeme.text_of_head_dot hc with hb | hb
      · exact (hdot he).1 hb
      · exact (hdot he).2 hb
    · intro he hc
      rw [hh] at hc
      exact hparen he (Lexeme.text_of_head_star hc)

theorem maximal_nil (l : List Char) : Maximal l [] where
  word _ _ hc := by cases hc
  number _ _ hc := by cases hc
  dot _ hc := by cases hc
  paren _ hc := by cases hc

theorem maximal_of_apart {i : Lexeme × Filler} {items : List (Lexeme × Filler)}
    (h : Apart (i :: items)) : Maximal i.1.text (i.2.text ++ itemsText items) := by
  by_cases hf : i.2.text = []
  · rw [hf, List.nil_append]
    cases items with
    | nil => exact maximal_nil _
    | cons j items =>
      have hm : ¬ i.1.Merges j.1 := (List.isChain_cons_cons.mp h).1 hf
      rw [itemsText, List.flatMap_cons, List.append_assoc]
      exact maximal_of_not_merges hm _
  · exact maximal_of_gap i.2.gap hf

/-! ## Reading a layout -/

theorem exists_tiled_items {g : List Char} {items : List (Lexeme × Filler)} (hg : Gap g)
    (h : Apart items) (p : Position) : ∃ ts, Tiled p (g ++ itemsText items) ts [] ∧
      ts.map Token.content = items.map fun i => i.1.content := by
  induction items generalizing g p with
  | nil =>
    refine ⟨[], ?_, rfl⟩
    rw [itemsText, List.flatMap_nil, List.append_nil]
    exact .gap hg
  | cons i items ih =>
    obtain ⟨ts, ht, hc⟩ := ih i.2.gap h.tail (p.after (g ++ i.1.text))
    have hm : Maximal i.1.text (i.2.text ++ itemsText items ++ []) := by
      rw [List.append_nil]
      exact maximal_of_apart h
    refine ⟨⟨i.1.kind, String.ofList i.1.text, p.after g⟩ :: ts, ?_, ?_⟩
    · have hl := Tiled.lexeme hg i.1.spelled hm ht
      rw [List.append_assoc] at hl
      rw [itemsText, List.flatMap_cons, List.append_assoc]
      exact hl
    · rw [List.map_cons, List.map_cons, hc]
      rfl

theorem Layout.nul_not_mem_text (L : Layout) : '\x00' ∉ L.text := by
  intro hm
  rcases List.mem_append.mp hm with hm | hm
  · exact L.lead.nulFree hm
  · obtain ⟨i, _, hi⟩ := List.mem_flatMap.mp hm
    rcases List.mem_append.mp hi with hi | hi
    · exact i.1.nulFree hi
    · exact i.2.nulFree hi

theorem exists_tokenize_layout (L : Layout) : ∃ ts, tokenize L.text = .ok ts ∧
    ts.map Token.content = L.lexemes.map Lexeme.content ++ [(.eof, "")] := by
  obtain ⟨ts, ht, hc⟩ := exists_tiled_items L.lead.gap L.apart .origin
  have hr : Reads .origin (visible L.text) (ts ++ [⟨.eof, "", Position.origin.after L.text⟩]) none := by
    rw [visible_of_not_mem L.nul_not_mem_text]
    exact .whole ht
  refine ⟨_, tokenize_eq_ok_iff.mpr (tokenStream_of_reads hr), ?_⟩
  rw [List.map_append, hc, Layout.lexemes, List.map_map]
  rfl

/-! ## Lexemes with single spaces -/

namespace Filler

def none : Filler := ⟨[], .nil, List.not_mem_nil⟩

def space : Filler := ⟨[' '], .blank rfl .nil, by decide⟩

def comment (body : List Char) (hb : CommentBody body) (hn : '\x00' ∉ body) : Filler where
  text := '(' :: '*' :: (body ++ ['*', ')'])
  gap := .comment hb .nil
  nulFree := by simpa using hn

end Filler

def spacedItems : List Lexeme → List (Lexeme × Filler)
  | [] => []
  | [l] => [(l, .none)]
  | l :: m :: ls => (l, .space) :: spacedItems (m :: ls)

theorem apart_spacedItems (ls : List Lexeme) : Apart (spacedItems ls) := by
  induction ls using spacedItems.induct with
  | case1 => exact .nil
  | case2 l => exact .singleton _
  | case3 l m ls ih =>
    cases ls with
    | nil => exact .cons_cons (fun h => by cases h) ih
    | cons n ls => exact .cons_cons (fun h => by cases h) ih

theorem itemsText_spacedItems (ls : List Lexeme) :
    itemsText (spacedItems ls) = [' '].intercalate (ls.map Lexeme.text) := by
  induction ls using spacedItems.induct with
  | case1 => rfl
  | case2 l => simp [spacedItems, itemsText, Filler.none]
  | case3 l m ls ih =>
    rw [spacedItems, itemsText, List.flatMap_cons, ← itemsText, ih]
    simp [Filler.space]

theorem lexemes_spacedItems (ls : List Lexeme) : (spacedItems ls).map Prod.fst = ls := by
  induction ls using spacedItems.induct with
  | case1 => rfl
  | case2 l => rfl
  | case3 l m ls ih => rw [spacedItems, List.map_cons, ih]

/-- The layout of lexemes with a space between every two of them. -/
def Layout.spaced (ls : List Lexeme) : Layout := ⟨.none, spacedItems ls, apart_spacedItems ls⟩

theorem Layout.text_spaced (ls : List Lexeme) :
    (spaced ls).text = [' '].intercalate (ls.map Lexeme.text) := itemsText_spacedItems ls

theorem Layout.lexemes_spaced (ls : List Lexeme) : (spaced ls).lexemes = ls :=
  lexemes_spacedItems ls

theorem exists_lexemes {ts : List Token}
    (h : ∀ t ∈ ts, TokenKind.ofLexeme? t.lexeme = some t.kind) :
    ∃ ls : List Lexeme, ls.map Lexeme.content = ts.map Token.content ∧
      ls.map Lexeme.text = ts.map fun t => t.lexeme.toList := by
  induction ts with
  | nil => exact ⟨[], rfl, rfl⟩
  | cons t ts ih =>
    rw [List.forall_mem_cons] at h
    obtain ⟨ls, hc, ht⟩ := ih h.2
    have hs : TokenKind.ofLexeme? (String.ofList t.lexeme.toList) = some t.kind := by
      rw [String.ofList_toList]
      exact h.1
    refine ⟨⟨t.lexeme.toList, t.kind, hs⟩ :: ls, ?_, ?_⟩
    · rw [List.map_cons, List.map_cons, hc, Lexeme.content, String.ofList_toList]
      rfl
    · rw [List.map_cons, List.map_cons, ht]

theorem tokenize_spaced {cs : List Char} {ts : List Token} (h : tokenize cs = .ok ts) :
    ∃ us, tokenize ([' '].intercalate
      ((ts.filter (·.kind ≠ .eof)).map fun t => t.lexeme.toList)) = .ok us ∧
      us.map Token.content = ts.map Token.content := by
  have hr := tokenStream_eq_iff.mp (tokenize_eq_ok_iff.mp h)
  cases hr with
  | @whole ls ht =>
    obtain ⟨xs, hc, hx⟩ := exists_lexemes fun t hm => ht.kind_of_mem hm
    have hk : ∀ t ∈ ls, decide (t.kind ≠ .eof) = true := by
      intro t hm
      exact decide_eq_true (ofLexeme?_ne (ht.kind_of_mem hm)).1
    obtain ⟨us, hu, he⟩ := exists_tokenize_layout (.spaced xs)
    rw [Layout.text_spaced, hx] at hu
    rw [Layout.lexemes_spaced, hc] at he
    refine ⟨us, ?_, ?_⟩
    · rw [List.filter_append, List.filter_eq_self.mpr hk]
      simpa using hu
    · rw [he, List.map_append]
      rfl

/-! ## Checking a layout -/

variable {gs : List Goal} {ts us : List Token}

/-- What goals find wrong with tokens depends on the kinds alone. -/
theorem feedTokens_fault (h : kinds ts = kinds us) :
    (feedTokens gs ts).mapError Diagnostic.fault = (feedTokens gs us).mapError Diagnostic.fault := by
  induction ts generalizing gs us with
  | nil =>
    cases us with
    | nil => rfl
    | cons u us => cases h
  | cons t ts ih =>
    cases us with
    | nil => cases h
    | cons u us =>
      obtain ⟨hk, hr⟩ := List.cons.inj h
      rw [feedTokens, feedTokens, hk]
      cases feed gs u.kind with
      | error e => rfl
      | ok next => exact ih hr

theorem verdict_fault (h : kinds ts = kinds us) :
    (verdict gs ts none).mapError Diagnostic.fault =
      (verdict gs us none).mapError Diagnostic.fault := by
  have hv : ∀ vs, (verdict gs vs none).mapError Diagnostic.fault =
      ((feedTokens gs vs).mapError Diagnostic.fault).bind fun _ => .ok () := by
    intro vs
    rw [verdict]
    cases feedTokens gs vs <;> rfl
  rw [hv, hv, feedTokens_fault h]

theorem kinds_of_content (h : ts.map Token.content = us.map Token.content) :
    kinds ts = kinds us := by
  have he := congrArg (List.map Prod.fst) h
  rw [List.map_map, List.map_map] at he
  exact he

theorem check_fault {cs ds : List Char} (hc : tokenize cs = .ok ts) (hd : tokenize ds = .ok us)
    (h : ts.map Token.content = us.map Token.content) :
    (check cs).mapError Diagnostic.fault = (check ds).mapError Diagnostic.fault := by
  rw [check_eq_verdict, check_eq_verdict, tokenize_eq_ok_iff.mp hc, tokenize_eq_ok_iff.mp hd]
  exact verdict_fault (kinds_of_content h)

/-- Reading gives back what was written, whatever the gaps are: the lexemes of a layout and the end
of the text; so those of any text from a text with single spaces between them, and the same fault of
any two layouts of the same lexemes. -/
theorem layout_round_trip :
    (∀ L : Layout, ∃ ts, tokenize L.text = .ok ts ∧
      ts.map Token.content = L.lexemes.map Lexeme.content ++ [(.eof, "")]) ∧
    (∀ cs ts, tokenize cs = .ok ts → ∃ us,
      tokenize ([' '].intercalate
        ((ts.filter (·.kind ≠ .eof)).map fun t => t.lexeme.toList)) = .ok us ∧
      us.map Token.content = ts.map Token.content) ∧
    (∀ L M : Layout, L.lexemes = M.lexemes →
      (check L.text).mapError Diagnostic.fault = (check M.text).mapError Diagnostic.fault) := by
  refine ⟨exists_tokenize_layout, fun cs ts h => tokenize_spaced h, fun L M h => ?_⟩
  obtain ⟨ts, ht, hc⟩ := exists_tokenize_layout L
  obtain ⟨us, hu, he⟩ := exists_tokenize_layout M
  rw [← h, ← hc] at he
  exact check_fault ht hu he.symm

def missingBracket : Layout where
  lead := .none
  items :=
    [(⟨"VAR".toList, .var, by decide⟩, .space), (⟨['i'], .ident, by decide⟩, .none),
      (⟨[':'], .colon, by decide⟩, .none), (⟨['['], .lbracket, by decide⟩, .none),
      (⟨['0'], .number, by decide⟩, .none), (⟨['.', '.'], .dotdot, by decide⟩, .none),
      (⟨['9'], .number, by decide⟩, .comment ['n'] (by decide) (by decide)),
      (⟨[';'], .semicolon, by decide⟩, .none)]
  apart := by decide

theorem layout_round_trip_missing_bracket :
    (∃ ts, tokenize "VAR i:[0..9(*n*);".toList = .ok ts ∧ ts.map Token.content =
      [(.var, "VAR"), (.ident, "i"), (.colon, ":"), (.lbracket, "["), (.number, "0"),
        (.dotdot, ".."), (.number, "9"), (.semicolon, ";"), (.eof, "")]) ∧
    (∃ us, tokenize "0 .. 9".toList = .ok us ∧
      us.map Token.content = [(.number, "0"), (.dotdot, ".."), (.number, "9"), (.eof, "")]) ∧
    (check "VAR i:[0..9(*n*);".toList).mapError Diagnostic.fault =
      (check "VAR i : [ 0 .. 9 ;".toList).mapError Diagnostic.fault := by
  obtain ⟨hl, hs, hc⟩ := layout_round_trip
  refine ⟨hl missingBracket, ?_,
    hc missingBracket (.spaced missingBracket.lexemes) (Layout.lexemes_spaced _).symm⟩
  exact hs "0..9".toList [⟨.number, "0", ⟨1, 1⟩⟩, ⟨.dotdot, "..", ⟨1, 2⟩⟩, ⟨.number, "9", ⟨1, 4⟩⟩,
    ⟨.eof, "", ⟨1, 5⟩⟩] (by decide +kernel)

end Modula

import Modula.Proofs.Grammar.Goal
import Modula.Proofs.Grammar.Rows

/-! # One kind of lookahead

A goal stands for a form (`Goal.form`), a stack of goals for a row of forms. `Goal.first`,
`Goal.follow` and `Goal.nullable` are the sets of the theory of lookahead: the kinds that a goal
takes, those that may come behind it, and whether it may be met by nothing.

* `meets_form_cons`: the next kind says what becomes of the topmost goal.
* `first_disjoint_follow`: a goal that may be met by nothing takes no kind that may come behind it. -/

namespace Modula.Grammar
set_option autoImplicit false

namespace Goal

/-! ## What goals stand for -/

/-- The form that the rest of a text has to have for a goal. -/
def form : Goal → Form
  | token k => .terminal k
  | sections => .nonterminal .declarations
  | typeDecls => .repeated (.row (.nonterminal .typeDecl) [.terminal .semicolon])
  | varDecls => .repeated (.row (.nonterminal .varDecl) [.terminal .semicolon])
  | type => .nonterminal .type
  | simpleType => .nonterminal .simpleType
  | qualifiers => .repeated (.row (.terminal .dot) [.terminal .ident])
  | bounds => .optional (.nonterminal .subrange)
  | constant => .nonterminal .constant
  | moreNames => .repeated (.row (.terminal .comma) [.terminal .ident])
  | moreIndices => .repeated (.row (.terminal .comma) [.nonterminal .simpleType])
  | fields => .nonterminal .fieldList
  | moreFields => .repeated (.row (.terminal .semicolon) [.nonterminal .fieldList])

def forms (goals : List Goal) : List Form := goals.map form

@[simp] theorem forms_cons (g : Goal) (gs : List Goal) : forms (g :: gs) = g.form :: forms gs := rfl

@[simp] theorem forms_append (gs hs : List Goal) : forms (gs ++ hs) = forms gs ++ forms hs :=
  List.map_append

/-- Whether a goal may be met without any token. -/
def nullable : Goal → Bool
  | typeDecls | varDecls | qualifiers | bounds | moreNames | moreIndices | fields | moreFields =>
    true
  | token _ | sections | type | simpleType | constant => false

variable {fs : List Form} {w : List TokenKind} {k : TokenKind}

theorem derives_nil {g : Goal} (hg : g.nullable = true) : Derives g.form [] := by
  cases g with
  | token _ | sections | type | simpleType | constant => cases hg
  | bounds => exact .absent
  | fields => exact .nonterminal .absent
  | _ => exact .done

theorem exists_derives (g : Goal) : ∃ v, Derives g.form v := by
  have hq : Derives (.nonterminal .qualIdent) [.ident] :=
    .nonterminal (.both (.terminal .ident) .done)
  have hs : Derives simpleType.form [.ident] := .nonterminal (.left (.both hq .absent))
  cases g with
  | token k => exact ⟨[k], .terminal k⟩
  | sections => exact ⟨[.eof], .nonterminal (.both .done (.terminal .eof))⟩
  | type => exact ⟨[.ident], .nonterminal (.left hs)⟩
  | simpleType => exact ⟨[.ident], hs⟩
  | constant => exact ⟨[.ident], .nonterminal (.right (.terminal .ident))⟩
  | _ => exact ⟨[], derives_nil rfl⟩

/-! ## One goal, one kind

The two nonterminals with several alternatives are opened once here; after that each goal is a case
of its own. -/

theorem meets_identList : Meets (.nonterminal .identList :: fs) w ↔
    Meets (forms [token .ident, moreNames] ++ fs) w := by
  rw [meets_nonterminal, rule, meets_row]
  rfl

theorem meets_subrange : Meets (.nonterminal .subrange :: fs) (k :: w) ↔
    k = .lbracket ∧ Meets (forms afterBracket ++ fs) w := by
  rw [meets_nonterminal, rule, meets_row, meets_terminal_cons]
  rfl

theorem meets_simpleType : Meets (.nonterminal .simpleType :: fs) (k :: w) ↔
    ∃ new, afterSimple? k = some new ∧ Meets (forms new ++ fs) w := by
  rw [meets_nonterminal]
  simp only [rule, meets_either, meets_row, meets_subrange, List.cons_append, List.nil_append]
  rw [meets_nonterminal (n := .qualIdent), meets_nonterminal (n := .enumeration)]
  simp only [rule, meets_row, meets_terminal_cons, List.cons_append, meets_identList]
  cases k <;> simp [afterSimple?, forms, form]

theorem meets_arrayType : Meets (.nonterminal .arrayType :: fs) (k :: w) ↔
    k = .array ∧ Meets (forms [simpleType, moreIndices, token .of, type] ++ fs) w := by
  rw [meets_nonterminal, rule, meets_row, meets_terminal_cons]
  rfl

theorem meets_recordType : Meets (.nonterminal .recordType :: fs) (k :: w) ↔
    k = .record ∧ Meets (forms [fields, moreFields, token .endKeyword] ++ fs) w := by
  rw [meets_nonterminal, rule, meets_row, meets_terminal_cons]
  simp only [List.cons_append, meets_nonterminal (n := .fieldLists), rule, meets_row]
  rfl

theorem meets_setType : Meets (.nonterminal .setType :: fs) (k :: w) ↔
    k = .set ∧ Meets (forms [token .of, simpleType] ++ fs) w := by
  rw [meets_nonterminal, rule, meets_row, meets_terminal_cons]
  rfl

theorem meets_pointerType : Meets (.nonterminal .pointerType :: fs) (k :: w) ↔
    k = .pointer ∧ Meets (forms [token .toKeyword, type] ++ fs) w := by
  rw [meets_nonterminal, rule, meets_row, meets_terminal_cons]
  rfl

theorem meets_declaration : Meets (.nonterminal .declaration :: fs) (k :: w) ↔
    (k = .type ∧ Meets (forms [typeDecls] ++ fs) w) ∨
      (k = .var ∧ Meets (forms [varDecls] ++ fs) w) := by
  rw [meets_nonterminal, rule, meets_either, meets_row, meets_row, meets_terminal_cons,
    meets_terminal_cons]
  rfl

theorem meets_sections : Meets (sections.form :: fs) w ↔
    Meets (.repeated (.nonterminal .declaration) :: .terminal .eof :: fs) w := by
  rw [form, meets_nonterminal, rule, meets_row]
  rfl

/-- What a kind in front of a text means for the topmost goal: the goal is met by nothing and leaves
the kind to the others, or it takes the kind. -/
theorem meets_form_cons (g : Goal) : Meets (g.form :: fs) (k :: w) ↔
    (g.nullable = true ∧ Meets fs (k :: w)) ∨
      (∃ new, g.move k = .take new ∧ Meets (forms new ++ fs) w) := by
  cases g with
  | token c =>
    by_cases h : k = c <;> simp [form, move, nullable, forms, h]
  | sections =>
    rw [meets_sections, meets_repeated, meets_declaration, meets_terminal_cons]
    have hf : ∀ g : Goal, Meets (g.form :: .repeated (.nonterminal .declaration) ::
        .terminal .eof :: fs) w ↔ Meets (g.form :: sections.form :: fs) w :=
      fun g => meets_congr_tail fun _ => meets_sections.symm
    cases k <;> simp [move, nullable, forms, hf]
  | typeDecls =>
    rw [form, meets_repeated, meets_row, meets_nonterminal, rule, meets_row, meets_terminal_cons]
    cases k <;> simp [move, nullable, forms, form]
  | varDecls =>
    rw [form, meets_repeated, meets_row, meets_nonterminal, rule, meets_row, meets_identList]
    cases k <;> simp [move, nullable, forms, form]
  | type =>
    rw [form, meets_nonterminal]
    simp only [rule, meets_either, meets_simpleType, meets_arrayType, meets_recordType,
      meets_setType, meets_pointerType]
    cases k <;> simp [move, nullable, afterStructured?, afterSimple?]
  | simpleType =>
    rw [form, meets_simpleType]
    cases k <;> simp [move, nullable, afterSimple?]
  | qualifiers =>
    rw [form, meets_repeated, meets_row, meets_terminal_cons]
    cases k <;> simp [move, nullable, forms, form]
  | bounds =>
    rw [form, meets_optional, meets_subrange]
    cases k <;> simp [move, nullable]
  | constant =>
    rw [form, meets_nonterminal, rule, meets_either, meets_terminal_cons, meets_terminal_cons]
    cases k <;> simp [move, nullable, forms]
  | moreNames =>
    rw [form, meets_repeated, meets_row, meets_terminal_cons]
    cases k <;> simp [move, nullable, forms, form]
  | moreIndices =>
    rw [form, meets_repeated, meets_row, meets_terminal_cons]
    cases k <;> simp [move, nullable, forms, form]
  | fields =>
    rw [form, meets_nonterminal, rule, meets_optional, meets_row, meets_identList]
    cases k <;> simp [move, nullable, forms, form]
  | moreFields =>
    rw [form, meets_repeated, meets_row, meets_terminal_cons]
    cases k <;> simp [move, nullable, forms, form]

theorem nullable_of_pass {g : Goal} (h : g.move k = .pass) : g.nullable = true := by
  cases g <;> cases k <;> simp [move, nullable, afterStructured?, afterSimple?] at h ⊢
  all_goals split at h <;> cases h

theorem move_ne_fail {g : Goal} {e : Expectation} (hg : g.nullable = true) :
    g.move k ≠ .fail e := by
  cases g <;> cases k <;> simp [move, nullable] at hg ⊢

/-! ## First and follow -/

/-- The kinds that a goal takes. -/
def first : Goal → List TokenKind
  | token k => [k]
  | sections => [.type, .var, .eof]
  | typeDecls | varDecls | fields => [.ident]
  | type => [.ident, .lparen, .lbracket, .array, .record, .set, .pointer]
  | simpleType => [.ident, .lparen, .lbracket]
  | qualifiers => [.dot]
  | bounds => [.lbracket]
  | constant => [.number, .ident]
  | moreNames | moreIndices => [.comma]
  | moreFields => [.semicolon]

/-- The kinds that may come behind a goal. What comes behind a goal that always takes a fixed number
of tokens does not matter. -/
def follow : Goal → List TokenKind
  | token _ | constant => TokenKind.all
  | sections => []
  | typeDecls | varDecls => [.type, .var, .eof]
  | type | fields => [.semicolon, .endKeyword]
  | simpleType | bounds => [.comma, .of, .semicolon, .endKeyword]
  | qualifiers => [.lbracket, .comma, .of, .semicolon, .endKeyword]
  | moreNames => [.colon, .rparen]
  | moreIndices => [.of]
  | moreFields => [.endKeyword]

theorem mem_first_of_take {g : Goal} {new : List Goal} (h : g.move k = .take new) :
    k ∈ g.first := by
  cases g with
  | token c =>
    by_cases hk : k = c
    · simp [first, hk]
    · simp [move, hk] at h
  | _ => cases k <;> simp [move, first, afterStructured?, afterSimple?] at h ⊢

theorem first_disjoint_follow {g : Goal} (hg : g.nullable = true) (hk : k ∈ g.first) :
    k ∉ g.follow := by
  cases g <;> simp [nullable, first, follow] at hg hk ⊢ <;> simp [hk]

end Goal
end Modula.Grammar

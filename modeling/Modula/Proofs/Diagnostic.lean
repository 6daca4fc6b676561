import Modula.Proofs.Echo
import Modula.Proofs.Grammar.Expected

/-! # What diagnostics say

The message of a syntax fault names kinds of tokens (`Names`). It is sound: each of these kinds could
have come in place of the token at fault. And it says nothing about that token: the kinds of the
tokens before it decide what is expected (`diagnostic_sound`). -/

namespace Modula
set_option autoImplicit false

open Grammar Goal

/-! ## Messages -/

namespace Expectation

def all : List Expectation :=
  [declaration, type, simpleType, constant] ++ TokenKind.all.map token

theorem mem_all (e : Expectation) : e ∈ all := by
  cases e with
  | token k => exact List.mem_append_right _ (List.mem_map_of_mem (TokenKind.mem_all k))
  | _ => decide

theorem message_injective {e e' : Expectation} (h : e.message = e'.message) : e = e' := by
  have hall : ∀ e ∈ all, ∀ e' ∈ all, e.message = e'.message → e = e' := by decide +kernel
  exact hall e (mem_all e) e' (mem_all e') h

end Expectation

/-- The message of some expectation that a token of kind `k` meets or begins to meet. -/
def Names (message : String) (k : TokenKind) : Prop :=
  ∃ e : Expectation, e.message = message ∧ e.kinds.contains k = true

theorem names_message_iff {e : Expectation} {k : TokenKind} :
    Names e.message k ↔ ∃ w, Derives e.form (k :: w) := by
  rw [← e.contains_kinds_iff]
  constructor
  · intro hx
    obtain ⟨e', hm, hk⟩ := hx
    rw [← Expectation.message_injective hm]
    exact hk
  · intro hk
    exact ⟨e, rfl, hk⟩

theorem exists_names (e : Expectation) : ∃ k, Names e.message k := by
  cases e with
  | token k => exact ⟨k, names_message_iff.mpr ⟨[], .terminal k⟩⟩
  | declaration => exact ⟨.var, .declaration, rfl, by decide⟩
  | type => exact ⟨.ident, .type, rfl, by decide⟩
  | simpleType => exact ⟨.ident, .simpleType, rfl, by decide⟩
  | constant => exact ⟨.ident, .constant, rfl, by decide⟩

/-! ## The token at fault -/

/-- The first token of a text up to which its kinds are viable no more is `t`, and `before` are the
tokens before it. -/
structure RejectedAt (cs : List Char) (before : List Token) (t : Token) : Prop where
  tokens : before ++ [t] <+: (tokenStream cs).1
  viable : Viable (kinds before)
  unviable : ¬ Viable (kinds before ++ [t.kind])

variable {cs : List Char} {before before' : List Token} {t t' : Token} {d : Diagnostic}

theorem kinds_append (ts us : List Token) : kinds (ts ++ us) = kinds ts ++ kinds us :=
  List.map_append

theorem RejectedAt.length_le (h : RejectedAt cs before t) (h' : RejectedAt cs before' t') :
    before'.length ≤ before.length := by
  by_contra hlt
  -- otherwise the token at fault would stand in the viable row before the other one
  have hp : before ++ [t] <+: before' := by
    apply List.prefix_of_prefix_length_le h.tokens ((List.prefix_append _ _).trans h'.tokens)
    rw [List.length_append, List.length_singleton]
    omega
  obtain ⟨after, rfl⟩ := hp
  have hv := h'.viable
  rw [kinds_append, kinds_append] at hv
  exact h.unviable hv.of_append

theorem RejectedAt.unique (h : RejectedAt cs before t) (h' : RejectedAt cs before' t') :
    before = before' := by
  have hl := Nat.le_antisymm (h'.length_le h) (h.length_le h')
  have hb := (List.prefix_append before [t]).trans h.tokens
  have hb' := (List.prefix_append before' [t']).trans h'.tokens
  exact (List.prefix_of_prefix_length_le hb hb' hl.le).eq_of_length hl

/-- The end of a text is its last token. -/
theorem Reads.eof_not_mem {p : Position} {u : List Char} {after : List Token}
    {fault : Option Diagnostic} (h : Reads p u (before ++ t :: after) fault) :
    TokenKind.eof ∉ kinds before := by
  induction before generalizing p u with
  | nil => simp [kinds]
  | cons s before ih =>
    obtain ⟨_, _, _, _, hr, he⟩ := h.of_cons
    have hs : s.kind ≠ .eof := by
      intro hk
      have hn := (he hk).1
      simp at hn
    rw [kinds, List.map_cons, List.mem_cons, not_or]
    exact ⟨Ne.symm hs, ih (hr hs)⟩

theorem Reads.fault_stage {p : Position} {u : List Char} {ts : List Token}
    (h : Reads p u ts (some d)) : d.stage = .lexical := by
  cases h with
  | faulty _ _ hf => exact hf.stage

/-- A syntax fault is what the goals that are left behind the tokens before it expected. -/
theorem exists_rejectedAt (h : check cs = .error d) (hs : d.stage = .syntactic) :
    ∃ before t mid e, RejectedAt cs before t ∧ TokenKind.eof ∉ kinds before ∧
      Fed [.sections] (kinds before) mid ∧ feed mid t.kind = .error e ∧
      d = ⟨.expected e, t.position⟩ := by
  have hr := reads_tokenStream cs
  rw [check_eq_verdict] at h
  unfold verdict at h
  cases hf : feedTokens [.sections] (tokenStream cs).1 with
  | error d' =>
    rw [hf] at h
    cases h
    obtain ⟨before, t, after, mid, e, ht, hb, he, hd⟩ := feedTokens_error hf
    rw [ht] at hr
    refine ⟨before, t, mid, e, ⟨?_, viable_iff_fed.mpr ⟨mid, hb⟩, ?_⟩, hr.eof_not_mem, hb, he, hd⟩
    · exact ⟨after, by rw [ht, List.append_assoc]; rfl⟩
    · intro hv
      obtain ⟨next, hn⟩ := hb.viable_snoc_iff.mp hv
      rw [he] at hn
      cases hn
  | ok rest =>
    rw [hf] at h
    cases hq : (tokenStream cs).2 with
    | none =>
      rw [hq] at h
      cases h
    | some d' =>
      rw [hq] at h hr
      cases h
      rw [hr.fault_stage] at hs
      cases hs

/-! ## Soundness -/

theorem viable_of_names {k : TokenKind} (h : check cs = .error d) (hs : d.stage = .syntactic)
    (hr : RejectedAt cs before t) (hk : Names d.message k) : Viable (kinds before ++ [k]) := by
  obtain ⟨before', t', mid, e, hr', hv, hb, he, rfl⟩ := exists_rejectedAt h hs
  rw [hr.unique hr']
  obtain ⟨w, hw⟩ := names_message_iff.mp hk
  have hx : Viable (kinds before' ++ (k :: w)) := hb.viable_expected hv he hw
  rw [← List.singleton_append, ← List.append_assoc] at hx
  exact hx.of_append

theorem fault_eq_of_kinds {ds : List Char} {d' : Diagnostic} (h : check cs = .error d)
    (hs : d.stage = .syntactic) (h' : check ds = .error d') (hs' : d'.stage = .syntactic)
    (hr : RejectedAt cs before t) (hr' : RejectedAt ds before' t')
    (hk : kinds before = kinds before') : d.fault = d'.fault := by
  obtain ⟨b, u, mid, e, hb, _, hf, he, rfl⟩ := exists_rejectedAt h hs
  obtain ⟨b', u', mid', e', hb', _, hf', he', rfl⟩ := exists_rejectedAt h' hs'
  rw [hr.unique hb, hr'.unique hb'] at hk
  rw [hk] at hf
  obtain rfl := hf.unique hf'
  rw [feed_error_unique he he']

/-- The diagnostics of syntax faults. The kinds that an expectation names are those with which what
it asks for can start. A text that is rejected for its syntax is so at its first token up to which
no sentence starts with its kinds; its message names some kind, and behind the kinds before that
token every kind that it names is viable. Two such texts with the same kinds before that token have
the same message. -/
theorem diagnostic_sound :
    (∀ (e : Expectation) (k : TokenKind),
      e.kinds.contains k = true ↔ ∃ w, Derives e.form (k :: w)) ∧
    (∀ (cs : List Char) (d : Diagnostic), check cs = .error d → d.stage = .syntactic →
      ∃ before t, RejectedAt cs before t ∧ d.position = t.position ∧ (∃ k, Names d.message k) ∧
        ∀ k, Names d.message k → Viable (kinds before ++ [k])) ∧
    (∀ (cs ds : List Char) (d d' : Diagnostic) (before before' : List Token) (t t' : Token),
      check cs = .error d → d.stage = .syntactic → check ds = .error d' → d'.stage = .syntactic →
      RejectedAt cs before t → RejectedAt ds before' t' → kinds before = kinds before' →
      d.message = d'.message) := by
  refine ⟨Expectation.contains_kinds_iff, fun cs d h hs => ?_, ?_⟩
  · obtain ⟨before, t, mid, e, hr, _, _, _, hd⟩ := exists_rejectedAt h hs
    refine ⟨before, t, hr, by rw [hd], ?_, fun k hk => viable_of_names h hs hr hk⟩
    rw [hd]
    exact exists_names e
  · intro cs ds d d' before before' t t' h hs h' hs' hr hr' hk
    exact congrArg Fault.message (fault_eq_of_kinds h hs h' hs' hr hr' hk)

theorem diagnostic_sound_missing_colon :
    Viable [.var, .ident, .colon] ∧
    (∃ d d', check "VAR x y;".toList = .error d ∧ check "VAR z\n= 3".toList = .error d' ∧
      d.message = ": expected" ∧ d'.message = d.message) := by
  have hx : check "VAR x y;".toList = .error ⟨.expected (.token .colon), ⟨1, 7⟩⟩ := by
    decide +kernel
  have hz : check "VAR z\n= 3".toList = .error ⟨.expected (.token .colon), ⟨2, 1⟩⟩ := by
    decide +kernel
  have hrx : RejectedAt "VAR x y;".toList [⟨.var, "VAR", ⟨1, 1⟩⟩, ⟨.ident, "x", ⟨1, 5⟩⟩]
      ⟨.ident, "y", ⟨1, 7⟩⟩ := ⟨by decide +kernel, by decide +kernel, by decide +kernel⟩
  have hrz : RejectedAt "VAR z\n= 3".toList [⟨.var, "VAR", ⟨1, 1⟩⟩, ⟨.ident, "z", ⟨1, 5⟩⟩]
      ⟨.equals, "=", ⟨2, 1⟩⟩ := ⟨by decide +kernel, by decide +kernel, by decide +kernel⟩
  obtain ⟨_, hsound, hsame⟩ := diagnostic_sound
  refine ⟨?_, _, _, hx, hz, rfl, hsame _ _ _ _ _ _ _ _ hz rfl hx rfl hrz hrx rfl⟩
  obtain ⟨before, t, hr, _, _, hv⟩ := hsound _ _ hx rfl
  rw [hr.unique hrx] at hv
  exact hv .colon ⟨.token .colon, rfl, by decide⟩

end Modula

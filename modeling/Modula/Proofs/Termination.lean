import Modula.Proofs.Online
import Modula.Proofs.Resumption
import Modula.Proofs.Token.Repetition

/-! # Reading comes to an end

Every call for a token that gives one other than the end goes past a character of the text
(`At.left_lt`), so a text of `n` characters has at most `n + 1` tokens, its end included
(`Reads.length_le`).

The procedures of a checker end because each goes on from a token behind those that it was called
at. Taken as goals they look at one after the other. A goal that does not take the token in front of
it is dropped, and only one that takes it leaves others in its place. `Checker.Spends` is the run of
a checker, look by look, with both counted: the looks at goals and the calls for tokens.

* `Spends.eq_pursue`, `exists_spends`: every run is one of these, and of no other result.
* `Spends.calls_eq`: the calls are those that the checker itself has counted.
* `Spends.calls_le`: the calls are paid by the characters of the text.
* `Spends.looks_le`: the looks are paid by the goals on the stack and by the calls, since a token
  brings at most five new goals.
* `reading_ends`: both for a whole check, beside the progress of each call for a token. -/

namespace Modula
set_option autoImplicit false

open Grammar Goal

/-! ## Characters that are left -/

namespace Cursor

variable {κ : Type} {c d : Cursor κ} {u : List Char} {p : Position} {t : Token}

/-- The characters from the cursor on. -/
def left (c : Cursor κ) : List Char := c.current.toList ++ c.unread

theorem At.left_eq (h : c.At u p) : c.left = u := by
  rw [left, h.current, h.unread]
  cases u <;> rfl

theorem Asks.asked_le {n : Nat} (h : Asks n u c) : c.source.asked ≤ n + u.length + 1 := by
  unfold Asks at h
  split at h <;> omega

variable [Sink κ]

theorem At.left_suffix (h : c.At u p) (hr : Reaches c d) : d.left <:+ u := by
  obtain ⟨seen, rest, rfl, hd⟩ := h.of_reaches hr
  rw [hd.left_eq]
  exact List.suffix_append seen rest

theorem At.left_lt (h : c.At u p) (ht : c.nextToken.1 = .ok t) (hk : t.kind ≠ .eof) :
    c.nextToken.2.left.length < u.length := by
  obtain ⟨rest, q, hturn, ha⟩ := h.turn
  rw [ht] at hturn
  rw [ha.left_eq]
  cases hturn with
  | token _ hl => exact hl
  | ended he => exact absurd he hk

end Cursor

theorem Reads.length_le {p : Position} {u : List Char} {ts : List Token}
    {fault : Option Diagnostic} (h : Reads p u ts fault) : ts.length ≤ u.length + 1 := by
  induction ts generalizing p u with
  | nil => exact Nat.zero_le _
  | cons t ts ih =>
    rcases h.cases with ⟨g, l, rest, k, ts', _, hk, _, rfl, hts, hr⟩ | ⟨_, hts, _⟩ |
      ⟨_, _, _, _, _, _, hts, _⟩
    · obtain ⟨-, rfl⟩ := List.cons.inj hts
      have hl : 0 < l.length := List.length_pos_iff.mpr (ofLexeme?_ne_nil hk)
      have hn := ih hr
      simp only [List.length_cons, List.length_append]
      omega
    · obtain ⟨-, rfl⟩ := List.cons.inj hts
      simp
    · cases hts

/-! ## Looks at goals -/

namespace Grammar

variable {g : Goal} {gs new rest : List Goal} {k : TokenKind} {e : Expectation}

theorem feed_eq_ok (h : feed gs k = .ok rest) :
    ∃ dropped g below new, gs = dropped ++ g :: below ∧ (∀ g' ∈ dropped, g'.move k = .pass) ∧
      g.move k = .take new ∧ rest = new ++ below := by
  induction gs with
  | nil => cases h
  | cons g gs ih =>
    rcases feed_cases h with ⟨new, hm, rfl⟩ | ⟨hm, hf⟩
    · exact ⟨[], g, gs, new, rfl, by simp, hm, rfl⟩
    · obtain ⟨dropped, g', below, new, rfl, hd, ht, hr⟩ := ih hf
      exact ⟨g :: dropped, g', below, new, rfl, List.forall_mem_cons.mpr ⟨hm, hd⟩, ht, hr⟩

theorem feed_eq_error (h : feed gs k = .error e) :
    ∃ dropped below, gs = dropped ++ below ∧ (∀ g' ∈ dropped, g'.move k = .pass) ∧
      ((below = [] ∧ e = .token .eof) ∨ ∃ g gs', below = g :: gs' ∧ g.move k = .fail e) := by
  induction gs with
  | nil =>
    cases h
    exact ⟨[], [], rfl, by simp, .inl ⟨rfl, rfl⟩⟩
  | cons g gs ih =>
    cases hm : g.move k with
    | take new =>
      rw [feed_of_take hm] at h
      cases h
    | pass =>
      rw [feed_of_pass hm] at h
      obtain ⟨dropped, below, rfl, hd, he⟩ := ih h
      exact ⟨g :: dropped, below, rfl, List.forall_mem_cons.mpr ⟨hm, hd⟩, he⟩
    | fail f =>
      rw [feed_of_fail hm] at h
      cases h
      exact ⟨[], g :: gs, rfl, by simp, .inr ⟨g, gs, rfl, hm⟩⟩

theorem length_le_of_take (h : g.move k = .take new) : new.length ≤ 5 := by
  cases g with
  | token c =>
    by_cases hk : k = c
    · simp only [move, if_pos hk] at h
      cases h
      exact Nat.zero_le _
    · simp [move, hk] at h
  | _ => cases k <;> cases h <;> decide

end Grammar

/-! ## The run of a checker -/

namespace Checker

variable {κ : Type} [Sink κ] {s : Checker κ} {gs : List Goal} {looks calls : Nat}
  {r : Except Diagnostic Unit × Checker κ}

/-- `Spends gs s looks calls r`: pursuing the goals `gs` the checker `s` looks at a goal `looks`
times, calls for a token `calls` times and comes to `r`. -/
inductive Spends : List Goal → Checker κ → Nat → Nat → Except Diagnostic Unit × Checker κ → Prop where
  | bare {s : Checker κ} :
      Spends [] s 0 0 (.error ⟨.expected (.token .eof), s.lookahead.position⟩, s)
  | fail {s : Checker κ} {g : Goal} {gs : List Goal} {e : Expectation} :
      g.move s.lookahead.kind = .fail e →
      Spends (g :: gs) s 1 0 (.error ⟨.expected e, s.lookahead.position⟩, s)
  | drop {s : Checker κ} {g : Goal} {gs : List Goal} {looks calls : Nat}
      {r : Except Diagnostic Unit × Checker κ} :
      g.move s.lookahead.kind = .pass → Spends gs s looks calls r →
      Spends (g :: gs) s (looks + 1) calls r
  | fault {s : Checker κ} {g : Goal} {gs new : List Goal} {d : Diagnostic} {c : Cursor κ} :
      g.move s.lookahead.kind = .take new →
      (noteSection s.cursor s.lookahead).nextToken = (.error d, c) →
      Spends (g :: gs) s 1 1 (.error d, ⟨c, s.lookahead, s.calls + 1⟩)
  | done {s : Checker κ} {g : Goal} {gs new : List Goal} {t : Token} {c : Cursor κ} :
      g.move s.lookahead.kind = .take new → s.lookahead.kind = .eof →
      (noteSection s.cursor s.lookahead).nextToken = (.ok t, c) →
      Spends (g :: gs) s 1 1 (.ok (), ⟨c, t, s.calls + 1⟩)
  | take {s : Checker κ} {g : Goal} {gs new : List Goal} {t : Token} {c : Cursor κ}
      {looks calls : Nat} {r : Except Diagnostic Unit × Checker κ} :
      g.move s.lookahead.kind = .take new → s.lookahead.kind ≠ .eof →
      (noteSection s.cursor s.lookahead).nextToken = (.ok t, c) →
      Spends (new ++ gs) ⟨c, t, s.calls + 1⟩ looks calls r →
      Spends (g :: gs) s (looks + 1) (calls + 1) r

theorem Spends.eq_pursue (h : Spends gs s looks calls r) : r = s.pursue gs := by
  induction h with
  | bare =>
    rw [pursue, feed]
    rfl
  | fail hm =>
    rw [pursue_of_fail hm]
    rfl
  | drop hm _ ih => rw [ih, pursue_of_pass hm]
  | fault hm hn => rw [pursue_eq (feed_of_take hm), hn]
  | done hm hk hn =>
    rw [pursue_eq (feed_of_take hm), hn]
    exact (if_pos hk).symm
  | take hm hk hn _ ih =>
    rw [pursue_eq (feed_of_take hm), hn, ih]
    exact (if_neg hk).symm

theorem Spends.drops {dropped : List Goal} (hd : ∀ g ∈ dropped, g.move s.lookahead.kind = .pass)
    (h : Spends gs s looks calls r) : Spends (dropped ++ gs) s (looks + dropped.length) calls r := by
  induction dropped with
  | nil => exact h
  | cons g dropped ih =>
    rw [List.forall_mem_cons] at hd
    exact .drop hd.1 (ih hd.2)

theorem exists_spends (gs : List Goal) (s : Checker κ) :
    ∃ looks calls, Spends gs s looks calls (s.pursue gs) := by
  fun_induction pursue gs s with
  | case1 gs s e hf =>
    obtain ⟨dropped, below, rfl, hd, ⟨rfl, rfl⟩ | ⟨g, gs', rfl, hm⟩⟩ := feed_eq_error hf
    · exact ⟨_, _, .drops hd .bare⟩
    · exact ⟨_, _, .drops hd (.fail hm)⟩
  | case2 gs s rest hf d c hn =>
    obtain ⟨dropped, g, below, new, rfl, hd, hm, rfl⟩ := feed_eq_ok hf
    exact ⟨_, _, .drops hd (.fault hm hn)⟩
  | case3 gs s rest hf t c hn hk =>
    obtain ⟨dropped, g, below, new, rfl, hd, hm, rfl⟩ := feed_eq_ok hf
    exact ⟨_, _, .drops hd (.done hm hk hn)⟩
  | case4 gs s rest hf t c hn hk ih =>
    obtain ⟨dropped, g, below, new, rfl, hd, hm, rfl⟩ := feed_eq_ok hf
    obtain ⟨looks, calls, hs⟩ := ih
    exact ⟨_, _, .drops hd (.take hm hk hn hs)⟩

/-- The calls of a run are those by which the checker's own count has grown. -/
theorem Spends.calls_eq (h : Spends gs s looks calls r) : r.2.calls = s.calls + calls := by
  induction h with
  | bare | fail _ => rfl
  | drop _ _ ih => exact ih
  | fault _ _ | done _ _ _ => rfl
  | take _ _ _ _ ih => exact ih.trans (Nat.add_right_comm _ _ _)

/-- Each look drops a goal from the stack, and each call brings at most five. -/
theorem Spends.looks_le (h : Spends gs s looks calls r) : looks ≤ gs.length + 5 * calls := by
  induction h with
  | bare => simp
  | fail _ => simp
  | drop _ _ ih =>
    rw [List.length_cons]
    omega
  | fault _ _ =>
    rw [List.length_cons]
    omega
  | done _ _ _ =>
    rw [List.length_cons]
    omega
  | take hm _ _ _ ih =>
    have hl := length_le_of_take hm
    rw [List.length_append] at ih
    rw [List.length_cons]
    omega

/-- The token that the checker looks at pays for one call, each character behind it for one, and one
call more finds the end. -/
theorem Spends.calls_le {u : List Char} {p : Position} (h : Spends gs s looks calls r)
    (hs : s.Facing u p) : calls ≤ u.length + 1 + Cursor.used (.ok s.lookahead) := by
  induction h generalizing u p with
  | bare => exact Nat.zero_le _
  | fail _ => exact Nat.zero_le _
  | drop _ _ ih => exact ih hs
  | fault _ _ => omega
  | done _ _ _ => omega
  | @take s g gs new t c looks calls r _ hk hn _ ih =>
    obtain ⟨rest, q, ht, hc⟩ := hs.turn hn
    have hle := ih ⟨hc, ht.eq_nil⟩
    have hu : Cursor.used (.ok s.lookahead) = 1 := if_neg hk
    -- a character has been passed for the token that came, or no more are left
    cases ht with
    | token hk' hl =>
      have ht' := Cursor.used_le_one (.ok t)
      dsimp only at hle
      omega
    | ended hk' =>
      have ht' : Cursor.used (.ok t) = 0 := if_pos hk'
      rw [List.length_nil] at hle
      dsimp only at hle
      omega

end Checker

/-! ## A whole check -/

/-- How often a check calls for a token. -/
def Cursor.calls {κ : Type} [Sink κ] (c : Cursor κ) : Nat :=
  match Checker.start c with
  | .error _ => 1
  | .ok s => s.run.2.calls

namespace Cursor

variable {κ : Type} [Sink κ] {c : Cursor κ} {looks calls : Nat}
  {r : Except Diagnostic Unit × Cursor κ}

/-- `Spends c looks calls r`: a check at the cursor `c` looks at a goal `looks` times, calls for a
token `calls` times and comes to `r`. -/
inductive Spends (c : Cursor κ) : Nat → Nat → Except Diagnostic Unit × Cursor κ → Prop where
  | fault {d : Diagnostic} {c' : Cursor κ} :
      c.nextToken = (.error d, c') → Spends c 0 1 (.error d, c')
  | run {t : Token} {c' : Cursor κ} {looks calls : Nat} {verdict : Except Diagnostic Unit}
      {s : Checker κ} : c.nextToken = (.ok t, c') →
      Checker.Spends [.sections] ⟨c', t, 1⟩ looks calls (verdict, s) →
      Spends c looks (calls + 1) (verdict, s.cursor)

theorem Spends.eq_check (h : c.Spends looks calls r) : r = c.check := by
  cases h with
  | fault hn => rw [check_eq_chase, chase_of_error hn]
  | run hn hs =>
    rw [check, Checker.start, hn]
    dsimp only
    rw [Checker.run_eq_pursue, ← hs.eq_pursue]

theorem Spends.calls_eq (h : c.Spends looks calls r) : calls = c.calls := by
  cases h with
  | fault hn => rw [Cursor.calls, Checker.start, hn]
  | run hn hs =>
    rw [Cursor.calls, Checker.start, hn]
    dsimp only
    rw [Checker.run_eq_pursue, ← hs.eq_pursue, hs.calls_eq, Nat.add_comm]

theorem exists_spends_check (c : Cursor κ) : ∃ looks calls, c.Spends looks calls c.check := by
  rcases hn : c.nextToken with ⟨d | t, c'⟩
  · rw [check_eq_chase, chase_of_error hn]
    exact ⟨0, 1, .fault hn⟩
  · obtain ⟨looks, calls, hs⟩ := Checker.exists_spends [.sections] ⟨c', t, 1⟩
    have hr := Spends.run hn hs
    rw [hr.eq_check] at hr
    exact ⟨looks, calls + 1, hr⟩

theorem Spends.looks_le (h : c.Spends looks calls r) : looks ≤ 5 * calls := by
  cases h with
  | fault _ => exact Nat.zero_le _
  | run _ hs =>
    have hl := hs.looks_le
    rw [List.length_singleton] at hl
    omega

theorem Spends.calls_le {u : List Char} {p : Position} (h : c.Spends looks calls r)
    (hc : c.At u p) : calls ≤ u.length + 2 := by
  cases h with
  | fault _ => omega
  | @run t c' looks calls verdict s hn hs =>
    obtain ⟨rest, q, ht, ha⟩ := hc.turn
    rw [hn] at ht ha
    have hle := hs.calls_le ⟨ha, ht.eq_nil⟩
    cases ht with
    | token hk hl =>
      have ht' := used_le_one (.ok t)
      dsimp only at hle
      omega
    | ended hk =>
      have ht' : used (.ok t) = 0 := if_pos hk
      rw [List.length_nil] at hle
      dsimp only at hle
      omega

end Cursor

/-- Reading a source with a text of `n` characters. Each call for a token goes further into the text
or stays where it is, past any number of blanks and comments in a row, and past a character at least
if it gives a token that is not the end; all calls together ask for the text and its end once. The
tokens up to the end or a fault are at most `n + 1`. A check has a run look by look, of which it is
the result and which makes the calls for tokens that the checker counts; these are at most `n + 2`,
and the looks at goals at most five times as many. -/
theorem reading_ends {κ : Type} [Sink κ] (source : Source) (sink : κ) (journal : Journal) :
    let c := Cursor.load source sink journal
    let n := source.text.length
    c.left = source.text ∧
    (∀ i, (c.behind (i + 1)).left <:+ (c.behind i).left ∧
      (∀ t, c.answer i = .ok t → t.kind ≠ .eof →
        (c.behind (i + 1)).left.length < (c.behind i).left.length) ∧
      (∀ g rest, Gap g → (c.behind i).left = g ++ rest →
        ∃ d : Cursor κ, d.left = rest ∧ (c.behind i).nextToken = d.nextToken) ∧
      (c.behind i).source.asked ≤ source.asked + n + 1) ∧
    (c.tokensFrom #[]).1.size ≤ n + 1 ∧
    (∃ looks calls, c.Spends looks calls c.check) ∧
    (∀ looks calls r, c.Spends looks calls r →
      r = c.check ∧ calls = c.calls ∧ calls ≤ n + 2 ∧ looks ≤ 5 * calls) ∧
    (∀ cs ts, tokenize cs = .ok ts → ts.length ≤ (visible cs).length + 1) := by
  intro c n
  have hc : c.At source.text .origin := Cursor.load_at source sink journal
  have hall : ∀ i, ∃ u p, (c.behind i).At u p := by
    intro i
    obtain ⟨_, rest, _, h⟩ := hc.of_reaches (c.behind_reaches i)
    exact ⟨rest, _, h⟩
  refine ⟨hc.left_eq, fun i => ?_, ?_, c.exists_spends_check, fun looks calls r hs => ?_, ?_⟩
  · obtain ⟨u, p, hu⟩ := hall i
    rw [Cursor.behind_succ, hu.left_eq]
    refine ⟨hu.left_suffix (c.behind i).nextToken_reaches, fun t => hu.left_lt, ?_, ?_⟩
    · rintro g rest hg rfl
      obtain ⟨d, hd, hn⟩ := hu.nextToken_gap hg
      exact ⟨d, hd.left_eq, hn⟩
    · exact ((c.behind_reaches i).asks (Cursor.load_asks source sink journal)).asked_le
  · obtain ⟨ts, fault, hr⟩ := exists_reads .origin source.text
    obtain ⟨d, hd⟩ := hc.tokensFrom hr
    rw [hd, List.size_toArray]
    exact hr.length_le
  · exact ⟨hs.eq_check, hs.calls_eq, hs.calls_le hc, hs.looks_le⟩
  · intro cs ts ht
    exact (tokenStream_eq_iff.mp (tokenize_eq_ok_iff.mp ht)).length_le

/-- Two comments in a row in front of a name, which is where a check stops. -/
theorem reading_ends_behind_comments :
    (∃ c : Cursor Discard, c = .load (.ofString "(**)(*x*)y z") .discard #[] ∧
      (∃ d : Cursor Discard, d.left = "y z".toList ∧ c.nextToken = d.nextToken) ∧
      c.answer 0 = .ok ⟨.ident, "y", ⟨1, 10⟩⟩ ∧ (c.behind 1).left.length < (c.behind 0).left.length ∧
      ∃ looks calls r, c.Spends looks calls r ∧ calls ≤ 14 ∧
        r.1 = .error ⟨.expected (.token .eof), ⟨1, 10⟩⟩) ∧
    (∃ ts, tokenize "(**)(*x*)y z".toList = .ok ts ∧ ts.length ≤ 13) := by
  obtain ⟨hleft, hcall, -, ⟨looks, calls, hs⟩, hrun, htokens⟩ :=
    reading_ends (.ofString "(**)(*x*)y z") Discard.discard #[]
  have hg : Gap "(**)(*x*)".toList :=
    @Gap.comment [] _ (by decide) (@Gap.comment ['x'] [] (by decide) .nil)
  obtain ⟨-, hless, hgap, -⟩ := hcall 0
  have h0 : (Cursor.load (.ofString "(**)(*x*)y z") Discard.discard #[]).answer 0 =
      .ok ⟨.ident, "y", ⟨1, 10⟩⟩ := by decide +kernel
  refine ⟨⟨_, rfl, hgap _ "y z".toList hg hleft, h0, hless _ h0 (by decide), looks, calls, _, hs,
    (hrun looks calls _ hs).2.2.1, by decide +kernel⟩, ?_⟩
  refine ⟨[⟨.ident, "y", ⟨1, 10⟩⟩, ⟨.ident, "z", ⟨1, 12⟩⟩, ⟨.eof, "", ⟨1, 13⟩⟩], ?_, ?_⟩
  · decide +kernel
  · exact htokens "(**)(*x*)y z".toList _ (by decide +kernel)

end Modula

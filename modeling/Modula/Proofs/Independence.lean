import Modula.Proofs.Cursor
import Modula.Proofs.Token.Scan

/-! # Reading does not depend on the sink

A sink is told of every character, and what it makes of it never comes back. Two cursors that differ
in their sinks and journals alone look the same (`Cursor.view`), and they still do after every call.

* `advance_view`, `nextToken_agree`, `pursue_agree`: one move, one token, one run of a checker.
* `Agree.trace_eq`: calls one after the other, from one call.
* `reading_ignores_sink`: any calls on a cursor over any sink go as those over a sink that keeps
  nothing. -/

namespace Modula
set_option autoImplicit false

/-! ## The same answers -/

section Agree

variable {ι α β σ σ' : Type} {see : σ → β} {see' : σ' → β}

/-- Two calls give the same answer, and what they leave looks the same. -/
structure Agree (see : σ → β) (see' : σ' → β) (x : α × σ) (y : α × σ') : Prop where
  answer : x.1 = y.1
  view : see x.2 = see' y.2

theorem Agree.exists_eq {a : α} {s : σ} {y : α × σ'} (h : Agree see see' (a, s) y) :
    ∃ s', y = (a, s') ∧ see s = see' s' :=
  ⟨y.2, Prod.ext h.answer.symm rfl, h.view⟩

/-- What each of some calls gives and leaves to be seen. -/
def trace (call : ι → σ → α × σ) (see : σ → β) : List ι → σ → List (α × β)
  | [], _ => []
  | i :: is, s => ((call i s).1, see (call i s).2) :: trace call see is (call i s).2

theorem Agree.trace_eq (call : ι → σ → α × σ) (call' : ι → σ' → α × σ')
    (hc : ∀ i s s', see s = see' s' → Agree see see' (call i s) (call' i s'))
    (is : List ι) {s : σ} {s' : σ'} (h : see s = see' s') :
    trace call see is s = trace call' see' is s' := by
  induction is generalizing s s' with
  | nil => rfl
  | cons i is ih =>
    have hi := hc i s s' h
    rw [trace, trace, hi.answer, hi.view, ih hi.view]

end Agree

/-! ## Scanning -/

/-- A cursor without its sink and its journal. -/
structure View where
  source : Source
  current : Option Char
  ended : Bool
  position : Position
  deriving DecidableEq, Repr

namespace Cursor

variable {κ κ' : Type}

def view (c : Cursor κ) : View := ⟨c.source, c.current, c.ended, c.position⟩

variable {c : Cursor κ} {d : Cursor κ'}

theorem current_of_view (h : c.view = d.view) : d.current = c.current :=
  (congrArg View.current h).symm

theorem position_of_view (h : c.view = d.view) : d.position = c.position :=
  (congrArg View.position h).symm

theorem emit_agree (h : c.view = d.view) (t : Token) : Agree view view (emit t c) (emit t d) :=
  ⟨rfl, h⟩

variable [Sink κ] [Sink κ']

theorem advance_view (h : c.view = d.view) : c.advance.view = d.advance.view := by
  have hs : d.source = c.source := (congrArg View.source h).symm
  have he : d.ended = c.ended := (congrArg View.ended h).symm
  have hc := current_of_view h
  have hp := position_of_view h
  cases hce : c.ended with
  | true =>
    rw [advance_of_ended hce, advance_of_ended (he.trans hce)]
    simp only [view, hs, he, hp]
  | false =>
    cases hr : c.source.read.1.char.filter (· ≠ '\x00') with
    | none =>
      have hr' : d.source.read.1.char.filter (· ≠ '\x00') = none := by rw [hs, hr]
      rw [advance_of_none hce hr, advance_of_none (he.trans hce) hr']
      simp only [view, hs, hc, hp]
    | some ch =>
      have hr' : d.source.read.1.char.filter (· ≠ '\x00') = some ch := by rw [hs, hr]
      rw [advance_of_some hce hr, advance_of_some (he.trans hce) hr']
      simp only [view, hs, hc, hp]

theorem skipBlanks_view (h : c.view = d.view) : c.skipBlanks.view = d.skipBlanks.view := by
  fun_induction skipBlanks c generalizing d with
  | case1 c hc =>
    have hd := (current_of_view h).trans hc
    rw [skipBlanks_eq_self (by simp [hd])]
    exact h
  | case2 c ch hc hb ih =>
    rw [skipBlanks_of_isBlank ((current_of_view h).trans hc) hb]
    exact ih (advance_view h)
  | case3 c ch hc hb =>
    have hd := (current_of_view h).trans hc
    rw [skipBlanks_eq_self (by simp [hd, hb])]
    exact h

theorem skipComment_agree (h : c.view = d.view) :
    Agree view view c.skipComment d.skipComment := by
  induction hn : c.pending using Nat.strong_induction_on generalizing c d with
  | _ n ih =>
  cases hc : c.current with
  | none =>
    rw [skipComment_of_none hc, skipComment_of_none ((current_of_view h).trans hc)]
    exact ⟨rfl, h⟩
  | some ch =>
    have ha : c.advance.view = d.advance.view := advance_view h
    have hlt : c.advance.pending < n := hn ▸ advance_pending_lt hc
    rw [skipComment_of_some hc, skipComment_of_some ((current_of_view h).trans hc),
      current_of_view ha]
    split
    · exact ⟨rfl, advance_view ha⟩
    · exact ih _ hlt ha rfl

theorem takeRun_agree (p : Char → Bool) (taken : String) (h : c.view = d.view) :
    Agree view view (c.takeRun p taken) (d.takeRun p taken) := by
  fun_induction takeRun p taken c generalizing d with
  | case1 taken c hc =>
    have hd := (current_of_view h).trans hc
    rw [takeRun_of_stop taken (by simp [hd])]
    exact ⟨rfl, h⟩
  | case2 taken c ch hc hp ih =>
    rw [takeRun_of_some taken ((current_of_view h).trans hc) hp]
    exact ih (advance_view h)
  | case3 taken c ch hc hp =>
    have hd := (current_of_view h).trans hc
    rw [takeRun_of_stop taken (by simpa [hd] using hp)]
    exact ⟨rfl, h⟩

theorem scan_agree (ch : Char) (h : c.view = d.view) :
    Agree view view (c.scan ch) (d.scan ch) := by
  have hp := position_of_view h
  have ha : c.advance.view = d.advance.view := advance_view h
  unfold scan
  rw [hp]
  dsimp only
  split
  · have hr := takeRun_agree Text.isAlphanumeric "" h
    rw [hr.answer]
    exact emit_agree hr.view _
  · split
    · have hr := takeRun_agree Char.isDigit "" h
      rw [hr.answer]
      exact emit_agree hr.view _
    · split
      · rw [current_of_view ha]
        split
        · exact emit_agree (advance_view ha) _
        · exact emit_agree ha _
      · split
        · exact emit_agree ha _
        · exact ⟨rfl, h⟩

theorem not_isBlank_skipBlanks (c : Cursor κ) :
    ∀ ch ∈ c.skipBlanks.current, isBlank ch = false := by
  fun_induction skipBlanks c with
  | case1 c hc => simp [hc]
  | case2 c ch hc hb ih => exact ih
  | case3 c ch hc hb => simpa [hc] using hb

theorem nextToken_skipBlanks (c : Cursor κ) : c.skipBlanks.nextToken = c.nextToken := by
  rw [nextToken, nextToken, skipBlanks_eq_self c.not_isBlank_skipBlanks]

theorem nextToken_agree (h : c.view = d.view) : Agree view view c.nextToken d.nextToken := by
  induction hn : c.pending using Nat.strong_induction_on generalizing c d with
  | _ n ih =>
  -- without blanks in front, the character that both cursors look at decides
  rw [← nextToken_skipBlanks c, ← nextToken_skipBlanks d]
  have hle : c.skipBlanks.pending ≤ n := hn ▸ skipBlanks_pending_le c
  have hs : c.skipBlanks.view = d.skipBlanks.view := skipBlanks_view h
  cases hc : c.skipBlanks.current with
  | none =>
    rw [nextToken_of_none hc, nextToken_of_none ((current_of_view hs).trans hc),
      position_of_view hs]
    exact ⟨rfl, hs⟩
  | some ch =>
    have hd : d.skipBlanks.current = some ch := (current_of_view hs).trans hc
    have ha : c.skipBlanks.advance.view = d.skipBlanks.advance.view := advance_view hs
    rw [nextToken_of_some hc (c.not_isBlank_skipBlanks ch hc),
      nextToken_of_some hd (d.not_isBlank_skipBlanks ch hd), current_of_view ha,
      position_of_view hs]
    split
    · split
      · have hm := skipComment_agree
          (c := c.skipBlanks.advance.advance.note (.comment c.skipBlanks.position))
          (d := d.skipBlanks.advance.advance.note (.comment c.skipBlanks.position))
          (advance_view ha)
        split
        · next f hf =>
          rw [hf] at hm
          obtain ⟨g, hg, hv⟩ := hm.exists_eq
          rw [hg]
          exact ih _ (Nat.lt_of_lt_of_le (comment_pending_lt hc hf) hle) hv rfl
        · next f hf =>
          rw [hf] at hm
          obtain ⟨g, hg, hv⟩ := hm.exists_eq
          rw [hg]
          exact ⟨rfl, hv⟩
      · exact emit_agree ha _
    · exact scan_agree ch hs

end Cursor

/-! ## Checking -/

namespace Checker

open Grammar

variable {κ κ' : Type}

def view (s : Checker κ) : View × Token := (s.cursor.view, s.lookahead)

theorem noteSection_view (c : Cursor κ) (t : Token) : (noteSection c t).view = c.view := by
  unfold noteSection
  split <;> rfl

variable [Sink κ] [Sink κ'] {s : Checker κ} {s' : Checker κ'}

theorem exists_nextToken {answer : Except Diagnostic Token} {c : Cursor κ} (h : s.view = s'.view)
    (hn : (noteSection s.cursor s.lookahead).nextToken = (answer, c)) :
    ∃ c', (noteSection s'.cursor s'.lookahead).nextToken = (answer, c') ∧ c.view = c'.view := by
  have hv : (noteSection s.cursor s.lookahead).view =
      (noteSection s'.cursor s'.lookahead).view := by
    rw [noteSection_view, noteSection_view]
    exact congrArg Prod.fst h
  have hm := Cursor.nextToken_agree hv
  rw [hn] at hm
  exact hm.exists_eq

theorem pursue_agree (gs : List Goal) (h : s.view = s'.view) :
    Agree view view (s.pursue gs) (s'.pursue gs) := by
  have hl : s'.lookahead = s.lookahead := (congrArg Prod.snd h).symm
  fun_induction pursue gs s generalizing s' with
  | case1 gs s e hf =>
    rw [← hl] at hf
    rw [pursue, hf]
    exact ⟨by simp only [Checker.fault, hl], h⟩
  | case2 gs s rest hf fault c hn =>
    obtain ⟨c', hn', hv⟩ := exists_nextToken h hn
    rw [← hl] at hf
    rw [pursue_eq hf, hn', hl]
    exact ⟨rfl, congrArg (·, s.lookahead) hv⟩
  | case3 gs s rest hf t c hn hk =>
    obtain ⟨c', hn', hv⟩ := exists_nextToken h hn
    rw [← hl] at hf hk
    rw [pursue_eq hf, hn']
    dsimp only
    rw [if_pos hk]
    exact ⟨rfl, congrArg (·, t) hv⟩
  | case4 gs s rest hf t c hn hk ih =>
    obtain ⟨c', hn', hv⟩ := exists_nextToken h hn
    rw [← hl] at hf hk
    rw [pursue_eq hf, hn']
    dsimp only
    rw [if_neg hk]
    exact ih (congrArg (·, t) hv) rfl

theorem run_agree (h : s.view = s'.view) : Agree view view s.run s'.run := by
  rw [run_eq_pursue, run_eq_pursue]
  exact pursue_agree [.sections] h

/-- Two checkers start alike, or neither of them does. -/
theorem start_cases {c : Cursor κ} {d : Cursor κ'} (h : c.view = d.view) :
    (∃ fault c' d', start c = .error (fault, c') ∧ start d = .error (fault, d') ∧
      c'.view = d'.view) ∨
    (∃ s s', start c = .ok s ∧ start d = .ok s' ∧ s.view = s'.view) := by
  have hn := Cursor.nextToken_agree h
  unfold start
  cases hc : c.nextToken with
  | mk answer c' =>
  rw [hc] at hn
  obtain ⟨d', hd, hv⟩ := hn.exists_eq
  rw [hd]
  cases answer with
  | error fault => exact .inl ⟨fault, c', d', rfl, rfl, hv⟩
  | ok t => exact .inr ⟨⟨c', t, 1⟩, ⟨d', t, 1⟩, rfl, rfl, congrArg (·, t) hv⟩

end Checker

/-! ## Calls one after the other -/

namespace Cursor

variable {κ κ' : Type} [Sink κ] [Sink κ'] {c : Cursor κ} {d : Cursor κ'}

/-- The ways to move a cursor on. -/
inductive Call where
  | advance
  | token
  deriving DecidableEq, Repr

/-- A call with its answer; a mere advance has none. -/
def call : Call → Cursor κ → Option (Except Diagnostic Token) × Cursor κ
  | .advance, c => (none, c.advance)
  | .token, c => (some c.nextToken.1, c.nextToken.2)

/-- A cursor after some calls. -/
def after (c : Cursor κ) (calls : List Call) : Cursor κ :=
  calls.foldl (fun c a => (c.call a).2) c

theorem call_agree (a : Call) (h : c.view = d.view) : Agree view view (c.call a) (d.call a) := by
  cases a with
  | advance => exact ⟨rfl, advance_view h⟩
  | token => exact ⟨congrArg some (nextToken_agree h).answer, (nextToken_agree h).view⟩

theorem after_view (calls : List Call) (h : c.view = d.view) :
    (c.after calls).view = (d.after calls).view := by
  induction calls generalizing c d with
  | nil => exact h
  | cons a calls ih => exact ih (call_agree a h).view

/-- A checker is started and asked `n` times. Without a first token there is none to ask; otherwise
this is how it looks at first, and what each time gives and leaves. -/
def parses (n : Nat) (c : Cursor κ) :
    Except (Diagnostic × View) ((View × Token) × List (Except Diagnostic Unit × View × Token)) :=
  match Checker.start c with
  | .error (fault, c) => .error (fault, c.view)
  | .ok s => .ok (s.view, trace (fun _ => Checker.run) Checker.view (List.replicate n ()) s)

theorem parses_eq (n : Nat) (h : c.view = d.view) : c.parses n = d.parses n := by
  unfold parses
  obtain ⟨fault, c', d', hc, hd, hv⟩ | ⟨s, s', hc, hd, hv⟩ := Checker.start_cases h
  · rw [hc, hd]
    show Except.error (fault, c'.view) = Except.error (fault, d'.view)
    rw [hv]
  · have ht := Agree.trace_eq (fun _ => Checker.run) (fun _ => Checker.run)
      (fun _ _ _ => Checker.run_agree) (List.replicate n ()) hv
    rw [hc, hd]
    exact congrArg Except.ok (Prod.ext hv ht)

theorem check_agree (h : c.view = d.view) : Agree view view c.check d.check := by
  unfold check
  obtain ⟨fault, c', d', hc, hd, hv⟩ | ⟨s, s', hc, hd, hv⟩ := Checker.start_cases h
  · rw [hc, hd]
    exact ⟨rfl, hv⟩
  · have hr := Checker.run_agree hv
    rw [hc, hd]
    exact ⟨hr.answer, congrArg Prod.fst hr.view⟩

end Cursor

/-- A cursor in front of a source gives the same answers and looks the same after each call,
whatever its sink does with the characters and whenever the sink begins to fail: behind any advances
and tokens, also to a checker that is asked any number of times, and in its verdict on the text. How
far the source has been read is part of how a cursor looks. -/
theorem reading_ignores_sink {κ : Type} [Sink κ] (source : Source) (sink : κ)
    (journal journal' : Journal) (calls : List Cursor.Call) (n : Nat) :
    let c := Cursor.start source sink journal
    let d := Cursor.start source Discard.discard journal'
    trace Cursor.call Cursor.view calls c = trace Cursor.call Cursor.view calls d ∧
    (c.after calls).view = (d.after calls).view ∧
    (c.after calls).parses n = (d.after calls).parses n ∧
    Agree Cursor.view Cursor.view (c.after calls).check (d.after calls).check := by
  intro c d
  have h : c.view = d.view := rfl
  have ha := Cursor.after_view calls h
  have ht := Agree.trace_eq Cursor.call Cursor.call (fun a _ _ => Cursor.call_agree a) calls h
  exact ⟨ht, ha, Cursor.parses_eq n ha, Cursor.check_agree ha⟩

end Modula

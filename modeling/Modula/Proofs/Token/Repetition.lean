import Mathlib.Logic.Function.Iterate
import Modula.Proofs.Position

/-! # Asking for tokens again and again

A cursor is asked for one token after the other, also when its text has ended or a fault has turned
up. Wherever it comes it stands in its text (`At.of_reaches`), so each answer is one of three: a
token, the end, or a fault. Behind the end and behind a character that begins no token it is where
it stays (`At.nextToken_nil`, `At.nextToken_foreign`), and a comment that is not closed has led it
to the end. So one such answer decides all later ones (`answers_terminal`). -/

namespace Modula
set_option autoImplicit false

namespace Cursor

variable {κ : Type} [Sink κ] {c d : Cursor κ} {u : List Char} {p : Position} {t : Token}
  {fault : Diagnostic}

/-! ## Places in a text -/

theorem advance_at_nil (h : c.At [] p) : c.advance.At [] p := by
  rw [advance_of_ended h.ended]
  exact ⟨rfl, fun hn => absurd rfl hn, h.ended, h.position⟩

/-- Moves and notes leave a cursor somewhere in the text that it stood in front of. -/
theorem At.of_reaches (h : c.At u p) (hr : Reaches c d) :
    ∃ seen rest, u = seen ++ rest ∧ d.At rest (p.after seen) := by
  refine hr.invariant (P := fun d => ∃ seen rest, u = seen ++ rest ∧ d.At rest (p.after seen))
    ?_ ?_ ⟨[], u, rfl, h⟩
  · intro d hd
    obtain ⟨seen, rest, hu, ha⟩ := hd
    cases rest with
    | nil => exact ⟨seen, [], hu, advance_at_nil ha⟩
    | cons ch rest =>
      refine ⟨seen ++ [ch], rest, by simp [hu], ?_⟩
      rw [Position.after_append]
      exact ha.advance
  · intro d e hd
    obtain ⟨seen, rest, hu, ha⟩ := hd
    exact ⟨seen, rest, hu, ha.note e⟩

/-! ## Answers that are the last -/

theorem At.nextToken_eof (h : c.At u p) (hn : c.nextToken = (.ok t, d)) (hk : t.kind = .eof) :
    t = ⟨.eof, "", p.after u⟩ ∧ d.At [] (p.after u) := by
  obtain ⟨ts, fault, hr⟩ := exists_reads p u
  cases ts with
  | nil =>
    obtain ⟨g, rest, f, hg, hf, rfl, -⟩ := hr.of_nil
    obtain ⟨e, he, hc⟩ := h.nextToken_gap hg
    obtain ⟨e', he'⟩ := he.nextToken_fails hf
    rw [hc, he'] at hn
    cases hn
  | cons s ts =>
    have hl := hr.lexeme_of_eof (t := s) List.mem_cons_self
    obtain ⟨before, rest, hp, hg, -⟩ := hr.of_cons
    obtain ⟨d', hd, ha⟩ := hg c h
    rw [hn] at hd
    cases hd
    have hu : u = before := by
      have ht := hp.text
      rw [hp.ends hk, hl hk] at ht
      simpa using ht
    rw [hp.ends hk, hl hk] at ha
    rcases t with ⟨k, lexeme, q⟩
    obtain rfl : k = .eof := hk
    obtain rfl : lexeme = "" := hl rfl
    obtain rfl : q = p.after before := hp.position
    rw [hu]
    exact ⟨rfl, by simpa using ha⟩

theorem At.nextToken_error (h : c.At u p) (hn : c.nextToken = (.error fault, d)) :
    (∃ ch rest, Foreign ch ∧ fault.fault = .invalidCharacter ch ∧
      d.At (ch :: rest) fault.position) ∨
    (fault.fault = .unterminatedComment ∧ d.At [] (p.after u)) := by
  obtain ⟨ts, f, hr⟩ := exists_reads p u
  cases ts with
  | nil =>
    obtain ⟨g, rest, f, hg, hf, rfl, -⟩ := hr.of_nil
    obtain ⟨e, he, hc⟩ := h.nextToken_gap hg
    rw [hc] at hn
    cases hf with
    | @foreign ch rest hf =>
      rw [he.nextToken_foreign hf] at hn
      cases hn
      exact .inl ⟨ch, rest, hf, rfl, he⟩
    | unclosed hb =>
      obtain ⟨e', he', ha⟩ := he.nextToken_unclosed hb
      rw [he'] at hn
      cases hn
      rw [← Position.after_append] at ha
      exact .inr ⟨rfl, ha⟩
  | cons s ts =>
    obtain ⟨before, rest, -, hg, -⟩ := hr.of_cons
    obtain ⟨d', hd, -⟩ := hg c h
    rw [hn] at hd
    cases hd

/-! ## One call after the other -/

/-- The cursor once it has been asked for `n` tokens. -/
def behind (c : Cursor κ) (n : Nat) : Cursor κ := (fun c => c.nextToken.2)^[n] c

/-- What the cursor answers when it has been asked for `n` tokens before. -/
def answer (c : Cursor κ) (n : Nat) : Except Diagnostic Token := (c.behind n).nextToken.1

theorem behind_succ (c : Cursor κ) (n : Nat) : c.behind (n + 1) = (c.behind n).nextToken.2 :=
  Function.iterate_succ_apply' _ n c

theorem behind_add (c : Cursor κ) (m n : Nat) : c.behind (m + n) = (c.behind n).behind m :=
  Function.iterate_add_apply _ m n c

theorem nextToken_behind (c : Cursor κ) (n : Nat) :
    (c.behind n).nextToken = (c.answer n, c.behind (n + 1)) := by
  rw [behind_succ]
  rfl

theorem behind_reaches (c : Cursor κ) (n : Nat) : Reaches c (c.behind n) := by
  induction n with
  | zero => exact .refl c
  | succ n ih =>
    rw [behind_succ]
    exact ih.trans (c.behind n).nextToken_reaches

/-- A cursor that a call leaves as it is answers the same for ever. -/
theorem behind_of_fixed {r : Except Diagnostic Token} (h : c.nextToken = (r, c)) (n : Nat) :
    c.behind n = c ∧ c.answer n = r := by
  have hb : c.behind n = c := Function.iterate_fixed (congrArg Prod.snd h) n
  refine ⟨hb, ?_⟩
  rw [answer, hb, h]

theorem behind_of_fixed_at {i j : Nat} {r : Except Diagnostic Token} (hij : i < j)
    (h : (c.behind (i + 1)).nextToken = (r, c.behind (i + 1))) :
    c.behind j = c.behind (i + 1) ∧ c.answer j = r := by
  have hf := behind_of_fixed h (j - (i + 1))
  rw [answer, ← behind_add, Nat.sub_add_cancel hij] at hf
  exact hf

end Cursor

/-- A cursor in front of a source is asked for tokens. Once it answers with the end, or that a
character begins no token, it gives this same answer whenever it is asked again; once it finds a
comment that is not closed, it answers with the end of the text from then on. In each case it stays
just as it is: nothing more is asked of the source or copied into the sink, whatever the source
would still give. -/
theorem answers_terminal {κ : Type} [Sink κ] (source : Source) (sink : κ) (journal : Journal)
    (i j : Nat) (hij : i < j) :
    let c := Cursor.load source sink journal
    let ended : Token := ⟨.eof, "", Position.origin.after source.text⟩
    (∀ t, c.answer i = .ok t → t.kind = .eof → t = ended ∧ c.answer j = .ok t) ∧
    (∀ d, c.answer i = .error d →
      (∃ ch, d.fault = .invalidCharacter ch ∧ c.answer j = .error d) ∨
      (d.fault = .unterminatedComment ∧ c.answer j = .ok ended)) ∧
    ((∀ t, c.answer i = .ok t → t.kind = .eof) → c.behind j = c.behind (i + 1)) := by
  intro c ended
  obtain ⟨seen, rest, hu, ha⟩ :=
    (Cursor.load_at source sink journal).of_reaches (c.behind_reaches i)
  have hn := c.nextToken_behind i
  have hend : (Position.origin.after seen).after rest = Position.origin.after source.text := by
    rw [hu, Position.after_append]
  have at_end : (c.behind (i + 1)).At [] ((Position.origin.after seen).after rest) →
      c.behind j = c.behind (i + 1) ∧ c.answer j = .ok ended := by
    intro h
    rw [hend] at h
    exact Cursor.behind_of_fixed_at hij h.nextToken_nil
  cases hr : c.answer i with
  | ok t =>
    rw [hr] at hn
    refine ⟨?_, (fun d hd => by cases hd), fun hk => ?_⟩
    · rintro _ ⟨⟩ hk
      obtain ⟨rfl, hd⟩ := ha.nextToken_eof hn hk
      rw [hend]
      exact ⟨rfl, (at_end hd).2⟩
    · exact (at_end (ha.nextToken_eof hn (hk t rfl)).2).1
  | error d =>
    rw [hr] at hn
    refine ⟨(fun t ht => by cases ht), ?_, fun _ => ?_⟩
    · rintro _ ⟨⟩
      rcases ha.nextToken_error hn with ⟨ch, rest, hf, hd, hc⟩ | ⟨hd, hc⟩
      · have hs := Cursor.behind_of_fixed_at hij (hc.nextToken_foreign hf)
        refine .inl ⟨ch, hd, ?_⟩
        rw [hs.2, ← hd]
      · exact .inr ⟨hd, (at_end hc).2⟩
    · rcases ha.nextToken_error hn with ⟨ch, rest, hf, -, hc⟩ | ⟨-, hc⟩
      · exact (Cursor.behind_of_fixed_at hij (hc.nextToken_foreign hf)).1
      · exact (at_end hc).1

/-- A source that goes on after an answer of none, a character that begins no token in front of one
that does, and a comment that a NUL leaves open: what is left of the source is never asked for. -/
theorem answers_terminal_before_more :
    (∃ c : Cursor Recorder,
      c = .load (.ofReadings [.ofChar 'x', .nothing, .ofChar 'y']) ⟨[]⟩ #[] ∧
      c.answer 0 = .ok ⟨.ident, "x", ⟨1, 1⟩⟩ ∧ c.answer 1 = .ok ⟨.eof, "", ⟨1, 2⟩⟩ ∧
      c.answer 5 = .ok ⟨.eof, "", ⟨1, 2⟩⟩ ∧ (c.behind 5).sink.heard = ['x'] ∧
      (c.behind 5).source = ⟨[.ofChar 'y'], 2⟩) ∧
    (∃ c : Cursor Recorder, c = .load (.ofString "#x") ⟨[]⟩ #[] ∧
      c.answer 0 = .error ⟨.invalidCharacter '#', ⟨1, 1⟩⟩ ∧ c.answer 5 = c.answer 0 ∧
      (c.behind 5).sink.heard = ['#'] ∧ (c.behind 5).source = ⟨[.ofChar 'x'], 1⟩) ∧
    (∃ c : Cursor Recorder, c = .load (.ofString "(*\x00*)") ⟨[]⟩ #[] ∧
      c.answer 0 = .error ⟨.unterminatedComment, ⟨1, 1⟩⟩ ∧
      c.answer 5 = .ok ⟨.eof, "", ⟨1, 3⟩⟩ ∧
      (c.behind 5).source = ⟨[.ofChar '*', .ofChar ')'], 3⟩) := by
  refine ⟨⟨_, rfl, ?_⟩, ⟨_, rfl, ?_⟩, ⟨_, rfl, ?_⟩⟩
  · obtain ⟨heof, -, hstay⟩ := answers_terminal
      (.ofReadings [.ofChar 'x', .nothing, .ofChar 'y']) (Recorder.mk []) #[] 1 5 (by decide)
    have h1 : (Cursor.load (.ofReadings [.ofChar 'x', .nothing, .ofChar 'y'])
        (Recorder.mk []) #[]).answer 1 = .ok ⟨.eof, "", ⟨1, 2⟩⟩ := by decide +kernel
    have hb := hstay fun t ht => by rw [h1] at ht; cases ht; rfl
    rw [hb]
    exact ⟨by decide +kernel, h1, (heof _ h1 rfl).2, by decide +kernel, by decide +kernel⟩
  · obtain ⟨-, hfault, hstay⟩ :=
      answers_terminal (.ofString "#x") (Recorder.mk []) #[] 0 5 (by decide)
    have h0 : (Cursor.load (.ofString "#x") (Recorder.mk []) #[]).answer 0 =
        .error ⟨.invalidCharacter '#', ⟨1, 1⟩⟩ := by decide +kernel
    have hb := hstay fun t ht => by rw [h0] at ht; cases ht
    rw [hb]
    rcases hfault _ h0 with ⟨_, -, h5⟩ | ⟨hd, -⟩
    · exact ⟨h0, h5.trans h0.symm, by decide +kernel, by decide +kernel⟩
    · cases hd
  · obtain ⟨-, hfault, hstay⟩ :=
      answers_terminal (.ofString "(*\x00*)") (Recorder.mk []) #[] 0 5 (by decide)
    have h0 : (Cursor.load (.ofString "(*\x00*)") (Recorder.mk []) #[]).answer 0 =
        .error ⟨.unterminatedComment, ⟨1, 1⟩⟩ := by decide +kernel
    have hb := hstay fun t ht => by rw [h0] at ht; cases ht
    rw [hb]
    rcases hfault _ h0 with ⟨_, hd, -⟩ | ⟨-, h5⟩
    · cases hd
    · exact ⟨h0, h5.trans (by decide +kernel), by decide +kernel⟩

end Modula

import Modula.Proofs.Diagnostic
import Modula.Proofs.Layout

/-! # Texts behind each other

A text of declarations can be followed by another one on the next line. The tokens of both are the
tokens of the first and those of the second, further down (`Reads.append`, `Reads.down`), since a
line break ends every lexeme. Where the first text could end, the goals that it leaves take a new
section as the goal of a whole text does (`verdict_of_grounded`). So behind an accepted text the
verdict on the second one is the same, as many lines below as the first one has
(`check_behind_accepted`). -/

namespace Modula
set_option autoImplicit false

open Grammar Goal

variable {p : Position} {a b u pre rest : List Char} {ts us : List Token} {fault : Option Diagnostic}
  {gs next : List Goal} {n : Nat}

/-! ## Further down -/

/-- The same column `n` lines below. -/
def Position.down (n : Nat) (p : Position) : Position := ⟨p.line + n, p.col⟩

def Token.down (n : Nat) (t : Token) : Token := { t with position := t.position.down n }

def Diagnostic.down (n : Nat) (d : Diagnostic) : Diagnostic :=
  { d with position := d.position.down n }

namespace Position

theorem next_down (p : Position) (c : Option Char) : (p.down n).next c = (p.next c).down n := by
  unfold next down
  split
  · simp only [Position.mk.injEq, and_true]
    omega
  · rfl

theorem after_down (p : Position) (cs : List Char) :
    (p.down n).after cs = (p.after cs).down n := by
  induction cs generalizing p with
  | nil => rfl
  | cons c cs ih => rw [after_cons, after_cons, next_down, ih]

theorem origin_after_newline (cs : List Char) :
    origin.after (cs ++ ['\n']) = origin.down (1 + cs.count '\n') := by
  have hl := after_line origin cs
  rw [after_append, after_cons, after_nil, next_newline, hl, down]
  simp only [Position.mk.injEq]
  exact ⟨by omega, rfl⟩

end Position

theorem Tiled.down (n : Nat) (h : Tiled p pre ts rest) :
    Tiled (p.down n) pre (ts.map (Token.down n)) rest := by
  induction h with
  | gap hg => exact .gap hg
  | @lexeme p g l pre rest k ts hg hk hm _ ih =>
    rw [← Position.after_down] at ih
    have ht := Tiled.lexeme hg hk hm ih
    rw [Position.after_down] at ht
    exact ht

theorem Reads.down (n : Nat) (h : Reads p u ts fault) :
    Reads (p.down n) u (ts.map (Token.down n)) (fault.map (Diagnostic.down n)) := by
  cases h with
  | whole ht =>
    have hr := Reads.whole (ht.down n)
    rw [Position.after_down] at hr
    rw [List.map_append]
    exact hr
  | faulty hu ht hf =>
    have hr := Reads.faulty hu (ht.down n) hf
    rw [Position.after_down] at hr
    exact hr

theorem verdict_down (n : Nat) (gs : List Goal) (ts : List Token) (fault : Option Diagnostic) :
    verdict gs (ts.map (Token.down n)) (fault.map (Diagnostic.down n)) =
      (verdict gs ts fault).mapError (Diagnostic.down n) := by
  induction ts generalizing gs with
  | nil => cases fault <;> rfl
  | cons t ts ih =>
    rw [List.map_cons, verdict_cons, verdict_cons]
    have hk : (t.down n).kind = t.kind := rfl
    rw [hk]
    cases feed gs t.kind with
    | error e => rfl
    | ok next => exact ih next

/-! ## One tiling behind another -/

theorem Tiled.append (h : Tiled p a ts (b ++ rest)) (h' : Tiled (p.after a) b us rest) :
    Tiled p (a ++ b) (ts ++ us) rest := by
  generalize hr : b ++ rest = r at h
  induction h with
  | gap hg => exact h'.prepend hg
  | @lexeme p g l pre _ k ts hg hk hm _ ih =>
    subst hr
    rw [Position.after_append] at h'
    have ht := ih h' rfl
    rw [← List.append_assoc] at hm
    rw [List.append_assoc (g ++ l), List.cons_append]
    exact .lexeme hg hk hm ht

/-- A gap ends every lexeme that the end of the text does. -/
theorem Tiled.of_end {g : List Char} (h : Tiled p a ts []) (hg : Gap g) (hne : g ≠ [])
    (rest : List Char) : Tiled p a ts (g ++ rest) := by
  generalize hr : ([] : List Char) = r at h
  induction h with
  | gap hh => exact .gap hh
  | @lexeme p _ l pre _ k ts hh hk hm _ ih =>
    subst hr
    refine .lexeme hh hk ?_ (ih rfl)
    cases pre with
    | nil =>
      rw [List.nil_append]
      exact maximal_of_gap hg hne
    | cons c pre => exact hm.of_head rfl

theorem Reads.append (h : Tiled p a ts b) (h' : Reads (p.after a) b us fault) :
    Reads p (a ++ b) (ts ++ us) fault := by
  cases h' with
  | whole ht =>
    rw [← List.append_nil b] at h
    have hr := Reads.whole (h.append ht)
    rw [Position.after_append, List.append_assoc] at hr
    exact hr
  | @faulty pre rest us f hu ht hf =>
    subst hu
    have hr := Reads.faulty (List.append_assoc a pre rest).symm (h.append ht) hf
    rw [Position.after_append] at hr
    exact hr

theorem visible_append (h : '\x00' ∉ a) (b : List Char) :
    visible (a ++ b) = a ++ visible b := by
  unfold visible
  apply List.takeWhile_append_of_pos
  intro c hc
  have hn : c ≠ '\x00' := fun e => h (e ▸ hc)
  simpa using hn

theorem visible_append_of_mem (h : '\x00' ∈ a) (b : List Char) : visible (a ++ b) = visible a := by
  induction a with
  | nil => cases h
  | cons c a ih =>
    rw [visible, visible, List.cons_append, List.takeWhile_cons, List.takeWhile_cons]
    by_cases hc : c = '\x00'
    · simp [hc]
    · have ha := ih ((List.mem_cons.mp h).resolve_left (Ne.symm hc))
      rw [visible, visible] at ha
      rw [ha]

theorem reads_behind (hn : '\x00' ∉ a) (ha : Tiled .origin a ts [])
    (hb : Reads .origin (visible b) us fault) :
    Reads .origin (visible (a ++ '\n' :: b))
      (ts ++ us.map (Token.down (1 + a.count '\n')))
      (fault.map (Diagnostic.down (1 + a.count '\n'))) := by
  have hd := hb.down (1 + a.count '\n')
  rw [← Position.origin_after_newline] at hd
  have hl : Tiled .origin (a ++ ['\n']) (ts ++ []) (visible b) :=
    (ha.of_end (.blank rfl .nil) (List.cons_ne_nil _ _) (visible b)).append
      (.gap (.blank rfl .nil))
  have hr := Reads.append hl hd
  rw [List.append_nil, List.append_assoc] at hr
  have hv : visible ('\n' :: b) = '\n' :: visible b := rfl
  rw [visible_append hn, hv]
  exact hr

/-! ## The goals behind an accepted text -/

theorem check_of_reads {cs : List Char} (h : Reads .origin (visible cs) ts fault) :
    check cs = verdict [.sections] ts fault := by
  rw [check_eq_verdict, tokenStream_of_reads h]

theorem check_of_visible {cs ds : List Char} (h : visible cs = visible ds) :
    check cs = check ds := by
  have hr := reads_tokenStream cs
  rw [check_of_reads hr]
  rw [h] at hr
  rw [check_of_reads hr]

theorem verdict_append (ts us : List Token) :
    verdict gs (ts ++ us) fault = (feedTokens gs ts).bind fun next => verdict next us fault := by
  unfold verdict
  rw [feedTokens_append]
  cases feedTokens gs ts <;> rfl

/-- Behind the tokens of an accepted text the goals are grounded and the end could come. -/
theorem exists_goals_of_accepted (h : check a = .ok ()) :
    ∃ ts gs rest, Tiled .origin (visible a) ts [] ∧ feedTokens [.sections] ts = .ok gs ∧
      Grounded gs ∧ feed gs .eof = .ok rest := by
  obtain ⟨ts, fault, hr⟩ := exists_reads .origin (visible a)
  rw [check_of_reads hr] at h
  obtain ⟨rfl, _⟩ := verdict_eq_ok_iff.mp h
  have hv := hr
  cases hv with
  | @whole ts ht =>
    rw [verdict_append] at h
    cases hf : feedTokens [.sections] ts with
    | error d =>
      rw [hf] at h
      cases h
    | ok gs =>
      have hg := (feedTokens_eq_ok_iff.mp hf).grounded grounded_sections hr.eof_not_mem
      cases he : feed gs .eof with
      | error e =>
        rw [hf, Except.bind, verdict_cons, he] at h
        cases h
      | ok rest => exact ⟨ts, gs, rest, ht, hf, hg, he⟩

/-- Whether a text is behind another or on its own, its first token is taken in the same way. -/
theorem verdict_of_grounded (hg : Grounded gs) (he : feed gs .eof = .ok next)
    (hk : ∀ t ∈ us.head?, t.kind ∈ sections.first) :
    verdict gs us fault = verdict [.sections] us fault := by
  cases us with
  | nil => cases fault <;> rfl
  | cons t us => rw [verdict_cons, verdict_cons, feed_of_grounded hg he (hk t rfl)]

/-! ## The verdict behind an accepted text -/

/-- A text that opens a section, or ends, or is faulty before its first token. -/
def OpensSection (b : List Char) : Prop :=
  ∀ t, (Cursor.load (.ofChars b) Discard.discard #[]).nextToken.1 = .ok t →
    t.kind = .type ∨ t.kind = .var ∨ t.kind = .eof

theorem head_of_opensSection (h : OpensSection b) (hr : Reads .origin (visible b) us fault) :
    ∀ t ∈ us.head?, t.kind ∈ sections.first := by
  intro t ht
  cases us with
  | nil => cases ht
  | cons s us =>
    cases ht
    obtain ⟨_, _, _, hg, _⟩ := hr.of_cons
    have ha := Cursor.load_at (.ofChars b) Discard.discard #[]
    rw [Source.text_ofChars] at ha
    obtain ⟨c, hc, _⟩ := hg _ ha
    simpa [first] using h t (by rw [hc])

theorem head_of_accepted (h : verdict [.sections] us fault = .ok ()) :
    ∀ t ∈ us.head?, t.kind ∈ sections.first := by
  intro t ht
  cases us with
  | nil => cases ht
  | cons s us =>
    cases ht
    rw [verdict_cons] at h
    cases hf : feed [.sections] t.kind with
    | error e =>
      rw [hf] at h
      cases h
    | ok next =>
      rcases feed_cases hf with ⟨new, hm, _⟩ | ⟨_, hn⟩
      · exact mem_first_of_take hm
      · cases hn

/-- The verdict on a text does not change behind an accepted one, except that its place is further
down. -/
theorem check_behind_accepted (hn : '\x00' ∉ a) (ha : check a = .ok ())
    (hb : Reads .origin (visible b) us fault) (hk : ∀ t ∈ us.head?, t.kind ∈ sections.first) :
    check (a ++ '\n' :: b) = (check b).mapError (Diagnostic.down (1 + a.count '\n')) := by
  obtain ⟨ts, gs, rest, ht, hf, hg, he⟩ := exists_goals_of_accepted ha
  rw [visible_of_not_mem hn] at ht
  calc check (a ++ '\n' :: b)
      = verdict gs (us.map (Token.down (1 + a.count '\n')))
          (fault.map (Diagnostic.down (1 + a.count '\n'))) := by
        rw [check_of_reads (reads_behind hn ht hb), verdict_append, hf]
        rfl
    _ = (verdict [.sections] us fault).mapError (Diagnostic.down (1 + a.count '\n')) := by
        rw [verdict_down, verdict_of_grounded hg he hk]
    _ = (check b).mapError (Diagnostic.down (1 + a.count '\n')) := by rw [check_of_reads hb]

/-- Texts of declarations in one file. Let `a` be accepted and without NUL, and let `b` open a section,
end, or be faulty before its first token. Then `b` on the line behind `a` is accepted just in case it
is accepted on its own, and otherwise is at fault in the same way and in the same column, as many
lines further down as there are in front of it. So accepted texts can be put behind each other. -/
theorem check_concatenation :
    (∀ a b : List Char, '\x00' ∉ a → check a = .ok () → OpensSection b →
      (check (a ++ '\n' :: b) = .ok () ↔ check b = .ok ()) ∧
      ∀ d, check b = .error d → check (a ++ '\n' :: b) =
        .error ⟨d.fault, ⟨d.position.line + (1 + a.count '\n'), d.position.col⟩⟩) ∧
    (∀ a b : List Char, check a = .ok () → check b = .ok () → check (a ++ '\n' :: b) = .ok ()) := by
  refine ⟨fun a b hn ha hb => ?_, fun a b ha hb => ?_⟩
  · obtain ⟨us, fault, hr⟩ := exists_reads .origin (visible b)
    rw [check_behind_accepted hn ha hr (head_of_opensSection hb hr)]
    refine ⟨?_, fun d hd => by rw [hd]; rfl⟩
    cases check b with
    | error d => exact iff_of_false nofun nofun
    | ok _ => exact Iff.rfl
  · by_cases hn : '\x00' ∈ a
    · -- the second text is behind the end of the first
      rw [← ha]
      exact check_of_visible (visible_append_of_mem hn _)
    · obtain ⟨us, fault, hr⟩ := exists_reads .origin (visible b)
      have hv := hb
      rw [check_of_reads hr] at hv
      rw [check_behind_accepted hn ha hr (head_of_accepted hv), hb]
      rfl

theorem check_concatenation_behind_empty_section :
    check "TYPE T = X;\nVAR\nVAR x y;".toList = .error ⟨.expected (.token .colon), ⟨3, 7⟩⟩ ∧
      check "TYPE T = X;\nVAR\nVAR x: T;".toList = .ok () := by
  have ha : check "TYPE T = X;\nVAR".toList = .ok () := by decide +kernel
  have hb : OpensSection "VAR x y;".toList := by
    intro t ht
    have he : (Cursor.load (.ofChars "VAR x y;".toList) Discard.discard #[]).nextToken.1 =
        .ok ⟨.var, "VAR", ⟨1, 1⟩⟩ := by decide +kernel
    rw [he] at ht
    cases ht
    exact Or.inr (Or.inl rfl)
  have hd : check "VAR x y;".toList = .error ⟨.expected (.token .colon), ⟨1, 7⟩⟩ := by
    decide +kernel
  exact ⟨(check_concatenation.1 _ _ (by decide +kernel) ha hb).2 _ hd,
    check_concatenation.2 _ "VAR x: T;".toList ha (by decide +kernel)⟩

end Modula

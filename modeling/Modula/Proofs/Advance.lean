import Modula.Proofs.Online
import Modula.Proofs.Token.Repetition

/-! # How far a cursor has come

A cursor in front of a source is moved on `k` times. The first move brings it to the start of the
text and each further one drops a character, until the text has ended and nothing changes any more
(`moved_at`). Every field can be read off the place that it has come to: what it looks at and where
that stands, how often the source was asked (`At.asked_of_drop`) and what it still has to give
(`moved_upcoming`), and what the sink got. -/

namespace Modula
set_option autoImplicit false

theorem Source.read_eq (s : Source) : s.read.2 = ⟨s.upcoming.tail, s.asked + 1⟩ := by
  rcases s with ⟨_ | _, _⟩ <;> rfl

namespace Cursor

variable {κ : Type} [Sink κ] {c : Cursor κ} {u : List Char} {p : Position}

/-! ## One move after the other -/

/-- The cursor once it has been moved on `k` times. -/
def moved (c : Cursor κ) (k : Nat) : Cursor κ := advance^[k] c

theorem moved_succ (c : Cursor κ) (k : Nat) : c.moved (k + 1) = (c.moved k).advance :=
  Function.iterate_succ_apply' _ k c

theorem moved_reaches (c : Cursor κ) (k : Nat) : Reaches c (c.moved k) := by
  induction k with
  | zero => exact .refl c
  | succ k ih =>
    rw [moved_succ]
    exact ih.advance

theorem At.advance_tail (h : c.At u p) : c.advance.At u.tail (p.after (u.take 1)) := by
  cases u with
  | nil => exact advance_at_nil h
  | cons ch u => exact h.advance

theorem moved_at (source : Source) (sink : κ) (journal : Journal) (k : Nat) :
    ((start source sink journal).moved (k + 1)).At (source.text.drop k)
      (.after .origin (source.text.take k)) := by
  induction k with
  | zero => exact load_at source sink journal
  | succ k ih =>
    have h := ih.advance_tail
    rw [← Position.after_append, ← List.take_add, List.tail_drop] at h
    rw [moved_succ]
    exact h

/-! ## Requests -/

omit [Sink κ] in
theorem At.asked_of_drop {n k : Nat} (h : c.At (u.drop k) p) (hc : Asks n u c) :
    c.source.asked = n + min (k + 1) (u.length + 1) := by
  have he : c.ended = true ↔ u.length ≤ k := by
    rw [h.ended, List.isEmpty_iff, List.drop_eq_nil_iff]
  unfold Asks at hc
  rw [h.unread, List.length_tail, List.length_drop] at hc
  split at hc
  · have hk := he.mp ‹_›
    omega
  · have hk := mt he.mpr ‹_›
    omega

theorem advance_source (c : Cursor κ) :
    c.advance.source = c.source ∨ c.advance.source = c.source.read.2 := by
  cases he : c.ended with
  | true =>
    rw [advance_of_ended he]
    exact .inl rfl
  | false =>
    cases hr : c.source.read.1.char.filter (· ≠ '\x00') with
    | none =>
      rw [advance_of_none he hr]
      exact .inr rfl
    | some ch =>
      rw [advance_of_some he hr]
      exact .inr rfl

/-- A source has given as many of its answers as it was asked for. -/
theorem moved_upcoming (source : Source) (sink : κ) (journal : Journal) (k : Nat) :
    ∃ j, ((start source sink journal).moved k).source =
      ⟨source.upcoming.drop j, source.asked + j⟩ := by
  induction k with
  | zero => exact ⟨0, rfl⟩
  | succ k ih =>
    obtain ⟨j, hj⟩ := ih
    rw [moved_succ]
    rcases advance_source ((start source sink journal).moved k) with hs | hs
    · exact ⟨j, hs.trans hj⟩
    · refine ⟨j + 1, ?_⟩
      have hr := Source.read_eq ⟨source.upcoming.drop j, source.asked + j⟩
      rw [hs, hj, hr, List.tail_drop]
      rfl

/-- A cursor in front of a source with the text `s` has been moved on `k` times. The source was
asked once for each move until it answered that the text has ended, and not again. The cursor looks
at the last character that it was given, the line and column of which follow from the characters
before it. The sink has got the characters that were given, in order. -/
theorem advances_exact (source : Source) (sink : κ) (journal : Journal) (k : Nat) :
    let s := source.text
    let n := s.length
    let j := min k (n + 1)
    let c := (start source sink journal).moved k
    c.source.asked = source.asked + j ∧
    c.source.upcoming = source.upcoming.drop j ∧
    c.current = (if k = 0 ∨ j = n + 1 then none else s[j - 1]?) ∧
    c.position = (if k = 0 then ⟨1, 0⟩ else .atOffset s (j - 1)) ∧
    c.sink = Sink.copied sink (s.take (min k n)) := by
  intro s n j c
  have hr := (start source sink journal).moved_reaches k
  have hsink : Copies sink s c := hr.copies ⟨[], rfl, rfl⟩
  cases k with
  | zero =>
    have hj : j = 0 := Nat.zero_min _
    have hm : min 0 n = 0 := Nat.zero_min _
    rw [hj, hm]
    exact ⟨rfl, rfl, rfl, rfl, rfl⟩
  | succ k =>
    have ha : c.At (s.drop k) (.after .origin (s.take k)) := moved_at source sink journal k
    have hasked : c.source.asked = source.asked + j := ha.asked_of_drop (hr.asks rfl)
    have hj : s.take (j - 1) = s.take k := List.take_eq_take_iff.mpr (by omega)
    have hm : s.take (min (k + 1) n) = s.take (k + 1) := List.take_eq_take_iff.mpr (by omega)
    refine ⟨hasked, ?_, ?_, ?_, ?_⟩
    · obtain ⟨i, hi⟩ := moved_upcoming source sink journal (k + 1)
      have hc : c.source = ⟨source.upcoming.drop i, source.asked + i⟩ := hi
      rw [hc] at hasked
      have hij : i = j := Nat.add_left_cancel hasked
      rw [hc, hij]
    · rw [ha.current, List.head?_drop]
      split
      · -- the text has ended, since `j` is past its last character
        exact List.getElem?_eq_none (by omega)
      · have hk : j - 1 = k := by omega
        rw [hk]
    · rw [ha.position, Position.after_take, if_neg (Nat.succ_ne_zero k), Position.atOffset,
        Position.atOffset, hj]
    · rw [hm]
      apply ha.sink_eq
      rw [List.tail_drop, List.take_append_drop]
      exact hsink

end Cursor
end Modula

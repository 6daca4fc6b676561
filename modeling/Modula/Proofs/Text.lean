import Mathlib.Data.List.TakeWhile
import Modula.Cursor

/-! # The text at a cursor

`c.At cs p` says that the characters from the cursor on are `cs` and that the first of them stands
at `p`. The text of a source ends with the first answer that is no character or a NUL. Moving on
drops one character and counts it (`At.advance`), so a reader is followed on the characters
alone. -/

namespace Modula
set_option autoImplicit false

/-! ## Places behind a text -/

namespace Position

/-- The place of the first character of a text. -/
def origin : Position := ⟨1, 1⟩

/-- The place behind the characters `cs`, the first of which stands at `p`. -/
def after (p : Position) (cs : List Char) : Position := cs.foldl (fun q c => q.next (some c)) p

@[simp] theorem after_nil (p : Position) : p.after [] = p := rfl

@[simp] theorem after_cons (p : Position) (c : Char) (cs : List Char) :
    p.after (c :: cs) = (p.next (some c)).after cs := rfl

@[simp] theorem after_append (p : Position) (cs ds : List Char) :
    p.after (cs ++ ds) = (p.after cs).after ds := List.foldl_append

theorem after_line (p : Position) (cs : List Char) :
    (p.after cs).line = p.line + cs.count '\n' := by
  induction cs generalizing p with
  | nil => rfl
  | cons c cs ih =>
    rw [after_cons, ih]
    by_cases hc : c = '\n'
    · subst hc
      rw [next_newline, List.count_cons_self, Nat.add_assoc, Nat.add_comm 1]
    · have hn : some c ≠ some '\n' := fun h => hc (Option.some.inj h)
      rw [next_of_ne p hn, List.count_cons_of_ne hc]

end Position

/-! ## The text of a source -/

/-- The characters of a text before its first NUL. -/
def visible (cs : List Char) : List Char := cs.takeWhile (· ≠ '\x00')

theorem visible_of_not_mem {cs : List Char} (h : '\x00' ∉ cs) : visible cs = cs := by
  apply List.takeWhile_eq_self_iff.mpr
  intro c hc
  have hn : c ≠ '\x00' := fun e => h (e ▸ hc)
  simpa using hn

namespace Source

/-- The characters that answers give up to the first that gives none or a NUL. -/
def textOf : List Reading → List Char
  | [] => []
  | r :: rs =>
    match r.char.filter (· ≠ '\x00') with
    | none => []
    | some ch => ch :: textOf rs

def text (s : Source) : List Char := textOf s.upcoming

theorem text_ofChars (cs : List Char) : (ofChars cs).text = visible cs := by
  unfold text ofChars ofReadings visible
  induction cs with
  | nil => rfl
  | cons c cs ih =>
    rw [List.map_cons, textOf, List.takeWhile_cons, Reading.ofChar]
    by_cases hc : c = '\x00'
    · simp [hc, Option.filter_some]
    · simpa [hc, Option.filter_some] using ih

theorem visible_text (s : Source) : visible s.text = s.text := by
  unfold text visible
  induction s.upcoming with
  | nil => rfl
  | cons r rs ih =>
    rw [textOf]
    cases hr : r.char.filter (· ≠ '\x00') with
    | none => rfl
    | some ch =>
      have hc := (Option.filter_eq_some_iff.mp hr).2
      dsimp only
      rw [List.takeWhile_cons, if_pos hc, ih]

theorem text_of_none {s : Source} (h : s.read.1.char.filter (· ≠ '\x00') = none) :
    s.text = [] := by
  rcases s with ⟨_ | ⟨r, rs⟩, n⟩
  · rfl
  · rw [read_cons] at h
    rw [text, textOf, h]

theorem text_of_some {s : Source} {ch : Char}
    (h : s.read.1.char.filter (· ≠ '\x00') = some ch) : s.text = ch :: s.read.2.text := by
  rcases s with ⟨_ | ⟨r, rs⟩, n⟩
  · cases h
  · rw [read_cons] at h ⊢
    rw [text, textOf, h]
    rfl

end Source

/-! ## The text at a cursor -/

namespace Cursor

variable {κ : Type} {c : Cursor κ} {ch : Char} {cs : List Char} {p : Position}

/-- The characters from the cursor on are `cs`, and the first of them stands at `p`. -/
structure At (c : Cursor κ) (cs : List Char) (p : Position) : Prop where
  current : c.current = cs.head?
  source : cs ≠ [] → c.source.text = cs.tail
  ended : c.ended = cs.isEmpty
  position : c.position = p

theorem At.current_nil (h : c.At [] p) : c.current = none := h.current

theorem At.current_cons (h : c.At (ch :: cs) p) : c.current = some ch := h.current

theorem At.note (h : c.At cs p) (e : Event) : (c.note e).At cs p :=
  ⟨h.current, h.source, h.ended, h.position⟩

variable [Sink κ]

theorem advance_at (h : c.ended = false) :
    c.advance.At c.source.text (c.position.next c.current) := by
  cases hr : c.source.read.1.char.filter (· ≠ '\x00') with
  | none =>
    rw [advance_of_none h hr, Source.text_of_none hr]
    exact ⟨rfl, fun hn => absurd rfl hn, rfl, rfl⟩
  | some ch =>
    rw [advance_of_some h hr, Source.text_of_some hr]
    exact ⟨rfl, fun _ => rfl, rfl, rfl⟩

theorem At.advance (h : c.At (ch :: cs) p) : c.advance.At cs (p.next (some ch)) := by
  have ha := advance_at (h.ended.trans rfl)
  rw [h.source (List.cons_ne_nil ch cs), h.position, h.current_cons] at ha
  exact ha

theorem load_at (source : Source) (sink : κ) (journal : Journal) :
    (load source sink journal).At source.text .origin :=
  advance_at (c := start source sink journal) rfl

end Cursor
end Modula

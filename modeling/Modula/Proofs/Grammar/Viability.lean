import Modula.Proofs.Grammar.Lookahead

/-! # Viable rows

A stack of goals is fed one kind after the other.

* `Orderly gs`: behind every goal of the stack only kinds of its `follow` can come. It holds of the
  goal of a whole text and every step keeps it (`feed_orderly`).
* `meets_feed`: on an orderly stack a step is exact. What is left after the kind is met by the same
  rows that the stack was met by with the kind in front.
* `Fed gs v rest`: the row `v` turns the goals `gs` into `rest`. By induction on the row, what is fed
  to the goal of a whole text is what some sentence starts with (`viable_iff_fed`), which makes
  `Viable` decidable. -/

namespace Modula.Grammar
set_option autoImplicit false

open Goal

variable {g : Goal} {gs new rest : List Goal} {k : TokenKind} {v w : List TokenKind}

/-! ## One step of a stack -/

theorem feed_of_take (h : g.move k = .take new) : feed (g :: gs) k = .ok (new ++ gs) := by
  rw [feed, h]

theorem feed_of_pass (h : g.move k = .pass) : feed (g :: gs) k = feed gs k := by
  rw [feed, h]

theorem feed_of_fail {e : Expectation} (h : g.move k = .fail e) :
    feed (g :: gs) k = .error e := by
  rw [feed, h]

/-- Where the kind that a stack takes goes: to the topmost goal, or past it to the others. -/
theorem feed_cases (h : feed (g :: gs) k = .ok rest) :
    (∃ new, g.move k = .take new ∧ rest = new ++ gs) ∨
      (g.move k = .pass ∧ feed gs k = .ok rest) := by
  cases hm : g.move k with
  | take new =>
    rw [feed_of_take hm] at h
    exact Or.inl ⟨new, rfl, (Except.ok.inj h).symm⟩
  | pass =>
    rw [feed_of_pass hm] at h
    exact Or.inr ⟨rfl, h⟩
  | fail e =>
    rw [feed_of_fail hm] at h
    cases h

theorem feed_of_meets (h : Meets (forms gs) (k :: w)) : ∃ rest, feed gs k = .ok rest := by
  induction gs with
  | nil => cases h
  | cons g gs ih =>
    rcases (meets_form_cons g).mp h with ⟨hg, hw⟩ | ⟨new, hm, _⟩
    · cases hm : g.move k with
      | take new => exact ⟨_, feed_of_take hm⟩
      | pass =>
        rw [feed_of_pass hm]
        exact ih hw
      | fail e => exact absurd hm (move_ne_fail hg)
    · exact ⟨_, feed_of_take hm⟩

/-! ## Orderly stacks -/

/-- Behind every goal of the stack only kinds of its `follow` can come. -/
def Orderly : List Goal → Prop
  | [] => True
  | g :: gs => (∀ k rest, feed gs k = .ok rest → k ∈ g.follow) ∧ Orderly gs

/-- The kinds that goals may take if kinds of `behind` may come behind them. -/
def starts (behind : List TokenKind) : List Goal → List TokenKind
  | [] => behind
  | g :: gs => g.first ++ if g.nullable then starts behind gs else []

/-- Whether goals are orderly if kinds of `behind` may come behind them. -/
def orderly (behind : List TokenKind) : List Goal → Bool
  | [] => true
  | g :: gs => (starts behind gs).all (· ∈ g.follow) && orderly behind gs

/-- The goals that a goal leaves in its place are orderly whatever stood behind it. -/
theorem orderly_of_take (h : g.move k = .take new) : orderly g.follow new = true := by
  cases g with
  | token c =>
    by_cases hk : k = c
    · simp only [move, if_pos hk] at h
      cases h
      rfl
    · simp only [move, if_neg hk] at h
      cases h
  | _ => cases k <;> cases h <;> decide

theorem mem_starts {behind : List TokenKind} (hb : ∀ k rest, feed gs k = .ok rest → k ∈ behind)
    (h : feed (new ++ gs) k = .ok rest) : k ∈ starts behind new := by
  induction new with
  | nil => exact hb k rest h
  | cons g new ih =>
    rw [starts, List.mem_append]
    -- the kind is one of the first goal, or that goal passes and the others take it
    rcases feed_cases h with ⟨new', hm, _⟩ | ⟨hm, hf⟩
    · exact Or.inl (mem_first_of_take hm)
    · rw [if_pos (nullable_of_pass hm)]
      exact Or.inr (ih hf)

theorem orderly_append {behind : List TokenKind}
    (hb : ∀ k rest, feed gs k = .ok rest → k ∈ behind) (hn : orderly behind new = true)
    (hg : Orderly gs) : Orderly (new ++ gs) := by
  induction new with
  | nil => exact hg
  | cons g new ih =>
    rw [orderly, Bool.and_eq_true, List.all_eq_true] at hn
    refine ⟨fun k rest h => ?_, ih hn.2⟩
    exact of_decide_eq_true (hn.1 k (mem_starts hb h))

theorem feed_orderly (hg : Orderly gs) (h : feed gs k = .ok rest) : Orderly rest := by
  induction gs with
  | nil => cases h
  | cons g gs ih =>
    rcases feed_cases h with ⟨new, hm, rfl⟩ | ⟨_, hf⟩
    · exact orderly_append hg.1 (orderly_of_take hm) hg.2
    · exact ih hg.2 hf

theorem orderly_sections : Orderly [.sections] := by
  refine ⟨fun k rest h => ?_, trivial⟩
  cases h

/-- A step is exact: the kind in front and a row meet an orderly stack just in case the row meets
what the kind leaves of it. -/
theorem meets_feed (hg : Orderly gs) (h : feed gs k = .ok rest) :
    Meets (forms gs) (k :: w) ↔ Meets (forms rest) w := by
  induction gs with
  | nil => cases h
  | cons g gs ih =>
    rw [forms_cons, meets_form_cons]
    rcases feed_cases h with ⟨new, hm, rfl⟩ | ⟨hm, hf⟩
    · -- the goal takes the kind, so by the order of the stack nothing behind it could
      have hn : ¬ (g.nullable = true ∧ Meets (forms gs) (k :: w)) := by
        intro hx
        obtain ⟨hn, hw⟩ := hx
        obtain ⟨rest', hr⟩ := feed_of_meets hw
        exact first_disjoint_follow hn (mem_first_of_take hm) (hg.1 k rest' hr)
      rw [or_iff_right hn, forms_append]
      constructor
      · intro hx
        obtain ⟨new', hm', hw⟩ := hx
        rw [hm] at hm'
        cases hm'
        exact hw
      · intro hw
        exact ⟨new, hm, hw⟩
    · have ht : ¬ ∃ new, g.move k = .take new ∧ Meets (forms new ++ forms gs) w := by
        intro hx
        obtain ⟨new, hn, _⟩ := hx
        rw [hm] at hn
        cases hn
      rw [← ih hg.2 hf]
      exact (or_iff_left ht).trans (and_iff_right (nullable_of_pass hm))

/-! ## Rows -/

/-- `Fed gs v rest`: the row `v`, fed kind by kind to the goals `gs`, leaves the goals `rest`. -/
inductive Fed : List Goal → List TokenKind → List Goal → Prop where
  | nil (gs : List Goal) : Fed gs [] gs
  | cons {gs next rest : List Goal} {k : TokenKind} {v : List TokenKind} :
      feed gs k = .ok next → Fed next v rest → Fed gs (k :: v) rest

/-- A run is exact: what a row leaves of an orderly stack is met by the rows that complete it. -/
theorem Fed.meets_iff (h : Fed gs v rest) (hg : Orderly gs) :
    Meets (forms gs) (v ++ w) ↔ Meets (forms rest) w := by
  induction h with
  | nil => exact Iff.rfl
  | cons hk _ ih => exact (meets_feed hg hk).trans (ih (feed_orderly hg hk))

theorem Fed.snoc (h : Fed gs v rest) (hk : feed rest k = .ok new) : Fed gs (v ++ [k]) new := by
  induction h with
  | nil => exact .cons hk (.nil new)
  | cons hf _ ih => exact .cons hf (ih hk)

theorem fed_of_meets (hg : Orderly gs) (h : Meets (forms gs) (v ++ w)) :
    ∃ rest, Fed gs v rest := by
  induction v generalizing gs with
  | nil => exact ⟨gs, .nil gs⟩
  | cons k v ih =>
    obtain ⟨next, hk⟩ := feed_of_meets h
    obtain ⟨rest, hr⟩ := ih (feed_orderly hg hk) ((meets_feed hg hk).mp h)
    exact ⟨rest, .cons hk hr⟩

theorem exists_meets (gs : List Goal) : ∃ w, Meets (forms gs) w := by
  induction gs with
  | nil => exact ⟨[], .nil⟩
  | cons g gs ih =>
    obtain ⟨v, hv⟩ := exists_derives g
    obtain ⟨w, hw⟩ := ih
    exact ⟨v ++ w, .cons hv hw⟩

theorem viable_iff_fed : Viable v ↔ ∃ rest, Fed [.sections] v rest := by
  constructor
  · intro hx
    obtain ⟨w, h⟩ := hx
    exact fed_of_meets orderly_sections (meets_singleton.mpr h)
  · intro hx
    obtain ⟨rest, h⟩ := hx
    obtain ⟨w, hw⟩ := exists_meets rest
    exact ⟨w, meets_singleton.mp ((h.meets_iff orderly_sections).mpr hw)⟩

/-- Behind a viable row, a kind is viable just in case the goals that are left take it. -/
theorem Fed.viable_snoc_iff (h : Fed [.sections] v rest) :
    Viable (v ++ [k]) ↔ ∃ next, feed rest k = .ok next := by
  constructor
  · intro hx
    obtain ⟨w, hw⟩ := hx
    have hm : Meets (forms [.sections]) (v ++ ([k] ++ w)) := by
      rw [← List.append_assoc]
      exact meets_singleton.mpr hw
    exact feed_of_meets ((h.meets_iff orderly_sections).mp hm)
  · intro hx
    obtain ⟨next, hk⟩ := hx
    exact viable_iff_fed.mpr ⟨next, h.snoc hk⟩

/-! ## Deciding viability -/

theorem not_fed_cons {e : Expectation} (h : feed gs k = .error e) :
    ¬ ∃ rest, Fed gs (k :: v) rest := by
  intro hx
  obtain ⟨rest, hr⟩ := hx
  cases hr with
  | cons hk _ =>
    rw [h] at hk
    cases hk

theorem fed_cons_iff {next : List Goal} (h : feed gs k = .ok next) :
    (∃ rest, Fed next v rest) ↔ ∃ rest, Fed gs (k :: v) rest := by
  constructor
  · intro hx
    obtain ⟨rest, hr⟩ := hx
    exact ⟨rest, .cons h hr⟩
  · intro hx
    obtain ⟨rest, hr⟩ := hx
    cases hr with
    | cons hk hr =>
      rw [h] at hk
      cases hk
      exact ⟨rest, hr⟩

/-- Goals are run over a row to decide whether they take it. -/
def decidableFed : (gs : List Goal) → (v : List TokenKind) → Decidable (∃ rest, Fed gs v rest)
  | gs, [] => .isTrue ⟨gs, .nil gs⟩
  | gs, k :: v =>
    match h : feed gs k with
    | .error _ => .isFalse (not_fed_cons h)
    | .ok next => @decidable_of_iff _ _ (fed_cons_iff h) (decidableFed next v)

instance decidableViable (v : List TokenKind) : Decidable (Viable v) :=
  @decidable_of_iff _ _ viable_iff_fed.symm (decidableFed [.sections] v)

end Modula.Grammar

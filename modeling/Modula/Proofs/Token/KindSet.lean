import Mathlib.Data.Nat.Bitwise
import Modula.Token.KindSet

/-! # Membership in sets of kinds

The word of a set is read one bit at a time: the bit that the code of a kind counts tells whether
the kind is a member (`contains_eq_testBit`), and no two kinds have one code. So adding a kind adds
that kind alone (`contains_insert`), and the set of a list has the members of the list
(`contains_ofList`). A set that is put together from lists has no other bits than those of its
members (`Tidy`), which makes its word a matter of its members alone (`Tidy.eq_iff`). No bit falls
out of the word on the way, so numbers of any size would do the same (`ofLists_faithful`). -/

namespace Modula.KindSet
set_option autoImplicit false

variable {k l : TokenKind} {s t : KindSet}

/-! ## The bits of a word -/

theorem toNat_bit (k : TokenKind) : (bit k).toNat = 1 <<< k.code := by
  have hk := k.code_lt
  have hp : 2 ^ k.code < 2 ^ 32 := Nat.pow_lt_pow_right (by decide) (by omega)
  have hc : (UInt32.ofNat k.code).toNat % 32 = k.code := by
    rw [UInt32.toNat_ofNat']
    omega
  rw [bit, UInt32.toNat_shiftLeft, hc, UInt32.toNat_one, Nat.one_shiftLeft, Nat.mod_eq_of_lt hp]

theorem testBit_bit (k : TokenKind) (i : Nat) :
    (bit k).toNat.testBit i = true ↔ k.code = i := by
  rw [toNat_bit, Nat.one_shiftLeft, Nat.testBit_two_pow, decide_eq_true_iff]

theorem testBit_insert (s : KindSet) (k : TokenKind) (i : Nat) :
    (s.insert k).bits.toNat.testBit i = true ↔ s.bits.toNat.testBit i = true ∨ k.code = i := by
  rw [insert, UInt32.toNat_or, Nat.testBit_or, Bool.or_eq_true, testBit_bit]

theorem testBit_union (s t : KindSet) (i : Nat) :
    (s.union t).bits.toNat.testBit i = true ↔
      s.bits.toNat.testBit i = true ∨ t.bits.toNat.testBit i = true := by
  rw [union, UInt32.toNat_or, Nat.testBit_or, Bool.or_eq_true]

/-! ## Members -/

theorem contains_eq_bne (s : KindSet) (k : TokenKind) :
    s.contains k = (s.bits.toNat &&& 1 <<< k.code != 0) := by
  rw [contains, Bool.eq_iff_iff, bne_iff_ne, bne_iff_ne, ne_eq, ne_eq, ← UInt32.toNat_inj,
    UInt32.toNat_and, toNat_bit, UInt32.toNat_zero]

theorem contains_eq_testBit (s : KindSet) (k : TokenKind) :
    s.contains k = s.bits.toNat.testBit k.code := by
  rw [contains_eq_bne, Nat.one_shiftLeft, Nat.and_two_pow]
  cases s.bits.toNat.testBit k.code <;> simp

@[simp] theorem contains_empty : empty.contains k = false := by
  simp [contains_eq_testBit, empty]

@[simp] theorem contains_insert :
    (s.insert k).contains l = true ↔ s.contains l = true ∨ l = k := by
  have hc : k.code = l.code ↔ l = k := ⟨fun h => TokenKind.code_inj h.symm, fun h => by rw [h]⟩
  rw [contains_eq_testBit, testBit_insert, contains_eq_testBit, hc]

@[simp] theorem contains_union :
    (s.union t).contains k = true ↔ s.contains k = true ∨ t.contains k = true := by
  simp only [contains_eq_testBit, testBit_union]

theorem contains_foldl_insert (s : KindSet) (ks : List TokenKind) :
    (ks.foldl insert s).contains k = true ↔ s.contains k = true ∨ k ∈ ks := by
  induction ks generalizing s with
  | nil => simp
  | cons l ks ih => rw [List.foldl_cons, ih, contains_insert, List.mem_cons, or_assoc]

@[simp] theorem contains_ofList (ks : List TokenKind) :
    (ofList ks).contains k = true ↔ k ∈ ks := by
  rw [ofList, contains_foldl_insert, contains_empty, Bool.false_eq_true, false_or]

/-! ## Words without other bits -/

/-- Every bit of the word is the bit of a kind. -/
def Tidy (s : KindSet) : Prop := ∀ i, s.bits.toNat.testBit i = true → ∃ k : TokenKind, k.code = i

theorem tidy_empty : Tidy empty := by
  intro i hi
  simp [empty] at hi

theorem Tidy.insert (h : Tidy s) (k : TokenKind) : Tidy (s.insert k) := by
  intro i hi
  rcases (testBit_insert s k i).mp hi with hs | hk
  · exact h i hs
  · exact ⟨k, hk⟩

theorem Tidy.union (h : Tidy s) (h' : Tidy t) : Tidy (s.union t) := by
  intro i hi
  exact ((testBit_union s t i).mp hi).elim (h i) (h' i)

theorem Tidy.eq_iff (h : Tidy s) (h' : Tidy t) : s = t ↔ ∀ k, s.contains k = t.contains k := by
  constructor
  · rintro rfl k
    rfl
  · intro hk
    have hb : s.bits.toNat = t.bits.toNat := by
      apply Nat.eq_of_testBit_eq
      intro i
      by_cases hi : ∃ k : TokenKind, k.code = i
      · obtain ⟨k, rfl⟩ := hi
        rw [← contains_eq_testBit, ← contains_eq_testBit, hk]
      · -- a bit that no code counts is set in neither word
        have hs := mt (h i) hi
        have ht := mt (h' i) hi
        rw [Bool.not_eq_true] at hs ht
        rw [hs, ht]
    cases s
    cases t
    exact congrArg KindSet.mk (UInt32.toNat_inj.mp hb)

/-! ## Unions of lists -/

/-- The set of the kinds in some lists: the union of the empty set with the set of each in turn. -/
def ofLists (lists : List (List TokenKind)) : KindSet :=
  lists.foldl (fun s kinds => s.union (ofList kinds)) empty

theorem tidy_ofList (kinds : List TokenKind) : Tidy (ofList kinds) :=
  List.foldlRecOn kinds KindSet.insert tidy_empty fun _ h k _ => h.insert k

theorem tidy_ofLists (lists : List (List TokenKind)) : Tidy (ofLists lists) :=
  List.foldlRecOn lists _ tidy_empty fun _ h kinds _ => h.union (tidy_ofList kinds)

theorem contains_foldl_union (s : KindSet) (lists : List (List TokenKind)) :
    (lists.foldl (fun s kinds => s.union (ofList kinds)) s).contains k = true ↔
      s.contains k = true ∨ ∃ kinds ∈ lists, k ∈ kinds := by
  induction lists generalizing s with
  | nil => simp
  | cons kinds lists ih => simp [ih, or_assoc]

theorem contains_ofLists (lists : List (List TokenKind)) :
    (ofLists lists).contains k = true ↔ ∃ kinds ∈ lists, k ∈ kinds := by
  simp [ofLists, contains_foldl_union]

theorem ofLists_eq_iff (lists lists' : List (List TokenKind)) :
    ofLists lists = ofLists lists' ↔ ∀ k, k ∈ lists.flatten ↔ k ∈ lists'.flatten := by
  rw [(tidy_ofLists lists).eq_iff (tidy_ofLists lists')]
  apply forall_congr'
  intro k
  rw [Bool.eq_iff_iff, contains_ofLists, contains_ofLists, List.mem_flatten, List.mem_flatten]

/-! ## Words without a bound -/

/-- The word of a list of kinds, computed on numbers of any size. -/
def wideOfList (kinds : List TokenKind) : Nat := kinds.foldl (fun w k => w ||| 1 <<< k.code) 0

/-- The word of some lists of kinds, computed on numbers of any size. -/
def wideOfLists (lists : List (List TokenKind)) : Nat :=
  lists.foldl (fun w kinds => w ||| wideOfList kinds) 0

theorem toNat_ofList (kinds : List TokenKind) : (ofList kinds).bits.toNat = wideOfList kinds := by
  unfold ofList wideOfList
  refine (List.foldl_hom (fun s : KindSet => s.bits.toNat) ?_).symm
  intro s k
  rw [insert, UInt32.toNat_or, toNat_bit]

theorem toNat_ofLists (lists : List (List TokenKind)) :
    (ofLists lists).bits.toNat = wideOfLists lists := by
  unfold ofLists wideOfLists
  refine (List.foldl_hom (fun s : KindSet => s.bits.toNat) ?_).symm
  intro s kinds
  rw [union, UInt32.toNat_or, toNat_ofList]

/-- A set that is put together from lists of kinds has the kinds in the lists as its members. Two
such sets are equal just in case they have the same members, so only the kinds in all the lists
matter, not how they are ordered, repeated or shared out among the lists. No shift is longer than
the word, and numbers of any size in its place come to the same. -/
theorem ofLists_faithful (lists lists' : List (List TokenKind)) :
    (∀ k, (ofLists lists).contains k = true ↔ ∃ kinds ∈ lists, k ∈ kinds) ∧
    (ofLists lists = ofLists lists' ↔
      ∀ k, (ofLists lists).contains k = (ofLists lists').contains k) ∧
    (ofLists lists = ofLists lists' ↔ ∀ k, k ∈ lists.flatten ↔ k ∈ lists'.flatten) ∧
    (∀ k : TokenKind, k.code < 32 ∧ (bit k).toNat = 1 <<< k.code) ∧
    (∀ kinds, (ofList kinds).bits.toNat = wideOfList kinds) ∧
    (ofLists lists).bits.toNat = wideOfLists lists ∧
    ∀ k, (ofLists lists).contains k = (wideOfLists lists &&& 1 <<< k.code != 0) := by
  refine ⟨fun k => contains_ofLists lists, (tidy_ofLists lists).eq_iff (tidy_ofLists lists'),
    ofLists_eq_iff lists lists', fun k => ⟨?_, toNat_bit k⟩, toNat_ofList, toNat_ofLists lists,
    fun k => ?_⟩
  · have hk := k.code_lt
    omega
  · rw [contains_eq_bne, toNat_ofLists]

end Modula.KindSet

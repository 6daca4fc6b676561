import Mathlib.Tactic.SplitIfs
import Modula.Text.Utf8

/-! # The bytes of a character

A character is a lead byte, which announces how many bytes follow, and that many continuation
bytes, and together they carry its number (`Utf8.encoding_spec`). So the bytes of a character give
it back (`Spells.decodeChar?`), and its last byte ends a line just in case the character does
(`getLast?_encode_eq_newline_iff`). Bytes of that form that carry a number in a longer form than it
needs, or one that no character has, are the bytes of no character (`Unfit.encode_ne`). -/

namespace Modula.Utf8
set_option autoImplicit false

/-! ## Bytes as numbers -/

theorem isContinuation_iff (b : UInt8) :
    isContinuation b = true ↔ 0x80 ≤ b.toNat ∧ b.toNat < 0xC0 := by
  have all : ∀ n : Fin 256,
      isContinuation (UInt8.ofFin n) = true ↔ 0x80 ≤ n.val ∧ n.val < 0xC0 := by
    decide +kernel
  exact all b.toFin

theorem isContinuation_iff_le (b : UInt8) : isContinuation b = true ↔ 0x80 ≤ b ∧ b ≤ 0xBF := by
  rw [isContinuation_iff, UInt8.le_iff_toNat_le, UInt8.le_iff_toNat_le]
  show 0x80 ≤ b.toNat ∧ b.toNat < 0xC0 ↔ 0x80 ≤ b.toNat ∧ b.toNat ≤ 0xBF
  omega

theorem toNat_ofNat_of_lt {n : Nat} (h : n < 256) : (UInt8.ofNat n).toNat = n := by
  rw [UInt8.toNat_ofNat', Nat.mod_eq_of_lt h]

/-- The continuation byte that carries the six lowest bits of a number. -/
def follower (n : Nat) : UInt8 := UInt8.ofNat (n % 0x40 + 0x80)

theorem follower_toNat (n : Nat) : (follower n).toNat = n % 0x40 + 0x80 := by
  have hn : n % 0x40 < 0x40 := Nat.mod_lt n (by decide)
  exact toNat_ofNat_of_lt (by omega)

theorem isContinuation_follower (n : Nat) : isContinuation (follower n) = true := by
  rw [isContinuation_iff, follower_toNat]
  omega

theorem isContinuation_of_mem_followers {ns : List Nat} :
    ∀ b ∈ ns.map follower, isContinuation b = true := by
  intro b hb
  obtain ⟨n, _, rfl⟩ := List.mem_map.mp hb
  exact isContinuation_follower n

theorem width?_of_toNat (b : UInt8) : width? b =
    if b.toNat < 0x80 then some 1
    else if b.toNat < 0xC2 then none
    else if b.toNat < 0xE0 then some 2
    else if b.toNat < 0xF0 then some 3
    else if b.toNat < 0xF5 then some 4
    else none := rfl

/-! ## One character -/

/-- The bytes `lead :: rest` are as many as `lead` announces and carry the number of `c`. -/
structure Spells (c : Char) (lead : UInt8) (rest : List UInt8) : Prop where
  width : width? lead = some (rest.length + 1)
  continuation : ∀ b ∈ rest, isContinuation b = true
  number : value lead rest = c.toNat

theorem spells_one {c : Char} (h : c.toNat ≤ 0x7F) : Spells c (UInt8.ofNat c.toNat) [] := by
  have hl : (UInt8.ofNat c.toNat).toNat = c.toNat := toNat_ofNat_of_lt (by omega)
  refine ⟨?_, by simp, hl⟩
  rw [width?_of_toNat, hl, if_pos (by omega)]
  rfl

theorem spells_two {c : Char} (h : 0x7F < c.toNat) (h' : c.toNat ≤ 0x7FF) :
    Spells c (UInt8.ofNat (c.toNat / 64 % 0x20 + 0xC0)) ([c.toNat].map follower) := by
  have hl : (UInt8.ofNat (c.toNat / 64 % 0x20 + 0xC0)).toNat = c.toNat / 64 + 0xC0 := by
    rw [toNat_ofNat_of_lt (by omega)]
    omega
  refine ⟨?_, isContinuation_of_mem_followers, ?_⟩
  · rw [width?_of_toNat, hl, if_neg (by omega), if_neg (by omega), if_pos (by omega)]
    rfl
  · simp only [value, List.map_cons, List.map_nil, List.length_cons, List.length_nil,
      List.foldl_cons, List.foldl_nil, hl, follower_toNat]
    omega

theorem spells_three {c : Char} (h : 0x7FF < c.toNat) (h' : c.toNat ≤ 0xFFFF) :
    Spells c (UInt8.ofNat (c.toNat / 4096 % 0x10 + 0xE0))
      ([c.toNat / 64, c.toNat].map follower) := by
  have hl : (UInt8.ofNat (c.toNat / 4096 % 0x10 + 0xE0)).toNat = c.toNat / 4096 + 0xE0 := by
    rw [toNat_ofNat_of_lt (by omega)]
    omega
  refine ⟨?_, isContinuation_of_mem_followers, ?_⟩
  · rw [width?_of_toNat, hl, if_neg (by omega), if_neg (by omega), if_neg (by omega),
      if_pos (by omega)]
    rfl
  · simp only [value, List.map_cons, List.map_nil, List.length_cons, List.length_nil,
      List.foldl_cons, List.foldl_nil, hl, follower_toNat]
    omega

theorem spells_four {c : Char} (h : 0xFFFF < c.toNat) :
    Spells c (UInt8.ofNat (c.toNat / 262144 % 0x08 + 0xF0))
      ([c.toNat / 4096, c.toNat / 64, c.toNat].map follower) := by
  -- no character has a number past the last code point
  have hc : c.toNat < 0x110000 := by
    rcases c.valid with hv | hv
    · exact Nat.lt_trans hv (by decide)
    · exact hv.2
  have hl : (UInt8.ofNat (c.toNat / 262144 % 0x08 + 0xF0)).toNat = c.toNat / 262144 + 0xF0 := by
    rw [toNat_ofNat_of_lt (by omega)]
    omega
  refine ⟨?_, isContinuation_of_mem_followers, ?_⟩
  · rw [width?_of_toNat, hl, if_neg (by omega), if_neg (by omega), if_neg (by omega),
      if_neg (by omega), if_pos (by omega)]
    rfl
  · simp only [value, List.map_cons, List.map_nil, List.length_cons, List.length_nil,
      List.foldl_cons, List.foldl_nil, hl, follower_toNat]
    omega

theorem encoding_spec (c : Char) :
    ∃ lead rest, String.utf8EncodeChar c = lead :: rest ∧ Spells c lead rest := by
  unfold String.utf8EncodeChar
  dsimp only
  split
  · next h1 => exact ⟨_, _, rfl, spells_one h1⟩
  · next h1 =>
    split
    · next h2 => exact ⟨_, _, rfl, spells_two (Nat.lt_of_not_le h1) h2⟩
    · next h2 =>
      split
      · next h3 => exact ⟨_, _, rfl, spells_three (Nat.lt_of_not_le h2) h3⟩
      · next h3 => exact ⟨_, _, rfl, spells_four (Nat.lt_of_not_le h3)⟩

theorem Spells.decodeChar? {c : Char} {lead : UInt8} {rest : List UInt8} (h : Spells c lead rest)
    (he : String.utf8EncodeChar c = lead :: rest) : Utf8.decodeChar? lead rest = some c := by
  have hc : Char.ofNat (value lead rest) = c := by rw [h.number, Char.ofNat_toNat]
  simp only [Utf8.decodeChar?, hc, he, if_true]

theorem spells_of_encode {c : Char} {lead : UInt8} {rest : List UInt8}
    (h : String.utf8EncodeChar c = lead :: rest) : Spells c lead rest := by
  obtain ⟨lead', rest', he, hs⟩ := encoding_spec c
  rw [h] at he
  obtain ⟨rfl, rfl⟩ := List.cons.inj he
  exact hs

/-! ## Bytes of no character -/

section NoCharacter

variable {lead : UInt8} {rest : List UInt8}

theorem decodeChar?_eq_none_iff :
    decodeChar? lead rest = none ↔ ∀ c, String.utf8EncodeChar c ≠ lead :: rest := by
  constructor
  · intro h c he
    rw [(spells_of_encode he).decodeChar? he] at h
    cases h
  · intro h
    rw [Option.eq_none_iff_forall_ne_some]
    intro c hc
    exact h c (encode_of_decodeChar? hc)

theorem decodeChar?_of_width? (h : width? lead ≠ some (rest.length + 1)) :
    decodeChar? lead rest = none :=
  decodeChar?_eq_none_iff.mpr fun _ he => h (spells_of_encode he).width

theorem width?_of_isContinuation (h : isContinuation lead = true) : width? lead = none := by
  rw [isContinuation_iff] at h
  rw [width?_of_toNat, if_neg (by omega), if_pos (by omega)]

theorem isContinuation_of_width? {n : Nat} (h : width? lead = some n) :
    isContinuation lead = false := by
  rw [Bool.eq_false_iff]
  intro hc
  rw [width?_of_isContinuation hc] at h
  cases h

/-- How many bytes come behind the lead in the shortest form of a number. -/
def shortest (v : Nat) : Nat :=
  if v ≤ 0x7F then 0 else if v ≤ 0x7FF then 1 else if v ≤ 0xFFFF then 2 else 3

/-- A lead byte with as many continuation bytes as its high bits say, whatever they carry. -/
structure Form (lead : UInt8) (rest : List UInt8) : Prop where
  high : (rest.length = 1 ∧ 0xC0 ≤ lead.toNat ∧ lead.toNat ≤ 0xDF) ∨
    (rest.length = 2 ∧ 0xE0 ≤ lead.toNat ∧ lead.toNat ≤ 0xEF) ∨
    (rest.length = 3 ∧ 0xF0 ≤ lead.toNat ∧ lead.toNat ≤ 0xF7)
  continuation : ∀ b ∈ rest, isContinuation b = true

/-- The number that the bytes carry has a shorter form, or it is a surrogate, or it is past the last
code point. -/
def Unfit (lead : UInt8) (rest : List UInt8) : Prop :=
  shortest (value lead rest) < rest.length ∨
    (0xD800 ≤ value lead rest ∧ value lead rest ≤ 0xDFFF) ∨ 0x10FFFF < value lead rest

theorem length_encodeChar (c : Char) :
    (String.utf8EncodeChar c).length = shortest c.toNat + 1 := by
  show (String.utf8EncodeChar c).length = shortest c.val.toNat + 1
  unfold String.utf8EncodeChar shortest
  dsimp only
  split_ifs <;> rfl

theorem Unfit.encode_ne (h : Unfit lead rest) (c : Char) :
    String.utf8EncodeChar c ≠ lead :: rest := by
  intro he
  have hn : value lead rest = c.toNat := (spells_of_encode he).number
  have hl : shortest c.toNat = rest.length := by
    have := length_encodeChar c
    rw [he, List.length_cons] at this
    omega
  have hv : c.toNat < 0xD800 ∨ 0xDFFF < c.toNat ∧ c.toNat < 0x110000 := c.valid
  rw [Unfit, hn, hl] at h
  omega

theorem Form.width? (h : Form lead rest) :
    Utf8.width? lead = some (rest.length + 1) ∨ Utf8.width? lead = none := by
  have hl := h.high
  rw [width?_of_toNat]
  split_ifs
  · omega
  · exact .inr rfl
  · exact .inl (congrArg some (by omega))
  · exact .inl (congrArg some (by omega))
  · exact .inl (congrArg some (by omega))
  · exact .inr rfl

theorem Form.isContinuation (h : Form lead rest) : Utf8.isContinuation lead = false := by
  have hl := h.high
  rw [Bool.eq_false_iff, Ne, isContinuation_iff]
  omega

end NoCharacter

/-! ## The end of a line -/

theorem getLast?_encodeChar_eq_newline_iff (c : Char) :
    (String.utf8EncodeChar c).getLast? = some 0x0A ↔ c = '\n' := by
  constructor
  · intro h
    obtain ⟨lead, rest, he, hs⟩ := encoding_spec c
    rw [he] at h
    rcases List.eq_nil_or_concat rest with rfl | ⟨init, b, rfl⟩
    · -- a character of one byte is the number of that byte
      have hl : lead = 0x0A := by simpa using h
      have hn : c.toNat = 10 := by rw [← hs.number, hl]; rfl
      rw [← Char.ofNat_toNat c, hn]
    · have hb : b = 0x0A := by simpa [List.getLast?_cons] using h
      have hk := hs.continuation b (by simp)
      rw [hb] at hk
      exact absurd hk (by decide)
  · rintro rfl
    decide

theorem encode_eq_nil_iff (cs : List Char) : encode cs = [] ↔ cs = [] := by
  cases cs with
  | nil => simp
  | cons c cs => simp

theorem getLast?_encode_eq_newline_iff (cs : List Char) :
    (encode cs).getLast? = some 0x0A ↔ cs.getLast? = some '\n' := by
  rcases List.eq_nil_or_concat cs with rfl | ⟨init, c, rfl⟩
  · simp
  · rw [List.concat_eq_append, encode_append, List.getLast?_append, encode_cons, encode_nil,
      List.append_nil, List.getLast?_concat, Option.some.injEq,
      ← getLast?_encodeChar_eq_newline_iff]
    obtain ⟨lead, rest, he, _⟩ := encoding_spec c
    rw [he, List.getLast?_cons, Option.some_or]

end Modula.Utf8

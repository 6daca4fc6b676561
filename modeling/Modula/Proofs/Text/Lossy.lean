import Mathlib.Data.List.Basic
import Modula.Proofs.Text.Utf8

/-! # Reading names

Names are read with `Utf8.lossy`, which puts one character in the place of bytes that are none. A
text that was written is read back as it was (`lossy_encode`): each character is taken whole, since
the bytes behind a lead byte are in the range that the lead allows (`second_range`). Nothing is made
up either: a character that was read is the replacement or begins with a byte that is there
(`mem_of_mem_lossy`). So the characters of one byte, such as the slash and the dot, are in a text
just where their byte is. -/

namespace Modula.Utf8
set_option autoImplicit false

/-! ## Bytes below 0x80 -/

theorem toNat_of_mem_encodeChar {c : Char} {b : UInt8} (h : b ∈ String.utf8EncodeChar c)
    (hb : b.toNat < 0x80) : c.toNat = b.toNat := by
  obtain ⟨lead, rest, he, hs⟩ := encoding_spec c
  rw [he] at h
  rcases List.mem_cons.mp h with rfl | hr
  · -- a lead byte of this size has nothing behind it
    have hw := hs.width
    rw [width?_of_toNat, if_pos hb] at hw
    have hn : rest = [] := by simpa using hw
    rw [← hs.number, hn]
    rfl
  · have hc := (isContinuation_iff b).mp (hs.continuation b hr)
    omega

theorem mem_of_mem_encode {cs : List Char} {c : Char} {b : UInt8} (h : b ∈ encode cs)
    (hb : b.toNat < 0x80) (hc : c.toNat = b.toNat) : c ∈ cs := by
  obtain ⟨d, hd, hm⟩ := List.mem_flatMap.mp h
  have hn := toNat_of_mem_encodeChar hm hb
  have he : c = d := Char.toNat_inj.mp (hc.trans hn.symm)
  rw [he]
  exact hd

/-! ## Reading names -/

theorem mem_of_mem_lossy {bs : List UInt8} {c : Char} (h : c ∈ lossy bs) :
    c = replacement ∨ ∃ b ∈ bs, (String.utf8EncodeChar c).head? = some b := by
  fun_induction lossy bs with
  | case1 => simp at h
  | case2 b bs hw ih =>
    rcases List.mem_cons.mp h with rfl | h
    · exact .inl rfl
    · rcases ih h with hr | ⟨a, ha, he⟩
      · exact .inl hr
      · exact .inr ⟨a, List.mem_cons_of_mem b ha, he⟩
  | case3 b bs n hw rest ih =>
    rcases List.mem_cons.mp h with rfl | h
    · cases hd : decodeChar? b rest with
      | none => exact .inl rfl
      | some c =>
        have he := encode_of_decodeChar? hd
        refine .inr ⟨b, List.mem_cons_self, ?_⟩
        simp [he]
    · rcases ih h with hr | ⟨a, ha, he⟩
      · exact .inl hr
      · exact .inr ⟨a, List.mem_cons_of_mem b (List.mem_of_mem_drop ha), he⟩

theorem following_of_isContinuation {rest : List UInt8} (h : ∀ b ∈ rest, isContinuation b = true)
    (bs : List UInt8) : following rest.length (0x80, 0xBF) (rest ++ bs) = rest := by
  induction rest with
  | nil => cases bs <;> rfl
  | cons b rest ih =>
    have hb := (isContinuation_iff_le b).mp (h b List.mem_cons_self)
    have hr := ih fun a ha => h a (List.mem_cons_of_mem b ha)
    rw [List.cons_append, List.length_cons, following, if_pos hb, hr]

theorem Spells.of_three {c : Char} {lead b : UInt8} {rest : List UInt8}
    (h : Spells c lead (b :: rest)) (hl : 0xE0 ≤ lead.toNat) (hu : lead.toNat < 0xF0) :
    rest.length = 1 ∧ ∃ low < 0x40,
      c.toNat = lead.toNat % 0x10 * 0x1000 + b.toNat % 0x40 * 0x40 + low := by
  have hw := h.width
  rw [width?_of_toNat, if_neg (by omega), if_neg (by omega), if_neg (by omega), if_pos hu] at hw
  have hr : rest.length = 1 := by simpa using hw.symm
  obtain ⟨d, rfl⟩ := List.length_eq_one_iff.mp hr
  have hn := h.number
  simp only [value, List.length_cons, List.length_nil, List.foldl_cons, List.foldl_nil] at hn
  exact ⟨rfl, d.toNat % 0x40, by omega, by omega⟩

theorem Spells.of_four {c : Char} {lead b : UInt8} {rest : List UInt8}
    (h : Spells c lead (b :: rest)) (hl : 0xF0 ≤ lead.toNat) (hu : lead.toNat < 0xF5) :
    rest.length = 2 ∧ ∃ low < 0x1000,
      c.toNat = lead.toNat % 0x08 * 0x40000 + b.toNat % 0x40 * 0x1000 + low := by
  have hw := h.width
  rw [width?_of_toNat, if_neg (by omega), if_neg (by omega), if_neg (by omega),
    if_neg (by omega), if_pos hu] at hw
  have hr : rest.length = 2 := by simpa using hw.symm
  obtain ⟨d, e, rfl⟩ := List.length_eq_two.mp hr
  have hn := h.number
  simp only [value, List.length_cons, List.length_nil, List.foldl_cons, List.foldl_nil] at hn
  exact ⟨rfl, d.toNat % 0x40 * 0x40 + e.toNat % 0x40, by omega, by omega⟩

theorem bounds_of_shortest {v : Nat} :
    (shortest v = 2 → 0x7FF < v) ∧ (shortest v = 3 → 0xFFFF < v) := by
  unfold shortest
  constructor <;> intro h <;> split_ifs at h <;> omega

/-- The four leads that narrow the range leave out no character. -/
theorem second_range {c : Char} {lead b : UInt8} {rest : List UInt8}
    (h : String.utf8EncodeChar c = lead :: b :: rest) :
    (second lead).1 ≤ b ∧ b ≤ (second lead).2 := by
  have hs := spells_of_encode h
  have hb := (isContinuation_iff b).mp (hs.continuation b List.mem_cons_self)
  have hv : c.toNat < 0xD800 ∨ 0xDFFF < c.toNat ∧ c.toNat < 0x110000 := c.valid
  have hl : shortest c.toNat = rest.length + 1 := by
    have hc := length_encodeChar c
    rw [h] at hc
    simpa using hc.symm
  obtain ⟨hthree, hfour⟩ := @bounds_of_shortest c.toNat
  rw [UInt8.le_iff_toNat_le, UInt8.le_iff_toNat_le, second]
  split_ifs with h0 h1 h2 h3
  · -- below, the number has a form of two bytes
    have hlead : lead.toNat = 0xE0 := by rw [h0]; rfl
    obtain ⟨hr, low, hlow, hn⟩ := hs.of_three (by omega) (by omega)
    have hlong := hthree (by omega)
    show 0xA0 ≤ b.toNat ∧ b.toNat ≤ 0xBF
    omega
  · -- above, the number is a surrogate
    have hlead : lead.toNat = 0xED := by rw [h1]; rfl
    obtain ⟨-, low, hlow, hn⟩ := hs.of_three (by omega) (by omega)
    show 0x80 ≤ b.toNat ∧ b.toNat ≤ 0x9F
    omega
  · -- below, the number has a form of three bytes
    have hlead : lead.toNat = 0xF0 := by rw [h2]; rfl
    obtain ⟨hr, low, hlow, hn⟩ := hs.of_four (by omega) (by omega)
    have hlong := hfour (by omega)
    show 0x90 ≤ b.toNat ∧ b.toNat ≤ 0xBF
    omega
  · -- above, the number is past the last code point
    have hlead : lead.toNat = 0xF4 := by rw [h3]; rfl
    obtain ⟨-, low, hlow, hn⟩ := hs.of_four (by omega) (by omega)
    show 0x80 ≤ b.toNat ∧ b.toNat ≤ 0x8F
    omega
  · show 0x80 ≤ b.toNat ∧ b.toNat ≤ 0xBF
    omega

theorem following_of_encode {c : Char} {lead : UInt8} {rest : List UInt8}
    (h : String.utf8EncodeChar c = lead :: rest) (bs : List UInt8) :
    following rest.length (second lead) (rest ++ bs) = rest := by
  have hs := spells_of_encode h
  cases rest with
  | nil => cases bs <;> rfl
  | cons b rest =>
    have hr : ∀ a ∈ rest, isContinuation a = true := fun a ha =>
      hs.continuation a (List.mem_cons_of_mem b ha)
    rw [List.cons_append, List.length_cons, following, if_pos (second_range h),
      following_of_isContinuation hr]

theorem lossy_encodeChar_append (c : Char) (bs : List UInt8) :
    lossy (String.utf8EncodeChar c ++ bs) = c :: lossy bs := by
  obtain ⟨lead, rest, he, hs⟩ := encoding_spec c
  rw [he, List.cons_append, lossy, hs.width]
  dsimp only
  rw [Nat.add_sub_cancel, following_of_encode he, hs.decodeChar? he, List.drop_left]
  rfl

theorem lossy_encode (cs : List Char) : lossy (encode cs) = cs := by
  induction cs with
  | nil => simp [lossy]
  | cons c cs ih => rw [encode_cons, lossy_encodeChar_append, ih]

end Modula.Utf8

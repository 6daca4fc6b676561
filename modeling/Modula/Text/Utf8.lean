/-! # UTF-8

Characters as bytes and back. A sequence of bytes stands for a character exactly if it is the
encoding of that character, so there is one written form for each. Two readers build on this: the
source decoder, which trusts the width that a lead byte announces, and `lossy`, which replaces each
longest run of bytes that begins some encoding without completing it. -/

set_option autoImplicit false

namespace Modula.Utf8

/-- Stands for bytes that are no character. -/
def replacement : Char := '\uFFFD'

/-- The bytes of a text. -/
def encode (cs : List Char) : List UInt8 := cs.flatMap String.utf8EncodeChar

@[simp] theorem encode_nil : encode [] = [] := rfl

@[simp] theorem encode_cons (c : Char) (cs : List Char) :
    encode (c :: cs) = String.utf8EncodeChar c ++ encode cs := rfl

@[simp] theorem encode_append (cs ds : List Char) : encode (cs ++ ds) = encode cs ++ encode ds :=
  List.flatMap_append

/-- The bytes of a string. -/
def bytes (s : String) : List UInt8 := encode s.toList

/-- A byte that can only go on with a sequence. -/
def isContinuation (b : UInt8) : Bool := b &&& 0xC0 == 0x80

/-- How many bytes a sequence has that starts with `lead`; `none` if none starts so. -/
def width? (lead : UInt8) : Option Nat :=
  if lead < 0x80 then some 1
  else if lead < 0xC2 then none
  else if lead < 0xE0 then some 2
  else if lead < 0xF0 then some 3
  else if lead < 0xF5 then some 4
  else none

/-- The number that a sequence carries, six bits in each byte after the lead. -/
def value (lead : UInt8) (rest : List UInt8) : Nat :=
  let high := match rest.length with
    | 0 => lead.toNat
    | 1 => lead.toNat % 0x20
    | 2 => lead.toNat % 0x10
    | _ => lead.toNat % 0x08
  rest.foldl (fun v b => v * 0x40 + b.toNat % 0x40) high

/-- The character whose encoding is `lead :: rest`, if there is one. -/
def decodeChar? (lead : UInt8) (rest : List UInt8) : Option Char :=
  let c := Char.ofNat (value lead rest)
  if String.utf8EncodeChar c = lead :: rest then some c else none

theorem encode_of_decodeChar? {lead : UInt8} {rest : List UInt8} {c : Char}
    (h : decodeChar? lead rest = some c) : String.utf8EncodeChar c = lead :: rest := by
  simp only [decodeChar?] at h
  split at h
  · next he => rwa [Option.some.inj h] at he
  · cases h

/-! ## Reading names -/

/-- The bytes that may follow `lead`. Four leads narrow the range, to keep out longer forms,
surrogates and numbers past the last code point. -/
def second (lead : UInt8) : UInt8 × UInt8 :=
  if lead = 0xE0 then (0xA0, 0xBF)
  else if lead = 0xED then (0x80, 0x9F)
  else if lead = 0xF0 then (0x90, 0xBF)
  else if lead = 0xF4 then (0x80, 0x8F)
  else (0x80, 0xBF)

/-- At most `n` bytes: the first in the given range, the others continuation bytes. -/
def following : Nat → UInt8 × UInt8 → List UInt8 → List UInt8
  | n + 1, range, b :: bs =>
    if range.1 ≤ b ∧ b ≤ range.2 then b :: following n (0x80, 0xBF) bs else []
  | _, _, _ => []

/-- The text of some bytes, with one replacement character for each longest run that begins an
encoding and does not complete it, and for each byte that begins none. -/
def lossy : List UInt8 → List Char
  | [] => []
  | b :: bs =>
    match width? b with
    | none => replacement :: lossy bs
    | some n =>
      let rest := following (n - 1) (second b) bs
      (decodeChar? b rest).getD replacement :: lossy (bs.drop rest.length)
termination_by bs => bs.length
decreasing_by all_goals simp only [List.length_cons, List.length_drop]; omega

end Modula.Utf8

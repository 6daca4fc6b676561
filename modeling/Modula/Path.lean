import Modula.Text.Utf8

/-! # Paths

A path is a row of bytes in which slashes separate names. Repeated and trailing slashes say
nothing, nor does a dot between slashes; only a leading slash and a leading dot are components of
their own. -/

set_option autoImplicit false

namespace Modula

structure Path where
  bytes : List UInt8
  deriving DecidableEq, Repr

/-- A step of a path, seen without regard to how it is written. -/
inductive Component where
  | root
  | here
  | up
  | name (bytes : List UInt8)
  deriving DecidableEq, Repr

namespace Path

/-- The byte of the slash. -/
def slash : UInt8 := 0x2F

/-- The byte of the dot. -/
def dot : UInt8 := 0x2E

def ofString (s : String) : Path := ⟨Utf8.bytes s⟩

/-- The text by which a path is shown. -/
def display (p : Path) : String := String.ofList (Utf8.lossy p.bytes)

/-! ## Segments -/

/-- The parts of some bytes between slashes, empty ones included. -/
def split : List UInt8 → List (List UInt8)
  | [] => [[]]
  | b :: bs =>
    if b = slash then [] :: split bs
    else match split bs with
      | [] => [[b]]
      | s :: ss => (b :: s) :: ss

/-- The bytes whose parts are the given ones. -/
def join : List (List UInt8) → List UInt8
  | [] => []
  | [s] => s
  | s :: ss => s ++ slash :: join ss

theorem split_ne_nil (bs : List UInt8) : split bs ≠ [] := by
  cases bs with
  | nil => simp [split]
  | cons b bs =>
    rw [split]
    split
    · simp
    · split <;> simp

theorem join_split (bs : List UInt8) : join (split bs) = bs := by
  induction bs with
  | nil => rfl
  | cons b bs ih =>
    rw [split]
    have hne := split_ne_nil bs
    split
    · next hb =>
      rw [join, ih, hb]
      · rfl
      · exact hne
    · split
      · next hs => exact absurd hs hne
      · next s ss hs =>
        rw [hs] at ih
        cases ss with
        | nil => simpa [join] using ih
        | cons r rs => simpa [join] using ih

/-- A segment that names nothing unless it comes first. -/
def isIdle (segment : List UInt8) : Bool := segment == [] || segment == [dot]

/-- The segments up to the last one that names something. -/
def trim (segments : List (List UInt8)) : List (List UInt8) :=
  (segments.reverse.dropWhile isIdle).reverse

def component? (segment : List UInt8) : Option Component :=
  if isIdle segment then none
  else if segment = [dot, dot] then some .up
  else some (.name segment)

/-- The components of a path; two paths with the same components lead to the same place. -/
def components (p : Path) : List Component :=
  match split p.bytes with
  | [] => []
  | first :: rest =>
    let front :=
      if first = [] then (if rest = [] then [] else [.root])
      else if first = [dot] then [.here]
      else (component? first).toList
    front ++ rest.filterMap component?

/-! ## The last name -/

/-- The name in the last component, if it is one. -/
def fileName? (p : Path) : Option (List UInt8) :=
  match p.components.getLast? with
  | some (.name n) => some n
  | _ => none

/-- A path without its last component. -/
def parent (p : Path) : Path :=
  match split p.bytes with
  | [] => ⟨[]⟩
  | first :: rest =>
    match trim rest with
    | [] => ⟨[]⟩
    | named =>
      match trim named.dropLast with
      | [] => if first = [] then ⟨[slash]⟩ else ⟨first⟩
      | kept => ⟨join (first :: kept)⟩

/-- A path with one more name at its end. Bytes that start with a slash are a path of their own. -/
def push (p : Path) (name : List UInt8) : Path :=
  if name.head? = some slash then ⟨name⟩
  else if p.bytes = [] ∨ p.bytes.getLast? = some slash then ⟨p.bytes ++ name⟩
  else ⟨p.bytes ++ slash :: name⟩

/-- A path with another last name, or with a name at its end if it has none. -/
def withFileName (p : Path) (name : List UInt8) : Path :=
  match p.fileName? with
  | some _ => p.parent.push name
  | none => p.push name

/-! ## Where the transcript of a source goes -/

/-- The text before the last dot, or all of it if there is none. -/
def stem (name : List Char) : List Char :=
  match name.reverse.dropWhile (· ≠ '.') with
  | [] => name
  | _ :: before => before.reverse

/-- The path next to `p` whose last name has `ext` in place of everything from its last dot on. -/
def transcript (p : Path) (ext : String) : Path :=
  let name := Utf8.lossy (p.fileName?.getD [])
  p.withFileName (Utf8.encode (stem name) ++ Utf8.bytes ext)

/-- The ending of a transcript's name. -/
def transcriptExtension : String := ".out"

end Path
end Modula

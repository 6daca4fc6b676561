import Modula.IoError
import Modula.Path
import Modula.Source.Bytes

/-! # File trees

A tree holds files, directories, symbolic links and one device, each at a location. A path is
followed from the working directory or from the root, through links as they come up. Files can be
opened for reading, and created or emptied for writing; the device has no end to read and takes
nothing. -/

set_option autoImplicit false

namespace Modula

/-- The names that lead to a place in a tree, the innermost first. The root has none. -/
abbrev Location := List (List UInt8)

inductive Node where
  | file (content : Array UInt8)
  | directory
  | link (target : Path)
  /-- Gives NULs without end and refuses every byte. -/
  | device
  deriving DecidableEq, Repr

structure FileTree where
  entries : List (Location × Node)
  /-- Where relative paths start. -/
  home : Location
  deriving DecidableEq, Repr

namespace FileTree

/-- What is at a location, links not followed. -/
def node? (t : FileTree) (l : Location) : Option Node :=
  if l = [] then some .directory else t.entries.lookup l

/-- Puts a node at a location in place of what was there. -/
def insert (t : FileTree) (l : Location) (n : Node) : FileTree :=
  { t with entries := (l, n) :: t.entries.filter (·.1 != l) }

theorem node?_insert_self (t : FileTree) {l : Location} (n : Node) (h : l ≠ []) :
    (t.insert l n).node? l = some n := by
  simp [node?, insert, h]

theorem node?_insert_of_ne (t : FileTree) {l m : Location} (n : Node) (h : m ≠ l) :
    (t.insert l n).node? m = t.node? m := by
  have hb : (m == l) = false := by simpa using h
  have hl : (t.entries.filter (·.1 != l)).lookup m = t.entries.lookup m := by
    induction t.entries with
    | nil => rfl
    | cons e es ih =>
      rcases e with ⟨k, x⟩
      by_cases hk : k = l
      · simp [hk, List.lookup_cons, hb, ih]
      · by_cases hm : m = k
        · simp [hk, hm]
        · have hm' : (m == k) = false := by simpa using hm
          simp [hk, List.lookup_cons, hm', ih]
  simp [node?, insert, List.lookup_cons, hb, hl]

/-- A tree with an empty working directory beside the device `/dev/full`. -/
def fresh : FileTree :=
  let dev : Location := [Utf8.bytes "dev"]
  let home : Location := [Utf8.bytes "home"]
  ⟨[(home, .directory), (dev, .directory), (Utf8.bytes "full" :: dev, .device)], home⟩

/-! ## Following paths -/

/-- One step on the way along a path. -/
inductive Step where
  | here
  | up
  | down (name : List UInt8)
  /-- The slash at the end of a path, which asks for a directory. -/
  | slash
  deriving DecidableEq, Repr

/-- The step that a segment stands for; an empty one stands for none. -/
def step? (segment : List UInt8) : Option Step :=
  if segment = [] then none
  else if segment = [Path.dot] then some .here
  else if segment = [Path.dot, Path.dot] then some .up
  else some (.down segment)

/-- The steps along some segments. An empty segment at the end is a closing slash. -/
def steps : List (List UInt8) → List Step
  | [] => []
  | [s] => if s = [] then [.slash] else (step? s).toList
  | s :: ss => (step? s).toList ++ steps ss

def isAbsolute (p : Path) : Bool := p.bytes.head? == some Path.slash

/-- The steps along a path. -/
def route (p : Path) : List Step := steps (Path.split p.bytes)

/-- Where a path ends: a place, and what is there if anything is. -/
structure Spot where
  location : Location
  node : Option Node
  deriving DecidableEq, Repr

/-- What a path is followed for: to find something, to create a file at its end, or to spell out the
place where it ends, which takes the path from the root to each place on the way. -/
inductive Purpose where
  | find
  | create
  | spell
  deriving DecidableEq, Repr

/-- The longest name. -/
def maxName : Nat := 255

/-- The longest path. -/
def maxPath : Nat := 4095

/-- How many links may come up along one path. -/
def maxLinks : Nat := 40

/-- The length of the path from the root to a location. -/
def pathLength : Location → Nat
  | [] => 0
  | name :: dir => pathLength dir + name.length + 1

/-- A spot that is no directory, so that it has to be the last one. -/
def settle (l : Location) (n : Option Node) (blocked : IoError) (rest : List Step) :
    Except IoError Spot :=
  if rest = [] then .ok ⟨l, n⟩ else .error blocked

/-- Takes some steps from a directory up to the first link, from where `follow` goes on with the
steps along it. No file is created under a name that a slash closes, whatever has that name. -/
def walkWith (t : FileTree) (purpose : Purpose)
    (follow : Location → List Step → Except IoError Spot) (dir : Location) :
    List Step → Except IoError Spot
  | [] => .ok ⟨dir, some .directory⟩
  | .here :: rest => t.walkWith purpose follow dir rest
  | .slash :: rest => t.walkWith purpose follow dir rest
  | .up :: rest => t.walkWith purpose follow dir.tail rest
  | .down name :: rest =>
    if purpose = .create ∧ rest = [.slash] then .error .isDirectory
    else if maxName < name.length then .error .nameTooLong
    else if purpose = .spell ∧ maxPath < pathLength (name :: dir) then .error .nameTooLong
    else match t.node? (name :: dir) with
      | none => settle (name :: dir) none .noSuchEntry rest
      | some .directory => t.walkWith purpose follow (name :: dir) rest
      | some (.link target) =>
        follow (if isAbsolute target then [] else dir) (route target ++ rest)
      | some node => settle (name :: dir) (some node) .notDirectory rest

/-- Takes some steps from a directory, through at most the given number of links. -/
def walk (t : FileTree) (purpose : Purpose) : Nat → Location → List Step → Except IoError Spot
  | 0 => t.walkWith purpose fun _ _ => .error .tooManyLinks
  | links + 1 => t.walkWith purpose (t.walk purpose links)

/-- The spot at the end of a path. A path that is spelled out may be of any length itself. -/
def resolve (t : FileTree) (purpose : Purpose) (p : Path) : Except IoError Spot :=
  if 0 ∈ p.bytes then .error .nulInName
  else if p.bytes = [] then .error .noSuchEntry
  else if purpose ≠ .spell ∧ maxPath < p.bytes.length then .error .nameTooLong
  else t.walk purpose maxLinks (if isAbsolute p then [] else t.home) (route p)

/-- The place of something that exists, links followed. It may be too long to be spelled out, while
the path that leads there can be used. -/
def canonical (t : FileTree) (p : Path) : Except IoError Location := do
  let spot ← t.resolve .spell p
  match spot.node with
  | none => .error .noSuchEntry
  | some _ => .ok spot.location

/-- Whether two paths lead to the same thing, as far as it can be told. -/
def same (t : FileTree) (p q : Path) : Bool :=
  p.components == q.components ||
    match t.canonical p, t.canonical q with
    | .ok l, .ok m => l == m
    | _, _ => false

/-! ## Reading and writing -/

/-- What can be read from. A directory can be opened, and fails when it is read. -/
inductive Stream where
  | file (l : Location)
  | device
  | directory
  deriving DecidableEq, Repr

/-- Opens what is at a path. -/
def openAt (t : FileTree) (p : Path) : Except IoError Stream := do
  let spot ← t.resolve .find p
  match spot.node with
  | none => .error .noSuchEntry
  | some (.file _) => .ok (.file spot.location)
  | some .device => .ok .device
  | some _ => .ok .directory

/-- The characters that something opened gives: those of a file are what the tree holds by now. -/
def contents (t : FileTree) : Stream → Source
  | .file l =>
    match t.node? l with
    | some (.file content) => .ofBytes content.toList
    | _ => .ofBytes []
  | .device => .ofBytes [0]
  | .directory => .ofFills [.failed .isDirectory]

/-- What can be written to. -/
inductive Handle where
  | file (l : Location)
  | device
  deriving DecidableEq, Repr

/-- Makes an empty file at a path, or empties the one that is there. -/
def create (t : FileTree) (p : Path) : Except IoError (Handle × FileTree) := do
  let spot ← t.resolve .create p
  match spot.node with
  | none => .ok (.file spot.location, t.insert spot.location (.file #[]))
  | some (.file _) => .ok (.file spot.location, t.insert spot.location (.file #[]))
  | some .device => .ok (.device, t)
  | some _ => .error .isDirectory

/-- The tree once some bytes have been written through a handle. -/
def save (t : FileTree) (content : Array UInt8) : Handle → FileTree
  | .file l => t.insert l (.file content)
  | .device => t

/-! ## Planting and listing -/

/-- Makes the directories that some steps lead through, and gives the last one. -/
def makeDirectories (t : FileTree) (dir : Location) : List Step → FileTree × Option Location
  | [] => (t, some dir)
  | .here :: rest => t.makeDirectories dir rest
  | .slash :: rest => t.makeDirectories dir rest
  | .up :: rest => t.makeDirectories dir.tail rest
  | .down name :: rest =>
    match t.walk .find maxLinks dir [.down name] with
    | .ok ⟨l, none⟩ => (t.insert l .directory).makeDirectories l rest
    | .ok ⟨l, some .directory⟩ => t.makeDirectories l rest
    | _ => (t, none)

/-- Puts a node at a relative path, with the directories that lead to it. A file is written through
links that are on the way; a path that leads nowhere leaves the tree as it is. -/
def plant (t : FileTree) (p : Path) (n : Node) : FileTree :=
  match n with
  | .directory => (t.makeDirectories t.home (route p)).1
  | .file content =>
    let t := (t.makeDirectories t.home (route p).dropLast).1
    match t.create p with
    | .ok (handle, t) => t.save content handle
    | .error _ => t
  | n =>
    let (t, dir) := t.makeDirectories t.home (route p).dropLast
    match dir, (route p).getLast? with
    | some dir, some (.down name) =>
      match t.node? (name :: dir) with
      | none => t.insert (name :: dir) n
      | some _ => t
    | _, _ => t

/-- The path from the working directory down to a location, if it is below it. -/
def below? (t : FileTree) (l : Location) : Option Path :=
  let depth := l.length - t.home.length
  if l.drop depth = t.home then some ⟨Path.join (l.take depth).reverse⟩ else none

/-- The files below the working directory with their contents, in the order of their paths. -/
def files (t : FileTree) : List (Path × Array UInt8) :=
  let found := t.entries.filterMap fun (l, n) =>
    match t.below? l, n with
    | some p, .file content => some (p, content)
    | _, _ => none
  found.mergeSort fun a b => !decide (b.1.bytes < a.1.bytes)

end FileTree
end Modula

import Modula.Command

/-! # The command line

Arguments are read from left to right. The first request for help or for the version is granted
at once, and the first mistake ends the reading. -/

set_option autoImplicit false

namespace Modula.CommandLine

/-- What the arguments ask for. -/
inductive Request where
  | run (command : Command) (path : Path)
  | help
  | version
  /-- The arguments make no sense. -/
  | misuse
  deriving DecidableEq, Repr

/-- What has been read so far. -/
structure Reader where
  path : Option (List UInt8)
  tokens : Bool
  /-- Whether the options are over. -/
  literal : Bool

def Reader.start : Reader := ⟨none, false, false⟩

/-- The byte that options start with. -/
def dash : UInt8 := 0x2D

/-- What the arguments ask for once all have been read. -/
def Reader.request (r : Reader) : Request :=
  match r.path with
  | none => .misuse
  | some [] => .misuse
  | some path => .run (if r.tokens then .tokens else .check) ⟨path⟩

/-- Grants a request, unless an empty path came before it. -/
def Reader.grant (r : Reader) (request : Request) : Except Request Reader :=
  .error (if r.path = some [] then .misuse else request)

/-- Takes a path. -/
def Reader.take (r : Reader) (arg : List UInt8) : Except Request Reader :=
  match r.path with
  | none => .ok { r with path := some arg }
  | some _ => .error .misuse

/-- Takes an option; of options in a cluster the first decides. -/
def Reader.option (r : Reader) (arg : List UInt8) : Except Request Reader :=
  if arg = Utf8.bytes "--" then .ok { r with literal := true }
  else if arg = Utf8.bytes "--tokens" then
    if r.tokens then .error .misuse else .ok { r with tokens := true }
  else if arg = Utf8.bytes "--help" then r.grant .help
  else if arg = Utf8.bytes "--version" then r.grant .version
  else if arg.take 2 = Utf8.bytes "-h" then r.grant .help
  else if arg.take 2 = Utf8.bytes "-V" then r.grant .version
  else .error .misuse

def Reader.argument (r : Reader) (arg : List UInt8) : Except Request Reader :=
  if !r.literal && arg.head? == some dash && arg != [dash] then r.option arg else r.take arg

def read (args : List (List UInt8)) : Request :=
  match args.foldlM Reader.argument Reader.start with
  | .ok r => r.request
  | .error request => request

/-! ## Running -/

/-- Lines, each with its end. -/
def lines (ls : List String) : String := ls.foldl (fun text l => text ++ l ++ "\n") ""

def helpText : String := lines [
  "Check Modula-2 TYPE and VAR declarations",
  "",
  "Usage: m2decl [OPTIONS] <PATH>",
  "",
  "Arguments:",
  "  <PATH>  Source file to check; the transcript is written next to it as <name>.out",
  "",
  "Options:",
  "      --tokens   Print the token stream (kind code and lexeme) instead of parsing",
  "  -h, --help     Print help",
  "  -V, --version  Print version"]

def versionText : String := "m2decl 0.1.0\n"

/-- What a run of the program shows, and the tree it leaves. -/
structure Exit where
  code : Nat
  stdout : Array UInt8
  stderr : Array UInt8
  tree : FileTree

def exitCode : Except Failure Outcome → Nat
  | .ok outcome => outcome.exitCode
  | .error _ => 1

/-- The text on a failure that ends the program. -/
def failureText : Except Failure Outcome → String
  | .ok _ => ""
  | .error failure => failure.shown

/-- The exit code when the arguments make no sense. -/
def misuseCode : Nat := 2

def run (args : List (List UInt8)) (tree : FileTree) : Exit :=
  match read args with
  | .help => ⟨0, (Utf8.bytes helpText).toArray, #[], tree⟩
  | .version => ⟨0, (Utf8.bytes versionText).toArray, #[], tree⟩
  | .misuse => ⟨misuseCode, #[], #[], tree⟩
  | .run command path =>
    let run := command.run tree path .unbounded .unbounded
    ⟨exitCode run.result, run.out.held, run.console.held ++ Utf8.bytes (failureText run.result),
      run.tree⟩

end Modula.CommandLine

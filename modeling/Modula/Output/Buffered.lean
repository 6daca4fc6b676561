import Modula.Output.Writer

/-! # Buffered stores

A buffer in front of a store collects short writes. What does not fit any more makes it hand on
what it has; what is as long as the buffer itself goes past it. -/

set_option autoImplicit false

namespace Modula

structure Buffered where
  store : Store
  /-- Bytes that were taken and not handed on yet. -/
  waiting : Array UInt8
  deriving DecidableEq, Repr

namespace Buffered

/-- How many bytes can wait. -/
def capacity : Nat := 8192

def ofStore (s : Store) : Buffered := ⟨s, #[]⟩

/-- Hands the waiting bytes to the store. Those it does not take go on waiting. -/
def drain (b : Buffered) : Except IoError Unit × Buffered :=
  let before := b.store.held.size
  match b.store.write b.waiting.toList with
  | (.ok _, store) => (.ok (), ⟨store, #[]⟩)
  | (.error e, store) =>
    (.error e, ⟨store, b.waiting.extract (store.held.size - before) b.waiting.size⟩)

/-- Adds bytes for which there is room, or passes them on if they would fill the buffer alone. -/
def place (b : Buffered) (chunk : List UInt8) : Except IoError Unit × Buffered :=
  if capacity ≤ chunk.length then
    let (result, store) := b.store.write chunk
    (result, { b with store })
  else (.ok (), { b with waiting := b.waiting ++ chunk })

def write (b : Buffered) (chunk : List UInt8) : Except IoError Unit × Buffered :=
  if capacity - b.waiting.size < chunk.length then
    match b.drain with
    | (.ok _, b) => b.place chunk
    | failed => failed
  else b.place chunk

def flush (b : Buffered) : Except IoError Unit × Buffered :=
  match b.drain with
  | (.ok _, b) =>
    let (result, store) := b.store.flush
    (result, { b with store })
  | failed => failed

instance : Writer Buffered := ⟨write, flush⟩

/-- The store in the end: what is waiting is handed on once more, and a failure goes unseen. -/
def settle (b : Buffered) : Store := b.drain.2.store

end Buffered
end Modula

/-! # Sets of code points given by ranges

A table lists inclusive ranges in increasing order, so membership is a binary search. -/

set_option autoImplicit false

namespace Modula

/-- Inclusive ranges of code points, in increasing order and apart from each other. -/
structure RangeTable where
  ranges : Array (Nat × Nat)

namespace RangeTable

/-- Searches the ranges with index in `[low, high)` for one that holds `n`. -/
def search (t : RangeTable) (n low high : Nat) : Bool :=
  if low < high then
    let middle := (low + high) / 2
    match t.ranges[middle]? with
    | none => false
    | some (first, last) =>
      if n < first then t.search n low middle
      else if last < n then t.search n (middle + 1) high
      else true
  else false
termination_by high - low

def contains (t : RangeTable) (n : Nat) : Bool := t.search n 0 t.ranges.size

end RangeTable
end Modula

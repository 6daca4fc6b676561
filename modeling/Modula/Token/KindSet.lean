import Modula.Token.Kind

/-! # Sets of token kinds

A set is one word of 32 bits: the bit of a kind is the one that its code counts. -/

set_option autoImplicit false

namespace Modula

structure KindSet where
  bits : UInt32
  deriving DecidableEq, Repr

namespace KindSet

/-- The word in which only the bit of `k` is set. -/
def bit (k : TokenKind) : UInt32 := 1 <<< UInt32.ofNat k.code

def empty : KindSet := ⟨0⟩

def insert (s : KindSet) (k : TokenKind) : KindSet := ⟨s.bits ||| bit k⟩

/-- The set of the kinds in a list. -/
def ofList (kinds : List TokenKind) : KindSet := kinds.foldl insert empty

def union (s t : KindSet) : KindSet := ⟨s.bits ||| t.bits⟩

def contains (s : KindSet) (k : TokenKind) : Bool := s.bits &&& bit k != 0

/-- The members in the order of their codes. -/
def members (s : KindSet) : List TokenKind := TokenKind.all.filter s.contains

end KindSet
end Modula

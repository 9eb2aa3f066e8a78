/-!
The scales of binary and decimal numbers.
-/

namespace NavQuery

def twoTo (n : Nat) : Nat := Nat.pow 2 n

def tenTo (n : Nat) : Nat := Nat.pow 10 n

end NavQuery

/-!
# Limits

What goes beyond these limits cannot be done: it ends the work in which it is asked for, wherever that
is.
-/

namespace Workload

/-- Whether a whole number has at most 64 bits. -/
def isWhole (n : Int) : Bool := -(Nat.pow 2 63 : Int) ≤ n && n < (Nat.pow 2 63 : Int)

/-- The most texts that a list can hold: each takes 24 bytes, and all of them less than 2^63. -/
def maxListed : Nat := (Nat.pow 2 63 - 1) / 24

/-- The most signals that can be on their way. -/
def maxSignals : Nat := Nat.pow 2 61 - 1

/-- The highest port. -/
def maxPort : Nat := Nat.pow 2 16 - 1

end Workload

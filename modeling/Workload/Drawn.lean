/-!
# Drawn names

Names of six letters and digits for what has no name of its own.  They are spread over all names of
this length, and the first 62⁶ of them differ.
-/

namespace Workload.Drawn

/-- The characters of a name, which stand for the numbers from 0 to 61. -/
def letters : List Char :=
  "0123456789abcdefghijklmnopqrstuvwxyzABCDEFGHIJKLMNOPQRSTUVWXYZ".toList

/-- The last `n` digits of a number in the given base. -/
def lastDigits (base : Nat) : Nat → Nat → List Char
  | 0, _ => []
  | n + 1, k => lastDigits base n (k / base) ++ [letters.getD (k % base) '0']

/-- The `n`th name in the given base. -/
def name (base n : Nat) : String :=
  String.ofList (lastDigits base 6 ((n * 1000003 + 15485863) % Nat.pow base 6))

/-- A name of letters of both cases and digits. -/
def aliasName (n : Nat) : String := name 62 n

/-- A name of small letters and digits. -/
def suffix (n : Nat) : String := name 36 n

end Workload.Drawn

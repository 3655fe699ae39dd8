import Workload.Proofs.Writing
import Workload.Yaml.Plain

/-!
# Counts

A whole number of 64 bits is read as it is written (`signed?_toString`), and its digits are read as
themselves without quotes (`isLegible_toString`).
-/

namespace Workload

namespace Text

/-- What digits are read as is what they write. -/
theorem readDigits_of_isDigit {s : List Char} (hs : ∀ c ∈ s, c.isDigit = true) (acc : Nat) :
    readDigits 10 acc s = some (Nat.ofDigitChars 10 s acc) := by
  induction s generalizing acc with
  | nil => rfl
  | cons c cs ih =>
    have hc := hs c List.mem_cons_self
    have hvalue : digitValue? 10 c = some (c.toNat - '0'.toNat) := by
      have hrange : 48 ≤ c.toNat ∧ c.toNat ≤ 57 := by simpa [Char.isDigit, UInt32.le_iff_toNat_le] using hc
      unfold digitValue?
      rw [if_pos hc]
      have hlt : c.toNat - 48 < 10 := by omega
      simp [Option.filter, hlt]
    unfold readDigits
    rw [hvalue, Nat.ofDigitChars_cons, Nat.mul_comm 10 acc]
    exact ih (fun d hd => hs d (List.mem_cons_of_mem _ hd)) _

theorem isDigit_of_mem_toDigits {n : Nat} {c : Char} (h : c ∈ Nat.toDigits 10 n) : c.isDigit = true :=
  Nat.isDigit_of_mem_toDigits (by decide) (by decide) h

theorem natOf?_toDigits (n : Nat) : natOf? 10 (Nat.toDigits 10 n) = some n := by
  unfold natOf?
  rw [if_neg (by simp [Nat.toDigits_ne_nil]), readDigits_of_isDigit fun c hc => isDigit_of_mem_toDigits hc,
    Nat.ofDigitChars_ten_toDigits]

/-- Only zero starts with a zero. -/
theorem head?_toDigits {n : Nat} (hn : 0 < n) : (Nat.toDigits 10 n).head? ≠ some '0' := by
  induction n using Nat.strong_induction_on with
  | _ n ih =>
    have hdigit : ∀ m < 10, 0 < m → some m.digitChar ≠ some '0' := by decide
    by_cases hlt : n < 10
    · rw [Nat.toDigits_of_lt_base hlt]
      exact hdigit n hlt hn
    · have hne : Nat.toDigits 10 (n / 10) ≠ [] := Nat.toDigits_ne_nil
      rw [Nat.toDigits_of_base_le (by decide) (Nat.le_of_not_lt hlt), List.head?_append_of_ne_nil _ hne]
      exact ih (n / 10) (by omega) (by omega)

end Text

namespace Yaml

/-- How a whole number is written. -/
theorem toString_cases (i : Int) :
    (∃ n : Nat, i = n ∧ (toString i).toList = Nat.toDigits 10 n) ∨
      ∃ n : Nat, i = -(n : Int) ∧ 0 < n ∧ (toString i).toList = '-' :: Nat.toDigits 10 n := by
  cases i with
  | ofNat n => exact .inl ⟨n, rfl, Nat.toList_repr⟩
  | negSucc n =>
    refine .inr ⟨n + 1, rfl, Nat.succ_pos n, ?_⟩
    show ("-" ++ Nat.repr (n + 1)).toList = _
    rw [String.toList_append, Nat.toList_repr]
    rfl

/-- What holds of a run of digits without a leading zero. -/
theorem plain_toDigits (n : Nat) :
    based? (Nat.toDigits 10 n) = none ∧ isPaddedDigits (Nat.toDigits 10 n) = false ∧
      isPaddedDigits ('-' :: Nat.toDigits 10 n) = false ∧
      ∃ d ds, Nat.toDigits 10 n = d :: ds ∧ d.isDigit = true := by
  obtain ⟨d, ds, hdigits⟩ := List.exists_cons_of_ne_nil (Nat.toDigits_ne_nil (n := n) (b := 10))
  have hall : ∀ c ∈ d :: ds, c.isDigit = true := fun c hc => Text.isDigit_of_mem_toDigits (hdigits ▸ hc)
  have hd := hall d List.mem_cons_self
  have hzero : d = '0' → ds = [] := by
    rintro rfl
    by_contra hds
    have hn : 0 < n := by
      rw [Nat.pos_iff_ne_zero]
      rintro rfl
      exact hds (List.cons.inj hdigits).2.symm
    exact Text.head?_toDigits hn (by rw [hdigits]; rfl)
  rw [hdigits]
  by_cases h0 : d = '0'
  · rw [h0, hzero h0]
    exact ⟨rfl, rfl, rfl, _, _, rfl, rfl⟩
  · have hne : d ≠ '-' ∧ d ≠ '+' := by
      constructor <;> (rintro rfl; cases hd)
    refine ⟨?_, ?_, ?_, _, _, rfl, hd⟩
    · unfold based?
      split <;> simp_all
    · unfold isPaddedDigits
      simp [hne, h0]
    · unfold isPaddedDigits
      simp [h0]

/-- A number of 64 bits is read as it is written. -/
theorem signed?_toString {limit : Nat} {i : Int} (hlow : -(limit : Int) ≤ i) (hhigh : i < limit) :
    signed? limit (toString i).toList = some i := by
  rcases toString_cases i with ⟨n, rfl, htext⟩ | ⟨n, rfl, hn, htext⟩
  · obtain ⟨hbased, hpadded, -, d, ds, hdigits, hd⟩ := plain_toDigits n
    have hne : d ≠ '-' ∧ d ≠ '+' := by
      constructor <;> (rintro rfl; cases hd)
    have hnat := Text.natOf?_toDigits n
    rw [htext]
    rw [hdigits] at hbased hpadded hnat ⊢
    have hlt : n < limit := by omega
    simp [signed?, dropPlus?, hne, hbased, hpadded, Text.signedOf?, Text.unsignedOf?, hnat, Option.filter_some, hlt]
  · obtain ⟨hbased, -, hpadded, d, ds, hdigits, hd⟩ := plain_toDigits n
    have hnat := Text.natOf?_toDigits n
    have hle : n ≤ limit := by omega
    rw [htext]
    have hbased' : based? ('-' :: Nat.toDigits 10 n) = none := rfl
    simp [signed?, dropPlus?, hbased, hbased', hpadded, Text.signedOf?, hnat, Option.filter_some, hle]

theorem isWordChar_of_mem_toString {i : Int} {c : Char} (h : c ∈ (toString i).toList) : isWordChar c = true := by
  have hdigit : ∀ {n : Nat}, c ∈ Nat.toDigits 10 n → isWordChar c = true := fun hc => by
    rw [isWordChar_eq, Text.isDigit_of_mem_toDigits hc]
    simp
  rcases toString_cases i with ⟨n, -, htext⟩ | ⟨n, -, -, htext⟩ <;> rw [htext] at h
  · exact hdigit h
  · rcases List.mem_cons.1 h with rfl | h
    · rfl
    · exact hdigit h

/-- A number is read as itself without quotes. -/
theorem isLegible_toString (i : Int) : isLegible (toString i).toList = true := by
  have hword : ∀ c ∈ (toString i).toList, isWordChar c = true := fun c => isWordChar_of_mem_toString
  rcases toString_cases i with ⟨n, -, htext⟩ | ⟨n, -, -, htext⟩
  · obtain ⟨-, -, -, d, ds, hdigits, hd⟩ := plain_toDigits n
    rw [htext, hdigits] at hword ⊢
    refine isLegible_of_isWordChar hword (.inl ?_)
    rintro rfl
    cases hd
  · rw [htext] at hword ⊢
    exact isLegible_of_isWordChar hword (.inr Nat.toDigits_ne_nil)

end Yaml

end Workload

import Workload.Proofs.Doubles
import Workload.Proofs.Durations

/-!
# How long a written duration is

An amount is rounded to double precision as it is read and again in seconds, and then to nanoseconds.  Whole
numbers below `2 ^ 53` come through all three unchanged, so hours, minutes and seconds add up exactly
(`whole_units_add_up`).  Of other amounts the roundings keep the order of size: a row of components far enough
below the limit of durations is in range, and a component well beyond it is not (`row_in_range`,
`component_out_of_range`).
-/

namespace Workload

namespace Text

theorem isBlank_of_isDigit {c : Char} (hc : c.isDigit = true) : isBlank c = false := by
  have hrange : 48 ≤ c.toNat ∧ c.toNat ≤ 57 := by simpa [Char.isDigit, UInt32.le_iff_toNat_le] using hc
  refine Bool.eq_false_iff.2 fun hblank => ?_
  simp only [isBlank, blankRanges, List.any_cons, List.any_nil, Bool.or_eq_true, Bool.and_eq_true,
    decide_eq_true_eq, Bool.false_eq_true, or_false] at hblank
  omega

/-- A text without blanks stays as it is. -/
theorem trim_eq_self {s : List Char} (h : ∀ c ∈ s, isBlank c = false) : trim s = s := by
  have hdrop : ∀ {t : List Char}, (∀ c ∈ t, c ∈ s) → t.dropWhile isBlank = t := fun {t} ht => by
    cases t with
    | nil => rfl
    | cons c cs => exact List.dropWhile_cons_of_neg (by simp [h c (ht c List.mem_cons_self)])
  unfold trim trimStart trimEnd
  rw [hdrop fun _ hc => hc, hdrop fun _ hc => List.mem_reverse.1 hc, List.reverse_reverse]

end Text

namespace Duration

open Double

/-! ## Units -/

/-- A unit in seconds. -/
def TimeUnit.size : TimeUnit → ℚ
  | .nanosecond => 1 / 1000000000
  | .microsecond => 1 / 1000000
  | .millisecond => 1 / 1000
  | .second => 1
  | .minute => 60
  | .hour => 3600

theorem TimeUnit.size_pos (unit : TimeUnit) : 0 < unit.size := by
  cases unit <;> norm_num [TimeUnit.size]

section Units

variable {unit : TimeUnit} {x y : Double}

theorem scale?_eq (x : Double) (k : Nat) :
    ∃ num den : Nat, 0 < den ∧ (num : ℚ) / den = x.value * k ∧ x.scale? k = ofRatio? num den := by
  refine ⟨x.ratio.1 * k, x.ratio.2, x.ratio_pos, ?_, rfl⟩
  rw [← x.ratio_value]
  push_cast
  ring

theorem shrink?_eq (x : Double) {k : Nat} (hk : 0 < k) :
    ∃ num den : Nat, 0 < den ∧ (num : ℚ) / den = x.value * (1 / k) ∧ x.shrink? k = ofRatio? num den := by
  refine ⟨x.ratio.1, x.ratio.2 * k, Nat.mul_pos x.ratio_pos hk, ?_, rfl⟩
  rw [← x.ratio_value]
  push_cast
  ring

/-- Seconds are left as they are, and all other units are rounded in seconds. -/
theorem TimeUnit.seconds?_cases (unit : TimeUnit) (x : Double) :
    (x.value * unit.size = x.value ∧ unit.seconds? x = some x) ∨
      ∃ num den : Nat, 0 < den ∧ (num : ℚ) / den = x.value * unit.size ∧ unit.seconds? x = ofRatio? num den := by
  cases unit with
  | nanosecond => exact .inr (by simpa [size, seconds?] using shrink?_eq x (k := 1000000000) (by decide))
  | microsecond => exact .inr (by simpa [size, seconds?] using shrink?_eq x (k := 1000000) (by decide))
  | millisecond => exact .inr (by simpa [size, seconds?] using shrink?_eq x (k := 1000) (by decide))
  | second => exact .inl ⟨mul_one _, rfl⟩
  | minute => exact .inr (by simpa [size, seconds?] using scale?_eq x 60)
  | hour => exact .inr (by simpa [size, seconds?] using scale?_eq x 3600)

theorem value_le_of_seconds? (h : unit.seconds? x = some y) : y.value ≤ 2 * (x.value * unit.size) := by
  obtain ⟨hsize, hsame⟩ | ⟨num, den, hden, hquot, heq⟩ := unit.seconds?_cases x
  · obtain rfl := Option.some.inj (hsame.symm.trans h)
    have := x.value_nonneg
    linarith
  · exact hquot ▸ value_le_of_ofRatio? hden (heq ▸ h)

theorem two_pow_le_of_seconds? (h : unit.seconds? x = some y) {j : Nat} (hj : (2 : ℚ) ^ j ≤ x.value * unit.size) :
    (2 : ℚ) ^ j ≤ y.value := by
  obtain ⟨hsize, hsame⟩ | ⟨num, den, hden, hquot, heq⟩ := unit.seconds?_cases x
  · obtain rfl := Option.some.inj (hsame.symm.trans h)
    rwa [hsize] at hj
  · exact two_pow_le_value_of_ofRatio? hden (heq ▸ h) (hquot ▸ hj)

theorem exists_seconds? {k : Nat} (hk : k ≤ 1023) (h : x.value * unit.size < 2 ^ k) :
    ∃ y, unit.seconds? x = some y := by
  obtain ⟨-, hsame⟩ | ⟨num, den, hden, hquot, heq⟩ := unit.seconds?_cases x
  · exact ⟨x, hsame⟩
  · rw [heq]
    exact exists_ofRatio? hden hk (hquot ▸ h)

theorem seconds?_exact {n : Nat} (hn : n < 2 ^ 53) (h : x.value * unit.size = n) :
    ∃ y, unit.seconds? x = some y ∧ y.value = n := by
  obtain ⟨hsize, hsame⟩ | ⟨num, den, hden, hquot, heq⟩ := unit.seconds?_cases x
  · exact ⟨x, hsame, hsize ▸ h⟩
  · rw [heq]
    exact ofRatio?_exact hden hn (hquot.trans h)

theorem ofAmount?_of_eq {digits places : Nat} (hx : ofDecimal? digits (-(places : Int)) = some x)
    (hy : unit.seconds? x = some y) : ofAmount? digits places unit = ofDouble? y := by
  unfold ofAmount?
  rw [hx, Option.bind_eq_bind, Option.bind_some, hy, Option.bind_some]

theorem ofAmount?_eq_some {digits places : Nat} {d : Duration} (h : ofAmount? digits places unit = some d) :
    ∃ x y, ofDecimal? digits (-(places : Int)) = some x ∧ unit.seconds? x = some y ∧ ofDouble? y = some d := by
  unfold ofAmount? at h
  obtain ⟨x, hx, h⟩ := Option.bind_eq_some_iff.1 h
  obtain ⟨y, hy, h⟩ := Option.bind_eq_some_iff.1 h
  exact ⟨x, y, hx, hy, h⟩

/-- Seconds are rounded to the nearest nanosecond. -/
theorem ofDouble?_spec (x : Double) :
    ∃ n : Nat, |(n : ℚ) - x.value * 1000000000| ≤ 1 / 2 ∧
      ofDouble? x = if n < secondsLimit * 1000000000 then some ⟨n⟩ else none := by
  refine ⟨_, ?_, rfl⟩
  have hround := abs_roundDiv_sub_le (x.ratio.1 * 1000000000) x.ratio_pos
  rwa [Nat.cast_mul, mul_div_right_comm, x.ratio_value] at hround

end Units

/-! ## Sizes -/

section Sizes

variable {p : Component} {total : Duration} {ps : List Component}

/-- How many seconds a component says. -/
def Component.exact (p : Component) : ℚ := digitsOf p.amount / 10 ^ placesOf p.amount * p.unit.size

theorem Component.exact_nonneg (p : Component) : 0 ≤ p.exact := by
  have := p.unit.size_pos
  unfold Component.exact
  positivity

/-- The three roundings of a component make it at most eight times as long, and in range. -/
theorem exists_duration? (h : p.exact < 2 ^ 61) :
    ∃ d, p.duration? = some d ∧ (d.nanos : ℚ) ≤ 8 * p.exact * 1000000000 := by
  have hsize := p.unit.size_pos
  have hleast : (1 : ℚ) / 1000000000 ≤ p.unit.size := by cases p.unit <;> norm_num [TimeUnit.size]
  have hamount : (digitsOf p.amount : ℚ) / 10 ^ placesOf p.amount < 2 ^ 91 := by
    have hle : (digitsOf p.amount : ℚ) / 10 ^ placesOf p.amount * (1 / 1000000000) ≤ p.exact := by
      unfold Component.exact
      gcongr
    linarith
  obtain ⟨x, hx⟩ := exists_ofDecimal? (by omega) hamount
  have hseconds : x.value * p.unit.size ≤ 2 * p.exact := by
    have := mul_le_mul_of_nonneg_right (value_le_of_ofDecimal? hx) hsize.le
    rwa [mul_assoc] at this
  have hlarge : x.value * p.unit.size < 2 ^ 62 := by linarith
  obtain ⟨y, hy⟩ := exists_seconds? (by omega) hlarge
  have hspan := value_le_of_seconds? hy
  obtain ⟨n, hround, hn⟩ := ofDouble?_spec y
  have hnanos : (n : ℚ) ≤ 8 * p.exact * 1000000000 := by
    have := le_two_mul_of_abs_sub_le hround (mul_nonneg y.value_nonneg (by norm_num))
    linarith
  have hrange : n < secondsLimit * 1000000000 := by
    have hlt : (n : ℚ) < (2 ^ 64 * 1000000000 : Nat) := by
      push_cast
      linarith
    exact Nat.cast_lt.1 hlt
  rw [if_pos hrange] at hn
  exact ⟨⟨n⟩, (ofAmount?_of_eq hx hy).trans hn, hnanos⟩

/-- A row of less than `2 ^ 61` seconds is in range. -/
theorem row_in_range : ∀ (ps : List Component) (total : Duration),
    total.nanos + 8 * (ps.map Component.exact).sum * 1000000000 < 2 ^ 64 * 1000000000 →
    ∃ d, addRow? total ps = some d
  | [], total, _ => ⟨total, rfl⟩
  | p :: ps, total, h => by
    rw [List.map_cons, List.sum_cons] at h
    have hps : 0 ≤ (ps.map Component.exact).sum :=
      List.sum_nonneg fun q hq => by
        obtain ⟨c, -, rfl⟩ := List.mem_map.1 hq
        exact c.exact_nonneg
    have htotal : (0 : ℚ) ≤ total.nanos := Nat.cast_nonneg _
    obtain ⟨d, hd, hnanos⟩ := exists_duration? (p := p) (by linarith)
    have hrange : total.nanos + d.nanos < secondsLimit * 1000000000 := by
      have hlt : ((total.nanos + d.nanos : Nat) : ℚ) < (2 ^ 64 * 1000000000 : Nat) := by
        push_cast
        linarith
      exact Nat.cast_lt.1 hlt
    have hadd : total.add? d = some ⟨total.nanos + d.nanos⟩ := if_pos hrange
    rw [addRow?, hd, Option.bind_some, hadd, Option.bind_some]
    refine row_in_range ps _ ?_
    push_cast
    linarith

/-- A component of `2 ^ 65` seconds or more is not in range. -/
theorem component_out_of_range (h : 2 ^ 65 ≤ p.exact) : p.duration? = none := by
  have hsize := p.unit.size_pos
  have hmost : p.unit.size ≤ 3600 := by cases p.unit <;> norm_num [TimeUnit.size]
  have hone : 1 ≤ (digitsOf p.amount : ℚ) / 10 ^ placesOf p.amount := by
    have hle : p.exact ≤ (digitsOf p.amount : ℚ) / 10 ^ placesOf p.amount * 3600 := by
      unfold Component.exact
      gcongr
    linarith
  refine Option.eq_none_iff_forall_ne_some.2 fun d hd => ?_
  obtain ⟨x, y, hx, hy, hspan⟩ := ofAmount?_eq_some hd
  have hseconds : (2 : ℚ) ^ 64 ≤ x.value * p.unit.size := by
    have hle := mul_le_mul_of_nonneg_right (le_value_of_ofDecimal? hx hone) hsize.le
    rw [← Component.exact] at hle
    linarith
  have hvalue := two_pow_le_of_seconds? hy hseconds
  obtain ⟨n, hround, hn⟩ := ofDouble?_spec y
  have hlarge : 2 ^ 64 * 1000000000 ≤ n := le_of_abs_sub_le hround (by
    push_cast
    linarith)
  have hrange : ¬n < secondsLimit * 1000000000 := not_lt.2 hlarge
  rw [hn, if_neg hrange] at hspan
  cases hspan

theorem addRow?_append_none (h : p.duration? = none) : ∀ (ps : List Component) (total : Duration),
    addRow? total (ps ++ [p]) = none
  | [], total => by rw [List.nil_append, addRow?, h]; rfl
  | q :: ps, total => by
    rw [List.cons_append, addRow?]
    cases q.duration?.bind total.add? with
    | none => rfl
    | some sum => exact addRow?_append_none h ps sum

end Sizes

/-! ## Whole numbers of hours, minutes and seconds -/

/-- The units that are a whole number of seconds. -/
inductive WholeUnit where
  | hour | minute | second

namespace WholeUnit

def letter : WholeUnit → Char
  | .hour => 'h'
  | .minute => 'm'
  | .second => 's'

def seconds : WholeUnit → Nat
  | .hour => 3600
  | .minute => 60
  | .second => 1

def toUnit : WholeUnit → TimeUnit
  | .hour => .hour
  | .minute => .minute
  | .second => .second

theorem size_toUnit (unit : WholeUnit) : unit.toUnit.size = unit.seconds := by
  cases unit <;> simp [toUnit, TimeUnit.size, seconds]

theorem seconds_pos (unit : WholeUnit) : 0 < unit.seconds := by cases unit <;> decide

end WholeUnit

/-- A whole number of a unit, written in decimal behind any number of zeros. -/
structure WholeAmount where
  zeros : Nat
  count : Nat
  unit : WholeUnit

namespace WholeAmount

variable (p : WholeAmount)

def digits : List Char := List.replicate p.zeros '0' ++ Nat.toDigits 10 p.count

def text : List Char := p.digits ++ [p.unit.letter]

def seconds : Nat := p.count * p.unit.seconds

theorem isDigit_of_mem_digits {c : Char} (h : c ∈ p.digits) : c.isDigit = true := by
  rcases List.mem_append.1 h with hzero | hdigit
  · rw [(List.mem_replicate.1 hzero).2]
    decide
  · exact Text.isDigit_of_mem_toDigits hdigit

theorem digits_ne_nil : p.digits ≠ [] := List.append_ne_nil_of_right_ne_nil _ Nat.toDigits_ne_nil

theorem ofDigitChars_digits : Nat.ofDigitChars 10 p.digits 0 = p.count := by
  rw [digits, Nat.ofDigitChars_append, Nat.ofDigitChars_replicate_zero, Nat.mul_zero,
    Nat.ofDigitChars_ten_toDigits]

def toComponent : Component where
  amount := p.digits
  unit := p.unit.toUnit
  name := [p.unit.letter]
  chars := fun c hc => by simp [isAmountChar, p.isDigit_of_mem_digits hc]
  digit :=
    let ⟨d, hd⟩ := List.exists_mem_of_ne_nil _ p.digits_ne_nil
    ⟨d, hd, p.isDigit_of_mem_digits hd⟩
  point := by
    rw [List.count_eq_zero.2 (not_mem_of_isDigit fun _ hc => p.isDigit_of_mem_digits hc)]
    decide
  named := by cases p.unit <;> decide

/-- Nothing is lost of a whole number below `2 ^ 53`. -/
theorem duration?_toComponent (h : p.seconds < 2 ^ 53) :
    p.toComponent.duration? = some ⟨p.seconds * 1000000000⟩ := by
  have hall : ∀ c ∈ p.digits, c.isDigit = true := fun _ hc => p.isDigit_of_mem_digits hc
  have hdigits : digitsOf p.digits = p.count := by
    rw [digitsOf, List.filter_eq_self.2 hall, ofDigitChars_digits]
  have hplaces : placesOf p.digits = 0 := by
    rw [placesOf, List.dropWhile_eq_nil_iff.2 hall, List.tail_nil, List.length_nil]
  have hcount : p.count < 2 ^ 53 := (Nat.le_mul_of_pos_right _ p.unit.seconds_pos).trans_lt h
  obtain ⟨x, hx, hvalue⟩ := ofDecimal?_exact hcount
  have hscaled : x.value * p.unit.toUnit.size = p.seconds := by
    rw [hvalue, WholeUnit.size_toUnit, seconds, Nat.cast_mul]
  obtain ⟨y, hy, hseconds⟩ := seconds?_exact h hscaled
  obtain ⟨n, hround, hspan⟩ := ofDouble?_spec y
  rw [hseconds] at hround
  have hn : n = p.seconds * 1000000000 := eq_of_abs_sub_le (by push_cast; exact hround)
  have hrange : n < secondsLimit * 1000000000 := by
    rw [hn, secondsLimit, Nat.pow_eq]
    omega
  rw [if_pos hrange, hn] at hspan
  have hamount : ofAmount? p.count 0 p.unit.toUnit = ofDouble? y := ofAmount?_of_eq hx hy
  rw [← hdigits, ← hplaces] at hamount
  exact hamount.trans hspan

end WholeAmount

/-- Whole numbers of seconds are added up as they are. -/
theorem addRow?_whole : ∀ (ps : List WholeAmount) (total : Nat), (∀ p ∈ ps, p.seconds < 2 ^ 53) →
    total + (ps.map WholeAmount.seconds).sum < 2 ^ 64 →
    addRow? ⟨total * 1000000000⟩ (ps.map WholeAmount.toComponent) =
      some ⟨(total + (ps.map WholeAmount.seconds).sum) * 1000000000⟩
  | [], total, _, _ => rfl
  | p :: ps, total, hps, hsum => by
    rw [List.map_cons, List.sum_cons, ← Nat.add_assoc] at hsum
    have hrange : total * 1000000000 + p.seconds * 1000000000 < secondsLimit * 1000000000 := by
      rw [secondsLimit, Nat.pow_eq]
      omega
    have hadd : add? ⟨total * 1000000000⟩ ⟨p.seconds * 1000000000⟩ =
        some ⟨(total + p.seconds) * 1000000000⟩ := by
      rw [add?, if_pos hrange, ← Nat.add_mul]
    rw [List.map_cons, addRow?, p.duration?_toComponent (hps p List.mem_cons_self), Option.bind_some, hadd,
      Option.bind_some, List.map_cons, List.sum_cons, ← Nat.add_assoc]
    exact addRow?_whole ps _ (fun q hq => hps q (List.mem_cons_of_mem p hq)) hsum

theorem rowText_whole (ps : List WholeAmount) :
    rowText (ps.map WholeAmount.toComponent) = ps.flatMap WholeAmount.text := by
  rw [rowText, List.flatMap_map]
  rfl

theorem isBlank_of_mem_whole {ps : List WholeAmount} {c : Char} (h : c ∈ ps.flatMap WholeAmount.text) :
    Text.isBlank c = false := by
  obtain ⟨p, -, hc⟩ := List.mem_flatMap.1 h
  rcases List.mem_append.1 hc with hdigit | hletter
  · exact Text.isBlank_of_isDigit (p.isDigit_of_mem_digits hdigit)
  · rw [List.mem_singleton.1 hletter]
    cases p.unit <;> decide

theorem parse_whole {ps : List WholeAmount} (hps : ps ≠ []) (hexact : ∀ p ∈ ps, p.seconds < 2 ^ 53)
    (hsum : (ps.map WholeAmount.seconds).sum < 2 ^ 64) :
    parse (String.ofList (ps.flatMap WholeAmount.text)) =
      .ok ⟨(ps.map WholeAmount.seconds).sum * 1000000000⟩ := by
  have hrow := addRow?_whole ps 0 hexact (by omega)
  rw [Nat.zero_mul, Nat.zero_add] at hrow
  have hs : Text.trim (String.ofList (ps.flatMap WholeAmount.text)).toList =
      rowText (ps.map WholeAmount.toComponent) ++ [] := by
    rw [String.toList_ofList, Text.trim_eq_self fun c hc => isBlank_of_mem_whole hc, rowText_whole,
      List.append_nil]
  rw [parse_of_row (by simpa using hps) hs (fun c hc => nomatch hc), zero, hrow]
  unfold addParts
  rfl

end Duration

namespace Expression

open Duration

/-- Hours, minutes and seconds add up to the second, in any order and however often each of them occurs. -/
theorem whole_units_add_up (ps : List WholeAmount) (hps : ps ≠ []) (hexact : ∀ p ∈ ps, p.seconds < 2 ^ 53)
    (hsum : (ps.map WholeAmount.seconds).sum < 2 ^ 64) :
    ∃ d, parseDuration? (String.ofList (ps.flatMap WholeAmount.text)) = some (.ok d) ∧
      d.seconds = (ps.map WholeAmount.seconds).sum ∧ d.subsecNanos = 0 := by
  refine ⟨_, parseDuration?_eq_ok_iff.2 (parse_whole hps hexact hsum), ?_, ?_⟩
  · exact Nat.mul_div_cancel _ (by decide)
  · exact Nat.mul_mod_left _ _

theorem whole_units_add_up_padded :
    ∃ d, parseDuration? "007m2h30s1m" = some (.ok d) ∧ d.seconds = 7710 ∧ d.subsecNanos = 0 :=
  whole_units_add_up [⟨2, 7, .minute⟩, ⟨0, 2, .hour⟩, ⟨0, 30, .second⟩, ⟨0, 1, .minute⟩] (by decide)
    (by decide) (by decide)

end Expression

end Workload

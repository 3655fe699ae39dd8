import Mathlib.Algebra.GroupWithZero.Nat
import Workload.Expression.Condition
import Workload.Proofs.Placeholders

/-!
# The form of durations

A duration is written as a number of nanoseconds or as a row of components, each an amount and a unit
(`Component`).  A row is read component by component (`addParts_components`), and reading stops at what is no
component, where the text is not a duration (`addParts_stuck`).  Every text that is no number is a row with
such a rest behind it, if any (`exists_components`), so that the form decides what is read
(`parse_of_components`).
-/

namespace Workload

namespace Text

theorem natOf?_eq_some_iff {ds : List Char} {n : Nat} :
    natOf? 10 ds = some n ↔ ds ≠ [] ∧ (∀ c ∈ ds, c.isDigit = true) ∧ Nat.ofDigitChars 10 ds 0 = n := by
  unfold natOf?
  by_cases hne : ds = []
  · simp [hne]
  rw [if_neg (by simpa using hne)]
  constructor
  · intro h
    have hdigits : ∀ c ∈ ds, c.isDigit = true := fun c hc => by
      by_contra hdigit
      exact not_mem_of_readDigits (digitValue?_of_not_isDigit (Bool.eq_false_iff.2 hdigit)) h hc
    rw [readDigits_of_isDigit hdigits] at h
    exact ⟨hne, hdigits, Option.some.inj h⟩
  · rintro ⟨-, hdigits, rfl⟩
    exact readDigits_of_isDigit hdigits 0

/-- A decimal of 64 bits without a sign or behind a plus sign. -/
def IsCount (s : List Char) : Prop :=
  ∃ ds : List Char, ds ≠ [] ∧ (∀ c ∈ ds, c.isDigit = true) ∧ Nat.ofDigitChars 10 ds 0 < 2 ^ 64 ∧
    (s = ds ∨ s = '+' :: ds)

theorem nat64Of?_isSome_iff {s : List Char} : (∃ n, nat64Of? s = some n) ↔ IsCount s := by
  unfold nat64Of? unsignedOf?
  simp only [Option.filter_eq_some_iff, natOf?_eq_some_iff, decide_eq_true_eq, Nat.pow_eq]
  constructor
  · rintro ⟨n, ⟨hne, hdigits, rfl⟩, hlt⟩
    refine ⟨_, hne, hdigits, hlt, ?_⟩
    split
    · exact .inr rfl
    · exact .inl rfl
  · rintro ⟨ds, hne, hdigits, hlt, rfl | rfl⟩
    · obtain ⟨d, ds, rfl⟩ := List.exists_cons_of_ne_nil hne
      have hplus : d ≠ '+' := by
        rintro rfl
        exact absurd (hdigits '+' List.mem_cons_self) (by decide)
      split
      · rename_i heq
        exact absurd (List.cons.inj heq).1 hplus
      · exact ⟨_, ⟨hne, hdigits, rfl⟩, hlt⟩
    · exact ⟨_, ⟨hne, hdigits, rfl⟩, hlt⟩

end Text

namespace Duration

/-! ## Amounts -/

section Amounts

variable {cs : List Char}

/-- The digits of an amount as one number. -/
def digitsOf (cs : List Char) : Nat := Nat.ofDigitChars 10 (cs.filter Char.isDigit) 0

/-- How many digits of an amount follow its point. -/
def placesOf (cs : List Char) : Nat := (cs.dropWhile Char.isDigit).tail.length

theorem read_eq (ds : List Char) : pointDigits?.read ds = Nat.ofDigitChars 10 ds 0 := rfl

theorem eq_point_of_isAmountChar {c : Char} (hc : isAmountChar c = true) (hdigit : c.isDigit = false) :
    c = '.' := by
  simpa [isAmountChar, hdigit] using hc

/-- An amount is digits, or digits around its first point. -/
theorem amount_cases (hcs : ∀ c ∈ cs, isAmountChar c = true) :
    (∀ c ∈ cs, c.isDigit = true) ∨
      ∃ ws fs, (∀ c ∈ ws, c.isDigit = true) ∧ (∀ c ∈ fs, isAmountChar c = true) ∧ cs = ws ++ '.' :: fs := by
  have hsplit := List.takeWhile_append_dropWhile (p := Char.isDigit) (l := cs)
  have hws : ∀ c ∈ cs.takeWhile Char.isDigit, c.isDigit = true := fun c hc => List.mem_takeWhile_imp hc
  cases hrest : cs.dropWhile Char.isDigit with
  | nil =>
    rw [hrest, List.append_nil] at hsplit
    exact .inl (hsplit ▸ hws)
  | cons c fs =>
    have hdigit : c.isDigit = false := by
      have := List.head?_dropWhile_not Char.isDigit cs
      simpa [hrest] using this
    rw [hrest] at hsplit
    have hmem : ∀ d ∈ c :: fs, isAmountChar d = true := fun d hd =>
      hcs d (hsplit ▸ List.mem_append_right _ hd)
    obtain rfl := eq_point_of_isAmountChar (hmem c List.mem_cons_self) hdigit
    exact .inr ⟨_, fs, hws, fun d hd => hmem d (List.mem_cons_of_mem _ hd), hsplit.symm⟩

theorem not_mem_of_isDigit (hcs : ∀ c ∈ cs, c.isDigit = true) : '.' ∉ cs := fun h =>
  absurd (hcs '.' h) (by decide)

theorem pointDigits?_of_isDigit (hcs : ∀ c ∈ cs, c.isDigit = true) :
    pointDigits? cs =
      if cs.any Char.isDigit = true ∧ cs.count '.' ≤ 1 then some (digitsOf cs, placesOf cs) else none := by
  have hdrop : cs.dropWhile Char.isDigit = [] := List.dropWhile_eq_nil_iff.2 hcs
  have htake : cs.takeWhile Char.isDigit = cs := List.takeWhile_eq_self_iff.2 hcs
  have hcount : cs.count '.' = 0 := List.count_eq_zero.2 (not_mem_of_isDigit hcs)
  unfold pointDigits? digitsOf placesOf
  simp only [hdrop, htake, hcount, List.filter_eq_self.2 hcs, read_eq]
  cases cs with
  | nil => simp
  | cons d ds => simp [hcs d List.mem_cons_self]

/-- What follows the first point is read on as long as it is digits. -/
theorem pointDigits?_of_point {ws fs : List Char} (hws : ∀ c ∈ ws, c.isDigit = true)
    (hfs : ∀ c ∈ fs, isAmountChar c = true) :
    pointDigits? (ws ++ '.' :: fs) =
      if (ws ++ '.' :: fs).any Char.isDigit = true ∧ (ws ++ '.' :: fs).count '.' ≤ 1 then
        some (digitsOf (ws ++ '.' :: fs), placesOf (ws ++ '.' :: fs))
      else none := by
  have hpoint : Char.isDigit '.' = false := by decide
  have hdrop : (ws ++ '.' :: fs).dropWhile Char.isDigit = '.' :: fs := by
    rw [List.dropWhile_append_of_pos hws, List.dropWhile_cons_of_neg (by simp [hpoint])]
  have htake : (ws ++ '.' :: fs).takeWhile Char.isDigit = ws := by
    rw [List.takeWhile_append_of_pos hws, List.takeWhile_cons_of_neg (by simp [hpoint]), List.append_nil]
  have hcount : (ws ++ '.' :: fs).count '.' = 1 + fs.count '.' := by
    rw [List.count_append, List.count_eq_zero.2 (not_mem_of_isDigit hws), List.count_cons_self]
    omega
  unfold pointDigits? digitsOf placesOf
  simp only [hdrop, htake, hcount]
  by_cases hall : ∀ c ∈ fs, c.isDigit = true
  · have hzero : fs.count '.' = 0 := List.count_eq_zero.2 (not_mem_of_isDigit hall)
    have hfilter : (ws ++ '.' :: fs).filter Char.isDigit = ws ++ fs := by
      rw [List.filter_append, List.filter_cons_of_neg (by simp [hpoint]), List.filter_eq_self.2 hws,
        List.filter_eq_self.2 hall]
    by_cases hempty : ws = [] ∧ fs = []
    · obtain ⟨rfl, rfl⟩ := hempty
      simp [hpoint]
    · have hcond : (ws ++ '.' :: fs).any Char.isDigit = true ∧ 1 + fs.count '.' ≤ 1 := by
        refine ⟨List.any_eq_true.2 ?_, by omega⟩
        rcases ws with - | ⟨w, ws⟩
        · obtain ⟨f, fs, rfl⟩ := List.exists_cons_of_ne_nil fun h => hempty ⟨rfl, h⟩
          exact ⟨f, by simp, hall f List.mem_cons_self⟩
        · exact ⟨w, by simp, hws w List.mem_cons_self⟩
      rw [if_pos hcond, hfilter]
      simpa [List.all_eq_true.2 hall, read_eq] using hempty
  · have htwo : ¬1 + fs.count '.' ≤ 1 := fun hle => hall fun c hc => by
      by_contra hdigit
      obtain rfl := eq_point_of_isAmountChar (hfs c hc) (Bool.eq_false_iff.2 hdigit)
      have := List.count_pos_iff.2 hc
      omega
    have hfalse : fs.all Char.isDigit = false := Bool.eq_false_iff.2 fun h => hall (List.all_eq_true.1 h)
    simp [htwo, hfalse]

/-- Digits and points are a number if there is a digit and no second point. -/
theorem pointDigits?_eq (hcs : ∀ c ∈ cs, isAmountChar c = true) :
    pointDigits? cs =
      if cs.any Char.isDigit = true ∧ cs.count '.' ≤ 1 then some (digitsOf cs, placesOf cs) else none := by
  obtain hdigits | ⟨ws, fs, hws, hfs, rfl⟩ := amount_cases hcs
  · exact pointDigits?_of_isDigit hdigits
  · exact pointDigits?_of_point hws hfs

end Amounts

/-! ## Components -/

/-- How a unit is written. -/
def TimeUnit.names : TimeUnit → List (List Char)
  | .nanosecond => [['n', 's']]
  | .microsecond => [['u', 's'], ['µ', 's']]
  | .millisecond => [['m', 's']]
  | .second => [['s']]
  | .minute => [['m']]
  | .hour => [['h']]

theorem TimeUnit.parse?_eq_some_iff {s : List Char} {unit : TimeUnit} :
    TimeUnit.parse? s = some unit ↔ s ∈ unit.names := by
  constructor
  · intro h
    unfold TimeUnit.parse? at h
    split_ifs at h with hns hus hms hs hm hh <;> cases h
    · exact hns ▸ by decide
    · simpa [TimeUnit.names] using hus
    · exact hms ▸ by decide
    · exact hs ▸ by decide
    · exact hm ▸ by decide
    · exact hh ▸ by decide
  · revert s
    cases unit <;> decide

theorem TimeUnit.isAmountChar_of_mem_names {s : List Char} {unit : TimeUnit} (h : s ∈ unit.names) :
    s ≠ [] ∧ ∀ c ∈ s, isAmountChar c = false := by
  have hnames : unit.names.all (fun s => !s.isEmpty && s.all fun c => !isAmountChar c) = true := by
    cases unit <;> rfl
  have hs := List.all_eq_true.1 hnames s h
  simpa using hs

/-- An amount and the name of its unit.  An amount is digits and points, at least one digit and at most one
point. -/
structure Component where
  amount : List Char
  unit : TimeUnit
  name : List Char
  chars : ∀ c ∈ amount, isAmountChar c = true
  digit : ∃ c ∈ amount, c.isDigit = true
  point : amount.count '.' ≤ 1
  named : name ∈ unit.names

namespace Component

variable (p : Component)

def text : List Char := p.amount ++ p.name

/-- The duration of a component, if every step to it stays in range. -/
def duration? : Option Duration := ofAmount? (digitsOf p.amount) (placesOf p.amount) p.unit

theorem amount_ne_nil : p.amount ≠ [] :=
  let ⟨_, h, _⟩ := p.digit
  List.ne_nil_of_mem h

theorem pointDigits?_amount : pointDigits? p.amount = some (digitsOf p.amount, placesOf p.amount) := by
  rw [pointDigits?_eq p.chars, if_pos ⟨List.any_eq_true.2 p.digit, p.point⟩]

theorem text_ne_nil : p.text ≠ [] := List.append_ne_nil_of_left_ne_nil p.amount_ne_nil _

end Component

/-- The text of a row of components. -/
def rowText (ps : List Component) : List Char := ps.flatMap Component.text

/-- The sum of a row of components, if every step to it stays in range. -/
def addRow? : Duration → List Component → Option Duration
  | total, [] => some total
  | total, p :: ps => (p.duration?.bind total.add?).bind fun sum => addRow? sum ps

/-- The name of a unit ends where the text ends or the next amount begins. -/
def Stops (rest : List Char) : Prop := ∀ c ∈ rest.head?, isAmountChar c = true

/-- No component stands at the front. -/
def Stuck (s : List Char) : Prop := ∀ (p : Component) (rest : List Char), s = p.text ++ rest → ¬Stops rest

section Rows

variable {rest : List Char} {ps : List Component}

theorem stops_rowText (hrest : Stops rest) : ∀ ps : List Component, Stops (rowText ps ++ rest)
  | [] => hrest
  | p :: ps => fun c hc => by
    obtain ⟨d, ds, hamount⟩ := List.exists_cons_of_ne_nil p.amount_ne_nil
    obtain rfl : d = c := by simpa [rowText, Component.text, hamount] using hc
    exact p.chars d (hamount ▸ List.mem_cons_self)

theorem stops_dropWhile (s : List Char) : Stops (s.dropWhile fun c => !isAmountChar c) := fun c hc => by
  have := List.head?_dropWhile_not (fun c => !isAmountChar c) s
  rw [Option.mem_def] at hc
  simpa [hc] using this

/-- The amount at the front of a component is read off it. -/
theorem takeWhile_text (p : Component) (rest : List Char) :
    (p.text ++ rest).takeWhile isAmountChar = p.amount ∧
      (p.text ++ rest).dropWhile isAmountChar = p.name ++ rest := by
  obtain ⟨hne, hname⟩ := TimeUnit.isAmountChar_of_mem_names p.named
  obtain ⟨c, cs, hcons⟩ := List.exists_cons_of_ne_nil hne
  have hc : ¬isAmountChar c = true := by simp [hname c (hcons ▸ List.mem_cons_self)]
  rw [Component.text, List.append_assoc, List.takeWhile_append_of_pos p.chars,
    List.dropWhile_append_of_pos p.chars, hcons, List.cons_append, List.takeWhile_cons_of_neg hc,
    List.dropWhile_cons_of_neg hc, List.append_nil]
  exact ⟨rfl, rfl⟩

/-- The name of a unit is read up to where it ends. -/
theorem takeWhile_name (p : Component) (hrest : Stops rest) :
    ((p.name ++ rest).takeWhile fun c => !isAmountChar c) = p.name ∧
      ((p.name ++ rest).dropWhile fun c => !isAmountChar c) = rest := by
  have hname : ∀ c ∈ p.name, (!isAmountChar c) = true := fun c hc => by
    simp [(TimeUnit.isAmountChar_of_mem_names p.named).2 c hc]
  rw [List.takeWhile_append_of_pos hname, List.dropWhile_append_of_pos hname]
  cases rest with
  | nil => exact ⟨List.append_nil _, rfl⟩
  | cons c cs =>
    have hc := hrest c rfl
    simp [hc]

/-- A component at the front is read off, whatever follows it. -/
theorem readPart_component (p : Component) (hrest : Stops rest) :
    readPart (p.text ++ rest) =
      match p.duration? with
      | some part => .ok (part, rest)
      | none => .error .outOfRange := by
  have hname : (p.name ++ rest).isEmpty = false := by
    simp [(TimeUnit.isAmountChar_of_mem_names p.named).1]
  have hamount : p.amount.isEmpty = false := by simp [p.amount_ne_nil]
  unfold readPart Component.duration?
  simp only [(takeWhile_text p rest).1, (takeWhile_text p rest).2, (takeWhile_name p hrest).1,
    (takeWhile_name p hrest).2, hname, hamount, p.pointDigits?_amount, TimeUnit.parse?_eq_some_iff.2 p.named]
  rfl

/-- What is read off the front of a text is a component, or it is not a duration. -/
theorem readPart_stuck {s : List Char} (h : Stuck s) : readPart s = .error .malformed := by
  have hsplit := List.takeWhile_append_dropWhile (p := isAmountChar) (l := s)
  have hchars : ∀ c ∈ s.takeWhile isAmountChar, isAmountChar c = true := fun c hc => List.mem_takeWhile_imp hc
  unfold readPart
  generalize s.takeWhile isAmountChar = amount at hsplit hchars ⊢
  generalize s.dropWhile isAmountChar = rest at hsplit ⊢
  simp only [pointDigits?_eq hchars]
  split_ifs with hempty hamount
  · rfl
  · have hunit := List.takeWhile_append_dropWhile (p := fun c => !isAmountChar c) (l := rest)
    cases hname : TimeUnit.parse? (rest.takeWhile fun c => !isAmountChar c) with
    | none => rfl
    | some unit =>
      let p : Component :=
        { amount
          unit
          name := rest.takeWhile fun c => !isAmountChar c
          chars := hchars
          digit := List.any_eq_true.1 hamount.1
          point := hamount.2
          named := TimeUnit.parse?_eq_some_iff.1 hname }
      refine absurd (stops_dropWhile rest) (h p _ ?_)
      rw [Component.text, List.append_assoc, hunit, hsplit]
  · rfl

theorem addParts_succ (fuel : Nat) (total : Duration) {s : List Char} (hs : s ≠ []) :
    addParts (fuel + 1) total s =
      match readPart s with
      | .ok (part, rest) =>
        match total.add? part with
        | some sum => addParts fuel sum rest
        | none => .error .outOfRange
      | .error failure => .error failure := by
  obtain ⟨c, cs, rfl⟩ := List.exists_cons_of_ne_nil hs
  rfl

/-- A component at the front is added to the total. -/
theorem addParts_component (fuel : Nat) (total : Duration) (p : Component) (hrest : Stops rest) :
    addParts (fuel + 1) total (p.text ++ rest) =
      match p.duration?.bind total.add? with
      | some sum => addParts fuel sum rest
      | none => .error .outOfRange := by
  rw [addParts_succ fuel total (List.append_ne_nil_of_left_ne_nil p.text_ne_nil rest),
    readPart_component p hrest]
  cases p.duration? with
  | none => rfl
  | some part => rfl

/-- A row of components is added to the total, and then what follows it. -/
theorem addParts_row (hrest : ps ≠ [] → Stops rest) :
    ∀ (fuel : Nat) (total : Duration), ps.length ≤ fuel →
      addParts fuel total (rowText ps ++ rest) =
        match addRow? total ps with
        | some sum => addParts (fuel - ps.length) sum rest
        | none => .error .outOfRange := by
  induction ps with
  | nil => exact fun fuel total _ => rfl
  | cons p ps ih =>
    rintro (- | fuel) total hfuel
    · exact absurd hfuel (Nat.not_succ_le_zero _)
    have hstops : Stops rest := hrest (List.cons_ne_nil p ps)
    rw [rowText, List.flatMap_cons, List.append_assoc, ← rowText,
      addParts_component fuel total p (stops_rowText hstops ps), addRow?]
    cases p.duration?.bind total.add? with
    | none => rfl
    | some sum =>
      rw [Option.bind_some, List.length_cons, Nat.add_sub_add_right]
      exact ih (fun _ => hstops) fuel sum (Nat.le_of_succ_le_succ hfuel)

/-- What is stuck is not a duration. -/
theorem addParts_stuck {s : List Char} (hs : s ≠ []) (hstuck : Stuck s) (fuel : Nat) (total : Duration) :
    addParts fuel total s = .error .malformed := by
  cases fuel with
  | zero =>
    obtain ⟨c, cs, rfl⟩ := List.exists_cons_of_ne_nil hs
    rfl
  | succ fuel => rw [addParts_succ fuel total hs, readPart_stuck hstuck]

/-- Every text is a row of components and what is stuck behind it, if anything. -/
theorem exists_row (s : List Char) :
    ∃ (ps : List Component) (rest : List Char),
      s = rowText ps ++ rest ∧ (ps ≠ [] → Stops rest) ∧ (rest = [] ∨ Stuck rest) := by
  induction hlen : s.length using Nat.strongRecOn generalizing s with
  | ind n ih =>
    by_cases hstuck : Stuck s
    · exact ⟨[], s, rfl, fun h => absurd rfl h, .inr hstuck⟩
    · obtain ⟨p, rest, hs, hstops⟩ : ∃ p rest, s = Component.text p ++ rest ∧ Stops rest := by
        simpa [Stuck] using hstuck
      have hshort : rest.length < n := by
        have := List.length_pos_iff.2 p.text_ne_nil
        rw [← hlen, hs, List.length_append]
        omega
      obtain ⟨ps, tail, hrest, htail, hend⟩ := ih rest.length hshort rest rfl
      refine ⟨p :: ps, tail, ?_, fun _ => ?_, hend⟩
      · rw [hs, hrest, rowText, rowText, List.flatMap_cons, List.append_assoc]
      · cases ps with
        | nil =>
          obtain rfl : rest = tail := hrest
          exact hstops
        | cons q qs => exact htail (List.cons_ne_nil q qs)

theorem length_le_rowText : ∀ ps : List Component, ps.length ≤ (rowText ps).length
  | [] => Nat.le_refl 0
  | p :: ps => by
    have := List.length_pos_iff.2 p.text_ne_nil
    have := length_le_rowText ps
    rw [rowText, List.flatMap_cons, List.length_append, ← rowText, List.length_cons]
    omega

theorem rowText_ne_nil (hps : ps ≠ []) : rowText ps ≠ [] := fun h => by
  have := length_le_rowText ps
  have := List.length_pos_iff.2 hps
  rw [h, List.length_nil] at *
  omega

/-- A row of components is no number: it begins with an amount and has the name of a unit in it. -/
theorem not_isCount_row (hps : ps ≠ []) (rest : List Char) : ¬Text.IsCount (rowText ps ++ rest) := by
  obtain ⟨p, ps, rfl⟩ := List.exists_cons_of_ne_nil hps
  obtain ⟨a, as, hamount⟩ := List.exists_cons_of_ne_nil p.amount_ne_nil
  obtain ⟨hne, hname⟩ := TimeUnit.isAmountChar_of_mem_names p.named
  obtain ⟨c, cs, hcons⟩ := List.exists_cons_of_ne_nil hne
  have hc : isAmountChar c = false := hname c (hcons ▸ List.mem_cons_self)
  have hrow : rowText (p :: ps) ++ rest = a :: (as ++ c :: (cs ++ rowText ps ++ rest)) := by
    simp [rowText, Component.text, hamount, hcons]
  rw [hrow]
  rintro ⟨ds, -, hdigits, -, rfl | hplus⟩
  · have := hdigits c (by simp)
    simp [isAmountChar, this] at hc
  · obtain ⟨rfl, -⟩ := List.cons.inj hplus
    exact absurd (p.chars _ (hamount ▸ List.mem_cons_self)) (by decide)

end Rows

/-! ## Texts -/

section Texts

variable {text : String}

/-- A number of nanoseconds or a row of components. -/
def HasForm (text : String) : Prop :=
  Text.IsCount (Text.trim text.toList) ∨ ∃ ps : List Component, ps ≠ [] ∧ Text.trim text.toList = rowText ps

/-- The text begins with a row of components that leaves the range of durations. -/
def OutOfRange (text : String) : Prop :=
  ∃ (ps : List Component) (rest : List Char),
    Text.trim text.toList = rowText ps ++ rest ∧ Stops rest ∧ addRow? .zero ps = none

theorem parse_of_isCount (h : Text.IsCount (Text.trim text.toList)) : ∃ d, parse text = .ok d := by
  obtain ⟨n, hn⟩ := Text.nat64Of?_isSome_iff.2 h
  obtain ⟨ds, hne, -, -, hs⟩ := h
  have hempty : (Text.trim text.toList).isEmpty = false := by
    rcases hs with hs | hs <;> simp [hs, hne]
  refine ⟨⟨n⟩, ?_⟩
  unfold parse
  simp only [hempty, hn]
  rfl

theorem parse_of_not_isCount (h : ¬Text.IsCount (Text.trim text.toList)) (hne : Text.trim text.toList ≠ []) :
    parse text = addParts (Text.trim text.toList).length .zero (Text.trim text.toList) := by
  have hnone : Text.nat64Of? (Text.trim text.toList) = none :=
    Option.eq_none_iff_forall_ne_some.2 fun n hn => h (Text.nat64Of?_isSome_iff.1 ⟨n, hn⟩)
  unfold parse
  rw [if_neg (by simpa using hne), hnone]

/-- A row of components is added up, and then what follows it. -/
theorem parse_of_row {ps : List Component} {rest : List Char} (hps : ps ≠ [])
    (hs : Text.trim text.toList = rowText ps ++ rest) (hrest : Stops rest) :
    parse text =
      match addRow? .zero ps with
      | some sum => addParts ((Text.trim text.toList).length - ps.length) sum rest
      | none => .error .outOfRange := by
  have hne : Text.trim text.toList ≠ [] := hs ▸ List.append_ne_nil_of_left_ne_nil (rowText_ne_nil hps) rest
  have hlength : ps.length ≤ (Text.trim text.toList).length := by
    rw [hs, List.length_append]
    have := length_le_rowText ps
    omega
  rw [parse_of_not_isCount (hs ▸ not_isCount_row hps rest) hne]
  have hrow := addParts_row (fun _ => hrest) (Text.trim text.toList).length .zero hlength
  rwa [← hs] at hrow

/-- Every text is out of range, or a duration if it has the form, or not a duration. -/
theorem parse_cases (text : String) :
    parse text = .error .outOfRange ∧ OutOfRange text ∨
      (∃ d, parse text = .ok d) ∧ HasForm text ∨ parse text = .error .malformed := by
  by_cases hcount : Text.IsCount (Text.trim text.toList)
  · exact .inr (.inl ⟨parse_of_isCount hcount, .inl hcount⟩)
  by_cases hne : Text.trim text.toList = []
  · refine .inr (.inr ?_)
    unfold parse
    rw [hne]
    rfl
  obtain ⟨ps, rest, hs, hrest, hend⟩ := exists_row (Text.trim text.toList)
  rcases eq_or_ne ps [] with rfl | hps
  · obtain rfl : Text.trim text.toList = rest := hs
    have hstuck := hend.resolve_left hne
    exact .inr (.inr ((parse_of_not_isCount hcount hne).trans (addParts_stuck hne hstuck _ _)))
  · have hparse := parse_of_row hps hs (hrest hps)
    cases hsum : addRow? .zero ps with
    | none =>
      rw [hsum] at hparse
      exact .inl ⟨hparse, ps, rest, hs, hrest hps, hsum⟩
    | some sum =>
      rw [hsum] at hparse
      by_cases hdone : rest = []
      · subst hdone
        rw [List.append_nil] at hs
        exact .inr (.inl ⟨⟨sum, hparse.trans (by unfold addParts; rfl)⟩, .inr ⟨ps, hps, hs⟩⟩)
      · exact .inr (.inr (hparse.trans (addParts_stuck hdone (hend.resolve_left hdone) _ _)))

/-- What has the form is a duration, in range or out of it. -/
theorem parse_ne_malformed (h : HasForm text) : parse text ≠ .error .malformed := by
  rcases h with hcount | ⟨ps, hps, hs⟩
  · obtain ⟨d, hd⟩ := parse_of_isCount hcount
    rw [hd]
    exact nofun
  · rw [parse_of_row hps (hs.trans (List.append_nil _).symm) (fun c hc => nomatch hc)]
    cases addRow? .zero ps with
    | none => exact nofun
    | some sum =>
      unfold addParts
      exact nofun

theorem parse_eq_outOfRange_iff : parse text = .error .outOfRange ↔ OutOfRange text := by
  constructor
  · intro h
    obtain ⟨-, hout⟩ | ⟨⟨d, hd⟩, -⟩ | hbad := parse_cases text
    · exact hout
    · cases h.symm.trans hd
    · cases h.symm.trans hbad
  · rintro ⟨ps, rest, hs, hrest, hsum⟩
    have hps : ps ≠ [] := by
      rintro rfl
      cases hsum
    rw [parse_of_row hps hs hrest, hsum]

end Texts

end Duration

namespace Expression

variable {text : String}

theorem parseDuration?_eq_none_iff : parseDuration? text = none ↔ Duration.OutOfRange text := by
  rw [← Duration.parse_eq_outOfRange_iff]
  unfold parseDuration?
  split <;> simp [*]

theorem parseDuration?_eq_ok_iff {d : Duration} :
    parseDuration? text = some (.ok d) ↔ Duration.parse text = .ok d := by
  unfold parseDuration?
  split <;> simp [*]

/-- Unless it is out of range, a text is a duration just if it has the form of one.  Any other text is
answered with what it says between the blanks around it. -/
theorem durations_by_form (text : String) (h : parseDuration? text ≠ none) :
    ((∃ d, parseDuration? text = some (.ok d)) ↔ Duration.HasForm text) ∧
      (¬Duration.HasForm text →
        parseDuration? text = some (.error (.coercion (Text.trimmed text) .duration))) := by
  simp only [parseDuration?_eq_ok_iff]
  obtain ⟨hout, -⟩ | ⟨hok, hform⟩ | hbad := Duration.parse_cases text
  · exact absurd (by unfold parseDuration?; rw [hout]) h
  · exact ⟨⟨fun _ => hform, fun _ => hok⟩, fun hno => absurd hform hno⟩
  · refine ⟨⟨fun ⟨d, hd⟩ => ?_, fun hform => absurd hbad (Duration.parse_ne_malformed hform)⟩, fun _ => ?_⟩
    · cases hd.symm.trans hbad
    · unfold parseDuration?
      rw [hbad]

theorem durations_by_form_spaced : parseDuration? " 1h 30m" ≠ none ∧ ¬Duration.HasForm " 1h 30m" ∧
    parseDuration? " 1h 30m" = some (.error (.coercion "1h 30m" .duration)) := by
  have hparse : Duration.parse " 1h 30m" = .error .malformed := by decide +kernel
  have hrange : parseDuration? " 1h 30m" ≠ none := by
    unfold parseDuration?
    rw [hparse]
    exact nofun
  have hform : ¬Duration.HasForm " 1h 30m" := fun h => Duration.parse_ne_malformed h hparse
  exact ⟨hrange, hform, (durations_by_form " 1h 30m" hrange).2 hform⟩

end Expression

end Workload

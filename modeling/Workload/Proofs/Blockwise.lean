import Mathlib.Data.List.Forall2
import Mathlib.Data.List.Infix
import Workload.Proofs.ArgumentLists
import Workload.Proofs.Durations

/-!
# Texts with range blocks

A text is a row of literals and of blocks.  Literals stay as they are, every block becomes its body once for
each value of its header, and the first block whose header has no values decides the fault
(`expand_blockwise`).  The values of a header with two numbers are the numbers from the one to before the
other, as many as a list can hold; a header that spans more of them than that breaks off the work
(`range_too_long`).
-/

namespace Workload

namespace Range

/-- A text that has no two opening braces in a row, nor makes up such with what stands behind it. -/
structure IsPlain (s : List Char) : Prop where
  braces : ¬bracePair <:+: s
  ending : s.getLast? ≠ some '{'

instance (s : List Char) : Decidable (IsPlain s) :=
  decidable_of_iff (¬bracePair <:+: s ∧ s.getLast? ≠ some '{') ⟨fun h => ⟨h.1, h.2⟩, fun h => ⟨h.1, h.2⟩⟩

/-- A part of the body of a block: a text, or a marker for the value. -/
inductive Part where
  | text (s : List Char) (plain : IsPlain s)
  | marked

namespace Part

def written : Part → List Char
  | text s _ => s
  | marked => marker

/-- A part with a value in the place of the marker. -/
def filled (v : List Char) : Part → List Char
  | text s _ => s
  | marked => v

end Part

/-- A block: blanks, the header, and the parts of the body. -/
structure Block where
  gap : List Char
  blank : ∀ c ∈ gap, Text.isBlank c = true
  apart : gap ≠ []
  header : List Char
  unclosed : '}' ∉ header
  body : List Part

def Block.written (b : Block) : List Char :=
  spacedOpening b.gap b.header ++ (b.body.flatMap Part.written ++ closing)

/-- What a block with these values becomes. -/
def Block.unrolled (b : Block) (vs : List String) : List Char :=
  vs.flatMap fun v => b.body.flatMap (Part.filled v.toList)

/-- A part of a text: one without blocks, or a block. -/
inductive Piece where
  | literal (text : List Char) (plain : IsPlain text)
  | block (b : Block)

namespace Piece

def written : Piece → List Char
  | literal t _ => t
  | block b => b.written

/-- What a piece becomes by itself. -/
def expanded : Piece → Except ExpressionFault (List Char)
  | literal t _ => .ok t
  | block b => (values (String.ofList b.header)).map b.unrolled

theorem expanded_block (b : Block) :
    (block b).expanded = (values (String.ofList b.header)).map b.unrolled := rfl

/-- The text that pieces make up. -/
def joined (ps : List Piece) : String := String.ofList (ps.flatMap written)

end Piece

/-! ### Plain texts -/

section Plain

variable {c : Char} {s : List Char}

theorem IsPlain.tail (h : IsPlain (c :: s)) : IsPlain s := by
  refine ⟨fun hs => h.braces (hs.trans (List.suffix_cons c s).isInfix), fun hs => h.ending ?_⟩
  cases s with
  | nil => cases hs
  | cons d ds => rwa [List.getLast?_cons_cons]

/-- Two opening braces in a row do not begin in a plain text. -/
theorem IsPlain.not_bracePair (h : IsPlain (c :: s)) (rest : List Char) :
    bracePair.isPrefixOf (c :: (s ++ rest)) = false := by
  rw [Bool.eq_false_iff, Ne, List.isPrefixOf_iff_prefix]
  rintro ⟨t, ht⟩
  obtain ⟨rfl, hs⟩ := List.cons.inj ht
  cases s with
  | nil => exact h.ending rfl
  | cons d ds =>
    obtain rfl : '{' = d := (List.cons.inj hs).1
    exact h.braces ⟨[], ds, rfl⟩

theorem not_marker_of_not_bracePair (h : bracePair.isPrefixOf s = false) : marker.isPrefixOf s = false := by
  rw [Bool.eq_false_iff, Ne, List.isPrefixOf_iff_prefix] at h ⊢
  exact fun hm => h ((show bracePair <+: marker from ⟨['.', '}', '}'], rfl⟩).trans hm)

/-- No block starts but at two opening braces in a row. -/
theorem block?_of_not_bracePair (h : bracePair.isPrefixOf s = false) : block? s = none := by
  have hdrop : Text.dropStart? ['{', '{'] s = none := by
    cases hd : Text.dropStart? ['{', '{'] s with
    | none => rfl
    | some rest =>
      rw [Bool.eq_false_iff, Ne, List.isPrefixOf_iff_prefix] at h
      exact absurd ⟨rest, (Text.dropStart?_eq_some hd).symm⟩ h
  unfold block? opening?
  rw [hdrop]
  rfl

theorem unbraced_append_plain (hs : IsPlain s) (marked : Bool) (rest : List Char) :
    unbraced marked (s ++ rest) = unbraced marked rest := by
  induction s with
  | nil => rfl
  | cons c cs ih =>
    rw [List.cons_append, unbraced_cons, hs.not_bracePair rest, ih hs.tail]
    rfl

theorem replaceFrom_append_plain (hs : IsPlain s) (v rest : List Char) :
    Text.replaceFrom marker v 0 (s ++ rest) = s ++ Text.replaceFrom marker v 0 rest := by
  induction s with
  | nil => rfl
  | cons c cs ih =>
    rw [List.cons_append, Text.replaceFrom_cons, not_marker_of_not_bracePair (hs.not_bracePair rest),
      if_neg Bool.false_ne_true, ih hs.tail, List.cons_append]

theorem expandFrom_append_plain (hs : IsPlain s) (rest : List Char) :
    expandFrom 0 (s ++ rest) = (expandFrom 0 rest).map (s ++ ·) := by
  induction s with
  | nil => cases h : expandFrom 0 rest <;> simp [h, Except.map]
  | cons c cs ih =>
    rw [List.cons_append]
    conv_lhs => unfold expandFrom
    rw [block?_of_not_bracePair (hs.not_bracePair rest)]
    simp only []
    rw [ih hs.tail]
    cases expandFrom 0 rest <;> rfl

end Plain

/-! ### Bodies -/

section Bodies

theorem unbraced_marker (rest : List Char) : unbraced true (marker ++ rest) = unbraced true rest := by
  have hbraces : ∀ s, bracePair.isPrefixOf ('{' :: '.' :: s) = false := fun s => rfl
  show unbraced true ('{' :: '{' :: '.' :: '}' :: '}' :: rest) = _
  iterate 5 rw [unbraced_cons]
  simp [bracePair, marker, List.isPrefixOf]

/-- In a body two opening braces in a row belong to a marker. -/
theorem unbraced_body (parts : List Part) : unbraced true (parts.flatMap Part.written) = true := by
  induction parts with
  | nil => rfl
  | cons p parts ih =>
    rw [List.flatMap_cons]
    cases p with
    | text s plain => exact (unbraced_append_plain plain true _).trans ih
    | marked => exact (unbraced_marker _).trans ih

/-- The markers of a body are those among its parts. -/
theorem replaceFrom_body (v : List Char) (parts : List Part) :
    Text.replaceFrom marker v 0 (parts.flatMap Part.written) = parts.flatMap (Part.filled v) := by
  induction parts with
  | nil => rfl
  | cons p parts ih =>
    rw [List.flatMap_cons, List.flatMap_cons, ← ih]
    cases p with
    | text s plain => exact replaceFrom_append_plain plain v _
    | marked => exact Text.replaceFrom_append (by decide) v _

theorem repeated_body (b : Block) (vs : List String) :
    repeated (b.body.flatMap Part.written) vs = b.unrolled vs := by
  unfold repeated Block.unrolled
  exact List.flatMap_congr fun v _ => replaceFrom_body v.toList b.body

end Bodies

/-! ### Pieces -/

section Pieces

/-- A piece is expanded by itself, and what stands behind it next, if it can be. -/
theorem expandFrom_piece (p : Piece) (rest : List Char) :
    expandFrom 0 (p.written ++ rest) = p.expanded.bind fun t => (expandFrom 0 rest).map (t ++ ·) := by
  cases p with
  | literal t plain => exact expandFrom_append_plain plain rest
  | block b =>
    have hblock := expandFrom_spacedBlock b.blank b.apart b.unclosed (unbraced_body b.body) rest
    have hwritten : (Piece.block b).written ++ rest =
        spacedOpening b.gap b.header ++ (b.body.flatMap Part.written ++ (closing ++ rest)) := by
      simp [Piece.written, Block.written]
    rw [hwritten, hblock, Piece.expanded_block]
    cases values (String.ofList b.header) with
    | error e => rfl
    | ok vs =>
      show (expandFrom 0 rest).map (repeated (b.body.flatMap Part.written) vs ++ ·) =
        (expandFrom 0 rest).map (b.unrolled vs ++ ·)
      rw [repeated_body]

theorem expandFrom_pieces {ps : List Piece} {texts : List (List Char)}
    (h : List.Forall₂ (fun p t => Piece.expanded p = .ok t) ps texts) (rest : List Char) :
    expandFrom 0 (ps.flatMap Piece.written ++ rest) = (expandFrom 0 rest).map (texts.flatten ++ ·) := by
  induction h with
  | nil => cases h : expandFrom 0 rest <;> simp [h, Except.map]
  | @cons p t ps texts hp _ ih =>
    rw [List.flatMap_cons, List.append_assoc, expandFrom_piece, hp, ih]
    cases expandFrom 0 rest <;> simp [Except.bind, Except.map]

theorem exists_expanded {ps : List Piece} (h : ∀ p ∈ ps, ∃ t, p.expanded = .ok t) :
    ∃ texts, List.Forall₂ (fun p t => Piece.expanded p = .ok t) ps texts := by
  induction ps with
  | nil => exact ⟨[], .nil⟩
  | cons p ps ih =>
    rw [List.forall_mem_cons] at h
    obtain ⟨t, ht⟩ := h.1
    obtain ⟨texts, htexts⟩ := ih h.2
    exact ⟨t :: texts, .cons ht htexts⟩

/-- The first piece that cannot be expanded decides the fault. -/
theorem expandFrom_failing {before : List Piece} (h : ∀ p ∈ before, ∃ t, p.expanded = .ok t) {p : Piece}
    {e : ExpressionFault} (hp : p.expanded = .error e) (rest : List Char) :
    expandFrom 0 (before.flatMap Piece.written ++ (p.written ++ rest)) = .error e := by
  obtain ⟨texts, htexts⟩ := exists_expanded h
  rw [expandFrom_pieces htexts, expandFrom_piece, hp]
  rfl

end Pieces

/-! ### Values -/

/-- The only faults of a header are that it cannot be read and that it spans too many numbers. -/
theorem fault_of_values {header : String} {e : ExpressionFault} (h : values header = .error e) :
    e = .badRange (Text.trimmed header) ∨ e = .rangeTooLong := by
  have hnumbers : ∀ {a b : Int}, numbers a b = .error e → e = .rangeTooLong := by
    intro a b h
    unfold numbers at h
    split_ifs at h
    cases h
    rfl
  unfold values at h
  simp only [] at h
  split at h
  · split at h
    · exact .inr (hnumbers h)
    · cases h
      exact .inl rfl
  · split at h
    · cases h
    · split at h
      · exact .inr (hnumbers h)
      · split at h
        · cases h
          exact .inl rfl
        · cases h

/-- How a whole number is written: in digits, with a sign or without one. -/
inductive Decimal : List Char → Int → Prop
  | digits {ds : List Char} : ds ≠ [] → (∀ d ∈ ds, d.isDigit = true) → Decimal ds (Nat.ofDigitChars 10 ds 0)
  | plus {ds : List Char} :
    ds ≠ [] → (∀ d ∈ ds, d.isDigit = true) → Decimal ('+' :: ds) (Nat.ofDigitChars 10 ds 0)
  | minus {ds : List Char} :
    ds ≠ [] → (∀ d ∈ ds, d.isDigit = true) → Decimal ('-' :: ds) (-(Nat.ofDigitChars 10 ds 0 : Int))

/-- What is read as a number with a sign is what writes one within the limits. -/
theorem signedOf?_eq_some_iff {limit : Nat} (hlimit : 0 < limit) {s : List Char} {n : Int} :
    Text.signedOf? 10 limit s = some n ↔ Decimal s n ∧ -(limit : Int) ≤ n ∧ n < limit := by
  have hdigit : ∀ {c : Char} {ds : List Char}, c.isDigit = false → ¬∀ d ∈ c :: ds, d.isDigit = true := by
    intro c ds hc hds
    rw [hds c List.mem_cons_self] at hc
    cases hc
  have hread : ∀ {ds : List Char} {q : Nat → Bool} {m : Nat}, (Text.natOf? 10 ds).filter q = some m ↔
      (ds ≠ [] ∧ (∀ d ∈ ds, d.isDigit = true) ∧ Nat.ofDigitChars 10 ds 0 = m) ∧ q m = true := by
    intro ds q m
    rw [Option.filter_eq_some_iff, Text.natOf?_eq_some_iff]
  unfold Text.signedOf? Text.unsignedOf?
  simp only []
  split <;>
    simp only [Option.map_eq_some_iff, Option.bind_eq_bind, Option.bind_eq_some_iff, Option.pure_def,
      Option.some.injEq, hread, decide_eq_true_eq]
  · constructor
    · rintro ⟨_, ⟨m, ⟨⟨hne, hds, rfl⟩, hle⟩, rfl⟩, rfl⟩
      exact ⟨.minus hne hds, by omega, by omega⟩
    · rintro ⟨h, hlow, -⟩
      cases h with
      | digits hne hds => exact absurd hds (hdigit (by decide))
      | minus hne hds => exact ⟨_, ⟨_, ⟨⟨hne, hds, rfl⟩, by omega⟩, rfl⟩, rfl⟩
  · rename_i hminus
    split
    · constructor
      · rintro ⟨_, ⟨m, ⟨⟨hne, hds, rfl⟩, hlt⟩, rfl⟩, rfl⟩
        exact ⟨.plus hne hds, by omega, by omega⟩
      · rintro ⟨h, -, hhigh⟩
        cases h with
        | digits hne hds => exact absurd hds (hdigit (by decide))
        | plus hne hds => exact ⟨_, ⟨_, ⟨⟨hne, hds, rfl⟩, by omega⟩, rfl⟩, rfl⟩
    · rename_i hplus
      constructor
      · rintro ⟨_, ⟨m, ⟨⟨hne, hds, rfl⟩, hlt⟩, rfl⟩, rfl⟩
        exact ⟨.digits hne hds, by omega, by omega⟩
      · rintro ⟨h, -, hhigh⟩
        cases h with
        | digits hne hds => exact ⟨_, ⟨_, ⟨⟨hne, hds, rfl⟩, by omega⟩, rfl⟩, rfl⟩
        | plus => exact (hplus _ rfl).elim
        | minus => exact (hminus _ rfl).elim

/-- A number of 64 bits is read as it is written. -/
theorem int64Of?_of_decimal {s : List Char} {n : Int} (h : Decimal s n) (hn : isWhole n = true) :
    Text.int64Of? s = some n := by
  unfold isWhole at hn
  rw [Bool.and_eq_true, decide_eq_true_eq, decide_eq_true_eq] at hn
  exact (signedOf?_eq_some_iff (by decide)).2 ⟨h, hn⟩

/-- A header with two numbers stands for those from the one to before the other. -/
theorem values_numbers {a b : String} {m n : Int} (ha : Text.int64Of? (Text.trim a.toList) = some m)
    (hb : Text.int64Of? (Text.trim b.toList) = some n) : values (a ++ ".." ++ b) = numbers m n := by
  have hdot : '.' ∉ Text.trimStart a.toList := by
    have htrim : '.' ∉ a.toList := fun h =>
      Text.not_mem_of_int64Of? (by decide) (by decide) (by decide) ha (Text.mem_trim (by decide) h)
    exact fun h => htrim ((List.dropWhile_sublist _).mem h)
  have htext : Text.trim (a ++ ".." ++ b).toList =
      Text.trimStart a.toList ++ (['.', '.'] ++ Text.trimEnd b.toList) := by
    have happend : (a ++ ".." ++ b).toList = a.toList ++ '.' :: '.' :: b.toList := by simp
    have hend := Text.trimEnd_append_sep (c := '.') (by decide) (Text.trimStart a.toList ++ ['.']) b.toList
    unfold Text.trim
    rw [happend, Text.trimStart_append_sep (by decide)]
    simpa using hend
  have hfront : Text.trim (Text.trimStart a.toList) = Text.trim a.toList := by
    unfold Text.trim Text.trimStart
    rw [List.dropWhile_idempotent]
  have hback : Text.trim (Text.trimEnd b.toList) = Text.trim b.toList := by
    have hparts : Text.trimEnd b.toList ++ (b.toList.reverse.takeWhile Text.isBlank).reverse = b.toList := by
      unfold Text.trimEnd
      rw [← List.reverse_append, List.takeWhile_append_dropWhile, List.reverse_reverse]
    have hpadded := @Text.trim_padded [] (b.toList.reverse.takeWhile Text.isBlank).reverse (by simp)
      (fun c hc => List.mem_takeWhile_imp (List.mem_reverse.1 hc)) (Text.trimEnd b.toList)
    rw [List.nil_append, hparts] at hpadded
    exact hpadded.symm
  unfold values
  simp only []
  rw [htext, Text.cutAt_first hdot]
  simp only []
  rw [hfront, hback, ha, hb]

theorem pairwise_span (m n : Int) : (span m n).Pairwise (· < ·) := by
  unfold span
  rw [List.pairwise_map]
  exact List.pairwise_lt_range.imp fun h => by omega

theorem mem_span {m n i : Int} : i ∈ span m n ↔ m ≤ i ∧ i < n := by
  unfold span
  rw [List.mem_map]
  constructor
  · rintro ⟨k, hk, rfl⟩
    rw [List.mem_range] at hk
    omega
  · rintro ⟨hle, hlt⟩
    exact ⟨(i - m).toNat, List.mem_range.2 (by omega), by omega⟩

theorem numbers_of_lt {m n : Int} (h : maxListed < n - m) : numbers m n = .error .rangeTooLong := by
  unfold numbers
  rw [if_pos h]

/-- The values of a header that does not span more numbers than a list can hold are all those from the one to
before the other, in order. -/
theorem numbers_spec {m n : Int} (h : n - m ≤ maxListed) :
    ∃ is : List Int, is.Pairwise (· < ·) ∧ (∀ i, i ∈ is ↔ m ≤ i ∧ i < n) ∧
      numbers m n = .ok (is.map toString) := by
  refine ⟨span m n, pairwise_span m n, fun i => mem_span, ?_⟩
  unfold numbers
  rw [if_neg (Int.not_lt.2 h)]

/-- A text of pieces becomes what they become one by one, or has the fault of its first block whose header
has no values.  A header with two numbers of 64 bits stands for the numbers from the first to before the
second just if it does not span more of them than a list can hold. -/
theorem expand_blockwise (ps : List Piece) :
    (∀ texts : List (List Char), List.Forall₂ (fun p t => Piece.expanded p = .ok t) ps texts →
      expand (Piece.joined ps) = .ok (String.ofList texts.flatten)) ∧
    (∀ (before after : List Piece) (b : Block) (e : ExpressionFault), ps = before ++ .block b :: after →
      (∀ p ∈ before, ∃ t, p.expanded = .ok t) → values (String.ofList b.header) = .error e →
        expand (Piece.joined ps) = .error e ∧
          (e = .badRange (Text.trimmed (String.ofList b.header)) ∨ e = .rangeTooLong)) ∧
    ∀ (a b : String) (m n : Int), Decimal (Text.trim a.toList) m → Decimal (Text.trim b.toList) n →
      isWhole m = true → isWhole n = true →
        ((∃ is : List Int, is.Pairwise (· < ·) ∧ (∀ i, i ∈ is ↔ m ≤ i ∧ i < n) ∧
          values (a ++ ".." ++ b) = .ok (is.map toString)) ↔ n - m ≤ maxListed) ∧
        (maxListed < n - m → values (a ++ ".." ++ b) = .error .rangeTooLong) := by
  refine ⟨fun texts h => ?_, ?_, fun a b m n ha hb hm hn => ?_⟩
  · have hexpand := expandFrom_pieces h []
    rw [List.append_nil] at hexpand
    unfold expand Piece.joined
    rw [String.toList_ofList, hexpand]
    simp [expandFrom, Except.map]
  · rintro before after b e rfl h he
    have hfault : (Piece.block b).expanded = .error e := by
      rw [Piece.expanded_block, he]
      rfl
    have hexpand := expandFrom_failing h hfault (after.flatMap Piece.written)
    refine ⟨?_, fault_of_values he⟩
    unfold expand Piece.joined
    rw [String.toList_ofList, List.flatMap_append, List.flatMap_cons, hexpand]
    rfl
  · rw [values_numbers (int64Of?_of_decimal ha hm) (int64Of?_of_decimal hb hn)]
    refine ⟨⟨?_, numbers_spec⟩, numbers_of_lt⟩
    rintro ⟨is, -, -, hlisted⟩
    by_contra hlong
    rw [numbers_of_lt (Int.not_le.1 hlong)] at hlisted
    cases hlisted

/-- Braces by themselves at the borders, and two markers in a row. -/
def strayBlock : Block where
  gap := ['\n', '\t']
  blank := List.all_eq_true.1 (by decide)
  apart := by decide
  header := " 1..+3 ".toList
  unclosed := by decide
  body := [.text ['{', '<'] (by decide), .marked, .marked, .text ['}', '}'] (by decide)]

/-- A block with a header and nothing else. -/
def bareBlock (header : String) (h : '}' ∉ header.toList) : Block where
  gap := [' ']
  blank := isBlank_space
  apart := by decide
  header := header.toList
  unclosed := h
  body := []

def strayPieces : List Piece := [.literal ['}', '{', 'b'] (by decide), .block strayBlock]

/-- Stray braces stay, a header that cannot be read decides the fault before one behind it, and numbers are
read with their signs. -/
theorem expand_blockwise_strayPieces :
    List.Forall₂ (fun p t => Piece.expanded p = .ok t) strayPieces
        [['}', '{', 'b'], "\x7b<11\x7d\x7d\x7b<22\x7d\x7d".toList] ∧
      Piece.joined strayPieces = "\x7d\x7bb\x7b\x7brange\n\t 1..+3 \x7d\x7d\x7b<" ++
        "\x7b\x7b.\x7d\x7d\x7b\x7b.\x7d\x7d\x7d\x7d\x7b\x7bend\x7d\x7d" ∧
      expand (Piece.joined strayPieces) = .ok "\x7d\x7bb\x7b<11\x7d\x7d\x7b<22\x7d\x7d" ∧
      expand (Piece.joined (strayPieces ++ .block (bareBlock "1..x" (by decide)) ::
        [.block (bareBlock "" (by decide))])) = .error (.badRange "1..x") ∧
      (∃ is : List Int, is.Pairwise (· < ·) ∧ (∀ i, i ∈ is ↔ -2 ≤ i ∧ i < 1) ∧
        values " -2..+01" = .ok (is.map toString)) ∧
      values "0..9223372036854775807" = .error .rangeTooLong := by
  have hpieces : List.Forall₂ (fun p t => Piece.expanded p = .ok t) strayPieces
      [['}', '{', 'b'], "\x7b<11\x7d\x7d\x7b<22\x7d\x7d".toList] := .cons rfl (.cons (by decide) .nil)
  have hbefore : ∀ p ∈ strayPieces, ∃ t, p.expanded = .ok t := by
    intro p hp
    rcases List.mem_pair.1 hp with rfl | rfl
    · exact ⟨_, rfl⟩
    · exact ⟨_, rfl⟩
  have hlow : Decimal (Text.trim " -2".toList) (-2) := .minus (by decide) (List.all_eq_true.1 (by decide))
  have hhigh : Decimal (Text.trim "+01".toList) 1 := .plus (by decide) (List.all_eq_true.1 (by decide))
  have hzero : Decimal (Text.trim "0".toList) 0 := .digits (by decide) (List.all_eq_true.1 (by decide))
  have hlast : Decimal (Text.trim "9223372036854775807".toList) 9223372036854775807 :=
    .digits (by decide) (List.all_eq_true.1 (by decide))
  obtain ⟨hexpand, -, hvalues⟩ := expand_blockwise strayPieces
  obtain ⟨-, hfault, -⟩ := expand_blockwise (strayPieces ++ .block (bareBlock "1..x" (by decide)) ::
    [.block (bareBlock "" (by decide))])
  exact ⟨hpieces, by decide, hexpand _ hpieces, (hfault _ _ _ _ rfl hbefore (by decide)).1,
    (hvalues " -2" "+01" _ _ hlow hhigh (by decide) (by decide)).1.2 (by decide),
    (hvalues "0" "9223372036854775807" _ _ hzero hlast (by decide) (by decide)).2 (by decide)⟩

/-- A block of very many empty bodies is not the empty text: the numbers of its header are listed first, and
that breaks off the work. -/
theorem range_too_long :
    Piece.joined [.block (bareBlock "0..9223372036854775807" (by decide))] =
        "\x7b\x7brange 0..9223372036854775807\x7d\x7d\x7b\x7bend\x7d\x7d" ∧
      (∀ vs, (bareBlock "0..9223372036854775807" (by decide)).unrolled vs = []) ∧
      expand "\x7b\x7brange 0..9223372036854775807\x7d\x7d\x7b\x7bend\x7d\x7d" = .error .rangeTooLong := by
  refine ⟨by decide, fun vs => ?_, by decide⟩
  exact List.flatMap_eq_nil_iff.2 fun v _ => rfl

end Range

end Workload

import Workload.Proofs.Blocks
import Workload.Yaml.Token.Scalar
import Workload.Yaml.Writer

/-!
# Written texts

How a text can be written behind its key (`Writes`).  The writer chooses one of these ways
(`writes_text`), and a value that suits the style (`suits`) can be put in for the markers of what is
written: that writes the text with the value in it, in the same style (`Writes.paste`).
-/

namespace Workload

namespace Range

/-- A text with a value in the place of its markers. -/
def fill (v s : List Char) : List Char := Text.replaceFrom marker v 0 s

section Filled

variable {v s : List Char}

theorem fill_marker (v s : List Char) : fill v (marker ++ s) = v ++ fill v s :=
  Text.replaceFrom_append (List.cons_ne_nil _ _) v s

theorem fill_cons {c : Char} (h : ¬marker.isPrefixOf (c :: s) = true) : fill v (c :: s) = c :: fill v s := by
  unfold fill
  rw [Text.replaceFrom_cons, if_neg h]

theorem fill_append_sep {c : Char} (hc : c ∉ marker) (x y : List Char) :
    fill v (x ++ c :: y) = fill v x ++ c :: fill v y :=
  Text.replaceFrom_append_sep (List.cons_ne_nil _ _) hc x y

theorem fill_cons_sep {c : Char} (hc : c ∉ marker) (x : List Char) : fill v (c :: x) = c :: fill v x :=
  fill_append_sep hc [] x

theorem fill_append_of_disjoint {x : List Char} (hx : ∀ d ∈ x, d ∉ marker) (y : List Char) :
    fill v (x ++ y) = x ++ fill v y :=
  Text.replaceFrom_append_of_disjoint (List.cons_ne_nil _ _) hx y

theorem fill_induction {P : List Char → Prop} (nil : P []) (mark : ∀ s, P s → P (marker ++ s))
    (char : ∀ c s, ¬marker.isPrefixOf (c :: s) = true → P s → P (c :: s)) (s : List Char) : P s :=
  Text.marked_induction nil mark char (List.cons_ne_nil _ _) s

theorem mem_fill {d : Char} : d ∈ fill v s → d ∈ s ∨ d ∈ v := by
  refine fill_induction (P := fun s => d ∈ fill v s → d ∈ s ∨ d ∈ v) .inl (fun s ih h => ?_)
    (fun c s hc ih h => ?_) s
  · rw [fill_marker, List.mem_append] at h
    rcases h with h | h
    · exact .inr h
    · exact (ih h).imp_left (List.mem_append_right _)
  · rw [fill_cons hc, List.mem_cons] at h
    rcases h with rfl | h
    · exact .inl List.mem_cons_self
    · exact (ih h).imp_left (List.mem_cons_of_mem _)

theorem fill_eq_nil (hv : v ≠ []) : fill v s = [] ↔ s = [] := by
  refine fill_induction (P := fun s => fill v s = [] ↔ s = []) Iff.rfl (fun s _ => ?_) (fun c s hc _ => ?_) s
  · rw [fill_marker]
    simp [hv, marker]
  · rw [fill_cons hc]
    simp

/-- A text ends with a character of some kind if it does so with a value in it, where neither markers nor
the value end with one. -/
theorem getLast?_fill {p : Char → Bool} (hv : v ≠ []) (hp : p '}' = false)
    (hpv : v.getLast?.any p = false) : (fill v s).getLast?.any p = s.getLast?.any p := by
  refine fill_induction (P := fun s => (fill v s).getLast?.any p = s.getLast?.any p) rfl (fun s ih => ?_)
    (fun c s hc ih => ?_) s
  · rw [fill_marker]
    by_cases hs : s = []
    · subst hs
      simpa [fill, Text.replaceFrom, marker, hp] using hpv
    · rw [List.getLast?_append_of_ne_nil _ (mt (fill_eq_nil hv).1 hs), List.getLast?_append_of_ne_nil _ hs, ih]
  · rw [fill_cons hc]
    by_cases hs : s = []
    · subst hs
      rfl
    · obtain ⟨d, ds, rfl⟩ := List.exists_cons_of_ne_nil hs
      obtain ⟨e, es, he⟩ := List.exists_cons_of_ne_nil (mt (fill_eq_nil hv).1 hs)
      rw [he] at ih ⊢
      rw [List.getLast?_cons_cons, List.getLast?_cons_cons, ih]

end Filled

end Range

namespace Yaml

open Text (Spelling Spares)
open Range (fill marker unbraced)

/-- Whether a text is read as itself where it is written without quotes. -/
def isLegible : List Char → Bool
  | [] => false
  | c :: cs =>
    !(isGap (some c) || Writer.isLeadingMark c || ((c = '?' || c = ':' || c = '-') && isGap cs.head?) ||
      Writer.holdsMark c cs || cs.any isBreak || (c :: cs).getLast?.any isSpace)

theorem isLegible_cons (c : Char) (cs : List Char) :
    isLegible (c :: cs) =
      !(isGap (some c) || Writer.isLeadingMark c ||
        ((c = '?' || c = ':' || c = '-') && isGap cs.head?) || Writer.holdsMark c cs || cs.any isBreak ||
        (c :: cs).getLast?.any isSpace) :=
  rfl

theorem isGap_some (c : Char) : isGap (some c) = (isSpace c || isBreak c) := rfl

theorem isWordChar_eq (c : Char) :
    isWordChar c = (c.isUpper || c.isLower || c.isDigit || decide (c = '-') || decide (c = '_')) :=
  rfl

theorem ne_of_isWordChar {c d : Char} (hc : isWordChar c = true) (hd : isWordChar d = false) : c ≠ d := by
  rintro rfl
  rw [hc] at hd
  cases hd

theorem isGap_of_isWordChar {c : Char} (hc : isWordChar c = true) : isGap (some c) = false := by
  have hne : ∀ {d : Char}, isWordChar d = false → c ≠ d := ne_of_isWordChar hc
  rw [isGap_some]
  simp [isSpace, isBreak, hne (d := ' ') rfl, hne (d := '\t') rfl, hne (d := '\n') rfl, hne (d := '\r') rfl,
    hne (d := '\x85') rfl, hne (d := '\u2028') rfl, hne (d := '\u2029') rfl]

theorem isLeadingMark_of_isWordChar {c : Char} (hc : isWordChar c = true) : Writer.isLeadingMark c = false := by
  have hmarks : ("#,[]{}&*!|>'\"%@\x60".toList.all fun d => !isWordChar d) = true := rfl
  unfold Writer.isLeadingMark
  rw [List.contains_eq_mem, decide_eq_false_iff_not]
  intro hmem
  have := List.all_eq_true.1 hmarks c hmem
  rw [hc] at this
  cases this

/-- A word is read as itself. -/
theorem isLegible_of_isWordChar {c : Char} {cs : List Char} (h : ∀ d ∈ c :: cs, isWordChar d = true)
    (hc : c ≠ '-' ∨ cs ≠ []) : isLegible (c :: cs) = true := by
  have hgap : ∀ d ∈ c :: cs, isGap (some d) = false := fun d hd => isGap_of_isWordChar (h d hd)
  have hbreak : ∀ d ∈ c :: cs, isSpace d = false ∧ isBreak d = false := fun d hd => by
    have := hgap d hd
    rwa [isGap_some, Bool.or_eq_false_iff] at this
  have hholds : ∀ (ds : List Char) (before : Char), (∀ d ∈ ds, isWordChar d = true) →
      Writer.holdsMark before ds = false := by
    intro ds
    induction ds with
    | nil => exact fun _ _ => rfl
    | cons d ds ih =>
      intro before hds
      have hd := hds d List.mem_cons_self
      unfold Writer.holdsMark
      rw [ih d fun e he => hds e (List.mem_cons_of_mem _ he)]
      simp [ne_of_isWordChar hd (d := ':') rfl, ne_of_isWordChar hd (d := '#') rfl]
  have hfirst : ((c = '?' || c = ':' || c = '-') && isGap cs.head?) = false := by
    rw [Bool.and_eq_false_iff]
    rcases hc with hc | hc
    · have hword := h c List.mem_cons_self
      exact .inl (by simp [hc, ne_of_isWordChar hword (d := '?') rfl, ne_of_isWordChar hword (d := ':') rfl])
    · obtain ⟨d, ds, rfl⟩ := List.exists_cons_of_ne_nil hc
      exact .inr (hgap d (by simp))
  have hbreaks : cs.any isBreak = false := List.any_eq_false.2 fun d hd => by
    simp [(hbreak d (List.mem_cons_of_mem _ hd)).2]
  have hlast : (c :: cs).getLast?.any isSpace = false := by
    rw [List.getLast?_eq_some_getLast (List.cons_ne_nil c cs), Option.any_some]
    exact (hbreak _ (List.getLast_mem _)).1
  rw [isLegible_cons, hgap c List.mem_cons_self, isLeadingMark_of_isWordChar (h c List.mem_cons_self), hfirst,
    hholds cs c fun d hd => h d (List.mem_cons_of_mem _ hd), hbreaks, hlast]
  rfl

/-- Whether single quotes keep the line breaks of a text: they are separators, and no blanks stand next to
them. -/
def isQuotable (s : List Char) : Bool :=
  (s.all fun c => !isBreak c || c = '\u2028' || c = '\u2029') &&
    !(Writer.meets isBreak isSpace s || Writer.meets isSpace isBreak s)

/-- Whether a literal block keeps a text: its line breaks are read as themselves, and it does not start with
a tab. -/
def isBlock (s : List Char) : Bool :=
  (s.all fun c => !isBreak c || c = '\n' || c = '\u2028' || c = '\u2029') && s.head? ≠ some '\t'

/-- Between single quotes a quote is doubled, and spaces behind a line break do not count. -/
def SpeltSingle (c : Char) (x : List Char) : Prop :=
  (isBreak c = true ∧ ∃ n, x = c :: Writer.spaces n) ∨
    (isBreak c = false ∧ x = if c = '\'' then ['\'', '\''] else [c])

/-- Between double quotes characters can be escaped, and some have to be. -/
def SpeltDouble (c : Char) (x : List Char) : Prop :=
  ((!Writer.isPrintable c || isBreak c || c = '"' || c = '\\') = true ∧ x = Writer.escape c) ∨
    ((isBreak c || c = '"' || c = '\\') = false ∧ x = [c])

/-- How a text can be written in a style behind its key, up to the end of its last line. -/
inductive Writes : ScalarStyle → List Char → List Char → Prop
  | plain {s : List Char} : isLegible s = true → Writes .plain s (' ' :: (s ++ ['\n']))
  | singleQuoted {s t : List Char} : isQuotable s = true → Spelling SpeltSingle s t →
    Writer.meets isBreak (fun d => !isGap (some d)) t = false →
    Writes .singleQuoted s (' ' :: '\'' :: (t ++ ['\'', '\n']))
  | doubleQuoted {s t : List Char} : Spelling SpeltDouble s t →
    Writes .doubleQuoted s (' ' :: '"' :: (t ++ ['"', '\n']))
  | literal {s : List Char} : s ≠ [] → isBlock s = true → Writes .literal s
    (' ' :: (Writer.literalHeader s ++ '\n' :: (Writer.literalBody 4 true s ++
      if Writer.endsLine s then [] else ['\n'])))

/-- Whether a value can be put in for the markers of a text that is written in a style, if it has any. -/
def suits (v : List Char) (style : ScalarStyle) (s : List Char) : Bool :=
  unbraced false s ||
    (v.all isAllowed &&
      match style with
      | .plain => isLegible (fill v s)
      | .singleQuoted => (v.all fun c => !(isBreak c || c = '\'')) && isQuotable (fill v s)
      | .doubleQuoted => v.all fun c => !(isBreak c || c = '"' || c = '\\')
      | .literal | .folded =>
        !(v.isEmpty || v.any isBreak) && isBlock (fill v s) &&
          Writer.literalHeader (fill v s) == Writer.literalHeader s)

/-! ### What markers are made of -/

theorem not_mem_marker {c : Char} (h : c ≠ '{' ∧ c ≠ '.' ∧ c ≠ '}') : c ∉ marker := by
  simp [marker, h]

theorem unbraced_cons_sep {marked : Bool} {c : Char} (hc : c ∉ marker) (x : List Char) :
    unbraced marked (c :: x) = unbraced marked x :=
  Range.unbraced_append_sep hc [] x

theorem isBreak_of_mem_marker {c : Char} (h : c ∈ marker) : isBreak c = false := by
  simp only [marker, List.mem_cons, List.not_mem_nil, or_false] at h
  rcases h with rfl | rfl | rfl | rfl | rfl <;> rfl

theorem not_mem_marker_of_break {b : Char} (hb : isBreak b = true) : b ∉ marker := by
  intro hmem
  rw [isBreak_of_mem_marker hmem] at hb
  cases hb

theorem not_mem_spaces (n : Nat) : ∀ d ∈ Writer.spaces n, d ∉ marker := by
  intro d hd
  rw [List.eq_of_mem_replicate hd]
  exact not_mem_marker (by decide)

theorem spares_single : Spares marker SpeltSingle := by
  constructor
  · rintro c x (⟨hb, -⟩ | ⟨-, rfl⟩) hc
    · exact absurd hc (not_mem_marker_of_break hb)
    · refine if_neg ?_
      rintro rfl
      exact not_mem_marker (by decide) hc
  · rintro c x (⟨-, n, rfl⟩ | ⟨-, rfl⟩) hc
    · exact ⟨List.cons_ne_nil _ _, List.forall_mem_cons.2 ⟨hc, not_mem_spaces n⟩⟩
    · split_ifs
      · exact ⟨List.cons_ne_nil _ _, by simpa using not_mem_marker (by decide)⟩
      · exact ⟨List.cons_ne_nil _ _, by simpa using hc⟩

/-- The characters that escapes are made of. -/
def escapeChars : List Char := "\\0123456789ABCDEFabefnrtuvxLNPU_\"".toList

/-- Escapes have nothing that stands for a value or a variable, and end no line. -/
theorem of_mem_escapeChars {d : Char} (h : d ∈ escapeChars) :
    (isAllowed d = true ∧ d ≠ '$') ∧ d ∉ marker ∧ isBreak d = false := by
  have hall : (escapeChars.all fun d =>
      (isAllowed d && d ≠ '$') && (!marker.contains d && !isBreak d)) = true := rfl
  simpa using List.all_eq_true.1 hall d h

theorem mem_hexDigits {n v : Nat} {d : Char} (h : d ∈ Writer.hexDigits n v) : d ∈ escapeChars := by
  have hdigit : ((List.range 16).all fun i =>
      escapeChars.contains ("0123456789ABCDEF".toList.getD i '0')) = true := rfl
  induction n generalizing v with
  | zero => cases h
  | succ n ih =>
    unfold Writer.hexDigits at h
    rcases List.mem_append.1 h with h | h
    · exact ih h
    · rw [List.mem_singleton.1 h]
      exact List.contains_iff_mem.1
        (List.all_eq_true.1 hdigit _ (List.mem_range.2 (Nat.mod_lt _ (by decide))))

/-- An escape is a letter that stands for the character, or its code behind a letter that says how many
digits it has. -/
theorem escape_eq (c : Char) :
    (∃ e ∈ escapeChars, simpleEscape? e = some c ∧ escapeWidth? e = none ∧
      Writer.escape c = ['\\', e]) ∨
    ∃ e ∈ escapeChars, ∃ w, escapeWidth? e = some w ∧ c.toNat < Nat.pow 16 w ∧
      Writer.escape c = '\\' :: e :: Writer.hexDigits w c.toNat := by
  unfold Writer.escape
  simp only []
  split
  next p hp =>
    have hmem := List.mem_of_find?_eq_some hp
    have hcode : Char.ofNat p.1 = c := by
      have := List.find?_some hp
      rw [decide_eq_true_eq] at this
      rw [this, Char.ofNat_toNat]
    refine .inl ⟨p.2, ?_⟩
    rw [← hcode]
    clear hp hcode
    revert p
    decide
  next hnone =>
    have hlt : c.toNat < Nat.pow 16 8 := Nat.lt_of_lt_of_le c.val.toNat_lt (by decide)
    split_ifs with hbyte hword
    · exact .inr ⟨'x', by decide, 2, rfl, Nat.lt_succ_of_le hbyte, rfl⟩
    · exact .inr ⟨'u', by decide, 4, rfl, Nat.lt_succ_of_le hword, rfl⟩
    · exact .inr ⟨'U', by decide, 8, rfl, hlt, rfl⟩

theorem mem_escape {c d : Char} (h : d ∈ Writer.escape c) : d ∈ escapeChars := by
  rcases escape_eq c with ⟨e, hmem, -, -, heq⟩ | ⟨e, hmem, w, -, -, heq⟩
  · rw [heq] at h
    simp only [List.mem_cons, List.not_mem_nil, or_false] at h
    rcases h with rfl | rfl
    · decide
    · exact hmem
  · rw [heq] at h
    simp only [List.mem_cons] at h
    rcases h with rfl | rfl | h
    · decide
    · exact hmem
    · exact mem_hexDigits h

theorem escape_ne_nil (c : Char) : Writer.escape c ≠ [] := by
  rcases escape_eq c with ⟨e, -, -, -, heq⟩ | ⟨e, -, w, -, -, heq⟩ <;> rw [heq] <;>
    exact List.cons_ne_nil _ _

theorem spares_double : Spares marker SpeltDouble := by
  constructor
  · rintro c x (⟨hmust, -⟩ | ⟨-, rfl⟩) hc
    · simp only [marker, List.mem_cons, List.not_mem_nil, or_false] at hc
      rcases hc with rfl | rfl | rfl | rfl | rfl <;> cases hmust
    · rfl
  · rintro c x (⟨-, rfl⟩ | ⟨-, rfl⟩) hc
    · exact ⟨escape_ne_nil c, fun d hd => (of_mem_escapeChars (mem_escape hd)).2.1⟩
    · exact ⟨List.cons_ne_nil _ _, by simpa using hc⟩

/-! ### Lines -/

namespace Writer

/-- A line of a literal block. -/
def indented (n : Nat) (line : List Char) : List Char := if line.isEmpty then [] else spaces n ++ line

theorem literalBody_break {b : Char} (hb : isBreak b = true) (n : Nat) (broken : Bool) (s : List Char) :
    literalBody n broken (b :: s) = b :: literalBody n true s := by
  conv_lhs => unfold literalBody
  rw [if_pos hb]

theorem literalBody_unbroken {n : Nat} {line : List Char} (h : ∀ c ∈ line, isBreak c = false)
    (s : List Char) : literalBody n false (line ++ s) = line ++ literalBody n false s := by
  induction line with
  | nil => rfl
  | cons c cs ih =>
    rw [List.cons_append]
    conv_lhs => unfold literalBody
    rw [h c List.mem_cons_self, ih fun d hd => h d (List.mem_cons_of_mem _ hd)]
    rfl

theorem literalBody_start {n : Nat} {line : List Char} (h : ∀ c ∈ line, isBreak c = false)
    (hne : line ≠ []) (s : List Char) :
    literalBody n true (line ++ s) = indented n line ++ literalBody n false s := by
  cases line with
  | nil => exact absurd rfl hne
  | cons c cs =>
    rw [List.cons_append]
    conv_lhs => unfold literalBody
    rw [h c List.mem_cons_self, literalBody_unbroken (fun d hd => h d (List.mem_cons_of_mem _ hd))]
    simp [indented]

theorem literalBody_line {n : Nat} {line : List Char} (h : ∀ c ∈ line, isBreak c = false) :
    literalBody n true line = indented n line := by
  by_cases hne : line = []
  · subst hne
    rfl
  · have := literalBody_start (n := n) h hne []
    rwa [List.append_nil, show literalBody n false [] = [] from rfl, List.append_nil] at this

theorem literalBody_lines {n : Nat} {line : List Char} (h : ∀ c ∈ line, isBreak c = false) {b : Char}
    (hb : isBreak b = true) (s : List Char) :
    literalBody n true (line ++ b :: s) = indented n line ++ b :: literalBody n true s := by
  by_cases hne : line = []
  · subst hne
    exact literalBody_break hb n true s
  · rw [literalBody_start h hne, literalBody_break hb]

theorem mem_indented {n : Nat} {line : List Char} {d : Char} (h : d ∈ indented n line) :
    d ∈ line ∨ d = ' ' := by
  unfold indented at h
  split_ifs at h
  · cases h
  · exact (List.mem_append.1 h).symm.imp_right List.eq_of_mem_replicate

theorem mem_literalBody {n : Nat} {s : List Char} {d : Char} : d ∈ literalBody n true s → d ∈ s ∨ d = ' ' := by
  refine Text.separated_induction isBreak (P := fun s => d ∈ literalBody n true s → d ∈ s ∨ d = ' ')
    (fun line hline h => ?_) (fun line b s hline hb ih h => ?_) s
  · rw [literalBody_line hline] at h
    exact mem_indented h
  · rw [literalBody_lines hline hb, List.mem_append, List.mem_cons] at h
    rcases h with h | rfl | h
    · exact (mem_indented h).imp_left (List.mem_append_left _)
    · exact .inl (List.mem_append_right _ List.mem_cons_self)
    · exact (ih h).imp_left fun h => List.mem_append_right _ (List.mem_cons_of_mem _ h)

theorem mem_literalHeader {s : List Char} {d : Char} (h : d ∈ literalHeader s) :
    d = '|' ∨ d = '2' ∨ d = '-' ∨ d = '+' := by
  unfold literalHeader at h
  simp only [List.cons_append, List.mem_cons, List.mem_append] at h
  rcases h with h | h | h
  · exact .inl h
  · split_ifs at h
    · exact .inr (.inl (List.mem_singleton.1 h))
    · cases h
  · split at h
    · exact .inr (.inr (.inl (List.mem_singleton.1 h)))
    · split_ifs at h
      · exact .inr (.inr (.inl (List.mem_singleton.1 h)))
      · exact .inr (.inr (.inr (List.mem_singleton.1 h)))
      · cases h

theorem not_mem_literalHeader (s : List Char) : ∀ d ∈ literalHeader s, d ∉ marker := by
  intro d hd
  rcases mem_literalHeader hd with rfl | rfl | rfl | rfl <;> exact not_mem_marker (by decide)

theorem unbraced_indented {marked : Bool} (n : Nat) (line : List Char) :
    unbraced marked (indented n line) = unbraced marked line := by
  unfold indented
  split_ifs with h
  · rw [List.isEmpty_iff.1 h]
  · exact Range.unbraced_append_of_disjoint (not_mem_spaces n) line

theorem unbraced_literalBody {marked : Bool} (n : Nat) (s : List Char) :
    unbraced marked (literalBody n true s) = unbraced marked s := by
  refine Text.separated_induction isBreak (P := fun s => unbraced marked (literalBody n true s) = unbraced marked s)
    (fun line hline => ?_) (fun line b s hline hb ih => ?_) s
  · rw [literalBody_line hline, unbraced_indented]
  · have hmem := not_mem_marker_of_break hb
    rw [literalBody_lines hline hb, Range.unbraced_append_sep hmem, Range.unbraced_append_sep hmem,
      unbraced_indented, ih]

section Pasting

variable {v : List Char}

theorem not_break_of_fill (hv : ∀ c ∈ v, isBreak c = false) {line : List Char}
    (hline : ∀ c ∈ line, isBreak c = false) : ∀ c ∈ fill v line, isBreak c = false :=
  fun c hc => (Range.mem_fill hc).elim (hline c) (hv c)

theorem fill_indented (hne : v ≠ []) (n : Nat) (line : List Char) :
    fill v (indented n line) = indented n (fill v line) := by
  unfold indented
  by_cases hline : line = []
  · subst hline
    rfl
  · rw [if_neg (by simpa using hline), if_neg (by simpa using mt (Range.fill_eq_nil hne).1 hline)]
    exact Range.fill_append_of_disjoint (not_mem_spaces n) line

/-- The lines of a block stay the lines of a block. -/
theorem fill_literalBody (hne : v ≠ []) (hv : ∀ c ∈ v, isBreak c = false) (n : Nat) (s : List Char) :
    fill v (literalBody n true s) = literalBody n true (fill v s) := by
  refine Text.separated_induction isBreak (P := fun s => fill v (literalBody n true s) = literalBody n true (fill v s))
    (fun line hline => ?_) (fun line b s hline hb ih => ?_) s
  · rw [literalBody_line hline, literalBody_line (not_break_of_fill hv hline), fill_indented hne]
  · have hmem := not_mem_marker_of_break hb
    rw [literalBody_lines hline hb, Range.fill_append_sep hmem, Range.fill_append_sep hmem,
      literalBody_lines (not_break_of_fill hv hline) hb, fill_indented hne, ih]

theorem endsLine_fill (hne : v ≠ []) (hv : ∀ c ∈ v, isBreak c = false) (s : List Char) :
    endsLine (fill v s) = endsLine s := by
  refine Range.getLast?_fill hne rfl ?_
  rw [List.getLast?_eq_some_getLast hne, Option.any_some]
  exact hv _ (List.getLast_mem hne)

end Pasting

end Writer

namespace Writer

variable {p q : Char → Bool}

theorem meets_cons (c : Char) (s : List Char) :
    meets p q (c :: s) = ((p c && s.head?.any q) || meets p q s) := by
  cases s with
  | nil => simp [meets]
  | cons d ds => rfl

theorem meets_append {x : List Char} (hx : ∀ c ∈ x, p c = false) (s : List Char) :
    meets p q (x ++ s) = meets p q s := by
  induction x with
  | nil => rfl
  | cons c cs ih =>
    rw [List.cons_append, meets_cons, hx c List.mem_cons_self, Bool.false_and, Bool.false_or,
      ih fun d hd => hx d (List.mem_cons_of_mem _ hd)]

/-- Where only gaps follow line breaks this stays so with a value without line breaks. -/
theorem meets_fill {v t : List Char} (hv : ∀ c ∈ v, isBreak c = false) :
    meets isBreak (fun d => !isGap (some d)) t = false →
    meets isBreak (fun d => !isGap (some d)) (fill v t) = false := by
  refine Range.fill_induction (P := fun t => meets isBreak (fun d => !isGap (some d)) t = false →
    meets isBreak (fun d => !isGap (some d)) (fill v t) = false) id (fun s ih h => ?_)
    (fun c s hc ih h => ?_) t
  · rw [meets_append fun _ => isBreak_of_mem_marker] at h
    rw [Range.fill_marker, meets_append hv]
    exact ih h
  · rw [meets_cons, Bool.or_eq_false_iff, Bool.and_eq_false_iff] at h
    rw [Range.fill_cons hc, meets_cons, ih h.2, Bool.or_false, Bool.and_eq_false_iff]
    refine h.1.imp_right fun hhead => ?_
    cases s with
    | nil => rfl
    | cons d ds =>
      -- a gap is no marker
      have hd : ¬marker.isPrefixOf (d :: ds) = true := by
        rw [List.isPrefixOf_iff_prefix]
        rintro ⟨rest, hrest⟩
        obtain rfl : '{' = d := (List.cons.inj hrest).1
        cases hhead
      rw [Range.fill_cons hd]
      exact hhead

end Writer

namespace Writes

variable {style : ScalarStyle} {s w : List Char}

theorem unbraced_eq {marked : Bool} (h : Writes style s w) : unbraced marked w = unbraced marked s := by
  have hsep : ∀ {c : Char}, c ≠ '{' ∧ c ≠ '.' ∧ c ≠ '}' → ∀ x : List Char,
      unbraced marked (c :: x) = unbraced marked x := fun hc => unbraced_cons_sep (not_mem_marker hc)
  have hend : ∀ {c : Char}, c ≠ '{' ∧ c ≠ '.' ∧ c ≠ '}' → ∀ x : List Char,
      unbraced marked (x ++ [c]) = unbraced marked x := fun hc x =>
    (Range.unbraced_append_sep (not_mem_marker hc) x []).trans (Bool.and_true _)
  have hquote : ∀ {c : Char}, c ≠ '{' ∧ c ≠ '.' ∧ c ≠ '}' → ∀ x : List Char,
      unbraced marked (' ' :: c :: (x ++ [c, '\n'])) = unbraced marked x := fun {c} hc x => by
    rw [hsep (by decide), hsep hc, List.append_cons, hend (by decide), hend hc]
  cases h with
  | plain => rw [hsep (by decide), hend (by decide)]
  | singleQuoted _ h => rw [hquote (by decide), Range.unbraced_spelling h spares_single]
  | doubleQuoted h => rw [hquote (by decide), Range.unbraced_spelling h spares_double]
  | literal =>
    rw [hsep (by decide), Range.unbraced_append_of_disjoint (Writer.not_mem_literalHeader s),
      hsep (by decide)]
    split_ifs
    · rw [List.append_nil, Writer.unbraced_literalBody]
    · rw [hend (by decide), Writer.unbraced_literalBody]

/-- A text with a value in it is written by what is written for it with the value in that. -/
theorem paste {v : List Char} (h : Writes style s w) (hv : suits v style s = true) :
    Writes style (fill v s) (fill v w) := by
  unfold suits at hv
  rw [Bool.or_eq_true] at hv
  rcases hv with hplain | hv
  · have hw : unbraced false w = unbraced false s := h.unbraced_eq
    unfold fill
    rw [Range.replaceFrom_of_unbraced hplain, Range.replaceFrom_of_unbraced (hw.trans hplain)]
    exact h
  rw [Bool.and_eq_true] at hv
  have hv := hv.2
  have hsep : ∀ {c : Char}, c ≠ '{' ∧ c ≠ '.' ∧ c ≠ '}' → ∀ x : List Char,
      fill v (c :: x) = c :: fill v x := fun hc => Range.fill_cons_sep (not_mem_marker hc)
  have hend : ∀ {c : Char}, c ≠ '{' ∧ c ≠ '.' ∧ c ≠ '}' → ∀ x : List Char,
      fill v (x ++ [c]) = fill v x ++ [c] := fun hc x => Range.fill_append_sep (not_mem_marker hc) x []
  have hquote : ∀ {c : Char}, c ≠ '{' ∧ c ≠ '.' ∧ c ≠ '}' → ∀ x : List Char,
      fill v (' ' :: c :: (x ++ [c, '\n'])) = ' ' :: c :: (fill v x ++ [c, '\n']) := fun {c} hc x => by
    rw [hsep (by decide), hsep hc, List.append_cons, hend (by decide), hend hc, ← List.append_cons]
  cases h with
  | plain =>
    rw [hsep (by decide), hend (by decide)]
    exact .plain hv
  | singleQuoted _ hspelt ht =>
    rw [Bool.and_eq_true] at hv
    have hv' : ∀ c ∈ v, isBreak c = false ∧ c ≠ '\'' := by simpa using hv.1
    rw [hquote (by decide)]
    refine .singleQuoted hv.2 (hspelt.replaceFrom (List.cons_ne_nil _ _) spares_single fun c hc => ?_)
      (Writer.meets_fill (fun c hc => (hv' c hc).1) ht)
    exact .inr ⟨(hv' c hc).1, by rw [if_neg (hv' c hc).2]⟩
  | doubleQuoted hspelt =>
    rw [hquote (by decide)]
    refine .doubleQuoted (hspelt.replaceFrom (List.cons_ne_nil _ _) spares_double fun c hc => ?_)
    exact .inr ⟨by simpa using List.all_eq_true.1 hv c hc, rfl⟩
  | literal hs _ =>
    simp only [Bool.and_eq_true, Bool.not_eq_true', Bool.or_eq_false_iff, beq_iff_eq] at hv
    obtain ⟨⟨⟨hne, hbreaks⟩, hblock⟩, hheader⟩ := hv
    have hne : v ≠ [] := by simpa using hne
    have hbreaks : ∀ c ∈ v, isBreak c = false := by simpa using hbreaks
    have hw := Writes.literal (mt (Range.fill_eq_nil hne).1 hs) hblock
    rw [hheader, Writer.endsLine_fill hne hbreaks, ← Writer.fill_literalBody hne hbreaks] at hw
    rw [hsep (by decide), Range.fill_append_of_disjoint (Writer.not_mem_literalHeader s), hsep (by decide)]
    split_ifs at hw ⊢
    · rwa [List.append_nil] at hw ⊢
    · rwa [hend (by decide)]

end Writes

/-! ### What is written -/

theorem isAllowed_of_isPrintable {c : Char} (h : Writer.isPrintable c = true) : isAllowed c = true := by
  unfold Writer.isPrintable at h
  unfold isAllowed
  simp only [Bool.or_eq_true, Bool.and_eq_true, decide_eq_true_eq] at h ⊢
  omega

theorem break_of_isPrintable {c : Char} (h : Writer.isPrintable c = true) :
    isBreak c = false ∨ c = '\n' ∨ c = '\u2028' ∨ c = '\u2029' := by
  have hno : Writer.isPrintable '\r' = false ∧ Writer.isPrintable '\x85' = false := by decide
  rw [or_iff_not_imp_left, Bool.not_eq_false]
  intro hb
  unfold isBreak at hb
  simp only [Bool.or_eq_true, decide_eq_true_eq] at hb
  rcases hb with (((rfl | rfl) | rfl) | rfl) | rfl
  · exact .inl rfl
  · rw [hno.1] at h
    cases h
  · rw [hno.2] at h
    cases h
  · exact .inr (.inl rfl)
  · exact .inr (.inr rfl)

theorem isSpace_of_isPrintable {c : Char} (h : Writer.isPrintable c = true) : isSpace c = decide (c = ' ') := by
  unfold isSpace
  rw [Bool.or_eq_left_iff_imp, decide_eq_true_eq]
  rintro rfl
  cases h

namespace Writer

/-- What holds of a text that is written in a style. -/
theorem style_spec (s : List Char) :
    match style s with
    | .plain => isSpecial s = false ∧ bordered (· = ' ') s = false ∧ s.any isBreak = false ∧
      looksMarked s = false
    | .singleQuoted => isSpecial s = false ∧ '\n' ∉ s ∧ meets isBreak (· = ' ') s = false
    | .doubleQuoted => True
    | .literal => isSpecial s = false ∧ '\n' ∈ s
    | .folded => False := by
  unfold style
  simp only [Bool.not_eq_true', Bool.or_eq_true, Bool.or_eq_false_iff, List.contains_eq_mem,
    decide_eq_true_eq]
  split_ifs with hline hspecial hspecial hplain hmeets
  · trivial
  · rw [not_or, Bool.not_eq_true] at hspecial
    exact ⟨hspecial.1, hline⟩
  · trivial
  · exact ⟨by simpa using hspecial, hplain.1.1.2, hplain.1.2, hplain.2⟩
  · trivial
  · exact ⟨by simpa using hspecial, hline, by simpa using hmeets⟩

theorem isPrintable_of_mem {s : List Char} (h : isSpecial s = false) {c : Char} (hc : c ∈ s) :
    isPrintable c = true := by
  unfold isSpecial at h
  rw [Bool.or_eq_false_iff] at h
  simpa using (List.any_eq_false.1 h.2) c hc

theorem meets_congr {p p' q q' : Char → Bool} {s : List Char} (hp : ∀ c ∈ s, p c = p' c)
    (hq : ∀ c ∈ s, q c = q' c) : meets p q s = meets p' q' s := by
  induction s with
  | nil => rfl
  | cons c cs ih =>
    rw [meets_cons, meets_cons, hp c List.mem_cons_self, ih (fun d hd => hp d (List.mem_cons_of_mem _ hd))
      fun d hd => hq d (List.mem_cons_of_mem _ hd)]
    cases cs with
    | nil => rfl
    | cons d ds =>
      rw [List.head?_cons, Option.any_some, Option.any_some,
        hq d (List.mem_cons_of_mem _ List.mem_cons_self)]

theorem isLegible_of_style {s : List Char} (hs : s ≠ []) (h : style s = .plain) : isLegible s = true := by
  have hspec := style_spec s
  rw [h] at hspec
  obtain ⟨hspecial, hborder, hbreak, hmarked⟩ := hspec
  have hspace : ∀ c ∈ s, isSpace c = decide (c = ' ') := fun c hc =>
    isSpace_of_isPrintable (isPrintable_of_mem hspecial hc)
  unfold bordered at hborder
  rw [Bool.or_eq_false_iff] at hborder
  obtain ⟨c, cs, rfl⟩ := List.exists_cons_of_ne_nil hs
  unfold looksMarked at hmarked
  simp only [Bool.or_eq_false_iff] at hmarked
  have hbreaks := List.any_eq_false.1 hbreak
  have hc : isGap (some c) = false := by
    rw [isGap_some, hspace c List.mem_cons_self, Bool.or_eq_false_iff]
    exact ⟨by simpa using hborder.1, by simpa using hbreaks c List.mem_cons_self⟩
  have hcs : cs.any isBreak = false :=
    List.any_eq_false.2 fun d hd => hbreaks d (List.mem_cons_of_mem _ hd)
  have hlast : (c :: cs).getLast?.any isSpace = false := by
    rw [List.getLast?_eq_some_getLast hs, Option.any_some] at hborder ⊢
    rw [hspace _ (List.getLast_mem hs)]
    exact hborder.2
  rw [isLegible_cons, hc, hmarked.1.1.2, hmarked.1.2, hmarked.2, hcs, hlast]
  rfl

theorem isQuotable_of_style {s : List Char} (h : style s = .singleQuoted) : isQuotable s = true := by
  have hspec := style_spec s
  rw [h] at hspec
  obtain ⟨hspecial, hline, hmeets⟩ := hspec
  have hprintable : ∀ c ∈ s, isPrintable c = true := fun _ => isPrintable_of_mem hspecial
  have hspace : ∀ c ∈ s, isSpace c = decide (c = ' ') := fun c hc => isSpace_of_isPrintable (hprintable c hc)
  unfold isSpecial at hspecial
  rw [Bool.or_eq_false_iff] at hspecial
  unfold isQuotable
  rw [meets_congr (fun _ _ => rfl) hspace, meets_congr hspace (fun _ _ => rfl), hmeets, hspecial.1,
    Bool.and_eq_true, List.all_eq_true]
  refine ⟨fun c hc => ?_, rfl⟩
  rcases break_of_isPrintable (hprintable c hc) with hb | rfl | rfl | rfl
  · simp [hb]
  · exact absurd hc hline
  · rfl
  · rfl

theorem isBlock_of_style {s : List Char} (h : style s = .literal) : isBlock s = true := by
  have hspec := style_spec s
  rw [h] at hspec
  have hprintable : ∀ c ∈ s, isPrintable c = true := fun _ => isPrintable_of_mem hspec.1
  unfold isBlock
  rw [Bool.and_eq_true, List.all_eq_true, decide_eq_true_eq]
  refine ⟨fun c hc => ?_, fun hhead => ?_⟩
  · rcases break_of_isPrintable (hprintable c hc) with hb | rfl | rfl | rfl
    · simp [hb]
    all_goals rfl
  · have := hprintable _ (List.mem_of_mem_head? hhead)
    cases this

/-- Where blanks follow no breaks, what the writer puts between single quotes spells the text; behind a
break it starts with spaces. -/
theorem spelling_singleQuoted {n : Nat} {s : List Char} (h : meets isBreak (· = ' ') s = false) :
    Spelling SpeltSingle s (singleQuoted n false s) ∧
      (s.head? ≠ some ' ' → ∃ k t, singleQuoted n true s = spaces k ++ t ∧ Spelling SpeltSingle s t) := by
  induction s with
  | nil => exact ⟨.nil, fun _ => ⟨n, [], (List.append_nil _).symm, .nil⟩⟩
  | cons c cs ih =>
    rw [meets_cons, Bool.or_eq_false_iff, Bool.and_eq_false_iff] at h
    obtain ⟨ih, ih'⟩ := ih h.2
    unfold singleQuoted
    by_cases hb : isBreak c = true
    · rw [if_pos hb, if_pos hb]
      have hhead : cs.head? ≠ some ' ' := by
        have := h.1.resolve_left (by rw [hb]; exact Bool.noConfusion)
        intro hcs
        rw [hcs] at this
        cases this
      obtain ⟨k, t, ht, hspelt⟩ := ih' hhead
      have hall : Spelling SpeltSingle (c :: cs) (c :: singleQuoted n true cs) := by
        rw [ht]
        exact .cons (.inl ⟨hb, k, rfl⟩) hspelt
      exact ⟨hall, fun _ => ⟨0, _, rfl, hall⟩⟩
    · rw [Bool.not_eq_true] at hb
      rw [hb]
      by_cases hspace : c = ' '
      · subst hspace
        exact ⟨.cons (x := [' ']) (.inr ⟨rfl, rfl⟩) ih, fun h => absurd rfl h⟩
      · have hall : Spelling SpeltSingle (c :: cs)
            ((if c = '\'' then ['\'', '\''] else [c]) ++ singleQuoted n false cs) := .cons (.inr ⟨hb, rfl⟩) ih
        simp only [Bool.false_eq_true, if_false, if_neg hspace, if_true, List.nil_append]
        exact ⟨hall, fun _ => ⟨n, _, List.append_assoc _ _ _, hall⟩⟩

theorem meets_spaces (n : Nat) (t : List Char) :
    meets isBreak (fun d => !isGap (some d)) (spaces n ++ t) =
      meets isBreak (fun d => !isGap (some d)) t := by
  refine meets_append (fun c hc => ?_) t
  rw [List.eq_of_mem_replicate hc]
  rfl

theorem head?_spaces {n : Nat} (hn : 0 < n) (t : List Char) : (spaces n ++ t).head? = some ' ' := by
  cases n with
  | zero => cases hn
  | succ n => rfl

/-- Behind a break the writer puts a break or spaces. -/
theorem meets_singleQuoted {n : Nat} (hn : 0 < n) (s : List Char) (broken : Bool) :
    meets isBreak (fun d => !isGap (some d)) (singleQuoted n broken s) = false ∧
      (broken = true → (singleQuoted n broken s).head?.any (fun d => !isGap (some d)) = false) := by
  induction s generalizing broken with
  | nil =>
    cases broken with
    | false => exact ⟨rfl, nofun⟩
    | true =>
      have hmeets := meets_spaces n []
      have hhead := head?_spaces hn []
      rw [List.append_nil] at hmeets hhead
      refine ⟨hmeets, fun _ => ?_⟩
      rw [show singleQuoted n true [] = spaces n from rfl, hhead]
      rfl
  | cons c cs ih =>
    unfold singleQuoted
    split_ifs with hb hspace hbroken hquote hquote
    · refine ⟨?_, fun _ => ?_⟩
      · rw [meets_cons, (ih true).1, (ih true).2 rfl, Bool.and_false]
        rfl
      · rw [List.head?_cons, Option.any_some, isGap_some, hb, Bool.or_true]
        rfl
    · subst hspace
      refine ⟨?_, fun _ => rfl⟩
      rw [meets_cons, (ih broken).1]
      rfl
    · rw [List.append_assoc, meets_spaces, meets_append (by simp [isBreak]), head?_spaces hn]
      exact ⟨(ih false).1, fun _ => rfl⟩
    · rw [List.append_assoc, meets_spaces, meets_append (by simpa using hb), head?_spaces hn]
      exact ⟨(ih false).1, fun _ => rfl⟩
    · rw [List.nil_append, meets_append (by simp [isBreak])]
      exact ⟨(ih false).1, fun h => absurd h hbroken⟩
    · rw [List.nil_append, meets_append (by simpa using hb)]
      exact ⟨(ih false).1, fun h => absurd h hbroken⟩

theorem spelling_doubleQuoted (s : List Char) : Spelling SpeltDouble s (doubleQuoted s) := by
  refine Text.spelling_flatMap fun c _ => ?_
  split_ifs with h
  · exact .inl ⟨h, rfl⟩
  · refine .inr ⟨?_, rfl⟩
    rw [Bool.not_eq_true] at h
    simp only [Bool.or_eq_false_iff] at h ⊢
    exact ⟨⟨h.1.1.2, h.1.2⟩, h.2⟩

end Writer

/-- The writer writes a text in its style. -/
theorem writes_text {s : List Char} (hs : s ≠ []) : Writes (Writer.style s) s (Writer.text 4 s) := by
  have hspec := Writer.style_spec s
  unfold Writer.text
  cases h : Writer.style s with
  | plain =>
    simp only []
    rw [if_neg (by simpa using hs)]
    exact .plain (Writer.isLegible_of_style hs h)
  | singleQuoted =>
    rw [h] at hspec
    exact .singleQuoted (Writer.isQuotable_of_style h) (Writer.spelling_singleQuoted hspec.2.2).1
      (Writer.meets_singleQuoted (n := 4) (by decide) s false).1
  | doubleQuoted => exact .doubleQuoted (Writer.spelling_doubleQuoted s)
  | literal =>
    have hwrites := Writes.literal hs (Writer.isBlock_of_style h)
    simpa using hwrites
  | folded =>
    rw [h] at hspec
    cases hspec

namespace Writer

theorem mem_singleQuoted {n : Nat} {s : List Char} {broken : Bool} {d : Char}
    (h : d ∈ singleQuoted n broken s) : d ∈ s ∨ d = ' ' ∨ d = '\'' := by
  have hspaces : ∀ {b : Bool}, (d ∈ if b then spaces n else []) → d = ' ' := by
    intro b hd
    split_ifs at hd
    · exact List.eq_of_mem_replicate hd
    · cases hd
  induction s generalizing broken with
  | nil => exact .inr (.inl (hspaces h))
  | cons c cs ih =>
    have hcons : ∀ {b : Bool}, d ∈ c :: singleQuoted n b cs → d ∈ c :: cs ∨ d = ' ' ∨ d = '\'' := by
      intro b h
      rcases List.mem_cons.1 h with rfl | h
      · exact .inl List.mem_cons_self
      · exact (ih h).imp_left (List.mem_cons_of_mem _)
    unfold singleQuoted at h
    by_cases hb : isBreak c = true
    · rw [if_pos hb] at h
      exact hcons h
    rw [if_neg hb] at h
    by_cases hspace : c = ' '
    · rw [if_pos hspace] at h
      exact hcons h
    rw [if_neg hspace, List.append_assoc, List.mem_append] at h
    rcases h with h | h
    · exact .inr (.inl (hspaces h))
    split_ifs at h with hquote
    · rw [List.cons_append, List.mem_cons] at h
      rcases h with rfl | h
      · exact .inr (.inr rfl)
      · exact hcons (hquote ▸ h)
    · exact hcons h

theorem mem_doubleQuoted {s : List Char} {d : Char} (h : d ∈ doubleQuoted s) :
    d ∈ s ∧ isPrintable d = true ∨ d ∈ escapeChars := by
  obtain ⟨c, hc, hd⟩ := List.mem_flatMap.1 h
  split_ifs at hd with hmust
  · exact .inr (mem_escape hd)
  · rw [List.mem_singleton.1 hd]
    refine .inl ⟨hc, ?_⟩
    simp only [Bool.or_eq_true, not_or, Bool.not_eq_true', Bool.not_eq_false] at hmust
    exact hmust.1.1.1

end Writer

/-- What is written is made of characters of the text that can be printed and of others that may stand in
every document, dollar signs not among them. -/
theorem mem_text {s : List Char} {d : Char} (h : d ∈ Writer.text 4 s) :
    d ∈ s ∧ Writer.isPrintable d = true ∨ isAllowed d = true ∧ d ≠ '$' := by
  have hspec := Writer.style_spec s
  have hmarks : ([' ', '\n', '\'', '"', '|', '2', '-', '+'].all fun d => isAllowed d && d ≠ '$') = true := rfl
  by_cases hmark : d ∈ [' ', '\n', '\'', '"', '|', '2', '-', '+']
  · exact .inr (by simpa using List.all_eq_true.1 hmarks d hmark)
  simp only [List.mem_cons, List.not_mem_nil, or_false, not_or] at hmark
  obtain ⟨hspace, hline, hsingle, hdouble, hbar, htwo, hminus, hplus⟩ := hmark
  unfold Writer.text at h
  cases hstyle : Writer.style s with
  | plain =>
    rw [hstyle] at h hspec
    refine .inl ?_
    have hd : d ∈ s := by
      by_cases hs : s = []
      · simp [hs, hline] at h
      · simpa [hs, hspace, hline] using h
    exact ⟨hd, Writer.isPrintable_of_mem hspec.1 hd⟩
  | singleQuoted =>
    rw [hstyle] at h hspec
    have hd : d ∈ Writer.singleQuoted 4 false s := by simpa [hspace, hline, hsingle] using h
    have hd : d ∈ s := by simpa [hspace, hsingle] using Writer.mem_singleQuoted hd
    exact .inl ⟨hd, Writer.isPrintable_of_mem hspec.1 hd⟩
  | doubleQuoted =>
    rw [hstyle] at h
    have hd : d ∈ Writer.doubleQuoted s := by simpa [hspace, hline, hdouble] using h
    exact (Writer.mem_doubleQuoted hd).imp_right fun hd => (of_mem_escapeChars hd).1
  | literal =>
    rw [hstyle] at h hspec
    simp only [List.cons_append, List.append_assoc, List.mem_cons, List.mem_append, hspace, hline, false_or] at h
    have hd : d ∈ s := by
      rcases h with h | h | h
      · have := Writer.mem_literalHeader h
        simp [hbar, htwo, hminus, hplus] at this
      · simpa [hspace] using Writer.mem_literalBody h
      · split_ifs at h
        · cases h
        · exact absurd (List.mem_singleton.1 h) hline
    exact .inl ⟨hd, Writer.isPrintable_of_mem hspec.1 hd⟩
  | folded =>
    rw [hstyle] at hspec
    cases hspec

end Yaml
end Workload

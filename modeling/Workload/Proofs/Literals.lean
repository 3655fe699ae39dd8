import Workload.Proofs.Scalars

/-!
# Literal blocks

A text that is written as a literal block is read as it is (`readBlock_writing`): line by line
(`ReadsLines`), with as many of its last breaks as the header says.
-/

namespace Workload.Yaml

open Cursor (Stands)

section Blocks

variable {c : Cursor} {r : List Char}

/-- The breaks that a block keeps as they are. -/
def isKept (b : Char) : Prop := b = '\n' ∨ b = '\u2028' ∨ b = '\u2029'

theorem isBreak_of_isKept {b : Char} (hb : isKept b) : isBreak b = true := by
  rcases hb with rfl | rfl | rfl <;> rfl

theorem stands_skipLine {b : Char} (hb : isKept b) (hc : c.rest = b :: r) : Stands c.skipLine r 0 :=
  Cursor.skipLine_of_ne (by rcases hb with rfl | rfl | rfl <;> decide) hc

/-- How far a line is indented, looked for up to a column. -/
theorem length_indentation {k m : Nat} (hk : k ≤ m) (hr : k < m → r.head? ≠ some ' ') :
    (((Writer.spaces k ++ r).take m).takeWhile (· = ' ')).length = k := by
  have hall : ∀ d ∈ Writer.spaces k, decide (d = ' ') = true := fun d hd => by
    rw [List.eq_of_mem_replicate hd]
    rfl
  have hlength : (Writer.spaces k).length = k := List.length_replicate
  have hrest : (r.take (m - k)).takeWhile (· = ' ') = [] := by
    rcases Nat.eq_or_lt_of_le hk with rfl | hlt
    · rw [Nat.sub_self]
      rfl
    · obtain ⟨j, hj⟩ := Nat.exists_eq_succ_of_ne_zero (Nat.sub_ne_zero_of_lt hlt)
      cases r with
      | nil => simp
      | cons d ds =>
        rw [hj, List.take_succ_cons, List.takeWhile_cons_of_neg]
        simpa using hr hlt
  rw [List.take_append, List.take_of_length_le (by rw [hlength]; exact hk), hlength,
    List.takeWhile_append_of_pos hall, hrest, List.append_nil, hlength]

/-- One line that has nothing but indentation, or the indentation of a line that has more. -/
theorem readEmptyLines_step {indent k : Nat}
    (hk : ((c.rest.take (if indent = 0 then c.rest.length else indent - c.column)).takeWhile (· = ' ')).length = k)
    (htab : ¬((indent = 0 ∨ (c.advance k).column < indent) ∧ (c.advance k).rest.head? = some '\t'))
    (n deepest : Nat) (breaks : List Char) :
    readEmptyLines indent (n + 1) c deepest breaks =
      if (c.advance k).rest.head?.any isBreak then
        readEmptyLines indent n (c.advance k).skipLine (max deepest (c.advance k).column)
          ((c.advance k).lineBreak.reverse ++ breaks)
      else some (breaks, max deepest (c.advance k).column, c.advance k) := by
  conv_lhs => unfold readEmptyLines
  dsimp only
  rw [hk, if_neg (by simpa [Cursor.peek_zero] using htab), Cursor.atBreak_eq]
  rfl

theorem rest_advance_spaces {k : Nat} (hc : c.rest = Writer.spaces k ++ r) : (c.advance k).rest = r := by
  have := Cursor.rest_advance (x := Writer.spaces k) hc
  rwa [show (Writer.spaces k).length = k from List.length_replicate] at this

theorem head?_of_isClear (hr : isClear r = true) :
    r.head? ≠ some ' ' ∧ r.head? ≠ some '\t' ∧ r.head?.any isBreak = false := by
  cases r with
  | nil => exact ⟨nofun, nofun, rfl⟩
  | cons d ds =>
    have hd : isSpace d = false ∧ isBreak d = false := by simpa [isClear, isGap] using hr
    refine ⟨?_, ?_, hd.2⟩ <;>
    · intro h
      obtain rfl := Option.some.inj h
      cases hd.1

section Lines

variable {indent : Nat}

/-- The line that follows the block is indented less. -/
theorem readEmptyLines_outside {k : Nat} (hk : k < indent) (hr : isClear r = true) (h0 : c.column = 0)
    (hc : c.rest = Writer.spaces k ++ r) (n deepest : Nat) (breaks : List Char) :
    ∃ deepest', readEmptyLines indent (n + 1) c deepest breaks = some (breaks, deepest', c.advance k) := by
  obtain ⟨hspace, htab, hbreak⟩ := head?_of_isClear hr
  have hrest := rest_advance_spaces hc
  refine ⟨max deepest (c.advance k).column, ?_⟩
  rw [readEmptyLines_step (k := k), hrest, hbreak]
  · rfl
  · rw [if_neg (by omega), h0, Nat.sub_zero, hc]
    exact length_indentation (Nat.le_of_lt hk) fun _ => hspace
  · rw [hrest]
    exact fun h => htab h.2

/-- A line of the block has its indentation. -/
theorem readEmptyLines_inside (hindent : indent ≠ 0) (hbreak : r.head?.any isBreak = false) (h0 : c.column = 0)
    (hc : c.rest = Writer.spaces indent ++ r) (n deepest : Nat) (breaks : List Char) :
    ∃ deepest', readEmptyLines indent (n + 1) c deepest breaks = some (breaks, deepest', c.advance indent) := by
  refine ⟨max deepest (c.advance indent).column, ?_⟩
  rw [readEmptyLines_step (k := indent), rest_advance_spaces hc, hbreak]
  · rfl
  · rw [if_neg hindent, h0, Nat.sub_zero, hc]
    exact length_indentation (Nat.le_refl _) fun h => absurd h (Nat.lt_irrefl _)
  · rw [Cursor.column_advance, h0, Nat.zero_add]
    exact fun h => h.1.elim hindent (Nat.lt_irrefl _)

theorem readEmptyLines_break {b : Char} (hb : isKept b) (hindent : indent ≠ 0) (h0 : c.column = 0)
    (hc : c.rest = b :: r) (n deepest : Nat) (breaks : List Char) :
    readEmptyLines indent (n + 1) c deepest breaks =
      readEmptyLines indent n c.skipLine (max deepest 0) (b :: breaks) := by
  have hne : b ≠ ' ' ∧ b ≠ '\t' := by rcases hb with rfl | rfl | rfl <;> decide
  rw [readEmptyLines_step (k := 0), Cursor.advance_zero, hc, Cursor.lineBreak_eq hb hc, h0]
  · simp [isBreak_of_isKept hb]
  · rw [if_neg hindent, h0, Nat.sub_zero, hc]
    exact length_indentation (k := 0) (Nat.zero_le _) fun _ => by simpa using hne.1
  · rw [Cursor.advance_zero, hc]
    exact fun h => hne.2 (Option.some.inj h.2)

/-- The first line of a block says how far it is indented. -/
theorem readEmptyLines_first (hclear : isClear r = true) (h0 : c.column = 0)
    (hc : c.rest = Writer.spaces indent ++ r) (n : Nat) :
    readEmptyLines 0 (n + 1) c 0 [] = some ([], indent, c.advance indent) := by
  obtain ⟨hspace, htab, hbreak⟩ := head?_of_isClear hclear
  have hrest := rest_advance_spaces hc
  rw [readEmptyLines_step (k := indent), hrest, hbreak, Cursor.column_advance, h0, Nat.zero_add, Nat.zero_max]
  · rfl
  · rw [if_pos rfl, hc]
    refine length_indentation ?_ fun _ => hspace
    rw [List.length_append, show (Writer.spaces indent).length = indent from List.length_replicate]
    exact Nat.le_add_right _ _
  · rw [hrest]
    exact fun h => htab h.2

/-- One line of content. -/
theorem readContent_line {line : List Char} {b : Char} (hline : ∀ d ∈ line, isBreak d = false) (hb : isKept b)
    (hcolumn : c.column = indent) (hc : c.rest = line ++ b :: r) (n : Nat)
    (text last empty : List Char) (blank : Bool) :
    ∃ c' blank', Stands c' r 0 ∧ readContent true indent (n + 1) c text last empty blank =
      (readEmptyLines indent (c'.rest.length + 1) c' 0 []).bind fun e =>
        readContent true indent n e.2.2 (line.reverse ++ (empty ++ last.reverse ++ text)) [b] e.1 blank' := by
  have hbreak := isBreak_of_isKept hb
  have hrest := Cursor.rest_advance hc
  have htake : c.rest.takeWhile (fun ch => !isBreak ch) = line := by
    rw [hc, List.takeWhile_append_of_pos fun d hd => by rw [hline d hd]; rfl,
      List.takeWhile_cons_of_neg (by simp [hbreak]), List.append_nil]
  have hend : c.atEnd = false := by
    rw [Cursor.atEnd_eq, hc]
    simp
  have hat : (c.advance line.length).atBreak = true := by
    rw [Cursor.atBreak_eq, hrest]
    exact hbreak
  refine ⟨(c.advance line.length).skipLine, (c.peek 0).any isSpace, stands_skipLine hb hrest, ?_⟩
  conv_lhs => unfold readContent
  dsimp only
  rw [htake, Cursor.lineBreak_eq hb hrest, hat, hend, hcolumn]
  simp

/-- A block ends where a line is indented otherwise. -/
theorem readContent_end (hcolumn : c.column ≠ indent) (n : Nat) (text last empty : List Char) (blank : Bool) :
    readContent true indent (n + 1) c text last empty blank = some (text, last, empty, c) := by
  unfold readContent
  simp [hcolumn]

end Lines

/-- The lines of a block from the start of one of them. -/
def readLines (n : Nat) (c : Cursor) (text last empty : List Char) (blank : Bool) :
    Option (List Char × List Char × List Char × Cursor) :=
  (readEmptyLines 4 (c.rest.length + 1) c 0 empty).bind fun e => readContent true 4 n e.2.2 text last e.1 blank

/-- The break behind the last line of a block, unless the text has it. -/
def closing (s : List Char) : List Char := if s.isEmpty || Writer.endsLine s then [] else ['\n']

/-- Whether the last line of a text has something on it. -/
def isSettled (s : List Char) : Prop :=
  s ≠ [] ∧ (Writer.endsLine s = true → s.dropLast ≠ [] ∧ Writer.endsLine s.dropLast = false)

theorem readLines_line {line : List Char} {b : Char} (hline : ∀ d ∈ line, isBreak d = false) (hb : isKept b)
    (hne : line ≠ []) (h0 : c.column = 0) (hc : c.rest = Writer.indented 4 line ++ b :: r) (n : Nat)
    (text last empty : List Char) (blank : Bool) :
    ∃ c' blank', Stands c' r 0 ∧ readLines (n + 1) c text last empty blank =
      readLines n c' (line.reverse ++ (empty ++ last.reverse ++ text)) [b] [] blank' := by
  obtain ⟨d, ds, rfl⟩ := List.exists_cons_of_ne_nil hne
  have hc' : c.rest = Writer.spaces 4 ++ (d :: ds ++ b :: r) := by
    rw [hc]
    exact List.append_assoc _ _ _
  have hd : (d :: ds ++ b :: r).head?.any isBreak = false := hline d List.mem_cons_self
  obtain ⟨deepest, hfirst⟩ := readEmptyLines_inside (by decide) hd h0 hc' c.rest.length 0 empty
  obtain ⟨c', blank', hstands, hread⟩ := readContent_line hline hb
    (show (c.advance 4).column = 4 by rw [Cursor.column_advance, h0]) (rest_advance_spaces hc') n text last
    empty blank
  refine ⟨c', blank', hstands, ?_⟩
  unfold readLines
  rw [hfirst]
  exact hread

theorem readLines_break {b : Char} (hb : isKept b) (h0 : c.column = 0) (hc : c.rest = b :: r) (n : Nat)
    (text last empty : List Char) (blank : Bool) :
    readLines n c text last empty blank = readLines n c.skipLine text last (b :: empty) blank := by
  have hlength : c.rest.length = c.skipLine.rest.length + 1 := by
    rw [(stands_skipLine hb hc).rest, hc]
    rfl
  unfold readLines
  rw [readEmptyLines_break hb (by decide) h0 hc, hlength, Nat.max_self]

theorem readLines_end {k : Nat} (hk : k < 4) (hr : isClear r = true) (h0 : c.column = 0)
    (hc : c.rest = Writer.spaces k ++ r) (n : Nat) (text last empty : List Char) (blank : Bool) :
    readLines (n + 1) c text last empty blank = some (text, last, empty, c.advance k) := by
  obtain ⟨deepest, hend⟩ := readEmptyLines_outside hk hr h0 hc c.rest.length 0 empty
  unfold readLines
  rw [hend]
  exact readContent_end (by rw [Cursor.column_advance, h0]; omega) n text last empty blank

theorem endsLine_append (x : List Char) {y : List Char} (hy : y ≠ []) :
    Writer.endsLine (x ++ y) = Writer.endsLine y := by
  unfold Writer.endsLine
  rw [List.getLast?_append_of_ne_nil _ hy]

theorem endsLine_cons (b : Char) {s : List Char} (hs : s ≠ []) : Writer.endsLine (b :: s) = Writer.endsLine s :=
  endsLine_append [b] hs

theorem closing_line {b : Char} (hb : isBreak b = true) (line s : List Char) :
    closing (line ++ b :: s) = closing s := by
  unfold closing
  have hne : (line ++ b :: s).isEmpty = false := by simp
  rw [hne, Bool.false_or, endsLine_append line (List.cons_ne_nil _ _)]
  by_cases hs : s = []
  · subst hs
    have hends : Writer.endsLine [b] = true := hb
    rw [hends]
    rfl
  · rw [endsLine_cons b hs, List.isEmpty_eq_false_iff.2 hs, Bool.false_or]

/-- All lines of a text in a block are read, and the last one with something on it is known apart from those
behind it. -/
def ReadsLines (k : Nat) (r s : List Char) : Prop :=
  ∀ (c : Cursor) (n : Nat) (text last empty : List Char) (blank : Bool), c.column = 0 →
    c.rest = Writer.literalBody 4 true s ++ (closing s ++ (Writer.spaces k ++ r)) → s.length < n →
    ∃ text' last' empty' c', readLines n c text last empty blank = some (text', last', empty', c') ∧
      Stands c' r k ∧
      empty' ++ (last'.reverse ++ text') =
        (closing s).reverse ++ (s.reverse ++ (empty ++ (last.reverse ++ text))) ∧
      (s = [] → empty' = empty ∧ last' = last) ∧ (isSettled s → empty' = [] ∧ ∃ b, last' = [b])

theorem isSettled_tail {line s : List Char} {b : Char} (hb : isBreak b = true) (hs : s ≠ [])
    (h : isSettled (line ++ b :: s)) : isSettled s := by
  refine ⟨hs, fun hends => ?_⟩
  have hlast : Writer.endsLine (line ++ b :: s) = true := by
    rw [endsLine_append line (List.cons_ne_nil _ _), endsLine_cons b hs, hends]
  have hdrop := (h.2 hlast).2
  rw [List.dropLast_append_of_ne_nil (List.cons_ne_nil _ _), List.dropLast_cons_of_ne_nil hs,
    endsLine_append line (List.cons_ne_nil _ _)] at hdrop
  by_cases hs' : s.dropLast = []
  · rw [hs'] at hdrop
    have hends : Writer.endsLine [b] = true := hb
    rw [hends] at hdrop
    cases hdrop
  · rw [endsLine_cons b hs'] at hdrop
    exact ⟨hs', hdrop⟩

theorem readLines_block {k : Nat} (hk : k < 4) (hr : isClear r = true) (s : List Char) :
    (∀ b ∈ s, isBreak b = true → isKept b) → ReadsLines k r s := by
  have hstop : ∀ {c : Cursor}, c.column = 0 → c.rest = Writer.spaces k ++ r → Stands (c.advance k) r k :=
    fun h0 hc => ⟨rest_advance_spaces hc, by rw [Cursor.column_advance, h0, Nat.zero_add]⟩
  refine Text.separated_induction isBreak (P := fun s => (∀ b ∈ s, isBreak b = true → isKept b) → ReadsLines k r s)
    (fun line hline hkept c n text last empty blank h0 hc hn => ?_)
    (fun line b s hline hb ih hkept c n text last empty blank h0 hc hn => ?_) s
  · obtain ⟨n, rfl⟩ := Nat.exists_eq_succ_of_ne_zero (Nat.ne_of_gt (Nat.zero_lt_of_lt hn))
    by_cases hne : line = []
    · subst hne
      exact ⟨text, last, empty, c.advance k, readLines_end hk hr h0 hc n text last empty blank, hstop h0 hc,
        rfl, fun _ => ⟨rfl, rfl⟩, fun h => absurd rfl h.1⟩
    · have hlast : Writer.endsLine line = false := by
        unfold Writer.endsLine
        rw [List.getLast?_eq_some_getLast hne, Option.any_some]
        exact hline _ (List.getLast_mem hne)
      have hclosing : closing line = ['\n'] := by
        unfold closing
        rw [hlast, Bool.or_false, if_neg (by simpa using hne)]
      rw [Writer.literalBody_line hline, hclosing] at hc
      obtain ⟨n, rfl⟩ := Nat.exists_eq_succ_of_ne_zero (show n ≠ 0 from fun h => hne (by simpa [h] using hn))
      obtain ⟨c', blank', hc', hread⟩ := readLines_line hline (.inl rfl) hne h0 hc (n + 1) text last empty blank
      rw [hread, readLines_end hk hr hc'.column hc'.rest]
      refine ⟨_, _, _, _, rfl, hstop hc'.column hc'.rest, ?_, fun h => absurd h hne, fun _ => ⟨rfl, _, rfl⟩⟩
      rw [hclosing]
      simp
  · have hkb : isKept b := hkept b (List.mem_append_right _ List.mem_cons_self) hb
    have ih := ih fun d hd => hkept d (List.mem_append_right _ (List.mem_cons_of_mem _ hd))
    have hclosing := closing_line hb line s
    rw [Writer.literalBody_lines hline hb, hclosing, List.append_assoc, List.cons_append] at hc
    rw [List.length_append, List.length_cons] at hn
    obtain ⟨n, rfl⟩ := Nat.exists_eq_succ_of_ne_zero (Nat.ne_of_gt (Nat.zero_lt_of_lt hn))
    by_cases hne : line = []
    · subst hne
      have hc : c.rest = b :: _ := hc
      have hline := stands_skipLine hkb hc
      obtain ⟨text', last', empty', c', hread, hc', hall, hnil, hsettled⟩ :=
        ih c.skipLine (n + 1) text last (b :: empty) blank hline.column hline.rest (by omega)
      refine ⟨text', last', empty', c', ?_, hc', ?_, fun h => absurd h (List.cons_ne_nil _ _), fun h => ?_⟩
      · rw [readLines_break hkb h0 hc, hread]
      · rw [hall, hclosing]
        simp
      · by_cases hs : s = []
        · subst hs
          exact absurd rfl (h.2 (by simp [Writer.endsLine, hb])).1
        · exact hsettled (isSettled_tail hb hs h)
    · obtain ⟨c₁, blank', hc₁, hread₁⟩ := readLines_line hline hkb hne h0 hc n text last empty blank
      obtain ⟨text', last', empty', c', hread, hc', hall, hnil, hsettled⟩ :=
        ih c₁ n _ [b] [] blank' hc₁.column hc₁.rest (by omega)
      refine ⟨text', last', empty', c', hread₁.trans hread, hc', ?_, fun h => absurd h (by simp), fun h => ?_⟩
      · rw [hall, hclosing]
        simp
      · by_cases hs : s = []
        · exact ⟨(hnil hs).1, b, (hnil hs).2⟩
        · exact hsettled (isSettled_tail hb hs h)

/-- The indentation that the header of a block gives, if it has to. -/
def blockHint (s : List Char) : List Char :=
  if s.head?.any fun c => c = ' ' || isBreak c then ['2'] else []

/-- Which of its last breaks a block is said to keep. -/
def blockChomp (s : List Char) : Chomping :=
  if Writer.endsLine s then if s.dropLast.isEmpty || Writer.endsLine s.dropLast then .keep else .clip
  else .strip

def chompMark : Chomping → List Char
  | .strip => ['-']
  | .clip => []
  | .keep => ['+']

theorem literalHeader_eq (s : List Char) :
    Writer.literalHeader s = '|' :: (blockHint s ++ chompMark (blockChomp s)) := by
  unfold Writer.literalHeader blockChomp Writer.endsLine
  rcases List.eq_nil_or_concat' s with rfl | ⟨x, b, rfl⟩
  · rfl
  · rw [List.reverse_append, List.getLast?_concat, List.dropLast_concat, Option.any_some]
    simp only [List.reverse_singleton, List.singleton_append, List.isEmpty_reverse, List.head?_reverse,
      Bool.not_eq_true']
    cases isBreak b with
    | false => rfl
    | true =>
      simp only [Bool.true_eq_false, if_false, if_true]
      by_cases hkeep : (x.isEmpty || x.getLast?.any isBreak) = true
      · rw [if_pos hkeep, if_pos hkeep]
        rfl
      · rw [if_neg hkeep, if_neg hkeep]
        rfl

theorem blockHeader_writing {s : List Char}
    (hc : c.rest = blockHint s ++ (chompMark (blockChomp s) ++ '\n' :: r)) :
    ∃ c', blockHeader c = some (blockChomp s, (blockHint s).length * 2, c') ∧ c'.rest = '\n' :: r := by
  have hrest : (c.advance ((blockHint s).length + (chompMark (blockChomp s)).length)).rest = '\n' :: r := by
    rw [← List.append_assoc] at hc
    rw [← List.length_append]
    exact Cursor.rest_advance hc
  refine ⟨_, ?_, hrest⟩
  have hone : (c.advance 1).rest = c.rest.tail := List.drop_one
  unfold blockHeader
  unfold blockHint at hc ⊢
  cases hchomp : blockChomp s <;> rw [hchomp] at hc <;> split_ifs at hc ⊢ <;>
    simp [chompMark, chomping?, indentHint, Cursor.peek_zero, hc, hone, Cursor.advance_advance,
      Cursor.advance_zero]

theorem length_skipLine_lt (h : c.rest ≠ []) : c.skipLine.rest.length < c.rest.length := by
  unfold Cursor.skipLine
  split
  next heq =>
    rw [heq, List.length_cons, List.length_cons]
    exact Nat.lt_succ_of_lt (Nat.lt_succ_self _)
  next heq =>
    rw [heq]
    exact Nat.lt_succ_self _
  next heq => exact absurd heq h

theorem length_skipLine (c : Cursor) : c.skipLine.rest.length ≤ c.rest.length := by
  by_cases h : c.rest = []
  · unfold Cursor.skipLine
    rw [h]
    exact Nat.le_of_eq (congrArg List.length h)
  · exact Nat.le_of_lt (length_skipLine_lt h)

theorem length_advance (c : Cursor) (n : Nat) : (c.advance n).rest.length ≤ c.rest.length := by
  show (c.rest.drop n).length ≤ c.rest.length
  rw [List.length_drop]
  exact Nat.sub_le _ _

theorem length_readEmptyLines {indent n deepest deepest' : Nat} {breaks breaks' : List Char} {c' : Cursor}
    (h : readEmptyLines indent n c deepest breaks = some (breaks', deepest', c')) :
    c'.rest.length ≤ c.rest.length := by
  induction n generalizing c deepest breaks with
  | zero =>
    cases h
    exact Nat.le_refl _
  | succ n ih =>
    unfold readEmptyLines at h
    dsimp only at h
    generalize ((c.rest.take (if indent = 0 then c.rest.length else indent - c.column)).takeWhile
      (· = ' ')).length = k at h
    split at h
    · cases h
    · change (if (c.advance k).atBreak = true then _ else _) = _ at h
      split_ifs at h
      · exact ((ih h).trans (length_skipLine _)).trans (length_advance _ _)
      · cases h
        exact length_advance _ _

/-- The end of the line that a cursor stands in. -/
def lineEnd (c : Cursor) : Cursor := c.advance (c.rest.takeWhile fun ch => !isBreak ch).length

/-- The start of the next line, or the end. -/
def nextLine (c : Cursor) : Cursor := if (lineEnd c).atBreak then (lineEnd c).skipLine else lineEnd c

theorem length_nextLine (h : c.rest ≠ []) : (nextLine c).rest.length < c.rest.length := by
  unfold nextLine
  split_ifs with hbreak
  · refine Nat.lt_of_lt_of_le (length_skipLine_lt ?_) (length_advance _ _)
    intro hnil
    rw [Cursor.atBreak_eq, hnil] at hbreak
    cases hbreak
  · have hrest : (lineEnd c).rest = c.rest.dropWhile fun ch => !isBreak ch :=
      Cursor.rest_advance (List.takeWhile_append_dropWhile).symm
    have hnil : (lineEnd c).rest = [] := by
      rw [Cursor.atBreak_eq, hrest] at hbreak
      rw [hrest]
      have hhead := List.head?_dropWhile_not (fun ch => !isBreak ch) c.rest
      cases hd : c.rest.dropWhile fun ch => !isBreak ch with
      | nil => rfl
      | cons d ds =>
        rw [hd] at hhead hbreak
        simp_all
    rw [hnil]
    exact List.length_pos_iff.2 h

/-- How much fuel there is makes no difference if it is enough. -/
theorem readContent_fuel {n m : Nat} (hn : c.rest.length < n) (hm : c.rest.length < m) {literal : Bool}
    {indent : Nat} (text last empty : List Char) (blank : Bool) :
    readContent literal indent n c text last empty blank = readContent literal indent m c text last empty blank := by
  induction n generalizing m c text last empty blank with
  | zero => cases hn
  | succ n ih =>
    obtain ⟨m, rfl⟩ := Nat.exists_eq_succ_of_ne_zero (Nat.ne_of_gt (Nat.zero_lt_of_lt hm))
    unfold readContent
    by_cases hstop : (decide (c.column ≠ indent) || c.atEnd) = true
    · rw [if_pos hstop, if_pos hstop]
    · rw [if_neg hstop, if_neg hstop]
      refine Option.bind_congr fun e he => ?_
      rw [Bool.not_eq_true, Bool.or_eq_false_iff, Cursor.atEnd_eq, List.isEmpty_eq_false_iff] at hstop
      obtain ⟨breaks, deepest, c'⟩ := e
      have hle : c'.rest.length ≤ (nextLine c).rest.length := length_readEmptyLines he
      have hlt := length_nextLine hstop.2
      exact ih (show c'.rest.length < n by omega) (show c'.rest.length < m by omega) _ _ _ _

theorem isBlock_spec {s : List Char} (h : isBlock s = true) :
    (∀ b ∈ s, isBreak b = true → isKept b) ∧ s.head? ≠ some '\t' := by
  unfold isBlock at h
  rw [Bool.and_eq_true, List.all_eq_true, decide_eq_true_eq] at h
  refine ⟨fun b hb hbreak => ?_, h.2⟩
  have := h.1 b hb
  simpa [hbreak, isKept, or_assoc] using this

/-- What a block is, of what its lines are read as. -/
def chomped (chomp : Chomping) (text last empty : List Char) : List Char :=
  let text := if chomp = .strip then text else last.reverse ++ text
  if chomp = .keep then empty ++ text else text

/-- Behind its header a block is its lines. -/
theorem readBlock_lines {c' : Cursor} {hint n : Nat} {chomp : Chomping}
    (hheader : blockHeader c = some (chomp, hint, c')) (hc' : c'.rest = '\n' :: r)
    (hindent : (hint = 2 ∨ hint = 0 ∧ ∃ y, r = Writer.spaces 4 ++ y ∧ isClear y = true))
    (hn : r.length + 2 ≤ n) :
    readBlock true 2 c = (readLines n c'.skipLine [] [] [] false).map fun l =>
      ((chomped chomp l.1 l.2.1 l.2.2.1).reverse, l.2.2.2) := by
  have hline := stands_skipLine (.inl rfl) hc'
  have hblanks : c'.skipWhile isSpace = c' := by
    unfold Cursor.skipWhile
    rw [hc']
    rfl
  have hpeek : c'.peek 0 = some '\n' := by
    rw [Cursor.peek_zero, hc']
    rfl
  have hat : c'.atBreak = true := by
    rw [Cursor.atBreak_eq, hc']
    rfl
  unfold readBlock
  rw [hheader]
  have hhash : ¬some '\n' = some '#' := by decide
  -- the first lines settle the indentation, if the header does not
  have hfirst : ((readEmptyLines (if hint = 0 then 0 else if 0 ≤ (2 : Int) then Int.toNat 2 + hint else hint)
        (c'.skipLine.rest.length + 1) c'.skipLine 0 []).bind fun e =>
      readContent true
        (if (if hint = 0 then 0 else if 0 ≤ (2 : Int) then Int.toNat 2 + hint else hint) = 0 then
          max (max e.2.1 ((2 : Int) + 1).toNat) 1
        else if hint = 0 then 0 else if 0 ≤ (2 : Int) then Int.toNat 2 + hint else hint)
        (e.2.2.rest.length + 2) e.2.2 [] [] e.1 false) = readLines n c'.skipLine [] [] [] false := by
    have hfuel : ∀ (c'' : Cursor) (empty : List Char), c''.rest.length ≤ c'.skipLine.rest.length →
        readContent true 4 (c''.rest.length + 2) c'' [] [] empty false =
          readContent true 4 n c'' [] [] empty false := by
      intro c'' empty hle
      rw [hline.rest] at hle
      exact readContent_fuel (by omega) (by omega) _ _ _ _
    unfold readLines
    rcases hindent with rfl | ⟨rfl, y, hy, hclear⟩
    · refine Option.bind_congr fun e he => ?_
      obtain ⟨breaks, deepest, c''⟩ := e
      exact hfuel c'' breaks (length_readEmptyLines he)
    · have hrest : c'.skipLine.rest = Writer.spaces 4 ++ y := hline.rest.trans hy
      obtain ⟨deepest, hinside⟩ := readEmptyLines_inside (by decide) (head?_of_isClear hclear).2.2 hline.column
        hrest c'.skipLine.rest.length 0 []
      rw [hinside, if_pos rfl, readEmptyLines_first hclear hline.column hrest]
      exact hfuel _ [] (length_advance _ _)
  simp only [Option.bind_eq_bind, Option.bind_some, hblanks, hpeek, hhash, if_false, hat, Bool.or_true,
    Bool.not_true, Bool.false_eq_true, if_true]
  rw [← hfirst, Option.map_eq_bind, Option.bind_assoc]
  rfl

/-- A literal block is read as it is written. -/
theorem readBlock_writing {s : List Char} {k : Nat} (hs : s ≠ []) (hblock : isBlock s = true) (hk : k < 4)
    (hr : isClear r = true)
    (hc : c.rest = blockHint s ++ (chompMark (blockChomp s) ++
      '\n' :: (Writer.literalBody 4 true s ++ (closing s ++ (Writer.spaces k ++ r))))) :
    ∃ c', readBlock true 2 c = some (s, c') ∧ Stands c' r k := by
  obtain ⟨hkept, htab⟩ := isBlock_spec hblock
  obtain ⟨c₁, hheader, hc₁⟩ := blockHeader_writing hc
  have hline := stands_skipLine (.inl rfl) hc₁
  have hindent : (blockHint s).length * 2 = 2 ∨ (blockHint s).length * 2 = 0 ∧
      ∃ y, Writer.literalBody 4 true s ++ (closing s ++ (Writer.spaces k ++ r)) = Writer.spaces 4 ++ y ∧
        isClear y = true := by
    unfold blockHint
    split_ifs with hhint
    · exact .inl rfl
    · obtain ⟨d, ds, rfl⟩ := List.exists_cons_of_ne_nil hs
      have hd : d ≠ ' ' ∧ isBreak d = false := by simpa using hhint
      have hgap : isGap (some d) = false := by
        rw [isGap_some, hd.2, Bool.or_false]
        unfold isSpace
        simp [hd.1, show d ≠ '\t' by simpa using htab]
      have hbody : Writer.literalBody 4 true (d :: ds) =
          Writer.spaces 4 ++ d :: Writer.literalBody 4 false ds := by
        conv_lhs => unfold Writer.literalBody
        rw [hd.2]
        rfl
      refine .inr ⟨rfl, d :: (Writer.literalBody 4 false ds ++ (closing (d :: ds) ++ (Writer.spaces k ++ r))), ?_,
        isClear_cons hgap _⟩
      rw [hbody, List.append_assoc]
      rfl
  obtain ⟨text, last, empty, c', hread, hc', hall, -, hsettled⟩ :=
    readLines_block hk hr s hkept c₁.skipLine (c₁.rest.length + s.length + 2) [] [] [] false hline.column
      hline.rest (by omega)
  refine ⟨c', ?_, hc'⟩
  have hlength := congrArg List.length hc₁
  rw [List.length_cons] at hlength
  rw [readBlock_lines (n := c₁.rest.length + s.length + 2) hheader hc₁ hindent (by omega), hread,
    Option.map_some]
  have hchomped : chomped (blockChomp s) text last empty = s.reverse := by
    simp only [List.reverse_nil, List.append_nil] at hall
    unfold blockChomp chomped
    cases hends : Writer.endsLine s with
    | false =>
      -- the break behind the last line is not the text's
      obtain ⟨rfl, b, rfl⟩ := hsettled ⟨hs, fun h => by rw [hends] at h; cases h⟩
      have hclosing : closing s = ['\n'] := by
        unfold closing
        rw [hends, Bool.or_false, if_neg (by simpa using hs)]
      rw [hclosing] at hall
      simpa using (List.cons.inj hall).2
    | true =>
      have hclosing : closing s = [] := by
        unfold closing
        rw [hends, Bool.or_true, if_pos rfl]
      rw [hclosing, List.reverse_nil, List.nil_append] at hall
      by_cases hkeep : (s.dropLast.isEmpty || Writer.endsLine s.dropLast) = true
      · simpa [hkeep] using hall
      · rw [Bool.not_eq_true, Bool.or_eq_false_iff, List.isEmpty_eq_false_iff] at hkeep
        obtain ⟨rfl, -⟩ := hsettled ⟨hs, fun _ => hkeep⟩
        simpa [hkeep] using hall
  rw [hchomped, List.reverse_reverse]

end Blocks

end Workload.Yaml

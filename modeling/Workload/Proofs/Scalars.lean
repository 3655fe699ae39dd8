import Workload.Proofs.Writing

/-!
# Plain scalars

Reading positions and gaps, and plain scalars: a legible text is read as it is written, up to the next line
(`readPlain_writing`), and a key up to its colon (`readPlain_key`).
-/

namespace Workload.Yaml

open Text (Spelling)

namespace Cursor

/-- A cursor stands in front of a text, in a column. -/
structure Stands (c : Cursor) (rest : List Char) (column : Nat) : Prop where
  rest : c.rest = rest
  column : c.column = column

variable {c : Cursor} {x r : List Char}

theorem peek_zero (c : Cursor) : c.peek 0 = c.rest.head? := List.head?_eq_getElem?.symm

theorem peek_one (c : Cursor) : c.peek 1 = c.rest.tail.head? := by
  unfold peek
  cases c.rest with
  | nil => rfl
  | cons d ds => exact List.head?_eq_getElem?.symm

theorem atEnd_eq (c : Cursor) : c.atEnd = c.rest.isEmpty := rfl

theorem atBreak_eq (c : Cursor) : c.atBreak = c.rest.head?.any isBreak := by
  unfold atBreak
  rw [peek_zero]

theorem rest_advance (h : c.rest = x ++ r) : (c.advance x.length).rest = r := by
  show c.rest.drop x.length = r
  rw [h, List.drop_left]

theorem column_advance (c : Cursor) (n : Nat) : (c.advance n).column = c.column + n := rfl

theorem advance_zero (c : Cursor) : c.advance 0 = c := rfl

/-- What is passed in two parts is passed at once. -/
theorem advance_advance (c : Cursor) (m n : Nat) : (c.advance m).advance n = c.advance (m + n) := by
  have hwidth : c.width m + (c.advance m).width n = c.width (m + n) := by
    have hfold : ∀ (s : List Char) (w : Nat),
        s.foldl (fun w ch => w + ch.utf8Size) w = w + s.foldl (fun w ch => w + ch.utf8Size) 0 := by
      intro s
      induction s with
      | nil => exact fun w => rfl
      | cons d ds ih =>
        intro w
        rw [List.foldl_cons, List.foldl_cons, ih (w + d.utf8Size), ih (0 + d.utf8Size)]
        omega
    unfold width
    rw [List.take_add, List.foldl_append]
    exact (hfold _ _).symm
  show Cursor.mk ((c.rest.drop m).drop n) (c.index + c.width m + (c.advance m).width n) c.line
    (c.column + m + n) = Cursor.mk (c.rest.drop (m + n)) (c.index + c.width (m + n)) c.line (c.column + (m + n))
  rw [List.drop_drop, ← hwidth, Nat.add_assoc, Nat.add_assoc]

theorem atDocumentMark_of_column (h : c.column ≠ 0) : c.atDocumentMark = false := by
  unfold atDocumentMark atMark
  simp [h]

/-- A line ends at each break, a line feed behind a carriage return apart. -/
theorem skipLine_of_ne {b : Char} (hb : b ≠ '\r') (h : c.rest = b :: r) :
    Stands c.skipLine r 0 := by
  unfold skipLine
  rw [h]
  split
  next heq => exact absurd (List.cons.inj heq).1 hb
  next heq =>
    obtain ⟨-, rfl⟩ := List.cons.inj heq
    exact ⟨rfl, rfl⟩
  next heq => cases heq

theorem line_skipLine (h : c.rest = '\n' :: r) : c.skipLine.line = c.line + 1 := by
  unfold skipLine
  rw [h]
  rfl

/-- A line feed and the separators count as themselves. -/
theorem lineBreak_eq {b : Char} (hb : b = '\n' ∨ b = '\u2028' ∨ b = '\u2029') (h : c.rest = b :: r) :
    c.lineBreak = [b] := by
  unfold lineBreak
  rw [h]
  rcases hb with rfl | rfl | rfl <;> rfl

end Cursor

open Cursor (Stands)

/-- What stands behind the blanks of a line: nothing, or a character that is no blank. -/
def isClear (r : List Char) : Bool := r.isEmpty || !isGap r.head?

/-! ### Gaps -/

section Gaps

variable {margin : Int} {c : Cursor} {r : List Char}

/-- A gap ends where the text does, or in front of a character that is no blank. -/
theorem readGap_clear (hr : isClear c.rest = true) (n : Nat) (g : Gap) :
    readGap margin n c g = some (g, c) := by
  cases n with
  | zero => rfl
  | succ n =>
    unfold readGap
    rw [Cursor.peek_zero]
    cases hrest : c.rest with
    | nil => rfl
    | cons d ds =>
      rw [hrest] at hr
      have hd : isSpace d = false ∧ isBreak d = false := by simpa [isClear, isGap] using hr
      simp [hd]

theorem readGap_space {ch : Char} (hch : isSpace ch = true) (hc : c.rest = ch :: r) (n : Nat) {g : Gap}
    (hg : g.broken = false) :
    readGap margin (n + 1) c g = readGap margin n (c.advance 1) { g with spaces := ch :: g.spaces } := by
  conv_lhs => unfold readGap
  rw [Cursor.peek_zero, hc]
  simp [hch, hg]

/-- Blanks at the start of a line do not count. -/
theorem readGap_indentation (hc : c.rest = ' ' :: r) (n : Nat) {g : Gap} (hg : g.broken = true) :
    readGap margin (n + 1) c g = readGap margin n (c.advance 1) g := by
  conv_lhs => unfold readGap
  rw [Cursor.peek_zero, hc]
  simp [isSpace, hg]

theorem readGap_break {b : Char} (hb : isBreak b = true) (hspace : isSpace b = false) (hc : c.rest = b :: r)
    (n : Nat) (g : Gap) :
    readGap margin (n + 1) c g = readGap margin n c.skipLine
      (if g.broken then { g with more := c.lineBreak.reverse ++ g.more }
        else { g with first := c.lineBreak, broken := true }) := by
  conv_lhs => unfold readGap
  rw [Cursor.peek_zero, hc]
  simp only [List.head?_cons, hb, hspace, Bool.false_eq_true, if_false, if_true]
  split_ifs <;> rfl

/-- Blanks on a line are read as they are. -/
theorem readGap_spaces (margin : Int) {sp : List Char} (hsp : ∀ d ∈ sp, isSpace d = true) (hr : isClear r = true)
    (hc : c.rest = sp ++ r) (p : List Char) :
    readGap margin (c.rest.length + 1) c { spaces := p } =
      some ({ spaces := sp.reverse ++ p }, c.advance sp.length) := by
  induction sp generalizing c p with
  | nil => exact readGap_clear (hc ▸ hr) _ _
  | cons d ds ih =>
    have hrest : (c.advance 1).rest = ds ++ r := Cursor.rest_advance (x := [d]) hc
    have hlength : c.rest.length = (c.advance 1).rest.length + 1 := by rw [hc, hrest]; rfl
    rw [readGap_space (hsp d List.mem_cons_self) hc _ rfl, hlength,
      ih (fun e he => hsp e (List.mem_cons_of_mem _ he)) hrest, Cursor.advance_advance, List.reverse_cons,
      List.append_assoc, List.length_cons, Nat.add_comm]
    rfl

theorem readGap_spaces_broken {k : Nat} (hr : isClear r = true) (hc : c.rest = Writer.spaces k ++ r) {g : Gap}
    (hg : g.broken = true) : readGap margin (c.rest.length + 1) c g = some (g, c.advance k) := by
  induction k generalizing c with
  | zero => exact readGap_clear (hc ▸ hr) _ _
  | succ k ih =>
    have hrest : (c.advance 1).rest = Writer.spaces k ++ r := Cursor.rest_advance (x := [' ']) hc
    have hlength : c.rest.length = (c.advance 1).rest.length + 1 := by rw [hc, hrest]; rfl
    rw [readGap_indentation hc _ hg, hlength, ih hrest, Cursor.advance_advance, Nat.add_comm]

/-- The end of a line, and the indentation of the next one. -/
theorem readGap_line (margin : Int) {k : Nat} (hr : isClear r = true) (hc : c.rest = '\n' :: (Writer.spaces k ++ r)) :
    ∃ c', readGap margin (c.rest.length + 1) c {} = some ({ first := ['\n'], broken := true }, c') ∧
      Stands c' r k := by
  have hline := Cursor.skipLine_of_ne (by decide) hc
  have hlength : c.rest.length = c.skipLine.rest.length + 1 := by rw [hc, hline.rest]; rfl
  have hbreak : c.lineBreak = ['\n'] := Cursor.lineBreak_eq (.inl rfl) hc
  refine ⟨c.skipLine.advance k, ?_, ?_, ?_⟩
  · rw [readGap_break rfl rfl hc, hlength, hbreak]
    exact readGap_spaces_broken hr hline.rest rfl
  · have h := Cursor.rest_advance (x := Writer.spaces k) hline.rest
    rwa [show (Writer.spaces k).length = k from List.length_replicate] at h
  · rw [Cursor.column_advance, hline.column, Nat.zero_add]

end Gaps

/-! ### Plain scalars -/

section Plain

variable {margin : Int} {c : Cursor}

/-- Whether a plain scalar can go on with these characters: no colon among them stands in front of a gap. -/
def isFluent (w r : List Char) : Prop :=
  (∀ d ∈ w, isGap (some d) = false) ∧ ∀ x y, w = x ++ ':' :: y → isGap (y ++ r).head? = false

theorem isFluent_tail {d : Char} {w r : List Char} (h : isFluent (d :: w) r) : isFluent w r :=
  ⟨fun e he => h.1 e (List.mem_cons_of_mem _ he), fun x y hxy => h.2 (d :: x) y (by rw [hxy]; rfl)⟩

/-- A part of a plain scalar ends in front of a gap, and of a colon in front of one. -/
theorem readPlainPart_fluent {w r : List Char} (hw : isFluent w r)
    (hr : isGap r.head? = true ∨ ∃ y, r = ':' :: y ∧ isGap y.head? = true) (hc : c.rest = w ++ r)
    {n : Nat} (hn : w.length < n) (text : List Char) :
    readPlainPart false n c text = some (w.reverse ++ text, c.advance w.length) := by
  induction w generalizing c n text with
  | nil =>
    obtain ⟨n, rfl⟩ := Nat.exists_eq_succ_of_ne_zero (Nat.ne_of_gt hn)
    unfold readPlainPart
    rw [Cursor.peek_zero, Cursor.peek_one, hc, List.nil_append]
    rcases hr with hr | ⟨y, rfl, hy⟩
    · cases r with
      | nil => rfl
      | cons d ds =>
        rw [List.head?_cons, isGap_some] at hr
        simp only [List.head?_cons, hr, if_true]
        rfl
    · simp [hy, isSpace, isBreak, Cursor.advance_zero]
  | cons d ds ih =>
    obtain ⟨n, rfl⟩ := Nat.exists_eq_succ_of_ne_zero (Nat.ne_of_gt (Nat.zero_lt_of_lt hn))
    have hrest : (c.advance 1).rest = ds ++ r := Cursor.rest_advance (x := [d]) hc
    have hd := hw.1 d List.mem_cons_self
    rw [isGap_some] at hd
    have hcolon : (decide (d = ':') && isGap (ds ++ r).head?) = false := by
      by_cases hcolon : d = ':'
      · subst hcolon
        rw [hw.2 [] ds rfl, Bool.and_false]
      · rw [decide_eq_false hcolon, Bool.false_and]
    unfold readPlainPart
    rw [Cursor.peek_zero, Cursor.peek_one, hc]
    simp only [List.cons_append, List.head?_cons, List.tail_cons, hd, hcolon, Bool.false_and,
      Bool.or_false, Bool.false_eq_true, if_false]
    rw [ih (isFluent_tail hw) hrest (Nat.lt_of_succ_lt_succ hn), Cursor.advance_advance,
      List.reverse_cons, List.append_assoc, List.length_cons, Nat.add_comm]
    rfl

/-- What a text has to be, where a plain scalar goes on with it, to be read as itself. -/
structure Continues (s : List Char) : Prop where
  line : ∀ d ∈ s, isBreak d = false
  colon : ∀ x y, s = x ++ ':' :: y → isGap y.head? = false
  hash : ∀ x d y, s = x ++ d :: '#' :: y → isGap (some d) = false
  last : s.getLast?.any isSpace = false

theorem Continues.of_append {x y : List Char} (h : Continues (x ++ y)) (hy : y ≠ []) : Continues y where
  line d hd := h.line d (List.mem_append_right _ hd)
  colon a b hab := h.colon (x ++ a) b (by rw [hab, List.append_assoc])
  hash a d b hab := h.hash (x ++ a) d b (by rw [hab, List.append_assoc])
  last := by
    have := h.last
    rwa [List.getLast?_append_of_ne_nil _ hy] at this

theorem of_holdsMark {before : Char} {s : List Char} (h : Writer.holdsMark before s = false) :
    (∀ x y, s = x ++ ':' :: y → isGap y.head? = false) ∧
      ∀ x d y, before :: s = x ++ d :: '#' :: y → isGap (some d) = false := by
  induction s generalizing before with
  | nil =>
    refine ⟨fun x y hxy => ?_, fun x d y hxy => ?_⟩
    · cases x <;> cases hxy
    · rcases x with _ | ⟨e, _ | ⟨f, x⟩⟩ <;> cases hxy
  | cons c cs ih =>
    unfold Writer.holdsMark at h
    simp only [Bool.or_eq_false_iff] at h
    obtain ⟨⟨hcolon, hhash⟩, h⟩ := h
    obtain ⟨ihcolon, ihhash⟩ := ih h
    refine ⟨fun x y hxy => ?_, fun x d y hxy => ?_⟩
    · cases x with
      | nil =>
        obtain ⟨rfl, rfl⟩ := List.cons.inj hxy
        simpa using hcolon
      | cons e x => exact ihcolon x y (List.cons.inj hxy).2
    · cases x with
      | nil =>
        obtain ⟨rfl, htail⟩ := List.cons.inj hxy
        obtain ⟨rfl, rfl⟩ := List.cons.inj htail
        simpa using hhash
      | cons e x => exact ihhash x d y (List.cons.inj hxy).2

/-- A legible text can begin a plain scalar, and the scalar can go on with all of it. -/
theorem continues_of_isLegible {s : List Char} (h : isLegible s = true) :
    Continues s ∧ ∃ d ds, s = d :: ds ∧ isGap (some d) = false ∧ d ≠ '#' := by
  cases s with
  | nil => cases h
  | cons d ds =>
    rw [isLegible_cons, Bool.not_eq_true'] at h
    simp only [Bool.or_eq_false_iff] at h
    obtain ⟨⟨⟨⟨⟨hgap, hlead⟩, hmark⟩, hholds⟩, hbreak⟩, hlast⟩ := h
    obtain ⟨hcolon, hhash⟩ := of_holdsMark hholds
    refine ⟨⟨?_, fun x y hxy => ?_, hhash, hlast⟩, d, ds, rfl, hgap, ?_⟩
    · rw [isGap_some, Bool.or_eq_false_iff] at hgap
      exact List.forall_mem_cons.2 ⟨hgap.2, fun e he => by simpa using List.any_eq_false.1 hbreak e he⟩
    · cases x with
      | nil =>
        obtain ⟨rfl, rfl⟩ := List.cons.inj hxy
        simpa using hmark
      | cons e x => exact hcolon x y (List.cons.inj hxy).2
    · rintro rfl
      cases hlead

theorem isClear_cons {d : Char} (hd : isGap (some d) = false) (ds : List Char) : isClear (d :: ds) = true := by
  simp [isClear, hd]

/-- A text is a run of characters of one kind, and what starts with none of them. -/
theorem exists_run (p : Char → Bool) (s : List Char) :
    ∃ w r, s = w ++ r ∧ (∀ e ∈ w, p e = true) ∧ ∀ e ∈ r.head?, p e = false := by
  refine ⟨s.takeWhile p, s.dropWhile p, List.takeWhile_append_dropWhile.symm,
    fun e he => List.mem_takeWhile_imp he, fun e he => ?_⟩
  have := List.head?_dropWhile_not p s
  rw [Option.mem_def.1 he] at this
  simpa using this

/-- One round of reading a plain scalar: a part of it, and the gap behind that. -/
theorem readPlain_round {w p text : List Char} {c' : Cursor} {g : Gap} (hmark : c.atDocumentMark = false)
    (hhash : c.peek 0 ≠ some '#')
    (hpart : readPlainPart false (c.rest.length + 1) c [] = some (w.reverse, c.advance w.length))
    (hw : w ≠ [])
    (hblank : isGap ((c.advance w.length).rest.head?) = true) (hrest : (c.advance w.length).rest ≠ [])
    (hgap : readGap margin ((c.advance w.length).rest.length + 1) (c.advance w.length) {} = some (g, c'))
    (n : Nat) :
    readPlain false margin (n + 1) c text { spaces := p } =
      if (c'.column : Int) < margin then some ((w.reverse ++ (p ++ text)).reverse, c', g.broken)
      else readPlain false margin n c' (w.reverse ++ (p ++ text)) g := by
  have hpeek : ((c.advance w.length).peek 0).any (fun ch => isSpace ch || isBreak ch) = true := by
    rw [Cursor.peek_zero]
    cases hr : (c.advance w.length).rest with
    | nil => exact absurd hr hrest
    | cons e es => rwa [hr] at hblank
  have hempty : w.reverse.isEmpty = false := by simpa using hw
  conv_lhs => unfold readPlain
  simp only [hmark, hhash, decide_false, Bool.or_self, Bool.false_eq_true, if_false, hpart,
    Option.bind_eq_bind, Option.bind_some, hempty, hpeek, Bool.not_true, hgap, Bool.not_false, Bool.true_and,
    decide_eq_true_eq, Gap.text, List.reverse_reverse, List.append_assoc]
  rfl

/-- A plain scalar goes on to the end of its line, if that is not followed by more of it. -/
theorem readPlain_continues {s r : List Char} {k : Nat} (hr : isClear r = true) (hk : (k : Int) < margin)
    (hs : Continues s) (hhead : ∃ d ds, s = d :: ds ∧ isGap (some d) = false ∧ d ≠ '#')
    (hmargin : margin ≤ c.column) (hc : c.rest = s ++ '\n' :: (Writer.spaces k ++ r)) {n : Nat}
    (hn : s.length < n) (text sp : List Char) :
    ∃ c', readPlain false margin n c text { spaces := sp.reverse } =
        some (text.reverse ++ (sp ++ s), c', true) ∧ Stands c' r k := by
  induction n generalizing s c text sp with
  | zero => cases hn
  | succ n ih =>
    obtain ⟨w, s', hsplit, hw, hstop⟩ := exists_run (fun e => !isGap (some e)) s
    have hfluent : isFluent w (s' ++ '\n' :: (Writer.spaces k ++ r)) := by
      refine ⟨fun e he => by simpa using hw e he, fun x y hxy => ?_⟩
      have := hs.colon x (y ++ s') (by rw [hsplit, hxy, List.append_assoc]; rfl)
      rw [← List.append_assoc]
      cases hys : y ++ s' <;> rw [hys] at this
      · cases this
      · exact this
    obtain ⟨d, ds, hds, hd, hhash⟩ := hhead
    have hwne : w ≠ [] := by
      rintro rfl
      have := hstop d (by rw [← List.nil_append s', ← hsplit, hds]; rfl)
      rw [hd] at this
      cases this
    rw [hsplit, List.append_assoc] at hc
    have hgap : isGap (s' ++ '\n' :: (Writer.spaces k ++ r)).head? = true := by
      cases s' with
      | nil => rfl
      | cons e es => simpa using hstop e rfl
    have hpart := readPlainPart_fluent hfluent (.inl hgap) hc
      (show w.length < c.rest.length + 1 by rw [hc, List.length_append]; omega) []
    have hrest := Cursor.rest_advance hc
    have hpeek : c.peek 0 = some d := by
      rw [Cursor.peek_zero, hc, ← List.append_assoc, ← hsplit, hds]
      rfl
    have hcolumn : c.column ≠ 0 := by omega
    have hround : ∀ {g : Gap} {c' : Cursor}, readGap margin ((c.advance w.length).rest.length + 1)
        (c.advance w.length) {} = some (g, c') → readPlain false margin (n + 1) c text { spaces := sp.reverse } =
          if (c'.column : Int) < margin then some ((w.reverse ++ (sp.reverse ++ text)).reverse, c', g.broken)
          else readPlain false margin n c' (w.reverse ++ (sp.reverse ++ text)) g :=
      fun h => readPlain_round (Cursor.atDocumentMark_of_column hcolumn)
        (by rw [hpeek]; simpa using hhash) (by rw [hpart, List.append_nil]) hwne
        (by rw [hrest]; exact hgap) (by rw [hrest]; simp) h n
    cases s' with
    | nil =>
      -- the last word: the line ends, and the next one belongs to something else
      obtain ⟨c', hline, hc'⟩ := readGap_line margin hr hrest
      refine ⟨c', ?_, hc'⟩
      rw [hround hline, if_pos (by rw [hc'.column]; exact hk), hsplit]
      simp
    | cons e es =>
      -- blanks stand between two words of the line
      obtain ⟨gap, s'', hsplit', hspaces, hstop'⟩ := exists_run isSpace (e :: es)
      have hne : s'' ≠ [] := by
        rintro rfl
        have hlast := hs.last
        rw [hsplit, List.getLast?_append_of_ne_nil _ (List.cons_ne_nil e es),
          List.getLast?_eq_some_getLast (List.cons_ne_nil e es), Option.any_some] at hlast
        rw [List.append_nil] at hsplit'
        rw [hspaces _ (hsplit' ▸ List.getLast_mem (List.cons_ne_nil e es))] at hlast
        cases hlast
      have hcontinues : Continues s'' := by
        rw [hsplit, hsplit', ← List.append_assoc] at hs
        exact hs.of_append hne
      have hgapne : gap ≠ [] := by
        rintro rfl
        have hspace := hstop' e (by rw [← List.nil_append s'', ← hsplit']; rfl)
        have hbreak := hs.line e (by rw [hsplit]; simp)
        have := hstop e rfl
        rw [isGap_some, hspace, hbreak] at this
        cases this
      obtain ⟨f, fs, rfl⟩ := List.exists_cons_of_ne_nil hne
      have hf : isGap (some f) = false := by
        rw [isGap_some, hstop' f rfl, hcontinues.line f List.mem_cons_self]
        rfl
      have hfhash : f ≠ '#' := by
        rintro rfl
        obtain ⟨init, last, rfl⟩ : ∃ init last, gap = init ++ [last] :=
          ⟨_, _, (List.dropLast_append_getLast hgapne).symm⟩
        have := hs.hash (w ++ init) last fs (by rw [hsplit, hsplit']; simp)
        rw [isGap_some, hspaces last (by simp)] at this
        cases this
      rw [hsplit', List.append_assoc] at hrest
      have hreadGap := readGap_spaces margin hspaces
        (isClear_cons hf (fs ++ '\n' :: (Writer.spaces k ++ r))) hrest []
      have hlength : (f :: fs).length < n := by
        rw [hsplit, hsplit', List.length_append, List.length_append] at hn
        have := List.length_pos_iff.2 hwne
        omega
      obtain ⟨c', hread, hc'⟩ := ih hcontinues ⟨f, fs, rfl, hf, hfhash⟩
        (by rw [Cursor.column_advance, Cursor.column_advance]; omega) (Cursor.rest_advance hrest) hlength
        (w.reverse ++ (sp.reverse ++ text)) gap
      refine ⟨c', ?_, hc'⟩
      rw [hround hreadGap, if_neg (by rw [Cursor.column_advance, Cursor.column_advance]; omega),
        List.append_nil, hread, hsplit, hsplit']
      simp

/-- A plain scalar is read as it is written. -/
theorem readPlain_writing {s r : List Char} {k : Nat} (hs : isLegible s = true) (hr : isClear r = true)
    (hk : (k : Int) < margin) (hmargin : margin ≤ c.column)
    (hc : c.rest = s ++ '\n' :: (Writer.spaces k ++ r)) :
    ∃ c', readPlain false margin (c.rest.length + 1) c [] {} = some (s, c', true) ∧ Stands c' r k := by
  obtain ⟨hcontinues, hhead⟩ := continues_of_isLegible hs
  exact readPlain_continues hr hk hcontinues hhead hmargin hc (by rw [hc, List.length_append]; omega) [] []

/-- The name of a field. -/
def isKey (s : List Char) : Bool := !s.isEmpty && s.length ≤ 256 && s.all Char.isLower

theorem ne_of_isLower {d e : Char} (hd : d.isLower = true) (he : e.isLower = false) : d ≠ e := by
  rintro rfl
  rw [hd] at he
  cases he

theorem isWordChar_of_isLower {d : Char} (hd : d.isLower = true) : isWordChar d = true := by
  rw [isWordChar_eq, hd]
  simp

theorem isGap_of_isLower {d : Char} (hd : d.isLower = true) : isGap (some d) = false :=
  isGap_of_isWordChar (isWordChar_of_isLower hd)

/-- A key is read up to its colon. -/
theorem readPlain_key (margin : Int) {key r : List Char} (hkey : isKey key = true) (hr : isGap r.head? = true)
    (hcolumn : c.column ≠ 0) (hc : c.rest = key ++ ':' :: r) :
    readPlain false margin (c.rest.length + 1) c [] {} = some (key, c.advance key.length, false) := by
  unfold isKey at hkey
  simp only [Bool.and_eq_true, List.all_eq_true] at hkey
  have hfluent : isFluent key (':' :: r) := by
    refine ⟨fun d hd => isGap_of_isLower (hkey.2 d hd), fun x y hxy => ?_⟩
    have := hkey.2 ':' (by rw [hxy]; simp)
    cases this
  have hpart := readPlainPart_fluent hfluent (.inr ⟨r, rfl, hr⟩) hc
    (show key.length < c.rest.length + 1 by rw [hc, List.length_append]; omega) []
  have hne : key ≠ [] := by simpa using hkey.1.1
  have hhash : c.peek 0 ≠ some '#' := by
    obtain ⟨d, ds, rfl⟩ := List.exists_cons_of_ne_nil hne
    rw [Cursor.peek_zero, hc, List.cons_append, List.head?_cons, Option.some_inj.ne]
    exact ne_of_isLower (hkey.2 d List.mem_cons_self) rfl
  have hpeek : (c.advance key.length).peek 0 = some ':' := by
    rw [Cursor.peek_zero, Cursor.rest_advance hc]
    rfl
  unfold readPlain
  simp [Cursor.atDocumentMark_of_column hcolumn, hhash, hpart, hpeek, isSpace, isBreak, hne, Gap.text]

end Plain

end Workload.Yaml

import Workload.Proofs.ArgumentLists
import Workload.Report

/-!
# Reading a report back

A report is read line by line: the status lines say what became of the entries, and the plan line at the end
how many there are.  A text of an entry that has a line feed goes on in a line of its own, though, and what
stands there is read like any other line.  So a report can be read back exactly if no text goes on with what
looks like a status line or a plan line (`report_reads_back`).
-/

namespace Workload

namespace Text

/-- The lines of a text, each of which is closed by a line feed. -/
def closedLines (s : String) : List (List Char) := (splitAt '\n' s.toList).dropLast

def firstLine (s : String) : List Char := (splitAt '\n' s.toList).headD []

/-- The lines with which a text goes on after its first one. -/
def furtherLines (s : String) : List (List Char) := (splitAt '\n' s.toList).tail

theorem splitAt_toList (s : String) : splitAt '\n' s.toList = firstLine s :: furtherLines s := by
  have hne : splitAt '\n' s.toList ≠ [] := splitAt_ne_nil s.toList
  obtain ⟨l, ls, h⟩ := List.exists_cons_of_ne_nil hne
  simp [firstLine, furtherLines, h]

/-- What stands in front of a text without a line feed stands in front of its first line. -/
theorem splitAt_append_text {x : List Char} (hx : '\n' ∉ x) (s : String) :
    splitAt '\n' (x ++ s.toList) = (x ++ firstLine s) :: furtherLines s := by
  induction x with
  | nil => exact splitAt_toList s
  | cons c cs ih =>
    simp only [List.mem_cons, not_or] at hx
    simp [splitAt, Ne.symm hx.1, ih hx.2]

end Text

open Text

/-- The lines of an entry that go on with its texts. -/
def ReportEntry.furtherLines (e : ReportEntry) : List (List Char) :=
  Text.furtherLines e.describe ++ e.detail.elim [] Text.furtherLines

namespace Report

/-! ## Lines that mean something -/

/-- Whether a line starts with a status word. -/
def isStatusLine (l : List Char) : Bool := "ok ".toList.isPrefixOf l || "not ok ".toList.isPrefixOf l

/-- Whether a line is `1..` and a number. -/
def isPlanLine (l : List Char) : Bool :=
  "1..".toList.isPrefixOf l && !(l.drop 3).isEmpty && (l.drop 3).all Char.isDigit

def statusLines (text : String) : List (List Char) := (closedLines text).filter isStatusLine

def planLines (text : String) : List (List Char) := (closedLines text).filter isPlanLine

/-- How the status line of the entry with the number `n` starts. -/
def statusStart (ok : Bool) (n : Nat) : List Char :=
  (status false ok).toList ++ ' ' :: ((toString n).toList ++ " - ".toList)

def headline (n : Nat) (e : ReportEntry) : List Char := statusStart e.ok n ++ firstLine e.describe

def planLine (n : Nat) : List Char := "1..".toList ++ (toString n).toList

theorem isDigit_of_mem_number {n : Nat} {c : Char} (h : c ∈ (toString n).toList) : c.isDigit = true := by
  rw [Nat.toString_eq_repr, Nat.toList_repr] at h
  exact Nat.isDigit_of_mem_toDigits (by decide) (by decide) h

theorem newline_not_mem_number (n : Nat) : '\n' ∉ (toString n).toList :=
  fun h => absurd (isDigit_of_mem_number h) (by decide)

theorem newline_not_mem_statusStart (ok : Bool) (n : Nat) : '\n' ∉ statusStart ok n := by
  have hword : '\n' ∉ (status false ok).toList := by cases ok <;> decide
  have hmark : '\n' ∉ " - ".toList := by decide
  simp only [statusStart, List.mem_append, List.mem_cons, hword, hmark, newline_not_mem_number, or_self, or_false]
  decide

theorem newline_not_mem_planLine (n : Nat) : '\n' ∉ planLine n := by
  simp only [planLine, List.mem_append, newline_not_mem_number, or_false]
  decide

theorem isStatusLine_headline (n : Nat) (e : ReportEntry) : isStatusLine (headline n e) = true := by
  unfold isStatusLine headline statusStart status
  cases e.ok <;> simp [List.isPrefixOf]

theorem isPlanLine_headline (n : Nat) (e : ReportEntry) : isPlanLine (headline n e) = false := by
  unfold isPlanLine headline statusStart status
  cases e.ok <;> simp [List.isPrefixOf]

theorem isStatusLine_planLine (n : Nat) : isStatusLine (planLine n) = false := by
  simp [isStatusLine, planLine, List.isPrefixOf]

theorem isPlanLine_planLine (n : Nat) : isPlanLine (planLine n) = true := by
  simp only [isPlanLine, planLine, Bool.and_eq_true, List.all_eq_true]
  refine ⟨⟨by simp [List.isPrefixOf], by simp⟩, fun c hc => isDigit_of_mem_number (n := n) ?_⟩
  simpa using hc

theorem planLine_injective {m n : Nat} (h : planLine m = planLine n) : m = n :=
  toString_injective (String.toList_inj.1 (List.append_cancel_left h))

/-! ## The lines of a report -/

/-- The lines of an entry: those of its texts, with the status and with the mark of a detail in front. -/
def entryLines (n : Nat) (e : ReportEntry) : List (List Char) :=
  headline n e :: (Text.furtherLines e.describe ++
    e.detail.elim [] fun d => ("  # ".toList ++ firstLine d) :: Text.furtherLines d)

theorem splitAt_entryText (n : Nat) (e : ReportEntry) (rest : List Char) :
    splitAt '\n' ((entryText false n e).toList ++ rest) = entryLines n e ++ splitAt '\n' rest := by
  have hhead : ∀ r, splitAt '\n' (statusStart e.ok n ++ e.describe.toList ++ '\n' :: r) =
      headline n e :: Text.furtherLines e.describe ++ splitAt '\n' r := by
    intro r
    rw [splitAt_append_sep, splitAt_append_text (newline_not_mem_statusStart e.ok n)]
    rfl
  unfold entryText entryLines
  rcases e.detail with _ | d
  · have := hhead rest
    simpa [statusStart] using this
  · have hdetail : splitAt '\n' ("  # ".toList ++ d.toList ++ '\n' :: rest) =
        ("  # ".toList ++ firstLine d) :: Text.furtherLines d ++ splitAt '\n' rest := by
      rw [splitAt_append_sep, splitAt_append_text (by decide)]
    have := hhead ("  # ".toList ++ d.toList ++ '\n' :: rest)
    rw [hdetail] at this
    simpa [statusStart] using this

theorem splitAt_entriesText (n : Nat) (es : List ReportEntry) (rest : List Char) :
    splitAt '\n' ((entriesText false n es).toList ++ rest) =
      (es.zipIdx n).flatMap (fun p => entryLines p.2 p.1) ++ splitAt '\n' rest := by
  induction es generalizing n with
  | nil => rfl
  | cons e es ih =>
    simp only [entriesText, String.toList_append, List.append_assoc, splitAt_entryText, ih,
      List.zipIdx_cons, List.flatMap_cons]

/-- The lines of a report are those of its entries, and the plan line. -/
theorem closedLines_render (es : List ReportEntry) :
    closedLines (render ⟨es, false⟩) =
      (es.zipIdx 1).flatMap (fun p => entryLines p.2 p.1) ++ [planLine es.length] := by
  have hplan : splitAt '\n' (planLine es.length ++ ['\n']) = [planLine es.length, []] := by
    rw [splitAt_append_sep, splitAt_of_not_mem (newline_not_mem_planLine es.length)]
    rfl
  have hlines := splitAt_entriesText 1 es (planLine es.length ++ ['\n'])
  rw [hplan] at hlines
  have htext : (render ⟨es, false⟩).toList =
      (entriesText false 1 es).toList ++ (planLine es.length ++ ['\n']) := by
    simp [render, planLine]
  rw [closedLines, htext, hlines, List.dropLast_append_of_ne_nil (by simp)]
  rfl

section Reading

variable {es es' : List ReportEntry}

theorem filter_entryLines {p : List Char → Bool} (hdetail : ∀ l, p ("  # ".toList ++ l) = false) (n : Nat)
    (e : ReportEntry) :
    (entryLines n e).filter p = [headline n e].filter p ++ e.furtherLines.filter p := by
  unfold entryLines ReportEntry.furtherLines
  rcases e.detail with _ | d
  · by_cases h : p (headline n e) = true <;> simp [h]
  · have hd := hdetail (firstLine d)
    by_cases h : p (headline n e) = true <;>
      simp only [Option.elim_some, List.filter_cons, List.filter_append, List.filter_nil, h, hd] <;> simp

/-- The status lines of a report: one for each entry, and after it those with which its texts go on. -/
theorem statusLines_render (es : List ReportEntry) :
    statusLines (render ⟨es, false⟩) =
      (es.zipIdx 1).flatMap fun p => headline p.2 p.1 :: p.1.furtherLines.filter isStatusLine := by
  have hdetail : ∀ l, isStatusLine ("  # ".toList ++ l) = false := by simp [isStatusLine, List.isPrefixOf]
  rw [statusLines, closedLines_render, List.filter_append, List.filter_flatMap]
  simp [filter_entryLines hdetail, isStatusLine_headline, isStatusLine_planLine]

/-- The plan lines of a report: those with which texts go on, and the last line. -/
theorem planLines_render (es : List ReportEntry) :
    planLines (render ⟨es, false⟩) =
      (es.flatMap fun e => e.furtherLines.filter isPlanLine) ++ [planLine es.length] := by
  have hdetail : ∀ l, isPlanLine ("  # ".toList ++ l) = false := by simp [isPlanLine, List.isPrefixOf]
  have hentries : ((es.zipIdx 1).flatMap fun p => (entryLines p.2 p.1).filter isPlanLine) =
      es.flatMap fun e => e.furtherLines.filter isPlanLine := by
    conv_rhs => rw [← List.zipIdx_map_fst 1 es, List.flatMap_map]
    simp [filter_entryLines hdetail, isPlanLine_headline]
  rw [planLines, closedLines_render, List.filter_append, List.filter_flatMap, hentries]
  simp [isPlanLine_planLine]

theorem getLast?_closedLines_render (es : List ReportEntry) :
    (closedLines (render ⟨es, false⟩)).getLast? = some (planLine es.length) := by
  rw [closedLines_render, List.getLast?_concat]

/-- There are as many status lines as entries just if no text goes on with one. -/
theorem length_statusLines_iff :
    (statusLines (render ⟨es, false⟩)).length = es.length ↔
      ∀ e ∈ es, ∀ l ∈ e.furtherLines, isStatusLine l = false := by
  have hcount : ∀ n, ((es.zipIdx n).flatMap fun p =>
        headline p.2 p.1 :: p.1.furtherLines.filter isStatusLine).length =
      es.length + (es.flatMap fun e => e.furtherLines.filter isStatusLine).length := by
    induction es with
    | nil => intro n; rfl
    | cons e es ih =>
      intro n
      simp only [List.zipIdx_cons, List.flatMap_cons, List.length_append, List.length_cons, ih]
      omega
  rw [statusLines_render, hcount, Nat.add_eq_left, List.length_eq_zero_iff, List.flatMap_eq_nil_iff]
  simp [List.filter_eq_nil_iff]

theorem statusLines_of_clean (h : ∀ e ∈ es, ∀ l ∈ e.furtherLines, isStatusLine l = false) :
    statusLines (render ⟨es, false⟩) = (es.zipIdx 1).map fun p => headline p.2 p.1 := by
  rw [statusLines_render, List.map_eq_flatMap]
  refine List.flatMap_congr fun p hp => ?_
  rw [List.filter_eq_nil_iff.2 fun l hl => by simp [h p.1 (List.fst_mem_of_mem_zipIdx hp) l hl]]

/-- The status words of a report without further status lines are the outcomes. -/
theorem outcomes_of_clean (h : ∀ e ∈ es, ∀ l ∈ e.furtherLines, isStatusLine l = false) :
    (statusLines (render ⟨es, false⟩)).map ("ok ".toList.isPrefixOf ·) = es.map (·.ok) := by
  have hword : ∀ p : ReportEntry × Nat, "ok ".toList.isPrefixOf (headline p.2 p.1) = p.1.ok := by
    intro p
    unfold headline statusStart status
    cases p.1.ok <;> simp [List.isPrefixOf]
  rw [statusLines_of_clean h, List.map_map]
  conv_rhs => rw [← List.zipIdx_map_fst 1 es, List.map_map]
  exact List.map_congr_left fun p _ => hword p

end Reading

/-- What a reader takes for granted about the report of a sequence of entries. -/
structure ReadsBack (es : List ReportEntry) : Prop where
  entries : (statusLines (render ⟨es, false⟩)).length = es.length
  outcomes : ∀ i e, es[i]? = some e →
    ∃ l, (statusLines (render ⟨es, false⟩))[i]? = some l ∧ statusStart e.ok (i + 1) <+: l
  plan : planLines (render ⟨es, false⟩) = [planLine es.length]
  last : (closedLines (render ⟨es, false⟩)).getLast? = some (planLine es.length)

/-- A report can be read back just if none of its texts goes on with what looks like a status line or a plan
line, and if none goes on with a status line, then every sequence that is printed the same has the same
outcomes. -/
theorem report_reads_back (es : List ReportEntry) :
    (ReadsBack es ↔ ∀ e ∈ es, ∀ l ∈ e.furtherLines, isStatusLine l = false ∧ isPlanLine l = false) ∧
      ((∀ e ∈ es, ∀ l ∈ e.furtherLines, isStatusLine l = false) →
        ∀ es', render ⟨es', false⟩ = render ⟨es, false⟩ → es'.map (·.ok) = es.map (·.ok)) := by
  refine ⟨⟨fun h e he l hl => ⟨length_statusLines_iff.1 h.entries e he l hl, ?_⟩, fun h => ?_⟩, ?_⟩
  · have hplan := h.plan
    rw [planLines_render, List.append_left_eq_self, List.flatMap_eq_nil_iff] at hplan
    simpa using List.filter_eq_nil_iff.1 (hplan e he) l hl
  · have hstatus := fun e he l hl => (h e he l hl).1
    refine ⟨length_statusLines_iff.2 hstatus, fun i e hi => ?_, ?_, getLast?_closedLines_render es⟩
    · refine ⟨headline (i + 1) e, ?_, List.prefix_append _ _⟩
      simp [statusLines_of_clean hstatus, hi, Nat.add_comm]
    · have hplan : (es.flatMap fun e => e.furtherLines.filter isPlanLine) = [] :=
        List.flatMap_eq_nil_iff.2 fun e he => List.filter_eq_nil_iff.2 fun l hl => by simp [(h e he l hl).2]
      rw [planLines_render, hplan, List.nil_append]
  · intro hclean es' hsame
    -- The last line gives the number of entries, so the other sequence has no room for a further status line.
    have hlast := getLast?_closedLines_render es'
    rw [hsame, getLast?_closedLines_render, Option.some_inj] at hlast
    have hlen := length_statusLines_iff.2 hclean
    rw [← hsame, planLine_injective hlast] at hlen
    rw [← outcomes_of_clean hclean, ← outcomes_of_clean (length_statusLines_iff.1 hlen), hsame]

theorem report_reads_back_retry :
    ReadsBack [⟨true, "start busybox", none⟩, ⟨false, "load", some "connection lost\nretry later"⟩] ∧
      ∀ es', render ⟨es', false⟩ = "ok 1 - start busybox\nnot ok 2 - load\n  # connection lost\nretry later\n1..2\n" →
        es'.map (·.ok) = [true, false] :=
  have h := report_reads_back [⟨true, "start busybox", none⟩, ⟨false, "load", some "connection lost\nretry later"⟩]
  ⟨h.1.2 (by decide), fun es' hes' => h.2 (by decide) es' hes'⟩

/-- The output of a failed command can go on with a status line, and is then read as one more entry; and two
sequences of different outcomes can be printed the same. -/
theorem report_misread :
    ¬ ReadsBack [⟨false, "load", some "lost\nok 2 - load"⟩] ∧
      ∃ es es' : List ReportEntry, render ⟨es', false⟩ = render ⟨es, false⟩ ∧ es'.map (·.ok) ≠ es.map (·.ok) := by
  refine ⟨fun h => absurd h.entries (by decide), [⟨true, "x\nnot ok 2 - y\n  # d", none⟩, ⟨true, "z", none⟩],
    [⟨true, "x", none⟩, ⟨false, "y", some "d\nok 2 - z"⟩], by decide, by decide⟩

end Report

end Workload

import Workload.Proofs.Blocks
import Workload.Proofs.Expansions

/-!
# Conditions that compare

A condition that compares an alias with a text is decided after the handle has taken the place of the alias.
So the handle has a part in where the text is cut: one that contains `!=` is cut there itself, and the
condition then says that what stands before and after that differs, whichever comparison was written
(`condition_compares`).  Any other handle makes a condition hold only as the comparison says, and one of
several lines makes none hold.
-/

namespace Workload

namespace Text

theorem dropStart?_append_sep {pat : List Char} {c : Char} (hc : c ∉ pat) (x y : List Char) :
    dropStart? pat (x ++ c :: y) = (dropStart? pat x).map (· ++ c :: y) := by
  induction pat generalizing x with
  | nil => cases x <;> rfl
  | cons p ps ih =>
    rw [List.mem_cons, not_or] at hc
    cases x with
    | nil => exact if_neg (Ne.symm hc.1)
    | cons d ds =>
      rw [List.cons_append]
      unfold dropStart?
      split_ifs
      · exact ih hc.2 ds
      · rfl

theorem cutAt_cons (pat : List Char) (c : Char) (cs : List Char) :
    cutAt pat (c :: cs) =
      match dropStart? pat (c :: cs) with
      | some rest => some ([], rest)
      | none => (cutAt pat cs).map fun r => (c :: r.1, r.2) :=
  rfl

/-- A text is cut in front of a character that the separator does not have, or else after it. -/
theorem cutAt_append_sep {pat : List Char} {c : Char} (hpat : pat ≠ []) (hc : c ∉ pat) (x y : List Char) :
    cutAt pat (x ++ c :: y) = ((cutAt pat x).map fun p => (p.1, p.2 ++ c :: y)).or
      ((cutAt pat y).map fun p => (x ++ c :: p.1, p.2)) := by
  induction x with
  | nil =>
    have hnone : dropStart? pat (c :: y) = none := by
      have h := dropStart?_append_sep hc [] y
      obtain ⟨p, ps, rfl⟩ := List.exists_cons_of_ne_nil hpat
      exact h
    have hempty : cutAt pat [] = none := if_neg (by simpa using hpat)
    rw [List.nil_append, hempty, cutAt_cons, hnone]
    rfl
  | cons d ds ih =>
    have hdrop := dropStart?_append_sep hc (d :: ds) y
    rw [List.cons_append] at hdrop ⊢
    rw [cutAt_cons, cutAt_cons, hdrop]
    cases dropStart? pat (d :: ds) with
    | some rest => rfl
    | none =>
      simp only [Option.map_none]
      rw [ih]
      cases cutAt pat ds <;> cases cutAt pat y <;> rfl

/-- A text without the first character of the separator is not cut. -/
theorem cutAt_of_not_mem {c : Char} {pat s : List Char} (h : c ∉ s) : cutAt (c :: pat) s = none := by
  cases hcut : cutAt (c :: pat) s with
  | none => rfl
  | some r =>
    rw [cutAt_eq_some hcut] at h
    simp at h

/-- A text is cut at the first occurrence. -/
theorem not_within_of_cutAt {pat s l r : List Char} (hpat : pat ≠ []) (h : cutAt pat s = some (l, r)) :
    ¬pat <:+: l := by
  induction s generalizing l with
  | nil =>
    unfold cutAt at h
    rw [if_neg (by simpa using hpat)] at h
    cases h
  | cons c cs ih =>
    rw [cutAt_cons] at h
    cases hd : dropStart? pat (c :: cs) with
    | some rest =>
      rw [hd] at h
      cases h
      exact fun hwithin => hpat (List.infix_nil.1 hwithin)
    | none =>
      rw [hd] at h
      obtain ⟨⟨l', r'⟩, hcut, heq⟩ := Option.map_eq_some_iff.1 h
      cases heq
      intro hwithin
      rcases List.infix_cons_iff.1 hwithin with hprefix | hwithin
      · obtain ⟨t, ht⟩ := hprefix
        have hcons : c :: cs = pat ++ (t ++ (pat ++ r')) := by
          rw [cutAt_eq_some hcut, ← List.append_assoc pat, ht, List.cons_append]
        rw [hcons, dropStart?_append] at hd
        cases hd
      · exact ih hcut hwithin

theorem trim_append_blank {c : Char} (hc : isBlank c = true) (s : List Char) : trim (s ++ [c]) = trim s := by
  have hend : ∀ s, trimEnd (s ++ [c]) = trimEnd s := by
    intro s
    unfold trimEnd
    rw [List.reverse_append, List.reverse_singleton, List.singleton_append,
      List.dropWhile_cons_of_pos hc]
  unfold trim
  rw [show trimStart (s ++ [c]) = if (trimStart s).isEmpty then trimStart [c] else trimStart s ++ [c] from
    List.dropWhile_append]
  split_ifs with hs
  · rw [List.isEmpty_iff.1 hs]
    unfold trimStart
    rw [List.dropWhile_cons_of_pos hc]
    rfl
  · exact hend _

theorem trim_cons_blank {c : Char} (hc : isBlank c = true) (s : List Char) : trim (c :: s) = trim s := by
  unfold trim trimStart
  rw [List.dropWhile_cons_of_pos hc]

theorem trim_within (s : List Char) : trim s <:+: s := by
  have hend : ∀ s, trimEnd s <+: s := by
    intro s
    unfold trimEnd
    rw [← List.reverse_suffix, List.reverse_reverse]
    exact List.dropWhile_suffix _
  exact (hend _).isInfix.trans (List.dropWhile_suffix _).isInfix

/-- Trimming leaves two characters in a row that are not blank. -/
theorem pair_within_trim {a b : Char} (ha : isBlank a = false) (hb : isBlank b = false) (x y : List Char) :
    [a, b] <:+: trim (x ++ a :: b :: y) := by
  have htrim : trim (x ++ a :: b :: y) = trimStart x ++ a :: b :: trimEnd y := by
    unfold trim
    rw [trimStart_append_sep ha]
    unfold trimEnd
    have h := trimStart_append_sep hb y.reverse (a :: (trimStart x).reverse)
    unfold trimStart at h ⊢
    simp [h]
  rw [htrim]
  exact ⟨trimStart x, trimEnd y, by simp⟩

end Text

namespace Expression

theorem parseBool_boolText (b : Bool) : parseBool (boolText b) = .ok b := by
  cases b <;> decide +kernel

/-- How truth is written. -/
def trueTexts : List String := ["1", "t", "T", "TRUE", "true", "True"]

theorem mem_of_parseBool {value : String} (h : parseBool value = .ok true) :
    Text.trimmed value ∈ trueTexts := by
  unfold parseBool at h
  simp only [] at h
  split_ifs at h with htrue hfalse
  · exact htrue
  · cases h

/-- No text of several lines with an equals sign says that something is true. -/
theorem decideCondition_of_lines {input : String} (hlines : '\n' ∈ input.toList) (heq : '=' ∈ input.toList) :
    decideCondition input ≠ .ok true := by
  intro h
  have hcompare : compare input = input := by
    unfold compare
    simp [hlines]
  unfold decideCondition at h
  rw [hcompare] at h
  have htexts : ∀ t ∈ trueTexts, '=' ∉ t.toList := by decide +kernel
  refine htexts _ (mem_of_parseBool h) ?_
  unfold Text.trimmed
  rw [String.toList_ofList]
  exact Text.mem_trim (by decide) heq

/-- On one line the first `!=` decides, or else the first `==`. -/
theorem decideCondition_of_line {input : String} (hlines : '\n' ∉ input.toList) {l r : List Char} :
    (Text.cutAt ['!', '='] input.toList = some (l, r) →
      decideCondition input = .ok (Text.trim l != Text.trim r)) ∧
    (Text.cutAt ['!', '='] input.toList = none → Text.cutAt ['=', '='] input.toList = some (l, r) →
      decideCondition input = .ok (Text.trim l == Text.trim r)) := by
  have hcontains : ¬input.toList.contains '\n' = true := by simpa using hlines
  unfold decideCondition compare
  simp only []
  rw [if_neg hcontains]
  refine ⟨fun hne => ?_, fun hne heq => ?_⟩
  · rw [hne]
    exact parseBool_boolText _
  · rw [hne, heq]
    exact parseBool_boolText _

/-- A text that can be compared with as it is. -/
structure Comparable (w : String) : Prop where
  operators : '=' ∉ w.toList ∧ '!' ∉ w.toList
  names : '$' ∉ w.toList ∧ '{' ∉ w.toList
  line : '\n' ∉ w.toList

section Comparing

variable {v w : String}

theorem trimmed_eq_iff {x y : String} :
    Text.trimmed x = Text.trimmed y ↔ Text.trim x.toList = Text.trim y.toList :=
  String.ofList_inj

/-- A text that has an operator in it is cut there, and its parts are as little equal as the texts that were
to be compared; any other one is cut between these. -/
theorem cutAt_operator {a b : Char} (ha : Text.isBlank a = false) (hb : Text.isBlank b = false)
    (hw : a ∉ w.toList) :
    ∃ l r, Text.cutAt [a, b] (v.toList ++ ' ' :: a :: b :: ' ' :: w.toList) = some (l, r) ∧
      (Text.trim l = Text.trim r ↔ Text.trimmed v = Text.trimmed w) := by
  have hblank : ' ' ∉ [a, b] := by
    intro h
    rcases List.mem_cons.1 h with rfl | h
    · cases ha
    · rw [← List.mem_singleton.1 h] at hb
      cases hb
  have hhere : Text.cutAt [a, b] (a :: b :: ' ' :: w.toList) = some ([], ' ' :: w.toList) := by
    have hdrop : Text.dropStart? [a, b] (a :: b :: ' ' :: w.toList) = some (' ' :: w.toList) :=
      Text.dropStart?_append [a, b] (' ' :: w.toList)
    rw [Text.cutAt_cons, hdrop]
  have hcut := Text.cutAt_append_sep (by simp) hblank v.toList (a :: b :: ' ' :: w.toList)
  rw [hhere] at hcut
  rw [hcut]
  cases hv : Text.cutAt [a, b] v.toList with
  | none =>
    refine ⟨_, _, rfl, ?_⟩
    rw [trimmed_eq_iff, Text.trim_append_blank (by decide), Text.trim_cons_blank (by decide)]
  | some p =>
    refine ⟨_, _, rfl, iff_of_false (fun h => ?_) fun h => ?_⟩
    · have hwithin := Text.pair_within_trim ha hb (p.2 ++ [' ']) (' ' :: w.toList)
      rw [List.append_assoc, List.singleton_append, ← h] at hwithin
      exact Text.not_within_of_cutAt (by simp) hv (hwithin.trans (Text.trim_within _))
    · have hmem : a ∈ v.toList := by
        rw [Text.cutAt_eq_some hv]
        simp
      rw [trimmed_eq_iff] at h
      exact hw ((Text.trim_within _).subset (h ▸ Text.mem_trim ha hmem))

/-- When an equation with a text without operators holds. -/
theorem decideCondition_equal (hw : Comparable w) :
    decideCondition (v ++ " == " ++ w) = .ok true ↔ '\n' ∉ v.toList ∧
      match Text.cut? "!=" v with
      | some (l, r) => Text.trimmed l ≠ Text.trimmed (r ++ " == " ++ w)
      | none => Text.trimmed v = Text.trimmed w := by
  have htext : (v ++ " == " ++ w).toList = v.toList ++ ' ' :: '=' :: '=' :: ' ' :: w.toList := by simp
  by_cases hv : '\n' ∈ v.toList
  · exact iff_of_false (decideCondition_of_lines (by simp [hv]) (by simp)) fun h => h.1 hv
  have hline : '\n' ∉ (v ++ " == " ++ w).toList := by
    have := hw.line
    simp [hv, this]
  have hnone : Text.cutAt ['!', '='] ('=' :: '=' :: ' ' :: w.toList) = none := by
    have := hw.operators.2
    exact Text.cutAt_of_not_mem (by simp [this])
  have hpattern : ['!', '='] ≠ [] := List.cons_ne_nil _ _
  have hcut := Text.cutAt_append_sep hpattern (show ' ' ∉ ['!', '='] by decide) v.toList
    ('=' :: '=' :: ' ' :: w.toList)
  rw [hnone, ← htext] at hcut
  rw [and_iff_right hv]
  unfold Text.cut?
  rw [show "!=".toList = ['!', '='] from rfl]
  cases hbang : Text.cutAt ['!', '='] v.toList with
  | some p =>
    rw [hbang] at hcut
    rw [(decideCondition_of_line hline).1 hcut]
    simp [trimmed_eq_iff]
  | none =>
    rw [hbang] at hcut
    obtain ⟨l, r, hequal, hiff⟩ :=
      cutAt_operator (v := v) (w := w) (by decide) (show Text.isBlank '=' = false by decide) hw.operators.1
    rw [← htext] at hequal
    rw [(decideCondition_of_line hline).2 hcut hequal]
    simpa using hiff

/-- An inequation with a text without operators holds as it says. -/
theorem decideCondition_unequal (hw : Comparable w) :
    decideCondition (v ++ " != " ++ w) = .ok true ↔
      '\n' ∉ v.toList ∧ Text.trimmed v ≠ Text.trimmed w := by
  have htext : (v ++ " != " ++ w).toList = v.toList ++ ' ' :: '!' :: '=' :: ' ' :: w.toList := by simp
  by_cases hv : '\n' ∈ v.toList
  · exact iff_of_false (decideCondition_of_lines (by simp [hv]) (by simp)) fun h => h.1 hv
  have hline : '\n' ∉ (v ++ " != " ++ w).toList := by
    have := hw.line
    simp [hv, this]
  obtain ⟨l, r, hcut, hiff⟩ :=
    cutAt_operator (v := v) (w := w) (by decide) (show Text.isBlank '=' = false by decide) hw.operators.2
  rw [← htext] at hcut
  rw [and_iff_right hv, (decideCondition_of_line hline).1 hcut, Ne, ← hiff]
  simp

end Comparing

end Expression

open Expression (VarName Phrase Expands Ranked)

namespace Scope

variable {σ : Type} {env : Environment σ} {s : Scope σ} {x v w rest : String}

/-- A name of an alias that a variable by itself stands for. -/
structure IsAlias (x : String) : Prop where
  nonempty : x ≠ ""
  other : x ≠ "loop" ∧ x ≠ "nodes"
  plain : ':' ∉ x.toList ∧ '$' ∉ x.toList ∧ '{' ∉ x.toList ∧ '}' ∉ x.toList

theorem lookup_alias (hx : IsAlias x) (ha : s.aliases.get? x = some v) : s.lookup env x = (some v, s) := by
  have hcut : Text.cut? ":" x = none := by
    unfold Text.cut?
    rw [show ":".toList = [':'] from rfl, Text.cutAt_of_not_mem hx.plain.1]
    rfl
  unfold lookup
  rw [if_neg hx.other.1, if_neg hx.other.2, hcut, ha]
  rfl

/-- An alias at the beginning of a text gives way to its handle. -/
theorem evaluate_alias (hx : IsAlias x) (ha : s.aliases.get? x = some v) (hv : '$' ∉ v.toList)
    (hrest : '$' ∉ rest.toList ∧ '{' ∉ rest.toList) :
    s.evaluate env (Expression.token x ++ rest) = (.ok (v ++ rest), s) := by
  let n : VarName := ⟨x, hx.nonempty, hx.plain.2.1, hx.plain.2.2.2⟩
  let value : VarName → Option Phrase := fun m => if m = n then some [.literal v hv] else none
  let q : Phrase := [.named n, .literal rest hrest.1]
  have hvalue : ∀ {m p}, m = n → value m = some p → p = [.literal v hv] := by
    rintro m p rfl hp
    exact (Option.some.inj ((if_pos rfl).symm.trans hp)).symm
  have hranked : Ranked value (· = n) fun _ => 0 := by
    refine ⟨fun hm hp hmem => ?_, fun hm hp hmem => ?_⟩
    all_goals
      rw [hvalue hm hp] at hmem
      cases hmem
  have hsteady : Expression.Steady (lookup env) value (· = n) (· = s) := by
    refine ⟨?_, ?_⟩
    · rintro m t rfl rfl
      rw [lookup_alias hx ha]
      simp [value, Phrase.text]
    · rintro m t rfl rfl
      exact congrArg Prod.snd (lookup_alias hx ha)
  have htext : q.text = Expression.token x ++ rest := by simp [q, n, Phrase.text]
  have hblocks : ¬['{', '{'] <:+: q.text.toList := by
    rw [htext, String.toList_append, Expression.token_toList]
    rintro ⟨pre, post, h⟩
    have hcount := congrArg (List.count '{') h
    simp [List.count_eq_zero_of_not_mem hx.plain.2.2.1, List.count_eq_zero_of_not_mem hrest.2] at hcount
    omega
  have hbelow : Expression.Below value (· = n) (fun _ => 0) 15 q := by
    intro m hm
    exact ⟨List.mem_singleton.1 hm, fun _ => Nat.zero_lt_succ _⟩
  obtain ⟨t, ht, hok, hs⟩ := Expression.evaluate_text hranked hsteady hblocks hbelow rfl
  have hexpands : Expands value q (v ++ "" ++ (rest ++ "")) :=
    .replaced (if_pos rfl) (.literal .nil) (.literal .nil)
  rw [htext] at hok hs
  rw [ht.unique hexpands, String.append_empty, String.append_empty] at hok
  unfold evaluate
  rw [show Expression.evaluate (lookup env) (Expression.token x ++ rest) s = (.ok (v ++ rest), s) from
    Prod.ext hok hs]

theorem condition_alias (hx : IsAlias x) (ha : s.aliases.get? x = some v) (hv : '$' ∉ v.toList)
    (hrest : '$' ∉ rest.toList ∧ '{' ∉ rest.toList) :
    s.condition env (Expression.token x ++ rest) = (Expression.decideCondition (v ++ rest), s) := by
  unfold condition
  rw [evaluate_alias hx ha hv hrest]
  simp only [Except.bind]

/-- An equation of an alias with a text holds just if the handle is on one line and is that text, blanks
aside, unless the handle contains the operator of inequations: then it holds if what stands before and after
that operator differs.  An inequation holds just if the handle is on one line and is not that text. -/
theorem condition_compares (hx : IsAlias x) (ha : s.aliases.get? x = some v) (hv : '$' ∉ v.toList)
    (hw : Expression.Comparable w) :
    ((s.condition env (Expression.token x ++ " == " ++ w)).1 = .ok true ↔ '\n' ∉ v.toList ∧
      match Text.cut? "!=" v with
      | some (l, r) => Text.trimmed l ≠ Text.trimmed (r ++ " == " ++ w)
      | none => Text.trimmed v = Text.trimmed w) ∧
    ((s.condition env (Expression.token x ++ " != " ++ w)).1 = .ok true ↔
      '\n' ∉ v.toList ∧ Text.trimmed v ≠ Text.trimmed w) := by
  have hcondition : ∀ operator : String, '$' ∉ operator.toList ∧ '{' ∉ operator.toList →
      (s.condition env (Expression.token x ++ operator ++ w)).1 =
        Expression.decideCondition (v ++ operator ++ w) := by
    intro operator hop
    have hrest : '$' ∉ (operator ++ w).toList ∧ '{' ∉ (operator ++ w).toList := by
      obtain ⟨h, h'⟩ := hw.names
      simp [hop.1, hop.2, h, h']
    rw [String.append_assoc, condition_alias hx ha hv hrest, ← String.append_assoc]
  rw [hcondition " == " (by decide +kernel), hcondition " != " (by decide +kernel)]
  exact ⟨Expression.decideCondition_equal hw, Expression.decideCondition_unequal hw⟩

/-- Without environment variables. -/
def aliasesAlone : Environment (World Rehearsal) :=
  Rehearsal.environment (.dev "10.0.0.1") fun _ => none

/-- A scope with a single alias. -/
def named (x v : String) : Scope (World Rehearsal) :=
  { world := { containers := {} }
    aliases := [(x, v)] }

/-- A handle of a container is that handle and no other. -/
theorem condition_compares_handle :
    IsAlias "db" ∧ (named "db" "mock-1").aliases.get? "db" = some "mock-1" ∧ '$' ∉ "mock-1".toList ∧
      Expression.Comparable "mock-1" ∧
      ((named "db" "mock-1").condition aliasesAlone "$\x7bdb\x7d == mock-1").1 = .ok true ∧
      ((named "db" "mock-1").condition aliasesAlone "$\x7bdb\x7d != mock-1").1 ≠ .ok true := by
  have hx : IsAlias "db" := ⟨by decide +kernel, by decide +kernel, by decide +kernel⟩
  have hw : Expression.Comparable "mock-1" := ⟨by decide +kernel, by decide +kernel, by decide +kernel⟩
  have ha : (named "db" "mock-1").aliases.get? "db" = some "mock-1" := by decide +kernel
  obtain ⟨hequal, hunequal⟩ :=
    @condition_compares _ aliasesAlone (named "db" "mock-1") "db" "mock-1" "mock-1" hx ha
      (by decide +kernel) hw
  refine ⟨hx, ha, by decide +kernel, hw, ?_, ?_⟩
  · have hcut : Text.cut? "!=" "mock-1" = none := by decide +kernel
    exact hequal.2 ⟨by decide +kernel, by rw [hcut]⟩
  · exact fun h => (hunequal.1 h).2 rfl

/-- An operator of a handle is taken for that of the condition: an equation holds of what is not equal. -/
theorem operator_within_handle :
    IsAlias "x" ∧ (named "x" "a!=b").aliases.get? "x" = some "a!=b" ∧
      '$' ∉ "a!=b".toList ∧ '{' ∉ "a!=b".toList ∧ Expression.Comparable "c" ∧
      ((named "x" "a!=b").condition aliasesAlone "$\x7bx\x7d == c").1 = .ok true ∧
      Text.trimmed "a!=b" ≠ Text.trimmed "c" :=
  ⟨⟨by decide +kernel, by decide +kernel, by decide +kernel⟩, by decide +kernel, by decide +kernel,
    by decide +kernel, ⟨by decide +kernel, by decide +kernel, by decide +kernel⟩, by decide +kernel,
    by decide +kernel⟩

end Scope

end Workload

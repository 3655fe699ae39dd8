import Mathlib.Data.List.Basic
import Workload.Expression.Interpolation

/-!
# Texts that are evaluated

A text without two closing braces in a row has no range block, and one without a dollar sign no variable.
The value of a variable by itself is the value it has (`evaluate_token`).
-/

namespace Workload

namespace Text

/-- Different numbers are written differently. -/
theorem toString_injective {m n : Nat} (h : toString m = toString n) : m = n := by
  have hrepr : m.repr = n.repr := h
  rw [← @Nat.ofDigitChars_ten_toDigits m, ← Nat.toList_repr, hrepr, Nat.toList_repr,
    Nat.ofDigitChars_ten_toDigits]

theorem dropStart?_append (pat s : List Char) : dropStart? pat (pat ++ s) = some s := by
  induction pat with
  | nil => cases s <;> rfl
  | cons p ps ih =>
    show (if p = p then dropStart? ps (ps ++ s) else none) = some s
    rw [if_pos rfl, ih]

theorem dropStart?_eq_some {pat s rest : List Char} (h : dropStart? pat s = some rest) :
    s = pat ++ rest := by
  induction pat generalizing s with
  | nil =>
    cases s <;> cases h <;> rfl
  | cons p ps ih =>
    cases s with
    | nil => cases h
    | cons c cs =>
      unfold dropStart? at h
      split_ifs at h with hpc
      rw [hpc, ih h, List.cons_append]

/-- What stands before the first occurrence of a character. -/
theorem takeWhile_append_sep {c : Char} {x : List Char} (hx : c ∉ x) (y : List Char) :
    (x ++ c :: y).takeWhile (· ≠ c) = x := by
  rw [List.takeWhile_append_of_pos fun d hd => by
    rw [decide_eq_true_eq]
    rintro rfl
    exact hx hd]
  simp

/-- A text is cut at the first separator: what stands before it does not have the character that starts one. -/
theorem cutAt_first {c : Char} {pre : List Char} (hpre : c ∉ pre) (pat rest : List Char) :
    cutAt (c :: pat) (pre ++ (c :: pat ++ rest)) = some (pre, rest) := by
  induction pre with
  | nil =>
    have hdrop : dropStart? (c :: pat) (c :: (pat ++ rest)) = some rest := dropStart?_append (c :: pat) rest
    rw [List.nil_append, List.cons_append]
    unfold cutAt
    rw [hdrop]
  | cons d ds ih =>
    rw [List.mem_cons, not_or] at hpre
    have hdrop : dropStart? (c :: pat) (d :: (ds ++ (c :: pat ++ rest))) = none := by
      unfold dropStart?
      rw [if_neg hpre.1]
    rw [List.cons_append]
    unfold cutAt
    rw [hdrop, ih hpre.2]
    rfl

theorem cutAt_append {sep : Char} {pre : List Char} (hpre : sep ∉ pre) (rest : List Char) :
    cutAt [sep] (pre ++ sep :: rest) = some (pre, rest) :=
  cutAt_first hpre [] rest

/-- What is skipped is left out. -/
theorem replaceFrom_skip (old new skipped s : List Char) :
    replaceFrom old new skipped.length (skipped ++ s) = replaceFrom old new 0 s := by
  induction skipped with
  | nil => rfl
  | cons c cs ih => exact ih

/-- A marker gives way to what it stands for. -/
theorem replaceFrom_append {old : List Char} (hold : old ≠ []) (new s : List Char) :
    replaceFrom old new 0 (old ++ s) = new ++ replaceFrom old new 0 s := by
  cases old with
  | nil => exact absurd rfl hold
  | cons c cs =>
    have hprefix : (c :: cs).isPrefixOf (c :: (cs ++ s)) = true := by
      rw [List.isPrefixOf_iff_prefix]
      exact ⟨s, rfl⟩
    show (if (c :: cs).isPrefixOf (c :: (cs ++ s)) = true then
      new ++ replaceFrom (c :: cs) new cs.length (cs ++ s)
      else c :: replaceFrom (c :: cs) new 0 (cs ++ s)) = _
    rw [if_pos hprefix, replaceFrom_skip]

end Text

namespace Range

/-- A text stays as it is where no block starts anywhere in it. -/
theorem expand_of_blockless {text : String} (h : ∀ s, s <:+ text.toList → block? s = none) :
    expand text = .ok text := by
  have hchars : ∀ s, s <:+ text.toList → expandFrom 0 s = .ok s := by
    intro s hs
    induction s with
    | nil => rfl
    | cons c cs ih =>
      unfold expandFrom
      rw [h _ hs]
      simp only []
      rw [ih ((List.suffix_cons c cs).trans hs)]
      rfl
  unfold expand
  rw [hchars _ List.suffix_rfl]
  simp [Except.map]

end Range

namespace Expression

theorem variablesFrom_skip (skipped s : List Char) :
    variablesFrom skipped.length (skipped ++ s) = variablesFrom 0 s := by
  induction skipped with
  | nil => rfl
  | cons c cs ih => exact ih

theorem variableAt?_of_ne {c : Char} (h : c ≠ '$') (cs : List Char) : variableAt? (c :: cs) = none := by
  unfold variableAt? Text.dropStart?
  rw [if_neg h.symm]
  rfl

/-- A text without a dollar sign names no variables. -/
theorem variablesFrom_of_not_mem {s : List Char} (h : '$' ∉ s) : variablesFrom 0 s = [] := by
  induction s with
  | nil => rfl
  | cons c cs ih =>
    rw [List.mem_cons, not_or] at h
    unfold variablesFrom
    rw [variableAt?_of_ne (Ne.symm h.1)]
    exact ih h.2

theorem vars_of_not_mem {text : String} (h : '$' ∉ text.toList) : vars text = [] := by
  unfold vars
  rw [variablesFrom_of_not_mem h]
  rfl

theorem token_toList (name : String) : (token name).toList = ['$', '{'] ++ (name.toList ++ ['}']) := by
  unfold token
  simp

theorem variableAt?_token {name : List Char} (hne : name ≠ []) (hname : '}' ∉ name) (s : List Char) :
    variableAt? (['$', '{'] ++ (name ++ '}' :: s)) = some name := by
  unfold variableAt?
  rw [Text.dropStart?_append]
  simp only [Option.bind_eq_bind, Option.bind_some]
  rw [Text.takeWhile_append_sep hname, if_neg (by simp [hne])]
  rfl

/-- A variable by itself names itself and no other one. -/
theorem vars_token {name : String} (hne : name ≠ "") (hname : '}' ∉ name.toList) :
    vars (token name) = [name] := by
  have hne' : name.toList ≠ [] := fun h => hne (String.toList_eq_nil_iff.1 h)
  have hat := variableAt?_token hne' hname []
  have hrest : variablesFrom (name.toList.length + 2) ('{' :: (name.toList ++ ['}'])) = [] := by
    have hskip := variablesFrom_skip ('{' :: (name.toList ++ ['}'])) []
    rw [List.append_nil] at hskip
    have hlen : ('{' :: (name.toList ++ ['}'])).length = name.toList.length + 2 := by simp
    rw [hlen] at hskip
    exact hskip
  unfold vars
  rw [token_toList]
  rw [List.cons_append, List.cons_append, List.nil_append] at hat ⊢
  unfold variablesFrom
  rw [hat]
  simp only []
  rw [hrest]
  simp

section Evaluation

variable {σ : Type} {lookup : String → σ → Option String × σ} {text name value : String} {w w' : σ}

/-- A text without variables is its own value. -/
theorem interpolatePasses_of_vars (passes : Nat) (h : vars text = []) :
    interpolatePasses lookup (passes + 1) text w = (.ok text, w) := by
  unfold interpolatePasses
  rw [h]
  rfl

end Evaluation

end Expression

/-!
## Texts with variables

A phrase is a text taken apart into variables and what stands between them.  Its variables are those that
an evaluation finds in it (`vars_text`), and replacing a variable everywhere in its text puts the phrase of
the value in the place of the variable (`replaceAll_text`): no variable comes about or is lost where a value
meets what stands around it.
-/

namespace Text

/-- What stands before the first character of the marker stays. -/
theorem replaceFrom_append_of_not_mem {c : Char} {pat new x : List Char} (hx : c ∉ x) (y : List Char) :
    replaceFrom (c :: pat) new 0 (x ++ y) = x ++ replaceFrom (c :: pat) new 0 y := by
  induction x with
  | nil => rfl
  | cons d ds ih =>
    rw [List.mem_cons, not_or] at hx
    have hprefix : ¬(c :: pat).isPrefixOf (d :: (ds ++ y)) = true := by
      rw [List.isPrefixOf_iff_prefix]
      rintro ⟨t, ht⟩
      exact hx.1 (List.cons.inj ht).1
    rw [List.cons_append]
    conv_lhs => unfold replaceFrom
    rw [if_neg hprefix, ih hx.2, List.cons_append]

end Text

namespace Range

/-- A text without two opening braces in a row has no block that could be expanded. -/
theorem expand_of_openings {text : String} (h : ¬['{', '{'] <:+: text.toList) : expand text = .ok text := by
  refine expand_of_blockless fun s hs => ?_
  have hdrop : Text.dropStart? ['{', '{'] s = none := by
    cases hd : Text.dropStart? ['{', '{'] s with
    | none => rfl
    | some rest =>
      rw [Text.dropStart?_eq_some hd] at hs
      exact absurd ((List.prefix_append _ _).isInfix.trans hs.isInfix) h
  unfold block? opening?
  rw [hdrop]
  rfl

end Range

namespace Expression

/-- A name of a variable. -/
structure VarName where
  text : String
  nonempty : text ≠ ""
  inside : '$' ∉ text.toList ∧ '}' ∉ text.toList
  deriving DecidableEq

theorem VarName.text_injective : Function.Injective VarName.text := by
  rintro ⟨_, _, _⟩ ⟨_, _, _⟩ rfl
  rfl

/-- A variable, or a part of a text that has none. -/
inductive Piece where
  | literal (text : String) (plain : '$' ∉ text.toList)
  | named (name : VarName)

abbrev Phrase := List Piece

namespace Phrase

/-- The text that a phrase takes apart. -/
def text : Phrase → String
  | [] => ""
  | .literal s _ :: q => s ++ text q
  | .named n :: q => token n.text ++ text q

/-- The variables of a phrase, in order and as often as they occur. -/
def names : Phrase → List VarName
  | [] => []
  | .literal _ _ :: q => names q
  | .named n :: q => n :: names q

/-- Puts a phrase in the place of a variable, wherever that occurs. -/
def put (n : VarName) (p : Phrase) : Phrase → Phrase
  | [] => []
  | .literal s h :: q => .literal s h :: put n p q
  | .named m :: q => if m = n then p ++ put n p q else .named m :: put n p q

theorem text_append (p q : Phrase) : text (p ++ q) = text p ++ text q := by
  induction p with
  | nil => simp [text]
  | cons x p ih =>
    cases x <;> simp only [List.cons_append, text, ih, String.append_assoc]

theorem names_append (p q : Phrase) : names (p ++ q) = names p ++ names q := by
  induction p with
  | nil => rfl
  | cons x p ih =>
    cases x <;> simp only [List.cons_append, names, ih]

/-- The variables left are the other ones and those of what was put in. -/
theorem mem_names_put {n m : VarName} {p q : Phrase} (h : m ∈ names (put n p q)) :
    m ∈ names q ∧ m ≠ n ∨ n ∈ names q ∧ m ∈ names p := by
  induction q with
  | nil => cases h
  | cons x q ih =>
    cases x with
    | literal s hs => exact ih h
    | named k =>
      unfold put at h
      split_ifs at h with hk
      · subst hk
        rw [names_append, List.mem_append] at h
        rcases h with h | h
        · exact .inr ⟨List.mem_cons_self, h⟩
        · exact (ih h).imp (fun h => ⟨List.mem_cons_of_mem _ h.1, h.2⟩)
            fun h => ⟨List.mem_cons_of_mem _ h.1, h.2⟩
      · rcases List.mem_cons.1 h with rfl | h
        · exact .inl ⟨List.mem_cons_self, hk⟩
        · exact (ih h).imp (fun h => ⟨List.mem_cons_of_mem _ h.1, h.2⟩)
            fun h => ⟨List.mem_cons_of_mem _ h.1, h.2⟩

end Phrase

theorem variablesFrom_append_of_not_mem {x : List Char} (hx : '$' ∉ x) (y : List Char) :
    variablesFrom 0 (x ++ y) = variablesFrom 0 y := by
  induction x with
  | nil => rfl
  | cons c cs ih =>
    rw [List.mem_cons, not_or] at hx
    rw [List.cons_append]
    conv_lhs => unfold variablesFrom
    rw [variableAt?_of_ne (Ne.symm hx.1)]
    exact ih hx.2

/-- A variable is found, and the next ones are looked for after it. -/
theorem variablesFrom_token (n : VarName) (s : List Char) :
    variablesFrom 0 ((token n.text).toList ++ s) = n.text.toList :: variablesFrom 0 s := by
  have hne : n.text.toList ≠ [] := fun h => n.nonempty (String.toList_eq_nil_iff.1 h)
  have hskip := variablesFrom_skip ('{' :: (n.text.toList ++ ['}'])) s
  have hlength : ('{' :: (n.text.toList ++ ['}'])).length = n.text.toList.length + 2 := by simp
  have htext : (token n.text).toList ++ s = '$' :: ('{' :: (n.text.toList ++ ['}']) ++ s) := by
    simp [token_toList]
  have hat := variableAt?_token hne n.inside.2 s
  rw [hlength] at hskip
  rw [htext]
  conv_lhs => unfold variablesFrom
  rw [show '$' :: ('{' :: (n.text.toList ++ ['}']) ++ s) =
    ['$', '{'] ++ (n.text.toList ++ '}' :: s) by simp, hat]
  simp only []
  rw [hskip]

/-- The variables found in the text of a phrase are those of the phrase. -/
theorem vars_text (q : Phrase) : vars q.text = q.names.map VarName.text := by
  have hchars : variablesFrom 0 q.text.toList = q.names.map fun n => n.text.toList := by
    induction q with
    | nil => rfl
    | cons x q ih =>
      cases x with
      | literal s hs =>
        unfold Phrase.text
        rw [String.toList_append, variablesFrom_append_of_not_mem hs, ih]
        rfl
      | named n =>
        unfold Phrase.text
        rw [String.toList_append, variablesFrom_token, ih]
        rfl
  unfold vars
  rw [hchars, List.map_map]
  exact List.map_congr_left fun n _ => String.ofList_toList

/-- Only where a variable starts a variable can start, and it ends where its name ends. -/
theorem token_prefix_iff (n m : VarName) (s : List Char) :
    (token n.text).toList.isPrefixOf ((token m.text).toList ++ s) = true ↔ m = n := by
  rw [List.isPrefixOf_iff_prefix]
  refine ⟨fun h => ?_, ?_⟩
  · rw [token_toList, token_toList, List.append_assoc, List.prefix_append_right_inj] at h
    obtain ⟨t, ht⟩ := h
    rw [List.append_assoc, List.append_assoc, List.singleton_append, List.singleton_append] at ht
    have hchars := congrArg (List.takeWhile (· ≠ '}')) ht
    rw [Text.takeWhile_append_sep n.inside.2, Text.takeWhile_append_sep m.inside.2] at hchars
    exact VarName.text_injective (String.toList_inj.1 hchars.symm)
  · rintro rfl
    exact List.prefix_append _ _

/-- A variable is replaced in the text of a phrase as it is in the phrase. -/
theorem replaceAll_text (n : VarName) (p q : Phrase) :
    Text.replaceAll (token n.text) p.text q.text = (Phrase.put n p q).text := by
  obtain ⟨pat, hpat⟩ : ∃ pat, (token n.text).toList = '$' :: pat := ⟨_, token_toList n.text⟩
  have hchars : Text.replaceFrom (token n.text).toList p.text.toList 0 q.text.toList =
      (Phrase.put n p q).text.toList := by
    induction q with
    | nil => rfl
    | cons x q ih =>
      cases x with
      | literal s hs =>
        simp only [Phrase.put, Phrase.text]
        rw [String.toList_append, String.toList_append, ← ih, hpat,
          Text.replaceFrom_append_of_not_mem hs]
      | named m =>
        simp only [Phrase.put, Phrase.text]
        rw [String.toList_append]
        split_ifs with hm
        · subst hm
          rw [Phrase.text_append, String.toList_append, ← ih, Text.replaceFrom_append (by simp [hpat])]
        · -- what is no occurrence goes on without a dollar sign
          have hprefix := mt (token_prefix_iff n m (Phrase.text q).toList).1 hm
          have hrest : '$' ∉ '{' :: (m.text.toList ++ ['}']) := by
            have := m.inside.1
            simp [this]
          have htoken : (token m.text).toList = '$' :: '{' :: (m.text.toList ++ ['}']) :=
            token_toList m.text
          simp only [Phrase.text]
          rw [String.toList_append, ← ih]
          rw [htoken, List.cons_append] at hprefix ⊢
          conv_lhs => unfold Text.replaceFrom
          rw [if_neg hprefix, hpat, Text.replaceFrom_append_of_not_mem hrest]
          rfl
  unfold Text.replaceAll
  rw [hchars, String.ofList_toList]

end Expression

end Workload

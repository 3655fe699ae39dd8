import Mathlib.Data.List.DropRight
import Workload.Proofs.Texts

/-!
# Range blocks

A block becomes its body once for every value of its header, with the value in the place of the marker
(`expandFrom_block`), if the body has no two opening braces in a row but those of markers.
-/

namespace Workload

namespace Text

section Replacing

variable {old new : List Char} {c : Char}

theorem replaceFrom_cons (old new : List Char) (c : Char) (cs : List Char) :
    replaceFrom old new 0 (c :: cs) =
      if old.isPrefixOf (c :: cs) then new ++ replaceFrom old new (old.length - 1) cs
      else c :: replaceFrom old new 0 cs :=
  rfl

/-- What starts a text up to a character that it does not have itself starts what stands before that. -/
theorem isPrefixOf_append_sep (hc : c ∉ old) (x y : List Char) :
    old.isPrefixOf (x ++ c :: y) = old.isPrefixOf x := by
  rw [Bool.eq_iff_iff, List.isPrefixOf_iff_prefix, List.isPrefixOf_iff_prefix]
  refine ⟨fun h => ?_, fun h => h.trans (List.prefix_append _ _)⟩
  refine List.prefix_of_prefix_length_le h (List.prefix_append _ _) ?_
  by_contra hlt
  have hx : x ++ [c] <+: old :=
    List.prefix_of_prefix_length_le ⟨y, by simp⟩ h (by simp; omega)
  exact hc (hx.subset (by simp))

/-- What is replaced in a text is replaced in two parts of it by itself, where a character stands between
them that the marker does not have. -/
theorem replaceFrom_append_sep (hold : old ≠ []) (hc : c ∉ old) (x y : List Char) :
    replaceFrom old new 0 (x ++ c :: y) = replaceFrom old new 0 x ++ c :: replaceFrom old new 0 y := by
  -- what is skipped belongs to an occurrence, and so to the first part
  have hskip : ∀ (x : List Char) (skip : Nat), skip ≤ x.length → replaceFrom old new skip (x ++ c :: y) =
      replaceFrom old new skip x ++ c :: replaceFrom old new 0 y := by
    intro x
    induction x with
    | nil =>
      intro skip hle
      obtain rfl : skip = 0 := Nat.le_zero.1 hle
      have hprefix : ¬old.isPrefixOf (c :: y) = true := by
        rw [← List.nil_append (c :: y), isPrefixOf_append_sep hc]
        simpa using hold
      rw [List.nil_append, replaceFrom_cons, if_neg hprefix]
      rfl
    | cons d ds ih =>
      intro skip hle
      cases skip with
      | succ skip => exact ih skip (Nat.le_of_succ_le_succ hle)
      | zero =>
        have hprefix := isPrefixOf_append_sep hc (d :: ds) y
        rw [List.cons_append] at hprefix ⊢
        rw [replaceFrom_cons, replaceFrom_cons, hprefix]
        split_ifs with h
        · have hlength := (List.isPrefixOf_iff_prefix.1 h).length_le
          rw [List.length_cons] at hlength
          rw [ih (old.length - 1) (by omega), List.append_assoc]
        · rw [ih 0 (Nat.zero_le _), List.cons_append]
  exact hskip x 0 (Nat.zero_le _)

/-- Texts are made up of occurrences of a marker and of other characters. -/
theorem marked_induction {old : List Char} {P : List Char → Prop} (nil : P [])
    (mark : ∀ s, P s → P (old ++ s)) (char : ∀ c s, ¬old.isPrefixOf (c :: s) = true → P s → P (c :: s))
    (hold : old ≠ []) (s : List Char) : P s := by
  induction hn : s.length using Nat.strong_induction_on generalizing s with
  | _ n ih =>
    cases s with
    | nil => exact nil
    | cons c cs =>
      by_cases h : old.isPrefixOf (c :: cs) = true
      · obtain ⟨rest, hrest⟩ := List.isPrefixOf_iff_prefix.1 h
        have hpos : 0 < old.length := List.length_pos_iff.2 hold
        rw [← hrest, List.length_append] at hn
        rw [← hrest]
        exact mark rest (ih rest.length (by omega) rest rfl)
      · exact char c cs h (ih cs.length (by rw [← hn]; exact Nat.lt_succ_self _) cs rfl)

/-- Characters that the marker does not have stay as they are. -/
theorem replaceFrom_append_of_disjoint (hold : old ≠ []) {x : List Char} (hx : ∀ d ∈ x, d ∉ old)
    (y : List Char) : replaceFrom old new 0 (x ++ y) = x ++ replaceFrom old new 0 y := by
  induction x with
  | nil => rfl
  | cons d ds ih =>
    have h : replaceFrom old new 0 _ = _ :=
      replaceFrom_append_sep hold (hx d List.mem_cons_self) [] (ds ++ y)
    rw [List.nil_append] at h
    rw [List.cons_append, h, ih fun e he => hx e (List.mem_cons_of_mem _ he)]
    rfl

/-- A text is spelt character by character. -/
inductive Spelling (spells : Char → List Char → Prop) : List Char → List Char → Prop
  | nil : Spelling spells [] []
  | cons {c : Char} {x s t : List Char} :
    spells c x → Spelling spells s t → Spelling spells (c :: s) (x ++ t)

/-- The characters of a marker are spelt as they are, and no other ones with them. -/
structure Spares (old : List Char) (spells : Char → List Char → Prop) : Prop where
  same : ∀ {c x}, spells c x → c ∈ old → x = [c]
  other : ∀ {c x}, spells c x → c ∉ old → x ≠ [] ∧ ∀ d ∈ x, d ∉ old

section Spelling

variable {spells : Char → List Char → Prop} {s t : List Char}

theorem spelling_flatMap {g : Char → List Char} {s : List Char} (h : ∀ c ∈ s, spells c (g c)) :
    Spelling spells s (s.flatMap g) := by
  induction s with
  | nil => exact .nil
  | cons c cs ih =>
    exact .cons (h c List.mem_cons_self) (ih fun d hd => h d (List.mem_cons_of_mem _ hd))

theorem Spelling.append {s' t' : List Char} (h : Spelling spells s t) (h' : Spelling spells s' t') :
    Spelling spells (s ++ s') (t ++ t') := by
  induction h with
  | nil => exact h'
  | cons hc _ ih =>
    rw [List.cons_append, List.append_assoc]
    exact .cons hc ih

/-- The marker starts a text where it starts its spelling. -/
theorem Spelling.isPrefixOf_eq (h : Spelling spells s t) (hs : Spares old spells) (pat : List Char)
    (hpat : ∀ c ∈ pat, c ∈ old) : pat.isPrefixOf t = pat.isPrefixOf s := by
  induction h generalizing pat with
  | nil => rfl
  | @cons c x s t hc _ ih =>
    cases pat with
    | nil => cases x ++ t <;> rfl
    | cons p ps =>
      have hp := hpat p List.mem_cons_self
      by_cases hmem : c ∈ old
      · rw [hs.same hc hmem, List.singleton_append]
        unfold List.isPrefixOf
        rw [ih ps fun d hd => hpat d (List.mem_cons_of_mem _ hd)]
      · obtain ⟨hne, hd⟩ := hs.other hc hmem
        obtain ⟨d, ds, rfl⟩ := List.exists_cons_of_ne_nil hne
        have hpd : (p == d) = false :=
          beq_eq_false_iff_ne.2 fun h => hd d List.mem_cons_self (h ▸ hp)
        have hpc : (p == c) = false := beq_eq_false_iff_ne.2 fun h => hmem (h ▸ hp)
        rw [List.cons_append]
        unfold List.isPrefixOf
        rw [hpd, hpc]
        rfl

theorem Spelling.of_append (hs : Spares old spells) {pre : List Char} (hpre : ∀ c ∈ pre, c ∈ old)
    (h : Spelling spells (pre ++ s) t) : ∃ t', t = pre ++ t' ∧ Spelling spells s t' := by
  induction pre generalizing t with
  | nil => exact ⟨t, rfl, h⟩
  | cons c cs ih =>
    cases h with
    | @cons _ x _ t hc h =>
      obtain ⟨t', rfl, h'⟩ := ih (fun d hd => hpre d (List.mem_cons_of_mem _ hd)) h
      exact ⟨t', by rw [hs.same hc (hpre c List.mem_cons_self)]; rfl, h'⟩

/-- What is put in for a marker in a text and in its spelling makes a text and its spelling again. -/
theorem Spelling.replaceFrom (h : Spelling spells s t) (hold : old ≠ []) (hs : Spares old spells)
    (hnew : ∀ c ∈ new, spells c [c]) :
    Spelling spells (replaceFrom old new 0 s) (replaceFrom old new 0 t) := by
  refine marked_induction (P := fun s => ∀ t, Spelling spells s t →
    Spelling spells (Text.replaceFrom old new 0 s) (Text.replaceFrom old new 0 t)) ?_ ?_ ?_ hold s t h
  · rintro _ ⟨⟩
    exact .nil
  · intro s ih t h
    obtain ⟨t', rfl, h'⟩ := h.of_append hs fun _ hc => hc
    rw [replaceFrom_append hold, replaceFrom_append hold]
    have hself := spelling_flatMap (g := fun c => [c]) hnew
    rw [List.flatMap_singleton'] at hself
    exact hself.append (ih t' h')
  · intro c s hprefix ih t h
    have hprefix' := h.isPrefixOf_eq hs old fun _ hc => hc
    cases h with
    | @cons _ x _ t hc h =>
      rw [replaceFrom_cons, if_neg hprefix]
      by_cases hmem : c ∈ old
      · have hx := hs.same hc hmem
        subst hx
        rw [List.singleton_append] at hprefix' ⊢
        rw [replaceFrom_cons, hprefix', if_neg hprefix]
        exact .cons hc (ih t h)
      · rw [replaceFrom_append_of_disjoint hold (hs.other hc hmem).2]
        exact .cons hc (ih t h)

end Spelling

end Replacing

/-- What holds of a text without separators, and of one more piece in front of a text of which it holds, holds
of every text. -/
theorem separated_induction {P : List Char → Prop} (p : Char → Bool)
    (last : ∀ piece, (∀ c ∈ piece, p c = false) → P piece)
    (step : ∀ piece sep s, (∀ c ∈ piece, p c = false) → p sep = true → P s → P (piece ++ sep :: s))
    (s : List Char) : P s := by
  induction hn : s.length using Nat.strong_induction_on generalizing s with
  | _ n ih =>
    have hfront : ∀ c ∈ s.takeWhile (!p ·), p c = false := fun c hc => by
      simpa using List.mem_takeWhile_imp hc
    have hall := List.takeWhile_append_dropWhile (p := (!p ·)) (l := s)
    rcases hrest : s.dropWhile (!p ·) with _ | ⟨sep, rest⟩
    · rw [hrest, List.append_nil] at hall
      exact last s (hall ▸ hfront)
    · rw [hrest] at hall
      have hsep : p sep = true := by
        have := List.head?_dropWhile_not (!p ·) s
        rw [hrest] at this
        simpa using this
      rw [← hall]
      refine step _ sep rest hfront hsep (ih rest.length ?_ rest rfl)
      rw [← hn, ← hall, List.length_append, List.length_cons]
      omega

theorem trimStart_append_sep {c : Char} (hc : isBlank c = false) (x y : List Char) :
    trimStart (x ++ c :: y) = trimStart x ++ c :: y := by
  unfold trimStart
  induction x with
  | nil => simp [hc]
  | cons d ds ih =>
    rw [List.cons_append, List.dropWhile_cons, List.dropWhile_cons]
    split_ifs with hd
    · exact ih
    · rfl

/-- Only blanks are trimmed. -/
theorem mem_trim {c : Char} (hc : isBlank c = false) {s : List Char} (h : c ∈ s) : c ∈ trim s := by
  have hdrop : ∀ s : List Char, c ∈ s → c ∈ s.dropWhile isBlank := by
    intro s h
    rw [← List.takeWhile_append_dropWhile (p := isBlank) (l := s), List.mem_append] at h
    refine h.resolve_left fun htake => ?_
    rw [List.mem_takeWhile_imp htake] at hc
    cases hc
  unfold trim trimEnd trimStart
  rw [List.mem_reverse]
  exact hdrop _ (List.mem_reverse.2 (hdrop s h))

theorem exists_mem_splitAt {sep c : Char} (hc : c ≠ sep) {s : List Char} (h : c ∈ s) :
    ∃ piece ∈ splitAt sep s, c ∈ piece := by
  induction s with
  | nil => cases h
  | cons d ds ih =>
    unfold splitAt
    split_ifs with hd
    · obtain ⟨piece, hmem, hpiece⟩ := ih ((List.mem_cons.1 h).resolve_left (by rintro rfl; exact hc hd))
      exact ⟨piece, List.mem_cons_of_mem _ hmem, hpiece⟩
    · rcases hs : splitAt sep ds with _ | ⟨piece, pieces⟩ <;> rw [hs] at ih
      · refine ⟨_, List.mem_cons_self, List.mem_singleton.2 ?_⟩
        refine (List.mem_cons.1 h).resolve_right fun hmem => ?_
        obtain ⟨_, hmem, -⟩ := ih hmem
        cases hmem
      · rcases List.mem_cons.1 h with rfl | hmem
        · exact ⟨_, List.mem_cons_self, List.mem_cons_self⟩
        · obtain ⟨p, hp, hcp⟩ := ih hmem
          rcases List.mem_cons.1 hp with rfl | hp
          · exact ⟨_, List.mem_cons_self, List.mem_cons_of_mem _ hcp⟩
          · exact ⟨p, List.mem_cons_of_mem _ hp, hcp⟩

theorem not_mem_of_readDigits {base : Nat} {c : Char} (hc : digitValue? base c = none) {s : List Char}
    {acc n : Nat} (h : readDigits base acc s = some n) : c ∉ s := by
  induction s generalizing acc with
  | nil => exact List.not_mem_nil
  | cons d ds ih =>
    unfold readDigits at h
    rcases hv : digitValue? base d with _ | v <;> rw [hv] at h
    · cases h
    · rw [List.mem_cons, not_or]
      refine ⟨?_, ih h⟩
      rintro rfl
      rw [hc] at hv
      cases hv

/-- A number is written in signs and digits. -/
theorem not_mem_of_int64Of? {c : Char} (hc : digitValue? 10 c = none) (hplus : c ≠ '+') (hminus : c ≠ '-')
    {s : List Char} {n : Int} (h : int64Of? s = some n) : c ∉ s := by
  have hdigits : ∀ {s : List Char} {p : Nat → Bool} {f : Nat → Option Int} {n : Int},
      ((natOf? 10 s).filter p).bind f = some n → c ∉ s := by
    intro s p f n h
    obtain ⟨k, hk, -⟩ := Option.bind_eq_some_iff.1 h
    have hk := (Option.filter_eq_some_iff.1 hk).1
    unfold natOf? at hk
    split_ifs at hk
    exact not_mem_of_readDigits hc hk
  unfold int64Of? signedOf? at h
  split at h
  · obtain ⟨k, hk, -⟩ := Option.map_eq_some_iff.1 h
    rw [List.mem_cons, not_or]
    exact ⟨hminus, hdigits hk⟩
  · obtain ⟨k, hk, -⟩ := Option.map_eq_some_iff.1 h
    unfold unsignedOf? at hk
    split at hk
    · rw [List.mem_cons, not_or]
      exact ⟨hplus, hdigits hk⟩
    · exact hdigits hk

theorem cutAt_eq_some {pat s x y : List Char} (h : cutAt pat s = some (x, y)) : s = x ++ (pat ++ y) := by
  induction s generalizing x with
  | nil =>
    unfold cutAt at h
    split_ifs at h with hpat
    rw [List.isEmpty_iff] at hpat
    cases h
    rw [hpat]
    rfl
  | cons c cs ih =>
    unfold cutAt at h
    rcases hd : dropStart? pat (c :: cs) with _ | rest <;> rw [hd] at h
    · obtain ⟨⟨x', y'⟩, hcut, hxy⟩ := Option.map_eq_some_iff.1 h
      cases hxy
      rw [ih hcut]
      rfl
    · cases h
      rw [List.nil_append]
      exact dropStart?_eq_some hd

end Text

namespace Range

/-- What blocks, their ends and markers start with. -/
def bracePair : List Char := ['{', '{']

/-- Whether no two opening braces stand in a row, those of markers aside if `marked`. -/
def unbraced (marked : Bool) : List Char → Bool
  | [] => true
  | c :: cs =>
    (!bracePair.isPrefixOf (c :: cs) || (marked && marker.isPrefixOf (c :: cs))) && unbraced marked cs

section Braces

variable {marked : Bool}

theorem unbraced_cons (c : Char) (cs : List Char) :
    unbraced marked (c :: cs) =
      ((!bracePair.isPrefixOf (c :: cs) || (marked && marker.isPrefixOf (c :: cs))) &&
        unbraced marked cs) :=
  rfl

theorem mem_marker_of_mem_bracePair {c : Char} (h : c ∈ bracePair) : c ∈ marker :=
  (show bracePair <+: marker from ⟨['.', '}', '}'], rfl⟩).subset h

theorem unbraced_append_sep {c : Char} (hc : c ∉ marker) (x y : List Char) :
    unbraced marked (x ++ c :: y) = (unbraced marked x && unbraced marked y) := by
  have hbraces : c ∉ bracePair := fun h => hc (mem_marker_of_mem_bracePair h)
  induction x with
  | nil =>
    have h := Text.isPrefixOf_append_sep hbraces [] y
    rw [List.nil_append] at h ⊢
    rw [unbraced_cons, h]
    rfl
  | cons d ds ih =>
    have h := Text.isPrefixOf_append_sep hbraces (d :: ds) y
    have h' := Text.isPrefixOf_append_sep hc (d :: ds) y
    rw [List.cons_append] at h h' ⊢
    rw [unbraced_cons, unbraced_cons, h, h', ih, Bool.and_assoc]

/-- Characters that markers do not have make no difference. -/
theorem unbraced_append_of_disjoint {x : List Char} (hx : ∀ d ∈ x, d ∉ marker) (y : List Char) :
    unbraced marked (x ++ y) = unbraced marked y := by
  induction x with
  | nil => rfl
  | cons d ds ih =>
    have h : unbraced marked _ = _ := unbraced_append_sep (hx d List.mem_cons_self) [] (ds ++ y)
    rw [List.nil_append] at h
    rw [List.cons_append, h, ih fun e he => hx e (List.mem_cons_of_mem _ he)]
    rfl

theorem unbraced_spelling {spells : Char → List Char → Prop} {s t : List Char}
    (h : Text.Spelling spells s t) (hs : Text.Spares marker spells) :
    unbraced marked t = unbraced marked s := by
  induction h with
  | nil => rfl
  | @cons c x s t hc h ih =>
    by_cases hmem : c ∈ marker
    · have hbraces := (Text.Spelling.cons hc h).isPrefixOf_eq hs bracePair
        fun _ => mem_marker_of_mem_bracePair
      have hmarker := (Text.Spelling.cons hc h).isPrefixOf_eq hs marker fun _ hc => hc
      have hx := hs.same hc hmem
      subst hx
      rw [List.singleton_append] at hbraces hmarker ⊢
      rw [unbraced_cons, unbraced_cons, hbraces, hmarker, ih]
    · have h : unbraced marked _ = _ := unbraced_append_sep hmem [] s
      rw [List.nil_append] at h
      rw [unbraced_append_of_disjoint (hs.other hc hmem).2, ih, h]
      rfl

/-- Where there are no markers nothing is put in. -/
theorem replaceFrom_of_unbraced {s : List Char} (h : unbraced false s = true) (new : List Char) :
    Text.replaceFrom marker new 0 s = s := by
  induction s with
  | nil => rfl
  | cons c cs ih =>
    rw [unbraced_cons, Bool.false_and, Bool.or_false, Bool.and_eq_true, Bool.not_eq_true'] at h
    have hprefix : ¬marker.isPrefixOf (c :: cs) = true := by
      intro hm
      rw [List.isPrefixOf_iff_prefix] at hm
      have hbraces : bracePair <+: c :: cs :=
        (show bracePair <+: marker from ⟨['.', '}', '}'], rfl⟩).trans hm
      rw [← List.isPrefixOf_iff_prefix, h.1] at hbraces
      cases hbraces
    rw [Text.replaceFrom_cons, if_neg hprefix, ih h.2]

end Braces

/-- How a block starts. -/
def opening (header : List Char) : List Char :=
  ['{', '{', 'r', 'a', 'n', 'g', 'e', ' '] ++ header ++ ['}', '}']

/-- How a block starts, whatever blanks stand in front of its header. -/
def spacedOpening (gap header : List Char) : List Char :=
  ['{', '{', 'r', 'a', 'n', 'g', 'e'] ++ gap ++ header ++ ['}', '}']

theorem isBlank_space : ∀ c ∈ [' '], Text.isBlank c = true := List.all_eq_true.1 (by decide)

theorem opening_eq (header : List Char) : opening header = spacedOpening [' '] header := rfl

/-- How a block ends. -/
def closing : List Char := ['{', '{', 'e', 'n', 'd', '}', '}']

theorem closing?_closing (rest : List Char) : closing? (closing ++ rest) = some rest := by
  cases rest <;> rfl

/-- Nothing closes a block where its body goes on, not even where that runs into the closing. -/
theorem closing?_of_unbraced {c : Char} {cs : List Char} (h : unbraced true (c :: cs) = true)
    (rest : List Char) : closing? (c :: (cs ++ (closing ++ rest))) = none := by
  by_cases hc : c = '{'
  · subst hc
    cases cs with
    | nil => cases rest <;> rfl
    | cons d ds =>
      by_cases hd : d = '{'
      · subst hd
        unfold unbraced at h
        rw [Bool.and_eq_true, Bool.or_eq_true] at h
        rcases h.1 with hbraces | hmarker
        · simp [bracePair, List.isPrefixOf] at hbraces
        · obtain ⟨t, ht⟩ := List.isPrefixOf_iff_prefix.1 hmarker
          unfold marker at ht
          injection ht with _ ht
          injection ht with _ ht
          subst ht
          rfl
      · unfold closing? Text.dropStart? Text.dropStart?
        rw [if_pos rfl, List.cons_append]
        simp only []
        rw [if_neg (Ne.symm hd)]
        rfl
  · unfold closing? Text.dropStart?
    rw [if_neg (Ne.symm hc)]
    rfl

theorem body?_of_unbraced {body : List Char} (h : unbraced true body = true) (rest : List Char) :
    body? (body ++ (closing ++ rest)) = some (body, rest) := by
  induction body with
  | nil =>
    have hcons : closing ++ rest = '{' :: '{' :: 'e' :: 'n' :: 'd' :: '}' :: '}' :: rest := rfl
    rw [List.nil_append, hcons]
    unfold body?
    rw [← hcons, closing?_closing]
  | cons c cs ih =>
    have htail : unbraced true cs = true := by
      unfold unbraced at h
      exact (Bool.and_eq_true _ _ ▸ h).2
    rw [List.cons_append]
    unfold body?
    rw [closing?_of_unbraced h rest, ih htail]
    rfl

section Opening

variable {gap header : List Char}

/-- The header of an opening is read up to its closing braces. -/
theorem opening?_spacedOpening (hgap : ∀ c ∈ gap, Text.isBlank c = true) (hne : gap ≠ []) (h : '}' ∉ header)
    (rest : List Char) : opening? (spacedOpening gap header ++ rest) = some (Text.trimStart header, rest) := by
  have hopen : spacedOpening gap header ++ rest =
      ['{', '{'] ++ (['r', 'a', 'n', 'g', 'e'] ++ (gap ++ (header ++ '}' :: '}' :: rest))) := by
    simp [spacedOpening]
  have hblank : Text.trimStart (gap ++ (header ++ '}' :: '}' :: rest)) =
      Text.trimStart header ++ '}' :: '}' :: rest := by
    rw [← Text.trimStart_append_sep (by decide)]
    exact List.dropWhile_append_of_pos hgap
  have hhead : Text.isBlank ((gap ++ (header ++ '}' :: '}' :: rest)).headD 'x') = true := by
    obtain ⟨c, cs, rfl⟩ := List.exists_cons_of_ne_nil hne
    exact hgap c List.mem_cons_self
  have hclose : ∀ c ∈ Text.trimStart header, decide (c ≠ '}') = true := by
    intro c hc
    rw [decide_eq_true_eq]
    rintro rfl
    exact h ((List.dropWhile_sublist _).mem hc)
  unfold opening?
  rw [hopen, Text.dropStart?_append]
  simp only [Option.bind_eq_bind, Option.bind_some]
  rw [show Text.trimStart (['r', 'a', 'n', 'g', 'e'] ++ (gap ++ (header ++ '}' :: '}' :: rest))) =
    ['r', 'a', 'n', 'g', 'e'] ++ (gap ++ (header ++ '}' :: '}' :: rest)) from
      List.dropWhile_cons_of_neg (by decide), Text.dropStart?_append]
  simp only [Option.bind_some]
  rw [if_neg (by rw [hhead]; decide), hblank, List.dropWhile_append_of_pos hclose,
    List.takeWhile_append_of_pos hclose]
  simp [Text.dropStart?]

theorem block?_spacedOpening {body : List Char} (hgap : ∀ c ∈ gap, Text.isBlank c = true) (hne : gap ≠ [])
    (hheader : '}' ∉ header) (hbody : unbraced true body = true) (rest : List Char) :
    block? (spacedOpening gap header ++ (body ++ (closing ++ rest))) =
      some (Text.trimStart header, body, rest) := by
  unfold block?
  rw [opening?_spacedOpening hgap hne hheader]
  simp only [Option.bind_eq_bind, Option.bind_some]
  rw [body?_of_unbraced hbody]
  rfl

end Opening

theorem expandFrom_skip (skipped s : List Char) :
    expandFrom skipped.length (skipped ++ s) = expandFrom 0 s := by
  induction skipped with
  | nil => rfl
  | cons c cs ih => exact ih

theorem values_trimStart (header : List Char) :
    values (String.ofList (Text.trimStart header)) = values (String.ofList header) := by
  have htrim : Text.trim (Text.trimStart header) = Text.trim header := by
    unfold Text.trim Text.trimStart
    rw [List.dropWhile_idempotent]
  unfold values
  rw [String.toList_ofList, String.toList_ofList, htrim]

/-- A block becomes its bodies, one for each value of its header, if that has values. -/
theorem expandFrom_spacedBlock {gap header body : List Char} (hgap : ∀ c ∈ gap, Text.isBlank c = true)
    (hne : gap ≠ []) (hheader : '}' ∉ header) (hbody : unbraced true body = true) (rest : List Char) :
    expandFrom 0 (spacedOpening gap header ++ (body ++ (closing ++ rest))) =
      (values (String.ofList header)).bind fun vs => (expandFrom 0 rest).map (repeated body vs ++ ·) := by
  have hblock := block?_spacedOpening hgap hne hheader hbody rest
  obtain ⟨cs, hcons⟩ : ∃ cs, spacedOpening gap header ++ (body ++ closing) = '{' :: cs := ⟨_, rfl⟩
  have hall : spacedOpening gap header ++ (body ++ (closing ++ rest)) = '{' :: (cs ++ rest) := by
    rw [← List.cons_append, ← hcons]
    simp
  rw [hall] at hblock ⊢
  conv_lhs => unfold expandFrom
  rw [hblock]
  simp only []
  rw [values_trimStart]
  have hskip : (cs ++ rest).length - rest.length = cs.length := by simp
  rw [hskip, expandFrom_skip]
  cases values (String.ofList header) <;> cases expandFrom 0 rest <;> rfl

theorem expandFrom_block {header body : List Char} {vs : List String} (hheader : '}' ∉ header)
    (hbody : unbraced true body = true) (hvs : values (String.ofList header) = .ok vs) (rest : List Char) :
    expandFrom 0 (opening header ++ (body ++ (closing ++ rest))) =
      (expandFrom 0 rest).map (repeated body vs ++ ·) := by
  rw [opening_eq, expandFrom_spacedBlock isBlank_space (by decide) hheader hbody, hvs]
  rfl

/-- A header has no closing brace if none of its values has one. -/
theorem not_mem_of_values {header : String} {vs : List String} (hvs : values header = .ok vs)
    (h : ∀ v ∈ vs, '}' ∉ v.toList) : '}' ∉ header.toList := by
  have hnumber : ∀ {s : List Char} {n : Int}, Text.int64Of? s = some n → '}' ∉ s :=
    Text.not_mem_of_int64Of? (by decide) (by decide) (by decide)
  have htrim : ∀ {s : List Char}, '}' ∉ Text.trim s → '}' ∉ s := mt (Text.mem_trim (by decide))
  refine htrim ?_
  unfold values at hvs
  simp only [] at hvs
  rcases hcut : Text.cutAt ['.', '.'] (Text.trim header.toList) with _ | ⟨a, b⟩ <;> rw [hcut] at hvs
  · simp only [] at hvs
    split at hvs
    · cases hvs
      intro hmem
      obtain ⟨piece, hpiece, hc⟩ := Text.exists_mem_splitAt (show '}' ≠ ',' by decide) hmem
      refine htrim ?_ hc
      simpa using h _ (List.mem_map_of_mem hpiece)
    · rcases hn : Text.int64Of? (Text.trim header.toList) with _ | n <;> rw [hn] at hvs
      · simp only [] at hvs
        split at hvs
        · cases hvs
        · cases hvs
          simpa using h
      · exact hnumber hn
  · simp only [] at hvs
    rcases ha : Text.int64Of? (Text.trim a) with _ | x <;> rw [ha] at hvs
    · cases hvs
    rcases hb : Text.int64Of? (Text.trim b) with _ | y <;> rw [hb] at hvs
    · cases hvs
    rw [Text.cutAt_eq_some hcut]
    simp [htrim (hnumber ha), htrim (hnumber hb)]

end Range

end Workload

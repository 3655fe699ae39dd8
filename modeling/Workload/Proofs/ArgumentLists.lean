import Mathlib.Data.List.Forall2
import Workload.Proofs.Comparisons
import Workload.Template

/-!
# Lists of arguments

A value is written among the arguments of a reference by itself or in parentheses, with blanks around it as
one likes, and is read as what it was (`arguments_pass`).  In parentheses it can have commas, but blanks and a
closing parenthesis next to them would be lost; no text has a list of arguments with such a value.

Whatever a text is like, its values with commas between them are its tokens with commas between them, less the
parentheses that open and close groups (`splitArgs_conserves`).
-/

namespace Workload

namespace Text

section Pieces

variable {sep : Char}

theorem splitAt_eq_splitOn (s : List Char) : splitAt sep s = s.splitOn sep := by
  induction s with
  | nil => rfl
  | cons c cs ih =>
    obtain ⟨piece, pieces, hcs⟩ := List.exists_cons_of_ne_nil (List.splitOn_ne_nil sep cs)
    rw [List.splitOn_cons_eq_if_modifyHead]
    unfold splitAt
    rw [ih, hcs]
    simp only [beq_iff_eq]
    rfl

theorem splitAt_ne_nil (s : List Char) : splitAt sep s ≠ [] := by
  rw [splitAt_eq_splitOn]
  exact List.splitOn_ne_nil sep s

theorem splitAt_of_not_mem {s : List Char} (h : sep ∉ s) : splitAt sep s = [s] := by
  rw [splitAt_eq_splitOn, List.splitOn_eq_singleton h]

theorem splitAt_append_sep (x y : List Char) :
    splitAt sep (x ++ sep :: y) = splitAt sep x ++ splitAt sep y := by
  simp only [splitAt_eq_splitOn]
  exact List.splitOn_append_cons_self x y

/-- A text is one piece, or a piece in front of a text. -/
theorem pieces_induction {P : List Char → Prop} (last : ∀ piece, sep ∉ piece → P piece)
    (step : ∀ piece s, sep ∉ piece → P s → P (piece ++ sep :: s)) (s : List Char) : P s := by
  have hmem : ∀ {piece : List Char}, (∀ c ∈ piece, (c == sep) = false) → sep ∉ piece := fun h hsep => by
    simpa using h sep hsep
  refine separated_induction (· == sep) (fun piece h => last piece (hmem h)) (fun piece c s h hc hs => ?_) s
  rw [eq_of_beq hc]
  exact step piece s (hmem h) hs

/-- No piece has a separator in it. -/
theorem not_mem_of_mem_splitAt {s piece : List Char} (h : piece ∈ splitAt sep s) : sep ∉ piece := by
  induction s using @pieces_induction sep with
  | last x hx =>
    rw [splitAt_of_not_mem hx, List.mem_singleton] at h
    rw [h]
    exact hx
  | step x s hx ih =>
    rw [splitAt_append_sep, splitAt_of_not_mem hx, List.singleton_append, List.mem_cons] at h
    rcases h with rfl | h
    · exact hx
    · exact ih h

/-- A text has one piece more than it has separators. -/
theorem length_splitAt (s : List Char) : (splitAt sep s).length = 1 + s.count sep := by
  induction s using @pieces_induction sep with
  | last x hx =>
    rw [splitAt_of_not_mem hx, List.count_eq_zero.2 hx]
    rfl
  | step x s hx ih =>
    rw [splitAt_append_sep, splitAt_of_not_mem hx, List.length_append, List.length_singleton, ih,
      List.count_append, List.count_eq_zero.2 hx, List.count_cons_self, Nat.zero_add, Nat.add_comm (s.count sep)]

/-- Texts with separators between them are cut into the pieces of each. -/
theorem splitAt_intercalate {texts : List (List Char)} (hne : texts ≠ []) :
    splitAt sep ([sep].intercalate texts) = texts.flatMap (splitAt sep) := by
  induction texts with
  | nil => exact absurd rfl hne
  | cons s texts ih =>
    by_cases htexts : texts = []
    · subst htexts
      rw [List.intercalate_singleton, List.flatMap_singleton]
    · rw [List.intercalate_cons_of_ne_nil htexts, List.append_assoc, List.singleton_append, splitAt_append_sep,
        ih htexts, List.flatMap_cons]

/-- The pieces of a text, with separators between them, are that text. -/
theorem intercalate_splitAt (s : List Char) : [sep].intercalate (splitAt sep s) = s := by
  rw [splitAt_eq_splitOn, List.intercalate_splitOn]

end Pieces

/-- Trimming at the end stops at what is not blank. -/
theorem trimEnd_append_sep {c : Char} (hc : isBlank c = false) (x y : List Char) :
    trimEnd (x ++ c :: y) = x ++ c :: trimEnd y := by
  have h := trimStart_append_sep hc y.reverse x.reverse
  unfold trimStart at h
  unfold trimEnd
  rw [List.reverse_append, List.reverse_cons, List.append_assoc, List.singleton_append, h]
  simp

theorem trimEnd_of_blank {s : List Char} (hs : ∀ c ∈ s, isBlank c = true) : trimEnd s = [] := by
  unfold trimEnd
  rw [List.dropWhile_eq_nil_iff.2 fun c hc => hs c (List.mem_reverse.1 hc), List.reverse_nil]

theorem trimStart_of_blank {s : List Char} (hs : ∀ c ∈ s, isBlank c = true) : trimStart s = [] :=
  List.dropWhile_eq_nil_iff.2 hs

/-- Blanks around a text are trimmed with those of its own. -/
theorem trim_padded {pre post : List Char} (hpre : ∀ c ∈ pre, isBlank c = true)
    (hpost : ∀ c ∈ post, isBlank c = true) (s : List Char) : trim (pre ++ s ++ post) = trim s := by
  have hfront : trim (pre ++ s) = trim s := by
    induction pre with
    | nil => rfl
    | cons c cs ih =>
      rw [List.cons_append, trim_cons_blank (hpre c List.mem_cons_self)]
      exact ih fun d hd => hpre d (List.mem_cons_of_mem _ hd)
  induction post using List.reverseRecOn with
  | nil => rw [List.append_nil, hfront]
  | append_singleton ds d ih =>
    rw [← List.append_assoc, trim_append_blank (hpost d (by simp))]
    exact ih fun c hc => hpost c (List.mem_append_left _ hc)

theorem trimStart_eq_self_iff {s : List Char} : trimStart s = s ↔ ∀ c ∈ s.head?, isBlank c = false := by
  unfold trimStart
  rw [List.dropWhile_eq_self_iff]
  cases s <;> simp

/-- A text that trimming leaves as it is has blanks at neither end. -/
theorem ends_of_trim {s : List Char} (h : trim s = s) : trimStart s = s ∧ trimEnd s = s := by
  have hend : trim s <+: trimStart s := by
    unfold trim trimEnd
    rw [← List.reverse_suffix, List.reverse_reverse]
    exact List.dropWhile_suffix _
  have hstart : trimStart s <:+ s := List.dropWhile_suffix _
  have hlen := hend.length_le
  rw [h] at hlen
  have hs : trimStart s = s := hstart.eq_of_length_le hlen
  refine ⟨hs, ?_⟩
  unfold trim at h
  rwa [hs] at h

/-- What is trimmed stays so. -/
theorem trim_trim (s : List Char) : trim (trim s) = trim s := by
  have hidem : ∀ s, trimEnd (trimEnd s) = trimEnd s := fun s => by
    unfold trimEnd
    rw [List.reverse_reverse, List.dropWhile_idempotent]
  have hhead : ∀ c ∈ (trimStart s).head?, isBlank c = false :=
    trimStart_eq_self_iff.1 (List.dropWhile_idempotent isBlank s)
  have hstart : trimStart (trimEnd (trimStart s)) = trimEnd (trimStart s) := by
    rw [trimStart_eq_self_iff]
    cases htrim : trimStart s with
    | nil => exact fun c hc => by cases hc
    | cons c cs =>
      rw [htrim] at hhead
      have hc := hhead c rfl
      rw [show trimEnd (c :: cs) = c :: trimEnd cs from trimEnd_append_sep hc [] cs]
      intro d hd
      cases hd
      exact hc
  unfold trim
  rw [hstart, hidem]

end Text

namespace Template

open Text (splitAt trim trimStart trimEnd)

/-- A value that can be written by itself. -/
structure IsBare (v : List Char) : Prop where
  comma : ',' ∉ v
  trimmed : trim v = v
  opening : v.head? ≠ some '('

/-- A value that can be written in parentheses: no piece of it between commas loses blanks, and none but the
last ends the group. -/
structure IsGrouped (v : List Char) : Prop where
  closing : ∀ piece ∈ (splitAt ',' v).dropLast, piece.getLast? ≠ some ')'
  trailing : ∀ piece ∈ (splitAt ',' v).dropLast, trimEnd piece = piece
  leading : ∀ piece ∈ (splitAt ',' v).tail, trimStart piece = piece

/-- A value without commas can be written in parentheses. -/
theorem isGrouped_of_not_mem {v : List Char} (hv : ',' ∉ v) : IsGrouped v := by
  have hpieces := Text.splitAt_of_not_mem hv
  constructor <;> (intro piece hpiece; rw [hpieces] at hpiece; cases hpiece)

/-- What a value of several pieces must be like in front of its first comma and behind it. -/
theorem isGrouped_cons {x v : List Char} (hx : ',' ∉ x) (h : IsGrouped (x ++ ',' :: v)) :
    x.getLast? ≠ some ')' ∧ trimEnd x = x ∧ IsGrouped v ∧ ∀ piece ∈ splitAt ',' v, trimStart piece = piece := by
  obtain ⟨closing, trailing, leading⟩ := h
  rw [Text.splitAt_append_sep, Text.splitAt_of_not_mem hx, List.singleton_append] at closing trailing leading
  rw [List.dropLast_cons_of_ne_nil (Text.splitAt_ne_nil v)] at closing trailing
  rw [List.forall_mem_cons] at closing trailing
  exact ⟨closing.1, trailing.1, ⟨closing.2, trailing.2, fun piece h => leading piece (List.mem_of_mem_tail h)⟩,
    leading⟩

instance (v : List Char) : Decidable (IsBare v) :=
  decidable_of_iff (',' ∉ v ∧ trim v = v ∧ v.head? ≠ some '(')
    ⟨fun h => ⟨h.1, h.2.1, h.2.2⟩, fun h => ⟨h.1, h.2, h.3⟩⟩

instance (v : List Char) : Decidable (IsGrouped v) :=
  decidable_of_iff
    ((∀ piece ∈ (splitAt ',' v).dropLast, piece.getLast? ≠ some ')') ∧
      (∀ piece ∈ (splitAt ',' v).dropLast, trimEnd piece = piece) ∧
        ∀ piece ∈ (splitAt ',' v).tail, trimStart piece = piece)
    ⟨fun h => ⟨h.1, h.2.1, h.2.2⟩, fun h => ⟨h.1, h.2, h.3⟩⟩

/-- The ways to write a value among arguments. -/
inductive Writes (v : String) : String → Prop
  | bare {pre post : String} : (∀ c ∈ pre.toList, Text.isBlank c = true) →
      (∀ c ∈ post.toList, Text.isBlank c = true) → IsBare v.toList → Writes v (pre ++ v ++ post)
  | grouped {pre post : String} : (∀ c ∈ pre.toList, Text.isBlank c = true) →
      (∀ c ∈ post.toList, Text.isBlank c = true) → IsGrouped v.toList →
      Writes v (pre ++ ("(" ++ v ++ ")") ++ post)

section Reading

variable {ts : List (List Char)}

theorem not_mem_of_blank {s : List Char} (hs : ∀ c ∈ s, Text.isBlank c = true) : ',' ∉ s := fun h =>
  absurd (hs ',' h) (by decide)

theorem joinGroups_bare {v : List Char} (hv : v.head? ≠ some '(') :
    joinGroups none (v :: ts) = v :: joinGroups none ts := by
  conv_lhs => unfold joinGroups
  split
  · exact absurd rfl hv
  · rfl

theorem joinGroups_single (v : List Char) :
    joinGroups none (('(' :: (v ++ [')'])) :: ts) = v :: joinGroups none ts := by
  show (if (v ++ [')']).getLast? = some ')' then (v ++ [')']).dropLast :: joinGroups none ts
    else joinGroups (some (v ++ [')'])) ts) = _
  rw [if_pos List.getLast?_concat, List.dropLast_concat]

theorem joinGroups_open {x : List Char} (hx : x.getLast? ≠ some ')') :
    joinGroups none (('(' :: x) :: ts) = joinGroups (some x) ts := by
  show (if x.getLast? = some ')' then x.dropLast :: joinGroups none ts else joinGroups (some x) ts) = _
  rw [if_neg hx]

theorem joinGroups_inner (g : List Char) {x : List Char} (hx : x.getLast? ≠ some ')') :
    joinGroups (some g) (x :: ts) = joinGroups (some (g ++ ',' :: x)) ts := by
  show (if x.getLast? = some ')' then (g ++ ',' :: x.dropLast) :: joinGroups none ts
    else joinGroups (some (g ++ ',' :: x)) ts) = _
  rw [if_neg hx]

theorem joinGroups_close (g x : List Char) :
    joinGroups (some g) ((x ++ [')']) :: ts) = (g ++ ',' :: x) :: joinGroups none ts := by
  show (if (x ++ [')']).getLast? = some ')' then (g ++ ',' :: (x ++ [')']).dropLast) :: joinGroups none ts
    else joinGroups (some (g ++ ',' :: (x ++ [')']))) ts) = _
  rw [if_pos List.getLast?_concat, List.dropLast_concat]

/-- The rest of a group is read to its end. -/
theorem joinGroups_rest {v : List Char} (hv : IsGrouped v)
    (hleading : ∀ piece ∈ splitAt ',' v, trimStart piece = piece) {post : List Char}
    (hpost : ∀ c ∈ post, Text.isBlank c = true) (g : List Char) :
    joinGroups (some g) ((splitAt ',' (v ++ ')' :: post)).map trim ++ ts) =
      (g ++ ',' :: v) :: joinGroups none ts := by
  induction v using @Text.pieces_induction ',' generalizing g with
  | last x hx =>
    rw [Text.splitAt_of_not_mem hx] at hleading
    have hmem : ',' ∉ x ++ ')' :: post := by
      simp [hx, not_mem_of_blank hpost]
    have htrim : trim (x ++ ')' :: post) = x ++ [')'] := by
      unfold trim
      rw [Text.trimStart_append_sep (by decide), hleading x (List.mem_singleton_self x),
        Text.trimEnd_append_sep (by decide), Text.trimEnd_of_blank hpost]
    rw [Text.splitAt_of_not_mem hmem, List.map_singleton, htrim]
    exact joinGroups_close g x
  | step x v hx ih =>
    obtain ⟨hclosing, htrailing, hv', hleading'⟩ := isGrouped_cons hx hv
    have hx' : trimStart x = x := hleading x (by simp [Text.splitAt_append_sep, Text.splitAt_of_not_mem hx])
    have htrim : trim x = x := by
      unfold trim
      rw [hx', htrailing]
    rw [List.append_assoc, List.cons_append, Text.splitAt_append_sep, Text.splitAt_of_not_mem hx,
      List.singleton_append, List.map_cons, htrim, List.cons_append, joinGroups_inner g hclosing,
      ih hv' hleading', List.append_assoc, List.cons_append]

/-- A value in parentheses is read as what it was. -/
theorem joinGroups_group {v pre post : List Char} (hpre : ∀ c ∈ pre, Text.isBlank c = true)
    (hpost : ∀ c ∈ post, Text.isBlank c = true) (hv : IsGrouped v) :
    joinGroups none ((splitAt ',' (pre ++ '(' :: (v ++ ')' :: post))).map trim ++ ts) =
      v :: joinGroups none ts := by
  have hopen : ∀ x, trim (pre ++ '(' :: x) = '(' :: trimEnd x := fun x => by
    unfold trim
    rw [Text.trimStart_append_sep (by decide), Text.trimStart_of_blank hpre]
    exact Text.trimEnd_append_sep (by decide) [] x
  by_cases hcomma : ',' ∈ v
  · -- the piece in front of the first comma opens the group, and the others go on with it
    obtain ⟨x, v, rfl, hx⟩ := List.eq_append_cons_of_mem hcomma
    obtain ⟨hclosing, htrailing, hv', hleading⟩ := isGrouped_cons hx hv
    have hmem : ',' ∉ pre ++ '(' :: x := by
      simp [not_mem_of_blank hpre, hx]
    rw [List.append_assoc, List.cons_append, ← List.cons_append, ← List.append_assoc, Text.splitAt_append_sep,
      Text.splitAt_of_not_mem hmem, List.singleton_append, List.map_cons, hopen, htrailing, List.cons_append,
      joinGroups_open hclosing, joinGroups_rest hv' hleading hpost]
  · have hmem : ',' ∉ pre ++ '(' :: (v ++ ')' :: post) := by
      simp [not_mem_of_blank hpre, not_mem_of_blank hpost, hcomma]
    rw [Text.splitAt_of_not_mem hmem, List.map_singleton, hopen, Text.trimEnd_append_sep (by decide),
      Text.trimEnd_of_blank hpost]
    exact joinGroups_single v

/-- A written value is read as what it was, whatever follows. -/
theorem joinGroups_writes {v t : String} (h : Writes v t) :
    joinGroups none ((splitAt ',' t.toList).map trim ++ ts) = v.toList :: joinGroups none ts := by
  cases h with
  | @bare pre post hpre hpost hv =>
    have hmem : ',' ∉ (pre ++ v ++ post).toList := by
      simp [not_mem_of_blank hpre, not_mem_of_blank hpost, hv.comma]
    rw [Text.splitAt_of_not_mem hmem, List.map_singleton, String.toList_append, String.toList_append,
      Text.trim_padded hpre hpost, hv.trimmed]
    exact joinGroups_bare hv.opening
  | @grouped pre post hpre hpost hv =>
    have htext : (pre ++ ("(" ++ v ++ ")") ++ post).toList =
        pre.toList ++ '(' :: (v.toList ++ ')' :: post.toList) := by simp
    rw [htext]
    exact joinGroups_group hpre hpost hv

/-- Written values with commas between them are read one after the other. -/
theorem joinGroups_intercalate {values texts : List String} (h : List.Forall₂ Writes values texts)
    (hne : texts ≠ []) :
    joinGroups none ((splitAt ',' (String.intercalate "," texts).toList).map trim) =
      values.map String.toList := by
  induction h with
  | nil => exact absurd rfl hne
  | @cons v t values texts hv hrest ih =>
    by_cases htexts : texts = []
    · subst htexts
      cases hrest
      have hread := @joinGroups_writes [] _ _ hv
      rw [List.append_nil] at hread
      rw [String.intercalate_singleton, hread]
      rfl
    · rw [String.intercalate_cons_of_ne_nil htexts, String.toList_append, String.toList_append,
        show ",".toList = [','] from rfl, List.append_assoc, List.singleton_append, Text.splitAt_append_sep,
        List.map_append, joinGroups_writes hv, ih htexts]
      rfl

/-- What the pieces of a group that goes on are like. -/
structure IsOpen (g : List Char) : Prop where
  closing : ∀ piece ∈ splitAt ',' g, piece.getLast? ≠ some ')'
  trailing : ∀ piece ∈ splitAt ',' g, trimEnd piece = piece
  leading : ∀ piece ∈ (splitAt ',' g).tail, trimStart piece = piece

namespace IsOpen

variable {g x : List Char}

theorem isGrouped (hg : IsOpen g) : IsGrouped g :=
  ⟨fun piece h => hg.closing piece (List.dropLast_subset _ h),
    fun piece h => hg.trailing piece (List.dropLast_subset _ h), hg.leading⟩

/-- A group goes on behind its first token. -/
theorem first (hx : ',' ∉ x) (htrim : trim ('(' :: x) = '(' :: x) (hclosing : x.getLast? ≠ some ')') :
    IsOpen x := by
  have hend := (Text.ends_of_trim htrim).2
  rw [show trimEnd ('(' :: x) = '(' :: trimEnd x from Text.trimEnd_append_sep (by decide) [] x] at hend
  refine ⟨?_, ?_, ?_⟩ <;> rw [Text.splitAt_of_not_mem hx]
  · simpa using hclosing
  · simpa using (List.cons.inj hend).2
  · exact fun piece h => absurd h List.not_mem_nil

theorem tail_append (hg : IsOpen g) (hx : ',' ∉ x) (hstart : trimStart x = x) :
    ∀ piece ∈ (splitAt ',' (g ++ ',' :: x)).tail, trimStart piece = piece := by
  rw [Text.splitAt_append_sep, Text.splitAt_of_not_mem hx, List.tail_append_of_ne_nil (Text.splitAt_ne_nil g)]
  intro piece hpiece
  rcases List.mem_append.1 hpiece with h | h
  · exact hg.leading piece h
  · rw [List.mem_singleton.1 h]
    exact hstart

/-- A group ends with the token that closes it, whatever that is like at its end. -/
theorem closed (hg : IsOpen g) (hx : ',' ∉ x) (htrim : trim (x ++ [')']) = x ++ [')']) :
    IsGrouped (g ++ ',' :: x) := by
  have hstart : trimStart x = x := by
    have h := Text.trimStart_eq_self_iff.1 (Text.ends_of_trim htrim).1
    rw [Text.trimStart_eq_self_iff]
    cases x with
    | nil => exact fun c hc => by cases hc
    | cons c cs => exact h
  refine ⟨?_, ?_, hg.tail_append hx hstart⟩
  all_goals rw [Text.splitAt_append_sep, Text.splitAt_of_not_mem hx, List.dropLast_concat]
  · exact hg.closing
  · exact hg.trailing

theorem goes_on (hg : IsOpen g) (hx : ',' ∉ x) (htrim : trim x = x) (hclosing : x.getLast? ≠ some ')') :
    IsOpen (g ++ ',' :: x) := by
  obtain ⟨hstart, hend⟩ := Text.ends_of_trim htrim
  refine ⟨?_, ?_, hg.tail_append hx hstart⟩
  all_goals
    rw [Text.splitAt_append_sep, Text.splitAt_of_not_mem hx]
    intro piece hpiece
    rcases List.mem_append.1 hpiece with h | h
  · exact hg.closing piece h
  · rw [List.mem_singleton.1 h]
    exact hclosing
  · exact hg.trailing piece h
  · rw [List.mem_singleton.1 h]
    exact hend

end IsOpen

/-- What is read can be written. -/
theorem writable_of_mem (hts : ∀ t ∈ ts, trim t = t ∧ ',' ∉ t) :
    (∀ v ∈ joinGroups none ts, IsBare v ∨ IsGrouped v) ∧
      ∀ g, IsOpen g → ∀ v ∈ joinGroups (some g) ts, IsBare v ∨ IsGrouped v := by
  induction ts with
  | nil =>
    refine ⟨fun v hv => absurd hv List.not_mem_nil, fun g hg v hv => ?_⟩
    rw [List.mem_singleton.1 hv]
    exact .inr hg.isGrouped
  | cons t ts ih =>
    rw [List.forall_mem_cons] at hts
    obtain ⟨⟨htrim, hcomma⟩, hts⟩ := hts
    obtain ⟨ihnone, ihsome⟩ := ih hts
    constructor
    · -- a value by itself, a group of one token, or the first token of a longer one
      by_cases hopen : t.head? = some '('
      · obtain ⟨x, rfl⟩ := List.head?_eq_some_iff.1 hopen
        rw [List.mem_cons, not_or] at hcomma
        by_cases hclosing : x.getLast? = some ')'
        · obtain ⟨y, rfl⟩ := List.getLast?_eq_some_iff.1 hclosing
          rw [joinGroups_single, List.forall_mem_cons]
          exact ⟨.inr (isGrouped_of_not_mem fun h => hcomma.2 (List.mem_append_left _ h)), ihnone⟩
        · rw [joinGroups_open hclosing]
          exact ihsome x (.first hcomma.2 htrim hclosing)
      · rw [joinGroups_bare hopen, List.forall_mem_cons]
        exact ⟨.inl ⟨hcomma, htrim, hopen⟩, ihnone⟩
    · -- the last token of a group, or one with which it goes on
      intro g hg
      by_cases hclosing : t.getLast? = some ')'
      · obtain ⟨x, rfl⟩ := List.getLast?_eq_some_iff.1 hclosing
        rw [joinGroups_close, List.forall_mem_cons]
        exact ⟨.inr (hg.closed (fun h => hcomma (List.mem_append_left _ h)) htrim), ihnone⟩
      · rw [joinGroups_inner g hclosing]
        exact ihsome _ (hg.goes_on hcomma htrim hclosing)

theorem joinGroups_ne_nil : (ts ≠ [] → joinGroups none ts ≠ []) ∧ ∀ g, joinGroups (some g) ts ≠ [] := by
  induction ts with
  | nil => exact ⟨fun h => absurd rfl h, fun g => List.cons_ne_nil _ _⟩
  | cons t ts ih =>
    refine ⟨fun _ => ?_, fun g => ?_⟩
    · unfold joinGroups
      split
      · split_ifs
        · exact List.cons_ne_nil _ _
        · exact ih.2 _
      · exact List.cons_ne_nil _ _
    · unfold joinGroups
      split_ifs
      · exact List.cons_ne_nil _ _
      · exact ih.2 _

end Reading

/-- However the values of a list are written, with commas between them, they are read as that list, if it is
not empty; and the lists that some text is read as are those whose values can be written. -/
theorem arguments_pass (values : List String) :
    (values ≠ [] → ∀ texts, List.Forall₂ Writes values texts →
      splitArgs (String.intercalate "," texts) = values) ∧
    ((∃ text, splitArgs text = values) ↔
      values ≠ [] ∧ ∀ v ∈ values, IsBare v.toList ∨ IsGrouped v.toList) := by
  have hread : values ≠ [] → ∀ texts, List.Forall₂ Writes values texts →
      splitArgs (String.intercalate "," texts) = values := by
    intro hne texts htexts
    have hne' : texts ≠ [] := fun h => hne (List.forall₂_nil_right_iff.1 (h ▸ htexts))
    unfold splitArgs
    rw [joinGroups_intercalate htexts hne', List.map_map]
    simp
  refine ⟨hread, ?_, fun ⟨hne, hvalues⟩ => ?_⟩
  · rintro ⟨text, rfl⟩
    unfold splitArgs
    refine ⟨?_, fun v hv => ?_⟩
    · simpa using joinGroups_ne_nil.1 (by simpa using Text.splitAt_ne_nil text.toList)
    · obtain ⟨chars, hchars, rfl⟩ := List.mem_map.1 hv
      rw [String.toList_ofList]
      refine (writable_of_mem fun t ht => ?_).1 chars hchars
      obtain ⟨piece, hpiece, rfl⟩ := List.mem_map.1 ht
      exact ⟨Text.trim_trim piece, fun h =>
        Text.not_mem_of_mem_splitAt hpiece ((Text.trim_within piece).subset h)⟩
  · have hwrite : ∀ v ∈ values, ∃ text, Writes v text := fun v hv => by
      rcases hvalues v hv with h | h
      · exact ⟨_, @Writes.bare v "" "" (by simp) (by simp) h⟩
      · exact ⟨_, @Writes.grouped v "" "" (by simp) (by simp) h⟩
    choose! written hwritten using hwrite
    refine ⟨_, hread hne (values.map written) ?_⟩
    rw [List.forall₂_map_right_iff, List.forall₂_same]
    exact hwritten

/-- Nothing, a value with blanks around it, one with a parenthesis in front, and a call. -/
def mixedValues : List String := ["", " x ", "(y", "f(1,2)"]

/-- How they can be written. -/
def mixedTexts : List String := ["\t", "( x ) ", "((y)", " (f(1,2))"]

theorem arguments_pass_mixedValues :
    mixedValues ≠ [] ∧ List.Forall₂ Writes mixedValues mixedTexts ∧
      splitArgs "\t,( x ) ,((y), (f(1,2))" = mixedValues := by
  have hblank : ∀ {s : String}, s.toList.all Text.isBlank = true → ∀ c ∈ s.toList, Text.isBlank c = true :=
    List.all_eq_true.1
  have hwrites : List.Forall₂ Writes mixedValues mixedTexts :=
    .cons (@Writes.bare "" "\t" "" (hblank rfl) (hblank rfl) (by decide +kernel)) <|
      .cons (@Writes.grouped " x " "" " " (hblank rfl) (hblank rfl) (by decide +kernel)) <|
        .cons (@Writes.grouped "(y" "" "" (hblank rfl) (hblank rfl) (by decide +kernel)) <|
          .cons (@Writes.grouped "f(1,2)" " " "" (hblank rfl) (hblank rfl) (by decide +kernel)) .nil
  exact ⟨by decide, hwrites, (arguments_pass mixedValues).1 (by decide) mixedTexts hwrites⟩

/-- The token at a place has an opening parenthesis in front. -/
def Begins (tokens : List (List Char)) (i : Nat) : Prop := ∃ t ∈ tokens[i]?, t.head? = some '('

/-- The token at a place has a closing parenthesis at its end. -/
def Ends (tokens : List (List Char)) (i : Nat) : Prop := ∃ t ∈ tokens[i]?, t.getLast? = some ')'

/-- A token opens a group if it has an opening parenthesis in front and every group opened before it has come
to an end. -/
def Opens (tokens : List (List Char)) (i : Nat) : Prop :=
  Begins tokens i ∧ ∀ j < i, Opens tokens j → ∃ k, j ≤ k ∧ k < i ∧ Ends tokens k

/-- A token closes a group if it is the first, from the one that opens the group on, with a closing
parenthesis at its end. -/
def Closes (tokens : List (List Char)) (i : Nat) : Prop :=
  Ends tokens i ∧ ∃ j ≤ i, Opens tokens j ∧ ∀ k, j ≤ k → k < i → ¬Ends tokens k

/-- A group opened before a place goes on there. -/
def InGroup (tokens : List (List Char)) (i : Nat) : Prop :=
  ∃ j < i, Opens tokens j ∧ ∀ k, j ≤ k → k < i → ¬Ends tokens k

section Groups

variable {tokens : List (List Char)} {i : Nat}

theorem opens_iff : Opens tokens i ↔ Begins tokens i ∧ ¬InGroup tokens i := by
  rw [Opens]
  unfold InGroup
  push Not
  rfl

/-- A group is opened at a place or before it, and not ended in front of it, just if one goes on there or the token
there has an opening parenthesis in front. -/
theorem exists_opens_iff :
    (∃ j ≤ i, Opens tokens j ∧ ∀ k, j ≤ k → k < i → ¬Ends tokens k) ↔ InGroup tokens i ∨ Begins tokens i := by
  constructor
  · rintro ⟨j, hj, hopens, hends⟩
    rcases hj.lt_or_eq with hj | rfl
    · exact .inl ⟨j, hj, hopens, hends⟩
    · exact .inr (opens_iff.1 hopens).1
  · intro h
    by_cases hgroup : InGroup tokens i
    · obtain ⟨j, hj, hopens, hends⟩ := hgroup
      exact ⟨j, hj.le, hopens, hends⟩
    · exact ⟨i, le_rfl, opens_iff.2 ⟨h.resolve_left hgroup, hgroup⟩, fun k hik hki => absurd hki hik.not_gt⟩

theorem closes_iff : Closes tokens i ↔ Ends tokens i ∧ (InGroup tokens i ∨ Begins tokens i) :=
  and_congr_right fun _ => exists_opens_iff

theorem not_inGroup_zero : ¬InGroup tokens 0 := fun ⟨_, hj, _⟩ => absurd hj (Nat.not_lt_zero _)

/-- A group goes on behind a token that is in it or opens it, unless the token ends it. -/
theorem inGroup_succ : InGroup tokens (i + 1) ↔ (InGroup tokens i ∨ Begins tokens i) ∧ ¬Ends tokens i := by
  rw [← exists_opens_iff]
  constructor
  · rintro ⟨j, hj, hopens, hends⟩
    have hj := Nat.le_of_lt_succ hj
    exact ⟨⟨j, hj, hopens, fun k hjk hki => hends k hjk (Nat.lt_succ_of_lt hki)⟩, hends i hj (Nat.lt_succ_self i)⟩
  · rintro ⟨⟨j, hj, hopens, hends⟩, hend⟩
    refine ⟨j, Nat.lt_succ_of_le hj, hopens, fun k hjk hki => ?_⟩
    rcases (Nat.le_of_lt_succ hki).lt_or_eq with hki | rfl
    · exact hends k hjk hki
    · exact hend

instance : DecidablePred (Begins tokens) := fun i => inferInstanceAs (Decidable (∃ t ∈ tokens[i]?, _))

instance : DecidablePred (Ends tokens) := fun i => inferInstanceAs (Decidable (∃ t ∈ tokens[i]?, _))

instance InGroup.decidable : DecidablePred (InGroup tokens)
  | 0 => .isFalse not_inGroup_zero
  | i + 1 =>
    have := InGroup.decidable i
    decidable_of_iff _ inGroup_succ.symm

instance : DecidablePred (Opens tokens) := fun _ => decidable_of_iff _ opens_iff.symm

instance : DecidablePred (Closes tokens) := fun _ => decidable_of_iff _ closes_iff.symm

/-- The parenthesis that opens a group in front of the token at a place. -/
def opener (tokens : List (List Char)) (i : Nat) : List Char := if Opens tokens i then ['('] else []

/-- The parenthesis that closes a group at the end of the token at a place. -/
def closer (tokens : List (List Char)) (i : Nat) : List Char := if Closes tokens i then [')'] else []

theorem getLast?_opened (x : List Char) : ('(' :: x).getLast? = some ')' ↔ x.getLast? = some ')' := by
  cases x <;> simp

/-- A token, less the parentheses by which it opens or closes a group, goes to the value that it finishes or to
the group that it leaves open. -/
theorem joinGroups_step {t : List Char} (ht : tokens[i]? = some t) (hcomma : ',' ∉ t)
    {group : Option (List Char)} (hgroup : group.isSome ↔ InGroup tokens i) :
    ∃ x values group', t = opener tokens i ++ x ++ closer tokens i ∧
      (∀ ts, joinGroups group (t :: ts) = values ++ joinGroups group' ts) ∧
      (group'.isSome ↔ InGroup tokens (i + 1)) ∧
      (values ++ group'.toList).flatMap (splitAt ',') = group.toList.flatMap (splitAt ',') ++ [x] := by
  have hbegins : Begins tokens i ↔ t.head? = some '(' := by simp [Begins, ht]
  have hends : Ends tokens i ↔ t.getLast? = some ')' := by simp [Ends, ht]
  unfold opener closer
  simp only [opens_iff, closes_iff, inGroup_succ, ← hgroup, hbegins, hends]
  cases group with
  | none =>
    -- a group of one token, the first token of a longer one, or a value by itself
    by_cases hopen : t.head? = some '('
    · obtain ⟨x, rfl⟩ := List.head?_eq_some_iff.1 hopen
      simp only [getLast?_opened]
      by_cases hclosing : x.getLast? = some ')'
      · obtain ⟨y, rfl⟩ := List.getLast?_eq_some_iff.1 hclosing
        have hpieces : splitAt ',' y = [y] := Text.splitAt_of_not_mem (by simpa using hcomma)
        exact ⟨y, [y], none, by simp, fun ts => joinGroups_single y, by simp, by simp [hpieces]⟩
      · have hpieces : splitAt ',' x = [x] := Text.splitAt_of_not_mem (by simpa using hcomma)
        exact ⟨x, [], some x, by simp [hclosing], fun ts => joinGroups_open hclosing, by simp [hclosing],
          by simp [hpieces]⟩
    · have hpieces : splitAt ',' t = [t] := Text.splitAt_of_not_mem hcomma
      exact ⟨t, [t], none, by simp [hopen], fun ts => joinGroups_bare hopen, by simp [hopen], by simp [hpieces]⟩
  | some g =>
    -- the last token of a group, or one with which it goes on
    have hpieces : ∀ {x}, ',' ∉ x → splitAt ',' (g ++ ',' :: x) = splitAt ',' g ++ [x] := fun hx => by
      rw [Text.splitAt_append_sep, Text.splitAt_of_not_mem hx]
    by_cases hclosing : t.getLast? = some ')'
    · obtain ⟨x, rfl⟩ := List.getLast?_eq_some_iff.1 hclosing
      have hx : ',' ∉ x := by simpa using hcomma
      exact ⟨x, [g ++ ',' :: x], none, by simp, fun ts => joinGroups_close g x, by simp, by simp [hpieces hx]⟩
    · exact ⟨t, [], some (g ++ ',' :: t), by simp [hclosing], fun ts => joinGroups_inner g hclosing,
        by simp [hclosing], by simp [hpieces hcomma]⟩

/-- The pieces of the values that are read from a place on are those of the group that goes on there and the
tokens from there on, less the parentheses of groups. -/
theorem flatMap_joinGroups {ts : List (List Char)} (hcomma : ∀ t ∈ ts, ',' ∉ t) (hts : tokens.drop i = ts)
    {group : Option (List Char)} (hgroup : group.isSome ↔ InGroup tokens i) :
    ∃ kept : List (List Char),
      ts = kept.mapIdx (fun n x => opener tokens (n + i) ++ x ++ closer tokens (n + i)) ∧
      (joinGroups group ts).flatMap (splitAt ',') = group.toList.flatMap (splitAt ',') ++ kept := by
  induction ts generalizing i group with
  | nil =>
    refine ⟨[], rfl, ?_⟩
    cases group <;> simp [joinGroups]
  | cons t ts ih =>
    rw [List.forall_mem_cons] at hcomma
    have ht : tokens[i]? = some t := by
      rw [← List.head?_drop, hts, List.head?_cons]
    have hnext : tokens.drop (i + 1) = ts := by
      rw [← List.tail_drop, hts, List.tail_cons]
    obtain ⟨x, values, group', hx, hread, hgroup', hpieces⟩ := joinGroups_step ht hcomma.1 hgroup
    obtain ⟨kept, hkept, hrest⟩ := ih hcomma.2 hnext hgroup'
    refine ⟨x :: kept, ?_, ?_⟩
    · simp only [List.mapIdx_cons, Nat.zero_add, Nat.add_right_comm _ 1 i]
      exact congrArg₂ List.cons hx hkept
    · calc (joinGroups group (t :: ts)).flatMap (splitAt ',')
          = (values ++ group'.toList).flatMap (splitAt ',') ++ kept := by
            rw [hread, List.flatMap_append, hrest, List.flatMap_append, List.append_assoc]
        _ = group.toList.flatMap (splitAt ',') ++ x :: kept := by
            rw [hpieces, List.append_assoc, List.singleton_append]

/-- The tokens of an argument text: what stands between its commas, without the blanks around it. -/
def tokensOf (text : String) : List (List Char) := (text.toList.splitOn ',').map trim

theorem not_mem_of_mem_tokensOf {text : String} {t : List Char} (ht : t ∈ tokensOf text) : ',' ∉ t := by
  unfold tokensOf at ht
  rw [← Text.splitAt_eq_splitOn] at ht
  obtain ⟨piece, hpiece, rfl⟩ := List.mem_map.1 ht
  exact fun h => Text.not_mem_of_mem_splitAt hpiece ((Text.trim_within piece).subset h)

/-- The values of a text have a piece between commas for each of its tokens, and with commas between them they
are its tokens with commas between them, less the parenthesis in front of each that opens a group and the one at
the end of each that closes a group. -/
theorem splitArgs_conserves (text : String) :
    ((splitArgs text).map fun v => 1 + v.toList.count ',').sum = (tokensOf text).length ∧
    ∃ kept : List (List Char),
      tokensOf text = kept.mapIdx (fun i x => opener (tokensOf text) i ++ x ++ closer (tokensOf text) i) ∧
      String.intercalate "," (splitArgs text) = String.ofList ([','].intercalate kept) := by
  have hsplit : splitArgs text = (joinGroups none (tokensOf text)).map String.ofList := by
    unfold splitArgs tokensOf
    rw [Text.splitAt_eq_splitOn]
  have hne : joinGroups none (tokensOf text) ≠ [] := joinGroups_ne_nil.1 (by simp [tokensOf])
  have hgroup : (none : Option (List Char)).isSome ↔ InGroup (tokensOf text) 0 := by simp [not_inGroup_zero]
  obtain ⟨kept, hkept, hread⟩ :=
    flatMap_joinGroups (fun t => not_mem_of_mem_tokensOf) (tokensOf text).drop_zero hgroup
  rw [Option.toList_none, List.flatMap_nil, List.nil_append] at hread
  rw [hsplit]
  refine ⟨?_, kept, hkept, ?_⟩
  · calc (((joinGroups none (tokensOf text)).map String.ofList).map fun v => 1 + v.toList.count ',').sum
        = ((joinGroups none (tokensOf text)).flatMap (splitAt ',')).length := by
          simp [List.length_flatMap, Text.length_splitAt, Function.comp_def]
      _ = kept.length := by rw [hread]
      _ = (tokensOf text).length := by rw [hkept, List.length_mapIdx]
  · have hchars : [','].intercalate (joinGroups none (tokensOf text)) = [','].intercalate kept := by
      rw [← hread, ← Text.splitAt_intercalate hne, Text.intercalate_splitAt]
    rw [← hchars, ← String.toList_inj, String.toList_intercalate, String.toList_ofList]
    simp [Function.comp_def]

/-- A closing parenthesis alone and those within a group are kept, and a group without an end is one. -/
example : splitArgs "a), ((b ,(c)) ,,(d" = ["a)", "(b,(c)", "", "d"] := by decide +kernel

example : (List.range 5).filter (Opens (tokensOf "a), ((b ,(c)) ,,(d")) = [1, 4] := by decide +kernel

end Groups

end Template

end Workload

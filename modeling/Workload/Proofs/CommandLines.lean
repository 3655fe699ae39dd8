import Mathlib.Data.List.Basic
import Mathlib.Tactic.SplitIfs
import Workload.Command

/-!
# Command lines of arguments

An argument is written in segments, each of them in a style of its own: as it is, with a backslash before
every character, between single quotes, or between double quotes.  A command line of arguments that are
written in any of these ways, with blanks between them, is split into just these arguments, and every list of
arguments has a command line (`split_written`).
-/

namespace Workload.Command

/-- Whether a character stands for itself outside quotes. -/
def IsPlain (c : Char) : Prop := Text.isBlank c = false ∧ c ≠ '\'' ∧ c ≠ '"' ∧ c ≠ '\\'

instance (c : Char) : Decidable (IsPlain c) := inferInstanceAs (Decidable (_ ∧ _))

/-- Whether between double quotes a backslash protects a character. -/
def IsGuarded (c : Char) : Prop := c = '"' ∨ c = '\\'

instance (c : Char) : Decidable (IsGuarded c) := inferInstanceAs (Decidable (_ ∨ _))

/-- What stands between double quotes, and what it says. -/
inductive Quoted : List Char → List Char → Prop
  | nil : Quoted [] []
  | plain {c : Char} {s t : List Char} : ¬IsGuarded c → Quoted s t → Quoted (c :: s) (c :: t)
  | escaped {c : Char} {s t : List Char} : IsGuarded c → Quoted s t → Quoted ('\\' :: c :: s) (c :: t)
  | kept {c : Char} {s t : List Char} :
    ¬IsGuarded c → Quoted s t → Quoted ('\\' :: c :: s) ('\\' :: c :: t)

/-! ### Reading on -/

section Reading

variable {word s : List Char} {c : Char}

theorem splitFrom_escaped : splitFrom .bare word ('\\' :: c :: s) = splitFrom .bare (c :: word) s := rfl

theorem splitFrom_plain (hc : IsPlain c) : splitFrom .bare word (c :: s) = splitFrom .bare (c :: word) s := by
  obtain ⟨hblank, hsingle, hdouble, hescape⟩ := hc
  conv_lhs => unfold splitFrom
  simp [hblank, hsingle, hdouble, hescape]

/-- An argument begins with what is not blank. -/
theorem splitFrom_gap (hc : Text.isBlank c = false) :
    splitFrom .gap word (c :: s) = splitFrom .bare word (c :: s) := by
  by_cases hescape : c = '\\'
  · subst hescape
    cases s <;> rfl
  · unfold splitFrom
    simp [hescape, hc]

theorem ne_of_isBlank (hc : Text.isBlank c = true) : c ≠ '\'' ∧ c ≠ '"' ∧ c ≠ '\\' := by
  refine ⟨?_, ?_, ?_⟩ <;> (rintro rfl; cases hc)

/-- A blank ends an argument. -/
theorem splitFrom_blank (hc : Text.isBlank c = true) :
    splitFrom .bare word (c :: s) = (splitFrom .gap [] s).map (word.reverse :: ·) := by
  conv_lhs => unfold splitFrom
  simp [ne_of_isBlank hc, hc]

theorem splitFrom_gap_blank (hc : Text.isBlank c = true) :
    splitFrom .gap word (c :: s) = splitFrom .gap [] s := by
  conv_lhs => unfold splitFrom
  simp [ne_of_isBlank hc, hc]

theorem splitFrom_single {body : List Char} (hbody : '\'' ∉ body) :
    splitFrom .single word (body ++ s) = splitFrom .single (body.reverse ++ word) s := by
  induction body generalizing word with
  | nil => rfl
  | cons c cs ih =>
    rw [List.mem_cons, not_or] at hbody
    rw [List.cons_append]
    conv_lhs => unfold splitFrom
    rw [if_neg (Ne.symm hbody.1), ih hbody.2]
    simp

theorem splitFrom_backslash : splitFrom .double word ('\\' :: c :: s) =
    if IsGuarded c then splitFrom .double (c :: word) s else splitFrom .double (c :: '\\' :: word) s :=
  rfl

theorem splitFrom_double {body text : List Char} (hbody : Quoted body text) :
    splitFrom .double word (body ++ s) = splitFrom .double (text.reverse ++ word) s := by
  induction hbody generalizing word with
  | nil => rfl
  | @plain c body text hc _ ih =>
    obtain ⟨hquote, hescape⟩ := not_or.1 hc
    rw [List.cons_append]
    conv_lhs => unfold splitFrom
    simp [hquote, hescape, ih]
  | @escaped c body text hc _ ih =>
    rw [List.cons_append, List.cons_append, splitFrom_backslash, if_pos hc, ih]
    simp
  | @kept c body text hc _ ih =>
    rw [List.cons_append, List.cons_append, splitFrom_backslash, if_neg hc, ih]
    simp

theorem splitFrom_singleQuoted {body : List Char} (hbody : '\'' ∉ body) :
    splitFrom .bare word ('\'' :: (body ++ '\'' :: s)) = splitFrom .bare (body.reverse ++ word) s := by
  have hopen : splitFrom .bare word ('\'' :: (body ++ '\'' :: s)) =
      splitFrom .single word (body ++ '\'' :: s) := rfl
  rw [hopen, splitFrom_single hbody]
  rfl

theorem splitFrom_doubleQuoted {body text : List Char} (hbody : Quoted body text) :
    splitFrom .bare word ('"' :: (body ++ '"' :: s)) = splitFrom .bare (text.reverse ++ word) s := by
  have hopen : splitFrom .bare word ('"' :: (body ++ '"' :: s)) =
      splitFrom .double word (body ++ '"' :: s) := rfl
  rw [hopen, splitFrom_double hbody]
  rfl

theorem splitFrom_blanks {gap : List Char} (hgap : ∀ c ∈ gap, Text.isBlank c = true) :
    splitFrom .gap [] (gap ++ s) = splitFrom .gap [] s := by
  induction gap with
  | nil => rfl
  | cons c cs ih =>
    rw [List.cons_append, splitFrom_gap_blank (hgap c List.mem_cons_self)]
    exact ih fun d hd => hgap d (List.mem_cons_of_mem _ hd)

/-- Blanks end an argument. -/
theorem splitFrom_bare_blanks {gap : List Char} (hgap : ∀ c ∈ gap, Text.isBlank c = true) (hne : gap ≠ []) :
    splitFrom .bare word (gap ++ s) = (splitFrom .gap [] s).map (word.reverse :: ·) := by
  obtain ⟨c, cs, rfl⟩ := List.exists_cons_of_ne_nil hne
  rw [List.cons_append, splitFrom_blank (hgap c List.mem_cons_self),
    splitFrom_blanks fun d hd => hgap d (List.mem_cons_of_mem _ hd)]

end Reading

/-! ### Writing -/

/-- A part of an argument in one of the styles. -/
inductive Segment where
  | bare (text : List Char) (plain : ∀ c ∈ text, IsPlain c)
  | escaped (text : List Char)
  | single (text : List Char) (inside : '\'' ∉ text)
  | double (text : List Char)

/-- A character as it stands between double quotes. -/
def guard (c : Char) : List Char := if IsGuarded c then ['\\', c] else [c]

namespace Segment

/-- What a segment says. -/
def text : Segment → List Char
  | bare t _ => t
  | escaped t => t
  | single t _ => t
  | double t => t

/-- How a segment is written. -/
def written : Segment → List Char
  | bare t _ => t
  | escaped t => t.flatMap fun c => ['\\', c]
  | single t _ => '\'' :: (t ++ ['\''])
  | double t => '"' :: (t.flatMap guard ++ ['"'])

end Segment

/-- An argument as it is written: something of it has to be there to be seen. -/
structure Argument where
  segments : List Segment
  visible : segments.flatMap Segment.written ≠ []

namespace Argument

def text (a : Argument) : List Char := a.segments.flatMap Segment.text

def written (a : Argument) : List Char := a.segments.flatMap Segment.written

end Argument

/-- An argument and the blanks in front of it. -/
structure Entry where
  gap : List Char
  blank : ∀ c ∈ gap, Text.isBlank c = true
  argument : Argument

def Entry.written (e : Entry) : List Char := e.gap ++ e.argument.written

/-- A command line: blanks stand between any two arguments, and may stand at both ends. -/
structure Line where
  entries : List Entry
  apart : ∀ e ∈ entries.tail, e.gap ≠ []
  rest : List Char
  blank : ∀ c ∈ rest, Text.isBlank c = true

namespace Line

def arguments (l : Line) : List String := l.entries.map fun e => String.ofList e.argument.text

def written (l : Line) : String := String.ofList (l.entries.flatMap Entry.written ++ l.rest)

end Line

theorem quoted_guard (t : List Char) : Quoted (t.flatMap guard) t := by
  induction t with
  | nil => exact .nil
  | cons c cs ih =>
    rw [List.flatMap_cons]
    unfold guard
    split_ifs with hc
    · exact .escaped hc ih
    · exact .plain hc ih

section Written

variable {word s : List Char}

theorem splitFrom_plainText {t : List Char} (ht : ∀ c ∈ t, IsPlain c) :
    splitFrom .bare word (t ++ s) = splitFrom .bare (t.reverse ++ word) s := by
  induction t generalizing word with
  | nil => rfl
  | cons c cs ih =>
    rw [List.cons_append, splitFrom_plain (ht c List.mem_cons_self),
      ih fun d hd => ht d (List.mem_cons_of_mem _ hd)]
    simp

theorem splitFrom_escapedText (t : List Char) :
    splitFrom .bare word (t.flatMap (fun c => ['\\', c]) ++ s) = splitFrom .bare (t.reverse ++ word) s := by
  induction t generalizing word with
  | nil => rfl
  | cons c cs ih =>
    rw [List.flatMap_cons, List.append_assoc, List.cons_append, List.cons_append, List.nil_append,
      splitFrom_escaped, ih]
    simp

/-- A segment is read as what it says. -/
theorem splitFrom_segment (g : Segment) :
    splitFrom .bare word (g.written ++ s) = splitFrom .bare (g.text.reverse ++ word) s := by
  cases g with
  | bare t plain => exact splitFrom_plainText plain
  | escaped t => exact splitFrom_escapedText t
  | single t inside =>
    have hread := @splitFrom_singleQuoted word s t inside
    simpa [Segment.written, Segment.text] using hread
  | double t =>
    have hread := @splitFrom_doubleQuoted word s _ t (quoted_guard t)
    simpa [Segment.written, Segment.text] using hread

theorem splitFrom_segments (gs : List Segment) :
    splitFrom .bare word (gs.flatMap Segment.written ++ s) =
      splitFrom .bare ((gs.flatMap Segment.text).reverse ++ word) s := by
  induction gs generalizing word with
  | nil => rfl
  | cons g gs ih =>
    rw [List.flatMap_cons, List.flatMap_cons, List.append_assoc, splitFrom_segment, ih]
    simp

/-- No segment begins with a blank. -/
theorem head_of_segment (g : Segment) : ∀ c ∈ g.written.head?, Text.isBlank c = false := by
  intro c hc
  cases g with
  | bare t plain => exact (plain c (List.mem_of_mem_head? hc)).1
  | escaped t =>
    cases t with
    | nil => cases hc
    | cons d ds =>
      cases hc
      rfl
  | single t inside =>
    cases hc
    rfl
  | double t =>
    cases hc
    rfl

theorem head_of_segments (gs : List Segment) :
    ∀ c ∈ (gs.flatMap Segment.written).head?, Text.isBlank c = false := by
  induction gs with
  | nil => exact fun c hc => by cases hc
  | cons g gs ih =>
    intro c hc
    rw [List.flatMap_cons, List.head?_append, Option.mem_def, Option.or_eq_some_iff] at hc
    rcases hc with hc | ⟨-, hc⟩
    · exact head_of_segment g c hc
    · exact ih c hc

/-- An argument is read from its first character on as what it says. -/
theorem splitFrom_argument (a : Argument) :
    splitFrom .gap [] (a.written ++ s) = splitFrom .bare a.text.reverse s := by
  have hread := @splitFrom_segments [] s a.segments
  obtain ⟨c, cs, hwritten⟩ := List.exists_cons_of_ne_nil a.visible
  have hblank := head_of_segments a.segments c (by rw [hwritten]; rfl)
  unfold Argument.written Argument.text
  rw [List.append_nil] at hread
  rw [← hread, hwritten, List.cons_append, splitFrom_gap hblank]

theorem splitFrom_entry (e : Entry) :
    splitFrom .gap [] (e.written ++ s) = splitFrom .bare e.argument.text.reverse s := by
  unfold Entry.written
  rw [List.append_assoc, splitFrom_blanks e.blank, splitFrom_argument]

/-- Behind an argument the ones after it are read one by one, each of them after a gap. -/
theorem splitFrom_entries {es : List Entry} {rest : List Char} (hes : ∀ e ∈ es, e.gap ≠ [])
    (hrest : ∀ c ∈ rest, Text.isBlank c = true) :
    splitFrom .bare word (es.flatMap Entry.written ++ rest) =
      some (word.reverse :: es.map fun e => e.argument.text) := by
  induction es generalizing word with
  | nil =>
    rw [List.flatMap_nil, List.nil_append]
    by_cases hne : rest = []
    · rw [hne]
      rfl
    · have hread := @splitFrom_bare_blanks word [] rest hrest hne
      rwa [List.append_nil] at hread
  | cons e es ih =>
    rw [List.forall_mem_cons] at hes
    rw [List.flatMap_cons, List.append_assoc]
    unfold Entry.written
    rw [List.append_assoc, splitFrom_bare_blanks e.blank hes.1, splitFrom_argument]
    have hread := @ih e.argument.text.reverse hes.2
    unfold Entry.written at hread
    rw [hread, List.reverse_reverse]
    rfl

theorem splitFrom_line (l : Line) :
    splitFrom .gap [] (l.entries.flatMap Entry.written ++ l.rest) =
      some (l.entries.map fun e => e.argument.text) := by
  obtain ⟨es, apart, rest, blank⟩ := l
  cases es with
  | nil =>
    have hread := @splitFrom_blanks [] rest blank
    rwa [List.append_nil] at hread
  | cons e es =>
    simp only [List.flatMap_cons, List.map_cons]
    rw [List.append_assoc, splitFrom_entry, @splitFrom_entries _ es rest apart blank,
      List.reverse_reverse]

end Written

/-- A text between double quotes, a blank in front of it. -/
def Entry.quote (t : String) : Entry where
  gap := [' ']
  blank := List.all_eq_true.1 (by decide)
  argument := ⟨[.double t.toList], by simp [Segment.written]⟩

/-- However arguments are written, their command line is split into them, and every list of arguments can be
written. -/
theorem split_written :
    (∀ l : Line, split l.written = .ok l.arguments) ∧ ∀ args : List String, ∃ l : Line, l.arguments = args := by
  refine ⟨fun l => ?_, fun args => ⟨⟨args.map Entry.quote, ?_, [], ?_⟩, ?_⟩⟩
  · unfold split Line.written Line.arguments
    rw [String.toList_ofList, splitFrom_line]
    simp
  · intro e he
    obtain ⟨t, -, rfl⟩ := List.mem_map.1 (List.mem_of_mem_tail he)
    exact List.cons_ne_nil _ _
  · exact fun c hc => by cases hc
  · unfold Line.arguments
    rw [List.map_map]
    refine (List.map_congr_left fun t _ => ?_).trans (List.map_id args)
    simp [Entry.quote, Argument.text, Segment.text]

example : split " a'b c'\\ \"\\\"d\" ''\t" = .ok ["ab c \"d", ""] := by decide

/-!
## Command lines put together

A text leads from outside quotes to outside quotes, or it ends there in a backslash that has nothing behind it
to protect, or in quotes that are never closed (`outside_cases`); only the last cannot be split
(`splitFrom_eq_none_iff`).  What leads outside quotes leaves nothing behind that a blank does not end: two
texts with a blank between them are split into the arguments of the first and those of the second, or not at
all if the second cannot be split (`split_joined`).
-/

/-- Whether a text, read from outside quotes on, leads to outside quotes. -/
inductive Outside : List Char → Prop
  | nil : Outside []
  | char {c : Char} {s : List Char} : c ≠ '\'' → c ≠ '"' → c ≠ '\\' → Outside s → Outside (c :: s)
  | escaped {c : Char} {s : List Char} : Outside s → Outside ('\\' :: c :: s)
  | single {body s : List Char} : '\'' ∉ body → Outside s → Outside ('\'' :: (body ++ '\'' :: s))
  | double {body text s : List Char} : Quoted body text → Outside s → Outside ('"' :: (body ++ '"' :: s))

/-- Whether a text ends in a backslash that is read as an escape, with nothing behind it. -/
def Dangling (s : List Char) : Prop := ∃ p, Outside p ∧ s = p ++ ['\\']

/-- Whether a quote that opens outside quotes is never closed in a text. -/
inductive Unclosed (s : List Char) : Prop
  | single {p body : List Char} : Outside p → '\'' ∉ body → s = p ++ '\'' :: body → Unclosed s
  | double {p body text : List Char} : Outside p → Quoted body text → s = p ++ '"' :: body → Unclosed s
  /-- The backslash at the end would protect a quote. -/
  | escape {p body text : List Char} : Outside p → Quoted body text → s = p ++ '"' :: (body ++ ['\\']) →
    Unclosed s

/-! #### How a text ends -/

/-- Behind a double quote there is the one that closes it, or none is closed by the end. -/
theorem quoted_cases (s : List Char) :
    (∃ body text rest, Quoted body text ∧ s = body ++ '"' :: rest) ∨ (∃ text, Quoted s text) ∨
      ∃ body text, Quoted body text ∧ s = body ++ ['\\'] := by
  -- a backslash takes the next character with it
  induction hn : s.length using Nat.strongRecOn generalizing s with
  | ind n ih =>
    cases s with
    | nil => exact .inr (.inl ⟨[], .nil⟩)
    | cons c cs =>
      rw [List.length_cons] at hn
      by_cases hquote : c = '"'
      · subst hquote
        exact .inl ⟨[], [], cs, .nil, rfl⟩
      by_cases hescape : c = '\\'
      · subst hescape
        cases cs with
        | nil => exact .inr (.inr ⟨[], [], .nil, rfl⟩)
        | cons d ds =>
          have hquoted : ∀ {body text}, Quoted body text → ∃ text, Quoted ('\\' :: d :: body) text := by
            intro body text h
            by_cases hd : IsGuarded d
            · exact ⟨_, .escaped hd h⟩
            · exact ⟨_, .kept hd h⟩
          rw [List.length_cons] at hn
          rcases ih ds.length (by omega) ds rfl with ⟨body, text, rest, h, rfl⟩ | ⟨text, h⟩ | ⟨body, text, h, rfl⟩
          · obtain ⟨text, h⟩ := hquoted h
            exact .inl ⟨_, text, rest, h, rfl⟩
          · exact .inr (.inl (hquoted h))
          · obtain ⟨text, h⟩ := hquoted h
            exact .inr (.inr ⟨_, text, h, rfl⟩)
      · have hc : ¬IsGuarded c := not_or.2 ⟨hquote, hescape⟩
        rcases ih cs.length (by omega) cs rfl with ⟨body, text, rest, h, rfl⟩ | ⟨text, h⟩ | ⟨body, text, h, rfl⟩
        · exact .inl ⟨_, _, rest, .plain hc h, rfl⟩
        · exact .inr (.inl ⟨_, .plain hc h⟩)
        · exact .inr (.inr ⟨_, _, .plain hc h, rfl⟩)

/-- What can stand in front of a text outside quotes does not change how a text ends. -/
theorem cases_prepend {x s : List Char} (hx : ∀ t, Outside t → Outside (x ++ t))
    (hs : Outside s ∨ Dangling s ∨ Unclosed s) : Outside (x ++ s) ∨ Dangling (x ++ s) ∨ Unclosed (x ++ s) := by
  rcases hs with h | ⟨p, hp, rfl⟩ | h
  · exact .inl (hx s h)
  · exact .inr (.inl ⟨x ++ p, hx p hp, (List.append_assoc ..).symm⟩)
  · refine .inr (.inr ?_)
    rcases h with ⟨hp, hbody, rfl⟩ | ⟨hp, hbody, rfl⟩ | ⟨hp, hbody, rfl⟩
    · exact .single (hx _ hp) hbody (List.append_assoc ..).symm
    · exact .double (hx _ hp) hbody (List.append_assoc ..).symm
    · exact .escape (hx _ hp) hbody (List.append_assoc ..).symm

/-- A text leads to outside quotes, or ends there in a backslash, or in quotes. -/
theorem outside_cases (s : List Char) : Outside s ∨ Dangling s ∨ Unclosed s := by
  -- quotes are taken as a whole
  induction hn : s.length using Nat.strongRecOn generalizing s with
  | ind n ih =>
    cases s with
    | nil => exact .inl .nil
    | cons c cs =>
      rw [List.length_cons] at hn
      by_cases hsingle : c = '\''
      · subst hsingle
        by_cases hclosed : '\'' ∈ cs
        · obtain ⟨body, rest, rfl, hbody⟩ := List.eq_append_cons_of_mem hclosed
          rw [List.length_append, List.length_cons] at hn
          have hrest := cases_prepend (x := '\'' :: (body ++ ['\''])) (fun t ht => by
            simpa using Outside.single hbody ht) (ih rest.length (by omega) rest rfl)
          simpa using hrest
        · exact .inr (.inr (.single .nil hclosed rfl))
      by_cases hdouble : c = '"'
      · subst hdouble
        rcases quoted_cases cs with ⟨body, text, rest, hbody, rfl⟩ | ⟨text, hbody⟩ | ⟨body, text, hbody, rfl⟩
        · rw [List.length_append, List.length_cons] at hn
          have hrest := cases_prepend (x := '"' :: (body ++ ['"'])) (fun t ht => by
            simpa using Outside.double hbody ht) (ih rest.length (by omega) rest rfl)
          simpa using hrest
        · exact .inr (.inr (.double .nil hbody rfl))
        · exact .inr (.inr (.escape .nil hbody rfl))
      by_cases hescape : c = '\\'
      · subst hescape
        cases cs with
        | nil => exact .inr (.inl ⟨[], .nil, rfl⟩)
        | cons d ds =>
          rw [List.length_cons] at hn
          exact cases_prepend (x := ['\\', d]) (fun t => .escaped) (ih ds.length (by omega) ds rfl)
      · exact cases_prepend (x := [c]) (fun t => .char hsingle hdouble hescape) (ih cs.length (by omega) cs rfl)

/-! #### Reading across a text -/

/-- Whether the splitter stands outside quotes. -/
def Mode.IsOutside (m : Mode) : Prop := m = .gap ∨ m = .bare

/-- Reading a text leads from outside quotes to outside quotes: it yields arguments, and what comes behind the
text is read on from where that leaves off. -/
def ReadsAcross (p : List Char) : Prop :=
  ∀ (m : Mode) (word : List Char), m.IsOutside → ∃ (args : List (List Char)) (m' : Mode) (word' : List Char),
    m'.IsOutside ∧ ∀ rest, splitFrom m word (p ++ rest) = (splitFrom m' word' rest).map (args ++ ·)

theorem readsAcross_nil : ReadsAcross [] := by
  intro m word hm
  exact ⟨[], m, word, hm, fun rest => by simp⟩

theorem readsAcross_blank {c : Char} {p : List Char} (hc : Text.isBlank c = true) (hp : ReadsAcross p) :
    ReadsAcross (c :: p) := by
  intro m word hm
  obtain ⟨args, m', word', hm', hread⟩ := hp .gap [] (.inl rfl)
  rcases hm with rfl | rfl
  · refine ⟨args, m', word', hm', fun rest => ?_⟩
    rw [List.cons_append, splitFrom_gap_blank hc, hread]
  · refine ⟨word.reverse :: args, m', word', hm', fun rest => ?_⟩
    rw [List.cons_append, splitFrom_blank hc, hread, Option.map_map]
    rfl

/-- A part of an argument adds what it says to the argument. -/
theorem readsAcross_part {c : Char} {x t p : List Char} (hc : Text.isBlank c = false)
    (hx : ∀ word s, splitFrom .bare word (c :: (x ++ s)) = splitFrom .bare (t ++ word) s) (hp : ReadsAcross p) :
    ReadsAcross (c :: (x ++ p)) := by
  intro m word hm
  obtain ⟨args, m', word', hm', hread⟩ := hp .bare (t ++ word) (.inr rfl)
  refine ⟨args, m', word', hm', fun rest => ?_⟩
  have hbare : splitFrom m word (c :: (x ++ (p ++ rest))) = splitFrom .bare word (c :: (x ++ (p ++ rest))) := by
    rcases hm with rfl | rfl
    · exact splitFrom_gap hc
    · rfl
  rw [List.cons_append, List.append_assoc, hbare, hx, hread]

theorem readsAcross_of_outside {p : List Char} (hp : Outside p) : ReadsAcross p := by
  induction hp with
  | nil => exact readsAcross_nil
  | @char c s hsingle hdouble hescape _ ih =>
    by_cases hc : Text.isBlank c = true
    · exact readsAcross_blank hc ih
    · rw [Bool.not_eq_true] at hc
      exact readsAcross_part (x := []) (t := [c]) hc
        (fun word s => splitFrom_plain ⟨hc, hsingle, hdouble, hescape⟩) ih
  | @escaped c s _ ih => exact readsAcross_part (x := [c]) (t := [c]) rfl (fun word s => splitFrom_escaped) ih
  | @single body s hbody _ ih =>
    have hpart := readsAcross_part (c := '\'') (x := body ++ ['\'']) (t := body.reverse) rfl
      (fun word s => by simpa using splitFrom_singleQuoted hbody) ih
    simpa using hpart
  | @double body text s hbody _ ih =>
    have hpart := readsAcross_part (c := '"') (x := body ++ ['"']) (t := text.reverse) rfl
      (fun word s => by simpa using splitFrom_doubleQuoted hbody) ih
    simpa using hpart

section Joining

variable {p s : List Char} {c : Char}

/-- Outside quotes a text can end. -/
theorem splitFrom_end {m : Mode} (hm : m.IsOutside) (word : List Char) :
    ∃ args, splitFrom m word [] = some args := by
  rcases hm with rfl | rfl <;> exact ⟨_, rfl⟩

theorem splitFrom_of_unclosed (hs : Unclosed s) : splitFrom .gap [] s = none := by
  have hquote : ∀ {p : List Char} (q : Char) (body : List Char), Outside p →
      (∀ (m : Mode) (word : List Char), m.IsOutside → splitFrom m word (q :: body) = none) →
        splitFrom .gap [] (p ++ q :: body) = none := by
    intro p q body hp hbody
    obtain ⟨args, m, word, hm, hread⟩ := readsAcross_of_outside hp .gap [] (.inl rfl)
    rw [hread, hbody m word hm, Option.map_none]
  have hdouble : ∀ {m : Mode} (word body : List Char), m.IsOutside →
      splitFrom m word ('"' :: body) = splitFrom .double word body := by
    rintro m word body (rfl | rfl) <;> rfl
  rcases hs with ⟨hp, hbody, rfl⟩ | ⟨hp, hbody, rfl⟩ | ⟨hp, hbody, rfl⟩
  · refine hquote _ _ hp fun m word hm => ?_
    have hread := @splitFrom_single word [] _ hbody
    rw [List.append_nil] at hread
    rcases hm with rfl | rfl <;> exact hread
  · refine hquote _ _ hp fun m word hm => ?_
    have hread := @splitFrom_double word [] _ _ hbody
    rw [List.append_nil] at hread
    rw [hdouble word _ hm, hread]
    rfl
  · refine hquote _ _ hp fun m word hm => ?_
    rw [hdouble word _ hm, splitFrom_double hbody]
    rfl

/-- A text cannot be split just if a quote in it is never closed. -/
theorem splitFrom_eq_none_iff : splitFrom .gap [] s = none ↔ Unclosed s := by
  refine ⟨fun hnone => ?_, splitFrom_of_unclosed⟩
  rcases outside_cases s with hs | ⟨p, hp, rfl⟩ | hs
  · obtain ⟨args, m, word, hm, hread⟩ := readsAcross_of_outside hs .gap [] (.inl rfl)
    obtain ⟨last, hend⟩ := splitFrom_end hm word
    have hsome := hread []
    rw [List.append_nil, hend, hnone] at hsome
    cases hsome
  · obtain ⟨args, m, word, hm, hread⟩ := readsAcross_of_outside hp .gap [] (.inl rfl)
    have hend : splitFrom m word ['\\'] = splitFrom .bare word [] := by
      rcases hm with rfl | rfl <;> rfl
    have hsome := hread ['\\']
    rw [hend, hnone] at hsome
    cases hsome
  · exact hs

/-- Behind a text that leads outside quotes and a blank the splitter starts anew. -/
theorem splitFrom_joined (hp : Outside p) (hc : Text.isBlank c = true) (s : List Char) :
    splitFrom .gap [] (p ++ c :: s) =
      (splitFrom .gap [] p).bind fun xs => (splitFrom .gap [] s).map (xs ++ ·) := by
  obtain ⟨args, m, word, hm, hread⟩ := readsAcross_of_outside hp .gap [] (.inl rfl)
  have hend := hread []
  rw [List.append_nil] at hend
  rw [hread, hend]
  rcases hm with rfl | rfl
  · rw [splitFrom_gap_blank hc]
    simp [splitFrom]
  · rw [splitFrom_blank hc, Option.map_map]
    simp only [splitFrom, Option.map_some, Option.bind_some]
    refine congrArg (Option.map · _) (funext fun ys => ?_)
    simp

end Joining

/-- With a blank between them two texts have the arguments of both, unless the first ends in a backslash that
would protect the blank; and the only texts that cannot be split are those with a quote that is never closed. -/
theorem split_joined :
    (∀ (a b : String) (c : Char) (xs : List String), Text.isBlank c = true → split a = .ok xs →
      ¬Dangling a.toList →
        (∀ ys, split b = .ok ys → split (a.push c ++ b) = .ok (xs ++ ys)) ∧
          ∀ e, split b = .error e → split (a.push c ++ b) = .error (.unterminatedQuote (a.push c ++ b))) ∧
    ∀ (t : String) (e : ExpressionFault),
      split t = .error e ↔ e = .unterminatedQuote t ∧ Unclosed t.toList := by
  refine ⟨fun a b c xs hc ha hdangling => ?_, fun t e => ?_⟩
  · have hjoined : (a.push c ++ b).toList = a.toList ++ c :: b.toList := by simp
    unfold split at ha
    cases hxs : splitFrom .gap [] a.toList with
    | none =>
      rw [hxs] at ha
      cases ha
    | some args =>
      rw [hxs] at ha
      cases ha
      have hunclosed : ¬Unclosed a.toList := fun h => by
        rw [splitFrom_of_unclosed h] at hxs
        cases hxs
      have houtside : Outside a.toList :=
        (outside_cases a.toList).resolve_right fun h => h.elim hdangling hunclosed
      have hread := splitFrom_joined houtside hc b.toList
      rw [hxs, Option.bind_some] at hread
      unfold split
      rw [hjoined, hread]
      cases splitFrom .gap [] b.toList with
      | none => exact ⟨fun ys hb => (by cases hb), fun e _ => rfl⟩
      | some ys =>
        refine ⟨fun _ hb => ?_, fun e hb => by cases hb⟩
        cases hb
        simp
  · rw [← splitFrom_eq_none_iff]
    unfold split
    cases splitFrom .gap [] t.toList with
    | none => simp [eq_comm]
    | some args => simp

/-- The second of two backslashes at the end of the first text is protected itself, so that the blank behind
it is not. -/
theorem split_joined_backslashes :
    Text.isBlank '\t' = true ∧ split "a\\\\" = .ok ["a\\"] ∧ ¬Dangling "a\\\\".toList ∧
      split "\"b\" ''" = .ok ["b", ""] ∧ split "a\\\\\t\"b\" ''" = .ok ["a\\", "b", ""] ∧
      split "it's" = .error (.unterminatedQuote "it's") ∧
      split "a\\\\\tit's" = .error (.unterminatedQuote "a\\\\\tit's") ∧ Unclosed "it's".toList := by
  have hblank : Text.isBlank '\t' = true := by decide
  have ha : split "a\\\\" = .ok ["a\\"] := by decide
  have hb : split "\"b\" ''" = .ok ["b", ""] := by decide
  have hopen : split "it's" = .error (.unterminatedQuote "it's") := by decide
  have hdangling : ¬Dangling "a\\\\".toList := by
    rintro ⟨p, hp, h⟩
    obtain rfl : p = ['a', '\\'] := List.append_cancel_right (h.symm.trans (by decide))
    cases hp with
    | char _ _ _ h =>
      cases h with
      | char _ _ hescape _ => exact hescape rfl
  have hjoin := split_joined.1 "a\\\\"
  exact ⟨hblank, ha, hdangling, hb, (hjoin _ '\t' _ hblank ha hdangling).1 _ hb, hopen,
    (hjoin _ '\t' _ hblank ha hdangling).2 _ hopen, ((split_joined.2 _ _).1 hopen).2⟩

end Workload.Command

import Workload.Proofs.Literals
import Workload.Proofs.Quotes
import Workload.Yaml.Node.Parser

/-!
# Documents are read as they are written

A document that lists records of scalars is read as the sequence of these mappings (`parse?_document`), in
whatever way the scalars are written.
-/

namespace Workload.Yaml

open Cursor (Stands)

/-- A field of a record, and how it is written. -/
structure Entry where
  key : List Char
  style : ScalarStyle
  text : List Char
  written : List Char

namespace Entry

/-- Whether a field is written as it is. -/
structure Fits (e : Entry) : Prop where
  key : isKey e.key = true
  writes : Writes e.style e.text e.written

def line (e : Entry) : List Char := e.key ++ ':' :: e.written

def tokens (e : Entry) : List Token := [.key, .scalar e.key .plain, .value, .scalar e.text e.style]

end Entry

/-- The lines of a record, the first of which starts behind its dash. -/
def recordLines : List Entry → List Char
  | [] => []
  | e :: es => e.line ++ if es.isEmpty then [] else Writer.spaces 2 ++ recordLines es

/-- The lines of an item: a dash, and a record. -/
def itemLines (es : List Entry) : List Char :=
  '-' :: ' ' :: if es.isEmpty then ['{', '}', '\n'] else recordLines es

def recordTokens (es : List Entry) : List Token :=
  if es.isEmpty then [.flowMappingStart, .flowMappingEnd]
  else .blockMappingStart :: (es.flatMap Entry.tokens ++ [.blockEnd])

def itemTokens (es : List Entry) : List Token := .blockEntry :: recordTokens es

namespace Lexer

/-- Passes the gap in front of a token, with what that closes. -/
def settle (l : Lexer) : Option Lexer :=
  (skipGap (l.cursor.rest.length + 1) l).expirePlaces.map fun l => l.unwind l.cursor.column

/-- Reads the tokens from the start of one. -/
def lexFrom (fuel : Nat) (l : Lexer) : Option (List Token) :=
  match l.cursor.peek 0 with
  | none => (l.unwind (-1)).dropPlace.map fun l => l.tokens.reverse
  | some ch => (l.lexToken ch).bind (lexAll fuel)

theorem lexAll_succ (fuel : Nat) (l : Lexer) : lexAll (fuel + 1) l = (settle l).bind (lexFrom fuel) := by
  unfold lexAll settle
  rw [Option.map_eq_bind, Option.bind_assoc]
  refine Option.bind_congr fun l _ => ?_
  unfold lexFrom
  simp only [Function.comp, Option.bind_some]
  cases (l.unwind l.cursor.column).cursor.peek 0 with
  | none =>
    simp only [Option.map_eq_bind]
    rfl
  | some ch => rfl

/-- One token is read, and what stands in front of the next one. -/
def Steps (l l' : Lexer) : Prop := ∃ ch, l.cursor.peek 0 = some ch ∧ (l.lexToken ch).bind settle = some l'

theorem Steps.lexFrom_eq {l l' : Lexer} (h : Steps l l') (fuel : Nat) : lexFrom (fuel + 1) l = lexFrom fuel l' := by
  obtain ⟨ch, hch, hstep⟩ := h
  obtain ⟨l₁, htoken, hsettle⟩ := Option.bind_eq_some_iff.1 hstep
  conv_lhs => unfold lexFrom
  rw [hch]
  show (l.lexToken ch).bind (lexAll (fuel + 1)) = _
  rw [htoken, Option.bind_some, lexAll_succ, hsettle, Option.bind_some]

/-- The tokens behind a number of others are read. -/
def Reaches (n : Nat) (l l' : Lexer) : Prop := ∀ fuel, lexFrom (fuel + n) l = lexFrom fuel l'

theorem Reaches.trans {m n : Nat} {l l' l'' : Lexer} (h : Reaches m l l') (h' : Reaches n l' l'') :
    Reaches (n + m) l l'' := by
  intro fuel
  rw [← Nat.add_assoc, h, h']

/-- Where the lexer is in front of a token outside of flow collections. -/
structure Awaits (l : Lexer) (rest : List Char) (column : Nat) (indent : Int) (outer : List Int)
    (keyAllowed : Bool) (tokens : List Token) : Prop where
  cursor : Stands l.cursor rest column
  indent : l.indent = indent
  outer : l.outerIndents = outer
  keyAllowed : l.keyAllowed = keyAllowed
  place : l.place.possible = false
  flow : l.outerPlaces = []
  tokens : l.tokens = tokens

section Gaps

variable {l : Lexer} {r : List Char}

theorem skipWhile_spaces {c : Cursor} {k : Nat} {p : Char → Bool} (hp : p ' ' = true)
    (hr : ∀ d ∈ r.head?, p d = false) (hc : c.rest = Writer.spaces k ++ r) :
    c.skipWhile p = c.advance k := by
  have hspaces : ∀ d ∈ Writer.spaces k, p d = true := fun d hd => by rw [List.eq_of_mem_replicate hd, hp]
  have hnil : r.takeWhile p = [] := by
    cases r with
    | nil => rfl
    | cons d ds => exact List.takeWhile_cons_of_neg (by simp [hr d rfl])
  unfold Cursor.skipWhile
  rw [hc, List.takeWhile_append_of_pos hspaces, hnil, List.append_nil,
    show (Writer.spaces k).length = k from List.length_replicate]

/-- What the lexer does not pass over: anything but a gap and a comment, and at the start of a line a byte
order mark. -/
structure IsStart (column : Nat) (r : List Char) : Prop where
  clear : isClear r = true
  hash : r.head? ≠ some '#'
  mark : column = 0 → r.head? ≠ some '\uFEFF'

theorem isStart_cons {column : Nat} {d : Char} (hgap : isGap (some d) = false) (hhash : d ≠ '#')
    (hmark : column = 0 → d ≠ '\uFEFF') (ds : List Char) : IsStart column (d :: ds) where
  clear := isClear_cons hgap ds
  hash := by simpa using hhash
  mark h := by simpa using hmark h

theorem skipGap_spaces {k : Nat} (hr : IsStart l.cursor.column r) (hc : l.cursor.rest = Writer.spaces k ++ r)
    (n : Nat) : skipGap (n + 1) l = { l with cursor := l.cursor.advance k } := by
  obtain ⟨hspace, htab, hbreak⟩ := head?_of_isClear hr.clear
  have hrest := rest_advance_spaces hc
  have hmark : ¬(decide (l.cursor.column = 0) && decide (l.cursor.peek 0 = some '\uFEFF')) = true := by
    rw [Bool.and_eq_true, decide_eq_true_eq, decide_eq_true_eq, Cursor.peek_zero, hc]
    rintro ⟨h0, hpeek⟩
    cases k with
    | zero => exact hr.mark h0 hpeek
    | succ k => cases Option.some.inj hpeek
  have hskip : l.cursor.skipWhile (fun ch => decide (ch = ' ') ||
      ((l.inFlow || !l.keyAllowed) && decide (ch = '\t'))) = l.cursor.advance k := by
    refine skipWhile_spaces rfl (fun d hd => ?_) hc
    have hne : d ≠ ' ' ∧ d ≠ '\t' := by
      constructor <;> (rintro rfl; first | exact hspace hd | exact htab hd)
    simp [hne]
  have hcomment : ¬(l.cursor.advance k).peek 0 = some '#' := by
    rw [Cursor.peek_zero, hrest]
    exact hr.hash
  have hat : ¬(l.cursor.advance k).atBreak = true := by
    rw [Cursor.atBreak_eq, hrest, hbreak]
    exact Bool.noConfusion
  unfold skipGap
  dsimp only
  rw [if_neg hmark, hskip, if_neg hcomment, if_neg hat]

theorem skipGap_line (hc : l.cursor.rest = '\n' :: r) (n : Nat) :
    skipGap (n + 1) l =
      skipGap n { l with cursor := l.cursor.skipLine, keyAllowed := l.keyAllowed || !l.inFlow } := by
  have hpeek : l.cursor.peek 0 = some '\n' := by
    rw [Cursor.peek_zero, hc]
    rfl
  have hskip : l.cursor.skipWhile (fun ch => decide (ch = ' ') ||
      ((l.inFlow || !l.keyAllowed) && decide (ch = '\t'))) = l.cursor :=
    skipWhile_spaces (k := 0) rfl (fun d hd => by cases hd; simp) hc
  have hmark : ¬(decide (l.cursor.column = 0) && decide (l.cursor.peek 0 = some '\uFEFF')) = true := by
    simp [hpeek]
  have hcomment : ¬l.cursor.peek 0 = some '#' := by simp [hpeek]
  have hat : l.cursor.atBreak = true := by
    rw [Cursor.atBreak_eq, hc]
    rfl
  conv_lhs => unfold skipGap
  dsimp only
  rw [if_neg hmark, hskip, if_neg hcomment, if_pos hat]

theorem expire_of_not_possible {k : KeyPlace} (hk : k.possible = false) (c : Cursor) : expire c k = some k := by
  unfold expire
  rw [hk]
  rfl

/-- A place that is not behind by a line or too many bytes stays. -/
theorem expire_of_close {k : KeyPlace} {c : Cursor} (hline : c.line = k.line) (hindex : c.index ≤ k.index + 1024) :
    expire c k = some k := by
  unfold expire
  rw [if_neg]
  simp only [Bool.and_eq_true, Bool.or_eq_true, decide_eq_true_eq]
  omega

theorem expirePlaces_of (hplace : expire l.cursor l.place = some l.place)
    (houter : ∀ k ∈ l.outerPlaces, expire l.cursor k = some k) : l.expirePlaces = some l := by
  have hmap : ∀ ks : List KeyPlace, (∀ k ∈ ks, expire l.cursor k = some k) →
      ks.mapM (expire l.cursor) = some ks := by
    intro ks hks
    induction ks with
    | nil => rfl
    | cons k ks ih =>
      rw [List.mapM_cons, hks k List.mem_cons_self, ih fun j hj => hks j (List.mem_cons_of_mem _ hj)]
      rfl
  unfold expirePlaces
  rw [hplace, hmap _ houter]
  rfl

theorem unwind_of_le {column : Int} (h : l.indent ≤ column) : l.unwind column = l := by
  unfold unwind
  split_ifs
  · rfl
  · cases l.outerIndents with
    | nil => rfl
    | cons outer rest =>
      unfold closeBlocks
      rw [if_pos h]

variable {column k : Nat} {indent : Int} {outer : List Int} {keyAllowed : Bool} {tokens : List Token}

theorem Awaits.inFlow_eq {x : List Char} (h : Awaits l x column indent outer keyAllowed tokens) :
    l.inFlow = false := by
  unfold inFlow
  rw [h.flow]
  rfl

/-- Blanks on a line make no difference. -/
theorem Awaits.spaces (h : Awaits l (Writer.spaces k ++ r) column indent outer keyAllowed tokens)
    (hr : IsStart column r) (n : Nat) :
    Awaits (skipGap (n + 1) l) r (column + k) indent outer keyAllowed tokens := by
  rw [skipGap_spaces (h.cursor.column ▸ hr) h.cursor.rest]
  exact { h with
    cursor := ⟨rest_advance_spaces h.cursor.rest, by rw [Cursor.column_advance, h.cursor.column]⟩ }

/-- Behind the end of a line a key can start. -/
theorem Awaits.line (h : Awaits l ('\n' :: (Writer.spaces k ++ r)) column indent outer keyAllowed tokens)
    (hr : IsStart 0 r) (n : Nat) : Awaits (skipGap (n + 2) l) r k indent outer true tokens := by
  have hline := Cursor.skipLine_of_ne (by decide) h.cursor.rest
  rw [skipGap_line h.cursor.rest, h.inFlow_eq, Bool.not_false, Bool.or_true]
  have hnext : Awaits { l with cursor := l.cursor.skipLine, keyAllowed := true } (Writer.spaces k ++ r) 0 indent
      outer true tokens := ⟨hline, h.indent, h.outer, rfl, h.place, h.flow, h.tokens⟩
  have := hnext.spaces hr n
  rwa [Nat.zero_add] at this

theorem settle_of_awaits {l' : Lexer} (hgap : skipGap (l.cursor.rest.length + 1) l = l')
    (h : Awaits l' r column indent outer keyAllowed tokens) : settle l = some (l'.unwind column) := by
  unfold settle
  rw [hgap, expirePlaces_of (expire_of_not_possible h.place _) (by rw [h.flow]; simp), Option.map_some,
    h.cursor.column]

/-- What the innermost collection has is not over. -/
theorem settle_keep {l' : Lexer} (hgap : skipGap (l.cursor.rest.length + 1) l = l')
    (h : Awaits l' r column indent outer keyAllowed tokens) (hindent : indent ≤ column) : settle l = some l' := by
  rw [settle_of_awaits hgap h, unwind_of_le (by rw [h.indent]; exact hindent)]

/-- A record is over where a line starts in the column of the dashes. -/
theorem settle_close {l' : Lexer} (hgap : skipGap (l.cursor.rest.length + 1) l = l')
    (h : Awaits l' r 0 2 [0, -1] keyAllowed tokens) :
    ∃ l'', settle l = some l'' ∧ Awaits l'' r 0 0 [-1] keyAllowed (.blockEnd :: tokens) := by
  refine ⟨_, settle_of_awaits hgap h, ?_⟩
  have hunwind : l'.unwind ((0 : Nat) : Int) = { l'.push .blockEnd with indent := 0, outerIndents := [-1] } := by
    unfold unwind
    rw [h.inFlow_eq, h.outer]
    simp only [Bool.false_eq_true, if_false]
    unfold closeBlocks
    rw [h.indent, if_neg (by decide)]
    unfold closeBlocks
    rw [if_pos (show (0 : Int) ≤ ((0 : Nat) : Int) from Int.le_refl _)]
  rw [hunwind]
  exact ⟨h.cursor, rfl, rfl, h.keyAllowed, h.place, h.flow, congrArg _ h.tokens⟩

end Gaps

section Steps

variable {l l₁ : Lexer} {ch : Char} {y r : List Char} {column k : Nat} {indent : Int} {outer : List Int}
  {keyAllowed : Bool} {tokens : List Token}

/-- A token is followed by another one on its line. -/
theorem steps_spaces (column : Nat) (hc : l.cursor.rest = ch :: y) (htoken : l.lexToken ch = some l₁)
    (h : Awaits l₁ (Writer.spaces k ++ r) column indent outer keyAllowed tokens) (hr : IsStart column r)
    (hindent : indent ≤ ((column + k : Nat) : Int)) :
    ∃ l', Steps l l' ∧ Awaits l' r (column + k) indent outer keyAllowed tokens := by
  have hgap := h.spaces hr l₁.cursor.rest.length
  refine ⟨_, ⟨ch, by rw [Cursor.peek_zero, hc]; rfl, ?_⟩, hgap⟩
  rw [htoken, Option.bind_some]
  exact settle_keep rfl hgap hindent

end Steps

/-! ### Which token starts -/

section Tokens

variable {l : Lexer} {r : List Char}

theorem lexToken_dash (hc : l.cursor.rest = '-' :: ' ' :: r) : l.lexToken '-' = l.lexBlockEntry := by
  have hmark : l.cursor.atMark '-' = false ∧ l.cursor.atMark '.' = false := by
    unfold Cursor.atMark
    rw [hc]
    simp
  have hnext : l.cursor.peek 1 = some ' ' := by
    rw [Cursor.peek_one, hc]
    rfl
  unfold lexToken
  simp [hmark, hnext, isGap, isSpace]

theorem atMark_of_column {c : Cursor} (h : c.column ≠ 0) (ch : Char) : c.atMark ch = false := by
  unfold Cursor.atMark
  simp [h]

theorem lexToken_colon (hcolumn : l.cursor.column ≠ 0) (hc : l.cursor.rest = ':' :: ' ' :: r) :
    l.lexToken ':' = l.lexValue := by
  have hnext : l.cursor.peek 1 = some ' ' := by
    rw [Cursor.peek_one, hc]
    rfl
  unfold lexToken
  simp [atMark_of_column hcolumn, hnext, isGap, isSpace]

theorem lexToken_single (hcolumn : l.cursor.column ≠ 0) : l.lexToken '\'' = l.lexQuoted true := by
  unfold lexToken
  simp [atMark_of_column hcolumn]

theorem lexToken_double (hcolumn : l.cursor.column ≠ 0) : l.lexToken '"' = l.lexQuoted false := by
  unfold lexToken
  simp [atMark_of_column hcolumn]

theorem lexToken_literal (hcolumn : l.cursor.column ≠ 0) (hflow : l.inFlow = false) :
    l.lexToken '|' = l.lexBlockScalar true := by
  unfold lexToken
  simp [atMark_of_column hcolumn, hflow]

theorem ne_of_isLeadingMark {d e : Char} (hd : Writer.isLeadingMark d = false)
    (he : Writer.isLeadingMark e = true) : d ≠ e := by
  rintro rfl
  rw [hd] at he
  cases he

theorem lexToken_plain {d : Char} (hcolumn : l.cursor.column ≠ 0) (hflow : l.inFlow = false)
    (hgap : isGap (some d) = false) (hlead : Writer.isLeadingMark d = false)
    (hmark : d = '?' ∨ d = ':' ∨ d = '-' → isGap (l.cursor.peek 1) = false) : l.lexToken d = l.lexPlain := by
  have hne : d ≠ '[' ∧ d ≠ '{' ∧ d ≠ ']' ∧ d ≠ '}' ∧ d ≠ ',' ∧ d ≠ '*' ∧ d ≠ '&' ∧ d ≠ '!' ∧ d ≠ '|' ∧
      d ≠ '>' ∧ d ≠ '\'' ∧ d ≠ '"' := by
    refine ⟨?_, ?_, ?_, ?_, ?_, ?_, ?_, ?_, ?_, ?_, ?_, ?_⟩ <;> exact ne_of_isLeadingMark hlead rfl
  by_cases hword : d = '?' ∨ d = ':' ∨ d = '-'
  · have hnext := hmark hword
    have hspace : (l.cursor.peek 1).any isSpace = false := by
      cases hpeek : l.cursor.peek 1 with
      | none => rfl
      | some e =>
        rw [hpeek, isGap_some, Bool.or_eq_false_iff] at hnext
        exact hnext.1
    unfold lexToken
    rcases hword with rfl | rfl | rfl <;>
      simp [atMark_of_column hcolumn, hflow, hnext, hspace]
  · rw [not_or, not_or] at hword
    have hindicator : isIndicator d = false := by
      unfold Writer.isLeadingMark at hlead
      unfold isIndicator
      simp only [List.contains_eq_mem, decide_eq_false_iff_not] at hlead ⊢
      simp_all
    unfold lexToken
    simp [atMark_of_column hcolumn, hcolumn, hne, hword, hgap, hindicator]

variable {column : Nat} {indent : Int} {outer : List Int} {keyAllowed : Bool} {tokens : List Token}

theorem dropPlace_of (h : l.place.possible = false) :
    l.dropPlace = some { l with place := { l.place with possible := false } } := by
  unfold dropPlace
  rw [h]
  rfl

theorem insertAt_length (t : Token) : l.insertAt l.tokens.length t = { l with tokens := t :: l.tokens } := by
  unfold insertAt
  rw [Nat.sub_self]
  rfl

/-- What a collection opens with, if it is not open yet. -/
def opened (t : Token) (isOpen : Bool) (tokens : List Token) : List Token :=
  if isOpen then tokens else t :: tokens

theorem steps_dash (isOpen : Bool)
    (h : Awaits l ('-' :: ' ' :: r) 0 (if isOpen then 0 else -1) (if isOpen then [-1] else []) true tokens)
    (hr : IsStart 1 r) :
    ∃ l', Steps l l' ∧ Awaits l' r 2 0 [-1] true (.blockEntry :: opened .blockSequenceStart isOpen tokens) := by
  have hopen : Awaits (l.openBlock l.cursor.column l.tokens.length .blockSequenceStart) ('-' :: ' ' :: r) 0 0 [-1]
      true (opened .blockSequenceStart isOpen tokens) := by
    unfold openBlock
    rw [h.inFlow_eq, h.indent, h.cursor.column, insertAt_length, h.tokens]
    cases isOpen with
    | false => exact { h with indent := rfl, outer := by rw [h.outer]; rfl, tokens := rfl }
    | true => exact { h with }
  obtain ⟨l₁, hl₁⟩ : ∃ l₁, l.openBlock l.cursor.column l.tokens.length .blockSequenceStart = l₁ := ⟨_, rfl⟩
  rw [hl₁] at hopen
  have hentry : l.lexBlockEntry = some ({ l₁ with
      place := { l₁.place with possible := false }, keyAllowed := true }.take 1 .blockEntry) := by
    unfold lexBlockEntry
    rw [h.inFlow_eq, h.keyAllowed, hl₁]
    simp [dropPlace_of hopen.place]
  refine steps_spaces 1 (k := 1) h.cursor.rest ((lexToken_dash h.cursor.rest).trans hentry)
    ⟨⟨Cursor.rest_advance (x := ['-']) hopen.cursor.rest, ?_⟩, hopen.indent, hopen.outer, rfl, rfl, hopen.flow,
      congrArg _ hopen.tokens⟩ hr (by decide)
  show l₁.cursor.column + 1 = 1
  rw [hopen.cursor.column]

theorem width_le (c : Cursor) (n : Nat) : c.width n ≤ 4 * n := by
  have hfold : ∀ (s : List Char) (w : Nat), s.foldl (fun w ch => w + ch.utf8Size) w ≤ w + 4 * s.length := by
    intro s
    induction s with
    | nil => exact fun w => Nat.le_refl _
    | cons d ds ih =>
      intro w
      have := ih (w + d.utf8Size)
      have := Char.utf8Size_le_four d
      rw [List.foldl_cons, List.length_cons]
      omega
  have hlength : (c.rest.take n).length ≤ n := by
    rw [List.length_take]
    exact Nat.min_le_left _ _
  have := hfold (c.rest.take n) 0
  unfold Cursor.width
  omega

theorem isKey_spec {key : List Char} (h : isKey key = true) :
    (∃ d ds, key = d :: ds ∧ d.isLower = true) ∧ key.length ≤ 256 := by
  unfold isKey at h
  simp only [Bool.and_eq_true, decide_eq_true_eq, List.all_eq_true, Bool.not_eq_true',
    List.isEmpty_eq_false_iff] at h
  obtain ⟨d, ds, rfl⟩ := List.exists_cons_of_ne_nil h.1.1
  exact ⟨⟨d, ds, rfl, h.2 d List.mem_cons_self⟩, h.1.2⟩

theorem insertAt_of_append (x y : List Token) (hl : l.tokens = x ++ y) (t : Token) :
    l.insertAt y.length t = { l with tokens := x ++ t :: y } := by
  unfold insertAt
  rw [hl, List.length_append, Nat.add_sub_cancel]
  dsimp only
  rw [List.take_left, List.drop_left]

/-- Where the lexer is behind a scalar that can be a key. -/
structure Keyed (l : Lexer) (rest : List Char) (column : Nat) (indent : Int) (outer : List Int)
    (key : List Char) (tokens : List Token) : Prop where
  cursor : Stands l.cursor rest column
  indent : l.indent = indent
  outer : l.outerIndents = outer
  possible : l.place.possible = true
  position : l.place.position = tokens.length
  column : l.place.column = 2
  flow : l.outerPlaces = []
  tokens : l.tokens = .scalar key .plain :: tokens

/-- The place of a key that starts here. -/
def keyPlace (l : Lexer) : KeyPlace where
  possible := true
  required := !l.inFlow && l.indent = (l.cursor.column : Int)
  position := l.tokens.length
  index := l.cursor.index
  line := l.cursor.line
  column := l.cursor.column

theorem notePlace_of (hallowed : l.keyAllowed = true) (hplace : l.place.possible = false) :
    l.notePlace = some { l with place := l.keyPlace } := by
  unfold notePlace
  rw [if_pos hallowed, dropPlace_of hplace]
  rfl

theorem steps_key {key : List Char} (hkey : isKey key = true)
    (h : Awaits l (key ++ ':' :: ' ' :: r) 2 indent outer true tokens) (hindent : indent ≤ 2) :
    ∃ l', Steps l l' ∧ Keyed l' (':' :: ' ' :: r) (key.length + 2) indent outer key tokens := by
  obtain ⟨⟨d, ds, hds, hd⟩, hlength⟩ := isKey_spec hkey
  have hcolumn : l.cursor.column ≠ 0 := by
    rw [h.cursor.column]
    decide
  have hpeek : l.cursor.peek 0 = some d := by
    rw [Cursor.peek_zero, h.cursor.rest, hds]
    rfl
  have hread := readPlain_key (l.indent + 1) hkey rfl hcolumn h.cursor.rest
  have hrest : (l.cursor.advance key.length).rest = ':' :: ' ' :: r := Cursor.rest_advance h.cursor.rest
  obtain ⟨l₁, hl₁⟩ : ∃ l₁, l₁ = { l with
    cursor := l.cursor.advance key.length
    tokens := .scalar key .plain :: l.tokens
    keyAllowed := false
    place := l.keyPlace } := ⟨_, rfl⟩
  have htoken : l.lexToken d = some l₁ := by
    have hne : d ≠ '?' ∧ d ≠ ':' ∧ d ≠ '-' :=
      ⟨ne_of_isLower hd rfl, ne_of_isLower hd rfl, ne_of_isLower hd rfl⟩
    rw [lexToken_plain hcolumn h.inFlow_eq (isGap_of_isLower hd) 
      (isLeadingMark_of_isWordChar (isWordChar_of_isLower hd)) (by simp [hne])]
    unfold lexPlain
    rw [notePlace_of h.keyAllowed h.place, hl₁]
    have hflow : inFlow { l with place := l.keyPlace } = false := h.inFlow_eq
    simp only [Option.bind_eq_bind, Option.bind_some, hflow, hread]
    rfl
  have hkeyed : Keyed l₁ (':' :: ' ' :: r) (key.length + 2) indent outer key tokens := by
    rw [hl₁]
    refine ⟨⟨hrest, ?_⟩, h.indent, h.outer, rfl, congrArg _ h.tokens, h.cursor.column, h.flow,
      congrArg _ h.tokens⟩
    rw [Cursor.column_advance, h.cursor.column, Nat.add_comm]
  refine ⟨l₁, ⟨d, hpeek, ?_⟩, hkeyed⟩
  rw [htoken, Option.bind_some]
  have hgap : skipGap (l₁.cursor.rest.length + 1) l₁ = l₁ := by
    rw [skipGap_spaces (k := 0) (isStart_cons rfl (by decide) (fun _ => by decide) _) hkeyed.cursor.rest]
    rfl
  have hexpire : expire l₁.cursor l₁.place = some l₁.place := by
    rw [hl₁]
    refine expire_of_close rfl ?_
    have := width_le l.cursor key.length
    show l.cursor.index + l.cursor.width key.length ≤ l.cursor.index + 1024
    omega
  unfold settle
  rw [hgap, expirePlaces_of hexpire (by rw [hkeyed.flow]; simp), Option.map_some, unwind_of_le]
  rw [hkeyed.indent, hkeyed.cursor.column]
  omega

/-- A colon puts in what its key was the start of. -/
theorem steps_colon (isOpen : Bool) {key : List Char}
    (h : Keyed l (':' :: ' ' :: r) column (if isOpen then 2 else 0) (if isOpen then [0, -1] else [-1]) key tokens)
    (hcolumn : 2 ≤ column) (hr : IsStart (column + 1) r) :
    ∃ l', Steps l l' ∧ Awaits l' r (column + 2) 2 [0, -1] false
      (.value :: .scalar key .plain :: .key :: opened .blockMappingStart isOpen tokens) := by
  have hflow : ∀ tokens, inFlow { l with tokens := tokens } = false := fun _ => by
    unfold inFlow
    rw [h.flow]
    rfl
  obtain ⟨l₁, hl₁, hcursor, hflow₁, hindent, houter, htokens⟩ : ∃ l₁,
      (l.insertAt l.place.position .key).openBlock l.place.column l.place.position .blockMappingStart = l₁ ∧
      l₁.cursor = l.cursor ∧ l₁.outerPlaces = [] ∧ l₁.indent = 2 ∧ l₁.outerIndents = [0, -1] ∧
      l₁.tokens = .scalar key .plain :: .key :: opened .blockMappingStart isOpen tokens := by
    refine ⟨_, rfl, ?_⟩
    rw [h.position, insertAt_of_append [.scalar key .plain] tokens h.tokens]
    unfold openBlock
    rw [hflow, h.column]
    cases isOpen with
    | false =>
      have hinsert := insertAt_of_append (l := { l with tokens := [.scalar key .plain] ++ .key :: tokens })
        [.scalar key .plain, .key] tokens rfl .blockMappingStart
      rw [if_pos (by rw [show l.indent = 0 from h.indent]; rfl), hinsert]
      refine ⟨rfl, h.flow, rfl, ?_, rfl⟩
      show l.indent :: l.outerIndents = [0, -1]
      rw [h.indent, h.outer]
      rfl
    | true =>
      rw [if_neg (by rw [show l.indent = 2 from h.indent]; decide)]
      exact ⟨rfl, h.flow, h.indent, h.outer, rfl⟩
  have hcolumn0 : l.cursor.column ≠ 0 := by
    rw [h.cursor.column]
    omega
  have hvalue : l.lexValue = some ({ l₁ with
      place := { l.place with possible := false }, keyAllowed := false }.take 1 .value) := by
    unfold lexValue
    rw [if_pos h.possible, ← hl₁]
    rfl
  refine steps_spaces (column + 1) (k := 1) h.cursor.rest
    ((lexToken_colon hcolumn0 h.cursor.rest).trans hvalue)
    ⟨⟨Cursor.rest_advance (x := [':']) (hcursor ▸ h.cursor.rest), ?_⟩, hindent, houter, rfl, rfl, hflow₁,
      congrArg _ htokens⟩ hr (by omega)
  show l₁.cursor.column + 1 = column + 1
  rw [hcursor, h.cursor.column]

theorem isStart_next {k : Nat} (h : IsStart 0 r) : IsStart k r := ⟨h.clear, h.hash, fun _ => h.mark rfl⟩

theorem notePlace_of_not_allowed (h : l.keyAllowed = false) : l.notePlace = some l := by
  unfold notePlace
  rw [h]
  rfl

/-- A plain scalar is read up to the next line. -/
theorem lexPlain_writing {s : List Char} {k : Nat} (hs : isLegible s = true) (hr : IsStart 0 r) (hk : k < 3)
    (hcolumn : 3 ≤ column)
    (h : Awaits l (s ++ '\n' :: (Writer.spaces k ++ r)) column 2 [0, -1] false tokens) :
    ∃ l', l.lexPlain = some l' ∧ Awaits l' r k 2 [0, -1] true (.scalar s .plain :: tokens) := by
  have hmargin : (2 : Int) + 1 ≤ l.cursor.column := by rw [h.cursor.column]; omega
  obtain ⟨c', hread, hc'⟩ := readPlain_writing hs hr.clear (by omega) hmargin h.cursor.rest
  refine ⟨{ l with cursor := c', keyAllowed := true, tokens := .scalar s .plain :: l.tokens }, ?_, hc',
    h.indent, h.outer, rfl, h.place, h.flow, congrArg _ h.tokens⟩
  unfold lexPlain
  rw [notePlace_of_not_allowed h.keyAllowed]
  simp only [Option.bind_eq_bind, Option.bind_some, h.inFlow_eq, h.indent, hread]
  rfl

/-- A quoted scalar is read up to the end of its line. -/
theorem lexQuoted_writing (single : Bool) {s t y : List Char} (hst : Follows single .part s t)
    (h : Awaits l (quoteMark single :: (t ++ quoteMark single :: '\n' :: y)) column indent outer false tokens) :
    ∃ l' column', l.lexQuoted single = some l' ∧ Awaits l' ('\n' :: y) column' indent outer false
      (.scalar s (if single then .singleQuoted else .doubleQuoted) :: tokens) := by
  have hrest : (l.cursor.advance 1).rest = t ++ quoteMark single :: '\n' :: y :=
    Cursor.rest_advance (x := [quoteMark single]) h.cursor.rest
  obtain ⟨c', hread, hc'⟩ := readQuoted_writing hst (by simp)
    (by rw [Cursor.column_advance]; exact Nat.succ_ne_zero _) hrest
  refine ⟨{ l with
    cursor := c', keyAllowed := false,
    tokens := .scalar s (if single then .singleQuoted else .doubleQuoted) :: l.tokens }, c'.column, ?_,
    ⟨hc', rfl⟩, h.indent, h.outer, rfl, h.place, h.flow, congrArg _ h.tokens⟩
  unfold lexQuoted
  rw [notePlace_of_not_allowed h.keyAllowed]
  simp only [Option.bind_eq_bind, Option.bind_some, hread]
  rfl

/-- A literal block is read up to the next line that does not belong to it. -/
theorem lexBlockScalar_writing {s : List Char} {k : Nat} (hs : s ≠ []) (hblock : isBlock s = true)
    (hr : IsStart 0 r) (hk : k < 4)
    (h : Awaits l (Writer.literalHeader s ++
      '\n' :: (Writer.literalBody 4 true s ++ (closing s ++ (Writer.spaces k ++ r)))) column 2 outer keyAllowed
      tokens) :
    ∃ l', l.lexBlockScalar true = some l' ∧ Awaits l' r k 2 outer true (.scalar s .literal :: tokens) := by
  have hrest : (l.cursor.advance 1).rest = blockHint s ++ (chompMark (blockChomp s) ++
      '\n' :: (Writer.literalBody 4 true s ++ (closing s ++ (Writer.spaces k ++ r)))) := by
    have hc := h.cursor.rest
    rw [literalHeader_eq, List.cons_append, List.append_assoc] at hc
    exact Cursor.rest_advance (x := ['|']) hc
  obtain ⟨c', hread, hc'⟩ := readBlock_writing hs hblock hk hr.clear hrest
  refine ⟨{ l with
    cursor := c', keyAllowed := true, place := { l.place with possible := false },
    tokens := .scalar s .literal :: l.tokens }, ?_, hc', h.indent, h.outer, rfl, rfl, h.flow,
    congrArg _ h.tokens⟩
  unfold lexBlockScalar
  rw [dropPlace_of h.place]
  simp only [Option.bind_eq_bind, Option.bind_some, h.indent, hread]
  rfl

theorem head_of_isLegible {s : List Char} (hs : isLegible s = true) :
    ∃ d ds, s = d :: ds ∧ isGap (some d) = false ∧ Writer.isLeadingMark d = false ∧
      (d = '?' ∨ d = ':' ∨ d = '-' → ∃ e es, ds = e :: es ∧ isGap (some e) = false) := by
  cases s with
  | nil => cases hs
  | cons d ds =>
    rw [isLegible_cons, Bool.not_eq_true'] at hs
    simp only [Bool.or_eq_false_iff, Bool.and_eq_false_iff, decide_eq_false_iff_not] at hs
    obtain ⟨⟨⟨⟨⟨hgap, hlead⟩, hmark⟩, -⟩, -⟩, -⟩ := hs
    refine ⟨d, ds, rfl, hgap, hlead, fun hd => ?_⟩
    have hhead := hmark.resolve_left (by tauto)
    cases ds with
    | nil => cases hhead
    | cons e es => exact ⟨e, es, rfl, hhead⟩

/-- A scalar that is written in some style is read as one token, up to the next line. -/
theorem lexToken_writing {style : ScalarStyle} {s w : List Char} {k : Nat} (hw : Writes style s (' ' :: w))
    (hr : IsStart 0 r) (hk : k < 3) (hcolumn : 3 ≤ column)
    (h : Awaits l (w ++ (Writer.spaces k ++ r)) column 2 [0, -1] false tokens) :
    ∃ ch y l', l.cursor.rest = ch :: y ∧ l.lexToken ch = some l' ∧
      Awaits (skipGap (l'.cursor.rest.length + 1) l') r k 2 [0, -1] true (.scalar s style :: tokens) := by
  have hcolumn0 : l.cursor.column ≠ 0 := by
    rw [h.cursor.column]
    omega
  have hnext : ∀ {l' : Lexer}, Awaits l' r k 2 [0, -1] true (.scalar s style :: tokens) →
      Awaits (skipGap (l'.cursor.rest.length + 1) l') r k 2 [0, -1] true (.scalar s style :: tokens) :=
    fun h' => Awaits.spaces (k := 0) h' (isStart_next hr) _
  have hline : ∀ {l' : Lexer} {column' : Nat}, Awaits l' ('\n' :: (Writer.spaces k ++ r)) column' 2 [0, -1] false
        (.scalar s style :: tokens) →
      Awaits (skipGap (l'.cursor.rest.length + 1) l') r k 2 [0, -1] true (.scalar s style :: tokens) := by
    intro l' column' h'
    rw [h'.cursor.rest]
    exact h'.line hr _
  generalize hw' : ' ' :: w = w' at hw
  cases hw with
  | plain hs =>
    obtain rfl := (List.cons.inj hw').2
    rw [List.append_assoc] at h
    obtain ⟨l', hlex, h'⟩ := lexPlain_writing hs hr hk hcolumn h
    obtain ⟨d, ds, rfl, hgap, hlead, hmark⟩ := head_of_isLegible hs
    refine ⟨d, _, l', h.cursor.rest, ?_, hnext h'⟩
    rw [lexToken_plain hcolumn0 h.inFlow_eq hgap hlead fun hd => ?_, hlex]
    obtain ⟨e, es, rfl, he⟩ := hmark hd
    rw [Cursor.peek_one, h.cursor.rest]
    exact he
  | singleQuoted hs hspelt ht =>
    obtain rfl := (List.cons.inj hw').2
    rw [List.cons_append, List.append_assoc] at h
    obtain ⟨l', column', hlex, h'⟩ := lexQuoted_writing true
      (follows_single hspelt hs ht nofun nofun) h
    exact ⟨_, _, l', h.cursor.rest, (lexToken_single hcolumn0).trans hlex, hline h'⟩
  | doubleQuoted hspelt =>
    obtain rfl := (List.cons.inj hw').2
    rw [List.cons_append, List.append_assoc] at h
    obtain ⟨l', column', hlex, h'⟩ := lexQuoted_writing false (follows_double hspelt nofun) h
    exact ⟨_, _, l', h.cursor.rest, (lexToken_double hcolumn0).trans hlex, hline h'⟩
  | literal hs hblock =>
    obtain rfl := (List.cons.inj hw').2
    have hclosing : (if Writer.endsLine s then [] else ['\n']) = closing s := by
      unfold closing
      rw [List.isEmpty_eq_false_iff.2 hs, Bool.false_or]
    rw [hclosing, List.append_assoc, List.cons_append, List.append_assoc] at h
    obtain ⟨l', hlex, h'⟩ := lexBlockScalar_writing hs hblock hr (Nat.lt_succ_of_lt hk) h
    have hrest := h.cursor.rest
    rw [literalHeader_eq, List.cons_append] at hrest
    exact ⟨'|', _, l', hrest, (lexToken_literal hcolumn0 h.inFlow_eq).trans hlex, hnext h'⟩

theorem exists_of_writes {style : ScalarStyle} {s w : List Char} (hw : Writes style s w) :
    ∃ d ds, w = ' ' :: d :: ds ∧ isGap (some d) = false ∧ d ≠ '#' := by
  cases hw with
  | plain hs =>
    obtain ⟨d, ds, rfl, hgap, hlead, -⟩ := head_of_isLegible hs
    exact ⟨d, _, rfl, hgap, ne_of_isLeadingMark hlead rfl⟩
  | singleQuoted => exact ⟨_, _, rfl, rfl, by decide⟩
  | doubleQuoted => exact ⟨_, _, rfl, rfl, by decide⟩
  | literal => rw [literalHeader_eq]; exact ⟨_, _, rfl, rfl, by decide⟩

theorem Steps.reaches {l l' : Lexer} (h : Steps l l') : Reaches 1 l l' := h.lexFrom_eq

/-- A field is read up to the next line. -/
theorem reaches_scalar {e : Entry} (he : e.Fits) (isOpen : Bool) {k : Nat} (hr : IsStart 0 r) (hk : k < 3)
    (h : Awaits l (e.line ++ (Writer.spaces k ++ r)) 2 (if isOpen then 2 else 0)
      (if isOpen then [0, -1] else [-1]) true tokens) :
    ∃ l₁ ch y l₂, Reaches 2 l l₁ ∧ l₁.cursor.rest = ch :: y ∧ l₁.lexToken ch = some l₂ ∧
      Awaits (skipGap (l₂.cursor.rest.length + 1) l₂) r k 2 [0, -1] true
        (e.tokens.reverse ++ opened .blockMappingStart isOpen tokens) := by
  obtain ⟨d, ds, hw, hgap, hhash⟩ := exists_of_writes he.writes
  have hwrites := he.writes
  unfold Entry.line at h
  rw [hw] at h hwrites
  rw [List.append_assoc, List.cons_append, List.cons_append] at h
  obtain ⟨l₁, hkey, hkeyed⟩ := steps_key he.key h (by split_ifs <;> decide)
  obtain ⟨l₂, hcolon, hawaits⟩ := steps_colon isOpen hkeyed (Nat.le_add_left 2 _)
    (isStart_cons hgap hhash (fun h => absurd h (Nat.succ_ne_zero _)) _)
  obtain ⟨ch, y, l₃, hrest, htoken, h₃⟩ := lexToken_writing hwrites hr hk (by omega) hawaits
  exact ⟨l₂, ch, y, l₃, hkey.reaches.trans hcolon.reaches, hrest, htoken, h₃⟩

/-- A field that is followed by another one. -/
theorem reaches_field {e : Entry} (he : e.Fits) (isOpen : Bool) (hr : IsStart 0 r)
    (h : Awaits l (e.line ++ (Writer.spaces 2 ++ r)) 2 (if isOpen then 2 else 0)
      (if isOpen then [0, -1] else [-1]) true tokens) :
    ∃ l', Reaches 3 l l' ∧ Awaits l' r 2 2 [0, -1] true
      (e.tokens.reverse ++ opened .blockMappingStart isOpen tokens) := by
  obtain ⟨l₁, ch, y, l₂, hreaches, hrest, htoken, h₂⟩ := reaches_scalar he isOpen hr (by decide) h
  have hstep : Steps l₁ _ := ⟨ch, by rw [Cursor.peek_zero, hrest]; rfl, by
    rw [htoken, Option.bind_some]
    exact settle_keep rfl h₂ (by decide)⟩
  exact ⟨_, hreaches.trans hstep.reaches, h₂⟩

/-- The last field of a record. -/
theorem reaches_lastField {e : Entry} (he : e.Fits) (isOpen : Bool) (hr : IsStart 0 r)
    (h : Awaits l (e.line ++ r) 2 (if isOpen then 2 else 0) (if isOpen then [0, -1] else [-1]) true tokens) :
    ∃ l', Reaches 3 l l' ∧ Awaits l' r 0 0 [-1] true
      (.blockEnd :: (e.tokens.reverse ++ opened .blockMappingStart isOpen tokens)) := by
  obtain ⟨l₁, ch, y, l₂, hreaches, hrest, htoken, h₂⟩ := reaches_scalar (k := 0) he isOpen hr (by decide) h
  obtain ⟨l₃, hsettle, h₃⟩ := settle_close rfl h₂
  have hstep : Steps l₁ l₃ := ⟨ch, by rw [Cursor.peek_zero, hrest]; rfl, by
    rw [htoken, Option.bind_some, hsettle]⟩
  exact ⟨l₃, hreaches.trans hstep.reaches, h₃⟩

theorem isStart_recordLines {es : List Entry} (hes : ∀ e ∈ es, e.Fits) (hne : es ≠ []) (k : Nat) (r : List Char) :
    IsStart k (recordLines es ++ r) := by
  obtain ⟨e, es, rfl⟩ := List.exists_cons_of_ne_nil hne
  obtain ⟨⟨d, ds, hkey, hd⟩, -⟩ := isKey_spec (hes e List.mem_cons_self).key
  unfold recordLines Entry.line
  rw [hkey]
  exact isStart_cons (isGap_of_isLower hd) (ne_of_isLower hd rfl) (fun _ => ne_of_isLower hd rfl) _

theorem reaches_record {es : List Entry} (hes : ∀ e ∈ es, e.Fits) (hne : es ≠ []) (isOpen : Bool)
    (hr : IsStart 0 r)
    (h : Awaits l (recordLines es ++ r) 2 (if isOpen then 2 else 0) (if isOpen then [0, -1] else [-1]) true
      tokens) :
    ∃ l', Reaches (3 * es.length) l l' ∧ Awaits l' r 0 0 [-1] true
      (.blockEnd :: ((es.flatMap Entry.tokens).reverse ++ opened .blockMappingStart isOpen tokens)) := by
  induction es generalizing l isOpen tokens with
  | nil => exact absurd rfl hne
  | cons e es ih =>
    have he := hes e List.mem_cons_self
    cases es with
    | nil =>
      have hline : recordLines [e] = e.line := List.append_nil _
      rw [hline] at h
      obtain ⟨l', hreaches, h'⟩ := reaches_lastField he isOpen hr h
      refine ⟨l', hreaches, ?_⟩
      rwa [List.flatMap_singleton]
    | cons f fs =>
      have hline : recordLines (e :: f :: fs) = e.line ++ (Writer.spaces 2 ++ recordLines (f :: fs)) := rfl
      rw [hline, List.append_assoc, List.append_assoc] at h
      have hstart := isStart_recordLines (fun g hg => hes g (List.mem_cons_of_mem _ hg))
        (List.cons_ne_nil f fs) 0 r
      obtain ⟨l₁, hreaches, h₁⟩ := reaches_field he isOpen hstart h
      obtain ⟨l', hreaches', h'⟩ := ih (fun g hg => hes g (List.mem_cons_of_mem _ hg)) (List.cons_ne_nil _ _) true h₁
      refine ⟨l', ?_, ?_⟩
      · rw [List.length_cons, Nat.mul_add]
        exact hreaches.trans hreaches'
      · rw [List.flatMap_cons, List.reverse_append, List.append_assoc]
        exact h'

theorem lexToken_brace (hcolumn : l.cursor.column ≠ 0) :
    l.lexToken '{' = l.lexFlowStart .flowMappingStart ∧ l.lexToken '}' = l.lexFlowEnd .flowMappingEnd := by
  constructor <;>
  · unfold lexToken
    simp [atMark_of_column hcolumn]

/-- A place that no key starts at is forgotten at the end of its line. -/
theorem expirePlaces_line (hflow : l.outerPlaces = []) (hpossible : l.place.possible = true)
    (hrequired : l.place.required = false) (hline : l.place.line < l.cursor.line) :
    l.expirePlaces = some { l with place := { l.place with possible := false } } := by
  have hexpire : expire l.cursor l.place = some { l.place with possible := false } := by
    unfold expire
    rw [if_pos (by simp [hpossible, hline]), if_neg (by simp [hrequired])]
  unfold expirePlaces
  rw [hexpire, hflow]
  rfl

/-- Where the lexer is within the braces of a record without fields. -/
structure InBraces (l : Lexer) (rest : List Char) (tokens : List Token) : Prop where
  cursor : Stands l.cursor rest 3
  indent : l.indent = 0
  outer : l.outerIndents = [-1]
  place : l.place.possible = false
  outerPlace : ∃ k, l.outerPlaces = [k] ∧ k.possible = true ∧ k.required = false ∧ k.line = l.cursor.line
  tokens : l.tokens = tokens

theorem steps_openBrace {y : List Char} (h : Awaits l ('{' :: '}' :: y) 2 0 [-1] true tokens) :
    ∃ l', Steps l l' ∧ InBraces l' ('}' :: y) (.flowMappingStart :: tokens) := by
  have hcolumn : l.cursor.column ≠ 0 := by
    rw [h.cursor.column]
    decide
  obtain ⟨l₁, hl₁⟩ : ∃ l₁, l₁ = { l with
    cursor := l.cursor.advance 1
    place := {}
    outerPlaces := [l.keyPlace]
    keyAllowed := true
    tokens := .flowMappingStart :: l.tokens } := ⟨_, rfl⟩
  have hrest : l₁.cursor.rest = '}' :: y := by
    rw [hl₁]
    exact Cursor.rest_advance (x := ['{']) h.cursor.rest
  have htoken : l.lexFlowStart .flowMappingStart = some l₁ := by
    unfold lexFlowStart
    rw [notePlace_of h.keyAllowed h.place, hl₁]
    simp only [Option.bind_eq_bind, Option.bind_some, h.flow]
    rfl
  have hgap : skipGap (l₁.cursor.rest.length + 1) l₁ = l₁ := by
    rw [skipGap_spaces (k := 0) (isStart_cons rfl (by decide) (fun _ => by decide) _) hrest]
    rfl
  have hexpire : ∀ k ∈ l₁.outerPlaces, expire l₁.cursor k = some k := by
    intro k hk
    rw [hl₁] at hk ⊢
    obtain rfl := List.mem_singleton.1 hk
    refine expire_of_close rfl ?_
    have := width_le l.cursor 1
    show l.cursor.index + l.cursor.width 1 ≤ l.cursor.index + 1024
    omega
  have hflow : l₁.inFlow = true := by
    rw [hl₁]
    rfl
  refine ⟨l₁, ⟨'{', by rw [Cursor.peek_zero, h.cursor.rest]; rfl, ?_⟩, ?_⟩
  · rw [(lexToken_brace hcolumn).1, htoken, Option.bind_some]
    unfold settle
    rw [hgap, expirePlaces_of (by rw [hl₁]; rfl) hexpire, Option.map_some]
    unfold unwind
    rw [if_pos hflow]
  · have hrequired : l.keyPlace.required = false := by
      unfold keyPlace
      rw [h.indent, h.cursor.column]
      exact Bool.and_false _
    rw [hl₁] at hrest ⊢
    exact ⟨⟨hrest, by rw [Cursor.column_advance, h.cursor.column]⟩, h.indent, h.outer, rfl,
      ⟨l.keyPlace, rfl, rfl, hrequired, rfl⟩, congrArg _ h.tokens⟩

theorem steps_closeBrace (hr : IsStart 0 r) (h : InBraces l ('}' :: '\n' :: r) tokens) :
    ∃ l', Steps l l' ∧ Awaits l' r 0 0 [-1] true (.flowMappingEnd :: tokens) := by
  obtain ⟨k, hk, hpossible, hrequired, hkline⟩ := h.outerPlace
  have hcolumn : l.cursor.column ≠ 0 := by
    rw [h.cursor.column]
    decide
  obtain ⟨l₁, hl₁⟩ : ∃ l₁, l₁ = { l with
    cursor := l.cursor.advance 1
    place := k
    outerPlaces := []
    keyAllowed := false
    tokens := .flowMappingEnd :: l.tokens } := ⟨_, rfl⟩
  have hrest : l₁.cursor.rest = '\n' :: r := by
    rw [hl₁]
    exact Cursor.rest_advance (x := ['}']) h.cursor.rest
  have htoken : l.lexFlowEnd .flowMappingEnd = some l₁ := by
    unfold lexFlowEnd
    rw [dropPlace_of h.place, hl₁]
    simp only [Option.bind_eq_bind, Option.bind_some, hk]
    rfl
  have hline := Cursor.skipLine_of_ne (by decide) hrest
  obtain ⟨l₂, hl₂⟩ : ∃ l₂, l₂ = { l₁ with cursor := l₁.cursor.skipLine, keyAllowed := true } := ⟨_, rfl⟩
  have hgap : skipGap (l₁.cursor.rest.length + 1) l₁ = l₂ := by
    have hflow : l₁.inFlow = false := by
      rw [hl₁]
      rfl
    rw [skipGap_line hrest, hrest, hflow, Bool.not_false, Bool.or_true, List.length_cons, ← hl₂,
      skipGap_spaces (k := 0) (by rw [hl₂, hline.column]; exact hr) (by rw [hl₂]; exact hline.rest)]
    rfl
  have hlater : l₂.place.line < l₂.cursor.line := by
    have hline₁ : l₁.cursor.skipLine.line = l.cursor.line + 1 := by
      rw [Cursor.line_skipLine hrest, hl₁]
      rfl
    have hplace : l₂.place.line = l.cursor.line := by
      rw [hl₂, hl₁]
      exact hkline
    rw [hplace, hl₂]
    exact hline₁ ▸ Nat.lt_succ_self _
  have hexpire := expirePlaces_line (l := l₂) (by rw [hl₂, hl₁]) (by rw [hl₂, hl₁]; exact hpossible)
    (by rw [hl₂, hl₁]; exact hrequired) hlater
  have hawaits : Awaits { l₂ with place := { l₂.place with possible := false } } r 0 0 [-1] true
      (.flowMappingEnd :: tokens) := by
    rw [hl₂]
    exact ⟨hline, by rw [hl₁]; exact h.indent, by rw [hl₁]; exact h.outer, rfl, rfl, by rw [hl₁],
      by rw [hl₁]; exact congrArg _ h.tokens⟩
  refine ⟨_, ⟨'}', by rw [Cursor.peek_zero, h.cursor.rest]; rfl, ?_⟩, hawaits⟩
  rw [(lexToken_brace hcolumn).2, htoken, Option.bind_some]
  unfold settle
  rw [hgap, hexpire, Option.map_some, unwind_of_le]
  rw [hawaits.indent]
  exact Int.natCast_nonneg _

/-- A record without fields. -/
theorem reaches_empty (hr : IsStart 0 r) (h : Awaits l ('{' :: '}' :: '\n' :: r) 2 0 [-1] true tokens) :
    ∃ l', Reaches 2 l l' ∧ Awaits l' r 0 0 [-1] true (.flowMappingEnd :: .flowMappingStart :: tokens) := by
  obtain ⟨l₁, hstep₁, h₁⟩ := steps_openBrace h
  obtain ⟨l', hstep₂, h'⟩ := steps_closeBrace hr h₁
  exact ⟨l', hstep₁.reaches.trans hstep₂.reaches, h'⟩

theorem isStart_itemLines (es : List Entry) (r : List Char) : IsStart 0 (itemLines es ++ r) :=
  isStart_cons rfl (by decide) (fun _ => by decide) _

theorem length_line {e : Entry} (he : e.Fits) : 3 ≤ e.line.length := by
  obtain ⟨⟨d, ds, hkey, -⟩, -⟩ := isKey_spec he.key
  obtain ⟨c, cs, hw, -⟩ := exists_of_writes he.writes
  unfold Entry.line
  rw [hkey, hw]
  simp only [List.length_append, List.length_cons]
  omega

theorem length_recordLines {es : List Entry} (hes : ∀ e ∈ es, e.Fits) : 3 * es.length ≤ (recordLines es).length := by
  induction es with
  | nil => exact Nat.zero_le _
  | cons e es ih =>
    have he := length_line (hes e List.mem_cons_self)
    have := ih fun f hf => hes f (List.mem_cons_of_mem _ hf)
    unfold recordLines
    rw [List.length_append, List.length_cons]
    cases es with
    | nil => simp only [List.length_nil]; omega
    | cons f fs =>
      rw [List.isEmpty_cons, if_neg Bool.false_ne_true, List.length_append]
      omega

/-- An item is read up to the next one. -/
theorem reaches_item {es : List Entry} (hes : ∀ e ∈ es, e.Fits) (isOpen : Bool) (hr : IsStart 0 r)
    (h : Awaits l (itemLines es ++ r) 0 (if isOpen then 0 else -1) (if isOpen then [-1] else []) true tokens) :
    ∃ n l', n ≤ (itemLines es).length ∧ Reaches n l l' ∧ Awaits l' r 0 0 [-1] true
      ((itemTokens es).reverse ++ opened .blockSequenceStart isOpen tokens) := by
  unfold itemLines at h
  rw [List.cons_append, List.cons_append] at h
  unfold itemLines itemTokens recordTokens
  cases es with
  | nil =>
    obtain ⟨l₁, hdash, h₁⟩ := steps_dash isOpen h (isStart_cons rfl (by decide) (fun h => by cases h) _)
    obtain ⟨l', hreaches, h'⟩ := reaches_empty hr h₁
    exact ⟨_, l', by simp, hdash.reaches.trans hreaches, h'⟩
  | cons e es =>
    rw [List.isEmpty_cons, if_neg Bool.false_ne_true] at h ⊢
    rw [if_neg Bool.false_ne_true]
    obtain ⟨l₁, hdash, h₁⟩ := steps_dash isOpen h (isStart_recordLines hes (List.cons_ne_nil _ _) 1 r)
    obtain ⟨l', hreaches, h'⟩ := reaches_record hes (List.cons_ne_nil _ _) false hr h₁
    refine ⟨_, l', ?_, hdash.reaches.trans hreaches, ?_⟩
    · have := length_recordLines hes
      simp only [List.length_cons] at this ⊢
      omega
    · simpa [opened] using h'

theorem reaches_items {items : List (List Entry)} (hitems : ∀ es ∈ items, ∀ e ∈ es, e.Fits) (hne : items ≠ [])
    (isOpen : Bool)
    (h : Awaits l (items.flatMap itemLines) 0 (if isOpen then 0 else -1) (if isOpen then [-1] else []) true
      tokens) :
    ∃ n l', n ≤ (items.flatMap itemLines).length ∧ Reaches n l l' ∧ Awaits l' [] 0 0 [-1] true
      ((items.flatMap itemTokens).reverse ++ opened .blockSequenceStart isOpen tokens) := by
  induction items generalizing l isOpen tokens with
  | nil => exact absurd rfl hne
  | cons es items ih =>
    have hes := hitems es List.mem_cons_self
    rw [List.flatMap_cons, List.flatMap_cons, List.length_append, List.reverse_append, List.append_assoc]
    rw [List.flatMap_cons] at h
    cases items with
    | nil =>
      have hend : IsStart 0 [] := ⟨rfl, by simp, by simp⟩
      obtain ⟨n, l', hn, hreaches, h'⟩ := reaches_item hes isOpen hend h
      exact ⟨n, l', Nat.le_add_right_of_le hn, hreaches, h'⟩
    | cons fs items =>
      obtain ⟨m, l₁, hm, hreaches, h₁⟩ := reaches_item hes isOpen
        (by rw [List.flatMap_cons]; exact isStart_itemLines fs _) h
      obtain ⟨n, l', hn, hreaches', h'⟩ := ih (fun gs hgs => hitems gs (List.mem_cons_of_mem _ hgs))
        (List.cons_ne_nil _ _) true h₁
      exact ⟨n + m, l', by omega, hreaches.trans hreaches', h'⟩

/-- At the end the sequence is closed. -/
theorem lexFrom_nil (h : Awaits l [] 0 0 [-1] true tokens) (fuel : Nat) :
    lexFrom fuel l = some (.blockEnd :: tokens).reverse := by
  obtain ⟨l', hl'⟩ : ∃ l' : Lexer, l' = { l.push .blockEnd with indent := -1, outerIndents := [] } := ⟨_, rfl⟩
  have hunwind : l.unwind (-1) = l' := by
    unfold unwind
    rw [h.inFlow_eq, h.outer]
    simp only [Bool.false_eq_true, if_false]
    unfold closeBlocks
    rw [h.indent, if_neg (by decide), hl']
    rfl
  unfold lexFrom
  rw [Cursor.peek_zero, h.cursor.rest, hunwind, dropPlace_of (by rw [hl']; exact h.place), hl']
  exact congrArg _ (congrArg List.reverse (congrArg _ h.tokens))

end Tokens

end Lexer

/-- The tokens of a list of records are those of its records. -/
theorem tokens?_items {items : List (List Entry)} (hne : items ≠ []) (hitems : ∀ es ∈ items, ∀ e ∈ es, e.Fits)
    (hall : (items.flatMap itemLines).all isAllowed = true) :
    tokens? (items.flatMap itemLines) =
      some (.blockSequenceStart :: (items.flatMap itemTokens ++ [.blockEnd])) := by
  have hstart : Lexer.IsStart 0 (items.flatMap itemLines) := by
    obtain ⟨es, items, rfl⟩ := List.exists_cons_of_ne_nil hne
    rw [List.flatMap_cons]
    exact Lexer.isStart_itemLines es _
  have hfirst : Lexer.Awaits { cursor := { rest := items.flatMap itemLines } } (items.flatMap itemLines) 0 (-1)
      [] true [] := ⟨⟨rfl, rfl⟩, rfl, rfl, rfl, rfl, rfl, rfl⟩
  have hspaces := hfirst.spaces (k := 0) hstart (items.flatMap itemLines).length
  obtain ⟨n, l', hn, hreaches, h'⟩ := Lexer.reaches_items hitems hne false hspaces
  obtain ⟨fuel, hfuel⟩ := Nat.exists_eq_add_of_le hn
  have htokens := hreaches (fuel + 1)
  rw [show fuel + 1 + n = (items.flatMap itemLines).length + 1 by omega, Lexer.lexFrom_nil h'] at htokens
  unfold tokens?
  rw [if_pos hall, Lexer.lexAll_succ, Lexer.settle_keep rfl hspaces (by decide), Option.bind_some, htokens]
  simp [Lexer.opened]

end Workload.Yaml

import Workload.Proofs.Scalars

/-!
# Quoted scalars

A text that is written between quotes is read as it is, up to the closing quote (`readQuoted_writing`):
character by character (`ReadsAs`), and over the gaps, where reading resumes with what they count as
(`Follows`).
-/

namespace Workload.Yaml

open Text (Spelling)
open Cursor (Stands)

section Quoted

variable {single : Bool} {c : Cursor}

/-- How much fuel there is makes no difference if it is enough. -/
theorem readQuotedPart_fuel {n m : Nat} (hn : c.rest.length < n) (hm : c.rest.length < m) (text : List Char) :
    readQuotedPart single n c text = readQuotedPart single m c text := by
  induction n generalizing m c text with
  | zero => cases hn
  | succ n ih =>
    obtain ⟨m, rfl⟩ := Nat.exists_eq_succ_of_ne_zero (Nat.ne_of_gt (Nat.zero_lt_of_lt hm))
    cases hrest : c.rest with
    | nil =>
      unfold readQuotedPart
      rw [Cursor.peek_zero, hrest]
      rfl
    | cons d ds =>
      have hrec : ∀ k text, readQuotedPart single n (c.advance (k + 1)) text =
          readQuotedPart single m (c.advance (k + 1)) text := by
        intro k text
        have hlt : (c.advance (k + 1)).rest.length < c.rest.length := by
          show (c.rest.drop (k + 1)).length < c.rest.length
          rw [hrest, List.length_drop, List.length_cons]
          omega
        exact ih (by omega) (by omega) text
      have hone := hrec 0
      have htwo := hrec 1
      have hmore : ∀ w text, readQuotedPart single n (c.advance (2 + w)) text =
          readQuotedPart single m (c.advance (2 + w)) text := by
        intro w text
        rw [show 2 + w = (w + 1) + 1 by omega]
        exact hrec (w + 1) text
      unfold readQuotedPart
      simp only [hone, htwo, hmore]

/-- A part of a quoted scalar stands for a character. -/
structure ReadsAs (single : Bool) (x : List Char) (ch : Char) : Prop where
  solid : ∃ d ds, x = d :: ds ∧ isGap (some d) = false
  read : ∀ {c : Cursor} {r : List Char}, c.rest = x ++ r → ∀ (n : Nat) (text : List Char),
    readQuotedPart single (n + 1) c text = readQuotedPart single n (c.advance x.length) (ch :: text)

theorem readsAs_self {d : Char} (hd : isGap (some d) = false)
    (hquote : if single then d ≠ '\'' else d ≠ '"' ∧ d ≠ '\\') : ReadsAs single [d] d where
  solid := ⟨d, [], rfl, hd⟩
  read {c r} hc n text := by
    rw [isGap_some] at hd
    conv_lhs => unfold readQuotedPart
    rw [Cursor.peek_zero, hc]
    cases single with
    | false => simp [hd, hquote.1, hquote.2]
    | true => simp [hd, show d ≠ '\'' from hquote]

theorem readsAs_quote : ReadsAs true ['\'', '\''] '\'' where
  solid := ⟨'\'', ['\''], rfl, rfl⟩
  read {c r} hc n text := by
    conv_lhs => unfold readQuotedPart
    rw [Cursor.peek_zero, Cursor.peek_one, hc]
    simp [isSpace, isBreak]

theorem readDigits_cons (base acc : Nat) (d : Char) (ds : List Char) :
    Text.readDigits base acc (d :: ds) =
      (Text.digitValue? base d).bind fun v => Text.readDigits base (acc * base + v) ds := by
  conv_lhs => unfold Text.readDigits
  cases Text.digitValue? base d <;> rfl

theorem readDigits_append (base acc : Nat) (x y : List Char) :
    Text.readDigits base acc (x ++ y) =
      (Text.readDigits base acc x).bind fun acc => Text.readDigits base acc y := by
  induction x generalizing acc with
  | nil => rfl
  | cons d ds ih =>
    rw [List.cons_append, readDigits_cons, readDigits_cons, Option.bind_assoc]
    exact Option.bind_congr fun v _ => ih _

theorem readDigits_hexDigits {w n : Nat} (hn : n < Nat.pow 16 w) (acc : Nat) :
    Text.readDigits 16 acc (Writer.hexDigits w n) = some (acc * Nat.pow 16 w + n) := by
  have hdigit : ((List.range 16).all fun i =>
      Text.digitValue? 16 ("0123456789ABCDEF".toList.getD i '0') == some i) = true := rfl
  induction w generalizing n with
  | zero =>
    obtain rfl : n = 0 := by simpa using hn
    simp [Writer.hexDigits, Text.readDigits]
  | succ w ih =>
    have hlt : n / 16 < Nat.pow 16 w := by
      rw [Nat.div_lt_iff_lt_mul (by decide)]
      exact hn
    have hvalue := List.all_eq_true.1 hdigit (n % 16) (List.mem_range.2 (Nat.mod_lt _ (by decide)))
    rw [beq_iff_eq] at hvalue
    have hdivision := Nat.div_add_mod n 16
    unfold Writer.hexDigits
    rw [readDigits_append, ih hlt, Option.bind_some, readDigits_cons, hvalue, Option.bind_some,
      show (acc * Nat.pow 16 w + n / 16) * 16 + n % 16 = acc * Nat.pow 16 (w + 1) + n by
        have hpow : Nat.pow 16 w * 16 = Nat.pow 16 (w + 1) := rfl
        rw [Nat.add_mul, Nat.mul_assoc, hpow]
        omega]
    rfl

theorem length_hexDigits (w n : Nat) : (Writer.hexDigits w n).length = w := by
  induction w generalizing n with
  | zero => rfl
  | succ w ih =>
    unfold Writer.hexDigits
    rw [List.length_append, ih]
    rfl

theorem escapedChar?_hexDigits {w : Nat} {ch : Char} (hw : w ≠ 0) (h : ch.toNat < Nat.pow 16 w) :
    escapedChar? w (Writer.hexDigits w ch.toNat) = some ch := by
  have hlength := length_hexDigits w ch.toNat
  have hne : (Writer.hexDigits w ch.toNat).isEmpty = false := by
    rw [List.isEmpty_eq_false_iff, ← List.length_pos_iff, hlength]
    exact Nat.pos_of_ne_zero hw
  have hvalid : ¬((0xD800 ≤ ch.toNat ∧ ch.toNat ≤ 0xDFFF) ∨ 0x10FFFF < ch.toNat) := by
    have hvalid : ch.toNat < 0xD800 ∨ 0xDFFF < ch.toNat ∧ ch.toNat < 0x110000 := ch.valid
    omega
  unfold escapedChar? Text.natOf?
  rw [hne]
  simp only [hlength, ne_eq, not_true_eq_false, if_false, Bool.false_eq_true, readDigits_hexDigits h,
    Nat.zero_mul, Nat.zero_add, Option.bind_eq_bind, Option.bind_some, Bool.or_eq_true, Bool.and_eq_true,
    decide_eq_true_eq, hvalid, Char.ofNat_toNat]
  rfl

theorem readsAs_escape (ch : Char) : ReadsAs false (Writer.escape ch) ch := by
  have hgap : isSpace '\\' = false ∧ isBreak '\\' = false := ⟨rfl, rfl⟩
  rcases escape_eq ch with ⟨e, he, hsimple, hwidth, heq⟩ | ⟨e, he, w, hwidth, hlt, heq⟩
  · rw [heq]
    refine ⟨⟨'\\', [e], rfl, rfl⟩, fun {c r} hc n text => ?_⟩
    conv_lhs => unfold readQuotedPart
    rw [Cursor.peek_zero, Cursor.peek_one, hc]
    simp [hgap, hsimple, hwidth, (of_mem_escapeChars he).2.2]
  · rw [heq]
    refine ⟨⟨'\\', e :: Writer.hexDigits w ch.toNat, rfl, rfl⟩, fun {c r} hc n text => ?_⟩
    have hw : w ≠ 0 := by
      rintro rfl
      unfold escapeWidth? at hwidth
      split at hwidth <;> cases hwidth
    have hdigits : (c.rest.drop 2).take w = Writer.hexDigits w ch.toNat := by
      rw [hc]
      exact List.take_left' (length_hexDigits w ch.toNat)
    have hlength : ('\\' :: e :: Writer.hexDigits w ch.toNat).length = 2 + w := by
      rw [List.length_cons, List.length_cons, length_hexDigits]
      omega
    have hpeek : c.peek 0 = some '\\' ∧ c.peek 1 = some e := by
      rw [Cursor.peek_zero, Cursor.peek_one, hc]
      exact ⟨rfl, rfl⟩
    conv_lhs => unfold readQuotedPart
    rw [hlength]
    simp [hpeek, hgap, hwidth, (of_mem_escapeChars he).2.2, hdigits, escapedChar?_hexDigits hw hlt]

/-- What closes a quoted scalar. -/
def quoteMark (single : Bool) : Char := if single then '\'' else '"'

theorem readQuoted_close {r : List Char} (hc : c.rest = quoteMark single :: r) (hr : r.head? ≠ some '\'')
    (hmark : c.atDocumentMark = false) (n : Nat) (text : List Char) :
    readQuoted single (n + 1) c text = some (text.reverse, c.advance 1) := by
  have hpeek : c.peek 0 = some (quoteMark single) := by
    rw [Cursor.peek_zero, hc]
    rfl
  have hpart : readQuotedPart single (c.rest.length + 1) c text = some (text, c, false) := by
    unfold readQuotedPart
    rw [hpeek, Cursor.peek_one, hc, List.tail_cons]
    cases single with
    | false => rfl
    | true => simp [quoteMark, isSpace, isBreak, hr]
  have hend : c.atEnd = false := by
    rw [Cursor.atEnd_eq, hc]
    rfl
  unfold readQuoted
  cases single <;> simp_all [quoteMark]

theorem readQuoted_char {x y : List Char} {ch : Char} (hx : ReadsAs single x ch) (hc : c.rest = x ++ y)
    (hy : y ≠ []) (hmark : c.atDocumentMark = false) (n : Nat) (text : List Char) :
    readQuoted single (n + 1) c text = readQuoted single (n + 1) (c.advance x.length) (ch :: text) := by
  obtain ⟨d, ds, rfl, -⟩ := hx.solid
  have hrest := Cursor.rest_advance hc
  have hmark' : (c.advance (d :: ds).length).atDocumentMark = false :=
    Cursor.atDocumentMark_of_column (by rw [Cursor.column_advance]; simp)
  have hend : c.atEnd = false := by
    rw [Cursor.atEnd_eq, hc]
    rfl
  have hend' : (c.advance (d :: ds).length).atEnd = false := by
    rw [Cursor.atEnd_eq, hrest]
    simpa using hy
  have hpart : readQuotedPart single (c.rest.length + 1) c text =
      readQuotedPart single ((c.advance (d :: ds).length).rest.length + 1) (c.advance (d :: ds).length)
        (ch :: text) := by
    rw [hx.read hc]
    refine readQuotedPart_fuel ?_ (Nat.lt_succ_self _) _
    rw [hrest, hc, List.length_append, List.length_cons]
    omega
  conv_lhs => unfold readQuoted
  conv_rhs => unfold readQuoted
  rw [hmark, hend, hmark', hend', hpart]

/-- Reads on behind a gap that goes on here. -/
def resume (single : Bool) (n : Nat) (c : Cursor) (text : List Char) (g : Gap) : Option (List Char × Cursor) :=
  (readGap 0 (c.rest.length + 1) c g).bind fun r => readQuoted single n r.2 (r.1.text.reverse ++ text)

theorem readQuoted_gap {d : Char} {r : List Char} (hd : isGap (some d) = true) (hc : c.rest = d :: r)
    (hmark : c.atDocumentMark = false) (n : Nat) (text : List Char) :
    readQuoted single (n + 1) c text = resume single n c text {} := by
  have hpeek : c.peek 0 = some d := by
    rw [Cursor.peek_zero, hc]
    rfl
  rw [isGap_some] at hd
  have hpart : readQuotedPart single (c.rest.length + 1) c text = some (text, c, false) := by
    unfold readQuotedPart
    rw [hpeek]
    simp [hd]
  have hend : c.atEnd = false := by
    rw [Cursor.atEnd_eq, hc]
    rfl
  have hne : d ≠ '\'' ∧ d ≠ '"' := by
    constructor <;> (rintro rfl; cases hd)
  unfold readQuoted resume
  cases single <;> simp [hmark, hend, hpart, hpeek, hne]

theorem resume_clear (hr : isClear c.rest = true) (n : Nat) (text : List Char) (g : Gap) :
    resume single n c text g = readQuoted single n c (g.text.reverse ++ text) := by
  unfold resume
  rw [readGap_clear hr]
  rfl

theorem resume_space {ch : Char} {r : List Char} (hch : isSpace ch = true) (hc : c.rest = ch :: r) (n : Nat)
    (text p : List Char) :
    resume single n c text { spaces := p } = resume single n (c.advance 1) text { spaces := ch :: p } := by
  have hrest : (c.advance 1).rest = r := Cursor.rest_advance (x := [ch]) hc
  unfold resume
  rw [readGap_space hch hc _ rfl, hrest, hc]
  rfl

theorem resume_indentation {k : Nat} {r : List Char} (hc : c.rest = Writer.spaces k ++ r) (n : Nat)
    (text : List Char) {g : Gap} (hg : g.broken = true) :
    resume single n c text g = resume single n (c.advance k) text g := by
  induction k generalizing c with
  | zero => rfl
  | succ k ih =>
    have hrest : (c.advance 1).rest = Writer.spaces k ++ r := Cursor.rest_advance (x := [' ']) hc
    have hstep : resume single n c text g = resume single n (c.advance 1) text g := by
      unfold resume
      rw [readGap_indentation hc _ hg, hrest, hc]
      rfl
    rw [hstep, ih hrest, Cursor.advance_advance, Nat.add_comm]

theorem resume_break {b : Char} {r : List Char} (hb : b = '\u2028' ∨ b = '\u2029') (hc : c.rest = b :: r)
    (n : Nat) (text : List Char) (g : Gap) :
    resume single n c text g = resume single n c.skipLine text
      (if g.broken then { g with more := b :: g.more } else { g with first := [b], broken := true }) := by
  have hbreak : isBreak b = true ∧ isSpace b = false ∧ b ≠ '\r' := by
    rcases hb with rfl | rfl <;> exact ⟨rfl, rfl, by decide⟩
  unfold resume
  rw [readGap_break hbreak.1 hbreak.2.1 hc, (Cursor.skipLine_of_ne hbreak.2.2 hc).rest, hc,
    Cursor.lineBreak_eq (.inr hb) hc]
  rfl

/-- What stands in front of a place in a quoted scalar, on its line. -/
inductive Place where
  /-- The start of the scalar, or a part of it. -/
  | part
  | blanks
  /-- Line breaks, and spaces behind them. -/
  | lines

/-- How a text goes on between quotes: no blanks stand next to its line breaks, and behind these there are
spaces that do not count. -/
inductive Follows (single : Bool) : Place → List Char → List Char → Prop
  | nil {at_ : Place} : Follows single at_ [] []
  | char {at_ : Place} {ch : Char} {x s t : List Char} : ReadsAs single x ch → Follows single .part s t →
    Follows single at_ (ch :: s) (x ++ t)
  | blank {at_ : Place} {ch : Char} {s t : List Char} : isSpace ch = true → at_ ≠ .lines →
    Follows single .blanks s t → Follows single at_ (ch :: s) (ch :: t)
  | line {at_ : Place} {b : Char} {k : Nat} {s t : List Char} : b = '\u2028' ∨ b = '\u2029' → at_ ≠ .blanks →
    (k = 0 → ∀ d ∈ t.head?, isGap (some d) = true) → Follows single .lines s t →
    Follows single at_ (b :: s) (b :: (Writer.spaces k ++ t))

theorem Follows.length_le {at_ : Place} {s t : List Char} (h : Follows single at_ s t) :
    s.length ≤ t.length := by
  induction h with
  | nil => exact Nat.le_refl _
  | char hx _ ih =>
    obtain ⟨d, ds, rfl, -⟩ := hx.solid
    simp only [List.length_append, List.length_cons]
    omega
  | blank _ _ _ ih => exact Nat.succ_le_succ ih
  | line _ _ _ _ ih =>
    simp only [List.length_append, List.length_cons]
    omega

/-- What is written at a place, up to the closing quote and what follows that, is read as a text. -/
def Reads (single : Bool) (r s t : List Char) : Place → Prop
  | .part => ∀ (c : Cursor) (n : Nat) (text : List Char), c.rest = t ++ quoteMark single :: r →
    c.atDocumentMark = false → s.length < n →
    ∃ c', readQuoted single n c text = some (text.reverse ++ s, c') ∧ c'.rest = r
  | .blanks => ∀ (c : Cursor) (n : Nat) (text p : List Char), c.rest = t ++ quoteMark single :: r →
    c.column ≠ 0 → s.length < n →
    ∃ c', resume single n c text { spaces := p } = some (text.reverse ++ (p.reverse ++ s), c') ∧ c'.rest = r
  | .lines => ∀ (c : Cursor) (n : Nat) (text : List Char) (b : Char) (more : List Char),
    c.rest = t ++ quoteMark single :: r → b ≠ '\n' →
    (c.column = 0 → ∀ d ∈ t.head?, isGap (some d) = true) → s.length < n →
    ∃ c', resume single n c text { first := [b], more := more, broken := true } =
      some (text.reverse ++ (b :: (more.reverse ++ s)), c') ∧ c'.rest = r

/-- Where no gap goes on it makes no difference which gap stands in front. -/
theorem Reads.of_part {r s t : List Char} (h : Reads single r s t .part)
    (ht : ∀ d ∈ t.head?, isGap (some d) = false) (at_ : Place) : Reads single r s t at_ := by
  have hclear : isClear (t ++ quoteMark single :: r) = true := by
    cases t with
    | nil => cases single <;> rfl
    | cons d ds => exact isClear_cons (ht d rfl) _
  cases at_ with
  | part => exact h
  | blanks =>
    intro c n text p hc hcolumn hn
    rw [resume_clear (hc ▸ hclear)]
    have := h c n (p ++ text) hc (Cursor.atDocumentMark_of_column hcolumn) hn
    rw [List.reverse_append, List.append_assoc] at this
    simpa [Gap.text] using this
  | lines =>
    intro c n text b more hc hb hcolumn hn
    have hmark : c.atDocumentMark = false := by
      by_cases h0 : c.column = 0
      · cases t with
        | nil =>
          rw [List.nil_append] at hc
          unfold Cursor.atDocumentMark Cursor.atMark
          rw [hc]
          cases single <;> simp [quoteMark]
        | cons d ds =>
          have := hcolumn h0 d rfl
          rw [ht d rfl] at this
          cases this
      · exact Cursor.atDocumentMark_of_column h0
    rw [resume_clear (hc ▸ hclear)]
    have := h c n ((b :: more.reverse).reverse ++ text) hc hmark hn
    rw [List.reverse_append, List.reverse_reverse, List.append_assoc] at this
    simpa [Gap.text, hb] using this

/-- A quoted scalar is read up to its closing quote. -/
theorem Follows.reads {at_ : Place} {s t r : List Char} (h : Follows single at_ s t)
    (hr : r.head? ≠ some '\'') : Reads single r s t at_ := by
  induction h with
  | @nil at_ =>
    refine Reads.of_part (fun c n text hc hmark hn => ?_) (by simp) at_
    obtain ⟨n, rfl⟩ := Nat.exists_eq_succ_of_ne_zero (Nat.ne_of_gt (Nat.zero_lt_of_lt hn))
    rw [List.nil_append] at hc
    refine ⟨c.advance 1, ?_, Cursor.rest_advance (x := [quoteMark single]) hc⟩
    rw [List.append_nil]
    exact readQuoted_close hc hr hmark n text
  | @char at_ ch x s t hx _ ih =>
    obtain ⟨d, ds, rfl, hd⟩ := hx.solid
    refine Reads.of_part (fun c n text hc hmark hn => ?_) (by simpa using hd) at_
    obtain ⟨n, rfl⟩ := Nat.exists_eq_succ_of_ne_zero (Nat.ne_of_gt (Nat.zero_lt_of_lt hn))
    rw [List.append_assoc] at hc
    rw [readQuoted_char hx hc (by simp) hmark]
    have := ih (c.advance (d :: ds).length) (n + 1) (ch :: text) (Cursor.rest_advance hc)
      (Cursor.atDocumentMark_of_column (by rw [Cursor.column_advance]; simp)) (Nat.lt_of_succ_lt hn)
    simpa using this
  | @blank at_ ch s t hch hat _ ih =>
    have hspaces : ∀ {c : Cursor} {n : Nat} (text p : List Char),
        c.rest = ch :: (t ++ quoteMark single :: r) → s.length < n →
        ∃ c', resume single n c text { spaces := p } =
          some (text.reverse ++ (p.reverse ++ ch :: s), c') ∧ c'.rest = r := by
      intro c n text p hc hn
      rw [resume_space hch hc]
      have := ih (c.advance 1) n text (ch :: p) (Cursor.rest_advance (x := [ch]) hc)
        (by rw [Cursor.column_advance]; omega) hn
      simpa using this
    cases at_ with
    | part =>
      intro c n text hc hmark hn
      obtain ⟨n, rfl⟩ := Nat.exists_eq_succ_of_ne_zero (Nat.ne_of_gt (Nat.zero_lt_of_lt hn))
      rw [readQuoted_gap (by rw [isGap_some, hch]; rfl) hc hmark]
      exact hspaces text [] hc (Nat.lt_of_succ_lt_succ hn)
    | blanks => exact fun c n text p hc _ hn => hspaces text p hc (Nat.lt_of_succ_lt hn)
    | lines => exact absurd rfl hat
  | @line at_ b k s t hb hat hk _ ih =>
    have hne : b ≠ '\n' ∧ b ≠ '\r' ∧ isBreak b = true := by rcases hb with rfl | rfl <;> decide
    have hlines : ∀ {c : Cursor} {n : Nat} (text : List Char) (g : Gap),
        c.rest = b :: (Writer.spaces k ++ (t ++ quoteMark single :: r)) →
        ∃ c' : Cursor, c'.rest = t ++ quoteMark single :: r ∧
          (c'.column = 0 → ∀ d ∈ t.head?, isGap (some d) = true) ∧
          resume single n c text g = resume single n c' text
            (if g.broken then { g with more := b :: g.more } else { g with first := [b], broken := true }) := by
      intro c n text g hc
      have hline := Cursor.skipLine_of_ne hne.2.1 hc
      have hrest := Cursor.rest_advance (x := Writer.spaces k) hline.rest
      rw [show (Writer.spaces k).length = k from List.length_replicate] at hrest
      refine ⟨c.skipLine.advance k, hrest, fun h0 => hk ?_, ?_⟩
      · rwa [Cursor.column_advance, hline.column, Nat.zero_add] at h0
      · rw [resume_break hb hc, resume_indentation hline.rest]
        split_ifs with hg
        · exact hg
        · rfl
    cases at_ with
    | part =>
      intro c n text hc hmark hn
      obtain ⟨n, rfl⟩ := Nat.exists_eq_succ_of_ne_zero (Nat.ne_of_gt (Nat.zero_lt_of_lt hn))
      rw [List.cons_append, List.append_assoc] at hc
      obtain ⟨c', hc', hcolumn, hresume⟩ := hlines (n := n) text {} hc
      rw [readQuoted_gap (by rw [isGap_some, hne.2.2, Bool.or_true]) hc hmark, hresume]
      exact ih c' n text b [] hc' hne.1 hcolumn (Nat.lt_of_succ_lt_succ hn)
    | blanks => exact absurd rfl hat
    | lines =>
      intro c n text d more hc hd _ hn
      rw [List.cons_append, List.append_assoc] at hc
      obtain ⟨c', hc', hcolumn, hresume⟩ := hlines (n := n) text _ hc
      rw [hresume]
      have := ih c' n text d (b :: more) hc' hd hcolumn (Nat.lt_of_succ_lt hn)
      simpa using this

theorem follows_double {s t : List Char} (h : Spelling SpeltDouble s t) {at_ : Place} (hat : at_ ≠ .lines) :
    Follows false at_ s t := by
  have hpart : Place.part ≠ .lines := fun h => by cases h
  have hblanks : Place.blanks ≠ .lines := fun h => by cases h
  induction h generalizing at_ with
  | nil => exact .nil
  | @cons c x s t hc _ ih =>
    rcases hc with ⟨-, rfl⟩ | ⟨hplain, rfl⟩
    · exact .char (readsAs_escape c) (ih hpart)
    · simp only [Bool.or_eq_false_iff, decide_eq_false_iff_not] at hplain
      by_cases hspace : isSpace c = true
      · exact .blank hspace hat (ih hblanks)
      · refine .char (readsAs_self ?_ ⟨hplain.1.2, hplain.2⟩) (ih hpart)
        rw [isGap_some, hplain.1.1, Bool.or_false]
        simpa using hspace

theorem isQuotable_cons {c : Char} {s : List Char} (h : isQuotable (c :: s) = true) :
    (isBreak c = true → c = '\u2028' ∨ c = '\u2029') ∧ (isBreak c = true → s.head?.any isSpace = false) ∧
      (isSpace c = true → s.head?.any isBreak = false) ∧ isQuotable s = true := by
  unfold isQuotable at h ⊢
  rw [Writer.meets_cons, Writer.meets_cons, List.all_cons] at h
  simp only [Bool.and_eq_true, Bool.not_eq_true', Bool.or_eq_false_iff, Bool.and_eq_false_iff] at h ⊢
  obtain ⟨⟨hc, hall⟩, ⟨hbreak, hbreaks⟩, hspace, hspaces⟩ := h
  refine ⟨fun hb => ?_, fun hb => hbreak.resolve_left (by simp [hb]),
    fun hs => hspace.resolve_left (by simp [hs]), hall, hbreaks, hspaces⟩
  simpa [hb] using hc

theorem follows_single {s t : List Char} (h : Spelling SpeltSingle s t) (hs : isQuotable s = true)
    (ht : Writer.meets isBreak (fun d => !isGap (some d)) t = false) {at_ : Place}
    (hblanks : at_ = .blanks → s.head?.any isBreak = false)
    (hlines : at_ = .lines → s.head?.any isSpace = false) : Follows true at_ s t := by
  induction h generalizing at_ with
  | nil => exact .nil
  | @cons c x s t hc _ ih =>
    obtain ⟨hsep, hbreak, hspace, hs⟩ := isQuotable_cons hs
    rcases hc with ⟨hb, k, rfl⟩ | ⟨hb, rfl⟩
    · rw [List.cons_append, Writer.meets_cons, Writer.meets_spaces, Bool.or_eq_false_iff] at ht
      refine .line (hsep hb) (fun hat => ?_) (fun hk d hd => ?_) (ih hs ht.2 (fun h => by cases h) fun _ => hbreak hb)
      · have := hblanks hat
        simp [hb] at this
      · subst hk
        have := ht.1
        rw [hb, Bool.true_and, show Writer.spaces 0 ++ t = t from rfl, Option.mem_def.1 hd] at this
        simpa using this
    · have htail : Writer.meets isBreak (fun d => !isGap (some d)) t = false := by
        rwa [Writer.meets_append] at ht
        split_ifs
        · simp [isBreak]
        · simpa using hb
      have hpart : Follows true .part s t := ih hs htail (fun h => by cases h) fun h => by cases h
      by_cases hquote : c = '\''
      · subst hquote
        exact .char readsAs_quote hpart
      · rw [if_neg hquote]
        by_cases hsp : isSpace c = true
        · refine .blank hsp (fun hat => ?_) (ih hs htail (fun _ => hspace hsp) fun h => by cases h)
          have := hlines hat
          simp [hsp] at this
        · refine .char (readsAs_self ?_ hquote) hpart
          rw [isGap_some, hb, Bool.or_false]
          simpa using hsp

/-- A quoted scalar is read as it is written. -/
theorem readQuoted_writing {s t r : List Char} (h : Follows single .part s t)
    (hr : r.head? ≠ some '\'') (hcolumn : c.column ≠ 0) (hc : c.rest = t ++ quoteMark single :: r) :
    ∃ c', readQuoted single (c.rest.length + 1) c [] = some (s, c') ∧ c'.rest = r := by
  refine h.reads hr c _ [] hc (Cursor.atDocumentMark_of_column hcolumn) ?_
  have := h.length_le
  rw [hc, List.length_append]
  omega

end Quoted

end Workload.Yaml

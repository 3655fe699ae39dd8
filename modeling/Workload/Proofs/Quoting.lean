import Mathlib.Data.List.Basic
import Mathlib.Data.List.Forall2
import Mathlib.Tactic.SplitIfs
import Workload.Shell.Expand

/-!
# Texts in a shell

A shell makes arguments of texts in three steps: they are encoded, split into fields, and taken for
patterns of paths.  What is encoded is decoded to itself (`textOf_bytesOf`), and splitting takes nothing
away but separators (`flatten_fieldsOf`).  A text fits a pattern if it can be cut into texts for the parts
of the pattern (`fits_iff`); a start or an end that is taken away by a pattern is the shortest or the longest
that fits it (`withoutStart_spec`, `withoutEnd_spec`).  Nothing of this is done to a text between quotes: as a
pattern it fits itself only (`fits_quoted`), and a parameter makes one argument, which is its text
(`expandArgument_quoted`).
-/

namespace Workload.Shell

/-! ### Encoding -/

theorem following_append (low high : Nat) (bs rest : List Nat)
    (hfirst : ∀ b ∈ bs.head?, low ≤ b ∧ b ≤ high) (hmore : ∀ b ∈ bs.tail, 0x80 ≤ b ∧ b ≤ 0xBF) :
    following bs.length low high (bs ++ rest) = bs := by
  induction bs generalizing low high with
  | nil => cases rest <;> rfl
  | cons b bs ih =>
    have hb : (low ≤ b && b ≤ high) = true := by simpa using hfirst b rfl
    have htail : following bs.length 0x80 0xBF (bs ++ rest) = bs :=
      ih 0x80 0xBF (fun c hc => hmore c (List.mem_of_mem_head? hc)) fun c hc =>
        hmore c (List.mem_of_mem_tail hc)
    simp [following, hb, htail]

/-- A first byte, and as many others as it asks for, are decoded to one character. -/
theorem decoded_lead {b low high : Nat} {bs : List Nat} (fuel : Nat) (rest : List Nat)
    (hlead : lead? b = some (bs.length + 1, low, high))
    (hfirst : ∀ c ∈ bs.head?, low ≤ c ∧ c ≤ high) (hmore : ∀ c ∈ bs.tail, 0x80 ≤ c ∧ c ≤ 0xBF) :
    decoded (fuel + 1) (b :: bs ++ rest) =
      Char.ofNat (bs.foldl (fun n r => 64 * n + r % 64)
        (if bs.length = 0 then b else b % Nat.pow 2 (6 - bs.length))) :: decoded fuel rest := by
  have hfollowing := following_append low high bs rest hfirst hmore
  simp only [List.cons_append, decoded, hlead, Nat.add_sub_cancel, hfollowing, Nat.lt_irrefl, if_false,
    List.drop_left, Nat.add_eq_right]
  rw [show 7 - (bs.length + 1) = 6 - bs.length by omega]

theorem lead?_of_three : ∀ n < 16,
    lead? (n + 0xE0) = some (3, if n = 0 then 0xA0 else 0x80, if n = 13 then 0x9F else 0xBF) := by
  decide

theorem lead?_of_four : ∀ n < 5,
    lead? (n + 0xF0) = some (4, if n = 0 then 0x90 else 0x80, if n = 4 then 0x8F else 0xBF) := by
  decide

/-- The numbers of the bytes that encode a character. -/
def codes (c : Char) : List Nat := (String.utf8EncodeChar c).map UInt8.toNat

theorem codes_eq (c : Char) : codes c =
    if c.toNat ≤ 0x7F then [c.toNat]
    else if c.toNat ≤ 0x7FF then [c.toNat / 64 + 0xC0, c.toNat % 64 + 0x80]
    else if c.toNat ≤ 0xFFFF then [c.toNat / 4096 + 0xE0, c.toNat / 64 % 64 + 0x80, c.toNat % 64 + 0x80]
    else
      [c.toNat / 262144 + 0xF0, c.toNat / 4096 % 64 + 0x80, c.toNat / 64 % 64 + 0x80,
        c.toNat % 64 + 0x80] := by
  have hvalid : c.toNat < 0xD800 ∨ 0xDFFF < c.toNat ∧ c.toNat < 0x110000 := c.valid
  have hnat : c.val.toNat = c.toNat := rfl
  simp only [codes, String.utf8EncodeChar, hnat]
  split_ifs <;> simp only [List.map_cons, List.map_nil, UInt8.toNat_ofNat', List.cons.injEq, and_true] <;> omega

/-- The bytes of a character are decoded to it, whatever follows them. -/
theorem decoded_codes (c : Char) (fuel : Nat) (rest : List Nat) :
    decoded (fuel + 1) (codes c ++ rest) = c :: decoded fuel rest := by
  have hvalid : c.toNat < 0xD800 ∨ 0xDFFF < c.toNat ∧ c.toNat < 0x110000 := c.valid
  -- The character is the one with its number; what is left is that the bytes are of the right kind.
  have of_lead {b low high : Nat} {bs : List Nat} (hlead : lead? b = some (bs.length + 1, low, high))
      (hfirst : ∀ c ∈ bs.head?, low ≤ c ∧ c ≤ high) (hmore : ∀ c ∈ bs.tail, 0x80 ≤ c ∧ c ≤ 0xBF)
      (hvalue : bs.foldl (fun n r => 64 * n + r % 64)
        (if bs.length = 0 then b else b % Nat.pow 2 (6 - bs.length)) = c.toNat) :
      decoded (fuel + 1) (b :: bs ++ rest) = c :: decoded fuel rest := by
    rw [decoded_lead fuel rest hlead hfirst hmore, hvalue, Char.ofNat_toNat]
  rw [codes_eq]
  split_ifs with h₁ h₂ h₃
  · have hlead : lead? c.toNat = some (1, 0, 0) := by
      rw [lead?, if_pos (by omega)]
    exact of_lead hlead (by simp) (by simp) (by simp)
  · have hlead : lead? (c.toNat / 64 + 0xC0) = some (2, 0x80, 0xBF) := by
      simp only [lead?, Bool.and_eq_true, decide_eq_true_eq]
      rw [if_neg (by omega), if_pos (by omega)]
    exact of_lead hlead (by simp; omega) (by simp) (by simp; omega)
  · refine of_lead (lead?_of_three (c.toNat / 4096) (by omega)) ?_ (by simp; omega) (by simp; omega)
    simp only [List.head?_cons, Option.mem_def, Option.some.injEq, forall_eq']
    split_ifs <;> omega
  · refine of_lead (lead?_of_four (c.toNat / 262144) (by omega)) ?_ (by simp; omega) (by simp; omega)
    simp only [List.head?_cons, Option.mem_def, Option.some.injEq, forall_eq']
    split_ifs <;> omega

/-- The bytes of an array are listed by their index. -/
theorem toList_byteArray (b : ByteArray) : b.toList = b.data.toList := by
  have hloop (i : Nat) (r : List UInt8) :
      ByteArray.toList.loop b i r = r.reverse ++ b.data.toList.drop i := by
    induction i, r using ByteArray.toList.loop.induct b with
    | case1 i r hi ih =>
      have hlt : i < b.data.toList.length := by simpa using hi
      have hget : b.get! i = b.data.toList[i] := by
        rw [Array.getElem_toList]
        exact getElem!_pos b.data i hi
      rw [ByteArray.toList.loop, if_pos hi, ih, hget, List.drop_eq_getElem_cons hlt, List.reverse_cons,
        List.append_assoc, List.singleton_append]
    | case2 i r hi =>
      have hle : b.data.toList.length ≤ i := by simpa using hi
      rw [ByteArray.toList.loop, if_neg hi, List.drop_eq_nil_of_le hle, List.append_nil]
  exact hloop 0 []

theorem codes_ne_nil (c : Char) : codes c ≠ [] := by
  rw [codes_eq]
  split_ifs <;> simp

theorem decoded_flatMap (cs : List Char) (fuel : Nat) (h : (cs.flatMap codes).length ≤ fuel) :
    decoded fuel (cs.flatMap codes) = cs := by
  induction cs generalizing fuel with
  | nil => cases fuel <;> rfl
  | cons c cs ih =>
    have hpos : 0 < (codes c).length := List.length_pos_iff.2 (codes_ne_nil c)
    rw [List.flatMap_cons, List.length_append] at h
    cases fuel with
    | zero => omega
    | succ fuel => rw [List.flatMap_cons, decoded_codes, ih fuel (by omega)]

theorem flatMap_codes_of_ascii {cs : List Char} (h : ∀ c ∈ cs, c.toNat < 128) :
    cs.flatMap codes = cs.map Char.toNat := by
  induction cs with
  | nil => rfl
  | cons c cs ih =>
    rw [List.forall_mem_cons] at h
    rw [List.flatMap_cons, codes_eq, if_pos (Nat.le_of_lt_succ h.1), ih h.2]
    rfl

theorem map_toNat_bytesOf (t : String) : (bytesOf t).toList.map Char.toNat = t.toList.flatMap codes := by
  unfold bytesOf
  split_ifs with h
  · exact (flatMap_codes_of_ascii (by simpa using h)).symm
  · have hbytes : t.toUTF8.toList = t.toList.flatMap String.utf8EncodeChar := by
      rw [toList_byteArray, String.toUTF8, ← String.utf8Encode_toList, List.utf8Encode, List.data_toByteArray]
    have hbyte (b : UInt8) : (Char.ofNat b.toNat).toNat = b.toNat := by
      rw [Char.ofNat, dif_pos (.inl (Nat.lt_trans b.toNat_lt (by decide)))]
      rfl
    simp only [String.toList_ofList, hbytes, List.map_map, Function.comp_def, hbyte, List.map_flatMap]
    rfl

/-- A text that is encoded is decoded to itself. -/
theorem textOf_bytesOf (t : String) : textOf (bytesOf t) = t := by
  have hdecoded : decoded ((bytesOf t).length + 1) ((bytesOf t).toList.map Char.toNat) = t.toList := by
    rw [map_toNat_bytesOf]
    refine decoded_flatMap t.toList _ ?_
    rw [← map_toNat_bytesOf, List.length_map]
    exact Nat.le_succ _
  unfold textOf
  split_ifs with h
  · -- Bytes that are all characters by themselves are those of their own text, too.
    have hcodes : (bytesOf t).toList.flatMap codes = (bytesOf t).toList.map Char.toNat :=
      flatMap_codes_of_ascii (by simpa using h)
    have hlength : ((bytesOf t).toList.flatMap codes).length ≤ (bytesOf t).length + 1 := by
      rw [hcodes, List.length_map, String.length_toList]
      exact Nat.le_succ _
    rw [← hcodes, decoded_flatMap _ _ hlength] at hdecoded
    exact String.toList_injective hdecoded
  · rw [hdecoded, String.ofList_toList]

/-! ### Patterns -/

/-- The texts that a part of a pattern stands for. -/
inductive Mark.Covers : Mark → List Char → Prop
  | char (c : Char) : Covers (.char c) [c]
  | anyChar (c : Char) : Covers .anyChar [c]
  | anyText (s : List Char) : Covers .anyText s
  | set {negated : Bool} {members : List Member} {c : Char} :
    (members.any (·.has c) != negated) = true → Covers (.set negated members) [c]

theorem fits_cons_iff (m : Mark) (ms : List Mark) (s : List Char) :
    fits (m :: ms) s = true ↔ ∃ a b, s = a ++ b ∧ m.Covers a ∧ fits ms b = true := by
  cases m with
  | char d =>
    constructor
    · intro h
      cases s with
      | nil => simp [fits] at h
      | cons c cs =>
        simp only [fits, Bool.and_eq_true, decide_eq_true_eq] at h
        exact ⟨[d], cs, by simp [h.1], .char d, h.2⟩
    · rintro ⟨a, b, rfl, ⟨⟩, h⟩
      simpa [fits] using h
  | anyChar =>
    constructor
    · intro h
      cases s with
      | nil => simp [fits] at h
      | cons c cs => exact ⟨[c], cs, rfl, .anyChar c, by simpa [fits] using h⟩
    · rintro ⟨a, b, rfl, ⟨c⟩, h⟩
      simpa [fits] using h
  | set negated members =>
    constructor
    · intro h
      cases s with
      | nil => simp [fits] at h
      | cons c cs =>
        simp only [fits, Bool.and_eq_true] at h
        exact ⟨[c], cs, rfl, .set h.1, h.2⟩
    · rintro ⟨a, b, rfl, ha, h⟩
      cases ha with
      | set hc =>
        simp only [List.cons_append, List.nil_append, fits, Bool.and_eq_true]
        exact ⟨hc, h⟩
  | anyText =>
    -- The text that `*` stands for is empty, or begins with the character at hand.
    induction s with
    | nil =>
      constructor
      · intro h
        exact ⟨[], [], rfl, .anyText [], by simpa [fits] using h⟩
      · rintro ⟨a, b, hs, -, h⟩
        obtain ⟨rfl, rfl⟩ := List.nil_eq_append_iff.1 hs
        simpa [fits] using h
    | cons c cs ih =>
      rw [fits, Bool.or_eq_true, ih]
      constructor
      · rintro (h | ⟨a, b, rfl, -, h⟩)
        · exact ⟨[], c :: cs, rfl, .anyText [], h⟩
        · exact ⟨c :: a, b, rfl, .anyText _, h⟩
      · rintro ⟨a, b, hs, -, h⟩
        cases a with
        | nil => exact .inl (by simpa [hs] using h)
        | cons d a =>
          obtain ⟨rfl, rfl⟩ := List.cons_eq_cons.1 hs
          exact .inr ⟨a, b, rfl, .anyText a, h⟩

/-- A text fits a pattern if it can be cut into texts for the parts of the pattern, one for each in turn. -/
theorem fits_iff (ms : List Mark) (s : List Char) :
    fits ms s = true ↔ ∃ cuts : List (List Char), s = cuts.flatten ∧ List.Forall₂ Mark.Covers ms cuts := by
  induction ms generalizing s with
  | nil => simp [fits, List.isEmpty_iff]
  | cons m ms ih =>
    simp only [fits_cons_iff, ih]
    constructor
    · rintro ⟨a, b, rfl, ha, cuts, rfl, h⟩
      exact ⟨a :: cuts, rfl, .cons ha h⟩
    · rintro ⟨cuts, rfl, h⟩
      cases h with
      | @cons _ a _ cuts ha h => exact ⟨a, cuts.flatten, rfl, ha, cuts, rfl, h⟩

/-- What is found in an ordered list comes before all else that could be found. -/
theorem eq_or_of_find? {α : Type} {r : α → α → Prop} {l : List α} {p : α → Bool} {a b : α}
    (hl : l.Pairwise r) (ha : l.find? p = some a) (hb : b ∈ l) (hp : p b = true) : a = b ∨ r a b := by
  obtain ⟨-, before, behind, rfl, hbefore⟩ := List.find?_eq_some_iff_append.1 ha
  rw [List.pairwise_append, List.pairwise_cons] at hl
  rcases List.mem_append.1 hb with h | h
  · exact absurd hp (by simpa using hbefore b h)
  · rcases List.mem_cons.1 h with rfl | h
    · exact .inl rfl
    · exact .inr (hl.2.1.1 b h)

/-- The order in which the lengths of a match are tried. -/
def lengths (longest : Bool) (n : Nat) : List Nat :=
  if longest then (List.range (n + 1)).reverse else List.range (n + 1)

theorem mem_lengths {longest : Bool} {n k : Nat} : k ∈ lengths longest n ↔ k ≤ n := by
  cases longest <;>
    simp only [lengths, if_true, if_false, Bool.false_eq_true, List.mem_reverse, List.mem_range,
      Nat.lt_add_one_iff]

theorem find?_lengths (longest : Bool) (n : Nat) (p : Nat → Bool) :
    (∃ k ≤ n, (lengths longest n).find? p = some k ∧ p k = true ∧
        ∀ j ≤ n, p j = true → if longest then j ≤ k else k ≤ j) ∨
      (lengths longest n).find? p = none ∧ ∀ k ≤ n, p k = false := by
  rcases hf : (lengths longest n).find? p with _ | k
  · exact .inr ⟨rfl, fun k hk => by simpa using List.find?_eq_none.1 hf k (mem_lengths.2 hk)⟩
  · refine .inl ⟨k, mem_lengths.1 (List.mem_of_find?_eq_some hf), rfl, List.find?_some hf, fun j hj hp => ?_⟩
    have hmem : j ∈ lengths longest n := mem_lengths.2 hj
    cases longest with
    | false =>
      rcases eq_or_of_find? List.pairwise_lt_range hf hmem hp with rfl | h
      · simp
      · simpa using Nat.le_of_lt h
    | true =>
      rcases eq_or_of_find? (List.pairwise_reverse.2 List.pairwise_lt_range) hf hmem hp with rfl | h
      · simp
      · simpa using Nat.le_of_lt h

/-- The shortest or the longest start that fits is taken away, if one does. -/
theorem withoutStart_spec (longest : Bool) (ms : List Mark) (s : List Char) :
    (∃ n ≤ s.length, withoutStart longest ms s = s.drop n ∧ fits ms (s.take n) = true ∧
        ∀ k ≤ s.length, fits ms (s.take k) = true → if longest then k ≤ n else n ≤ k) ∨
      withoutStart longest ms s = s ∧ ∀ n ≤ s.length, fits ms (s.take n) = false := by
  rcases find?_lengths longest s.length fun n => fits ms (s.take n) with
    ⟨n, hn, hfind, hfits, hbest⟩ | ⟨hfind, hnone⟩ <;> rw [lengths] at hfind
  · refine .inl ⟨n, hn, ?_, hfits, hbest⟩
    simp only [withoutStart, hfind]
  · refine .inr ⟨?_, hnone⟩
    simp only [withoutStart, hfind]

/-- The shortest or the longest end that fits is taken away, if one does. -/
theorem withoutEnd_spec (longest : Bool) (ms : List Mark) (s : List Char) :
    (∃ n ≤ s.length, withoutEnd longest ms s = s.take n ∧ fits ms (s.drop n) = true ∧
        ∀ k ≤ s.length, fits ms (s.drop k) = true → if longest then n ≤ k else k ≤ n) ∨
      withoutEnd longest ms s = s ∧ ∀ n ≤ s.length, fits ms (s.drop n) = false := by
  -- The longer the end, the earlier it begins.
  have horder : (if longest then List.range (s.length + 1) else (List.range (s.length + 1)).reverse) =
      lengths (!longest) s.length := by cases longest <;> rfl
  rcases find?_lengths (!longest) s.length fun n => fits ms (s.drop n) with
    ⟨n, hn, hfind, hfits, hbest⟩ | ⟨hfind, hnone⟩
  · refine .inl ⟨n, hn, ?_, hfits, fun k hk h => by cases longest <;> simpa using hbest k hk h⟩
    simp only [withoutEnd, horder, hfind]
  · refine .inr ⟨?_, hnone⟩
    simp only [withoutEnd, horder, hfind]

/-! ### Fields -/

/-- The characters of a piece that belong to fields: all but the separators of a text that is split. -/
def Piece.kept (separators : List Char) : Piece → Cells
  | .boundary => []
  | .text t quoted splits =>
    if splits && !quoted then t.toList.flatMap fun c => if c ∈ separators then [] else [(c, false)]
    else Cells.of quoted t

namespace Splitting

/-- The characters of all fields so far. -/
def cells (s : Splitting) : Cells := s.done.reverse.flatten ++ (s.open?.getD []).reverse

@[simp]
theorem cells_close (s : Splitting) : s.close.cells = s.cells := by
  unfold close cells
  cases h : s.open? <;> simp [h]

@[simp]
theorem cells_push (c : Char) (quoted : Bool) (s : Splitting) :
    (s.push c quoted).cells = s.cells ++ [(c, quoted)] := by
  simp [push, cells]

theorem cells_step (separators : List Char) (s : Splitting) (c : Char) :
    (step separators s c).cells = s.cells ++ if c ∈ separators then [] else [(c, false)] := by
  unfold step
  simp only [Bool.not_eq_eq_eq_not, Bool.not_true]
  by_cases hc : c ∈ separators
  · -- A separator ends the field at hand, or an empty one, and is in none.
    have hblank (b : Bool) : ({ s.close with blank := b } : Splitting).cells = s.cells := cells_close s
    simp only [hc, List.contains_eq_mem, decide_true, if_true, List.append_nil]
    split_ifs <;> first
      | exact hblank _
      | simp_all [cells]
  · simp [hc]

/-- What each step adds is added by all of them, in order. -/
theorem cells_foldl {α : Type} {f : Splitting → α → Splitting} {g : α → Cells}
    (hf : ∀ s a, (f s a).cells = s.cells ++ g a) (l : List α) (s : Splitting) :
    (l.foldl f s).cells = s.cells ++ l.flatMap g := by
  induction l generalizing s with
  | nil => simp
  | cons a l ih => rw [List.foldl_cons, ih, hf, List.flatMap_cons, List.append_assoc]

theorem cells_pushes (quoted : Bool) (t : String) (s : Splitting) :
    (t.toList.foldl (fun s c => s.push c quoted) s).cells = s.cells ++ Cells.of quoted t := by
  rw [cells_foldl fun s c => cells_push c quoted s, ← List.map_eq_flatMap]
  rfl

theorem cells_piece (separators : List Char) (s : Splitting) (p : Piece) :
    (piece separators s p).cells = s.cells ++ p.kept separators := by
  cases p with
  | boundary => simp [piece, Piece.kept]
  | text t quoted splits =>
    have hopened :
        ({ s with open? := some (s.open?.getD []), blank := false } : Splitting).cells = s.cells := by
      simp [cells]
    simp only [piece, Piece.kept]
    split_ifs
    · exact cells_foldl (cells_step separators) t.toList s
    · rw [cells_pushes, hopened]
    · exact cells_pushes quoted t s

/-- Splitting takes nothing away but the separators in texts that are split, and keeps the order. -/
theorem flatten_fieldsOf (separators : List Char) (ps : List Piece) :
    (fieldsOf separators ps).flatten = ps.flatMap (Piece.kept separators) := by
  have hclosed (s : Splitting) : s.close.cells = s.close.done.reverse.flatten := by
    unfold close cells
    cases h : s.open? <;> simp [h]
  rw [fieldsOf, ← hclosed, cells_close, cells_foldl (cells_piece separators)]
  rfl

theorem open?_pushes (quoted : Bool) (t : List Char) (s : Splitting) {cs : Cells} (h : s.open? = some cs) :
    (t.foldl (fun s c => s.push c quoted) s).open? = some ((t.map fun c => (c, quoted)).reverse ++ cs) ∧
      (t.foldl (fun s c => s.push c quoted) s).done = s.done := by
  induction t generalizing s cs with
  | nil => simpa using h
  | cons c t ih =>
    have hpush : (s.push c quoted).open? = some ((c, quoted) :: cs) := by simp [push, h]
    obtain ⟨hopen, hdone⟩ := ih (s.push c quoted) hpush
    exact ⟨by simpa using hopen, hdone⟩

/-- A quoted text goes on with the field at hand, or begins one; the end of it closes that. -/
theorem close_piece_quoted (separators : List Char) (s : Splitting) (t : String) (splits : Bool) :
    (piece separators s (.text t true splits)).close =
      { done := ((s.open?.getD []).reverse ++ Cells.of true t) :: s.done } := by
  obtain ⟨hopen, hdone⟩ := open?_pushes true t.toList
    { s with open? := some (s.open?.getD []), blank := false } rfl
  simp [piece, close, hopen, hdone, Cells.of]

/-- Quoted texts with boundaries between them are a field each. -/
theorem fieldsOf_quoted (separators : List Char) (ts : List String) (splits : Bool) :
    fieldsOf separators ((ts.map fun t => Piece.text t true splits).intersperse .boundary) =
      ts.map (Cells.of true) := by
  have hfold (ts : List String) (done : List Cells) :
      (((ts.map fun t => Piece.text t true splits).intersperse .boundary).foldl (piece separators)
        { done }).close.done = (ts.map (Cells.of true)).reverse ++ done := by
    induction ts generalizing done with
    | nil => simp [close]
    | cons t ts ih =>
      cases ts with
      | nil => simp [close_piece_quoted]
      | cons u ts =>
        simp only [List.map_cons, List.intersperse_cons_cons, List.foldl_cons] at ih ⊢
        rw [piece, close_piece_quoted, ih]
        simp
  rw [fieldsOf, hfold]
  simp

end Splitting

/-! ### Quoted texts -/

@[simp]
theorem Cells.text_of (quoted : Bool) (t : String) : Cells.text (Cells.of quoted t) = t := by
  simp [Cells.text, Cells.of, Function.comp_def]

theorem marks_quoted (caret : Bool) (t : List Char) (fuel : Nat) (h : t.length < fuel) :
    marks caret fuel (t.map fun c => (c, true)) = t.map .char := by
  induction t generalizing fuel with
  | nil => cases fuel <;> rfl
  | cons c t ih =>
    cases fuel with
    | zero => simp at h
    | succ fuel => simp [marks, ih fuel (by simpa using h)]

theorem marksOf_quoted (caret : Bool) (t : String) :
    marksOf caret (Cells.of true t) = t.toList.map .char :=
  marks_quoted caret t.toList _ (by simp [Cells.of])

theorem fits_chars (t s : List Char) : fits (t.map .char) s = true ↔ s = t := by
  induction t generalizing s with
  | nil => simp [fits, List.isEmpty_iff]
  | cons c t ih =>
    cases s with
    | nil => simp [fits]
    | cons d s => simp [fits, ih]

/-- A quoted pattern fits its own text and nothing else. -/
theorem fits_quoted (caret : Bool) (t : String) (s : List Char) :
    fits (marksOf caret (Cells.of true t)) s = true ↔ s = t.toList := by
  rw [marksOf_quoted, fits_chars]

/-- A quoted field is one argument, whatever files there are. -/
theorem State.pathsOf_quoted (s : State) (t : String) : s.pathsOf (Cells.of true t) = [t] := by
  have : isPattern (marksOf s.isBash (Cells.of true t)) = false := by
    simp [marksOf_quoted, isPattern]
  simp [pathsOf, this]

/-- The arguments that a value makes between double quotes. -/
def State.Value.arguments (s : State) : State.Value → List String
  | .one t => [t.getD ""]
  | .many star ts => if star then [String.intercalate s.joint ts] else ts

theorem arguments_valuePieces (s : State) (v : State.Value) (separators : List Char) :
    (fieldsOf separators (valuePieces .argument s true v)).flatMap s.pathsOf = v.arguments s := by
  have harguments (ts : List String) : (ts.map (Cells.of true)).flatMap s.pathsOf = ts := by
    simp [List.flatMap_map, State.pathsOf_quoted]
  have hone (t : String) (splits : Bool) :
      (fieldsOf separators [.text t true splits]).flatMap s.pathsOf = [t] := by
    simpa [State.pathsOf_quoted] using
      congrArg (·.flatMap s.pathsOf) (Splitting.fieldsOf_quoted separators [t] splits)
  cases v with
  | one t => exact hone _ _
  | many star ts =>
    cases star with
    | true => exact hone _ _
    | false =>
      simp only [valuePieces, State.Value.arguments, Bool.false_and, Bool.false_eq_true, if_false,
        Bool.not_true]
      rw [Splitting.fieldsOf_quoted, harguments]

theorem pieces_parameter (capture : Capture) (fuel : Nat) (s : State) (name : String) (hflow : s.flow = none)
    (hset : s.has "nounset" = false ∨ s.valueOf name ≠ .one none) :
    pieces capture (fuel + 1) .argument [.value { name } true] s =
      (valuePieces .argument s true (s.valueOf name), s) := by
  have hparameter : Expansion.parameter ⟨pieces capture fuel⟩ .argument { name } true s =
      (valuePieces .argument s true (s.valueOf name), s) := by
    refine if_neg fun h => ?_
    rcases hset with hset | hset <;> simp [hset] at h
  rw [pieces, Expansion.parts, List.foldl_cons, List.foldl_nil]
  simp only [hflow, Option.isSome_none, Bool.false_eq_true, if_false, List.nil_append]
  exact hparameter

/-- A parameter between double quotes makes what it is worth, as it is: whatever separators and files there
are, its text is one argument, and for `$@` each of the arguments is one. -/
theorem expandArgument_quoted (capture : Capture) (s : State) (name : String) (hflow : s.flow = none)
    (hset : s.has "nounset" = false ∨ s.valueOf name ≠ .one none) :
    expandArgument capture [.value { name } true] s = ((s.valueOf name).arguments s, s) := by
  have hwords : (if s.isBash && s.has "braceexpand" then bracesOf [.value { name } true]
      else [[Part.value { name } true]]) = [[.value { name } true]] := by
    split_ifs <;> simp [bracesOf, braceItems]
  have hpieces : pieces capture maxNesting .argument [.value { name } true] s =
      (valuePieces .argument s true (s.valueOf name), s) := pieces_parameter capture 199 s name hflow hset
  simp only [expandArgument, hwords, List.foldl_cons, List.foldl_nil, Word.assigned?, expandTilde,
    Bool.false_eq_true, if_false, hpieces, List.nil_append, arguments_valuePieces]

end Workload.Shell

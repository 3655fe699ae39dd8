import Workload.Action.Document
import Workload.Proofs.Counts
import Workload.Proofs.Reading

/-!
# Iterations of a loop

The document of an action lists one record with a line for every field that is set.  With a value put in for
the markers of its text it is read as the iteration of the action for that value
(`decode_filled`), as long as the value suits the way the fields are written.
-/

/-!
## Lists of records

A document that lists records of scalars is read as the sequence of these mappings, in whatever styles the
scalars are written (`parse?_items`).
-/

namespace Workload.Yaml

/-- The entry of a mapping that a field is read as. -/
def Entry.node (e : Entry) : Node × Node :=
  (.scalar none none .plain (String.ofList e.key), .scalar none none e.style (String.ofList e.text))

/-- The mapping that a record is read as. -/
def recordNode (es : List Entry) : Node := .mapping none none (es.map Entry.node)

namespace Parser

variable {r : List Token} {s : ParseState}

theorem blockEntries_fields {es : List Entry} {fuel : Nat} (hfuel : es.length + 3 ≤ fuel) :
    blockEntries fuel { s with tokens := es.flatMap Entry.tokens ++ .blockEnd :: r } =
      some (es.map Entry.node, { s with tokens := r }) := by
  induction es generalizing fuel with
  | nil =>
    obtain ⟨fuel, rfl⟩ := Nat.exists_eq_add_of_le' hfuel
    rfl
  | cons e es ih =>
    obtain ⟨fuel, rfl⟩ := Nat.exists_eq_add_of_le' (Nat.le_of_add_left_le hfuel)
    have hrest : blockEntries (fuel + 2) _ = _ := ih (by rw [List.length_cons] at hfuel; omega)
    show (blockEntries (fuel + 2) { s with tokens := es.flatMap Entry.tokens ++ .blockEnd :: r }).bind
      (fun p => some (e.node :: p.1, p.2)) = _
    rw [hrest]
    rfl

theorem node_record {es : List Entry} {fuel : Nat} (hfuel : es.length + 4 ≤ fuel) :
    node true false fuel { s with tokens := recordTokens es ++ r } =
      some (recordNode es, { s with tokens := r }) := by
  obtain ⟨fuel, rfl⟩ := Nat.exists_eq_add_of_le' (Nat.le_of_add_left_le hfuel)
  cases es with
  | nil => rfl
  | cons e es =>
    have htokens : recordTokens (e :: es) ++ r =
        .blockMappingStart :: ((e :: es).flatMap Entry.tokens ++ .blockEnd :: r) := by
      simp [recordTokens]
    have hrest : blockEntries (fuel + 3) { s with tokens := (e :: es).flatMap Entry.tokens ++ .blockEnd :: r } =
        some ((e :: es).map Entry.node, { s with tokens := r }) := blockEntries_fields (by omega)
    rw [htokens]
    show (blockEntries (fuel + 3) { s with tokens := (e :: es).flatMap Entry.tokens ++ .blockEnd :: r }).bind
      (fun p => some (Node.mapping none none p.1, p.2)) = _
    rw [hrest]
    rfl

theorem length_recordTokens (es : List Entry) : es.length < (recordTokens es).length := by
  unfold recordTokens
  cases es with
  | nil => exact Nat.zero_lt_succ _
  | cons e es =>
    have htokens : ∀ es : List Entry, es.length ≤ (es.flatMap Entry.tokens).length := by
      intro es
      rw [List.length_flatMap]
      induction es with
      | nil => exact Nat.zero_le _
      | cons e es ih => simp [Entry.tokens]; omega
    have := htokens (e :: es)
    simp only [List.isEmpty_cons, Bool.false_eq_true, if_false, List.length_cons, List.length_append] at this ⊢
    omega

theorem blockItems_items {items : List (List Entry)} {fuel : Nat}
    (hfuel : (items.flatMap itemTokens).length + 4 ≤ fuel) :
    blockItems fuel { s with tokens := items.flatMap itemTokens ++ .blockEnd :: r } =
      some (items.map recordNode, { s with tokens := r }) := by
  induction items generalizing fuel with
  | nil =>
    obtain ⟨fuel, rfl⟩ := Nat.exists_eq_add_of_le' hfuel
    rfl
  | cons es items ih =>
    obtain ⟨fuel, rfl⟩ := Nat.exists_eq_add_of_le' (Nat.le_of_add_left_le hfuel)
    rw [List.flatMap_cons, List.length_append] at hfuel
    have hlength := length_recordTokens es
    have hitem : (itemTokens es).length = (recordTokens es).length + 1 := rfl
    have hrest : blockItems (fuel + 3) { s with tokens := items.flatMap itemTokens ++ .blockEnd :: r } =
        some (items.map recordNode, { s with tokens := r }) := ih (by omega)
    have hnode : node true false (fuel + 3)
        { s with tokens := recordTokens es ++ (items.flatMap itemTokens ++ .blockEnd :: r) } =
          some (recordNode es, { s with tokens := items.flatMap itemTokens ++ .blockEnd :: r }) :=
      node_record (by omega)
    have htokens : (es :: items).flatMap itemTokens ++ .blockEnd :: r =
        .blockEntry :: (recordTokens es ++ (items.flatMap itemTokens ++ .blockEnd :: r)) := by
      simp [itemTokens]
    have hstep : blockItems (fuel + 4) { s with
        tokens := .blockEntry :: (recordTokens es ++ (items.flatMap itemTokens ++ .blockEnd :: r)) } =
        (node true false (fuel + 3)
          { s with tokens := recordTokens es ++ (items.flatMap itemTokens ++ .blockEnd :: r) }).bind
          fun p => (blockItems (fuel + 3) p.2).bind fun q => some (p.1 :: q.1, q.2) := by
      cases es <;> rfl
    rw [htokens, hstep, hnode, Option.bind_some, hrest]
    rfl

end Parser

/-- A list of records is read as it is written. -/
theorem parse?_items {items : List (List Entry)} (hne : items ≠ []) (hitems : ∀ es ∈ items, ∀ e ∈ es, e.Fits)
    (hall : (items.flatMap itemLines).all isAllowed = true) :
    parse? (String.ofList (items.flatMap itemLines)) =
      some (.content (.sequence none none (items.map recordNode))) := by
  have htokens := tokens?_items hne hitems hall
  obtain ⟨tokens, ht⟩ : ∃ tokens,
      Token.blockSequenceStart :: (items.flatMap itemTokens ++ [.blockEnd]) = tokens := ⟨_, rfl⟩
  obtain ⟨fuel, hfuel, henough⟩ : ∃ fuel, 4 * tokens.length + 16 = fuel + 1 ∧
      (items.flatMap itemTokens).length + 4 ≤ fuel := by
    refine ⟨4 * tokens.length + 15, rfl, ?_⟩
    rw [← ht, List.length_cons, List.length_append]
    omega
  have hread : Parser.blockItems fuel ⟨items.flatMap itemTokens ++ [.blockEnd], [], Parser.standardHandles⟩ =
        some (items.map recordNode, ⟨[], [], Parser.standardHandles⟩) :=
    Parser.blockItems_items (s := ⟨[], [], Parser.standardHandles⟩) henough
  have hroot : Parser.node true false (fuel + 1) ⟨tokens, [], Parser.standardHandles⟩ =
      some (.sequence none none (items.map recordNode), ⟨[], [], Parser.standardHandles⟩) := by
    rw [← ht]
    show (Parser.blockItems fuel ⟨items.flatMap itemTokens ++ [.blockEnd], [], Parser.standardHandles⟩).bind
      (fun p => some (Node.sequence none none p.1, p.2)) = _
    rw [hread]
    rfl
  have hdocument : Parser.document (fuel + 1) ⟨tokens, [], []⟩ =
      (Parser.node true false (fuel + 1) ⟨tokens, [], Parser.standardHandles⟩).bind fun p =>
        (Parser.streamEnd (fuel + 1) p.2).bind fun q => some (.content p.1, q.2) := by
    rw [← ht]
    rfl
  unfold parse?
  rw [String.toList_ofList, htokens, ht]
  show (Parser.document (4 * tokens.length + 16) ⟨tokens, [], []⟩).bind (fun p => some p.1) = _
  rw [hfuel, hdocument, hroot]
  rfl

end Workload.Yaml

namespace Workload

open Range (fill marker unbraced)

namespace Yaml

namespace Entry

/-- A field with a value in the place of its markers. -/
def fill (v : List Char) (e : Entry) : Entry :=
  { e with text := Range.fill v e.text, written := Range.fill v e.written }

/-- The field of a scalar as the writer writes it; other trees take several lines. -/
def ofField (f : String × Tree) : Entry :=
  match f.2 with
  | .text s => ⟨f.1.toList, Writer.style s.toList, s.toList, Writer.text 4 s.toList⟩
  | .bare s => ⟨f.1.toList, .plain, s.toList, ' ' :: (s.toList ++ ['\n'])⟩
  | .list _ | .record _ => ⟨f.1.toList, .plain, [], []⟩

/-- Whether a field takes one line, or is a block. -/
def isScalar (f : String × Tree) : Bool :=
  match f.2 with
  | .text _ | .bare _ => true
  | .list _ | .record _ => false

theorem fields_eq {fs : List (String × Tree)} (h : ∀ f ∈ fs, isScalar f = true) :
    Writer.fields 2 fs = recordLines (fs.map ofField) := by
  induction fs with
  | nil => rfl
  | cons f fs ih =>
    have htree : Writer.tree 2 f.2 = (ofField f).written := by
      have hf := h f List.mem_cons_self
      obtain ⟨name, t⟩ := f
      cases t with
      | text | bare => rfl
      | list | record => cases hf
    have hkey : (ofField f).key = f.1.toList := by
      unfold ofField
      split <;> rfl
    unfold Writer.fields recordLines Entry.line
    rw [List.map_cons]
    simp only []
    rw [ih fun g hg => h g (List.mem_cons_of_mem _ hg), htree, hkey]
    cases fs <;> rfl

/-- The document of a record is its item. -/
theorem render_record {fs : List (String × Tree)} (h : ∀ f ∈ fs, isScalar f = true) :
    render [.record fs] = String.ofList (itemLines (fs.map ofField)) := by
  have hitem : Writer.items 0 [.record fs] = itemLines (fs.map ofField) := by
    cases fs with
    | nil => rfl
    | cons f fs =>
      show '-' :: (' ' :: Writer.fields 2 (f :: fs) ++ []) = _
      rw [fields_eq h, List.append_nil]
      rfl
  unfold render
  rw [if_neg (by simp), hitem]

end Entry

/-! ### Values in the place of markers -/

section Filling

variable {v : List Char} {es : List Entry}

theorem not_mem_key {key : List Char} (h : isKey key = true) : ∀ d ∈ key, d ∉ marker := by
  unfold isKey at h
  simp only [Bool.and_eq_true, List.all_eq_true] at h
  exact fun d hd => not_mem_marker
    ⟨ne_of_isLower (h.2 d hd) rfl, ne_of_isLower (h.2 d hd) rfl, ne_of_isLower (h.2 d hd) rfl⟩

theorem fill_line {e : Entry} (h : isKey e.key = true) : fill v e.line = (e.fill v).line := by
  unfold Entry.line
  rw [Range.fill_append_of_disjoint (not_mem_key h), Range.fill_cons_sep (not_mem_marker (by decide))]
  rfl

theorem fill_recordLines (h : ∀ e ∈ es, isKey e.key = true) :
    fill v (recordLines es) = recordLines (es.map (Entry.fill v)) := by
  induction es with
  | nil => rfl
  | cons e es ih =>
    have he := h e List.mem_cons_self
    have hrest := ih fun f hf => h f (List.mem_cons_of_mem _ hf)
    unfold recordLines
    rw [List.map_cons]
    cases es with
    | nil =>
      simp only [List.isEmpty_nil, if_true, List.map_nil, List.append_nil]
      exact fill_line he
    | cons f fs =>
      have hspace : ' ' ∉ marker := not_mem_marker (by decide)
      have hspaces : ∀ x, Writer.spaces 2 ++ x = ' ' :: ' ' :: x := fun _ => rfl
      simp only [List.isEmpty_cons, List.map_cons, Bool.false_eq_true, if_false, hspaces] at hrest ⊢
      rw [Range.fill_append_sep hspace, Range.fill_cons_sep hspace, fill_line he, hrest]

theorem fill_itemLines (h : ∀ e ∈ es, isKey e.key = true) :
    fill v (itemLines es) = itemLines (es.map (Entry.fill v)) := by
  unfold itemLines
  rw [Range.fill_cons_sep (not_mem_marker (by decide)), Range.fill_cons_sep (not_mem_marker (by decide))]
  cases es with
  | nil => rfl
  | cons e es => exact congrArg _ (congrArg _ (fill_recordLines h))

theorem unbraced_recordLines {marked : Bool} (h : ∀ e ∈ es, isKey e.key = true)
    (hes : ∀ e ∈ es, unbraced marked e.written = true) : unbraced marked (recordLines es) = true := by
  have hline : ∀ e ∈ es, unbraced marked e.line = true := fun e he => by
    unfold Entry.line
    rw [Range.unbraced_append_of_disjoint (not_mem_key (h e he)), unbraced_cons_sep (not_mem_marker (by decide))]
    exact hes e he
  induction es with
  | nil => rfl
  | cons e es ih =>
    have hrest := ih (fun f hf => h f (List.mem_cons_of_mem _ hf)) (fun f hf => hes f (List.mem_cons_of_mem _ hf))
      fun f hf => hline f (List.mem_cons_of_mem _ hf)
    unfold recordLines
    cases es with
    | nil => simpa using hline e List.mem_cons_self
    | cons f fs =>
      have hspace : ' ' ∉ marker := not_mem_marker (by decide)
      have hspaces : ∀ x, Writer.spaces 2 ++ x = ' ' :: ' ' :: x := fun _ => rfl
      rw [List.isEmpty_cons, if_neg Bool.false_ne_true, hspaces, Range.unbraced_append_sep hspace,
        unbraced_cons_sep hspace, hline e List.mem_cons_self, hrest]
      rfl

theorem unbraced_itemLines {marked : Bool} (h : ∀ e ∈ es, isKey e.key = true)
    (hes : ∀ e ∈ es, unbraced marked e.written = true) : unbraced marked (itemLines es) = true := by
  unfold itemLines
  rw [unbraced_cons_sep (not_mem_marker (by decide)), unbraced_cons_sep (not_mem_marker (by decide))]
  cases es with
  | nil => cases marked <;> rfl
  | cons e es => exact unbraced_recordLines h hes

/-- What holds of the characters of the fields and of those that the writer puts between them holds of all. -/
theorem all_itemLines {p : Char → Bool} (hp : [':', ' ', '-', '{', '}', '\n'].all p = true)
    (hes : ∀ e ∈ es, (e.key ++ e.written).all p = true) : (itemLines es).all p = true := by
  have hlines : ∀ es : List Entry, (∀ e ∈ es, (e.key ++ e.written).all p = true) →
      (recordLines es).all p = true := by
    intro es hes
    induction es with
    | nil => rfl
    | cons e es ih =>
      have he := hes e List.mem_cons_self
      have hrest := ih fun f hf => hes f (List.mem_cons_of_mem _ hf)
      unfold recordLines Entry.line
      simp only [List.all_append, List.all_cons, List.all_nil, Bool.and_true, Bool.and_eq_true] at he hp ⊢
      refine ⟨⟨he.1, hp.1, he.2⟩, ?_⟩
      split_ifs
      · rfl
      · simp [Writer.spaces, hp.2.1, hrest]
  have hmarks := hp
  simp only [List.all_cons, List.all_nil, Bool.and_true, Bool.and_eq_true] at hmarks
  unfold itemLines
  simp only [List.all_cons, Bool.and_eq_true]
  refine ⟨hmarks.2.2.1, hmarks.2.1, ?_⟩
  split_ifs
  · simp [hmarks]
  · exact hlines es hes

/-- What may stand in a document that is evaluated before it is read. -/
def isInert (c : Char) : Bool := isAllowed c && c ≠ '$'

/-- A field into which values can be put. -/
structure Entry.Receives (e : Entry) : Prop where
  fits : e.Fits
  unbraced : unbraced true e.text = true
  inert : e.written.all isInert = true

theorem isInert_of_isWordChar {c : Char} (h : isWordChar c = true) : isInert c = true := by
  have hdollar : c ≠ '$' := ne_of_isWordChar h rfl
  have hrange : 0x20 ≤ c.toNat ∧ c.toNat ≤ 0x7E := by
    have hbetween : ∀ {a b : UInt32}, a ≤ c.val → c.val ≤ b → 0x20 ≤ a.toNat → b.toNat ≤ 0x7E →
        0x20 ≤ c.toNat ∧ c.toNat ≤ 0x7E := fun hlow hhigh ha hb =>
      ⟨ha.trans (UInt32.le_iff_toNat_le.1 hlow), (UInt32.le_iff_toNat_le.1 hhigh).trans hb⟩
    rw [isWordChar_eq] at h
    simp only [Bool.or_eq_true, decide_eq_true_eq] at h
    rcases h with (((h | h) | h) | rfl) | rfl
    · obtain ⟨hlow, hhigh⟩ := of_decide_eq_true h
      exact hbetween hlow hhigh (by decide) (by decide)
    · obtain ⟨hlow, hhigh⟩ := Bool.and_eq_true_iff.1 h
      exact hbetween (of_decide_eq_true hlow) (of_decide_eq_true hhigh) (by decide) (by decide)
    · obtain ⟨hlow, hhigh⟩ := Bool.and_eq_true_iff.1 h
      exact hbetween (of_decide_eq_true hlow) (of_decide_eq_true hhigh) (by decide) (by decide)
    · decide
    · decide
  unfold isInert isAllowed
  simp [hrange, hdollar]

theorem inert_key {key : List Char} (h : isKey key = true) : key.all isInert = true := by
  unfold isKey at h
  simp only [Bool.and_eq_true, List.all_eq_true] at h
  exact List.all_eq_true.2 fun d hd => isInert_of_isWordChar (isWordChar_of_isLower (h.2 d hd))

theorem receives_text {name s : String} (hname : isKey name.toList = true) (hs : s ≠ "") (hdollar : '$' ∉ s.toList)
    (hbraces : unbraced true s.toList = true) : (Entry.ofField (name, .text s)).Receives where
  fits := ⟨hname, writes_text (by simpa using hs)⟩
  unbraced := hbraces
  inert := List.all_eq_true.2 fun d hd => by
    unfold isInert
    rcases mem_text hd with ⟨hmem, hprintable⟩ | ⟨hallowed, hne⟩
    · have hne : d ≠ '$' := by
        rintro rfl
        exact hdollar hmem
      simp [isAllowed_of_isPrintable hprintable, hne]
    · simp [hallowed, hne]

/-- Words have no markers. -/
theorem unbraced_of_isWordChar {s : List Char} (h : ∀ d ∈ s, isWordChar d = true) (marked : Bool) :
    unbraced marked s = true := by
  have hs : ∀ d ∈ s, d ∉ marker := fun d hd => not_mem_marker
    ⟨ne_of_isWordChar (h d hd) rfl, ne_of_isWordChar (h d hd) rfl, ne_of_isWordChar (h d hd) rfl⟩
  rw [← List.append_nil s, Range.unbraced_append_of_disjoint hs]
  rfl

theorem receives_bare {name s : String} (hname : isKey name.toList = true)
    (hword : ∀ d ∈ s.toList, isWordChar d = true) (hs : isLegible s.toList = true) :
    (Entry.ofField (name, .bare s)).Receives where
  fits := ⟨hname, .plain hs⟩
  unbraced := unbraced_of_isWordChar hword true
  inert := by
    have hall : s.toList.all isInert = true := List.all_eq_true.2 fun d hd => isInert_of_isWordChar (hword d hd)
    show (' ' :: (s.toList ++ ['\n'])).all isInert = true
    rw [List.all_cons, List.all_append, hall]
    rfl

/-- Whether a value can be put into fields. -/
def Entry.suitsAll (v : List Char) (es : List Entry) : Prop := ∀ e ∈ es, suits v e.style e.text = true

theorem inert_fill {e : Entry} (he : e.Receives) (hv : '$' ∉ v) (hsuits : suits v e.style e.text = true) :
    (e.fill v).written.all isInert = true := by
  unfold suits at hsuits
  rw [Bool.or_eq_true, Bool.and_eq_true] at hsuits
  show (fill v e.written).all isInert = true
  rcases hsuits with hplain | ⟨hallowed, -⟩
  · unfold fill
    rw [Range.replaceFrom_of_unbraced (he.fits.writes.unbraced_eq.trans hplain)]
    exact he.inert
  · refine List.all_eq_true.2 fun d hd => ?_
    rcases Range.mem_fill hd with hd | hd
    · exact List.all_eq_true.1 he.inert d hd
    · have hne : d ≠ '$' := by
        rintro rfl
        exact hv hd
      unfold isInert
      simp [List.all_eq_true.1 hallowed d hd, hne]

/-- The copies of a record for a list of values are read as the record with each value put in. -/
theorem parse?_copies (hes : ∀ e ∈ es, e.Receives) {vs : List (List Char)} (hne : vs ≠ [])
    (hvs : ∀ v ∈ vs, '$' ∉ v ∧ Entry.suitsAll v es) :
    (vs.flatMap fun v => fill v (itemLines es)).all isInert = true ∧
      parse? (String.ofList (vs.flatMap fun v => fill v (itemLines es))) =
        some (.content (.sequence none none (vs.map fun v => recordNode (es.map (Entry.fill v))))) := by
  have hkeys : ∀ e ∈ es, isKey e.key = true := fun e he => (hes e he).fits.key
  have hcopies : (vs.flatMap fun v => fill v (itemLines es)) =
      (vs.map fun v => es.map (Entry.fill v)).flatMap itemLines := by
    rw [List.flatMap_map]
    exact List.flatMap_congr fun v _ => fill_itemLines hkeys
  have hfits : ∀ fs ∈ vs.map fun v => es.map (Entry.fill v), ∀ f ∈ fs, f.Fits := by
    intro fs hfs f hf
    obtain ⟨v, hv, rfl⟩ := List.mem_map.1 hfs
    obtain ⟨e, he, rfl⟩ := List.mem_map.1 hf
    exact ⟨hkeys e he, (hes e he).fits.writes.paste ((hvs v hv).2 e he)⟩
  have hinert : ((vs.map fun v => es.map (Entry.fill v)).flatMap itemLines).all isInert = true := by
    rw [List.all_flatMap, List.all_eq_true]
    intro fs hfs
    obtain ⟨v, hv, rfl⟩ := List.mem_map.1 hfs
    refine all_itemLines rfl fun f hf => ?_
    obtain ⟨e, he, rfl⟩ := List.mem_map.1 hf
    rw [List.all_append, inert_fill (hes e he) (hvs v hv).1 ((hvs v hv).2 e he),
      show (e.fill v).key = e.key from rfl, inert_key (hkeys e he)]
    rfl
  have hallowed : ((vs.map fun v => es.map (Entry.fill v)).flatMap itemLines).all isAllowed = true :=
    List.all_eq_true.2 fun d hd => by
      have := List.all_eq_true.1 hinert d hd
      unfold isInert at this
      rw [Bool.and_eq_true] at this
      exact this.1
  rw [hcopies]
  refine ⟨hinert, ?_⟩
  rw [parse?_items (by simpa using hne) hfits hallowed, List.map_map]
  rfl

end Filling

/-! ### Reading the fields of a record -/

namespace Decode

theorem follow_scalar (a : Option Nat) (t : Option Tag) (style : ScalarStyle) (s : String) :
    follow (.scalar a t style s) = pure (.scalar a t style s) :=
  rfl

theorem text_scalar (a : Option Nat) (t : Option Tag) (style : ScalarStyle) (s : String) :
    text (.scalar a t style s) = pure s := by
  unfold text
  rw [follow_scalar, pure_bind]

theorem fields_record (es : List Entry) :
    fields (recordNode es) = pure (es.map fun e => (String.ofList e.key, e.node.2)) := by
  have hfollow : follow (recordNode es) = pure (recordNode es) := rfl
  unfold fields
  rw [hfollow, pure_bind]
  have hentry : (fun e : Node × Node => (do pure (← text e.1, e.2) : Decoder (String × Node))) ∘ Entry.node =
      fun e => pure (String.ofList e.key, e.node.2) := by
    funext e
    show (do pure (← text (.scalar none none .plain (String.ofList e.key)), e.node.2)) = _
    rw [text_scalar, pure_bind]
  show (es.map Entry.node).mapM (fun e : Node × Node => do pure (← text e.1, e.2)) = _
  rw [List.mapM_map, hentry]
  exact List.mapM_pure

variable {α : Type} {fs : List (String × Tree)} {g : String × Tree → String × Node} {name : String}
  {dec : Node → Decoder α} {absent : α}

theorem fieldD_of_nil (hg : ∀ f, (g f).1 = f.1) (h : fs.filter (fun f => f.1 = name) = []) :
    fieldD (fs.map g) name dec absent = pure absent := by
  unfold fieldD field?
  rw [List.filter_map]
  have hname : ((fun f : String × Node => decide (f.1 = name)) ∘ g) = fun f => decide (f.1 = name) := by
    funext f
    simp [hg]
  rw [hname, h]
  simp

theorem fieldD_of_singleton {f : String × Tree} {x : α} (hg : ∀ f, (g f).1 = f.1)
    (h : fs.filter (fun f => f.1 = name) = [f]) (hx : dec (g f).2 = pure x) :
    fieldD (fs.map g) name dec absent = pure x := by
  unfold fieldD field?
  rw [List.filter_map]
  have hname : ((fun f : String × Node => decide (f.1 = name)) ∘ g) = fun f => decide (f.1 = name) := by
    funext f
    simp [hg]
  rw [hname, h]
  simp [hx]

theorem bool_true : bool (.scalar none none .plain "true") = pure true := by
  unfold bool
  rw [follow_scalar, pure_bind]
  rfl

theorem int64_toString {i : Int} (hlow : -(Nat.pow 2 63 : Int) ≤ i) (hhigh : i < (Nat.pow 2 63 : Int)) :
    int64 (.scalar none none .plain (toString i)) = pure i := by
  have hread : (opens "int" (.scalar none none .plain (toString i))).bind (signed? (Nat.pow 2 63)) = some i :=
    signed?_toString hlow hhigh
  unfold int64
  rw [follow_scalar, pure_bind, hread]

end Decode

end Yaml

open Yaml (Decode.fieldD_of_nil Decode.fieldD_of_singleton Decode.text_scalar Decode.fields_record)

namespace Action

open Yaml (Entry Tree)

/-- The text fields of an action, each with its name in a document. -/
def texts (a : Action) : List (String × String) :=
  [("describe", a.describe), ("image", a.image), ("command", a.command), ("before", a.before),
    ("entrypoint", a.entrypoint), ("requires", a.requires), ("concurrency", a.concurrency),
    ("duration", a.duration), ("alias", a.alias_), ("until", a.until_), ("include", a.include_),
    ("template", a.template), ("args", a.args), ("test", a.test), ("scope", a.scope), ("foreach", a.foreach)]

/-- The fields of an action in its document. -/
def fields (a : Action) : List (String × Tree) :=
  match a.tree with
  | .record fs => fs
  | _ => []

/-- The fields of an action as they are written. -/
def entries (a : Action) : List Entry := a.fields.map Entry.ofField

variable {a : Action}

theorem isWordChar_flag : ∀ c ∈ "true".toList, Yaml.isWordChar c = true := List.all_eq_true.1 rfl

theorem filter_textField (name other text : String) :
    (textField name text).filter (fun f => f.1 = other) = if name = other then textField name text else [] := by
  unfold textField
  split_ifs <;> simp [*]

/-- Each text field stands in a document at most once, and so do the flag and the count. -/
theorem filter_fields (hclient : a.client.isEmpty = true) :
    (∀ f ∈ a.texts, a.fields.filter (fun g => g.1 = f.1) = textField f.1 f.2) ∧
      a.fields.filter (fun f => f.1 = "wait") = (if a.wait then [("wait", .bare "true")] else []) ∧
      a.fields.filter (fun f => f.1 = "repeat") =
        (if a.repeats = 0 then [] else [("repeat", .bare (toString a.repeats))]) ∧
      a.fields.filter (fun f => f.1 = "client") = [] := by
  have hfields : a.fields = textField "describe" a.describe ++ textField "image" a.image ++
    textField "command" a.command ++ (if a.wait then [("wait", .bare "true")] else []) ++
    textField "before" a.before ++ textField "entrypoint" a.entrypoint ++
    textField "requires" a.requires ++ textField "concurrency" a.concurrency ++
    textField "duration" a.duration ++ textField "alias" a.alias_ ++
    (if a.repeats = 0 then [] else [("repeat", .bare (toString a.repeats))]) ++
    textField "until" a.until_ ++ textField "include" a.include_ ++
    textField "template" a.template ++ textField "args" a.args ++ textField "test" a.test ++
    textField "scope" a.scope ++ textField "foreach" a.foreach := by
    unfold fields tree
    simp only []
    rw [if_pos hclient, List.append_nil]
  have hwait : ∀ name, (if a.wait then [("wait", Tree.bare "true")] else []).filter (fun f => f.1 = name) =
      if "wait" = name then (if a.wait then [("wait", .bare "true")] else []) else [] := by
    intro name
    split_ifs <;> simp [*]
  have hrepeat : ∀ name, (if a.repeats = 0 then [] else [("repeat", Tree.bare (toString a.repeats))]).filter
      (fun f => f.1 = name) =
        if "repeat" = name then (if a.repeats = 0 then [] else [("repeat", .bare (toString a.repeats))]) else [] := by
    intro name
    split_ifs <;> simp [*]
  rw [hfields]
  simp only [texts, List.forall_mem_cons, List.filter_append, filter_textField, hwait, hrepeat]
  simp

theorem mem_textField {name text : String} {f : String × Tree} (h : f ∈ textField name text) :
    f = (name, .text text) ∧ text ≠ "" := by
  unfold textField at h
  split_ifs at h with hempty
  · cases h
  · exact ⟨List.mem_singleton.1 h, by simpa using hempty⟩

/-- A field is one of the texts, or the flag or the count. -/
theorem mem_fields (hclient : a.client.isEmpty = true) {f : String × Tree} (h : f ∈ a.fields) :
    (∃ t ∈ a.texts, f = (t.1, .text t.2) ∧ t.2 ≠ "") ∨ f = ("wait", .bare "true") ∨
      f = ("repeat", .bare (toString a.repeats)) := by
  have htext : ∀ t ∈ a.texts, f ∈ textField t.1 t.2 → ∃ t ∈ a.texts, f = (t.1, .text t.2) ∧ t.2 ≠ "" :=
    fun t ht hf => ⟨t, ht, mem_textField hf⟩
  have hwait : f ∈ (if a.wait then [("wait", Tree.bare "true")] else []) → f = ("wait", .bare "true") := by
    intro hf
    split_ifs at hf
    · exact List.mem_singleton.1 hf
    · cases hf
  have hrepeat : f ∈ (if a.repeats = 0 then [] else [("repeat", Tree.bare (toString a.repeats))]) →
      f = ("repeat", .bare (toString a.repeats)) := by
    intro hf
    split_ifs at hf
    · cases hf
    · exact List.mem_singleton.1 hf
  unfold fields tree at h
  simp only [List.mem_append] at h
  rw [if_pos hclient, or_iff_left List.not_mem_nil] at h
  rcases h with (((((((((((((((((h | h) | h) | h) | h) | h) | h) | h) | h) | h) | h) | h) | h) | h) | h) | h) | h)
    | h)
  all_goals first
    | exact .inl (htext (_, _) (by simp [texts]) h)
    | exact .inr (.inl (hwait h))
    | exact .inr (.inr (hrepeat h))

/-- A text into which values can be put: it names no variables, and what is between double braces in it are
markers. -/
def isTemplate (text : String) : Bool := !text.toList.contains '$' && unbraced true text.toList

theorem receives_entries (hclient : a.client.isEmpty = true)
    (htexts : ∀ t ∈ a.texts, isTemplate t.2 = true) : ∀ e ∈ a.entries, e.Receives := by
  have hkeys : ∀ t ∈ a.texts, Yaml.isKey t.1.toList = true := by
    simp only [texts, List.forall_mem_cons]
    exact ⟨rfl, rfl, rfl, rfl, rfl, rfl, rfl, rfl, rfl, rfl, rfl, rfl, rfl, rfl, rfl, rfl, nofun⟩
  intro e he
  obtain ⟨f, hf, rfl⟩ := List.mem_map.1 he
  rcases mem_fields hclient hf with ⟨t, ht, rfl, hne⟩ | rfl | rfl
  · have htemplate := htexts t ht
    unfold isTemplate at htemplate
    simp only [Bool.and_eq_true, Bool.not_eq_true', List.contains_eq_mem, decide_eq_false_iff_not] at htemplate
    exact Yaml.receives_text (hkeys t ht) hne htemplate.1 htemplate.2
  · exact Yaml.receives_bare rfl isWordChar_flag rfl
  · exact Yaml.receives_bare rfl (fun _ => Yaml.isWordChar_of_mem_toString) (Yaml.isLegible_toString _)

/-- The iteration of a loop for a value: the action without the loop, and the value in the place of every marker
of its texts.  An operation without a name is none. -/
def iteration (a : Action) (v : String) : Action :=
  let put := Text.replaceAll (String.ofList marker) v
  { a with
    describe := put a.describe
    image := put a.image
    command := put a.command
    before := put a.before
    entrypoint := put a.entrypoint
    requires := put a.requires
    concurrency := put a.concurrency
    duration := put a.duration
    alias_ := put a.alias_
    until_ := put a.until_
    include_ := put a.include_
    template := put a.template
    args := put a.args
    test := put a.test
    scope := put a.scope
    foreach := ""
    client := {} }

theorem replaceAll_marker (v text : String) :
    Text.replaceAll (String.ofList marker) v text = String.ofList (fill v.toList text.toList) := by
  unfold Text.replaceAll
  rw [String.toList_ofList]
  rfl

/-- The node of a field with a value in the place of its markers. -/
def nodeOf (v : List Char) (f : String × Tree) : String × Yaml.Node :=
  (String.ofList (Entry.ofField f).key, ((Entry.ofField f).fill v).node.2)

theorem nodeOf_fst (v : List Char) (f : String × Tree) : (nodeOf v f).1 = f.1 := by
  unfold nodeOf Entry.ofField
  split <;> exact String.ofList_toList

section Decoding

variable {v : List Char} {name text : String}

theorem fieldD_text (h : a.fields.filter (fun f => f.1 = name) = textField name text) :
    Yaml.Decode.fieldD (a.fields.map (nodeOf v)) name Yaml.Decode.text "" =
      pure (String.ofList (fill v text.toList)) := by
  by_cases hempty : text = ""
  · subst hempty
    exact Decode.fieldD_of_nil (nodeOf_fst v) h
  · have hone : textField name text = [(name, .text text)] := by
      unfold textField
      rw [if_neg (by simpa using hempty)]
    exact Decode.fieldD_of_singleton (nodeOf_fst v) (h.trans hone) (Decode.text_scalar none none _ _)

/-- Words stay what they are. -/
theorem nodeOf_bare {s : String} (hs : ∀ c ∈ s.toList, Yaml.isWordChar c = true) :
    (nodeOf v (name, .bare s)).2 = .scalar none none .plain s := by
  have hfill : fill v s.toList = s.toList :=
    Range.replaceFrom_of_unbraced (Yaml.unbraced_of_isWordChar hs false) v
  show Yaml.Node.scalar none none .plain (String.ofList (fill v s.toList)) = _
  rw [hfill, String.ofList_toList]

theorem fieldD_wait (hclient : a.client.isEmpty = true) :
    Yaml.Decode.fieldD (a.fields.map (nodeOf v)) "wait" Yaml.Decode.bool false = pure a.wait := by
  have hfilter := (filter_fields hclient).2.1
  cases hwait : a.wait with
  | false =>
    rw [hwait] at hfilter
    exact Decode.fieldD_of_nil (nodeOf_fst v) hfilter
  | true =>
    rw [hwait] at hfilter
    refine Decode.fieldD_of_singleton (nodeOf_fst v) hfilter ?_
    rw [nodeOf_bare isWordChar_flag]
    exact Yaml.Decode.bool_true

theorem fieldD_repeat (hclient : a.client.isEmpty = true) (hlow : -(Nat.pow 2 63 : Int) ≤ a.repeats)
    (hhigh : a.repeats < (Nat.pow 2 63 : Int)) :
    Yaml.Decode.fieldD (a.fields.map (nodeOf v)) "repeat" Yaml.Decode.int64 0 = pure a.repeats := by
  have hfilter := (filter_fields hclient).2.2.1
  by_cases hzero : a.repeats = 0
  · rw [if_pos hzero] at hfilter
    rw [hzero]
    exact Decode.fieldD_of_nil (nodeOf_fst v) hfilter
  · rw [if_neg hzero] at hfilter
    refine Decode.fieldD_of_singleton (nodeOf_fst v) hfilter ?_
    rw [nodeOf_bare fun _ => Yaml.isWordChar_of_mem_toString]
    exact Yaml.Decode.int64_toString hlow hhigh

/-- The record of an action is read as the action, with a value put into both. -/
theorem decode_record {v : String} (hclient : a.client.isEmpty = true) (hforeach : a.foreach = "")
    (hlow : -(Nat.pow 2 63 : Int) ≤ a.repeats) (hhigh : a.repeats < (Nat.pow 2 63 : Int)) :
    Action.decode (Yaml.recordNode (a.entries.map (Entry.fill v.toList))) = pure (a.iteration v) := by
  have hfields : Yaml.Decode.fields (Yaml.recordNode (a.entries.map (Entry.fill v.toList))) =
      pure (a.fields.map (nodeOf v.toList)) := by
    rw [Decode.fields_record]
    unfold entries
    rw [List.map_map, List.map_map]
    rfl
  obtain ⟨htexts, -, -, hnone⟩ := filter_fields hclient
  have htext : ∀ t ∈ a.texts, Yaml.Decode.fieldD (a.fields.map (nodeOf v.toList)) t.1 Yaml.Decode.text "" =
      pure (Text.replaceAll (String.ofList marker) v t.2) := fun t ht => by
    rw [replaceAll_marker]
    exact fieldD_text (htexts t ht)
  have hop : Yaml.Decode.fieldD (a.fields.map (nodeOf v.toList)) "client" ClientOp.decode {} = pure {} :=
    Decode.fieldD_of_nil (nodeOf_fst _) hnone
  simp only [texts, List.forall_mem_cons] at htext
  unfold Action.decode
  rw [hfields, pure_bind]
  simp only [htext, fieldD_wait hclient, fieldD_repeat hclient hlow hhigh, hop, pure_bind, hforeach]
  rfl

end Decoding

theorem renderList_singleton (hclient : a.client.isEmpty = true) :
    renderList [a] = String.ofList (Yaml.itemLines a.entries) := by
  refine Entry.render_record fun f hf => ?_
  rcases mem_fields hclient hf with ⟨t, -, rfl, -⟩ | rfl | rfl <;> rfl

/-- What can be put into the texts of an action. -/
structure Admits (a : Action) (v : String) : Prop where
  inert : '$' ∉ v.toList
  suits : ∀ t ∈ a.texts, Yaml.suits v.toList (Yaml.Writer.style t.2.toList) t.2.toList = true

theorem suitsAll_entries (hclient : a.client.isEmpty = true) {v : String} (hv : a.Admits v) :
    Entry.suitsAll v.toList a.entries := by
  have hword : ∀ {name s : String}, (∀ c ∈ s.toList, Yaml.isWordChar c = true) →
      Yaml.suits v.toList (Entry.ofField (name, .bare s)).style (Entry.ofField (name, .bare s)).text = true := by
    intro name s hs
    show (unbraced false s.toList || _) = true
    rw [Yaml.unbraced_of_isWordChar hs false, Bool.true_or]
  intro e he
  obtain ⟨f, hf, rfl⟩ := List.mem_map.1 he
  rcases mem_fields hclient hf with ⟨t, ht, rfl, -⟩ | rfl | rfl
  · exact hv.suits t ht
  · exact hword isWordChar_flag
  · exact hword fun _ => Yaml.isWordChar_of_mem_toString

/-- The copies of an action's document are the iterations for their values. -/
theorem listOfText?_copies (hclient : a.client.isEmpty = true) (hforeach : a.foreach = "")
    (hlow : -(Nat.pow 2 63 : Int) ≤ a.repeats) (hhigh : a.repeats < (Nat.pow 2 63 : Int))
    (htexts : ∀ t ∈ a.texts, isTemplate t.2 = true) {vs : List String} (hne : vs ≠ [])
    (hvs : ∀ v ∈ vs, a.Admits v) :
    (Range.repeated (Yaml.itemLines a.entries) vs).all Yaml.isInert = true ∧
      listOfText? (String.ofList (Range.repeated (Yaml.itemLines a.entries) vs)) =
        some (vs.map a.iteration) := by
  have hrepeated : Range.repeated (Yaml.itemLines a.entries) vs =
      (vs.map String.toList).flatMap fun v => fill v (Yaml.itemLines a.entries) := by
    rw [List.flatMap_map]
    rfl
  have hvalues : ∀ v ∈ vs.map String.toList, '$' ∉ v ∧ Entry.suitsAll v a.entries := by
    intro v hv
    obtain ⟨w, hw, rfl⟩ := List.mem_map.1 hv
    exact ⟨(hvs w hw).inert, suitsAll_entries hclient (hvs w hw)⟩
  obtain ⟨hinert, hparse⟩ := Yaml.parse?_copies (receives_entries hclient htexts) (by simpa using hne) hvalues
  rw [hrepeated]
  refine ⟨hinert, ?_⟩
  have hdecode : Action.decode ∘ (fun v : String => Yaml.recordNode (a.entries.map (Entry.fill v.toList))) =
      fun v => pure (a.iteration v) := by
    funext v
    exact decode_record hclient hforeach hlow hhigh
  have hlist : Yaml.Decode.list Action.decode (.sequence none none ((vs.map String.toList).map fun v =>
      Yaml.recordNode (a.entries.map (Entry.fill v)))) = pure (vs.map a.iteration) := by
    rw [List.map_map]
    show (vs.map fun v : String => Yaml.recordNode (a.entries.map (Entry.fill v.toList))).mapM Action.decode = _
    rw [List.mapM_map, hdecode]
    exact List.mapM_pure
  unfold listOfText? Yaml.decode
  rw [hparse]
  simp only [hlist]
  rfl

end Action

end Workload

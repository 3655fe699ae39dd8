import Mathlib.Data.List.Infix
import Mathlib.Data.List.Nodup
import Workload.Documents
import Workload.Proofs.ArgumentLists

/-!
# The nearest configuration

Above a path there are as many directories as it has parts: the parent of a path has its parts but the last one,
and only the root and the empty path have none (`Path.parts_parent`, `Path.parent?_eq_none_iff`).  The search for a
configuration goes through all of them, the closest one first, and takes the first file that it meets; where there is
none it names every path that it tried, each of them once (`Files.nearestConfig_found`).
-/

namespace Workload

namespace Path

/-! ## Pieces that mean something -/

/-- The pieces between slashes that are components. -/
def words (s : List Char) : List (List Char) :=
  (Text.splitAt '/' s).filter fun c => !(c.isEmpty || c = ['.'])

/-- A piece that is a component. -/
structure IsWord (w : List Char) : Prop where
  noSlash : '/' ∉ w
  ne_nil : w ≠ []
  ne_dot : w ≠ ['.']

theorem words_append (x y : List Char) : words (x ++ '/' :: y) = words x ++ words y := by
  unfold words
  rw [Text.splitAt_append_sep, List.filter_append]

@[simp] theorem words_nil : words [] = [] := rfl

@[simp] theorem words_dot : words ['.'] = [] := rfl

@[simp] theorem words_slash (s : List Char) : words ('/' :: s) = words s := words_append [] s

@[simp] theorem words_dot_slash (s : List Char) : words ('.' :: '/' :: s) = words s := words_append ['.'] s

theorem IsWord.words {w : List Char} (h : IsWord w) : words w = [w] := by
  unfold Path.words
  rw [Text.splitAt_of_not_mem h.noSlash]
  simp [h.ne_nil, h.ne_dot]

theorem components_eq (p : String) : components p = (words p.toList).map String.ofList := by
  unfold components words Text.pieces
  rw [List.filter_map]
  congr 1
  refine List.filter_congr fun c _ => ?_
  have hempty : (String.ofList c).isEmpty = c.isEmpty := by
    rw [Bool.eq_iff_iff, String.isEmpty_iff, List.isEmpty_iff, ← String.toList_inj, String.toList_ofList]
    rfl
  simp [hempty, ← String.toList_inj]

/-- What stands behind the last slash of a text, if it has any. -/
def lastPiece (x : List Char) : List Char := (x.reverse.takeWhile (· ≠ '/')).reverse

/-- What stands in front of the last slash of a text, if it has any. -/
def front (x : List Char) : List Char := ((x.reverse.dropWhile (· ≠ '/')).drop 1).reverse

theorem slash_notMem_lastPiece (x : List Char) : '/' ∉ lastPiece x := fun hmem => by
  simpa using List.mem_takeWhile_imp (List.mem_reverse.1 hmem)

theorem eq_lastPiece_or (x : List Char) :
    x = lastPiece x ∧ front x = [] ∨ x = front x ++ '/' :: lastPiece x := by
  have hx := congrArg List.reverse (List.takeWhile_append_dropWhile (p := (· ≠ '/')) (l := x.reverse))
  rw [List.reverse_append, List.reverse_reverse] at hx
  unfold lastPiece front
  rcases hd : x.reverse.dropWhile (· ≠ '/') with _ | ⟨c, d⟩
  · rw [hd] at hx
    exact .inl ⟨hx.symm, rfl⟩
  · have hc : c = '/' := by
      have := List.head?_dropWhile_not (· ≠ '/') x.reverse
      rw [hd] at this
      simpa using this
    rw [hd, List.reverse_cons, List.append_assoc, hc] at hx
    exact .inr hx.symm

theorem words_eq (x : List Char) : words x = words (front x) ++ words (lastPiece x) := by
  rcases eq_lastPiece_or x with ⟨hx, hfront⟩ | hx
  · rw [hfront, ← hx, words_nil, List.nil_append]
  · conv_lhs => rw [hx, words_append]

theorem front_isPrefixOf (x : List Char) : front x <+: x := by
  rcases eq_lastPiece_or x with ⟨-, hfront⟩ | hx
  · exact hfront ▸ List.nil_prefix
  · conv_rhs => rw [hx]
    exact List.prefix_append _ _

theorem length_front_lt {x : List Char} (h : x ≠ []) : (front x).length < x.length := by
  rcases eq_lastPiece_or x with ⟨-, hfront⟩ | hx
  · rw [hfront]
    exact List.length_pos_of_ne_nil h
  · conv_rhs => rw [hx]
    simp

/-- Pieces at the end that mean nothing are dropped, up to a component. -/
theorem trimBack_spec : ∀ (n : Nat) (x : List Char), x.length ≤ n →
    ∃ y, trimBack n x.reverse = y.reverse ∧ y <+: x ∧ words y = words x ∧ (y = [] ∨ IsWord (lastPiece y))
  | 0, x, h => by
    obtain rfl := List.eq_nil_of_length_eq_zero (Nat.le_zero.1 h)
    exact ⟨[], rfl, List.prefix_rfl, rfl, .inl rfl⟩
  | n + 1, x, h => by
    by_cases hnil : x = []
    · subst hnil
      exact ⟨[], rfl, List.prefix_rfl, rfl, .inl rfl⟩
    have htake : x.reverse.takeWhile (· ≠ '/') = (lastPiece x).reverse := (List.reverse_reverse _).symm
    have hdrop : (x.reverse.dropWhile (· ≠ '/')).drop 1 = (front x).reverse := (List.reverse_reverse _).symm
    unfold trimBack
    simp only [htake, hdrop]
    rw [if_neg (by simpa using hnil)]
    by_cases hword : IsWord (lastPiece x)
    · rw [if_neg (by simp [hword.ne_nil, List.reverse_eq_iff, hword.ne_dot])]
      exact ⟨x, rfl, List.prefix_rfl, rfl, .inr hword⟩
    · have hnothing : lastPiece x = [] ∨ lastPiece x = ['.'] := by
        by_contra hnot
        exact hword ⟨slash_notMem_lastPiece x, fun h => hnot (.inl h), fun h => hnot (.inr h)⟩
      have hwords : words (lastPiece x) = [] := by rcases hnothing with heq | heq <;> rw [heq] <;> rfl
      have hlength := length_front_lt hnil
      obtain ⟨y, hy, hstart, hsame, hends⟩ := trimBack_spec n (front x) (by omega)
      rw [if_pos (by rcases hnothing with heq | heq <;> rw [heq] <;> rfl)]
      refine ⟨y, hy, hstart.trans (front_isPrefixOf x), ?_, hends⟩
      rw [hsame, words_eq x, hwords, List.append_nil]

/-! ## The parts of a parent -/

/-- Where a path is cut into what stands in front of its components and these. -/
inductive Cut : List Char → List Char → Prop
  | root {rest} : Cut ['/'] rest
  | here : Cut ['.'] []
  | below {rest} : Cut ['.'] ('/' :: rest)
  | bare {rest} : rest.head? ≠ some '/' → rest ≠ ['.'] → (∀ s, rest ≠ '.' :: '/' :: s) → Cut [] rest

theorem exists_cut : ∀ s : List Char, ∃ lead rest, s = lead ++ rest ∧ Cut lead rest
  | [] => ⟨[], [], rfl, .bare (by simp) (by simp) (by simp)⟩
  | c :: s => by
    by_cases hroot : c = '/'
    · exact ⟨['/'], s, by rw [hroot]; rfl, .root⟩
    by_cases hdot : c = '.'
    · subst hdot
      rcases s with _ | ⟨d, s⟩
      · exact ⟨['.'], [], rfl, .here⟩
      by_cases hslash : d = '/'
      · exact ⟨['.'], d :: s, rfl, hslash ▸ .below⟩
      · exact ⟨[], _, rfl, .bare (by simp) (by simp) (by simp [hslash])⟩
    · exact ⟨[], _, rfl, .bare (by simp [hroot]) (by simp [hdot]) (by simp [hdot])⟩

variable {lead rest : List Char} {p q : String}

theorem Cut.leadLength_eq (h : Cut lead rest) : leadLength (lead ++ rest) = lead.length := by
  cases h with
  | root | here | below => rfl
  | bare hroot hdot hslash =>
    unfold leadLength
    split <;> simp_all

/-- The part that stands for what is in front of the components. -/
def leadParts : List Char → List Part
  | ['/'] => [.root]
  | ['.'] => [.here]
  | _ => []

def Part.ofWord (w : List Char) : Part := if String.ofList w = ".." then .up else .name (String.ofList w)

theorem Cut.parts (h : Cut lead rest) (hp : p.toList = lead ++ rest) :
    parts p = leadParts lead ++ (words rest).map Part.ofWord := by
  have hwords : words (lead ++ rest) = words rest := by
    cases h <;> simp
  unfold Path.parts isAbsolute
  rw [components_eq, hp, h.leadLength_eq, hwords, List.map_map]
  cases h with
  | root | here | below => rfl
  | bare hroot hdot hslash =>
    rw [if_neg (by simpa using hroot)]
    rfl

/-- In front of fewer components there stands the same. -/
theorem Cut.shorten {x : List Char} (h : Cut lead rest) (hx : x <+: rest) (hends : x = [] ∨ IsWord (lastPiece x)) :
    Cut lead x := by
  cases h with
  | root => exact .root
  | here => exact List.prefix_nil.1 hx ▸ .here
  | below =>
    rcases x with _ | ⟨c, x⟩
    · exact .here
    · obtain ⟨rfl, -⟩ := List.cons_prefix_cons.1 hx
      exact .below
  | bare hroot hdot hslash =>
    obtain ⟨y, rfl⟩ := hx
    refine .bare (fun hx => hroot ?_) ?_ fun s hs => hslash (s ++ y) (hs ▸ rfl)
    · rw [List.head?_append, hx]
      rfl
    · rintro rfl
      rcases hends with hnil | hword
      · cases hnil
      · exact hword.ne_dot rfl

/-- A path either has no components, or one more than its parent. -/
theorem parent?_spec (hp : p.toList = lead ++ rest) (h : Cut lead rest) :
    words rest = [] ∧ parent? p = (if lead = ['.'] then some "" else none) ∨
      ∃ x w, words rest = words x ++ [w] ∧ parent? p = some (String.ofList (lead ++ x)) ∧ Cut lead x := by
  have htake : (lead ++ rest).take lead.length = lead := List.take_left
  have hdrop : (lead ++ rest).drop lead.length = rest := List.drop_left
  obtain ⟨y, hback, hstart, hwords, hends⟩ := trimBack_spec (lead ++ rest).length rest (by simp)
  have hdropped : (y.reverse.dropWhile (· ≠ '/')).drop 1 = (front y).reverse := (List.reverse_reverse _).symm
  unfold parent?
  simp only [hp, h.leadLength_eq, htake, hdrop, hback, hdropped]
  rcases hends with rfl | hword
  · exact .inl ⟨hwords.symm, rfl⟩
  have hnil : y ≠ [] := by
    rintro rfl
    exact hword.ne_nil rfl
  have hlength := (front_isPrefixOf y).length_le.trans hstart.length_le
  obtain ⟨x, hbefore, hxstart, hxwords, hxends⟩ := trimBack_spec (lead ++ rest).length (front y) (by simp; omega)
  refine .inr ⟨x, lastPiece y, ?_, ?_, h.shorten (hxstart.trans ((front_isPrefixOf y).trans hstart)) hxends⟩
  · rw [← hwords, words_eq y, hxwords, hword.words]
  · rw [if_neg (by simpa using hnil), hbefore, List.reverse_reverse]

theorem Cut.isAbsolute_eq (h : Cut lead rest) (hp : p.toList = lead ++ rest) :
    isAbsolute p = decide (lead = ['/']) := by
  unfold isAbsolute
  rw [hp]
  cases h with
  | root | here | below => rfl
  | bare hroot hdot hslash => simpa using hroot

/-- The parts of a parent are those of the path but the last one. -/
theorem parts_parent (h : parent? p = some q) :
    isAbsolute q = isAbsolute p ∧ ∃ part, parts p = parts q ++ [part] := by
  obtain ⟨lead, rest, hp, hcut⟩ := exists_cut p.toList
  rcases parent?_spec hp hcut with ⟨hwords, hparent⟩ | ⟨x, w, hwords, hparent, hx⟩
  · rw [h] at hparent
    split_ifs at hparent with hlead
    obtain rfl := Option.some.inj hparent
    rw [hcut.isAbsolute_eq hp, hcut.parts hp, hwords, hlead]
    exact ⟨rfl, .here, rfl⟩
  · obtain rfl := Option.some.inj (h.symm.trans hparent)
    rw [hcut.isAbsolute_eq hp, hx.isAbsolute_eq String.toList_ofList, hcut.parts hp, hx.parts String.toList_ofList,
      hwords, List.map_append, ← List.append_assoc]
    exact ⟨rfl, _, rfl⟩

/-- Only the root and the empty path have no parent. -/
theorem parts_of_parent?_eq_none (h : parent? p = none) : parts p = if isAbsolute p then [.root] else [] := by
  obtain ⟨lead, rest, hp, hcut⟩ := exists_cut p.toList
  rcases parent?_spec hp hcut with ⟨hwords, hparent⟩ | ⟨x, w, -, hparent, -⟩
  · rw [h] at hparent
    rw [hcut.isAbsolute_eq hp, hcut.parts hp, hwords]
    cases hcut with
    | root | bare => rfl
    | here | below => cases hparent
  · rw [h] at hparent
    cases hparent

/-! ## The directories above a path -/

/-- A path and those above it, each the parent of the one before, up to where there is no parent. -/
inductive Ascent : String → List String → Prop
  | top {d : String} : parent? d = none → Ascent d [d]
  | up {d u : String} {ds : List String} : parent? d = some u → Ascent u ds → Ascent d (d :: ds)

variable {d : String} {ds : List String}

theorem exists_ascent : ∀ (n : Nat) (d : String), (parts d).length ≤ n → ∃ ds, Ascent d ds
  | n, d, h => by
    rcases hd : parent? d with _ | u
    · exact ⟨_, .top hd⟩
    · obtain ⟨-, part, hparts⟩ := parts_parent hd
      rw [hparts, List.length_append, List.length_singleton] at h
      obtain ⟨n, rfl⟩ : ∃ m, n = m + 1 := ⟨n - 1, by omega⟩
      obtain ⟨ds, hds⟩ := exists_ascent n u (by omega)
      exact ⟨_, .up hd hds⟩

theorem Ascent.unique (h : Ascent d ds) : ∀ {ds' : List String}, Ascent d ds' → ds' = ds := by
  induction h with
  | top hd =>
    intro ds' h'
    cases h' with
    | top => rfl
    | up hd' => exact absurd (hd.symm.trans hd') (by simp)
  | up hd _ ih =>
    intro ds' h'
    cases h' with
    | top hd' => exact absurd (hd.symm.trans hd') (by simp)
    | up hd' h' =>
      obtain rfl := Option.some.inj (hd.symm.trans hd')
      rw [ih h']

/-- The paths above one have fewer and fewer of its parts, down to none, or the root alone. -/
theorem Ascent.parts (h : Ascent d ds) :
    (ds.map Path.parts).reverse = (Path.parts d).inits.drop (if isAbsolute d then 1 else 0) := by
  induction h with
  | top hd =>
    rw [parts_of_parent?_eq_none hd, List.map_singleton, parts_of_parent?_eq_none hd]
    split_ifs <;> rfl
  | @up d u ds hd _ ih =>
    obtain ⟨habs, part, hparts⟩ := parts_parent hd
    rw [List.map_cons, List.reverse_cons, ih, habs, hparts]
    have hinits : (Path.parts u ++ [part]).inits = (Path.parts u).inits ++ [Path.parts u ++ [part]] := by simp
    rw [hinits, List.drop_append_of_le_length]
    rw [List.length_inits]
    split_ifs <;> omega

theorem nodup_inits {α : Type} : ∀ l : List α, l.inits.Nodup
  | [] => List.nodup_singleton []
  | a :: l => by
    rw [List.inits_cons, List.nodup_cons]
    exact ⟨by simp, (nodup_inits l).map List.cons_injective⟩

theorem Ascent.nodup_parts (h : Ascent d ds) : (ds.map Path.parts).Nodup := by
  rw [← List.nodup_reverse, h.parts]
  exact (nodup_inits _).sublist (List.drop_sublist _ _)

theorem Ascent.length_le (h : Ascent d ds) : ds.length ≤ (Path.parts d).length + 1 := by
  have := congrArg List.length h.parts
  rw [List.length_reverse, List.length_map, List.length_drop, List.length_inits] at this
  omega

/-! ## Paths in a directory -/

/-- Behind a slash the components of a path go on. -/
theorem parts_append_slash {y : List Char} (hy : y ≠ []) (x : List Char) :
    Path.parts (String.ofList (y ++ '/' :: x)) = Path.parts (String.ofList y) ++ (words x).map Part.ofWord := by
  obtain ⟨lead, rest, rfl, hcut⟩ := exists_cut y
  have hlonger : Cut lead (rest ++ '/' :: x) := by
    cases hcut with
    | root => exact .root
    | here | below => exact .below
    | bare hroot hdot hslash =>
      obtain ⟨c, rest, rfl⟩ := List.exists_cons_of_ne_nil hy
      refine .bare hroot (by simp) fun s hs => ?_
      rcases rest with _ | ⟨e, rest⟩
      · exact hdot (by rw [(List.cons_eq_cons.1 hs).1])
      · simp only [List.cons_append, List.cons.injEq] at hs
        exact hslash rest (by rw [hs.1, hs.2.1])
  rw [hcut.parts String.toList_ofList, hlonger.parts (by rw [String.toList_ofList, List.append_assoc]),
    words_append, List.map_append, List.append_assoc]

/-- A path in a directory has one part more. -/
theorem parts_join {dir name : String} (hname : IsWord name.toList) :
    Path.parts (join dir name) = Path.parts dir ++ [.ofWord name.toList] := by
  have hslash : name.toList.head? ≠ some '/' := fun h => hname.noSlash (List.mem_of_head? h)
  have hwords : (words name.toList).map Part.ofWord = [.ofWord name.toList] := by rw [hname.words]; rfl
  unfold join
  by_cases hempty : dir.isEmpty
  · obtain rfl := String.isEmpty_iff.1 hempty
    rw [if_pos (by simp)]
    have hcut : Cut [] name.toList := .bare hslash hname.ne_dot fun s hs => hname.noSlash (hs ▸ by simp)
    rw [hcut.parts rfl, hwords]
    rfl
  rw [if_neg (by simpa [hempty] using hslash)]
  by_cases hlast : dir.toList.getLast? = some '/'
  · rw [if_pos hlast]
    obtain ⟨y, hy⟩ := List.getLast?_eq_some_iff.1 hlast
    obtain rfl : dir = String.ofList (y ++ ['/']) := String.toList_inj.1 (by rw [hy, String.toList_ofList])
    have hjoin : String.ofList (y ++ ['/']) ++ name = String.ofList (y ++ '/' :: name.toList) := by
      rw [← String.toList_inj]
      simp
    rw [hjoin]
    by_cases hnil : y = []
    · subst hnil
      have hroot : ∀ x : List Char, Path.parts (String.ofList ('/' :: x)) = .root :: (words x).map Part.ofWord :=
        fun x => Cut.root.parts String.toList_ofList
      exact (hroot name.toList).trans (by rw [hwords]; rfl)
    · rw [parts_append_slash hnil, parts_append_slash hnil, hwords, words_nil, List.map_nil, List.append_nil]
  · rw [if_neg hlast]
    have hjoin : dir ++ "/" ++ name = String.ofList (dir.toList ++ '/' :: name.toList) := by
      rw [← String.toList_inj]
      simp
    have hnil : dir.toList ≠ [] := by simpa [String.isEmpty_iff] using hempty
    rw [hjoin, parts_append_slash hnil, hwords, String.ofList_toList]

end Path

namespace Files

variable {isFile : String → Bool} {start dir : String} {dirs : List String}

/-! ## The search -/

/-- The search goes through all paths at which a directory or one above it can have a configuration. -/
theorem searchConfig_eq (h : Path.Ascent dir dirs) : ∀ {fuel : Nat}, dirs.length ≤ fuel → ∀ searched : List String,
    searchConfig isFile fuel dir searched =
      match (dirs.flatMap configPaths).find? isFile with
      | some path => .ok path
      | none => .error (.notFound (searched ++ dirs.flatMap configPaths)) := by
  induction h with
  | @top d hd =>
    intro fuel hfuel searched
    obtain ⟨fuel, rfl⟩ : ∃ n, fuel = n + 1 := ⟨fuel - 1, by simp at hfuel; omega⟩
    unfold searchConfig
    rw [List.flatMap_singleton]
    cases (configPaths d).find? isFile with
    | some path => rfl
    | none => simp only [hd]
  | @up d u ds hd _ ih =>
    intro fuel hfuel searched
    obtain ⟨fuel, rfl⟩ : ∃ n, fuel = n + 1 := ⟨fuel - 1, by simp at hfuel; omega⟩
    unfold searchConfig
    rw [List.flatMap_cons, List.find?_append]
    cases (configPaths d).find? isFile with
    | some path => rfl
    | none =>
      simp only [hd]
      rw [ih (Nat.le_of_succ_le_succ hfuel), List.append_assoc, Option.none_or]

theorem nearestConfig_eq (h : Path.Ascent start dirs) :
    nearestConfig isFile start =
      match (dirs.flatMap configPaths).find? isFile with
      | some path => .ok path
      | none => .error (.notFound (dirs.flatMap configPaths)) :=
  searchConfig_eq h h.length_le []

theorem parts_configPath {name : String} (h : name ∈ configNames) :
    Path.parts (Path.join dir name) = Path.parts dir ++ [.name name] := by
  unfold configNames at h
  simp only [List.mem_cons, List.not_mem_nil, or_false] at h
  rcases h with rfl | rfl
  · exact Path.parts_join ⟨by decide, by decide, by decide⟩
  · exact Path.parts_join ⟨by decide, by decide, by decide⟩

theorem mem_configPaths {path : String} :
    path ∈ configPaths dir ↔ path = Path.join dir "canopy.yml" ∨ path = Path.join dir "canopy.yaml" := by
  simp [configPaths, configNames]

/-- No path is tried twice. -/
theorem nodup_configPaths (h : Path.Ascent start dirs) : (dirs.flatMap configPaths).Nodup := by
  rw [List.nodup_flatMap]
  refine ⟨fun d _ => ?_, (List.pairwise_map.1 h.nodup_parts).imp fun {d d'} hne path hpath hpath' => hne ?_⟩
  · refine (List.nodup_map_iff_inj_on (by decide)).2 fun name hname name' hname' heq => ?_
    have hparts := congrArg Path.parts heq
    rw [parts_configPath hname, parts_configPath hname'] at hparts
    exact Path.Part.name.inj (List.append_inj_right' hparts rfl |> List.singleton_inj.1)
  · obtain ⟨name, hname, rfl⟩ := List.mem_map.1 hpath
    obtain ⟨name', hname', heq⟩ := List.mem_map.1 hpath'
    have hparts := congrArg Path.parts heq
    rw [parts_configPath hname, parts_configPath hname'] at hparts
    exact (List.append_inj_left' hparts rfl).symm

theorem isFile_iff {fs : Files} {path : String} :
    fs.isFile path = true ↔ ∃ place e, fs.place? path = .ok place ∧ fs.entry? place = some e ∧ e ≠ .directory := by
  unfold isFile
  cases hplace : fs.place? path with
  | error fault => simp
  | ok place =>
    rcases he : fs.entry? place with _ | e
    · simp [he]
    · cases e <;> simp [he]

/-- The nearest configuration is the first one that the closest directory has that has one, among the start and
those above it, and it is a file, whatever the names of directories are.  If none of them has one, all the paths are
named where one could be, the closest ones first, and each of them once. -/
theorem nearestConfig_found (isFile : String → Bool) (start : String) :
    ∃ dirs, Path.Ascent start dirs ∧ (∀ dirs', Path.Ascent start dirs' → dirs' = dirs) ∧
      (dirs.map Path.parts).reverse = (Path.parts start).inits.drop (if Path.isAbsolute start then 1 else 0) ∧
      (∀ below dir above, dirs = below ++ dir :: above →
        (∀ d ∈ below, ¬isFile (Path.join d "canopy.yml") ∧ ¬isFile (Path.join d "canopy.yaml")) →
        (isFile (Path.join dir "canopy.yml") → nearestConfig isFile start = .ok (Path.join dir "canopy.yml")) ∧
        (¬isFile (Path.join dir "canopy.yml") → isFile (Path.join dir "canopy.yaml") →
          nearestConfig isFile start = .ok (Path.join dir "canopy.yaml"))) ∧
      ((∀ d ∈ dirs, ¬isFile (Path.join d "canopy.yml") ∧ ¬isFile (Path.join d "canopy.yaml")) →
        ∃ searched, nearestConfig isFile start = .error (.notFound searched) ∧
          searched = dirs.flatMap (fun d => [Path.join d "canopy.yml", Path.join d "canopy.yaml"]) ∧ searched.Nodup ∧
          (ConfigFault.notFound searched).message =
            "Failed to find config file (searched: " ++ String.intercalate ", " searched ++ ")") ∧
      ∀ fs : Files, fs.findConfig start = nearestConfig fs.isFile start ∧ ∀ path, fs.isFile path = true ↔
        ∃ place e, fs.place? path = .ok place ∧ fs.entry? place = some e ∧ e ≠ .directory := by
  obtain ⟨dirs, h⟩ := Path.exists_ascent _ start le_rfl
  have hnone : ∀ ds : List String, (∀ d ∈ ds, ¬isFile (Path.join d "canopy.yml") ∧
      ¬isFile (Path.join d "canopy.yaml")) → (ds.flatMap configPaths).find? isFile = none := by
    intro ds hds
    refine List.find?_eq_none.2 fun path hpath => ?_
    obtain ⟨d, hd, hpath⟩ := List.mem_flatMap.1 hpath
    rcases mem_configPaths.1 hpath with rfl | rfl
    · exact (hds d hd).1
    · exact (hds d hd).2
  refine ⟨dirs, h, fun _ h' => h.unique h', h.parts, ?_, fun hds => ?_, fun fs => ⟨rfl, fun _ => isFile_iff⟩⟩
  · rintro below dir above rfl hbelow
    rw [nearestConfig_eq h, List.flatMap_append, List.flatMap_cons, List.find?_append, hnone below hbelow,
      Option.none_or, List.find?_append]
    have hpaths : configPaths dir = [Path.join dir "canopy.yml", Path.join dir "canopy.yaml"] := rfl
    rw [hpaths]
    refine ⟨fun hyml => ?_, fun hyml hyaml => ?_⟩
    · simp [hyml]
    · simp [hyml, hyaml]
  · refine ⟨_, ?_, rfl, nodup_configPaths h, rfl⟩
    rw [nearestConfig_eq h, hnone dirs hds]
    rfl

/-- Slashes at the end and dots between the components make no directories of their own. -/
example : nearestConfig (· = "/srv/canopy.yaml") "/srv/./runs//" = .ok "/srv/canopy.yaml" := by
  rfl

end Files

end Workload

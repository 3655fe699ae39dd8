import Mathlib.Data.List.DropRight
import Mathlib.Tactic.SplitIfs
import Workload.Proofs.ArgumentLists
import Workload.Proofs.Expansions

/-!
# Values that are evaluated again

An evaluation ends with a pass that replaces nothing: every variable that is left has no value, or itself as
its value (`interpolatePasses_settled`).  A text of such variables stays as it is, so that the value of an
expression, evaluated again where names have the values they had, is that value, if it has no whole block
(`evaluate_evaluated`).
-/

namespace Workload

namespace Range

/-- A block from its opening to its closing, with blanks wherever they may stand. -/
inductive WholeBlock : List Char → Prop
  | mk {lead gap header body front back : List Char} : (∀ c ∈ lead, Text.isBlank c = true) →
    (∀ c ∈ gap, Text.isBlank c = true) → gap ≠ [] → '}' ∉ header → (∀ c ∈ front, Text.isBlank c = true) →
    (∀ c ∈ back, Text.isBlank c = true) →
      WholeBlock (['{', '{'] ++ (lead ++ (['r', 'a', 'n', 'g', 'e'] ++ (gap ++ (header ++ (['}', '}'] ++
        (body ++ (['{', '{'] ++ (front ++ (['e', 'n', 'd'] ++ (back ++ ['}', '}'])))))))))))

/-- Whether a whole block stands somewhere in a text. -/
def HasBlock (s : List Char) : Prop := ∃ b, WholeBlock b ∧ b <:+: s

/-- The blanks in front of a text and the rest of it. -/
theorem exists_blanks (s : List Char) :
    ∃ lead, (∀ c ∈ lead, Text.isBlank c = true) ∧ s = lead ++ Text.trimStart s :=
  ⟨s.takeWhile Text.isBlank, fun _ hc => List.mem_takeWhile_imp hc,
    (List.takeWhile_append_dropWhile (p := Text.isBlank) (l := s)).symm⟩

theorem opening?_eq_some {s header rest : List Char} (h : opening? s = some (header, rest)) :
    ∃ lead gap, (∀ c ∈ lead, Text.isBlank c = true) ∧ (∀ c ∈ gap, Text.isBlank c = true) ∧ gap ≠ [] ∧
      '}' ∉ header ∧ s = ['{', '{'] ++ (lead ++ (['r', 'a', 'n', 'g', 'e'] ++ (gap ++ (header ++
        (['}', '}'] ++ rest))))) := by
  unfold opening? at h
  simp only [Option.bind_eq_bind, Option.bind_eq_some_iff] at h
  obtain ⟨a, ha, b, hb, h⟩ := h
  split_ifs at h with hblank
  · cases h
  obtain ⟨t, ht, h⟩ := Option.bind_eq_some_iff.1 h
  cases h
  obtain ⟨lead, hlead, hsa⟩ := exists_blanks a
  obtain ⟨gap, hgap, hsb⟩ := exists_blanks b
  have hne : gap ≠ [] := by
    rintro rfl
    cases b with
    | nil => exact hblank rfl
    | cons c b => exact hblank (by simpa using Text.trimStart_eq_self_iff.1 hsb.symm c rfl)
  refine ⟨lead, gap, hlead, hgap, hne, ?_, ?_⟩
  · exact fun hmem => by simpa using List.mem_takeWhile_imp hmem
  · rw [Text.dropStart?_eq_some ha, ← Text.dropStart?_eq_some ht, List.takeWhile_append_dropWhile, ← hsb,
      ← Text.dropStart?_eq_some hb, ← hsa]

theorem closing?_eq_some {s rest : List Char} (h : closing? s = some rest) :
    ∃ front back, (∀ c ∈ front, Text.isBlank c = true) ∧ (∀ c ∈ back, Text.isBlank c = true) ∧
      s = ['{', '{'] ++ (front ++ (['e', 'n', 'd'] ++ (back ++ (['}', '}'] ++ rest)))) := by
  unfold closing? at h
  simp only [Option.bind_eq_bind, Option.bind_eq_some_iff] at h
  obtain ⟨a, ha, b, hb, h⟩ := h
  obtain ⟨front, hfront, hsa⟩ := exists_blanks a
  obtain ⟨back, hback, hsb⟩ := exists_blanks b
  refine ⟨front, back, hfront, hback, ?_⟩
  rw [Text.dropStart?_eq_some ha, ← Text.dropStart?_eq_some h, ← hsb, ← Text.dropStart?_eq_some hb, ← hsa]

theorem body?_eq_some {s body rest : List Char} (h : body? s = some (body, rest)) :
    ∃ t, closing? t = some rest ∧ s = body ++ t := by
  induction s generalizing body with
  | nil => cases h
  | cons c cs ih =>
    unfold body? at h
    cases hc : closing? (c :: cs) with
    | some t =>
      rw [hc] at h
      cases h
      exact ⟨_, hc, rfl⟩
    | none =>
      rw [hc] at h
      obtain ⟨⟨inner, t⟩, hr, heq⟩ := Option.map_eq_some_iff.1 h
      cases heq
      obtain ⟨t, ht, rfl⟩ := ih hr
      exact ⟨t, ht, rfl⟩

/-- What is taken for a block is a whole one. -/
theorem hasBlock_of_block? {s : List Char} (h : block? s ≠ none) : HasBlock s := by
  obtain ⟨⟨header, body, rest⟩, hblock⟩ := Option.ne_none_iff_exists'.1 h
  unfold block? at hblock
  simp only [Option.bind_eq_bind, Option.bind_eq_some_iff] at hblock
  obtain ⟨⟨header, s₁⟩, hopen, ⟨body, rest⟩, hbody, -⟩ := hblock
  obtain ⟨lead, gap, hlead, hgap, hne, hheader, rfl⟩ := opening?_eq_some hopen
  obtain ⟨s₂, hclose, rfl⟩ := body?_eq_some hbody
  obtain ⟨front, back, hfront, hback, rfl⟩ := closing?_eq_some hclose
  exact ⟨_, @WholeBlock.mk _ _ _ body _ _ hlead hgap hne hheader hfront hback, [], rest, by simp⟩

theorem HasBlock.opens {s : List Char} (h : HasBlock s) : ['{', '{'] <:+: s := by
  obtain ⟨b, hb, hinfix⟩ := h
  cases hb
  exact (List.prefix_append _ _).isInfix.trans hinfix

/-- A text without a whole block stays as it is. -/
theorem expand_of_not_hasBlock {text : String} (h : ¬HasBlock text.toList) : expand text = .ok text := by
  refine expand_of_blockless fun s hs => ?_
  by_contra hblock
  obtain ⟨b, hb, hinfix⟩ := hasBlock_of_block? hblock
  exact h ⟨b, hb, hinfix.trans hs.isInfix⟩

end Range

namespace Expression

variable {σ : Type}

/-- Names have fixed values in the states of a kind, and looking one up leads to such a state again. -/
structure Fixed (lookup : String → σ → Option String × σ) (value : String → Option String)
    (known : String → Prop) (P : σ → Prop) : Prop where
  answer : ∀ {name w}, known name → P w → (lookup name w).1 = value name
  keeps : ∀ {name w}, known name → P w → P (lookup name w).2

/-- Whether a variable is left as it is: it has no value, or itself as its value. -/
def Settled (value : String → Option String) (name : String) : Prop :=
  ∀ v, value name = some v → v = token name

/-- The texts that passes start with, in order. -/
def passTexts (lookup : String → σ → Option String × σ) : Nat → String → σ → List String
  | 0, _, _ => []
  | passes + 1, text, w =>
    let ((next, changed), w) := replaceEach lookup (vars text) text false w
    text :: if changed then passTexts lookup passes next w else []

section Passes

variable {lookup : String → σ → Option String × σ} {value : String → Option String} {known : String → Prop}
  {P : σ → Prop} {names : List String} {text r : String} {w : σ}

theorem keeps_replaceEach (hf : Fixed lookup value known P) (hnames : ∀ name ∈ names, known name)
    (text : String) (changed : Bool) (hw : P w) : P (replaceEach lookup names text changed w).2 := by
  induction names generalizing text changed w with
  | nil => exact hw
  | cons name names ih =>
    rw [List.forall_mem_cons] at hnames
    have hkeeps := hf.keeps hnames.1 hw
    unfold replaceEach
    rcases hl : lookup name w with ⟨v, w'⟩
    rw [hl] at hkeeps
    simp only []
    split
    · split_ifs <;> exact ih hnames.2 _ _ hkeeps
    · exact ih hnames.2 _ _ hkeeps

/-- Variables that are left as they are are not replaced. -/
theorem replaceEach_of_settled (hf : Fixed lookup value known P)
    (hnames : ∀ name ∈ names, known name ∧ Settled value name) (text : String) (changed : Bool) (hw : P w) :
    (replaceEach lookup names text changed w).1 = (text, changed) := by
  induction names generalizing w with
  | nil => rfl
  | cons name names ih =>
    obtain ⟨⟨hknown, hsettled⟩, hnames⟩ := List.forall_mem_cons.1 hnames
    have hanswer := hf.answer hknown hw
    have hkeeps := hf.keeps hknown hw
    rcases hl : lookup name w with ⟨v, w'⟩
    rw [hl] at hanswer hkeeps
    unfold replaceEach
    rw [hl]
    cases v with
    | none => exact ih hnames hkeeps
    | some v =>
      simp only []
      rw [if_pos (hsettled v hanswer.symm)]
      exact ih hnames hkeeps

/-- What says that nothing was replaced was said at the end of a pass over variables that are left. -/
theorem settled_of_unchanged (hf : Fixed lookup value known P) (hnames : ∀ name ∈ names, known name)
    {changed : Bool} (hw : P w) (h : (replaceEach lookup names text changed w).1.2 = false) :
    changed = false ∧ ∀ name ∈ names, Settled value name := by
  induction names generalizing text changed w with
  | nil => exact ⟨h, fun _ h => by cases h⟩
  | cons name names ih =>
    rw [List.forall_mem_cons] at hnames
    have hanswer := hf.answer hnames.1 hw
    have hkeeps := hf.keeps hnames.1 hw
    rcases hl : lookup name w with ⟨v, w'⟩
    rw [hl] at hanswer hkeeps
    unfold replaceEach at h
    rw [hl] at h
    rw [List.forall_mem_cons]
    cases v with
    | none =>
      obtain ⟨hchanged, hrest⟩ := ih hnames.2 hkeeps h
      refine ⟨hchanged, fun v hv => ?_, hrest⟩
      rw [← hanswer] at hv
      cases hv
    | some v =>
      simp only [] at h
      split_ifs at h with hv
      · obtain ⟨hchanged, hrest⟩ := ih hnames.2 hkeeps h
        refine ⟨hchanged, fun v' hv' => ?_, hrest⟩
        rw [← hanswer] at hv'
        cases hv'
        exact hv
      · exact absurd (ih hnames.2 hkeeps h).1 (by decide)

/-- An interpolation ends with a pass over variables that are left as they are. -/
theorem interpolatePasses_settled (hf : Fixed lookup value known P) {passes : Nat} (hw : P w)
    (hknown : ∀ t ∈ passTexts lookup passes text w, ∀ name ∈ vars t, known name)
    (h : (interpolatePasses lookup passes text w).1 = .ok r) :
    (∀ name ∈ vars r, known name ∧ Settled value name) ∧ ∃ w', P w' ∧
      (interpolatePasses lookup passes text w).2 = (replaceEach lookup (vars r) r false w').2 := by
  induction passes generalizing text w with
  | zero => cases h
  | succ passes ih =>
    obtain ⟨hnames, hknown⟩ := List.forall_mem_cons.1 hknown
    have hkeeps := keeps_replaceEach hf hnames text false hw
    unfold interpolatePasses at h ⊢
    rcases hpass : replaceEach lookup (vars text) text false w with ⟨⟨next, changed⟩, w'⟩
    rw [hpass] at h hknown hkeeps
    cases changed with
    | true => exact ih hkeeps hknown h
    | false =>
      have hunchanged : (replaceEach lookup (vars text) text false w).1.2 = false := by rw [hpass]
      have hleft : ∀ name ∈ vars text, known name ∧ Settled value name := fun name hname =>
        ⟨hnames name hname, (settled_of_unchanged hf hnames hw hunchanged).2 name hname⟩
      have hnext := replaceEach_of_settled hf hleft text false hw
      rw [hpass] at hnext
      obtain rfl : next = text := congrArg Prod.fst hnext
      cases h
      exact ⟨hleft, w, hw, congrArg Prod.snd hpass.symm⟩

/-- A text of variables that are left as they are is its own value. -/
theorem interpolatePasses_of_settled (hf : Fixed lookup value known P)
    (hnames : ∀ name ∈ vars text, known name ∧ Settled value name) (passes : Nat) (hw : P w) :
    interpolatePasses lookup (passes + 1) text w =
      (.ok text, (replaceEach lookup (vars text) text false w).2) := by
  have hsame := replaceEach_of_settled hf hnames text false hw
  unfold interpolatePasses
  rcases hpass : replaceEach lookup (vars text) text false w with ⟨⟨next, changed⟩, w'⟩
  rw [hpass] at hsame
  cases hsame
  rfl

end Passes

end Expression

namespace Scope

variable {σ : Type} {env : Environment σ} {hosts rests : String → Option String} {I : σ → Prop}
  {s s' : Scope σ} {name text r : String}

/-- The texts that the passes of an evaluation start with, in order. -/
def passTexts (env : Environment σ) (text : String) (s : Scope σ) : List String :=
  match Range.expand text with
  | .ok expanded => Expression.passTexts (lookup env) Expression.maxPasses expanded s
  | .error _ => []

/-- What is not a status has the same value in all scopes that differ in nothing but the world. -/
theorem lookup_eq (hp : env.provider.Locates hosts rests I) (h : s.Rests s') (hs : I s.world)
    (hs' : I s'.world) (hname : ¬IsStatus name) : (s'.lookup env name).1 = (s.lookup env name).1 := by
  unfold lookup
  rw [h.aliases, h.loops, h.topology]
  split_ifs
  · rfl
  · cases s.topology.nodeNames? <;> rfl
  · cases hcut : Text.cut? ":" name with
    | none => rfl
    | some r =>
      simp only []
      unfold lookupCall
      split
      · rename_i hfunction
        exact absurd (by rw [IsStatus, hcut, Option.map_some, hfunction]) hname
      · exact (hp.host hs').1.trans (hp.host hs).1.symm
      · exact (hp.rest hs').1.trans (hp.rest hs).1.symm
      · rfl
      · rfl

theorem fixed_lookup (hp : env.provider.Locates hosts rests I) (hs : I s.world) :
    Expression.Fixed (lookup env) (fun name => (s.lookup env name).1) (¬IsStatus ·)
      fun s' => s.Rests s' ∧ I s'.world :=
  ⟨fun hname h => lookup_eq hp h.1 hs h.2 hname,
    fun hname h => ⟨h.1.trans (rests_lookup env _ _), (lookup_located hp h.2 hname).1⟩⟩

theorem lacks_eq (h : s.Rests s') (name : String) : s'.lacks name = s.lacks name := by
  rw [lacks, lacks, h.topology]

/-- What a pass asks for cannot be done just if a variable asks for nodes that cannot be listed. -/
theorem broken_replaceEach (hp : env.provider.Locates hosts rests I) {names : List String}
    (hnames : ∀ name ∈ names, ¬IsStatus name) (changed : Bool) (hs : I s.world) :
    (Expression.replaceEach (lookup env) names text changed s).2.broken =
      (s.broken || names.any s.lacks) := by
  induction names generalizing text changed s with
  | nil => simp [Expression.replaceEach]
  | cons name names ih =>
    obtain ⟨hname, hnames⟩ := List.forall_mem_cons.1 hnames
    obtain ⟨hworld, hbroken⟩ := lookup_located hp hs hname
    have hlacks := lacks_eq (rests_lookup env name s)
    unfold Expression.replaceEach
    rcases hl : s.lookup env name with ⟨v, t⟩
    rw [hl] at hworld hbroken hlacks
    have hrest : ∀ text changed, (Expression.replaceEach (lookup env) names text changed t).2.broken =
        (s.broken || (name :: names).any s.lacks) := by
      intro text changed
      rw [ih hnames changed hworld, hbroken, funext hlacks, List.any_cons, Bool.or_assoc]
    simp only []
    split
    · split_ifs <;> exact hrest _ _
    · exact hrest _ _

theorem expand_of_evaluate (h : (s.evaluate env text).1 = .ok r) : ∃ expanded,
    Range.expand text = .ok expanded ∧
      (Expression.interpolatePasses (lookup env) Expression.maxPasses expanded s).1 = .ok r := by
  unfold evaluate Expression.evaluate Expression.interpolate at h
  cases hx : Range.expand text with
  | error e =>
    rw [hx] at h
    cases e <;> cases h
  | ok expanded =>
    rw [hx] at h
    refine ⟨expanded, rfl, ?_⟩
    rcases hi : Expression.interpolatePasses (lookup env) Expression.maxPasses expanded s with ⟨e | v, t⟩
    · simp only [hi] at h
      cases e <;> cases h
    · simpa only [hi] using h

/-- The value of a text is that of the text with its range blocks expanded. -/
theorem evaluate_of_expand {expanded : String} (hx : Range.expand text = .ok expanded)
    (h : (Expression.interpolatePasses (lookup env) Expression.maxPasses expanded s).1 = .ok r) :
    s.evaluate env text = Expression.interpolatePasses (lookup env) Expression.maxPasses expanded s := by
  unfold evaluate Expression.evaluate Expression.interpolate
  rw [hx]
  rcases hi : Expression.interpolatePasses (lookup env) Expression.maxPasses expanded s with ⟨v, t⟩
  rw [hi] at h
  obtain rfl : v = .ok r := h
  simp only [hi]

/-- The value that an expression comes to, without asking for what cannot be done, is its own value wherever
names have the values they had, if it has no whole block; the status of a container may be another one each
time. -/
theorem evaluate_evaluated (hp : env.provider.Locates hosts rests I) (hs : I s.world)
    (hok : (s.evaluate env text).1 = .ok r) (hb : (s.evaluate env text).2.broken = false)
    (hblock : ¬Range.HasBlock r.toList)
    (hstatus : ∀ t ∈ s.passTexts env text, ∀ name ∈ Expression.vars t, ¬IsStatus name) :
    I (s.evaluate env text).2.world ∧ ∀ s', s.Rests s' → I s'.world →
      (s'.evaluate env r).1 = .ok r ∧ (s'.evaluate env r).2.broken = s'.broken := by
  have hf := fixed_lookup hp hs
  obtain ⟨expanded, hx, hpasses⟩ := expand_of_evaluate hok
  unfold passTexts at hstatus
  rw [hx] at hstatus
  obtain ⟨hsettled, w', hw', hlast⟩ :=
    Expression.interpolatePasses_settled hf ⟨.refl s, hs⟩ hstatus hpasses
  have hnames : ∀ name ∈ Expression.vars r, ¬IsStatus name := fun name hname => (hsettled name hname).1
  rw [evaluate_of_expand hx hpasses, hlast] at hb ⊢
  refine ⟨(Expression.keeps_replaceEach hf hnames r false hw').2, fun s' hs' hI => ?_⟩
  -- the last pass looked up what is looked up again, so that nothing of it cannot be done
  rw [broken_replaceEach hp hnames false hw'.2, funext (lacks_eq hw'.1), Bool.or_eq_false_iff] at hb
  have hagain : Expression.interpolatePasses (lookup env) Expression.maxPasses r s' = _ :=
    Expression.interpolatePasses_of_settled hf hsettled 15 ⟨hs', hI⟩
  have hvalue := congrArg Prod.fst hagain
  rw [evaluate_of_expand (Range.expand_of_not_hasBlock hblock) hvalue, hagain]
  refine ⟨rfl, ?_⟩
  rw [broken_replaceEach hp hnames false hI, funext (lacks_eq hs'), hb.2, Bool.or_false]

end Scope

/-! ### A name that is pasted together -/

/-- Aliases of which one starts a name, one is its own value, and two have each other as their values. -/
def pastedScope : Scope (World Rehearsal) :=
  { world := { containers := {}, addresses := [("db1", "10.0.0.1:9000")] }
    aliases := [("half", "$\x7blo"), ("self", "$\x7bself\x7d"), ("a", "$\x7bb\x7d"), ("b", "$\x7ba\x7d")]
    loops := 2 }

def pastedText : String :=
  "\x7b\x7brange 0..2\x7d\x7d$\x7bhost:db1\x7d \x7b\x7bend\x7d\x7d" ++
    "$\x7bhalf\x7dop\x7d $\x7bself\x7d $\x7bgone\x7d"

def pastedValue : String := "10.0.0.1:9000 10.0.0.1:9000 2 $\x7bself\x7d $\x7bgone\x7d"

theorem Scope.evaluate_evaluated_pasted :
    (pastedScope.evaluate nestedEnvironment pastedText).1 = .ok pastedValue ∧
      (pastedScope.evaluate nestedEnvironment pastedText).2.broken = false ∧
      ¬Range.HasBlock pastedValue.toList ∧
      (∀ t ∈ pastedScope.passTexts nestedEnvironment pastedText, ∀ name ∈ Expression.vars t, ¬IsStatus name) ∧
      (pastedScope.evaluate nestedEnvironment pastedValue).1 = .ok pastedValue := by
  have hp : nestedEnvironment.provider.Consulted := Provider.ofSpec_consulted (.dev "10.0.0.1")
  have hok : (pastedScope.evaluate nestedEnvironment pastedText).1 = .ok pastedValue := by decide +kernel
  have hb : (pastedScope.evaluate nestedEnvironment pastedText).2.broken = false := by decide +kernel
  have hblock : ¬Range.HasBlock pastedValue.toList := fun h => absurd h.opens (by decide +kernel)
  have hstatus : ∀ t ∈ pastedScope.passTexts nestedEnvironment pastedText,
      ∀ name ∈ Expression.vars t, ¬IsStatus name := by
    decide +kernel
  refine ⟨hok, hb, hblock, hstatus, ?_⟩
  exact ((evaluate_evaluated (hp.locates _) rfl hok hb hblock hstatus).2 pastedScope (.refl _) rfl).1

end Workload

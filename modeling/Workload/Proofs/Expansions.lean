import Mathlib.Tactic.SplitIfs
import Workload.Proofs.Alike
import Workload.Proofs.Texts
import Workload.Provider.OnDemand
import Workload.Provider.Static
import Workload.Rehearsal

/-!
# Values of expressions

An expression comes to its full expansion: every variable that has a value gives way to the expansion of
that, at every depth, and every other one stays (`evaluate_expands`).  A pass replaces the variables it
finds in the text one after the other, so that one that is replaced can come back with the value of a
later one; but what a pass leaves to be replaced comes from the values of what it replaced.  Where the
values of variables name variables of lower rank only, the highest rank that is left falls with every pass.
-/

namespace Workload

namespace Expression

/-- `t` is a phrase with every variable that has a value replaced by the expansion of the value. -/
inductive Expands (value : VarName → Option Phrase) : Phrase → String → Prop
  | nil : Expands value [] ""
  | literal {s : String} {plain : '$' ∉ s.toList} {q : Phrase} {t : String} :
    Expands value q t → Expands value (.literal s plain :: q) (s ++ t)
  | kept {n : VarName} {q : Phrase} {t : String} :
    value n = none → Expands value q t → Expands value (.named n :: q) (token n.text ++ t)
  | replaced {n : VarName} {p q : Phrase} {t u : String} :
    value n = some p → Expands value p u → Expands value q t → Expands value (.named n :: q) (u ++ t)

/-- The values of the names that come up name names that come up; those that have a value themselves are of
lower rank. -/
structure Ranked (value : VarName → Option Phrase) (known : VarName → Prop) (rank : VarName → Nat) : Prop where
  closed : ∀ {n p m}, known n → value n = some p → m ∈ p.names → known m
  lower : ∀ {n p m}, known n → value n = some p → m ∈ p.names → (value m).isSome → rank m < rank n

/-- In the states of a kind names have their values, and looking one up leads to such a state again. -/
structure Steady {σ : Type} (lookup : String → σ → Option String × σ) (value : VarName → Option Phrase)
    (known : VarName → Prop) (P : σ → Prop) : Prop where
  answer : ∀ {n w}, known n → P w → (lookup n.text w).1 = (value n).map Phrase.text
  keeps : ∀ {n w}, known n → P w → P (lookup n.text w).2

section Expansion

variable {value : VarName → Option Phrase} {known : VarName → Prop} {rank : VarName → Nat} {n : VarName}
  {p q : Phrase} {t u : String}

namespace Expands

/-- A phrase has one expansion. -/
theorem unique (h : Expands value q t) (h' : Expands value q u) : t = u := by
  induction h generalizing u with
  | nil =>
    cases h'
    rfl
  | literal _ ih =>
    cases h' with
    | literal h' => rw [ih h']
  | kept hn _ ih =>
    cases h' with
    | kept _ h' => rw [ih h']
    | replaced hn' _ _ =>
      rw [hn] at hn'
      cases hn'
  | replaced hn _ _ ihp ihq =>
    cases h' with
    | kept hn' _ =>
      rw [hn] at hn'
      cases hn'
    | replaced hn' hp hq =>
      rw [hn] at hn'
      cases hn'
      rw [ihp hp, ihq hq]

/-- The parts of a phrase are expanded each for itself. -/
theorem of_append (h : Expands value (p ++ q) t) :
    ∃ u v, Expands value p u ∧ Expands value q v ∧ t = u ++ v := by
  induction p generalizing t with
  | nil => exact ⟨"", t, .nil, h, by simp⟩
  | cons x p ih =>
    cases h with
    | literal h =>
      obtain ⟨u, v, hu, hv, rfl⟩ := ih h
      exact ⟨_, v, .literal hu, hv, (String.append_assoc ..).symm⟩
    | kept hn h =>
      obtain ⟨u, v, hu, hv, rfl⟩ := ih h
      exact ⟨_, v, .kept hn hu, hv, (String.append_assoc ..).symm⟩
    | replaced hn hp h =>
      obtain ⟨u, v, hu, hv, rfl⟩ := ih h
      exact ⟨_, v, .replaced hn hp hu, hv, (String.append_assoc ..).symm⟩

/-- A phrase of which nothing is to be replaced is its own expansion. -/
theorem self (h : ∀ n ∈ q.names, value n = none) : Expands value q q.text := by
  induction q with
  | nil => exact .nil
  | cons x q ih =>
    cases x with
    | literal s hs => exact .literal (ih h)
    | named n =>
      exact .kept (h n List.mem_cons_self) (ih fun m hm => h m (List.mem_cons_of_mem _ hm))

/-- Putting its value in the place of a variable makes no difference. -/
theorem of_put (hn : value n = some p) (h : Expands value (Phrase.put n p q) t) : Expands value q t := by
  induction q generalizing t with
  | nil => exact h
  | cons x q ih =>
    cases x with
    | literal s hs =>
      cases h with
      | literal h => exact .literal (ih h)
    | named m =>
      unfold Phrase.put at h
      split_ifs at h with hm
      · subst hm
        obtain ⟨u, v, hu, hv, rfl⟩ := of_append h
        exact .replaced hn hu (ih hv)
      · cases h with
        | kept hm h => exact .kept hm (ih h)
        | replaced hm hp h => exact .replaced hm hp (ih h)

end Expands

/-! ### One pass -/

/-- Puts their values in the places of variables, one after the other. -/
def putEach (value : VarName → Option Phrase) : List VarName → Phrase → Phrase
  | [], q => q
  | n :: ns, q =>
    match value n with
    | some p => putEach value ns (Phrase.put n p q)
    | none => putEach value ns q

theorem Expands.of_putEach {ns : List VarName} (h : Expands value (putEach value ns q) t) :
    Expands value q t := by
  induction ns generalizing q with
  | nil => exact h
  | cons n ns ih =>
    unfold putEach at h
    cases hn : value n with
    | none =>
      rw [hn] at h
      exact ih h
    | some p =>
      rw [hn] at h
      exact (ih h).of_put hn

/-- The variables of a phrase are among those that come up, and those to be replaced have a rank below a
bound. -/
def Below (value : VarName → Option Phrase) (known : VarName → Prop) (rank : VarName → Nat) (r : Nat)
    (q : Phrase) : Prop :=
  ∀ n ∈ q.names, known n ∧ ((value n).isSome → rank n < r)

/-- After a pass over variables that include all of the highest rank this rank has gone: what comes in with
a value is of lower rank, also where it takes the place of what was replaced before. -/
theorem below_putEach {r : Nat} {ns : List VarName} (hr : Ranked value known rank)
    (hns : ∀ n ∈ ns, known n ∧ ((value n).isSome → rank n < r + 1))
    (hq : ∀ n ∈ q.names, known n ∧ ((value n).isSome → n ∈ ns ∨ rank n < r)) :
    Below value known rank r (putEach value ns q) := by
  induction ns generalizing q with
  | nil => exact fun n hn => ⟨(hq n hn).1, fun hs => ((hq n hn).2 hs).resolve_left List.not_mem_nil⟩
  | cons n ns ih =>
    have hns' : ∀ m ∈ ns, known m ∧ ((value m).isSome → rank m < r + 1) := fun m hm =>
      hns m (List.mem_cons_of_mem _ hm)
    unfold putEach
    cases hn : value n with
    | none =>
      refine ih hns' fun m hm => ⟨(hq m hm).1, fun hs => ((hq m hm).2 hs).imp_left fun hmem => ?_⟩
      refine (List.mem_cons.1 hmem).resolve_left ?_
      rintro rfl
      rw [hn] at hs
      cases hs
    | some p =>
      obtain ⟨hknown, hrank⟩ := hns n List.mem_cons_self
      have hlt : rank n < r + 1 := hrank (hn ▸ rfl)
      refine ih hns' fun m hm => ?_
      rcases Phrase.mem_names_put hm with ⟨hm, hne⟩ | ⟨-, hm⟩
      · exact ⟨(hq m hm).1, fun hs => ((hq m hm).2 hs).imp_left fun hmem =>
          (List.mem_cons.1 hmem).resolve_left hne⟩
      · refine ⟨hr.closed hknown hn hm, fun hs => .inr ?_⟩
        have := hr.lower hknown hn hm hs
        omega

theorem putEach_of_none {ns : List VarName} (h : ∀ n ∈ ns, value n = none) : putEach value ns q = q := by
  induction ns with
  | nil => rfl
  | cons n ns ih =>
    unfold putEach
    rw [h n List.mem_cons_self]
    exact ih fun m hm => h m (List.mem_cons_of_mem _ hm)

/-- No variable has itself as its value. -/
theorem Ranked.text_ne (hr : Ranked value known rank) (hknown : known n) (hn : value n = some p) :
    p.text ≠ token n.text := by
  intro h
  have hvars := vars_text p
  rw [h, vars_token n.nonempty n.inside.2] at hvars
  have hmem : n ∈ p.names := by
    have : n.text ∈ p.names.map VarName.text := hvars ▸ List.mem_singleton_self _
    obtain ⟨m, hm, heq⟩ := List.mem_map.1 this
    exact VarName.text_injective heq ▸ hm
  exact absurd (hr.lower hknown hn hmem (hn ▸ rfl)) (Nat.lt_irrefl _)

section Passes

variable {σ : Type} {lookup : String → σ → Option String × σ} {P : σ → Prop} {w : σ}

/-- Replacing variables in a text is putting their values in the places of them. -/
theorem replaceEach_text (hr : Ranked value known rank) (hs : Steady lookup value known P) {ns : List VarName}
    (hns : ∀ n ∈ ns, known n) (changed : Bool) (hw : P w) :
    (replaceEach lookup (ns.map VarName.text) q.text changed w).1 =
        ((putEach value ns q).text, changed || ns.any fun n => (value n).isSome) ∧
      P (replaceEach lookup (ns.map VarName.text) q.text changed w).2 := by
  induction ns generalizing q changed w with
  | nil => exact ⟨by simp [replaceEach, putEach], hw⟩
  | cons n ns ih =>
    have hknown := hns n List.mem_cons_self
    have hns' : ∀ m ∈ ns, known m := fun m hm => hns m (List.mem_cons_of_mem _ hm)
    have hanswer := hs.answer hknown hw
    have hkeeps := hs.keeps hknown hw
    rcases hl : lookup n.text w with ⟨v, w'⟩
    rw [hl] at hanswer hkeeps
    rw [List.map_cons]
    unfold replaceEach putEach
    rw [hl, List.any_cons]
    obtain rfl : v = _ := hanswer
    cases hn : value n with
    | none => simpa using ih hns' changed hkeeps
    | some p =>
      simp only [Option.map_some, Option.isSome_some, Bool.true_or, Bool.or_true]
      rw [if_neg (hr.text_ne hknown hn), replaceAll_text]
      simpa using ih hns' true hkeeps

/-- With more passes than there are ranks to be replaced a text comes to its expansion. -/
theorem interpolatePasses_text (hr : Ranked value known rank) (hs : Steady lookup value known P)
    {passes r : Nat} (hlt : r < passes) (hq : Below value known rank r q) (hw : P w) :
    ∃ t, Expands value q t ∧ (interpolatePasses lookup passes q.text w).1 = .ok t ∧
      P (interpolatePasses lookup passes q.text w).2 := by
  induction passes generalizing q r w with
  | zero => cases hlt
  | succ passes ih =>
    obtain ⟨heq, hw'⟩ := replaceEach_text (q := q) hr hs (fun n hn => (hq n hn).1) false hw
    unfold interpolatePasses
    rw [vars_text]
    rcases hpass : replaceEach lookup (q.names.map VarName.text) q.text false w with ⟨⟨text, changed⟩, w'⟩
    rw [hpass] at heq hw'
    obtain ⟨rfl, rfl⟩ := Prod.mk.inj heq
    simp only [Bool.false_or]
    split_ifs with hany
    · obtain ⟨n, hn, hsome⟩ := List.any_eq_true.1 hany
      obtain ⟨r, rfl⟩ := Nat.exists_eq_succ_of_ne_zero (Nat.ne_of_gt (Nat.zero_lt_of_lt ((hq n hn).2 hsome)))
      obtain ⟨t, ht, hok, hP⟩ := ih (Nat.lt_of_succ_lt_succ hlt)
        (below_putEach hr hq fun m hm => ⟨(hq m hm).1, fun _ => .inl hm⟩) hw'
      exact ⟨t, ht.of_putEach, hok, hP⟩
    · have hnone : ∀ n ∈ q.names, value n = none := by
        intro n hn
        rw [← Option.not_isSome_iff_eq_none]
        exact fun hsome => hany (List.any_eq_true.2 ⟨n, hn, hsome⟩)
      rw [putEach_of_none hnone]
      exact ⟨_, .self hnone, rfl, hw'⟩

/-- A text without range blocks whose variables are of fifteen ranks comes to its expansion. -/
theorem evaluate_text (hr : Ranked value known rank) (hs : Steady lookup value known P)
    (hblocks : ¬['{', '{'] <:+: q.text.toList) (hq : Below value known rank 15 q) (hw : P w) :
    ∃ t, Expands value q t ∧ (evaluate lookup q.text w).1 = .ok t ∧ P (evaluate lookup q.text w).2 := by
  unfold evaluate
  rw [Range.expand_of_openings hblocks]
  exact interpolatePasses_text hr hs (by decide) hq hw

end Passes

end Expansion

end Expression

open Expression (VarName Phrase Piece Expands Ranked)

/-- A provider that is just asked where nodes are. -/
structure Provider.Consulted {σ : Type} (p : Provider σ) : Prop where
  host : ∀ node w, (p.host node w).2 = w ∧ (p.host node w).1.broken = false
  rest : ∀ node w, (p.rest node w).2 = w ∧ (p.rest node w).1.broken = false

/-- A provider that tells of every node the same address in all worlds of a kind, and leaves it at that. -/
structure Provider.Locates {σ : Type} (p : Provider σ) (hosts rests : String → Option String)
    (I : σ → Prop) : Prop where
  host : ∀ {node w}, I w → (p.host node w).1.result.toOption = hosts node ∧
    (p.host node w).1.broken = false ∧ I (p.host node w).2
  rest : ∀ {node w}, I w → (p.rest node w).1.result.toOption = rests node ∧
    (p.rest node w).1.broken = false ∧ I (p.rest node w).2

/-- Where a provider is just asked, the addresses are those of the world there is. -/
theorem Provider.Consulted.locates {σ : Type} {p : Provider σ} (hp : p.Consulted) (w : σ) :
    p.Locates (fun node => (p.host node w).1.result.toOption) (fun node => (p.rest node w).1.result.toOption)
      (· = w) := by
  constructor
  · rintro node w rfl
    exact ⟨rfl, (hp.host node w).2, (hp.host node w).1⟩
  · rintro node w rfl
    exact ⟨rfl, (hp.rest node w).2, (hp.rest node w).1⟩

namespace Scope

variable {σ : Type} (env : Environment σ)

/-- What is answered for variables that are asked for one after the other. -/
def inquire : List VarName → Scope σ → List (Option String) × Scope σ
  | [], s => ([], s)
  | n :: ns, s =>
    let (v, s) := s.lookup env n.text
    let (vs, s) := inquire ns s
    (v :: vs, s)

/-- Names have fixed values in a scope: whichever of them are asked for one after the other, and however
often, each answer is the value, and nothing is asked for that cannot be done. -/
def Tells (value : VarName → Option Phrase) (known : VarName → Prop) (s : Scope σ) : Prop :=
  ∀ asked : List VarName, (∀ n ∈ asked, known n) →
    (s.inquire env asked).1 = asked.map (fun n => (value n).map Phrase.text) ∧
      (s.inquire env asked).2.broken = s.broken

variable {env} {value : VarName → Option Phrase} {known : VarName → Prop} {rank : VarName → Nat}
  {s : Scope σ} {q : Phrase}

theorem steady_of_tells (env : Environment σ) (value : VarName → Option Phrase) (known : VarName → Prop)
    (b : Bool) : Expression.Steady (lookup env) value known
      fun s => s.Tells env value known ∧ s.broken = b := by
  have hfirst : ∀ {n : VarName} {s : Scope σ}, known n → s.Tells env value known →
      (s.lookup env n.text).1 = (value n).map Phrase.text ∧
        (s.lookup env n.text).2.broken = s.broken := by
    intro n s hn hs
    obtain ⟨hanswer, hb⟩ := hs [n] fun m hm => List.mem_singleton.1 hm ▸ hn
    exact ⟨(List.cons.inj hanswer).1, hb⟩
  refine ⟨fun hn hs => (hfirst hn hs.1).1, fun {n s} hn hs => ⟨fun asked hasked => ?_, ?_⟩⟩
  · obtain ⟨hanswer, hb⟩ := hs.1 (n :: asked) (List.forall_mem_cons.2 ⟨hn, hasked⟩)
    exact ⟨(List.cons.inj hanswer).2, hb.trans (hfirst hn hs.1).2.symm⟩
  · exact (hfirst hn hs.1).2.trans hs.2

/-- An expression comes to its full expansion wherever names have fixed values and are of fifteen ranks. -/
theorem evaluate_expands (htells : s.Tells env value known) (hranked : Ranked value known rank)
    (hbound : ∀ n, known n → (value n).isSome → rank n ≤ 14) (hknown : ∀ n ∈ q.names, known n)
    (hblocks : ¬['{', '{'] <:+: q.text.toList) :
    ∃ t, (∀ u, Expands value q u ↔ u = t) ∧ (s.evaluate env q.text).1 = .ok t ∧
      (s.evaluate env q.text).2.broken = s.broken := by
  have hbelow : Expression.Below value known rank 15 q := fun n hn =>
    ⟨hknown n hn, fun hsome => Nat.lt_succ_of_le (hbound n (hknown n hn) hsome)⟩
  obtain ⟨t, ht, hok, -, hb⟩ := Expression.evaluate_text hranked
    (steady_of_tells env value known s.broken) hblocks hbelow ⟨htells, rfl⟩
  refine ⟨t, fun u => ⟨fun hu => hu.unique ht, ?_⟩, ?_⟩
  · rintro rfl
    exact ht
  · rcases he : Expression.evaluate (lookup env) q.text s with ⟨r, s'⟩
    rw [he] at hok hb
    obtain rfl : r = .ok t := hok
    unfold evaluate
    rw [he]
    exact ⟨rfl, hb⟩

/-! ### Names that are just looked up -/

/-- Whether a variable asks for the status of a container. -/
def IsStatus (name : String) : Prop := (Text.cut? ":" name).map (fun r => Text.trimmed r.1) = some "status"

instance : DecidablePred IsStatus := fun _ => inferInstanceAs (Decidable (_ = _))

/-- Whether a variable asks for nodes that cannot be listed. -/
def lacks (s : Scope σ) (name : String) : Bool := name == "nodes" && s.topology.nodeNames?.isNone

/-- Looking up what is not a status leads to a world of the same kind. -/
theorem lookup_located {hosts rests : String → Option String} {I : σ → Prop} {name : String}
    (hp : env.provider.Locates hosts rests I) (hs : I s.world) (hname : ¬IsStatus name) :
    I (s.lookup env name).2.world ∧ (s.lookup env name).2.broken = (s.broken || s.lacks name) := by
  have hasked : ∀ c : Call σ ProviderFault String, (c s.world).1.broken = false ∧ I (c s.world).2 →
      name ≠ "nodes" → I (s.ask c).2.world ∧ (s.ask c).2.broken = (s.broken || s.lacks name) := by
    intro c hc hname
    refine ⟨hc.2, ?_⟩
    show (s.broken || (c s.world).1.broken) = _
    simp [hc.1, lacks, hname]
  unfold lookup
  split_ifs with hloop hnodes
  · exact ⟨hs, by simp [lacks, hloop]⟩
  · cases hn : s.topology.nodeNames? with
    | some names => exact ⟨hs, by simp [lacks, hn]⟩
    | none => exact ⟨hs, by simp [lacks, hn, hnodes, break_]⟩
  · cases hcut : Text.cut? ":" name with
    | none => exact ⟨hs, by simp [lacks, hnodes]⟩
    | some r =>
      simp only []
      unfold lookupCall
      split
      · rename_i hfunction
        exact absurd (by rw [IsStatus, hcut, Option.map_some, hfunction]) hname
      · exact hasked _ (hp.host hs).2 hnodes
      · exact hasked _ (hp.rest hs).2 hnodes
      · exact ⟨hs, by simp [lacks, hnodes]⟩
      · exact ⟨hs, by simp [lacks, hnodes]⟩

/-- Looking a variable up changes nothing but what was noted, if the provider is just consulted, unless it
is the status of a container, or the nodes where these cannot be listed. -/
theorem lookup_consulted (hp : env.provider.Consulted) {name : String}
    (hstatus : (Text.cut? ":" name).map (fun r => Text.trimmed r.1) ≠ some "status")
    (hnodes : name = "nodes" → s.topology.nodeNames?.isSome) :
    s.Alike (s.lookup env name).2 ∧ (s.lookup env name).2.broken = s.broken := by
  obtain ⟨hworld, hbroken⟩ := lookup_located (hp.locates s.world) rfl hstatus
  have hlacks : s.lacks name = false := by simpa [lacks] using hnodes
  exact ⟨⟨hworld.symm, rests_lookup env name s⟩, by rw [hbroken, hlacks, Bool.or_false]⟩

/-- Names have the values that they have when they are looked up in a scope whose provider is just
consulted. -/
theorem tells_of_consulted (hp : env.provider.Consulted)
    (hvalue : ∀ n, known n → (s.lookup env n.text).1 = (value n).map Phrase.text)
    (hstatus : ∀ n, known n → (Text.cut? ":" n.text).map (fun r => Text.trimmed r.1) ≠ some "status")
    (hnodes : ∀ n, known n → n.text = "nodes" → s.topology.nodeNames?.isSome) :
    s.Tells env value known := by
  have halike : ∀ asked : List VarName, (∀ n ∈ asked, known n) → ∀ s' : Scope σ, s.Alike s' →
      (s'.inquire env asked).1 = asked.map (fun n => (value n).map Phrase.text) ∧
        (s'.inquire env asked).2.broken = s'.broken := by
    intro asked
    induction asked with
    | nil => exact fun _ _ _ => ⟨rfl, rfl⟩
    | cons n asked ih =>
      intro hasked s' hs
      obtain ⟨hn, hasked⟩ := List.forall_mem_cons.1 hasked
      have hlookup := lookup_consulted (s := s') hp (hstatus n hn) (hs.rests.topology ▸ hnodes n hn)
      obtain ⟨hanswers, hb⟩ := ih hasked _ (hs.trans hlookup.1)
      have hanswer := (sideBySide_lookup env n.text s s' hs).1.symm.trans (hvalue n hn)
      exact ⟨congrArg₂ List.cons hanswer hanswers, hb.trans hlookup.2⟩
  exact fun asked hasked => halike asked hasked s (.refl s)

end Scope

namespace Provider

/-- Addresses that are known beforehand are just looked up. -/
theorem ofSpec_consulted {ρ : Type} (spec : ProviderSpec) : (ofSpec spec : Provider (World ρ)).Consulted := by
  have hrecorded : ∀ (node : String) (w : World ρ),
      (recorded node w).2 = w ∧ (recorded node w).1.broken = false := by
    intro node w
    unfold recorded
    split <;> exact ⟨rfl, rfl⟩
  cases spec <;> exact ⟨hrecorded, hrecorded⟩

end Provider

/-! ### Names within names -/

namespace Expression

def VarName.loop : VarName := ⟨"loop", by decide, by decide⟩
def VarName.db : VarName := ⟨"db", by decide, by decide⟩
def VarName.team : VarName := ⟨"team", by decide, by decide⟩
def VarName.user : VarName := ⟨"USER", by decide, by decide⟩
def VarName.host : VarName := ⟨"host:db1", by decide, by decide⟩
def VarName.gone : VarName := ⟨"gone", by decide, by decide⟩

/-- An alias that names the pass, and an environment variable that names another alias. -/
def nestedValue (n : VarName) : Option Phrase :=
  if n = .loop then some [.literal "2" (by decide)]
  else if n = .db then some [.literal "mock-" (by decide), .named .loop]
  else if n = .team then some [.literal "ops" (by decide)]
  else if n = .user then some [.literal "ci-" (by decide), .named .team]
  else if n = .host then some [.literal "10.0.0.1:9000" (by decide)]
  else none

def nestedNames : List VarName := [.loop, .db, .team, .user, .host, .gone]

def nestedRank (n : VarName) : Nat := if n = .db ∨ n = .user then 1 else 0

def nestedPhrase : Phrase :=
  [.literal "ping " (by decide), .named .host, .literal " as " (by decide), .named .user,
    .literal ", " (by decide), .named .gone, .literal " " (by decide), .named .db]

end Expression

def nestedScope : Scope (World Rehearsal) :=
  { world := { containers := {}, addresses := [("db1", "10.0.0.1:9000")] }
    aliases := [("db", "mock-$\x7bloop\x7d"), ("team", "ops")]
    loops := 2 }

def nestedEnvironment : Environment (World Rehearsal) :=
  Rehearsal.environment (Provider.dev "10.0.0.1") fun name =>
    if name = "USER" then some "ci-$\x7bteam\x7d" else none

open Expression in
/-- Values that name variables are expanded in turn, and a variable without a value stays. -/
theorem evaluate_expands_nested :
    nestedScope.Tells nestedEnvironment nestedValue (· ∈ nestedNames) ∧
      Ranked nestedValue (· ∈ nestedNames) nestedRank ∧
      nestedPhrase.text = "ping $\x7bhost:db1\x7d as $\x7bUSER\x7d, $\x7bgone\x7d $\x7bdb\x7d" ∧
      ¬['{', '{'] <:+: nestedPhrase.text.toList ∧
      (nestedScope.evaluate nestedEnvironment nestedPhrase.text).1 =
        .ok "ping 10.0.0.1:9000 as ci-ops, $\x7bgone\x7d mock-2" := by
  have htells : nestedScope.Tells nestedEnvironment nestedValue (· ∈ nestedNames) :=
    Scope.tells_of_consulted (Provider.ofSpec_consulted (.dev "10.0.0.1")) (by decide +kernel)
      (by decide +kernel) (by decide +kernel)
  have hnames : ∀ n ∈ nestedNames, ∀ m ∈ (nestedValue n).elim [] Phrase.names,
      m ∈ nestedNames ∧ ((nestedValue m).isSome → nestedRank m < nestedRank n) := by
    decide +kernel
  have hranked : Ranked nestedValue (· ∈ nestedNames) nestedRank :=
    ⟨fun hn hp hm => (hnames _ hn _ (by rwa [hp])).1, fun hn hp hm => (hnames _ hn _ (by rwa [hp])).2⟩
  have hblocks : ¬['{', '{'] <:+: nestedPhrase.text.toList := by decide +kernel
  refine ⟨htells, hranked, by decide +kernel, hblocks, ?_⟩
  obtain ⟨t, hiff, hok, -⟩ := Scope.evaluate_expands (q := nestedPhrase) htells hranked (by decide +kernel)
    (by decide +kernel) hblocks
  have ht := (hiff _).1 (.literal (.replaced rfl (.literal .nil) (.literal (.replaced rfl
    (.literal (.replaced rfl (.literal .nil) .nil)) (.literal (.kept rfl (.literal (.replaced rfl
      (.literal (.replaced rfl (.literal .nil) .nil)) .nil))))))))
  rw [hok, ← ht]
  decide +kernel

end Workload

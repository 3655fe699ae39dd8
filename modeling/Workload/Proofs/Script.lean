import Mathlib.Algebra.GroupWithZero.Nat
import Mathlib.Tactic.SplitIfs
import Workload.Run.Resolve

/-!
# Scripts

What a run does with a chain of documents, each of which has one directive that runs the next one: pass
after pass, and in each pass all the passes of the next document.  So everything is done once more for
each pass of every document further up (`countP_reclaimed`, `countP_dispatched`).
-/

namespace Workload

/-- Whether an action runs another document. -/
def Action.isTest (a : Action) : Bool :=
  match a.directive with
  | .test _ => true
  | _ => false

namespace Run

/-- What is done with a document of a chain, which is named by its depth. -/
inductive Entry where
  /-- An action is dispatched that has so many others after it. -/
  | dispatched (depth pass left : Nat) (a : Action)
  /-- A pass is over, and its containers are reclaimed. -/
  | reclaimed (depth pass : Nat)
  deriving DecidableEq

namespace Entry

def depth : Entry → Nat
  | dispatched depth .. | reclaimed depth _ => depth

/-- Whether the containers of a pass of a document are reclaimed. -/
def reclaims (depth : Nat) : Entry → Bool
  | reclaimed depth' _ => depth' = depth
  | dispatched .. => false

/-- Whether the action of a document is dispatched that has so many others after it. -/
def dispatches (depth left : Nat) : Entry → Bool
  | dispatched depth' _ left' _ => depth' = depth && left' = left
  | reclaimed .. => false

end Entry

/-- The entries of a list of actions, of which a test directive has those given. -/
def listScript (depth pass : Nat) (nested : List Entry) : Option Action → List Action → List Entry
  | _, [] => []
  | last, a :: rest =>
    if a.isTest then nested ++ listScript depth pass nested last rest
    else .dispatched depth pass rest.length (a.carryForward last) ::
      listScript depth pass nested (some (a.carryForward last)) rest

/-- The entries of a pass of the first of the documents, the last of `last + 1` passes being number
`last`. -/
def passScript (last : Nat) : (depth : Nat) → List (List Action) → (pass : Nat) → List Entry
  | _, [], _ => []
  | depth, d :: docs, pass =>
    listScript depth pass ((List.range (last + 1)).flatMap (passScript last (depth + 1) docs)) none d ++
      [.reclaimed depth pass]

/-- The entries of the passes of the first of the documents from one number on. -/
def scriptFrom (last depth : Nat) (docs : List (List Action)) (pass : Nat) : List Entry :=
  (List.range' pass (last + 1 - pass)).flatMap (passScript last depth docs)

/-- The entries of all passes of the first of the documents. -/
def script (last depth : Nat) (docs : List (List Action)) : List Entry := scriptFrom last depth docs 0

section

variable {last depth pass : Nat} {docs : List (List Action)} {nested : List Entry}

theorem script_eq :
    script last depth docs = (List.range (last + 1)).flatMap (passScript last depth docs) := by
  unfold script scriptFrom
  rw [List.range_eq_range', Nat.sub_zero]

theorem passScript_cons (d : List Action) : passScript last depth (d :: docs) pass =
    listScript depth pass (script last (depth + 1) docs) none d ++ [.reclaimed depth pass] := by
  rw [script_eq]
  rfl

/-! ## Steps

The thread that carries the run out takes steps without an entry as well. -/

/-- The steps for a list of actions, of which a test directive has those given. -/
def listSteps (depth pass : Nat) (nested : List (Option Entry)) :
    Option Action → List Action → List (Option Entry)
  | _, [] => [none]
  | last, a :: rest =>
    none :: if a.isTest then nested ++ listSteps depth pass nested last rest
      else some (.dispatched depth pass rest.length (a.carryForward last)) ::
        listSteps depth pass nested (some (a.carryForward last)) rest

/-- The steps for a pass of the first of the documents, where a nested test opens with so many calls. -/
def passSteps (calls last : Nat) : (depth : Nat) → List (List Action) → (pass : Nat) →
    List (Option Entry)
  | _, [], _ => []
  | depth, d :: docs, pass =>
    none :: none ::
      (listSteps depth pass
        (List.replicate (calls + 1) none ++
          (List.range (last + 1)).flatMap (passSteps calls last (depth + 1) docs) ++ [none, none, none])
        none d ++ [some (.reclaimed depth pass)])

/-- The steps for the passes of the first of the documents from one number on. -/
def stepsFrom (calls last depth : Nat) (docs : List (List Action)) (pass : Nat) : List (Option Entry) :=
  (List.range' pass (last + 1 - pass)).flatMap (passSteps calls last depth docs)

/-- The steps for a nested test of the first of the documents. -/
def testSteps (calls last depth : Nat) (docs : List (List Action)) : List (Option Entry) :=
  List.replicate (calls + 1) none ++ stepsFrom calls last depth docs 0 ++ [none, none, none]

theorem passSteps_cons {calls : Nat} (d : List Action) : passSteps calls last depth (d :: docs) pass =
    none :: none :: (listSteps depth pass (testSteps calls last (depth + 1) docs) none d ++
      [some (.reclaimed depth pass)]) := by
  unfold testSteps stepsFrom
  rw [Nat.sub_zero, ← List.range_eq_range']
  rfl

theorem stepsFrom_of_le {calls : Nat} (h : pass ≤ last) : stepsFrom calls last depth docs pass =
    passSteps calls last depth docs pass ++ stepsFrom calls last depth docs (pass + 1) := by
  unfold stepsFrom
  rw [show last + 1 - pass = (last + 1 - (pass + 1)) + 1 by omega, List.range'_succ, List.flatMap_cons]

theorem stepsFrom_of_lt {calls : Nat} (h : last < pass) : stepsFrom calls last depth docs pass = [] := by
  unfold stepsFrom
  rw [show last + 1 - pass = 0 by omega]
  rfl

theorem entries_silent (n : Nat) : (List.replicate n (none : Option Entry)).filterMap id = [] := by
  induction n with
  | zero => rfl
  | succ n ih => rw [List.replicate_succ, List.filterMap_cons_none rfl, ih]

/-- The entries of the steps for a list are those of the list. -/
theorem entries_listSteps {steps : List (Option Entry)} (hn : steps.filterMap id = nested) :
    ∀ (last : Option Action) (rest : List Action),
      (listSteps depth pass steps last rest).filterMap id = listScript depth pass nested last rest
  | _, [] => rfl
  | last, a :: rest => by
    unfold listSteps listScript
    rw [List.filterMap_cons_none rfl]
    split_ifs
    · rw [List.filterMap_append, hn, entries_listSteps hn last rest]
    · rw [List.filterMap_cons_some (f := id) rfl, entries_listSteps hn _ rest]

theorem entries_passSteps {calls : Nat} : ∀ (docs : List (List Action)) (depth pass : Nat),
    (passSteps calls last depth docs pass).filterMap id = passScript last depth docs pass
  | [], _, _ => rfl
  | d :: docs, depth, pass => by
    have hnested : (testSteps calls last (depth + 1) docs).filterMap id = script last (depth + 1) docs := by
      unfold testSteps stepsFrom
      rw [List.filterMap_append, List.filterMap_append, entries_silent, List.filterMap_flatMap, script_eq,
        Nat.sub_zero, ← List.range_eq_range']
      simp only [entries_passSteps docs]
      simp
    rw [passSteps_cons, passScript_cons, List.filterMap_cons_none rfl, List.filterMap_cons_none rfl,
      List.filterMap_append, entries_listSteps hnested]
    rfl

theorem entries_stepsFrom {calls : Nat} :
    (stepsFrom calls last depth docs pass).filterMap id = scriptFrom last depth docs pass := by
  unfold stepsFrom scriptFrom
  rw [List.filterMap_flatMap]
  simp only [entries_passSteps]

/-! ## Depths -/

theorem le_depth_of_mem_list (hn : ∀ e ∈ nested, depth ≤ e.depth) :
    ∀ (last : Option Action) (rest : List Action), ∀ e ∈ listScript depth pass nested last rest,
      depth ≤ e.depth
  | _, [], e, he => nomatch he
  | last, a :: rest, e, he => by
    unfold listScript at he
    split_ifs at he
    · rcases List.mem_append.1 he with he | he
      · exact hn e he
      · exact le_depth_of_mem_list hn last rest e he
    · rcases List.mem_cons.1 he with rfl | he
      · exact Nat.le_refl depth
      · exact le_depth_of_mem_list hn _ rest e he

theorem le_depth_of_mem : ∀ (docs : List (List Action)) (depth : Nat),
    ∀ e ∈ script last depth docs, depth ≤ e.depth
  | [], depth, e, he => by
    rw [script_eq] at he
    obtain ⟨pass, -, he⟩ := List.mem_flatMap.1 he
    cases he
  | d :: docs, depth, e, he => by
    rw [script_eq] at he
    obtain ⟨pass, -, he⟩ := List.mem_flatMap.1 he
    rw [passScript_cons] at he
    rcases List.mem_append.1 he with he | he
    · refine le_depth_of_mem_list (fun e he => ?_) none d e he
      exact Nat.le_of_succ_le (le_depth_of_mem docs (depth + 1) e he)
    · obtain rfl := List.mem_singleton.1 he
      exact Nat.le_refl depth

/-! ## Counts -/

theorem countP_script (p : Entry → Bool) {n : Nat}
    (h : ∀ pass, (passScript last depth docs pass).countP p = n) :
    (script last depth docs).countP p = (last + 1) * n := by
  rw [script_eq, List.countP_flatMap]
  have hmap : (List.range (last + 1)).map (List.countP p ∘ passScript last depth docs) =
      List.replicate (last + 1) n := by
    refine List.eq_replicate_iff.2 ⟨by simp, fun x hx => ?_⟩
    obtain ⟨pass, -, rfl⟩ := List.mem_map.1 hx
    exact h pass
  rw [hmap, List.sum_replicate_nat]

/-- What is never an entry of the list itself is one of the documents further down. -/
theorem countP_list {p : Entry → Bool} (hp : ∀ left a, p (.dispatched depth pass left a) = false) :
    ∀ (last : Option Action) (rest : List Action),
      (listScript depth pass nested last rest).countP p = rest.countP Action.isTest * nested.countP p
  | _, [] => by simp [listScript]
  | last, a :: rest => by
    unfold listScript
    split_ifs with ha
    · rw [List.countP_append, countP_list hp last rest, List.countP_cons, if_pos ha, Nat.succ_mul,
        Nat.add_comm]
    · rw [List.countP_cons, countP_list hp _ rest, List.countP_cons, if_neg ha, if_neg (by simp [hp])]
      rfl

theorem countP_list_of_le {left : Nat} (hn : nested.countP (Entry.dispatches depth left) = 0) :
    ∀ (last : Option Action) (rest : List Action), rest.length ≤ left →
      (listScript depth pass nested last rest).countP (Entry.dispatches depth left) = 0
  | _, [], _ => rfl
  | last, a :: rest, hle => by
    have hrest : rest.length < left := hle
    unfold listScript
    split_ifs
    · rw [List.countP_append, hn, countP_list_of_le hn last rest (Nat.le_of_lt hrest)]
    · rw [List.countP_cons, countP_list_of_le hn _ rest (Nat.le_of_lt hrest)]
      simp [Entry.dispatches, Nat.ne_of_lt hrest]

/-- A plain action of a list is dispatched once. -/
theorem countP_list_self {a : Action} {post : List Action} (ha : a.isTest = false)
    (hn : nested.countP (Entry.dispatches depth post.length) = 0) :
    ∀ (last : Option Action) (pre : List Action),
      (listScript depth pass nested last (pre ++ a :: post)).countP
        (Entry.dispatches depth post.length) = 1
  | last, [] => by
    rw [List.nil_append]
    unfold listScript
    rw [if_neg (by rw [ha]; exact Bool.false_ne_true), List.countP_cons,
      countP_list_of_le hn _ post (Nat.le_refl _)]
    simp [Entry.dispatches]
  | last, b :: pre => by
    rw [List.cons_append]
    unfold listScript
    split_ifs
    · rw [List.countP_append, hn, countP_list_self ha hn last pre]
    · rw [List.countP_cons, countP_list_self ha hn _ pre]
      have hne : pre.length + (post.length + 1) ≠ post.length := by omega
      simp [Entry.dispatches, hne]

end

/-- The documents of a chain: each has plain actions and one directive that runs the next document, the
last one has plain actions only. -/
structure Chain (docs : List (List Action)) : Prop where
  directives : ∀ d ∈ docs, ∀ a ∈ d, a.directive = .plain ∨ ∃ path, a.directive = .test path
  once : ∀ d ds, d :: ds <:+ docs → d.countP Action.isTest = if ds = [] then 0 else 1

section

variable {last : Nat}

theorem Chain.tail {d : List Action} {docs : List (List Action)} (h : Chain (d :: docs)) : Chain docs :=
  ⟨fun d' hd' => h.directives d' (List.mem_cons_of_mem d hd'),
    fun d' ds hds => h.once d' ds (hds.trans (List.suffix_cons d docs))⟩

/-- What the first document never does itself is done in each pass of it as often as in its test. -/
theorem countP_passScript {p : Entry → Bool} {depth pass : Nat} {d d' : List Action}
    {docs : List (List Action)} (hc : Chain (d :: d' :: docs))
    (hp : ∀ e : Entry, e.depth = depth → p e = false) :
    (passScript last depth (d :: d' :: docs) pass).countP p =
      (script last (depth + 1) (d' :: docs)).countP p := by
  rw [passScript_cons, List.countP_append, countP_list fun left a => hp _ rfl,
    hc.once d _ List.suffix_rfl]
  simp [hp (.reclaimed depth pass) rfl]

/-- What a pass of a document does once, all of them do as often as it has passes, for each pass of every
document further up. -/
theorem countP_script_pow {p : Entry → Bool} {n : Nat} (hp : ∀ e, p e = true → e.depth = n) :
    ∀ (i depth : Nat) (docs : List (List Action)), n = depth + i → Chain docs →
      (∀ d ds pass, d :: ds = docs.drop i → (passScript last n (d :: ds) pass).countP p = 1) →
      i < docs.length → (script last depth docs).countP p = (last + 1) ^ (i + 1)
  | 0, depth, d :: docs, hn, _, hone, _ => by
    obtain rfl : n = depth := hn
    rw [countP_script p (hone d docs · rfl)]
    simp
  | i + 1, depth, [d], _, _, _, hi => by simp at hi
  | i + 1, depth, d :: d' :: docs, hn, hc, hone, hi => by
    have ih := countP_script_pow hp i (depth + 1) (d' :: docs) (by omega) hc.tail hone
      (Nat.lt_of_succ_lt_succ hi)
    have hother : ∀ e : Entry, e.depth = depth → p e = false := fun e he => by
      cases h : p e with
      | false => rfl
      | true =>
        have := hp e h
        omega
    rw [countP_script p fun pass => countP_passScript hc hother, ih, Nat.pow_succ' (n := i + 1)]

theorem countP_nested {depth : Nat} {p : Entry → Bool} (hp : ∀ e, p e = true → e.depth = depth)
    (docs : List (List Action)) : (script last (depth + 1) docs).countP p = 0 := by
  refine List.countP_eq_zero.2 fun e he hpe => ?_
  have := le_depth_of_mem docs (depth + 1) e he
  have := hp e hpe
  omega

theorem depth_of_reclaims {depth : Nat} {e : Entry} (h : e.reclaims depth = true) : e.depth = depth := by
  cases e with
  | reclaimed depth' pass => exact of_decide_eq_true h
  | dispatched => cases h

theorem depth_of_dispatches {depth left : Nat} {e : Entry} (h : e.dispatches depth left = true) :
    e.depth = depth := by
  cases e with
  | reclaimed => cases h
  | dispatched depth' pass left' a => exact of_decide_eq_true (Bool.and_eq_true _ _ ▸ h).1

/-- The passes of a document end as often as all the documents above it have passes, and itself. -/
theorem countP_reclaimed {docs : List (List Action)} (hc : Chain docs) {i : Nat} (hi : i < docs.length) :
    (script last 0 docs).countP (Entry.reclaims i) = (last + 1) ^ (i + 1) := by
  refine countP_script_pow (fun _ => depth_of_reclaims) i 0 docs (Nat.zero_add i).symm hc ?_ hi
  intro d ds pass _
  rw [passScript_cons, List.countP_append, countP_list fun _ _ => rfl,
    countP_nested fun _ => depth_of_reclaims]
  simp [Entry.reclaims]

/-- So often is each of its plain actions dispatched. -/
theorem countP_dispatched {docs : List (List Action)} (hc : Chain docs) {i : Nat} {a : Action}
    {pre post : List Action} (hd : docs[i]? = some (pre ++ a :: post)) (ha : a.isTest = false) :
    (script last 0 docs).countP (Entry.dispatches i post.length) = (last + 1) ^ (i + 1) := by
  obtain ⟨hi, hget⟩ := List.getElem?_eq_some_iff.1 hd
  refine countP_script_pow (fun _ => depth_of_dispatches) i 0 docs (Nat.zero_add i).symm hc ?_ hi
  intro d ds pass hds
  rw [List.drop_eq_getElem_cons hi, hget] at hds
  obtain ⟨rfl, -⟩ := List.cons.inj hds
  rw [passScript_cons, List.countP_append,
    countP_list_self ha (countP_nested (fun _ => depth_of_dispatches) ds)]
  simp [Entry.dispatches]

end

end Run

end Workload

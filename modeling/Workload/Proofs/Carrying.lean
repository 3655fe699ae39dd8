import Workload.Proofs.Inheritance
import Workload.Proofs.Polling
import Workload.Proofs.Twins

/-!
# What plain actions take over

A plain action without an image takes over what the plain action before it was dispatched with, and that may
have taken it over, too.  So every plain action goes back to one that names its image, and takes the last text
given since then (`Carried`), whatever else stands between them.  While a list of actions is resolved its plain
actions are dispatched so, each once and in order (`dispatches_carried`): what the other actions stand for, and
plain actions that are skipped, do not come into it.
-/

namespace Workload

/-! ## The rule -/

section Rule

/-- Whether an action is plain. -/
def Action.isPlain (a : Action) : Bool := a.directive = .plain

/-- The last of some texts that is not empty, if any is. -/
def lastText (texts : List String) : String := firstSet "" texts.reverse

/-- Whether a plain action stands at a position. -/
def plainAt (actions : List Action) (n : Nat) : Bool := (actions[n]?).any Action.isPlain

/-- The positions of the plain actions. -/
def plainPositions (actions : List Action) : List Nat := (List.range actions.length).filter (plainAt actions)

/-- The plain actions from position `j` on, of the first `n` actions. -/
def plainFrom (actions : List Action) (j n : Nat) : List Action := ((actions.take n).drop j).filter Action.isPlain

/-- Of the first `n` actions the last plain one that names an image is at position `j`, or the first plain one
if none of them does. -/
structure IsAnchor (actions : List Action) (n j : Nat) (anchor : Action) : Prop where
  found : actions[j]? = some anchor
  plain : anchor.isPlain = true
  lt : j < n
  named : anchor.image ≠ "" ∨ ∀ p < j, plainAt actions p = false
  last : ∀ p, j < p → p < n → ∀ a, actions[p]? = some a → a.isPlain = true → a.image = ""

/-- An action with what it takes over from the plain actions since the one that it goes back to. -/
def Action.carrying (a anchor : Action) (since : List Action) : Action :=
  { a with
    image := anchor.image
    requires := lastText (since.map Action.requires)
    duration := lastText (since.map Action.duration)
    concurrency := lastText (since.map Action.concurrency) }

/-- What the plain action at position `n` is dispatched as. -/
def Carried (actions : List Action) (n : Nat) (d : Action) : Prop :=
  ∃ a j anchor, actions[n]? = some a ∧ a.isPlain = true ∧ IsAnchor actions (n + 1) j anchor ∧
    d = a.carrying anchor (plainFrom actions j (n + 1))

theorem Action.isPlain_iff {a : Action} : a.isPlain = true ↔ a.directive = .plain := decide_eq_true_iff

theorem lastText_singleton (x : String) : lastText [x] = x := firstSet_singleton x

theorem lastText_concat (texts : List String) (x : String) :
    lastText (texts ++ [x]) = orText x (lastText texts) := by
  unfold lastText
  rw [List.reverse_append, List.reverse_singleton, List.singleton_append, firstSet_cons, orText_eq_firstSet,
    firstSet_cons, firstSet_singleton]

theorem Action.carryForward_of_image {a : Action} (h : a.image ≠ "") (last : Option Action) :
    a.carryForward last = a := by
  cases last with
  | none => rfl
  | some d => exact if_neg (mt String.isEmpty_iff.1 h)

theorem Action.carryForward_of_empty {a : Action} (h : a.image = "") (d : Action) :
    a.carryForward (some d) =
      { a with
        image := d.image
        requires := orText a.requires d.requires
        duration := orText a.duration d.duration
        concurrency := orText a.concurrency d.concurrency } :=
  if_pos (String.isEmpty_iff.2 h)

end Rule

/-! ## The latest plain action -/

section Latest

variable {actions : List Action} {n j : Nat} {a anchor d : Action} {last : Option Action}

theorem plainAt_of_getElem? (ha : actions[n]? = some a) : plainAt actions n = a.isPlain := by
  unfold plainAt
  rw [ha, Option.any_some]

theorem plainFrom_succ (ha : actions[n]? = some a) (hj : j ≤ n) :
    plainFrom actions j (n + 1) = plainFrom actions j n ++ if a.isPlain then [a] else [] := by
  have hlen : n < actions.length := (List.getElem?_eq_some_iff.1 ha).1
  have hle : j ≤ (actions.take n).length := by
    rw [List.length_take]
    omega
  unfold plainFrom
  rw [List.take_add_one, ha, Option.toList_some, List.drop_append_of_le_length hle, List.filter_append,
    List.filter_singleton, cond_eq_ite]

theorem plainFrom_self : plainFrom actions n n = [] := by
  unfold plainFrom
  rw [List.drop_eq_nil_of_le (List.length_take_le n actions), List.filter_nil]

/-- An action that is not plain, or names no image, changes nothing about where later ones go back to. -/
theorem IsAnchor.succ (h : IsAnchor actions n j anchor) (ha : actions[n]? = some a)
    (hno : a.isPlain = true → a.image = "") : IsAnchor actions (n + 1) j anchor := by
  refine ⟨h.found, h.plain, Nat.lt_succ_of_lt h.lt, h.named, fun p hj hlt b hb hplain => ?_⟩
  rcases Nat.lt_succ_iff_lt_or_eq.1 hlt with hlt | rfl
  · exact h.last p hj hlt b hb hplain
  · obtain rfl := Option.some.inj (ha.symm.trans hb)
    exact hno hplain

/-- What the latest plain action of the first `n` was dispatched with, if there is one. -/
def Latest (actions : List Action) (n : Nat) : Option Action → Prop
  | none => ∀ p < n, plainAt actions p = false
  | some d => ∃ a j anchor, IsAnchor actions n j anchor ∧ d = Action.carrying a anchor (plainFrom actions j n)

theorem latest_zero : Latest actions 0 none := fun _ hp => nomatch hp

/-- An action that is not plain leaves the latest one as it is. -/
theorem Latest.skip (h : Latest actions n last) (ha : actions[n]? = some a) (hp : a.isPlain = false) :
    Latest actions (n + 1) last := by
  cases last with
  | none =>
    intro p hlt
    rcases Nat.lt_succ_iff_lt_or_eq.1 hlt with hlt | rfl
    · exact h p hlt
    · rw [plainAt_of_getElem? ha, hp]
  | some d =>
    obtain ⟨b, j, anchor, hanchor, hd⟩ := h
    refine ⟨b, j, anchor, hanchor.succ ha fun hplain => absurd hplain (by rw [hp]; exact Bool.false_ne_true), ?_⟩
    rw [plainFrom_succ ha (Nat.le_of_lt hanchor.lt), hp, if_neg Bool.false_ne_true, List.append_nil]
    exact hd

/-- An action that goes back to no other one is dispatched as it stands. -/
theorem carried_self (ha : actions[n]? = some a) (hp : a.isPlain = true)
    (hnamed : a.image ≠ "" ∨ ∀ p < n, plainAt actions p = false) : Carried actions n a := by
  refine ⟨a, n, a, ha, hp, ⟨ha, hp, Nat.lt_succ_self n, hnamed, fun p hn hlt => by omega⟩, ?_⟩
  have hsince : plainFrom actions n (n + 1) = [a] := by
    rw [plainFrom_succ ha (Nat.le_refl n), plainFrom_self, if_pos hp, List.nil_append]
  unfold Action.carrying
  rw [hsince]
  simp only [List.map_cons, List.map_nil, lastText_singleton]

/-- A plain action is dispatched with what it takes over from the latest one. -/
theorem Latest.carried (h : Latest actions n last) (ha : actions[n]? = some a) (hp : a.isPlain = true) :
    Carried actions n (a.carryForward last) := by
  cases last with
  | none => exact carried_self ha hp (.inr h)
  | some d =>
    by_cases himage : a.image = ""
    swap
    · rw [Action.carryForward_of_image himage]
      exact carried_self ha hp (.inl himage)
    obtain ⟨d, j, anchor, hanchor, rfl⟩ := h
    refine ⟨a, j, anchor, ha, hp, hanchor.succ ha fun _ => himage, ?_⟩
    rw [plainFrom_succ ha (Nat.le_of_lt hanchor.lt), if_pos hp, Action.carryForward_of_empty himage]
    unfold Action.carrying
    simp only [List.map_append, List.map_cons, List.map_nil, lastText_concat]

/-- An action goes back to one position only. -/
theorem IsAnchor.unique {k : Nat} {b : Action} (h : IsAnchor actions n j a) (h' : IsAnchor actions n k b) :
    j = k := by
  have hno : ∀ {j k : Nat} {a b : Action}, IsAnchor actions n j a → IsAnchor actions n k b → ¬j < k := by
    intro j k a b h h' hlt
    rcases h'.named with himage | hnone
    · exact himage (h.last k hlt h'.lt b h'.found h'.plain)
    · have hplain := hnone j hlt
      rw [plainAt_of_getElem? h.found, h.plain] at hplain
      cases hplain
  exact Nat.le_antisymm (Nat.le_of_not_lt (hno h' h)) (Nat.le_of_not_lt (hno h h'))

/-- It is determined what a plain action is dispatched as. -/
theorem Carried.unique {d' : Action} (h : Carried actions n d) (h' : Carried actions n d') : d = d' := by
  obtain ⟨a, j, anchor, ha, -, hanchor, rfl⟩ := h
  obtain ⟨a', j', anchor', ha', -, hanchor', rfl⟩ := h'
  obtain rfl := hanchor.unique hanchor'
  obtain rfl := Option.some.inj (ha.symm.trans ha')
  obtain rfl := Option.some.inj (hanchor.found.symm.trans hanchor'.found)
  rfl

/-- What a plain action is dispatched as is the latest from then on. -/
theorem Carried.latest (h : Carried actions n d) : Latest actions (n + 1) (some d) := by
  obtain ⟨a, j, anchor, -, -, hanchor, rfl⟩ := h
  exact ⟨a, j, anchor, hanchor, rfl⟩

end Latest

namespace Run

variable {σ : Type}

/-! ## The dispatches of a list -/

/-- What a thread is about to dispatch of a list, where `height` jobs are left behind the list. -/
def Moment.dispatchOf? (i : ThreadId) (height : Nat) (m : Moment σ) : Option Action :=
  if m.thread = i then
    match m.before.jobsOf i with
    | .dispatch d :: .walk _ _ _ :: js => if js.length = height then some d else none
    | _ => none
  else none

/-- What a thread dispatches of a list, in order. -/
def dispatchesOf (i : ThreadId) (height : Nat) (c : List (Moment σ)) : List Action :=
  c.filterMap (Moment.dispatchOf? i height)

section

variable {st : Settings σ} {i k : ThreadId} {j : Job} {s s' b : State σ} {c : List (Moment σ)}
  {new js : List Job} {spawned : List (List Job)} {pass : Nat} {actions : List Action}

theorem State.At.jobsOf (h : s.At i js) : s.jobsOf i = js := by
  obtain ⟨t, ht, rfl⟩ := h
  exact State.jobsOf_eq ht

theorem dispatchesOf_concat {m : Moment σ} {height : Nat} :
    dispatchesOf i height (c ++ [m]) = dispatchesOf i height c ++ (m.dispatchOf? i height).toList := by
  unfold dispatchesOf
  rw [List.filterMap_append]
  cases h : m.dispatchOf? i height <;> simp [h]

theorem dispatchOf?_other (hk : k ≠ i) (height : Nat) :
    (⟨s, k, j⟩ : Moment σ).dispatchOf? i height = none := if_neg hk

/-- A thread dispatches something of a list just if nothing stands between. -/
theorem dispatchOf?_eq_none {front : List Job} {last : Option Action} {rest : List Action}
    (hs : s.At i (front ++ .walk pass last rest :: js)) (hfront : ∀ d, front.getLast? ≠ some (.dispatch d)) :
    (⟨s, i, j⟩ : Moment σ).dispatchOf? i js.length = none := by
  unfold Moment.dispatchOf?
  rw [if_pos rfl]
  dsimp only
  rw [hs.jobsOf]
  split
  · rename_i d pass' last' rest' js' heq
    match front, heq with
    | [], heq => cases heq
    | [x], heq =>
      obtain ⟨rfl, -⟩ := List.cons.inj heq
      exact absurd rfl (hfront d)
    | x :: y :: front, heq =>
      have hlen := congrArg List.length heq
      simp only [List.cons_append, List.length_cons, List.length_append] at hlen
      exact if_neg (by omega)
  · rfl

theorem dispatchOf?_eq_some {d : Action} {last : Option Action} {rest : List Action}
    (hs : s.At i (.dispatch d :: .walk pass last rest :: js)) :
    (⟨s, i, j⟩ : Moment σ).dispatchOf? i js.length = some d := by
  unfold Moment.dispatchOf?
  rw [if_pos rfl]
  dsimp only
  rw [hs.jobsOf]
  exact if_pos rfl

/-- What a job leaves ends with no dispatch. -/
theorem getLast?_new (hy : j.Yields st s s' new spawned) (d : Action) : new.getLast? ≠ some (.dispatch d) := by
  intro h
  have hmem := List.mem_of_getLast? h
  cases hy.leaves _ hmem with
  | dispatch pass last rest =>
    cases rest with
    | nil =>
      rw [hy.1] at hmem
      cases hmem
    | cons a rest =>
      obtain ⟨-, hy⟩ := hy
      split_ifs at hy
      · rw [hy] at h
        cases h
      · obtain ⟨front, -, rfl⟩ := hy
        rw [List.getLast?_concat] at h
        cases h

theorem getLast?_unfolds {a : Action} {front : List Job} (h : Unfolds st s pass a front) (d : Action) :
    front.getLast? ≠ some (.dispatch d) := by
  rcases unfolds_cases h with rfl | ⟨target, rfl⟩ | ⟨inner, rfl⟩ | ⟨inner, rfl⟩ <;> simp

/-- How far a thread has got with a list, of whose actions `ds` have been dispatched. -/
inductive Walking (i : ThreadId) (pass : Nat) (actions : List Action) (js : List Job) (ds : List Action)
    (s : State σ) : Prop
  /-- It is about to resolve the next action, or does something that another one stands for. -/
  | resolving (n : Nat) (last : Option Action) (front : List Job) : n ≤ actions.length →
    Latest actions n last → s.At i (front ++ .walk pass last (actions.drop n) :: js) →
    (∀ d, front.getLast? ≠ some (.dispatch d)) →
    List.Forall₂ (Carried actions) ((List.range n).filter (plainAt actions)) ds → Walking i pass actions js ds s
  | dispatching (n : Nat) (d : Action) : n < actions.length → plainAt actions n = true → Carried actions n d →
    s.At i (.dispatch d :: .walk pass (some d) (actions.drop (n + 1)) :: js) →
    List.Forall₂ (Carried actions) ((List.range n).filter (plainAt actions)) ds → Walking i pass actions js ds s
  | brokenOff (n : Nat) (u : Thread) : n ≤ actions.length → s.threads[i]? = some u → u.jobs = [] →
    u.crashed = true →
    List.Forall₂ (Carried actions) ((List.range n).filter (plainAt actions)) ds → Walking i pass actions js ds s
  | back : s.At i js → List.Forall₂ (Carried actions) (plainPositions actions) ds → Walking i pass actions js ds s

/-- A thread does its next job and goes on with what that leaves, or crashes in the middle of it. -/
theorem Stepped.goesOn_or_crashes {x : Job} (h : Stepped st i j s s') (hs : s.At i (x :: js)) :
    j = x ∧ ∃ new spawned, x.Yields st s s' new spawned ∧
      (s'.At i (new ++ js) ∨ ∃ u, s'.threads[i]? = some u ∧ u.jobs = [] ∧ u.crashed = true) := by
  obtain ⟨u, hu, hjs⟩ := hs
  obtain ⟨t, rest, t', new, spawned, ht, hj, hy, hth, ht'⟩ := h.moves
  obtain rfl := Option.some.inj (hu.symm.trans ht)
  obtain ⟨rfl, rfl⟩ := List.cons.inj (hjs.symm.trans hj)
  have hself := (Stepped.getElem?_threads hth (List.getElem?_eq_some_iff.1 ht).1).1
  refine ⟨rfl, new, spawned, hy, ?_⟩
  rcases ht' with ⟨hjobs, -⟩ | ⟨-, -, hjobs, hcrashed⟩
  · exact .inl ⟨t', hself, hjobs⟩
  · exact .inr ⟨t', hself, hjobs, hcrashed⟩

theorem plainBelow_succ {n : Nat} {ds : List Action} {d : Action} (hp : plainAt actions n = true)
    (hd : Carried actions n d)
    (hds : List.Forall₂ (Carried actions) ((List.range n).filter (plainAt actions)) ds) :
    List.Forall₂ (Carried actions) ((List.range (n + 1)).filter (plainAt actions)) (ds ++ [d]) := by
  rw [List.range_succ, List.filter_append, List.filter_singleton, hp, cond_true]
  exact List.rel_append hds (.cons hd .nil)

theorem plainBelow_skip {n : Nat} {ds : List Action} (hp : plainAt actions n = false)
    (hds : List.Forall₂ (Carried actions) ((List.range n).filter (plainAt actions)) ds) :
    List.Forall₂ (Carried actions) ((List.range (n + 1)).filter (plainAt actions)) ds := by
  rwa [List.range_succ, List.filter_append, List.filter_singleton, hp, cond_false, List.append_nil]

namespace Walking

variable {ds : List Action}

/-- What other threads do does not matter. -/
theorem other (h : Walking i pass actions js ds s) (hstep : Stepped st k j s s') (hk : k ≠ i) :
    Walking i pass actions js ds s' := by
  cases h with
  | resolving n last front hn hlatest hat hfront hds =>
    exact .resolving n last front hn hlatest (hstep.at_other hk hat) hfront hds
  | dispatching n d hn hp hd hat hds => exact .dispatching n d hn hp hd (hstep.at_other hk hat) hds
  | brokenOff n u hn hu hjobs hcrashed hds =>
    obtain ⟨t, js', t', new, spawned, -, -, -, hth, -⟩ := hstep.moves
    exact .brokenOff n u hn (Stepped.getElem?_other hth hk hu) hjobs hcrashed hds
  | back hat hds => exact .back (hstep.at_other hk hat) hds

/-- A thread that takes the next action of a list dispatches it with what it takes over, or does what it stands
for and leaves the latest one as it is. -/
theorem next {n : Nat} {last : Option Action} (hn : n ≤ actions.length) (hlatest : Latest actions n last)
    (hat : s.At i (.walk pass last (actions.drop n) :: js))
    (hds : List.Forall₂ (Carried actions) ((List.range n).filter (plainAt actions)) ds)
    (hstep : Stepped st i j s s') : Walking i pass actions js ds s' := by
  obtain ⟨rfl, new, spawned, hy, hat' | ⟨u, hu, hjobs, hcrashed⟩⟩ := hstep.goesOn_or_crashes hat
  swap
  · exact .brokenOff n u hn hu hjobs hcrashed hds
  rcases Nat.eq_or_lt_of_le hn with rfl | hlt
  · rw [List.drop_length] at hy
    obtain ⟨rfl, -⟩ := hy
    exact .back hat' hds
  have ha : actions[n]? = some actions[n] := List.getElem?_eq_getElem hlt
  rw [List.drop_eq_getElem_cons hlt] at hy
  obtain ⟨-, hy⟩ := hy
  split_ifs at hy with hplain
  · have hp := Action.isPlain_iff.2 hplain
    subst hy
    exact .dispatching n _ hlt ((plainAt_of_getElem? ha).trans hp) (hlatest.carried ha hp) hat' hds
  · have hp : actions[n].isPlain = false := by
      rw [Bool.eq_false_iff]
      exact mt Action.isPlain_iff.1 hplain
    obtain ⟨front, hunfolds, rfl⟩ := hy
    rw [List.append_assoc, List.singleton_append] at hat'
    exact .resolving (n + 1) last front hlt (hlatest.skip ha hp) hat' (getLast?_unfolds hunfolds)
      (plainBelow_skip ((plainAt_of_getElem? ha).trans hp) hds)

/-- From one moment to the next. -/
theorem step (h : Walking i pass actions js ds s) (hstep : Stepped st k j s s') (hback : k = i → ¬s.At i js) :
    Walking i pass actions js (ds ++ ((⟨s, k, j⟩ : Moment σ).dispatchOf? i js.length).toList) s' := by
  by_cases hk : k = i
  swap
  · rw [dispatchOf?_other hk, Option.toList_none, List.append_nil]
    exact h.other hstep hk
  subst hk
  cases h with
  | resolving n last front hn hlatest hat hfront hds =>
    rw [dispatchOf?_eq_none hat hfront, Option.toList_none, List.append_nil]
    cases front with
    | nil => exact next hn hlatest hat hds hstep
    | cons x front =>
      obtain ⟨rfl, new, spawned, hy, hat' | ⟨u, hu, hjobs, hcrashed⟩⟩ := hstep.goesOn_or_crashes hat
      · change s'.At k (new ++ (front ++ .walk pass last (actions.drop n) :: js)) at hat'
        rw [← List.append_assoc] at hat'
        refine .resolving n last (new ++ front) hn hlatest hat' (fun d hd => ?_) hds
        rw [List.getLast?_append] at hd
        cases hlast : front.getLast? with
        | none =>
          rw [hlast] at hd
          exact getLast?_new hy d hd
        | some y =>
          rw [hlast] at hd
          refine hfront d ?_
          rw [List.getLast?_cons, hlast]
          exact hd
      · exact .brokenOff n u hn hu hjobs hcrashed hds
  | dispatching n d hn hp hd hat hds =>
    rw [dispatchOf?_eq_some hat, Option.toList_some]
    have hds' := plainBelow_succ hp hd hds
    obtain ⟨rfl, new, spawned, hy, hat' | ⟨u, hu, hjobs, hcrashed⟩⟩ := hstep.goesOn_or_crashes hat
    · exact .resolving (n + 1) (some d) new hn hd.latest hat' (getLast?_new hy) hds'
    · exact .brokenOff (n + 1) u hn hu hjobs hcrashed hds'
  | brokenOff n u hn hu hjobs hcrashed hds =>
    obtain ⟨rest, heq⟩ := hstep.eq_cons ⟨u, hu, hjobs⟩
    cases heq
  | back hat hds => exact absurd hat (hback rfl)

/-- What has been dispatched are the first ones of the plain actions. -/
theorem firsts (h : Walking i pass actions js ds s) :
    ∃ ns, ns <+: plainPositions actions ∧ List.Forall₂ (Carried actions) ns ds := by
  have hfirsts : ∀ n ≤ actions.length, (List.range n).filter (plainAt actions) <+: plainPositions actions := by
    intro n hn
    refine List.IsPrefix.filter _ ?_
    rw [← Nat.min_eq_left hn, ← List.take_range]
    exact List.take_prefix _ _
  cases h with
  | resolving n _ _ hn _ _ _ hds => exact ⟨_, hfirsts n hn, hds⟩
  | dispatching n _ hn _ _ _ hds => exact ⟨_, hfirsts n (Nat.le_of_lt hn), hds⟩
  | brokenOff n _ hn _ _ _ hds => exact ⟨_, hfirsts n hn, hds⟩
  | back _ hds => exact ⟨_, List.prefix_rfl, hds⟩

/-- A thread that is back at what it had left behind a list has dispatched all plain actions. -/
theorem all (h : Walking i pass actions js ds s) {u : Thread} (hu : s.threads[i]? = some u) (hjobs : u.jobs = js)
    (hcrashed : u.crashed = false) : List.Forall₂ (Carried actions) (plainPositions actions) ds := by
  have hback : s.At i js := ⟨u, hu, hjobs⟩
  cases h with
  | resolving n last front _ _ hat _ _ =>
    have hlen := congrArg List.length (hat.eq hback)
    simp only [List.length_append, List.length_cons] at hlen
    omega
  | dispatching n d _ _ _ hat _ =>
    have hlen := congrArg List.length (hat.eq hback)
    simp only [List.length_cons] at hlen
    omega
  | brokenOff n v _ hv _ hcrashed' _ =>
    obtain rfl := Option.some.inj (hu.symm.trans hv)
    rw [hcrashed] at hcrashed'
    cases hcrashed'
  | back _ hds => exact hds

end Walking

/-- While a thread resolves a list its plain actions are dispatched with what they take over. -/
theorem Chronicle.walking (hc : Chronicle st b c s) (hb : b.scope.broken = false)
    (hat : b.At i (.walk pass none actions :: js)) (hin : ∀ m ∈ c, m.thread = i → ¬m.before.At i js) :
    Walking i pass actions js (dispatchesOf i js.length c) s := by
  refine hc.invariant (P := fun c s => (∀ m ∈ c, m.thread = i → ¬m.before.At i js) →
    Walking i pass actions js (dispatchesOf i js.length c) s) hb (fun _ => ?_) ?_ ?_ hin
  · exact .resolving 0 none [] (Nat.zero_le _) latest_zero hat (fun _ hd => nomatch hd) .nil
  · intro c k j s s' ih hstep _ hin
    rw [dispatchesOf_concat]
    refine (ih fun m hm => hin m (List.mem_append_left _ hm)).step hstep fun hk => ?_
    exact hin ⟨s, k, j⟩ (List.mem_append_right _ (List.mem_singleton_self _)) hk
  · intro c s time ih _ _ hin
    cases ih hin with
    | resolving n last front hn hlatest hat hfront hds => exact .resolving n last front hn hlatest hat hfront hds
    | dispatching n d hn hp hd hat hds => exact .dispatching n d hn hp hd hat hds
    | brokenOff n u hn hu hjobs hcrashed hds => exact .brokenOff n u hn hu hjobs hcrashed hds
    | back hat hds => exact .back hat hds

/-- While a thread resolves a list of actions it dispatches its plain ones in order.  Each has the image of the
last plain one up to it that names one, or of the first plain one, and of the requirement, the duration and the
concurrency the last text given since then; nothing else about it changes.  When the thread is done with the list
it has dispatched all of them. -/
theorem dispatches_carried (hb : b.scope.broken = false) (hat : b.At i (.walk pass none actions :: js))
    (hc : Chronicle st b c s) (hin : ∀ m ∈ c, m.thread = i → ¬m.before.At i js) :
    (∃ ns, ns <+: plainPositions actions ∧ List.Forall₂ (Carried actions) ns (dispatchesOf i js.length c)) ∧
    ∀ u, s.threads[i]? = some u → u.jobs = js → u.crashed = false →
      List.Forall₂ (Carried actions) (plainPositions actions) (dispatchesOf i js.length c) := by
  have h := hc.walking hb hat hin
  exact ⟨h.firsts, fun u hu hjobs hcrashed => h.all hu hjobs hcrashed⟩

end

/-! ## A list with all kinds of gaps -/

/-- The second plain action is skipped, and so are those that take its requirement over; a loop and an operation
on a container that is not there stand between. -/
def gappedActions : List Action :=
  [{ client := { op := "kill", container := "nobody" } },
    { image := "loader", command := "first", duration := "1s" },
    { command := "second", requires := "false", concurrency := "2" },
    { foreach := "\x7b\x7brange a,b\x7d\x7d", image := "inner", command := "\x7b\x7b.\x7d\x7d" },
    { command := "third", duration := "3s" },
    { image := "other", command := "fourth" },
    { command := "fifth", concurrency := "4" }]

def gappedStart : State (Faulty (World Rehearsal)) :=
  State.ofJobs (rehearsalScope {} {}) [.walk 0 none gappedActions, .emit]

/-- The first thread has nothing left to do but to print the report. -/
def State.isDone (s : State σ) : Bool :=
  match s.jobsOf 0 with
  | [.emit] => true
  | _ => false

def gappedRun : List (Moment (Faulty (World Rehearsal))) × State (Faulty (World Rehearsal)) :=
  gappedStart.chronicle (rehearsed {}) State.isDone 200 0

theorem State.isDone_of_at {s : State σ} (h : s.At 0 [.emit]) : s.isDone = true := by
  unfold isDone
  rw [h.jobsOf]

theorem State.at_of_isDone {s : State σ} (h : s.isDone = true) :
    ∃ u, s.threads[0]? = some u ∧ u.jobs = [.emit] := by
  unfold isDone at h
  split at h
  · rename_i hjobs
    unfold jobsOf at hjobs
    cases hu : s.threads[0]? with
    | none => rw [hu] at hjobs; cases hjobs
    | some u =>
      rw [hu] at hjobs
      exact ⟨u, rfl, hjobs⟩
  · cases h

/-- All plain actions of the list are dispatched, and none of what the loop stands for comes between them. -/
theorem dispatches_carried_gapped :
    gappedStart.At 0 [.walk 0 none gappedActions, .emit] ∧
      Chronicle (rehearsed {}) gappedStart gappedRun.1 gappedRun.2 ∧
      (∀ m ∈ gappedRun.1, m.thread = 0 → ¬m.before.At 0 [.emit]) ∧ gappedRun.2.At 0 [.emit] ∧
      plainPositions gappedActions = [1, 2, 4, 5, 6] ∧
      List.Forall₂ (Carried gappedActions) [1, 2, 4, 5, 6] (dispatchesOf 0 1 gappedRun.1) ∧
      (dispatchesOf 0 1 gappedRun.1).map
          (fun d => [d.command, d.image, d.requires, d.duration, d.concurrency]) =
        [["first", "loader", "", "1s", ""], ["second", "loader", "false", "1s", "2"],
          ["third", "loader", "false", "3s", "2"], ["fourth", "other", "", "", ""],
          ["fifth", "other", "", "", "4"]] := by
  have hat : gappedStart.At 0 [.walk 0 none gappedActions, .emit] := ⟨_, rfl, rfl⟩
  have hc : Chronicle (rehearsed {}) gappedStart gappedRun.1 gappedRun.2 := State.chronicle_spec _ _ _ _ _
  have hrun : (∀ m ∈ gappedRun.1, m.before.isDone = false) ∧ gappedRun.2.isDone = true ∧
      (gappedRun.2.threads[0]?).all (fun u => !u.crashed) = true ∧
      (dispatchesOf 0 1 gappedRun.1).map
          (fun d => [d.command, d.image, d.requires, d.duration, d.concurrency]) =
        [["first", "loader", "", "1s", ""], ["second", "loader", "false", "1s", "2"],
          ["third", "loader", "false", "3s", "2"], ["fourth", "other", "", "", ""],
          ["fifth", "other", "", "", "4"]] := by decide +kernel
  obtain ⟨hbusy, hdone, hsound, hdispatched⟩ := hrun
  have hin : ∀ m ∈ gappedRun.1, m.thread = 0 → ¬m.before.At 0 [.emit] := by
    intro m hm _ hback
    have hbusy := hbusy m hm
    rw [State.isDone_of_at hback] at hbusy
    cases hbusy
  have hplain : plainPositions gappedActions = [1, 2, 4, 5, 6] := by decide
  obtain ⟨u, hu, hjobs⟩ := State.at_of_isDone hdone
  rw [hu, Option.all_some, Bool.not_eq_true'] at hsound
  have hall := (dispatches_carried rfl hat hc hin).2 u hu hjobs hsound
  rw [hplain] at hall
  exact ⟨hat, hc, hin, ⟨u, hu, hjobs⟩, hplain, hall, hdispatched⟩

end Run

end Workload

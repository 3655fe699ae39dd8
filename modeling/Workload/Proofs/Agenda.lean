import Workload.Proofs.Endings
import Workload.Proofs.Script

/-!
# The agenda of a run of nested tests

What the first thread has before it in a run of a chain of documents is what is left of the script, and
the counter is the pass that it is in (`Agenda`).  Each step is an errand of a task or takes one off
(`script_step`).
-/

namespace Workload.Run

variable {σ : Type}

/-- The test of a document within the run. -/
def Invocation.test (st : Settings σ) (d : List Action) : Invocation := ⟨.nested st.config, d, true⟩

/-- The entry of the script that a thread with these jobs is about to make. -/
def entryOf : List Job → Option Entry
  | .dispatch a :: .walk pass _ rest :: js =>
    some (.dispatched (js.countP Job.nests) pass rest.length a)
  | .reclaim .pass :: .passes inv limit (pass + 1) :: js =>
    some (.reclaimed ((Job.passes inv limit (pass + 1) :: js).countP Job.nests) pass)
  | _ => none

def Moment.item? (m : Moment σ) : Option Entry :=
  if m.thread = 0 then entryOf m.before.main else none

section Agenda

variable (st : Settings σ) (docs : List (List Action)) (last : Nat)

/-- The number of calls with which a nested test opens. -/
def testCalls : Nat := (openingCalls st false).length

/-- The steps for the rest of a list of actions. -/
def restSteps (depth pass : Nat) (latest : Option Action) (rest : List Action) : List (Option Entry) :=
  listSteps depth pass (testSteps (testCalls st) last (depth + 1) (docs.drop (depth + 1))) latest rest

/-- The steps for the passes of a document from one number on. -/
def passesSteps (depth pass : Nat) : List (Option Entry) :=
  stepsFrom (testCalls st) last depth (docs.drop depth) pass

/-- The steps that close the run. -/
def closingSteps : List (Option Entry) :=
  none :: List.replicate (State.closingJobs st (.ofConfig st.config)).length none

/-- These are the last actions of a document. -/
def IsRest (depth : Nat) (rest : List Action) : Prop := ∃ d, docs[depth]? = some d ∧ rest <:+ d

/-- What a thread has before it behind a pass of a document, and the steps for that. -/
inductive Below : (depth pass : Nat) → List Job → List (Option Entry) → Prop
  | whole {pass : Nat} {actions : List Action} : docs[0]? = some actions → pass ≤ last →
    Below 0 pass [.passes (.whole st actions) last (pass + 1)]
      (passesSteps st docs last 0 (pass + 1) ++ closingSteps st)
  | nested {depth pass pass' : Nat} {latest : Option Action} {rest d : List Action} {js : List Job}
    {es : List (Option Entry)} : Below depth pass js es → IsRest docs depth rest →
    docs[depth + 1]? = some d → pass' ≤ last →
    Below (depth + 1) pass'
      (.passes (.test st d) last (pass' + 1) ::
        .setLoops pass :: .walk pass latest rest :: .reclaim .pass :: js)
      (passesSteps st docs last (depth + 1) (pass' + 1) ++ none :: none :: none ::
        (restSteps st docs last depth pass latest rest ++ some (.reclaimed depth pass) :: es))

/-- What a thread has before it in the middle of a pass of a document, and the steps for that. -/
inductive Within : (depth pass : Nat) → List Job → List (Option Entry) → Prop
  | mk {depth pass : Nat} {latest : Option Action} {rest : List Action} {js : List Job}
    {es : List (Option Entry)} : Below st docs last depth pass js es → IsRest docs depth rest →
    Within depth pass (.walk pass latest rest :: .reclaim .pass :: js)
      (restSteps st docs last depth pass latest rest ++ some (.reclaimed depth pass) :: es)

/-- What the first thread of a run has before it when the counter has some value, and the steps for
that but the errands of a task. -/
inductive Agenda : (loops : Nat) → List Job → List (Option Entry) → Prop
  | opening {loops : Nat} {calls : List OpeningCall} {actions : List Action} :
    docs[0]? = some actions →
    Agenda loops [.opening calls (.whole st actions)]
      (List.replicate (calls.length + 1) none ++ (passesSteps st docs last 0 0 ++ closingSteps st))
  | first {loops : Nat} {actions : List Action} : docs[0]? = some actions →
    Agenda loops [.passes (.whole st actions) last 0]
      (passesSteps st docs last 0 0 ++ closingSteps st)
  | next {depth pass : Nat} {js : List Job} {es : List (Option Entry)} :
    Below st docs last depth pass js es → Agenda pass js es
  | reclaim {depth pass : Nat} {js : List Job} {es : List (Option Entry)} :
    Below st docs last depth pass js es →
    Agenda pass (.reclaim .pass :: js) (some (.reclaimed depth pass) :: es)
  | begin {loops depth pass : Nat} {js : List Job} {es : List (Option Entry)} :
    Within st docs last depth pass js es → Agenda loops (.setLoops pass :: js) (none :: es)
  | within {depth pass : Nat} {errands js : List Job} {es : List (Option Entry)} :
    (∀ x ∈ errands, x.errand = true) → Within st docs last depth pass js es →
    Agenda pass (errands ++ js) es
  | dispatch {depth pass : Nat} {latest : Option Action} {a : Action} {rest : List Action}
    {js : List Job} {es : List (Option Entry)} : Below st docs last depth pass js es →
    IsRest docs depth (a :: rest) →
    Agenda pass
      (.dispatch (a.carryForward latest) :: .walk pass (some (a.carryForward latest)) rest ::
        .reclaim .pass :: js)
      (some (.dispatched depth pass rest.length (a.carryForward latest)) ::
        (restSteps st docs last depth pass (some (a.carryForward latest)) rest ++
          some (.reclaimed depth pass) :: es))
  | open_ {loops depth pass : Nat} {calls : List OpeningCall} {d : List Action} {js : List Job}
    {es : List (Option Entry)} : Within st docs last depth pass js es → docs[depth + 1]? = some d →
    Agenda loops (.opening calls (.test st d) :: .setLoops pass :: js)
      (List.replicate (calls.length + 1) none ++
        (passesSteps st docs last (depth + 1) 0 ++ none :: none :: none :: es))
  | enter {loops depth pass : Nat} {d : List Action} {js : List Job} {es : List (Option Entry)} :
    Within st docs last depth pass js es → docs[depth + 1]? = some d →
    Agenda loops (.passes (.test st d) last 0 :: .setLoops pass :: js)
      (passesSteps st docs last (depth + 1) 0 ++ none :: none :: none :: es)
  | leave {loops depth pass : Nat} {js : List Job} {es : List (Option Entry)} :
    Within st docs last depth pass js es →
    Agenda loops (.emit :: .setLoops pass :: js) (none :: none :: es)
  | closing {js : List Job} : js <:+ State.closingJobs st (.ofConfig st.config) →
    Agenda last js (List.replicate js.length none)

end Agenda

section Shapes

variable {st : Settings σ} {docs : List (List Action)} {last depth pass : Nat} {js : List Job}
  {es : List (Option Entry)}

theorem Below.depth_eq (h : Below st docs last depth pass js es) : js.countP Job.nests = depth := by
  induction h with
  | whole => rfl
  | nested h _ _ _ ih =>
    rw [List.countP_cons, List.countP_cons, List.countP_cons, List.countP_cons, ih]
    rfl

theorem Below.le_last (h : Below st docs last depth pass js es) : pass ≤ last := by
  cases h with
  | whole _ hle => exact hle
  | nested _ _ _ hle => exact hle

theorem Below.entryOf_eq (h : Below st docs last depth pass js es) :
    entryOf js = none ∧ entryOf (.reclaim .pass :: js) = some (.reclaimed depth pass) := by
  have hdepth := h.depth_eq
  cases h with
  | whole => exact ⟨rfl, rfl⟩
  | nested =>
    exact ⟨rfl, congrArg (fun n => some (Entry.reclaimed n pass)) hdepth⟩

theorem Below.entryOf_dispatch (h : Below st docs last depth pass js es) (a : Action)
    (rest : List Action) :
    entryOf (.dispatch a :: .walk pass (some a) rest :: .reclaim .pass :: js) =
      some (.dispatched depth pass rest.length a) := by
  have hdepth : (Job.reclaim .pass :: js).countP Job.nests = depth := h.depth_eq
  exact congrArg (fun n => some (Entry.dispatched n pass rest.length a)) hdepth

theorem entryOf_of_errand {x : Job} (hx : x.errand = true) : entryOf (x :: js) = none := by
  cases x <;> first | rfl | cases hx

theorem entryOf_of_closes {x : Job} (hx : x.closes = true) : entryOf (x :: js) = none := by
  cases x with
  | reclaim occasion => cases occasion <;> first | rfl | cases hx
  | _ => first | rfl | cases hx

theorem IsRest.tail {a : Action} {rest : List Action} (h : IsRest docs depth (a :: rest)) :
    IsRest docs depth rest := by
  obtain ⟨d, hd, hsuf⟩ := h
  exact ⟨d, hd, (List.suffix_cons a rest).trans hsuf⟩

theorem IsRest.head {a : Action} {rest : List Action} (h : IsRest docs depth (a :: rest)) :
    ∃ d, docs[depth]? = some d ∧ a ∈ d := by
  obtain ⟨d, hd, hsuf⟩ := h
  exact ⟨d, hd, hsuf.subset List.mem_cons_self⟩

/-- In a pass all of a document comes, and then its containers are reclaimed. -/
theorem passesSteps_of_le {d : List Action} (hd : docs[depth]? = some d) (hle : pass ≤ last) :
    passesSteps st docs last depth pass =
      none :: none :: (restSteps st docs last depth pass none d ++
        some (.reclaimed depth pass) :: passesSteps st docs last depth (pass + 1)) := by
  obtain ⟨hi, rfl⟩ := List.getElem?_eq_some_iff.1 hd
  unfold passesSteps
  rw [stepsFrom_of_le hle, List.drop_eq_getElem_cons hi, passSteps_cons]
  simp only [List.cons_append, List.append_assoc, List.nil_append]
  rfl

theorem restSteps_plain {latest : Option Action} {a : Action} {rest : List Action}
    (ha : a.isTest = false) : restSteps st docs last depth pass latest (a :: rest) =
      none :: some (.dispatched depth pass rest.length (a.carryForward latest)) ::
        restSteps st docs last depth pass (some (a.carryForward latest)) rest := by
  unfold restSteps
  rw [listSteps, if_neg (by rw [ha]; exact Bool.false_ne_true)]

theorem restSteps_test {latest : Option Action} {a : Action} {rest : List Action}
    (ha : a.isTest = true) : restSteps st docs last depth pass latest (a :: rest) =
      none :: (List.replicate (testCalls st + 1) none ++ (passesSteps st docs last (depth + 1) 0 ++
        none :: none :: none :: restSteps st docs last depth pass latest rest)) := by
  unfold restSteps
  rw [listSteps, if_pos ha]
  conv_lhs => rw [testSteps, List.append_assoc, List.append_assoc]
  rfl

theorem passesSteps_of_lt (h : last < pass) : passesSteps st docs last depth pass = [] :=
  stepsFrom_of_lt h

end Shapes

/-! ## Steps of the first thread -/

/-- The settings of a run of `last + 1` passes without a time limit and without collections. -/
structure Counted (st : Settings σ) (last : Nat) : Prop where
  repeats : st.config.repeats = last
  duration : st.config.duration = 0
  test : st.config.skipTest = false
  collects : st.collects = false

/-- Where a document is opened in this state no call fails, and where the next one is asked for it can be
read. -/
structure Smooth (st : Settings σ) (docs : List (List Action)) (s : State σ) : Prop where
  opens : ∀ call calls inv, s.next? 0 = some (.opening (call :: calls) inv) →
    (s.makeOpeningCall st call).1 = .ok ()
  loads : ∀ pass latest a rest path, s.next? 0 = some (.walk pass latest (a :: rest)) →
    a.directive = .test path → ∀ (depth : Nat) d d', docs[depth]? = some d → a ∈ d →
      docs[depth + 1]? = some d' → (s.scope.files st.env).readActions path = .ok d'

section Steps

variable {st : Settings σ} {docs : List (List Action)} {last depth pass loops : Nat}
  {s s' : State σ} {j : Job} {new js : List Job} {spawned : List (List Job)}
  {es : List (Option Entry)} {d actions : List Action}

theorem passes_new {inv : Invocation} (hy : (Job.passes inv last pass).Yields st s s' new spawned) :
    new = if pass ≤ last then
        [.setLoops pass, .walk pass none inv.actions, .reclaim .pass, .passes inv last (pass + 1)]
      else State.closingJobs st inv.phases := by
  have hlimit : ((last : Int) < 0 ∨ (pass : Int) ≤ last) ↔ pass ≤ last := by omega
  rw [hy.1]
  split_ifs with h₁ h₂ h₂
  · rfl
  · exact absurd (hlimit.1 h₁) h₂
  · exact absurd (hlimit.2 h₂) h₁
  · rfl

/-- A pass begins. -/
theorem agenda_pass {tail : List (Option Entry)}
    (h : Below st docs last depth pass js (passesSteps st docs last depth (pass + 1) ++ tail))
    (hd : docs[depth]? = some d) (hle : pass ≤ last) :
    ∃ es', passesSteps st docs last depth pass ++ tail = none :: es' ∧
      Agenda st docs last loops (.setLoops pass :: .walk pass none d :: .reclaim .pass :: js) es' := by
  rw [passesSteps_of_le hd hle]
  simp only [List.cons_append, List.append_assoc]
  exact ⟨_, rfl, .begin (.mk h ⟨d, hd, List.suffix_rfl⟩)⟩

/-- A pass of the run as a whole begins. -/
theorem agenda_whole (hd : docs[0]? = some actions) (hle : pass ≤ last)
    (hy : (Job.passes (.whole st actions) last pass).Yields st s s' new spawned) :
    ∃ es', passesSteps st docs last 0 pass ++ closingSteps st = none :: es' ∧
      Agenda st docs last loops new es' := by
  rw [passes_new hy, if_pos hle]
  exact agenda_pass (.whole hd hle) hd hle

/-- A pass of a nested test begins. -/
theorem agenda_test {outer : Nat} (h : Within st docs last depth outer js es)
    (hd : docs[depth + 1]? = some d) (hle : pass ≤ last)
    (hy : (Job.passes (.test st d) last pass).Yields st s s' new spawned) :
    ∃ es', passesSteps st docs last (depth + 1) pass ++ none :: none :: none :: es = none :: es' ∧
      Agenda st docs last loops (new ++ .setLoops outer :: js) es' := by
  rw [passes_new hy, if_pos hle]
  cases h with
  | mk hbelow hrest => exact agenda_pass (.nested hbelow hrest hd hle) hd hle

/-- A pass is over, and the next one begins or there is no other one. -/
theorem agenda_next (h : Below st docs last depth pass (j :: js) es)
    (hy : j.Yields st s s' new spawned) :
    ∃ es', es = none :: es' ∧ Agenda st docs last pass (new ++ js) es' := by
  cases h with
  | whole hd hle =>
    rw [List.append_nil]
    by_cases hnext : pass + 1 ≤ last
    · exact agenda_whole hd hnext hy
    · obtain rfl : pass = last := by omega
      rw [passes_new hy, if_neg hnext, passesSteps_of_lt (Nat.lt_of_not_le hnext)]
      exact ⟨_, rfl, .closing List.suffix_rfl⟩
  | nested hbelow hrest hd hle =>
    by_cases hnext : pass + 1 ≤ last
    · exact agenda_test (.mk hbelow hrest) hd hnext hy
    · rw [passes_new hy, if_neg hnext, passesSteps_of_lt (Nat.lt_of_not_le hnext)]
      exact ⟨_, rfl, .leave (.mk hbelow hrest)⟩

/-- An opening goes on, or the passes begin. -/
theorem opening_new {calls : List OpeningCall} {inv : Invocation} (hc : Counted st last)
    (ht : inv.phases.test = true) (hr : inv.phases.repeats = st.config.repeats)
    (ho : ∀ call cs, calls = call :: cs → (s.makeOpeningCall st call).1 = .ok ())
    (hy : (Job.opening calls inv).Yields st s s' new spawned) :
    calls = [] ∧ new = [.passes inv last 0] ∨
      ∃ call cs, calls = call :: cs ∧ new = [.opening cs inv] := by
  cases calls with
  | nil =>
    obtain ⟨-, hy⟩ := hy
    rw [if_pos ht] at hy
    refine .inl ⟨rfl, hy.1.trans ?_⟩
    rw [hc.duration]
    simp [State.passLimit, hr, hc.repeats]
  | cons call cs =>
    obtain ⟨-, hy⟩ := hy
    rw [ho call cs rfl] at hy
    exact .inr ⟨call, cs, rfl, hy.1⟩

/-- A nested test begins. -/
theorem test_step {latest : Option Action} {a : Action} {rest : List Action} {path : String}
    (hb : s.scope.broken = false) (h : Stepped st 0 (.walk pass latest (a :: rest)) s s')
    (ha : a.directive = .test path) (hload : (s.scope.files st.env).readActions path = .ok d)
    (hmain : s.main = .walk pass latest (a :: rest) :: js) :
    s'.main = Invocation.job st (.test st d) :: .setLoops s.scope.loops ::
        .walk pass latest rest :: js ∧ s'.fell = s.fell := by
  have hperform : (Job.walk pass latest (a :: rest)).perform st 0 (s.pop 0) =
      (((s.pop 0).push 0 [.walk pass latest rest]).note (.info "running nested test")).push 0
        [Invocation.job st (.test st d), .setLoops s.scope.loops] := by
    show (s.pop 0).walk st 0 pass latest (a :: rest) = _
    unfold State.walk State.resolve
    simp only [ha]
    unfold State.nestedTest
    rw [show ((s.pop 0).push 0 [.walk pass latest rest]).scope = s.scope from rfl, hload]
    rfl
  have hb' : ((Job.walk pass latest (a :: rest)).perform st 0 (s.pop 0)).scope.broken = false := by
    rw [hperform]
    exact (State.note_broken _ _).trans hb
  have hs' := h.result
  rw [State.endBroken_of_unbroken hb', hperform] at hs'
  obtain ⟨t, js', -, -, -, ht, hjobs, -⟩ := h.moves
  obtain ⟨-, rfl⟩ := List.cons.inj (hjobs.symm.trans ((main_eq ht).symm.trans hmain))
  have hpop := State.pop_getElem? ht
  rw [hjobs, List.tail_cons] at hpop
  have hu : s'.threads[0]? = some
      { t with
        jobs := Invocation.job st (.test st d) :: .setLoops s.scope.loops ::
          .walk pass latest rest :: js' } := by
    rw [hs']
    unfold State.push State.note
    simp only [List.getElem?_modify_eq, hpop]
    rfl
  exact ⟨main_eq hu, (fell_eq hu).trans (fell_eq ht).symm⟩

/-- A test directive leads to another document. -/
theorem exists_next {a : Action} (hdocs : Chain docs) (hd : docs[depth]? = some d) (ha : a ∈ d)
    (ht : a.isTest = true) : ∃ d', docs[depth + 1]? = some d' := by
  obtain ⟨hi, rfl⟩ := List.getElem?_eq_some_iff.1 hd
  have hsuf : docs[depth] :: docs.drop (depth + 1) <:+ docs := by
    rw [← List.drop_eq_getElem_cons hi]
    exact List.drop_suffix depth docs
  have hone := hdocs.once _ _ hsuf
  have hpos : 0 < docs[depth].countP Action.isTest := List.countP_pos_iff.2 ⟨a, ha, ht⟩
  have hne : docs.drop (depth + 1) ≠ [] := fun hnil => by
    rw [if_pos hnil] at hone
    omega
  have hlt : depth + 1 < docs.length := by
    by_contra hge
    exact hne (List.drop_eq_nil_of_le (by omega))
  exact ⟨_, List.getElem?_eq_getElem hlt⟩

/-- What is left of the script is before the first thread, unless it has broken off. -/
def Follows (st : Settings σ) (docs : List (List Action)) (last : Nat) (s : State σ)
    (es : List (Option Entry)) : Prop :=
  s.fell = true ∧ s.main = [] ∨ s.fell = false ∧ Agenda st docs last s.scope.loops s.main es

theorem follows_of_new (h : Stepped st 0 j s s') (hmain : s.main = j :: js) (hf : s.fell = false)
    (hnew : ∀ new spawned, j.Yields st s s' new spawned →
      ∃ es', es = entryOf (j :: js) :: es' ∧ Agenda st docs last s'.scope.loops (new ++ js) es') :
    ∃ es', es = entryOf (j :: js) :: es' ∧ Follows st docs last s' es' := by
  rcases main_step h with ⟨-, js', new, spawned, hmain', hy, -, hcases⟩ | ⟨h0, -⟩
  · obtain ⟨-, rfl⟩ := List.cons.inj (hmain.symm.trans hmain')
    obtain ⟨es', rfl, ha⟩ := hnew new spawned hy
    refine ⟨es', rfl, ?_⟩
    rcases hcases with ⟨hgo, hfell⟩ | ⟨hoff, hfell⟩
    · exact .inr ⟨hfell.trans hf, hgo ▸ ha⟩
    · exact .inl ⟨hfell, hoff⟩
  · exact absurd rfl h0

/-- The next action of a list is dispatched, or opens the next document, or the list is over. -/
theorem follows_walk (hdocs : Chain docs) (hs : Smooth st docs s) (hb : s.scope.broken = false)
    (h : Stepped st 0 j s s') (hmain : s.main = j :: js) (hf : s.fell = false)
    (hw : Within st docs last depth s.scope.loops (j :: js) es) :
    ∃ es', es = entryOf (j :: js) :: es' ∧ Follows st docs last s' es' := by
  have hloops := loops_of_stepped h
  generalize hjobs : j :: js = jobs at hw
  cases hw with
  | mk hbelow hrest =>
    rename_i latest rest below es
    obtain ⟨rfl, rfl⟩ := List.cons.inj hjobs
    cases rest with
    | nil =>
      refine follows_of_new h hmain hf fun new spawned hy => ⟨_, rfl, ?_⟩
      rw [hy.1, hloops]
      exact .reclaim hbelow
    | cons a rest =>
      have htail := hrest.tail
      obtain ⟨d, hd, hmem⟩ := hrest.head
      rcases hdocs.directives d (List.mem_of_getElem? hd) a hmem with ha | ⟨path, ha⟩
      · have hplain : a.isTest = false := by
          unfold Action.isTest
          rw [ha]
        rw [restSteps_plain hplain]
        refine follows_of_new h hmain hf fun new spawned hy => ⟨_, rfl, ?_⟩
        obtain ⟨-, hy⟩ := hy
        rw [if_pos ha] at hy
        rw [hy, hloops]
        exact .dispatch hbelow hrest
      · have htest : a.isTest = true := by
          unfold Action.isTest
          rw [ha]
        obtain ⟨d', hd'⟩ := exists_next hdocs hd hmem htest
        have hload := hs.loads _ latest a rest path (next?_of_main hmain) ha depth d d' hd hmem hd'
        obtain ⟨hgo, hfell⟩ := test_step hb h ha hload hmain
        rw [restSteps_test htest]
        simp only [List.cons_append, List.append_assoc]
        refine ⟨_, rfl, .inr ⟨hfell.trans hf, ?_⟩⟩
        rw [hgo]
        exact .open_ (.mk hbelow htail) hd'

/-- A step of the first thread is an errand of a task, or the next one that is left of the script. -/
theorem script_step (hc : Counted st last) (hdocs : Chain docs) (hs : Smooth st docs s)
    (hb : s.scope.broken = false) (h : Stepped st 0 j s s') (hmain : s.main = j :: js)
    (hf : s.fell = false) (ha : Agenda st docs last s.scope.loops (j :: js) es) :
    j.errand = true ∧ Follows st docs last s' es ∨
      ∃ es', es = entryOf (j :: js) :: es' ∧ Follows st docs last s' es' := by
  have hloops := loops_of_stepped h
  have hopens := fun call cs inv (hj : j = .opening (call :: cs) inv) =>
    hs.opens call cs inv (hj ▸ next?_of_main hmain)
  generalize hjobs : j :: js = jobs at ha
  generalize hn : s.scope.loops = n at ha
  cases ha with
  | opening hd =>
    obtain ⟨rfl, rfl⟩ := List.cons.inj hjobs
    refine .inr (follows_of_new h hmain hf fun new spawned hy => ⟨_, rfl, ?_⟩)
    rcases opening_new hc (by simp [Invocation.whole, Phases.ofConfig, hc.test]) rfl
      (fun call cs hcalls => hopens call cs _ (by rw [hcalls])) hy with
      ⟨rfl, rfl⟩ | ⟨call, cs, rfl, rfl⟩
    · exact .first hd
    · exact .opening hd
  | first hd =>
    obtain ⟨rfl, rfl⟩ := List.cons.inj hjobs
    refine .inr (follows_of_new h hmain hf fun new spawned hy => ?_)
    rw [List.append_nil]
    exact agenda_whole hd (Nat.zero_le last) hy
  | next hbelow =>
    subst hjobs
    refine .inr (follows_of_new h hmain hf fun new spawned hy => ?_)
    have hcounter : s'.scope.loops = n := by
      rw [hloops, hn]
      cases hbelow <;> rfl
    rw [hcounter, hbelow.entryOf_eq.1]
    exact agenda_next hbelow hy
  | reclaim hbelow =>
    obtain ⟨rfl, rfl⟩ := List.cons.inj hjobs
    refine .inr (follows_of_new h hmain hf fun new spawned hy => ?_)
    rw [hbelow.entryOf_eq.2, hy.1, hloops, hn]
    exact ⟨_, rfl, .next hbelow⟩
  | begin hw =>
    obtain ⟨rfl, rfl⟩ := List.cons.inj hjobs
    refine .inr (follows_of_new h hmain hf fun new spawned hy => ⟨_, rfl, ?_⟩)
    rw [hy.1, hloops]
    exact .within (by simp) hw
  | within herr hw =>
    rename_i errands js'
    cases errands with
    | nil =>
      rw [List.nil_append] at hjobs ⊢
      subst hn
      rw [← hjobs] at hw ⊢
      exact .inr (follows_walk hdocs hs hb h hmain hf hw)
    | cons x errands =>
      rw [List.cons_append] at hjobs
      obtain ⟨rfl, rfl⟩ := List.cons.inj hjobs
      have hx := herr j List.mem_cons_self
      have hcounter : s'.scope.loops = n := by
        rw [hloops, hn]
        cases j <;> first | rfl | cases hx
      obtain ⟨new, hnew, ⟨hgo, hfell⟩ | ⟨hoff, hfell⟩⟩ := errand_step hc.collects hb h hmain hx
      · refine .inl ⟨hx, .inr ⟨hfell.trans hf, ?_⟩⟩
        rw [hgo, hcounter, ← List.append_assoc]
        refine .within (fun y hy => ?_) hw
        rcases List.mem_append.1 hy with hy | hy
        · exact hnew y hy
        · exact herr y (List.mem_cons_of_mem j hy)
      · exact .inl ⟨hx, .inl ⟨hfell, hoff⟩⟩
  | dispatch hbelow hrest =>
    obtain ⟨rfl, rfl⟩ := List.cons.inj hjobs
    refine .inr (follows_of_new h hmain hf fun new spawned hy => ?_)
    rw [hbelow.entryOf_dispatch, hloops, hn]
    exact ⟨_, rfl, .within (errand_dispatch hy) (.mk hbelow hrest.tail)⟩
  | open_ hw hd =>
    obtain ⟨rfl, rfl⟩ := List.cons.inj hjobs
    refine .inr (follows_of_new h hmain hf fun new spawned hy => ⟨_, rfl, ?_⟩)
    rcases opening_new hc rfl rfl (fun call cs hcalls => hopens call cs _ (by rw [hcalls])) hy with
      ⟨rfl, rfl⟩ | ⟨call, cs, rfl, rfl⟩
    · exact .enter hw hd
    · exact .open_ hw hd
  | enter hw hd =>
    obtain ⟨rfl, rfl⟩ := List.cons.inj hjobs
    exact .inr (follows_of_new h hmain hf fun new spawned hy => agenda_test hw hd (Nat.zero_le last) hy)
  | leave hw =>
    obtain ⟨rfl, rfl⟩ := List.cons.inj hjobs
    refine .inr (follows_of_new h hmain hf fun new spawned hy => ⟨_, rfl, ?_⟩)
    rw [hy.1]
    exact .begin hw
  | closing hsuf =>
    subst hjobs
    have hclose := closes_of_mem j (hsuf.subset List.mem_cons_self)
    refine .inr (follows_of_new h hmain hf fun new spawned hy => ?_)
    have hcounter : s'.scope.loops = last := by
      rw [hloops, hn]
      cases j <;> first | rfl | cases hclose
    rw [entryOf_of_closes hclose, closing_new hclose hy, hcounter]
    exact ⟨_, rfl, .closing ((List.suffix_cons j js).trans hsuf)⟩

end Steps

end Workload.Run

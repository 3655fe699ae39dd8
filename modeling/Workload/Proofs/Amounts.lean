import Workload.Proofs.Endings
import Workload.Proofs.Flattening

/-!
# What jobs amount to

The jobs of a pass amount to launches (`AmountTo`): those of the lists of actions they stand for, and those
of the tasks they are done for.  Other jobs stand aside (`Job.aside`): in these no more happens than that
the containers go on.
-/

namespace Workload.Run

variable {σ : Type}

/-! ## What jobs amount to -/

section

variable (st : Settings σ)

/-- The launches that a job of a pass amounts to when it is done and what it leaves too. -/
def Job.AmountsTo (j : Job) (v : View σ) (calls : List Task) (w : View σ) : Prop :=
  match j with
  | .walk pass last rest => Flattens st pass last rest v calls w
  | .dispatch a => Dispatches st a v calls w
  | .control task a => Controls st task a v calls w
  | .launch k => Launches st k.task k.alias_ v calls w
  | .launched k _ l _ =>
    calls = [] ∧ ∃ v', v.Drifts st.env v' ∧ (v'.named k.alias_ l.handle).Drifts st.env w
  | .setLoops pass => calls = [] ∧ ∃ v', v.Drifts st.env v' ∧ w = v'.counting pass
  | .failed .. | .stopOnError | .sleep _ | .wake _ | .join _ => calls = [] ∧ v.Drifts st.env w
  | _ => False

/-- The launches that jobs amount to, one after the other. -/
def AmountTo : List Job → View σ → List Task → View σ → Prop
  | [], v, calls, w => calls = [] ∧ v.Drifts st.env w
  | j :: js, v, calls, w => ∃ calls₁ calls₂ u, calls = calls₁ ++ calls₂ ∧ j.AmountsTo st v calls₁ u ∧
      AmountTo js u calls₂ w

end

section

variable {st : Settings σ} {v v' w : View σ} {calls : List Task} {j : Job} {js : List Job}

theorem Job.AmountsTo.of_drifts (hd : v.Drifts st.env v') (h : j.AmountsTo st v' calls w) :
    j.AmountsTo st v calls w := by
  cases j with
  | walk => exact Flattens.of_drifts hd h
  | dispatch => exact Dispatches.of_drifts hd h
  | control => exact Controls.of_drifts hd h
  | launch => exact Launches.of_drifts hd h
  | launched | setLoops =>
    obtain ⟨hc, u, hu, hw⟩ := h
    exact ⟨hc, u, hd.trans hu, hw⟩
  | failed | stopOnError | sleep | wake | join => exact ⟨h.1, hd.trans h.2⟩
  | _ => exact h

theorem AmountTo.of_drifts (hd : v.Drifts st.env v') (h : AmountTo st js v' calls w) :
    AmountTo st js v calls w := by
  cases js with
  | nil => exact ⟨h.1, hd.trans h.2⟩
  | cons j js =>
    obtain ⟨calls₁, calls₂, u, hc, hj, hjs⟩ := h
    exact ⟨calls₁, calls₂, u, hc, hj.of_drifts hd, hjs⟩

theorem amountTo_append {js' : List Job} (h : AmountTo st (js ++ js') v calls w) :
    ∃ calls₁ calls₂ u, calls = calls₁ ++ calls₂ ∧ AmountTo st js v calls₁ u ∧
      AmountTo st js' u calls₂ w := by
  induction js generalizing v calls with
  | nil => exact ⟨[], calls, v, rfl, ⟨rfl, .refl v⟩, h⟩
  | cons j js ih =>
    obtain ⟨calls₁, calls₂, u, rfl, hj, hjs⟩ := h
    obtain ⟨calls₃, calls₄, x, rfl, hjs₁, hjs₂⟩ := ih hjs
    exact ⟨calls₁ ++ calls₃, calls₄, x, by simp, ⟨calls₁, calls₃, u, rfl, hj, hjs₁⟩, hjs₂⟩

/-- A single job amounts to what it amounts to. -/
theorem amountTo_singleton (h : AmountTo st [j] v calls w) :
    ∃ u, j.AmountsTo st v calls u ∧ u.Drifts st.env w := by
  obtain ⟨calls₁, calls₂, u, rfl, hj, rfl, hw⟩ := h
  exact ⟨u, by rwa [List.append_nil], hw⟩

end

/-! ## Operations and views -/

section

variable (st : Settings σ) (env : Environment σ) (s : State σ)

theorem State.note_world (line : LogLine) : (s.note line).scope.world = s.scope.world := by
  unfold State.note Scope.note
  split_ifs <;> rfl

theorem drifts_note (line : LogLine) : s.view.Drifts env (s.note line).view := by
  refine ⟨?_, Scope.rests_note line s.scope, rfl, rfl⟩
  rw [show (s.note line).view.scope.world = s.view.scope.world from s.note_world line]

theorem view_clientOp (op : ClientOp) :
    (s.clientOp st op).view = s.view.onState (State.clientOp st op) := by
  have hcall : ∀ (line : LogLine) (f : Scope σ → Except RuntimeFault Unit × Scope σ),
      ((s.note line).clientCall f).view = ((s.view.state.note line).clientCall f).view := by
    intro line f
    unfold State.clientCall State.attempt State.within
    simp only [show (s.view.state.note line).scope = (s.note line).scope from rfl]
    rcases f (s.note line).scope with ⟨_ | _, sc⟩ <;> rfl
  unfold View.onState State.clientOp
  simp only [show s.view.state.scope = s.scope from rfl]
  split
  · rfl
  · split
    · exact hcall _ _
    · exact hcall _ _
    · exact hcall _ _
    · exact hcall _ _
    · exact hcall _ _
    · rfl

/-- What is done with a list in a state is done, element by element, in its view. -/
theorem view_foldl {α : Type} {f : State σ → α → State σ}
    (hf : ∀ (s : State σ) x, (f s x).view = s.view.onState (f · x)) (l : List α) :
    (l.foldl f s).view = l.foldl (fun v x => v.onState (f · x)) s.view :=
  (List.foldl_hom State.view fun s x => (hf s x).symm).symm

theorem view_includeFile (fs : Files) (path : String) :
    (s.includeFile fs path).view = s.view.onState (State.includeFile fs · path) := by
  unfold View.onState State.includeFile
  cases fs.readTemplates path <;> rfl

theorem view_includeFiles (files : String) :
    (s.includeFiles st files).view = s.view.onState (State.includeFiles st files) := by
  have hnote : ∀ (s : State σ) (_ : Nat), (s.note (.warn "invalid include pattern")).view =
      s.view.onState (State.note (.warn "invalid include pattern")) := fun _ _ => rfl
  unfold View.onState State.includeFiles
  simp only [view_foldl _ (view_includeFile · _), view_foldl _ hnote]
  rfl

theorem view_aliasOf (a : Action) : (s.aliasOf st a).1 = (s.view.state.aliasOf st a).1 ∧
    (s.aliasOf st a).2.view = (s.view.state.aliasOf st a).2.view := by
  unfold State.aliasOf
  simp only [show s.view.state.draws = s.draws from rfl]
  split_ifs <;> exact ⟨rfl, rfl⟩

theorem drifts_launched {k : Ticket} (l : Launch) (c : ChannelId) (i : ThreadId)
    (hk : k.repeats = 0) :
    (s.view.named k.alias_ l.handle).Drifts env (s.launched i k none l c).view := by
  have hn := drifts_note env
    ({ s with scope := { s.scope with aliases := s.scope.aliases.put k.alias_ l.handle } } : State σ)
    (.info k.task.describe)
  unfold State.launched
  simp only [hk]
  exact hn

end

/-! ## Jobs that stand aside -/

/-- A job that starts nothing and reads nothing of what the resolution of actions changes. -/
def Job.aside : Job → Bool
  | .drain .. | .failed .. | .stopOnError | .watch .. | .expire .. | .send .. | .sleep _ | .wake _
  | .join _ | .hang | .elapsed => true
  | _ => false

namespace State

variable (s : State σ)

theorem record_world (e : Event) : (s.record e).scope.world = s.scope.world := by
  unfold record Scope.record
  split_ifs <;> rfl

theorem terminate_world (code : Int) : (s.terminate code).scope.world = s.scope.world := by
  unfold terminate
  split_ifs
  · rfl
  · rw [record_world]
    unfold emit Scope.record
    split_ifs <;> rfl

theorem failed_world (st : Settings σ) (i : ThreadId) (describe : String) (fault : RuntimeFault) :
    (s.failed st i describe fault).scope.world = s.scope.world := by
  unfold failed
  simp only []
  split_ifs
  · unfold collect
    split
    · exact (note_world _ _).trans (record_world s _)
    · split_ifs
      · exact (note_world _ _).trans (record_world s _)
      · exact (note_world _ _).trans ((note_world _ _).trans (record_world s _))
  · exact (note_world _ _).trans (record_world s _)
  · exact record_world s _

theorem drain_world (i : ThreadId) (c : ChannelId) (describe : String) (left : Nat) :
    (s.drain i c describe left).scope.world = s.scope.world := by
  unfold drain
  simp only []
  split
  · split
    · rfl
    · exact note_world _ _
  · rfl

end State

section

variable {st : Settings σ} {s s' : State σ} {i : ThreadId} {j : Job}

theorem aside_world (hj : j.aside = true) :
    Relation.ReflTransGen st.env.Watches s.scope.world (j.perform st i s).scope.world := by
  have hsame : ∀ {w : σ}, w = s.scope.world → Relation.ReflTransGen st.env.Watches s.scope.world w := by
    rintro w rfl
    exact .refl
  cases j with
  | drain c describe left => exact hsame (s.drain_world i c describe left)
  | failed describe fault => exact hsame (s.failed_world st i describe fault)
  | stopOnError =>
    refine hsame ?_
    show (s.stopOnError st).scope.world = _
    unfold State.stopOnError
    split_ifs
    · exact s.terminate_world 1
    · rfl
  | elapsed => exact hsame ((State.terminate_world _ 0).trans (s.note_world _))
  | watch task id c =>
    refine .single ?_
    have hw : ((s.watch st i task id c)).scope.world = (st.env.runtime.watch task id s.scope.world).2 := by
      unfold State.watch
      simp only []
      split
      · exact congrArg Scope.world (State.tell_scope i _ c _)
      · split_ifs <;> rfl
    show st.env.Watches _ (s.watch st i task id c).scope.world
    rw [hw]
    exact .watch task id s.scope.world
  | expire task id c =>
    refine .single ?_
    have he : (s.expire st i task id c).scope.world = (st.env.runtime.expire task id s.scope.world).2 :=
      congrArg Scope.world (State.tell_scope i _ c _)
    show st.env.Watches _ (s.expire st i task id c).scope.world
    rw [he]
    exact .expire task id s.scope.world
  | send | sleep | wake | join | hang => exact .refl
  | _ => cases hj

/-- In a job that stands aside no more happens than that the containers go on. -/
theorem aside_drifts (h : Stepped st i j s s') (hj : j.aside = true) :
    s.view.Drifts st.env s'.view := by
  have hk := h.keeps
  have hworld : s'.scope.world = (j.perform st i (s.pop i)).scope.world := by
    rw [h.result]
    unfold State.endBroken
    split_ifs <;> rfl
  refine ⟨?_, ⟨hk.aliases ?_ ?_, hk.loops ?_, hk.topology ?_⟩, hk.templates ?_, hk.draws ?_⟩
  · rw [show s'.view.scope.world = _ from hworld]
    exact aside_world (s := s.pop i) hj
  all_goals
    intros
    rintro rfl
    cases hj

end

end Workload.Run

import Mathlib.Logic.Relation
import Workload.Proofs.Rests

/-!
# Flattening

A list of actions read from the first one to the last (`Flattens`): a plain one launches what its texts
say, an operation or an include is done, and a reference to a template stands for the list that it expands
to, which is read in its place.  Between any two things that are done the containers may go on
(`View.Drifts`).
-/

namespace Workload

variable {σ : Type}

/-- A container that is watched goes on. -/
inductive Environment.Watches (env : Environment σ) : σ → σ → Prop
  | watch (task : Task) (id : String) (w : σ) : Watches env w (env.runtime.watch task id w).2
  | expire (task : Task) (id : String) (w : σ) : Watches env w (env.runtime.expire task id w).2

/-- The list that a reference to a template with the given body expands to.  Arguments without a value are
taken as they stand. -/
def Action.expansion (a : Action) (body : List Action) (args : Except ExpressionFault String) :
    List Action :=
  Template.expand body a (Template.splitArgs (args.toOption.getD a.args))

namespace Run

/-- What the resolution of actions reads and changes. -/
structure View (σ : Type) where
  scope : Scope σ
  templates : TemplateCache
  draws : List String

def State.view (s : State σ) : View σ := ⟨s.scope, s.templates, s.draws⟩

namespace View

/-- A state with nothing else in it. -/
def state (v : View σ) : State σ := { scope := v.scope, templates := v.templates, draws := v.draws }

def onState (f : State σ → State σ) (v : View σ) : View σ := (f v.state).view

/-- The counter is set. -/
def counting (pass : Nat) (v : View σ) : View σ := { v with scope := { v.scope with loops := pass } }

/-- A handle is recorded under an alias. -/
def named (alias_ handle : String) (v : View σ) : View σ :=
  { v with scope := { v.scope with aliases := v.scope.aliases.put alias_ handle } }

/-- The containers have gone on from one view to the other, if anything. -/
structure Drifts (env : Environment σ) (v v' : View σ) : Prop where
  world : Relation.ReflTransGen env.Watches v.scope.world v'.scope.world
  scope : v.scope.Rests v'.scope
  templates : v'.templates = v.templates
  draws : v'.draws = v.draws

section

variable {env : Environment σ} {v v' v'' : View σ}

theorem Drifts.refl (v : View σ) : v.Drifts env v := ⟨.refl, .refl _, rfl, rfl⟩

theorem Drifts.trans (h : v.Drifts env v') (h' : v'.Drifts env v'') : v.Drifts env v'' :=
  ⟨h.world.trans h'.world, h.scope.trans h'.scope, h'.templates.trans h.templates,
    h'.draws.trans h.draws⟩

theorem Drifts.counting (h : v.Drifts env v') (pass : Nat) :
    (v.counting pass).Drifts env (v'.counting pass) :=
  ⟨h.world, ⟨h.scope.aliases, rfl, h.scope.topology⟩, h.templates, h.draws⟩

theorem Drifts.named (h : v.Drifts env v') (alias_ handle : String) :
    (v.named alias_ handle).Drifts env (v'.named alias_ handle) :=
  ⟨h.world, ⟨congrArg (fun l : Aliases => l.put alias_ handle) h.scope.aliases, h.scope.loops, h.scope.topology⟩,
    h.templates, h.draws⟩

end

end View

section

variable (st : Settings σ)

/-- The task of an action whose texts have these values. -/
def Settings.task (a : Action) (command : List String) (limit : Duration) (instances : Nat)
    (sc : Scope σ) : Task where
  name := st.config.containerName
  describe := Settings.describe a command
  image := a.image
  command
  entrypoint := if a.entrypoint.isEmpty then none else some a.entrypoint
  isAsync := !a.wait
  duration := limit
  concurrency := instances
  logLevel := st.config.logLevel
  logDir := st.config.logDir
  links := sc.links st.env

/-- A task is launched if it has a command, and its handle is recorded if the launch comes off. -/
inductive Launches (task : Task) (alias_ : String) : View σ → List Task → View σ → Prop
  | idle {v w : View σ} : task.command = [] → v.Drifts st.env w → Launches task alias_ v [] w
  | accepted {v v₁ v₂ w : View σ} {l : Launch} {sc : Scope σ} : task.command ≠ [] →
    v.Drifts st.env v₁ → v₁.scope.launch st.env task = (.ok l, sc) →
    View.Drifts st.env { v₁ with scope := sc } v₂ → (v₂.named alias_ l.handle).Drifts st.env w →
    Launches task alias_ v [task] w
  | refused {v v₁ w : View σ} {fault : RuntimeFault} {sc : Scope σ} : task.command ≠ [] →
    v.Drifts st.env v₁ → v₁.scope.launch st.env task = (.error fault, sc) →
    View.Drifts st.env { v₁ with scope := sc } w → Launches task alias_ v [task] w

/-- The task is launched under the alias of an action. -/
def Controls (task : Task) (a : Action) (v : View σ) (calls : List Task) (w : View σ) : Prop :=
  Launches st task (v.state.aliasOf st a).1 (v.state.aliasOf st a).2.view calls w

/-- A plain action is launched if its requirement holds and its command can be read. -/
inductive Dispatches (a : Action) : View σ → List Task → View σ → Prop
  | skipped {v v₁ w : View σ} {sc : Scope σ} : v.Drifts st.env v₁ →
    st.requirement a.requires v₁.scope = (false, sc) →
    View.Drifts st.env { v₁ with scope := sc } w → Dispatches a v [] w
  | unreadable {v v₁ w : View σ} {sc₁ sc₂ : Scope σ} {fault : ExpressionFault} : v.Drifts st.env v₁ →
    st.requirement a.requires v₁.scope = (true, sc₁) →
    sc₁.compileCommand st.env a.command = (.error fault, sc₂) →
    View.Drifts st.env { v₁ with scope := sc₂ } w → Dispatches a v [] w
  | compiled {v v₁ w : View σ} {sc₁ sc₂ sc₃ sc₄ : Scope σ} {command : List String} {limit : Duration}
    {instances : Nat} {calls : List Task} : v.Drifts st.env v₁ →
    st.requirement a.requires v₁.scope = (true, sc₁) →
    sc₁.compileCommand st.env a.command = (.ok command, sc₂) →
    st.duration a.duration sc₂ = (some limit, sc₃) →
    st.concurrency a.concurrency sc₃ = (instances, sc₄) →
    Controls st (st.task a command limit instances sc₄) a { v₁ with scope := sc₄ } calls w →
    Dispatches a v calls w

/-- The launches of a list of actions, which is read in some pass; `last` is the latest plain action
before it. -/
inductive Flattens (pass : Nat) : Option Action → List Action → View σ → List Task → View σ → Prop
  | done {last : Option Action} {v w : View σ} : v.Drifts st.env w → Flattens pass last [] v [] w
  | plain {last : Option Action} {a : Action} {rest : List Action} {v u w : View σ}
    {calls calls' : List Task} : a.directive = .plain →
    Dispatches st (a.carryForward last) v calls u →
    Flattens pass (some (a.carryForward last)) rest u calls' w →
    Flattens pass last (a :: rest) v (calls ++ calls') w
  | client {last : Option Action} {a : Action} {op : ClientOp} {rest : List Action} {v v₁ w : View σ}
    {calls : List Task} : a.directive = .client op → v.Drifts st.env v₁ →
    Flattens pass last rest (v₁.onState (State.clientOp st op)) calls w →
    Flattens pass last (a :: rest) v calls w
  | includes {last : Option Action} {a : Action} {files : String} {rest : List Action}
    {v v₁ w : View σ} {calls : List Task} : a.directive = .includes files → v.Drifts st.env v₁ →
    Flattens pass last rest (v₁.onState (State.includeFiles st files)) calls w →
    Flattens pass last (a :: rest) v calls w
  | unknown {last : Option Action} {a : Action} {name : String} {rest : List Action}
    {v v₁ w : View σ} {calls : List Task} : a.directive = .template name → v.Drifts st.env v₁ →
    v₁.templates.get? a.template = none → Flattens pass last rest v₁ calls w →
    Flattens pass last (a :: rest) v calls w
  | expanded {last : Option Action} {a : Action} {name : String} {rest body : List Action}
    {v v₁ u w : View σ} {r : Except ExpressionFault String} {sc : Scope σ}
    {calls calls' : List Task} : a.directive = .template name → v.Drifts st.env v₁ →
    v₁.templates.get? a.template = some body → v₁.scope.evaluate st.env a.args = (r, sc) →
    Flattens pass none (a.expansion body r) (View.counting pass { v₁ with scope := sc }) calls u →
    Flattens pass last rest u calls' w →
    Flattens pass last (a :: rest) v (calls ++ calls') w

end

/-! ## Drifting before -/

section

variable {st : Settings σ} {v v' w : View σ} {calls : List Task} {task : Task} {alias_ : String}
  {a : Action} {pass : Nat} {last : Option Action} {rest : List Action}

theorem Launches.of_drifts (hd : v.Drifts st.env v') (h : Launches st task alias_ v' calls w) :
    Launches st task alias_ v calls w := by
  cases h with
  | idle he hw => exact .idle he (hd.trans hw)
  | accepted hc h₁ hl h₂ hw => exact .accepted hc (hd.trans h₁) hl h₂ hw
  | refused hc h₁ hl hw => exact .refused hc (hd.trans h₁) hl hw

theorem aliasOf_of_drifts (st : Settings σ) {env : Environment σ} (a : Action) (hd : v.Drifts env v') :
    (v.state.aliasOf st a).1 = (v'.state.aliasOf st a).1 ∧
      (v.state.aliasOf st a).2.view.Drifts env (v'.state.aliasOf st a).2.view := by
  have hdraws : v'.state.draws = v.state.draws := hd.draws
  unfold State.aliasOf
  split_ifs
  · refine ⟨?_, hd.world, hd.scope, hd.templates, ?_⟩
    · simp only [hdraws]
    · simp only [State.view, hdraws]
  · exact ⟨rfl, hd⟩

theorem Controls.of_drifts (hd : v.Drifts st.env v') (h : Controls st task a v' calls w) :
    Controls st task a v calls w := by
  obtain ⟨halias, hview⟩ := aliasOf_of_drifts st a hd
  unfold Controls at h ⊢
  rw [halias]
  exact h.of_drifts hview

theorem Dispatches.of_drifts (hd : v.Drifts st.env v') (h : Dispatches st a v' calls w) :
    Dispatches st a v calls w := by
  cases h with
  | skipped h₁ hr hw => exact .skipped (hd.trans h₁) hr hw
  | unreadable h₁ hr hc hw => exact .unreadable (hd.trans h₁) hr hc hw
  | compiled h₁ hr hc hl hn hw => exact .compiled (hd.trans h₁) hr hc hl hn hw

theorem Flattens.of_drifts (hd : v.Drifts st.env v') (h : Flattens st pass last rest v' calls w) :
    Flattens st pass last rest v calls w := by
  cases h with
  | done hw => exact .done (hd.trans hw)
  | plain ha h₁ hw => exact .plain ha (h₁.of_drifts hd) hw
  | client ha h₁ hw => exact .client ha (hd.trans h₁) hw
  | includes ha h₁ hw => exact .includes ha (hd.trans h₁) hw
  | unknown ha h₁ hn hw => exact .unknown ha (hd.trans h₁) hn hw
  | expanded ha h₁ hs he hu hw => exact .expanded ha (hd.trans h₁) hs he hu hw

end

end Run

end Workload

import Workload.Proofs.Rests

/-!
# Evaluations side by side

Two evaluations of one text whose lookups go side by side go side by side (`evaluate_sim`).  So the
variable of the passes has the value of the counter in a whole evaluation (`evaluate_eq_evaluateIn`), and
texts have the same values in scopes that differ in nothing but what was noted and when
(`Scope.Alike`).

Where two worlds are related in a way that calls respect (`Environment.Respects`), whatever is done in two
scopes with such worlds has the same result in both, and leaves them as it found them but for the same
change: `Scope.Abreast` is kept by calls, by evaluations and by hooks.
-/

namespace Workload

namespace Expression

variable {σ τ : Type} {R : σ → τ → Prop} {lookup : String → σ → Option String × σ}
  {lookup' : String → τ → Option String × τ}

theorem replaceEach_sim (hl : ∀ name w w', R w w' →
      (lookup name w).1 = (lookup' name w').1 ∧ R (lookup name w).2 (lookup' name w').2) :
    ∀ (names : List String) (text : String) (changed : Bool) (w : σ) (w' : τ), R w w' →
      (replaceEach lookup names text changed w).1 = (replaceEach lookup' names text changed w').1 ∧
        R (replaceEach lookup names text changed w).2 (replaceEach lookup' names text changed w').2
  | [], _, _, _, _, h => ⟨rfl, h⟩
  | name :: names, text, changed, w, w', h => by
    obtain ⟨hv, hw⟩ := hl name w w' h
    unfold replaceEach
    rcases hx : lookup name w with ⟨value, v⟩
    rcases hx' : lookup' name w' with ⟨value', v'⟩
    rw [hx, hx'] at hv hw
    obtain rfl : value = value' := hv
    cases value with
    | none => exact replaceEach_sim hl names _ _ v v' hw
    | some value =>
      simp only []
      split_ifs
      · exact replaceEach_sim hl names _ _ v v' hw
      · exact replaceEach_sim hl names _ _ v v' hw

theorem interpolatePasses_sim (hl : ∀ name w w', R w w' →
      (lookup name w).1 = (lookup' name w').1 ∧ R (lookup name w).2 (lookup' name w').2) :
    ∀ (passes : Nat) (text : String) (w : σ) (w' : τ), R w w' →
      (interpolatePasses lookup passes text w).1 = (interpolatePasses lookup' passes text w').1 ∧
        R (interpolatePasses lookup passes text w).2 (interpolatePasses lookup' passes text w').2
  | 0, _, _, _, h => ⟨rfl, h⟩
  | passes + 1, text, w, w', h => by
    obtain ⟨hv, hw⟩ := replaceEach_sim hl (vars text) text false w w' h
    unfold interpolatePasses
    rcases hx : replaceEach lookup (vars text) text false w with ⟨⟨text₁, changed⟩, v⟩
    rcases hx' : replaceEach lookup' (vars text) text false w' with ⟨⟨text₁', changed'⟩, v'⟩
    rw [hx, hx'] at hv hw
    obtain ⟨rfl, rfl⟩ : text₁ = text₁' ∧ changed = changed' := Prod.ext_iff.1 hv
    simp only []
    split_ifs
    · exact interpolatePasses_sim hl passes text₁ v v' hw
    · exact ⟨rfl, hw⟩

/-- Evaluations whose lookups have the same values, side by side, have the same value. -/
theorem evaluate_sim (hl : ∀ name w w', R w w' →
      (lookup name w).1 = (lookup' name w').1 ∧ R (lookup name w).2 (lookup' name w').2)
    (text : String) {w : σ} {w' : τ} (h : R w w') :
    (evaluate lookup text w).1 = (evaluate lookup' text w').1 ∧
      R (evaluate lookup text w).2 (evaluate lookup' text w').2 := by
  unfold evaluate
  split
  · exact ⟨rfl, h⟩
  · exact interpolatePasses_sim hl maxPasses _ w w' h

end Expression

namespace Scope

variable {σ : Type} (env : Environment σ)

/-- The value of a variable in a pass, whatever the counter is. -/
def lookupIn (pass : Nat) (name : String) (s : Scope σ) : Option String × Scope σ :=
  if name = "loop" then (some (toString pass), s) else lookup env name s

/-- The value of an expression in a pass, whatever the counter is. -/
def evaluateIn (pass : Nat) (text : String) (s : Scope σ) :
    Except ExpressionFault String × Scope σ :=
  match Expression.evaluate (lookupIn env pass) text s with
  | (.error .rangeTooLong, s) => (.error .rangeTooLong, s.break_)
  | r => r

/-- As long as the counter is that of a pass, expressions are evaluated in that pass. -/
theorem evaluate_eq_evaluateIn (text : String) (s : Scope σ) :
    s.evaluate env text = s.evaluateIn env s.loops text := by
  have hl : ∀ name (w w' : Scope σ), w = w' ∧ w.loops = s.loops →
      (lookup env name w).1 = (lookupIn env s.loops name w').1 ∧
        (lookup env name w).2 = (lookupIn env s.loops name w').2 ∧
          (lookup env name w).2.loops = s.loops := by
    rintro name w w' ⟨rfl, hw⟩
    have hrests := (rests_lookup env name w).loops.trans hw
    unfold lookupIn
    split_ifs with hn
    · subst hn
      unfold lookup
      rw [if_pos rfl]
      exact ⟨by rw [hw], rfl, hw⟩
    · exact ⟨rfl, rfl, hrests⟩
  obtain ⟨hv, hw, -⟩ := Expression.evaluate_sim hl text ⟨rfl, rfl⟩
  unfold evaluate evaluateIn
  rewrite [Prod.ext hv hw]
  rfl

end Scope

/-! ## Scopes side by side -/

namespace Scope

variable {σ ε α : Type}

/-- Two scopes in which all texts have the same values. -/
structure Alike (s s' : Scope σ) : Prop where
  world : s.world = s'.world
  rests : s.Rests s'

/-- What is done in two scopes that are alike has the same result in both, and leaves them alike. -/
def SideBySide (f : Scope σ → α × Scope σ) : Prop :=
  ∀ s s', s.Alike s' → (f s).1 = (f s').1 ∧ (f s).2.Alike (f s').2

namespace Alike

variable {s s' s'' : Scope σ}

theorem refl (s : Scope σ) : s.Alike s := ⟨rfl, .refl s⟩

theorem symm (h : s.Alike s') : s'.Alike s :=
  ⟨h.world.symm, h.rests.aliases.symm, h.rests.loops.symm, h.rests.topology.symm⟩

theorem trans (h : s.Alike s') (h' : s'.Alike s'') : s.Alike s'' :=
  ⟨h.world.trans h'.world, h.rests.trans h'.rests⟩

theorem note (line : LogLine) (s : Scope σ) : s.Alike (s.note line) := by
  refine ⟨?_, rests_note line s⟩
  unfold Scope.note
  split_ifs <;> rfl

theorem record (e : Event) (s : Scope σ) : s.Alike (s.record e) := by
  refine ⟨?_, rests_record e s⟩
  unfold Scope.record
  split_ifs <;> rfl

theorem notes (h : s.Alike s') (line : LogLine) : (s.note line).Alike (s'.note line) :=
  (note line s).symm.trans (h.trans (note line s'))

end Alike

theorem sideBySide_ask (c : Call σ ε α) : SideBySide fun s : Scope σ => s.ask c := by
  intro s s' h
  show (c s.world).1.result = (c s'.world).1.result ∧ _
  rw [h.world]
  refine ⟨rfl, ?_, h.rests.aliases, h.rests.loops, h.rests.topology⟩
  show (c s.world).2 = (c s'.world).2
  rw [h.world]

theorem sideBySide_call (c : Call σ ε α) (event : Except ε α → Event) :
    SideBySide fun s : Scope σ => s.call c event := by
  intro s s' h
  obtain ⟨hr, hs⟩ := sideBySide_ask c s s' h
  refine ⟨hr, ?_⟩
  exact (Alike.record _ _).symm.trans (hs.trans (Alike.record _ _))

theorem SideBySide.eq {f : Scope σ → α × Scope σ} {s s' t t' : Scope σ} {a a' : α} (hf : SideBySide f)
    (h : s.Alike s') (he : f s = (a, t)) (he' : f s' = (a', t')) : a = a' ∧ t.Alike t' := by
  have := hf s s' h
  rwa [he, he'] at this

variable (env : Environment σ)

theorem sideBySide_launch (task : Task) : SideBySide (Scope.launch env task) :=
  sideBySide_call (env.runtime.run task) (.run task)

theorem sideBySide_lookupCall (function argument : String) :
    SideBySide (lookupCall env function argument) := by
  intro s s' h
  have halias := h.rests.aliases
  unfold lookupCall
  split
  · obtain ⟨hr, hs⟩ := sideBySide_call (env.runtime.status ((s.aliases.get? argument).getD argument))
      (.status ((s.aliases.get? argument).getD argument)) s s' h
    rw [halias]
    unfold status
    exact ⟨congrArg (fun r => some (r.toOption.elim "missing" ContainerStatus.text)) hr, hs⟩
  · obtain ⟨hr, hs⟩ := sideBySide_ask (env.provider.host argument) s s' h
    exact ⟨congrArg Except.toOption hr, hs⟩
  · obtain ⟨hr, hs⟩ := sideBySide_ask (env.provider.rest argument) s s' h
    exact ⟨congrArg Except.toOption hr, hs⟩
  · exact ⟨rfl, h⟩
  · exact ⟨rfl, h⟩

theorem sideBySide_lookup (name : String) : SideBySide (lookup env name) := by
  intro s s' h
  unfold lookup
  rw [h.rests.loops, h.rests.topology, h.rests.aliases]
  split_ifs
  · exact ⟨rfl, h⟩
  · split
    · exact ⟨rfl, h⟩
    · exact ⟨rfl, h.world, h.rests.aliases, h.rests.loops, h.rests.topology⟩
  · split
    · exact sideBySide_lookupCall env _ _ s s' h
    · exact ⟨rfl, h⟩

theorem sideBySide_evaluate (text : String) : SideBySide (evaluate env text) := by
  intro s s' h
  obtain ⟨hr, hs⟩ := Expression.evaluate_sim (sideBySide_lookup env) text h
  unfold evaluate
  rcases he : Expression.evaluate (lookup env) text s with ⟨r, t⟩
  rcases he' : Expression.evaluate (lookup env) text s' with ⟨r', t'⟩
  rw [he, he'] at hr hs
  obtain rfl : r = r' := hr
  have hb : t.break_.Alike t'.break_ := ⟨hs.world, hs.rests.aliases, hs.rests.loops, hs.rests.topology⟩
  cases r with
  | ok => exact ⟨rfl, hs⟩
  | error fault => cases fault <;> first | exact ⟨rfl, hs⟩ | exact ⟨rfl, hb⟩

theorem sideBySide_compileCommand (text : String) : SideBySide (compileCommand env text) := by
  intro s s' h
  obtain ⟨hr, hs⟩ := sideBySide_evaluate env text s s' h
  exact ⟨congrArg (fun r => r.bind Command.split) hr, hs⟩

theorem sideBySide_condition (text : String) : SideBySide (condition env text) := by
  intro s s' h
  obtain ⟨hr, hs⟩ := sideBySide_evaluate env text s s' h
  exact ⟨congrArg (fun r => r.bind Expression.decideCondition) hr, hs⟩

end Scope

/-! ## Scopes abreast -/

/-- A task, whether or not its launch is waited for. -/
def Task.unwaited (t : Task) : Task := { t with isAsync := false }

/-- The launch that an event tells of: when it was asked for, for which task, and what came of it. -/
def TimedEvent.launch? (e : TimedEvent) : Option (Nat × Task × Except RuntimeFault Launch) :=
  match e.event with
  | .run task r => some (e.time, task.unwaited, r)
  | _ => none

section Calls

variable {σ ε α : Type}

/-- Calls on related worlds answer the same, and leave related worlds. -/
def Respecting (R : σ → σ → Prop) (c c' : Call σ ε α) : Prop :=
  ∀ w w', R w w' → (c w).1 = (c' w').1 ∧ R (c w).2 (c' w').2

/-- What a hook does respects the relation. -/
def Hook.Respects (R : σ → σ → Prop) : Hook σ → Prop
  | .nothing => True
  | .call act => Respecting R act act
  | .command _ execute => ∀ command, Respecting R (execute command) (execute command)

/-- All calls but those that provide nodes respect the relation. -/
structure Environment.Respects (env : Environment σ) (R : σ → σ → Prop) : Prop where
  run : ∀ task, Respecting R (env.runtime.run task) (env.runtime.run task)
  start : ∀ handle, Respecting R (env.runtime.start handle) (env.runtime.start handle)
  kill : ∀ handle, Respecting R (env.runtime.kill handle) (env.runtime.kill handle)
  remove : ∀ handle, Respecting R (env.runtime.remove handle) (env.runtime.remove handle)
  copy : ∀ handle source target,
    Respecting R (env.runtime.copy handle source target) (env.runtime.copy handle source target)
  status : ∀ handle, Respecting R (env.runtime.status handle) (env.runtime.status handle)
  reclaim : ∀ soft, Respecting R (env.runtime.reclaim soft) (env.runtime.reclaim soft)
  purge : Respecting R env.runtime.purge env.runtime.purge
  watch : ∀ task id w w', R w w' → (env.runtime.watch task id w).1 = (env.runtime.watch task id w').1 ∧
    R (env.runtime.watch task id w).2 (env.runtime.watch task id w').2
  expire : ∀ task id, Respecting R (env.runtime.expire task id) (env.runtime.expire task id)
  host : ∀ node, Respecting R (env.provider.host node) (env.provider.host node)
  rest : ∀ node, Respecting R (env.provider.rest node) (env.provider.rest node)
  links : ∀ p, env.provider.provisioning = some p → ∀ w w', R w w' → p.links w = p.links w'
  saveLogs : ∀ p, env.provider.provisioning = some p → ∀ directory,
    Respecting R (p.saveLogs directory) (p.saveLogs directory)
  removeServers : ∀ p, env.provider.provisioning = some p → ∀ soft,
    Respecting R (p.removeServers soft) (p.removeServers soft)
  hooks : ∀ name, (env.hooks name).Respects R
  files : ∀ w w', R w w' → env.files w = env.files w'

end Calls

namespace Scope

variable {σ ε α : Type} {R : σ → σ → Prop}

/-- The launches so far, the latest first. -/
def launched (s : Scope σ) : List (Nat × Task × Except RuntimeFault Launch) :=
  s.trace.filterMap TimedEvent.launch?

/-- Two scopes with related worlds that tell of the same launches. -/
structure Abreast (R : σ → σ → Prop) (s s' : Scope σ) : Prop where
  world : R s.world s'.world
  rests : s.Rests s'
  clock : s'.clock = s.clock
  broken : s'.broken = s.broken
  launched : s'.launched = s.launched

/-- What is done in two scopes abreast has the same result in both, and leaves them abreast. -/
def Keeping (R : σ → σ → Prop) (f f' : Scope σ → α × Scope σ) : Prop :=
  ∀ s s', s.Abreast R s' → (f s).1 = (f' s').1 ∧ (f s).2.Abreast R (f' s').2

namespace Abreast

variable {s s' : Scope σ}

theorem note (h : s.Abreast R s') (line : LogLine) : (s.note line).Abreast R (s'.note line) := by
  unfold Scope.note
  rw [h.broken]
  split_ifs
  · exact h
  · exact ⟨h.world, ⟨h.rests.aliases, h.rests.loops, h.rests.topology⟩, h.clock, rfl, h.launched⟩

/-- Events that tell of the same launch, or of none. -/
theorem record (h : s.Abreast R s') {e e' : Event}
    (he : TimedEvent.launch? ⟨s.clock, e⟩ = TimedEvent.launch? ⟨s.clock, e'⟩) :
    (s.record e).Abreast R (s'.record e') := by
  unfold Scope.record
  rw [h.broken, h.clock]
  split_ifs
  · exact h
  · refine ⟨h.world, ⟨h.rests.aliases, h.rests.loops, h.rests.topology⟩, rfl, rfl, ?_⟩
    have hl := h.launched
    unfold Scope.launched at hl ⊢
    simp only [List.filterMap_cons, ← he, hl]

theorem break_ (h : s.Abreast R s') : s.break_.Abreast R s'.break_ :=
  ⟨h.world, ⟨h.rests.aliases, h.rests.loops, h.rests.topology⟩, h.clock, rfl, h.launched⟩

end Abreast

theorem Keeping.eq {f f' : Scope σ → α × Scope σ} {s s' t t' : Scope σ} {a a' : α} (hf : Keeping R f f')
    (h : s.Abreast R s') (he : f s = (a, t)) (he' : f' s' = (a', t')) : a = a' ∧ t.Abreast R t' := by
  have := hf s s' h
  rwa [he, he'] at this

theorem keeping_take (r : Reply ε α) {w w' : σ} (hw : R w w') {s s' : Scope σ} (h : s.Abreast R s') :
    (s.take r w).1 = (s'.take r w').1 ∧ (s.take r w).2.Abreast R (s'.take r w').2 := by
  refine ⟨rfl, hw, ⟨h.rests.aliases, h.rests.loops, h.rests.topology⟩, h.clock, ?_, h.launched⟩
  show (s'.broken || r.broken) = (s.broken || r.broken)
  rw [h.broken]

theorem keeping_ask {c c' : Call σ ε α} (hc : Respecting R c c') :
    Keeping R (ask c) (ask c') := by
  intro s s' h
  obtain ⟨hr, hw⟩ := hc s.world s'.world h.world
  unfold ask
  rcases hx : c s.world with ⟨r, w⟩
  rcases hx' : c' s'.world with ⟨r', w'⟩
  rw [hx, hx'] at hr hw
  obtain rfl : r = r' := hr
  simp only []
  exact keeping_take r hw h

theorem keeping_call {c c' : Call σ ε α} {event event' : Except ε α → Event} (hc : Respecting R c c')
    (he : ∀ time r, TimedEvent.launch? ⟨time, event r⟩ = TimedEvent.launch? ⟨time, event' r⟩) :
    Keeping R (call c event) (call c' event') := by
  intro s s' h
  obtain ⟨hr, hs⟩ := keeping_ask hc s s' h
  unfold call
  rcases hx : s.ask c with ⟨r, t⟩
  rcases hx' : s'.ask c' with ⟨r', t'⟩
  rw [hx, hx'] at hr hs
  obtain rfl : r = r' := hr
  simp only []
  exact ⟨trivial, hs.record (he _ r)⟩

section Evaluations

variable {env : Environment σ} (henv : env.Respects R)

include henv

theorem keeping_status (handle : String) :
    Keeping R (Scope.status env handle) (Scope.status env handle) :=
  keeping_call (henv.status handle) fun _ _ => rfl

theorem keeping_remove (handle : String) :
    Keeping R (Scope.remove env handle) (Scope.remove env handle) :=
  keeping_call (henv.remove handle) fun _ _ => rfl

omit henv in
theorem keeping_launch {task task' : Task} (hc : Respecting R (env.runtime.run task) (env.runtime.run task'))
    (ht : task'.unwaited = task.unwaited) :
    Keeping R (Scope.launch env task) (Scope.launch env task') :=
  keeping_call hc fun time r => congrArg (fun t => some (time, t, r)) ht.symm

theorem keeping_lookupCall (function argument : String) :
    Keeping R (lookupCall env function argument) (lookupCall env function argument) := by
  intro s s' h
  unfold lookupCall
  rw [h.rests.aliases]
  split
  · obtain ⟨hr, hs⟩ := keeping_status henv ((s.aliases.get? argument).getD argument) s s' h
    exact ⟨congrArg (fun r => some (r.toOption.elim "missing" ContainerStatus.text)) hr, hs⟩
  · obtain ⟨hr, hs⟩ := keeping_ask (henv.host argument) s s' h
    exact ⟨congrArg Except.toOption hr, hs⟩
  · obtain ⟨hr, hs⟩ := keeping_ask (henv.rest argument) s s' h
    exact ⟨congrArg Except.toOption hr, hs⟩
  · exact ⟨rfl, h⟩
  · exact ⟨rfl, h⟩

theorem keeping_lookup (name : String) : Keeping R (lookup env name) (lookup env name) := by
  intro s s' h
  unfold lookup
  rw [h.rests.loops, h.rests.topology, h.rests.aliases]
  split_ifs
  · exact ⟨rfl, h⟩
  · split
    · exact ⟨rfl, h⟩
    · exact ⟨rfl, h.break_⟩
  · split
    · exact keeping_lookupCall henv _ _ s s' h
    · exact ⟨rfl, h⟩

theorem keeping_evaluate (text : String) : Keeping R (evaluate env text) (evaluate env text) := by
  intro s s' h
  obtain ⟨hr, hs⟩ := Expression.evaluate_sim (keeping_lookup henv) text h
  unfold evaluate
  rcases he : Expression.evaluate (lookup env) text s with ⟨r, t⟩
  rcases he' : Expression.evaluate (lookup env) text s' with ⟨r', t'⟩
  rw [he, he'] at hr hs
  obtain rfl : r = r' := hr
  cases r with
  | ok => exact ⟨rfl, hs⟩
  | error fault =>
    cases fault with
    | rangeTooLong => exact ⟨rfl, hs.break_⟩
    | _ => exact ⟨rfl, hs⟩

theorem keeping_compileCommand (text : String) :
    Keeping R (compileCommand env text) (compileCommand env text) := by
  intro s s' h
  obtain ⟨hr, hs⟩ := keeping_evaluate henv text s s' h
  exact ⟨congrArg (fun r => r.bind Command.split) hr, hs⟩

theorem keeping_condition (text : String) : Keeping R (condition env text) (condition env text) := by
  intro s s' h
  obtain ⟨hr, hs⟩ := keeping_evaluate henv text s s' h
  exact ⟨congrArg (fun r => r.bind Expression.decideCondition) hr, hs⟩

theorem keeping_hook (name : HookName) : Keeping R (hook env name) (hook env name) := by
  have hcarry : Keeping R (carryOut env name (env.hooks name)) (carryOut env name (env.hooks name)) := by
    intro s s' h
    have hh := henv.hooks name
    unfold carryOut
    cases hx : env.hooks name with
    | nothing => exact ⟨rfl, h⟩
    | call act =>
      rw [hx] at hh
      exact keeping_ask hh s s' h
    | command text execute =>
      rw [hx] at hh
      obtain ⟨hr, hs⟩ := keeping_evaluate henv text s s' h
      rcases he : s.evaluate env text with ⟨r, t⟩
      rcases he' : s'.evaluate env text with ⟨r', t'⟩
      rw [he, he'] at hr hs
      obtain rfl : r = r' := hr
      simp only [he, he']
      cases r with
      | ok command => exact keeping_ask (hh command) t t' hs
      | error => exact ⟨rfl, hs⟩
  intro s s' h
  obtain ⟨hr, hs⟩ := hcarry s s' h
  unfold hook
  rcases hx : s.carryOut env name (env.hooks name) with ⟨r, t⟩
  rcases hx' : s'.carryOut env name (env.hooks name) with ⟨r', t'⟩
  rw [hx, hx'] at hr hs
  obtain rfl : r = r' := hr
  exact ⟨rfl, hs.record rfl⟩

theorem files_eq {s s' : Scope σ} (h : s.Abreast R s') : s.files env = s'.files env :=
  henv.files _ _ h.world

theorem links_eq {s s' : Scope σ} (h : s.Abreast R s') : s.links env = s'.links env := by
  unfold links
  cases hp : env.provider.provisioning with
  | none => rfl
  | some p =>
    simp only []
    rw [henv.links p hp _ _ h.world]

end Evaluations

end Scope

end Workload

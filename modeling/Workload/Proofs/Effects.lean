import Workload.Proofs.Tables

/-!
# What a job does

`Job.perform_effect` reads the tables off the operations: nothing else happens when a job is done.
-/

namespace Workload.Run

variable {σ α : Type}

/-! ## Breaking off -/

namespace State

/-- From `s` to `s'` thread `i` broke off. -/
structure Breaks (kinds : List EventKind) (i : ThreadId) (spawned : List (List Job))
    (s s' : State σ) : Prop where
  threads : ∀ t, s.threads[i]? = some t → ∃ n,
    s'.threads = s.threads.set i ⟨[], n, true⟩ ++ spawned.map Thread.ofJobs
  scope : s.scope.Grows kinds s'.scope

theorem Moves.crash {kinds : List EventKind} {i : ThreadId} {new : List Job}
    {spawned : List (List Job)} {s s' : State σ} (h : Moves kinds i new spawned s s') :
    Breaks kinds i spawned s (s'.crash i) := by
  refine ⟨fun t ht => ?_, h.scope⟩
  have hi : i < s.threads.length := (List.getElem?_eq_some_iff.1 ht).1
  obtain ⟨n, hn⟩ := h.threads t ht
  have hs' : s'.threads[i]? = some ⟨new ++ t.jobs, n, t.crashed⟩ := by
    rw [hn, List.getElem?_append_left (by simpa using hi), List.getElem?_set_self hi]
  refine ⟨n, ?_⟩
  unfold State.crash
  rw [modify_eq_set_of_getElem? _ hs', hn, List.set_append_left _ _ (by simpa using hi),
    List.set_set]

theorem Breaks.crash {kinds : List EventKind} {i : ThreadId} {spawned : List (List Job)}
    {s s' : State σ} (h : Breaks kinds i spawned s s') : Breaks kinds i spawned s (s'.crash i) := by
  refine ⟨fun t ht => ?_, h.scope⟩
  have hi : i < s.threads.length := (List.getElem?_eq_some_iff.1 ht).1
  obtain ⟨n, hn⟩ := h.threads t ht
  have hs' : s'.threads[i]? = some ⟨[], n, true⟩ := by
    rw [hn, List.getElem?_append_left (by simpa using hi), List.getElem?_set_self hi]
  refine ⟨n, ?_⟩
  unfold State.crash
  rw [modify_eq_set_of_getElem? _ hs', hn, List.set_append_left _ _ (by simpa using hi),
    List.set_set]

end State

/-- What doing a job of thread `i` makes of a state, the job already taken off. -/
structure Effect (st : Settings σ) (i : ThreadId) (j : Job) (s s' : State σ) : Prop where
  moves : ∃ new spawned, j.Yields st s s' new spawned ∧
    (s.Moves j.notes i new spawned s' ∨ (∃ a, j = .dispatch a) ∧ s.Breaks j.notes i spawned s')
  board : j.Posts s.board s'.board

theorem Effect.of_moves {st : Settings σ} {i : ThreadId} {j : Job} {s s' : State σ}
    {new : List Job} {spawned : List (List Job)} (hy : j.Yields st s s' new spawned)
    (hm : s.Moves j.notes i new spawned s') (hb : j.Posts s.board s'.board) : Effect st i j s s' :=
  ⟨⟨new, spawned, hy, .inl hm⟩, hb⟩

/-! ## The operations -/

namespace State

variable (st : Settings σ) (i : ThreadId) (s : State σ)

section Scope

variable {ε : Type} {kinds : List EventKind}

theorem moves_note (line : LogLine) : Moves kinds i [] [] s (s.note line) :=
  .of_eq rfl ((Scope.grows_note line s.scope).mono (List.nil_subset _))

theorem moves_within {f : Scope σ → α × Scope σ} (hf : s.scope.Grows kinds (f s.scope).2) :
    Moves kinds i [] [] s (s.within f).2 :=
  .of_eq rfl hf

theorem attempt_moves {f : Scope σ → Except ε Unit × Scope σ} (warning : LogLine)
    (hf : s.scope.Grows kinds (f s.scope).2) :
    Moves kinds i [] [] s (s.attempt f warning) ∧ (s.attempt f warning).board = s.board := by
  have hm := moves_within i s hf
  unfold attempt
  rcases hw : s.within f with ⟨r, s'⟩
  rw [hw] at hm
  have hb : s'.board = s.board := by
    have := congrArg (fun p => p.2.board) hw
    exact this.symm
  cases r with
  | ok _ => exact ⟨hm, hb⟩
  | error _ =>
    exact ⟨hm.then_eq rfl ((Scope.grows_note warning _).mono (List.nil_subset _)), hb⟩

end Scope

/-! ### Phases -/

theorem makeOpeningCall_moves (c : OpeningCall) :
    Moves [.status, .purge, .provide, .hook] i [] [] s (s.makeOpeningCall st c).2 ∧
      (s.makeOpeningCall st c).2.board = s.board := by
  cases c with
  | purge =>
    have h : s.scope.Grows [.purge] (s.scope.purge st.env).2 := Scope.grows_call _ (by intro; rfl) _
    exact ⟨moves_within i s (h.mono (by simp)), rfl⟩
  | provide =>
    have h : s.scope.Grows [.provide] (s.scope.provide st.env s.scope.topology).2 :=
      Scope.grows_call _ (by intro; rfl) _
    exact ⟨moves_within i s (h.mono (by simp)), rfl⟩
  | setup =>
    exact ⟨moves_within i s ((Scope.hook_grows st.env .setup s.scope).mono (by simp)), rfl⟩
  | initCli =>
    exact ⟨moves_within i s ((Scope.hook_grows st.env .initCli s.scope).mono (by simp)), rfl⟩

theorem opened_effect (inv : Invocation) :
    Effect st i (.opening [] inv) s (s.opened st i inv) := by
  unfold opened
  by_cases ht : inv.phases.test = true
  · rw [if_pos ht]
    by_cases hl : (inv.phases.watchdog && decide (st.config.duration ≠ 0)) = true
    · simp only [hl, if_true]
      refine .of_moves ⟨rfl, ?_⟩ (((Moves.refl s).then_spawn _).then_push _) ⟨s.failure, rfl⟩
      simp only [ht, hl, if_true, true_and]
      rfl
    · rw [Bool.not_eq_true] at hl
      simp only [hl, Bool.false_eq_true, if_false]
      refine .of_moves ⟨rfl, ?_⟩ ((Moves.refl s).then_push _) ⟨s.failure, rfl⟩
      simp only [ht, hl, if_true, Bool.false_eq_true, if_false, true_and]
  · rw [if_neg ht]
    refine .of_moves ⟨rfl, ?_⟩ (moves_note i s _) ⟨s.failure, rfl⟩
    rw [if_neg ht]
    exact ⟨rfl, rfl⟩

theorem opening_effect (calls : List OpeningCall) (inv : Invocation) :
    Effect st i (.opening calls inv) s (s.opening st i calls inv) := by
  cases calls with
  | nil => exact opened_effect st i s inv
  | cons c cs =>
    obtain ⟨hm, hb⟩ := makeOpeningCall_moves st i s c
    unfold opening
    rcases hr : s.makeOpeningCall st c with ⟨r, s'⟩
    rw [hr] at hm hb
    have hf : s'.failure = s.failure := congrArg Board.failure hb
    cases r with
    | ok _ =>
      simp only [hr]
      refine .of_moves ⟨rfl, ?_⟩ (hm.then_push _) ⟨s.failure, hb⟩
      rw [hr]
      exact ⟨rfl, hf⟩
    | error fault =>
      simp only [hr]
      unfold openingFailed
      split_ifs with hn
      · refine .of_moves ⟨rfl, ?_⟩ (hm.then_eq rfl (moves_note i s' _).scope) ⟨s.failure, hb⟩
        rw [hr]
        exact ⟨rfl, by rw [if_pos hn]; exact hf⟩
      · refine .of_moves ⟨rfl, ?_⟩ (hm.then_eq rfl (.refl _)) ⟨some fault, ?_⟩
        · rw [hr]
          exact ⟨rfl, by rw [if_neg hn]⟩
        · exact congrArg (fun b : Board => { b with failure := some fault }) hb

theorem passes_effect (inv : Invocation) (limit : Int) (pass : Nat) :
    Effect st i (.passes inv limit pass) s (s.passes st i inv limit pass) := by
  unfold passes
  split_ifs with h
  · exact .of_moves ⟨by rw [if_pos h], rfl⟩ ((Moves.refl s).then_push _) rfl
  · exact .of_moves ⟨by rw [if_neg h], rfl⟩ ((Moves.refl s).then_push _) rfl

theorem reclaim_effect (occasion : ReclaimOccasion) :
    Effect st i (.reclaim occasion) s (s.reclaim st occasion) := by
  have hg : s.scope.Grows [.reclaim] (s.scope.reclaim st.env st.config.softCleanup).2 :=
    Scope.grows_call _ (by intro; rfl) _
  cases occasion with
  | pass =>
    obtain ⟨hm, hb⟩ := attempt_moves i s (.warn "could not reclaim task containers") hg
    exact .of_moves ⟨rfl, rfl⟩ hm hb
  | cleanup =>
    obtain ⟨hm, hb⟩ := attempt_moves i s (.warn "could not remove task containers") hg
    exact .of_moves ⟨rfl, rfl⟩ hm hb

theorem emit_moves : Moves [.emitted] i [] [] s s.emit := by
  refine .of_eq rfl ?_
  have hp : s.scope.Grows [.emitted] (s.scope.print s.report.render) := .of_eq rfl rfl
  exact hp.trans (Scope.grows_record .emitted (s.scope.print s.report.render))

theorem emit_effect : Effect st i .emit s s.emit := .of_moves ⟨rfl, rfl⟩ (emit_moves i s) rfl

theorem hook_moves (name : HookName) (warning : LogLine) :
    Moves [.status, .hook] i [] [] s (s.attempt (Scope.hook st.env name) warning) ∧
      (s.attempt (Scope.hook st.env name) warning).board = s.board :=
  attempt_moves i s warning (Scope.hook_grows st.env name s.scope)

theorem teardown_effect : Effect st i .teardown s (s.teardown st) := by
  obtain ⟨hm, hb⟩ := hook_moves st i s .teardown (.warn "teardown failed")
  exact .of_moves ⟨rfl, rfl⟩ hm hb

theorem saveLogs_effect : Effect st i .saveLogs s (s.saveLogs st) := by
  unfold saveLogs
  split
  · rename_i p _
    have hg : s.scope.Grows [.saveLogs]
        (s.scope.call (p.saveLogs st.config.logDir) (.saveLogs st.config.logDir)).2 :=
      Scope.grows_call _ (by intro; rfl) _
    obtain ⟨hm, hb⟩ := attempt_moves i s (.warn "could not save server logs") hg
    exact .of_moves ⟨rfl, rfl⟩ hm hb
  · exact .of_moves ⟨rfl, rfl⟩ (.refl s) rfl

theorem removeServers_effect : Effect st i .removeServers s (s.removeServers st) := by
  unfold removeServers
  split
  · rename_i p _
    have hg : s.scope.Grows [.removeServers]
        (s.scope.call (p.removeServers st.config.softCleanup)
          (.removeServers st.config.softCleanup)).2 :=
      Scope.grows_call _ (by intro; rfl) _
    obtain ⟨hm, hb⟩ := attempt_moves i s (.warn "could not remove servers") hg
    exact .of_moves ⟨rfl, rfl⟩ hm hb
  · exact .of_moves ⟨rfl, rfl⟩ (.refl s) rfl

theorem terminate_moves (code : Int) :
    Moves [.emitted, .exited] i [] [] s (s.terminate code) ∧
      ∃ x, (s.terminate code).board = { s.board with stopped := x } := by
  unfold terminate
  split_ifs
  · exact ⟨.refl s, s.stopped, rfl⟩
  · have hg := Scope.grows_record (.exited code) s.emit.scope
    refine ⟨.of_eq rfl ?_, true, rfl⟩
    exact ((emit_moves i s).scope.mono (by simp)).trans (hg.mono (by simp [Event.kind]))

theorem elapsed_effect : Effect st i .elapsed s s.elapsed := by
  obtain ⟨hm, x, hb⟩ := terminate_moves i (s.note (.info "duration elapsed, stopping")) 0
  have hn : Moves [.emitted, .exited] i [] [] s (s.note (.info "duration elapsed, stopping")) :=
    moves_note i s _
  exact .of_moves ⟨rfl, rfl⟩ (hn.then_eq (by unfold elapsed terminate; split_ifs <;> rfl) hm.scope)
    ⟨x, hb⟩

/-! ### Failures -/

theorem collect_moves : ∃ new, Moves [] i new [] s (s.collect st i) ∧
    (∃ x, (s.collect st i).board = { s.board with collecting := x }) ∧
    (new = [] ∧ (s.collect st i).collecting = s.collecting ∨
      ∃ c, st.config.collect = some c ∧ s.collecting = false ∧ (s.collect st i).collecting = true ∧
        new = [.setLoops s.scope.loops, .walk s.scope.loops none c.actions, .endCollection]) := by
  unfold collect
  split
  · exact ⟨[], .refl s, ⟨s.collecting, rfl⟩, .inl ⟨rfl, rfl⟩⟩
  · rename_i c hc
    split_ifs with h
    · exact ⟨[], .refl s, ⟨s.collecting, rfl⟩, .inl ⟨rfl, rfl⟩⟩
    · rw [Bool.not_eq_true] at h
      have hm : Moves [] i [] [] s
          ({ s with collecting := true }.note (.info "collecting diagnostics")) :=
        .of_eq rfl (Scope.grows_note _ s.scope)
      exact ⟨_, hm.then_push _, ⟨true, rfl⟩, .inr ⟨c, hc, h, rfl, rfl⟩⟩

theorem failed_effect (describe : String) (fault : RuntimeFault) :
    Effect st i (.failed describe fault) s (s.failed st i describe fault) := by
  have hr : Moves [.failed] i [] [] s (s.record (.failed describe fault)) :=
    .of_eq rfl (Scope.grows_record (.failed describe fault) s.scope)
  unfold failed
  by_cases he : st.escalates = true
  · simp only [he, if_true]
    have hn : Moves [.failed] i [] [] s
        ((s.record (.failed describe fault)).note (.error "task failed")) :=
      hr.then_eq rfl ((Scope.grows_note _ _).mono (List.nil_subset _))
    have hp := hn.then_push [.stopOnError]
    split_ifs with hc
    · obtain ⟨new, hm, hb, hn⟩ := collect_moves st i
        (((s.record (.failed describe fault)).note (.error "task failed")).push i [.stopOnError])
      obtain ⟨x, hb⟩ := hb
      have hm' := hp.trans (hm.mono (List.nil_subset _))
      refine .of_moves ⟨rfl, .inr ?_⟩ hm' ⟨x, hb⟩
      rcases hn with ⟨rfl, hcol⟩ | ⟨c, hcc, hcol, hcol', rfl⟩
      · exact .inl ⟨rfl, hcol⟩
      · have hl : ((s.record (.failed describe fault)).note (.error "task failed")).scope.loops
            = s.scope.loops := by
          unfold record note Scope.record Scope.note
          split_ifs <;> rfl
        refine .inr ⟨c, hcc, hcol, hcol', ?_⟩
        simp only [State.push, hl]
        rfl
    · exact .of_moves ⟨rfl, .inr (.inl ⟨rfl, rfl⟩)⟩ hp ⟨s.collecting, rfl⟩
  · rw [Bool.not_eq_true] at he
    simp only [he, Bool.false_eq_true, if_false]
    exact .of_moves ⟨rfl, .inl ⟨he, rfl, rfl⟩⟩ hr ⟨s.collecting, rfl⟩

theorem endCollection_effect : Effect st i .endCollection s s.endCollection :=
  .of_moves ⟨rfl, rfl⟩ (.of_eq rfl (.refl _)) rfl

theorem stopOnError_effect : Effect st i .stopOnError s (s.stopOnError st) := by
  unfold stopOnError
  split_ifs
  · obtain ⟨hm, x, hb⟩ := terminate_moves i s 1
    exact .of_moves ⟨rfl, rfl⟩ hm ⟨x, hb⟩
  · exact .of_moves ⟨rfl, rfl⟩ (.refl s) ⟨s.stopped, rfl⟩

/-! ### Resolution -/

theorem clientOp_moves (op : ClientOp) :
    Moves [.status, .kill, .remove, .copy] i [] [] s (s.clientOp st op) ∧
      (s.clientOp st op).board = s.board := by
  have hcall : ∀ (s : State σ) (k : EventKind) (line : LogLine)
      (f : Scope σ → Except RuntimeFault Unit × Scope σ),
      (∀ sc : Scope σ, sc.Grows [k] (f sc).2) → k ∈ [EventKind.status, .kill, .remove, .copy] →
      Moves [.status, .kill, .remove, .copy] i [] [] s ((s.note line).clientCall f) ∧
        ((s.note line).clientCall f).board = s.board := by
    intro s k line f hf hk
    have hn : Moves [.status, .kill, .remove, .copy] i [] [] s (s.note line) := moves_note i s line
    obtain ⟨hm, hb⟩ := attempt_moves i (s.note line) (.warn "client op failed")
      ((hf (s.note line).scope).mono (List.cons_subset.2 ⟨hk, List.nil_subset _⟩))
    exact ⟨hn.trans hm, hb⟩
  unfold clientOp
  split
  · exact ⟨moves_note i s _, rfl⟩
  · rename_i handle _
    split
    · exact hcall s .kill _ _ (fun sc => Scope.grows_call _ (by intro; rfl) sc) (by simp)
    · exact hcall s .remove _ _ (fun sc => Scope.grows_call _ (by intro; rfl) sc) (by simp)
    · exact hcall s .remove _ _ (fun sc => Scope.grows_call _ (by intro; rfl) sc) (by simp)
    · exact hcall s .copy _ _ (fun sc => Scope.grows_call _ (by intro; rfl) sc) (by simp)
    · exact hcall s .copy _ _ (fun sc => Scope.grows_call _ (by intro; rfl) sc) (by simp)
    · exact ⟨moves_note i s _, rfl⟩

theorem scopePath_moves (spec : String) :
    Moves [.status] i [] [] s (s.scopePath st spec).2 ∧
      (s.scopePath st spec).2.board = s.board := by
  have hg := Scope.evaluate_grows st.env spec s.scope
  have hm := moves_within i s hg
  unfold scopePath
  rcases hw : s.within (Scope.evaluate st.env spec) with ⟨r, s'⟩
  have hb : s'.board = s.board := (congrArg (fun p => p.2.board) hw).symm
  rw [hw] at hm
  cases r with
  | ok _ => exact ⟨hm, hb⟩
  | error _ => exact ⟨hm.then_eq rfl ((Scope.grows_note _ _).mono (List.nil_subset _)), hb⟩

theorem includeFiles_moves (files : String) :
    Moves [] i [] [] s (s.includeFiles st files) ∧ (s.includeFiles st files).board = s.board := by
  have hbad : ∀ (l : List Nat) (s : State σ), Moves [] i [] [] s
      (l.foldl (fun s _ => s.note (.warn "invalid include pattern")) s) ∧
      (l.foldl (fun s _ => s.note (.warn "invalid include pattern")) s).board = s.board := by
    intro l
    induction l with
    | nil => exact fun s => ⟨.refl s, rfl⟩
    | cons _ l ih =>
      intro s
      obtain ⟨hm, hb⟩ := ih (s.note (.warn "invalid include pattern"))
      exact ⟨(moves_note i s _).trans hm, hb⟩
  have hpaths : ∀ (fs : Files) (l : List String) (s : State σ),
      Moves [] i [] [] s (l.foldl (includeFile fs) s) ∧
        (l.foldl (includeFile fs) s).board = s.board := by
    intro fs l
    induction l with
    | nil => exact fun s => ⟨.refl s, rfl⟩
    | cons path l ih =>
      intro s
      obtain ⟨hm, hb⟩ := ih (includeFile fs s path)
      have h : Moves [] i [] [] s (includeFile fs s path) ∧
          (includeFile fs s path).board = s.board := by
        unfold includeFile
        split
        · exact ⟨.of_eq rfl (.refl _), rfl⟩
        · exact ⟨moves_note i s _, rfl⟩
      exact ⟨h.1.trans hm, hb.trans h.2⟩
  unfold includeFiles
  rcases hp : (s.scope.files st.env).includePaths files with ⟨paths, bad⟩
  simp only [hp]
  obtain ⟨hm, hb⟩ := hbad (List.range bad) s
  obtain ⟨hm', hb'⟩ := hpaths (s.scope.files st.env) paths _
  exact ⟨hm.trans hm', hb'.trans hb⟩

theorem unrolled_moves (a : Action) :
    Moves [.status] i [] [] s (s.unrolled st a).2 ∧ (s.unrolled st a).2.board = s.board := by
  have hm := moves_within i s (Scope.evaluate_grows st.env a.loopExpression s.scope)
  unfold unrolled
  rcases hw : s.within (Scope.evaluate st.env a.loopExpression) with ⟨r, s'⟩
  have hb : s'.board = s.board := (congrArg (fun p => p.2.board) hw).symm
  rw [hw] at hm
  cases r with
  | error _ => exact ⟨hm.then_eq rfl ((Scope.grows_note _ _).mono (List.nil_subset _)), hb⟩
  | ok text =>
    simp only []
    split
    · exact ⟨hm, hb⟩
    · exact ⟨hm.then_eq rfl ((Scope.grows_note _ _).mono (List.nil_subset _)), hb⟩

theorem referred_moves (a : Action) :
    Moves [.status] i [] [] s (s.referred st a).2 ∧ (s.referred st a).2.board = s.board := by
  unfold referred
  split
  · exact ⟨moves_note i s _, rfl⟩
  · have hm := moves_within i s (Scope.evaluate_grows st.env a.args s.scope)
    rcases hw : s.within (Scope.evaluate st.env a.args) with ⟨r, s'⟩
    have hb : s'.board = s.board := (congrArg (fun p => p.2.board) hw).symm
    rw [hw] at hm
    cases r with
    | ok _ => exact ⟨hm, hb⟩
    | error _ => exact ⟨hm.then_eq rfl ((Scope.grows_note _ _).mono (List.nil_subset _)), hb⟩

theorem enter_moves (pass : Nat) {r : Option (List Action) × State σ}
    (hm : Moves [.status] i [] [] s r.2) (hb : r.2.board = s.board) :
    ∃ new, Moves [.status] i new [] s (enter i pass r) ∧ (enter i pass r).board = s.board ∧
      (new = [] ∨ ∃ actions, new = [.setLoops pass, .walk pass none actions]) := by
  rcases r with ⟨_ | actions, s'⟩
  · exact ⟨[], hm, hb, .inl rfl⟩
  · exact ⟨_, hm.then_push _, hb, .inr ⟨actions, rfl⟩⟩

theorem changeScope_moves (spec : String) :
    ∃ new, Moves [.status] i new [] s (s.changeScope st i spec) ∧
      (s.changeScope st i spec).board = s.board ∧
      (new = [] ∨ ∃ t, new = [.leaveScope t, .provideScope t, .enterScope]) := by
  obtain ⟨hm, hb⟩ := scopePath_moves st i s spec
  unfold changeScope
  rcases hp : s.scopePath st spec with ⟨path, s'⟩
  rw [hp] at hm hb
  simp only []
  split
  · rename_i target _
    exact ⟨_, hm.then_push _, hb, .inr ⟨target, rfl⟩⟩
  · exact ⟨[], hm.then_eq rfl ((Scope.grows_note _ _).mono (List.nil_subset _)), hb, .inl rfl⟩

theorem nestedTest_moves (path : String) :
    ∃ new, Moves [] i new [] s (s.nestedTest st i path) ∧
      (s.nestedTest st i path).board = s.board ∧
      (new = [] ∨ ∃ actions, new =
        [Invocation.job st ⟨.nested st.config, actions, true⟩, .setLoops s.scope.loops]) := by
  unfold nestedTest
  split
  · rename_i actions _
    exact ⟨_, (moves_note i s _).then_push _, rfl, .inr ⟨actions, rfl⟩⟩
  · exact ⟨[], moves_note i s _, rfl, .inl rfl⟩

theorem resolve_moves (pass : Nat) (a : Action) :
    ∃ new, Moves [.status, .kill, .remove, .copy] i new [] s (s.resolve st i pass a) ∧
      (s.resolve st i pass a).board = s.board ∧ Unfolds st s pass a new := by
  unfold resolve Unfolds
  split
  · rename_i op hd
    obtain ⟨hm, hb⟩ := clientOp_moves st i s op
    exact ⟨[], hm, hb, by simp only [hd]⟩
  · rename_i spec hd
    obtain ⟨new, hm, hb, hn⟩ := changeScope_moves st i s spec
    exact ⟨new, hm.mono (by simp), hb, by simp only [hd]; exact hn⟩
  · rename_i path hd
    obtain ⟨new, hm, hb, hn⟩ := nestedTest_moves st i s path
    exact ⟨new, hm.mono (List.nil_subset _), hb, by simp only [hd]; exact hn⟩
  · rename_i files hd
    obtain ⟨hm, hb⟩ := includeFiles_moves st i s files
    exact ⟨[], hm.mono (List.nil_subset _), hb, by simp only [hd]⟩
  · rename_i text hd
    obtain ⟨hm, hb⟩ := unrolled_moves st i s a
    obtain ⟨new, hm, hb, hn⟩ := enter_moves i s pass hm hb
    exact ⟨new, hm.mono (by simp), hb, by simp only [hd]; exact hn⟩
  · rename_i name hd
    obtain ⟨hm, hb⟩ := referred_moves st i s a
    obtain ⟨new, hm, hb, hn⟩ := enter_moves i s pass hm hb
    exact ⟨new, hm.mono (by simp), hb, by simp only [hd]; exact hn⟩
  · rename_i hd
    exact ⟨[], .refl s, rfl, by simp only [hd]⟩

theorem walk_effect (pass : Nat) (last : Option Action) (rest : List Action) :
    Effect st i (.walk pass last rest) s (s.walk st i pass last rest) := by
  cases rest with
  | nil => exact .of_moves ⟨rfl, rfl⟩ (.refl s) rfl
  | cons a rest =>
    simp only [walk]
    split
    · rename_i hd
      exact .of_moves ⟨rfl, by rw [if_pos hd]⟩ ((Moves.refl s).then_push _) rfl
    · rename_i hd
      obtain ⟨front, hm, hb, hu⟩ := resolve_moves st i (s.push i [.walk pass last rest]) pass a
      have hp := ((Moves.push s [.walk pass last rest]).mono (List.nil_subset _)).trans hm
      exact .of_moves ⟨rfl, by rw [if_neg hd]; exact ⟨front, hu, rfl⟩⟩ hp hb

theorem provideScope_effect (target : Topology) :
    Effect st i (.provideScope target) s (s.provideScope st target) := by
  unfold provideScope
  split
  · exact .of_moves ⟨rfl, rfl⟩ (.of_eq rfl (.of_eq rfl rfl)) rfl
  · rename_i t _
    have hg : s.scope.Grows [.provide] (s.scope.provide st.env t).2 :=
      Scope.grows_call _ (by intro; rfl) _
    obtain ⟨hm, hb⟩ := attempt_moves i s (.error "could not provide servers for new scope") hg
    simp only []
    generalize s.attempt (Scope.provide st.env t)
      (.error "could not provide servers for new scope") = s' at hm hb ⊢
    by_cases hbr : s'.scope.broken = true
    · rw [if_pos hbr]
      exact .of_moves ⟨rfl, rfl⟩ hm hb
    · rw [if_neg hbr]
      refine .of_moves ⟨rfl, rfl⟩ (hm.then_eq rfl ?_) hb
      refine .trans ?_ ((Scope.grows_note _ _).mono (List.nil_subset _))
      split_ifs
      · exact .of_eq rfl rfl
      · exact .of_eq rfl rfl

theorem leaveScope_effect (target : Topology) :
    Effect st i (.leaveScope target) s (s.leaveScope st) := by
  obtain ⟨hm, hb⟩ := hook_moves st i s .teardown (.warn "teardown before scope change failed")
  exact .of_moves ⟨rfl, rfl⟩ hm hb

theorem enterScope_effect : Effect st i .enterScope s (s.enterScope st) := by
  obtain ⟨hm, hb⟩ := hook_moves st i s .setup (.warn "setup after scope change failed")
  exact .of_moves ⟨rfl, rfl⟩ hm hb

/-! ### Dispatch -/

theorem requirement_grows (requires : String) (sc : Scope σ) :
    sc.Grows [.status] (st.requirement requires sc).2 := by
  have hg := Scope.condition_grows st.env requires sc
  unfold Settings.requirement
  split_ifs
  · exact .refl sc
  · rcases hc : sc.condition st.env requires with ⟨r, sc'⟩
    rw [hc] at hg
    have hn : ∀ line, sc.Grows [.status] (sc'.note line) := fun line =>
      hg.trans ((Scope.grows_note line sc').mono (List.nil_subset _))
    rcases r with e | _ | _
    · exact (hn _).trans ((Scope.grows_note _ _).mono (List.nil_subset _))
    · exact hn _
    · exact hg

theorem duration_grows (text : String) (sc : Scope σ) :
    sc.Grows [.status] (st.duration text sc).2 := by
  have hg := Scope.evaluate_grows st.env text sc
  unfold Settings.duration
  split_ifs
  · exact .refl sc
  · rcases he : sc.evaluate st.env text with ⟨r, sc'⟩
    rw [he] at hg
    have hn : ∀ line, sc.Grows [.status] (sc'.note line) := fun line =>
      hg.trans ((Scope.grows_note line sc').mono (List.nil_subset _))
    cases r with
    | error _ => exact hn _
    | ok value =>
      simp only []
      split
      · exact hg
      · exact hn _
      · exact hg

theorem concurrency_grows (text : String) (sc : Scope σ) :
    sc.Grows [.status] (st.concurrency text sc).2 := by
  have hg := Scope.evaluate_grows st.env text sc
  unfold Settings.concurrency
  split_ifs
  · exact .refl sc
  · rcases he : sc.evaluate st.env text with ⟨r, sc'⟩
    rw [he] at hg
    simp only []
    split
    · exact hg
    · exact hg.trans ((Scope.grows_note _ _).mono (List.nil_subset _))

theorem decide_grows (a : Action) (sc : Scope σ) : sc.Grows [.status] (st.decide a sc).2 := by
  have hr := requirement_grows st a.requires sc
  unfold Settings.decide
  rcases h₁ : st.requirement a.requires sc with ⟨_ | _, sc₁⟩
  · rw [h₁] at hr
    exact hr.trans (.refl _)
  · rw [h₁] at hr
    have hc := hr.trans (Scope.compileCommand_grows st.env a.command sc₁)
    simp only []
    rcases h₂ : sc₁.compileCommand st.env a.command with ⟨e | command, sc₂⟩
    · rw [h₂] at hc
      exact hc.trans ((Scope.grows_note _ _).mono (List.nil_subset _))
    · rw [h₂] at hc
      have hd := hc.trans (duration_grows st a.duration sc₂)
      simp only []
      rcases h₃ : st.duration a.duration sc₂ with ⟨_ | limit, sc₃⟩
      · rw [h₃] at hd
        exact hd
      · rw [h₃] at hd
        exact hd.trans (concurrency_grows st a.concurrency sc₃)

theorem dispatch_effect (a : Action) : Effect st i (.dispatch a) s (s.dispatch st i a) := by
  have hm := moves_within i s (decide_grows st a s.scope)
  unfold dispatch
  rcases hw : s.within (st.decide a) with ⟨d, s'⟩
  have hb : s'.board = s.board := (congrArg (fun p => p.2.board) hw).symm
  rw [hw] at hm
  cases d with
  | skip => exact .of_moves (.inl ⟨rfl, rfl⟩) hm hb
  | crash => exact ⟨⟨[], [], .inl ⟨rfl, rfl⟩, .inr ⟨⟨a, rfl⟩, hm.crash⟩⟩, hb⟩
  | launch task =>
    simp only []
    split_ifs with _ hwait
    · exact .of_moves (.inl ⟨rfl, rfl⟩) hm hb
    · exact .of_moves (.inr ⟨task, by rw [if_pos hwait]; exact ⟨rfl, rfl⟩⟩) (hm.then_push _) hb
    · exact .of_moves (.inr ⟨task, by rw [if_neg hwait]; exact ⟨rfl, rfl⟩⟩)
        ((hm.then_spawn _).then_push _) hb

/-! ### Control -/

/-- A task goes on to its launch, under the alias of its action. -/
theorem control_moves (task : Task) (a : Action) :
    Moves [] i ((if a.before.isEmpty then [] else [.gate a.before]) ++
        [.launch ⟨task, (s.aliasOf st a).1, a.repeats, a.until_⟩]) [] s (s.control st i task a) ∧
      (s.control st i task a).board = s.board := by
  have hm : Moves [] i [] [] s (s.aliasOf st a).2 ∧ (s.aliasOf st a).2.board = s.board := by
    unfold aliasOf
    split_ifs
    · exact ⟨.of_eq rfl (.refl _), rfl⟩
    · exact ⟨.refl s, rfl⟩
  exact ⟨hm.1.then_push _, hm.2⟩

theorem control_effect (task : Task) (a : Action) :
    Effect st i (.control task a) s (s.control st i task a) := by
  obtain ⟨hm, hb⟩ := control_moves st i s task a
  exact .of_moves ⟨rfl, (s.aliasOf st a).1, rfl⟩ hm hb

theorem gate_effect (condition : String) :
    Effect st i (.gate condition) s (s.gate st i condition) := by
  have hm := moves_within i s (Scope.check_grows st.env condition s.scope)
  unfold gate
  rcases hw : s.within (Scope.check st.env condition) with ⟨b, s'⟩
  have hb : s'.board = s.board := (congrArg (fun p => p.2.board) hw).symm
  rw [hw] at hm
  cases b with
  | true => exact .of_moves ⟨.inl rfl, rfl⟩ hm hb
  | false => exact .of_moves ⟨.inr rfl, rfl⟩ (hm.then_push _) hb

theorem removeAll_effect (handles : List String) :
    Effect st i (.removeAll handles) s (s.removeAll st i handles) := by
  cases handles with
  | nil => exact .of_moves ⟨rfl, rfl⟩ (.refl s) rfl
  | cons h hs =>
    have hg : s.scope.Grows [.remove] (s.scope.remove st.env h).2 :=
      Scope.grows_call _ (by intro; rfl) _
    exact .of_moves ⟨rfl, rfl⟩ ((moves_within i s hg).then_push _) rfl

theorem drained_moves (c : ChannelId) (rest : List Signal) :
    Moves [] i [] [] s ((s.onChannel c fun ch => { ch with queue := rest }).count i) :=
  Moves.then_count (.of_eq rfl (.refl _))

theorem drain_effect (c : ChannelId) (describe : String) (left : Nat) :
    Effect st i (.drain c describe left) s (s.drain i c describe left) := by
  have hclose : Moves [] i [] [] s (s.onChannel c fun ch => { ch with closed := true }) :=
    .of_eq rfl (.refl _)
  unfold drain
  simp only []
  cases left with
  | zero => exact .of_moves ⟨rfl, rfl, rfl, rfl⟩ hclose ⟨s.report, _, rfl⟩
  | succ l =>
    rcases hq : (s.channels[c]?).elim [] Channel.queue with _ | ⟨_ | fault, rest⟩
    · refine .of_moves ⟨rfl, ?_⟩ hclose ⟨s.report, _, rfl⟩
      simp only [hq]
      exact ⟨trivial, rfl, rfl⟩
    · have hp : Moves [] i [] [] s
          (((s.onChannel c fun ch => { ch with queue := rest }).count i).pass describe) :=
        (drained_moves i s c rest).then_eq rfl (.refl _)
      refine .of_moves ⟨rfl, ?_⟩ (hp.then_push _) ⟨_, _, rfl⟩
      simp only [hq]
      exact ⟨trivial, rfl, rfl⟩
    · have hn := (drained_moves i s c rest).then_moves
        (moves_note i _ (.warn "task reported an error"))
      have hf : Moves [] i [] [] s ((State.note (.warn "task reported an error")
          ((s.onChannel c fun ch => { ch with queue := rest }).count i)).fail describe fault) :=
        hn.then_eq rfl (.refl _)
      refine .of_moves ⟨rfl, ?_⟩ (hf.then_push _) ⟨_, _, rfl⟩
      simp only [hq]
      exact ⟨trivial, rfl, rfl⟩

theorem send_effect (c : ChannelId) (signal : Signal) :
    Effect st i (.send c signal) s (s.send c signal) :=
  .of_moves ⟨rfl, rfl⟩ (.of_eq rfl (.refl _)) ⟨_, rfl⟩

theorem tell_scope (c : ChannelId) (r : Except RuntimeFault Unit) : (s.tell i c r).scope = s.scope := by
  unfold tell
  split_ifs <;> rfl

theorem tell_effect {s' : State σ} {kinds : List EventKind} (c : ChannelId) (r : Except RuntimeFault Unit)
    (hm : Moves kinds i [] [] s s') (hb : s'.board = s.board) :
    ∃ new, Moves kinds i new [] s (s'.tell i c r) ∧ (new = [] ∨ ∃ signal, new = [.send c signal]) ∧
      ((s'.tell i c r).board = s.board ∨
        (s'.tell i c r).board = { s.board with channels := s.channels.modify c Channel.release }) := by
  unfold tell
  split_ifs
  · refine ⟨[], hm.then_eq rfl (.refl _), .inl rfl, .inr ?_⟩
    exact congrArg (fun b : Board => { b with channels := b.channels.modify c Channel.release }) hb
  · exact ⟨_, hm.then_push _, .inr ⟨_, rfl⟩, .inl hb⟩

theorem watch_effect (task : Task) (id : String) (c : ChannelId) :
    Effect st i (.watch task id c) s (s.watch st i task id c) := by
  unfold watch
  rcases st.env.runtime.watch task id s.scope.world with ⟨_ | reply, world⟩
  · have hm : Moves [] i [] [] s { s with scope := { s.scope with world } } :=
      .of_eq rfl (.of_eq rfl rfl)
    simp only []
    split_ifs
    · exact .of_moves ⟨rfl, .inr (.inr (.inl rfl))⟩ (hm.then_push _) (.inl rfl)
    · exact .of_moves ⟨rfl, .inr (.inr (.inr rfl))⟩ (hm.then_push _) (.inl rfl)
  · have hm := moves_within i s (Scope.grows_take reply world s.scope)
    obtain ⟨new, hm, hnew, hb⟩ := tell_effect i s c (s.within (Scope.take reply world)).1 hm rfl
    exact .of_moves ⟨rfl, hnew.imp_right .inl⟩ hm hb

theorem expire_effect (task : Task) (id : String) (c : ChannelId) :
    Effect st i (.expire task id c) s (s.expire st i task id c) := by
  have hg : s.scope.Grows [] (s.scope.ask (st.env.runtime.expire task id)).2 := Scope.grows_ask _ _
  obtain ⟨new, hm, hnew, hb⟩ := tell_effect i s c _ (moves_within i s hg) rfl
  exact .of_moves ⟨hnew, rfl⟩ hm hb

theorem restarted_moves (handle : String) (left : Int) :
    ∃ new, Moves [] i new [] s (s.restarted st i handle left) ∧
      (s.restarted st i handle left).board = s.board ∧
      (new = [] ∨ ∃ left, new = [.sleep st.config.timings.repeatPoll, .repeatLoop handle left]) := by
  unfold restarted
  split_ifs
  · exact ⟨[], .refl s, rfl, .inl rfl⟩
  · exact ⟨_, .push s _, rfl, .inr ⟨_, rfl⟩⟩
  · exact ⟨_, .push s _, rfl, .inr ⟨_, rfl⟩⟩

theorem repeatLoop_effect (handle : String) (left : Int) :
    Effect st i (.repeatLoop handle left) s (s.repeatLoop st i handle left) := by
  have hm : Moves [.status, .start] i [] [] s (s.within (Scope.status st.env handle)).2 :=
    moves_within i s ((Scope.status_grows st.env handle s.scope).mono (by simp))
  unfold repeatLoop
  split_ifs
  · exact .of_moves ⟨.inl rfl, rfl⟩ (.refl s) rfl
  · rcases hw : s.within (Scope.status st.env handle) with ⟨r, s'⟩
    have hb : s'.board = s.board := (congrArg (fun p => p.2.board) hw).symm
    rw [hw] at hm
    split
    · rename_i s₁ heq
      cases heq
      have hg : s'.scope.Grows [.start] (s'.scope.start st.env handle).2 :=
        Scope.grows_call _ (by intro; rfl) _
      have hm' := hm.trans ((moves_within i s' hg).mono (by simp))
      rcases hw' : s'.within (Scope.start st.env handle) with ⟨r', s''⟩
      have hb' : s''.board = s.board := (congrArg (fun p => p.2.board) hw').symm.trans hb
      rw [hw'] at hm'
      cases r' with
      | ok _ =>
        obtain ⟨new, hr, hrb, hn⟩ := restarted_moves st i (s''.count i) handle left
        exact .of_moves ⟨hn, rfl⟩ (hm'.then_count.then_moves (hr.mono (List.nil_subset _)))
          (hrb.trans hb')
      | error _ =>
        obtain ⟨new, hr, hrb, hn⟩ :=
          restarted_moves st i (s''.note (.warn "restart failed")) handle left
        exact .of_moves ⟨hn, rfl⟩
          ((hm'.then_moves (moves_note i s'' _)).then_moves (hr.mono (List.nil_subset _)))
          (hrb.trans hb')
    · rename_i heq
      cases heq
      exact .of_moves ⟨.inr ⟨_, rfl⟩, rfl⟩ (hm.then_push _) hb
    · rename_i heq
      cases heq
      split_ifs
      · exact .of_moves ⟨.inl rfl, rfl⟩ hm hb
      · exact .of_moves ⟨.inl rfl, rfl⟩
          (hm.then_eq rfl ((Scope.grows_note _ _).mono (List.nil_subset _))) hb

theorem awaitLaunch_effect (p : PromiseId) (condition : String) :
    Effect st i (.awaitLaunch p condition) s (s.awaitLaunch i p condition) := by
  unfold awaitLaunch
  split
  · exact .of_moves ⟨.inr ⟨_, rfl⟩, rfl⟩ (.push s _) rfl
  · exact .of_moves ⟨.inl rfl, rfl⟩ (.refl s) rfl

theorem untilLoop_effect (handle condition : String) :
    Effect st i (.untilLoop handle condition) s (s.untilLoop st i handle condition) := by
  have hm := moves_within i s (Scope.status_grows st.env handle s.scope)
  unfold untilLoop
  rcases hw : s.within (Scope.status st.env handle) with ⟨r, s'⟩
  have hb : s'.board = s.board := (congrArg (fun p => p.2.board) hw).symm
  rw [hw] at hm
  cases r with
  | error fault =>
    simp only []
    split_ifs
    · exact .of_moves ⟨.inl rfl, rfl⟩ hm hb
    · exact .of_moves ⟨.inl rfl, rfl⟩
        (hm.then_eq rfl ((Scope.grows_note _ _).mono (List.nil_subset _))) hb
  | ok _ =>
    have hm' := hm.then_count.then_moves
      (moves_within i (s'.count i) (Scope.check_grows st.env condition (s'.count i).scope))
    simp only []
    rcases hw' : (s'.count i).within (Scope.check st.env condition) with ⟨b, s''⟩
    have hb' : s''.board = s.board := (congrArg (fun p => p.2.board) hw').symm.trans hb
    rw [hw'] at hm'
    cases b with
    | true => exact .of_moves ⟨.inl rfl, rfl⟩ hm' hb'
    | false => exact .of_moves ⟨.inr rfl, rfl⟩ (hm'.then_push _) hb'

/-! ### Launches -/

theorem note_broken (line : LogLine) :
    (s.note line).scope.broken = s.scope.broken := by
  unfold note Scope.note
  split_ifs <;> rfl

theorem record_broken (e : Event) :
    (s.record e).scope.broken = s.scope.broken := by
  unfold record Scope.record
  split_ifs <;> rfl

theorem spawnWatcher_moves (k : Ticket) :
    ∃ p, Moves [] i [] (k.watchers p) s (s.spawnWatcher k).2 ∧
      (∃ ps, (s.spawnWatcher k).2.board = { s.board with promises := ps }) ∧
      (s.spawnWatcher k).2.scope = s.scope ∧
      ((s.spawnWatcher k).1 = none ∧ k.watchers p = [] ∨ ∃ w jobs,
        (s.spawnWatcher k).1 = some w ∧ w.1 = s.threads.length ∧ k.watchers p = [jobs]) := by
  refine ⟨s.promises.length, ?_⟩
  unfold spawnWatcher Ticket.watchers
  split_ifs
  · exact ⟨.refl s, ⟨s.promises, rfl⟩, rfl, .inl ⟨rfl, rfl⟩⟩
  · have h : Moves [] i [] [] s s.openPromise := .of_eq rfl (.refl _)
    exact ⟨h.then_spawn _, ⟨_, rfl⟩, rfl, .inr ⟨_, _, rfl, rfl, rfl⟩⟩

/-- What a recorded launch leaves for its thread, and the threads it starts; the one that restarts the task comes
second among them. -/
theorem launched_waits (k : Ticket) (watcher : Option (ThreadId × PromiseId)) (l : Launch) (c : ChannelId) :
    Moves [] i (k.awaits watcher l (s.threads.length + 1)) (k.followers l c) s
        (s.launched i k watcher l c) ∧
      ∃ ps, (s.launched i k watcher l c).board = { s.board with promises := ps } := by
  unfold launched Ticket.awaits Ticket.followers
  simp only []
  generalize hs₁ : ({ s with scope :=
    { s.scope with aliases := s.scope.aliases.put k.alias_ l.handle } } : State σ) = s₁
  have h₁ : Moves [] i [] [] s s₁ := by
    rw [← hs₁]
    exact .of_eq rfl (.of_eq rfl rfl)
  have hb₁ : s₁.board = s.board := by rw [← hs₁]; rfl
  have ht₁ : s₁.threads = s.threads := by rw [← hs₁]
  generalize hs₂ : (watcher.elim s₁ fun w => s₁.settle w.2 (some l.handle)) = s₂
  have h₂ : Moves [] i [] [] s s₂ ∧ ∃ ps, s₂.board = { s.board with promises := ps } := by
    rw [← hs₂, ← hb₁]
    cases watcher with
    | none => exact ⟨h₁, s₁.promises, rfl⟩
    | some w => exact ⟨h₁.then_eq rfl (.refl _), _, rfl⟩
  have ht₂ : s₂.threads = s.threads := by
    rw [← hs₂, ← ht₁]
    cases watcher <;> rfl
  have h₃ := (h₂.1.then_moves (moves_note i s₂ (.info k.task.describe))).then_spawn
    [.drain c k.task.describe k.task.instances]
  have ht₃ : ((s₂.note (.info k.task.describe)).spawn
      [.drain c k.task.describe k.task.instances]).threads.length = s.threads.length + 1 := by
    rw [← ht₂]
    exact List.length_append
  generalize hs₃ : (s₂.note (.info k.task.describe)).spawn
    [.drain c k.task.describe k.task.instances] = s₃ at h₃ ht₃ ⊢
  rw [ht₃]
  constructor
  · split_ifs
    · exact h₃.then_push _
    · exact (h₃.then_spawn _).then_push _
    · exact h₃.then_push _
    · exact (h₃.then_spawn _).then_push _
  · obtain ⟨ps, hps⟩ := h₂.2
    refine ⟨ps, ?_⟩
    rw [← hps, ← hs₃]
    split_ifs <;> rfl

theorem launched_moves (k : Ticket) (watcher : Option (ThreadId × PromiseId)) (l : Launch)
    (c : ChannelId) :
    (∃ restarter, Moves [] i (k.awaits watcher l restarter) (k.followers l c) s
        (s.launched i k watcher l c)) ∧
      ∃ ps, (s.launched i k watcher l c).board = { s.board with promises := ps } :=
  (launched_waits i s k watcher l c).imp_left fun h => ⟨_, h⟩

theorem launched_broken (k : Ticket) (watcher : Option (ThreadId × PromiseId)) (l : Launch)
    (c : ChannelId) : (s.launched i k watcher l c).scope.broken = s.scope.broken := by
  unfold launched
  simp only []
  split_ifs
  all_goals
    refine (note_broken _ (.info k.task.describe)).trans ?_
    cases watcher <;> rfl

theorem launched_effect (k : Ticket) (watcher : Option (ThreadId × PromiseId)) (l : Launch)
    (c : ChannelId) : Effect st i (.launched k watcher l c) s (s.launched i k watcher l c) := by
  obtain ⟨⟨restarter, hm⟩, hb⟩ := launched_moves i s k watcher l c
  exact .of_moves ⟨⟨restarter, rfl⟩, rfl⟩ hm hb

theorem observe_moves (k : Ticket) (c : ChannelId) (ids : List String) :
    Moves [] i [] (ids.map fun id => [Job.watch k.task id c]) s
        (ids.foldl (fun s id => s.spawn [.watch k.task id c]) s) ∧
      (ids.foldl (fun s id => s.spawn [.watch k.task id c]) s).board = s.board := by
  induction ids generalizing s with
  | nil => exact ⟨.refl s, rfl⟩
  | cons id ids ih =>
    obtain ⟨hm, hb⟩ := ih (s.spawn [.watch k.task id c])
    exact ⟨(Moves.spawn s [.watch k.task id c]).trans hm, hb⟩

theorem created_moves (k : Ticket) (watcher : Option (ThreadId × PromiseId)) (l : Launch) :
    ∃ new spawned, Moves [] i new spawned s (s.created i k watcher l) ∧
      (∀ p, k.Yields s.board (s.created i k watcher l).board (.ok l) new
        (k.watchers p ++ spawned)) ∧
      ∃ cs ps, (s.created i k watcher l).board = { s.board with channels := cs, promises := ps } := by
  unfold created
  simp only []
  split
  · rename_i signals hsig
    obtain ⟨⟨restarter, hm⟩, ps, hb⟩ :=
      launched_moves i (s.openChannel ⟨signals, 0, k.task.instances, false⟩) k watcher l
        s.channels.length
    have ho : Moves [] i [] [] s (s.openChannel ⟨signals, 0, k.task.instances, false⟩) :=
      .of_eq rfl (.refl _)
    refine ⟨_, _, ho.trans hm, fun p => ?_, _, ps, hb⟩
    rw [List.append_nil, List.nil_append]
    exact .known l signals p watcher restarter hsig (by rw [hb]; rfl) (by rw [hb]; rfl)
  · rename_i hsig
    generalize ho : s.openChannel ⟨[], l.containers.length, k.task.instances, false⟩ = s₁
    have h₁ : Moves [] i [] [] s s₁ := by
      rw [← ho]
      exact .of_eq rfl (.refl _)
    have hc₁ : s₁.channels =
        s.channels ++ [⟨[], l.containers.length, k.task.instances, false⟩] := by
      rw [← ho]
      rfl
    obtain ⟨h₂, hb₂⟩ := observe_moves i s₁ k s.channels.length l.containers
    generalize hf : (l.containers.foldl
      (fun s' id => s'.spawn [.watch k.task id s.channels.length]) s₁) = s₂ at h₂ hb₂ ⊢
    have hb : s₂.board = { s.board with channels := s₁.channels } := by
      rw [hb₂, ← ho]
      rfl
    have h := h₁.trans h₂
    split_ifs
    · obtain ⟨⟨restarter, hm⟩, ps, hbl⟩ := launched_moves i s₂ k watcher l s.channels.length
      have hbl' := hbl.trans (congrArg (fun b : Board => { b with promises := ps }) hb)
      refine ⟨_, _, h.trans hm, fun p => ?_, _, ps, hbl'⟩
      rw [List.append_nil, List.append_nil, List.nil_append]
      exact .watched l p watcher restarter hsig (by rw [hbl']) (by rw [hbl']; exact hc₁)
    · have hr : s₂.report = s.report := congrArg Board.report hb
      have hc : s₂.channels = s₁.channels := congrArg Board.channels hb
      refine ⟨_, _, h.then_push _, fun p => ?_, _, s.promises, hb⟩
      exact .awaited l p watcher _ hsig hr (hc.trans hc₁)

theorem observe_scope (k : Ticket) (c : ChannelId) (ids : List String) :
    (ids.foldl (fun s id => s.spawn [.watch k.task id c]) s).scope = s.scope := by
  induction ids generalizing s with
  | nil => rfl
  | cons id ids ih => exact ih (s.spawn [.watch k.task id c])

theorem created_broken (k : Ticket) (watcher : Option (ThreadId × PromiseId)) (l : Launch) :
    (s.created i k watcher l).scope.broken = s.scope.broken := by
  unfold created
  simp only []
  split
  · exact launched_broken i _ k watcher l _
  · split_ifs
    · exact (launched_broken i _ k watcher l _).trans (congrArg Scope.broken (observe_scope _ k _ _))
    · exact congrArg Scope.broken (observe_scope (s.openChannel _) k _ _)

theorem forsake_scope (watcher : Option (ThreadId × PromiseId)) : (s.forsake watcher).scope = s.scope := by
  cases watcher <;> rfl

theorem forsake_board (watcher : Option (ThreadId × PromiseId)) : (s.forsake watcher).board = s.board := by
  cases watcher <;> rfl

theorem forsake_moves {kinds : List EventKind} {k : Ticket} {p : PromiseId} (s₀ : State σ)
    {watcher : Option (ThreadId × PromiseId)} (hm : Moves kinds i [] (k.watchers p) s₀ s)
    (hw : watcher = none ∧ k.watchers p = [] ∨
      ∃ w jobs, watcher = some w ∧ w.1 = s₀.threads.length ∧ k.watchers p = [jobs]) :
    Moves kinds i [] ((k.watchers p).map fun _ => []) s₀ (s.forsake watcher) := by
  rcases hw with ⟨hnone, hk⟩ | ⟨w, jobs, hsome, hlen, hk⟩
  · rw [hnone]
    rw [hk] at hm ⊢
    exact hm
  · rw [hsome]
    rw [hk] at hm ⊢
    have hc := Moves.then_cancel (show Moves kinds i [] ([] ++ [jobs]) s₀ _ from hm)
    rwa [List.length_nil, Nat.add_zero, ← hlen] at hc

theorem refused_moves {kinds : List EventKind} {k : Ticket} {p : PromiseId} (s₀ : State σ)
    {watcher : Option (ThreadId × PromiseId)} (fault : RuntimeFault)
    (hm : Moves kinds i [] (k.watchers p) s₀ s)
    (hw : watcher = none ∧ k.watchers p = [] ∨
      ∃ w jobs, watcher = some w ∧ w.1 = s₀.threads.length ∧ k.watchers p = [jobs]) :
    Moves kinds i [.failed k.task.describe fault] ((k.watchers p).map fun _ => []) s₀
      (s.refused i k watcher fault) := by
  have hn := forsake_moves i _ s₀ (hm.then_moves (moves_note i s (.warn "launch failed"))) hw
  have hf : Moves kinds i [] ((k.watchers p).map fun _ => []) s₀
      (State.fail k.task.describe fault ((s.note (.warn "launch failed")).forsake watcher)) :=
    hn.then_eq rfl (.refl _)
  exact hf.then_push _

theorem refused_board (k : Ticket) (watcher : Option (ThreadId × PromiseId))
    (fault : RuntimeFault) : (s.refused i k watcher fault).board =
      { s.board with report := s.report.fail k.task.describe fault.message } := by
  unfold refused
  cases watcher <;> rfl

theorem refused_trace (k : Ticket) (watcher : Option (ThreadId × PromiseId))
    (fault : RuntimeFault) : (s.refused i k watcher fault).scope.trace = s.scope.trace := by
  have h := (Scope.grows_note (.warn "launch failed") s.scope).trace_eq
  unfold refused
  cases watcher <;> exact h

theorem refused_broken (k : Ticket) (watcher : Option (ThreadId × PromiseId))
    (fault : RuntimeFault) : (s.refused i k watcher fault).scope.broken = s.scope.broken := by
  have h := note_broken s (.warn "launch failed")
  unfold refused
  cases watcher <;> exact h

section Launches

variable {k : Ticket} {p : PromiseId} {watcher : Option (ThreadId × PromiseId)} {s₂ : State σ}
  {ps : List Promise}

/-- A launch that came off. -/
theorem launch_ok_effect {l : Launch} (hm : Moves [.run] i [] (k.watchers p) s s₂)
    (hb : s₂.board = { s.board with promises := ps }) (hbr : s₂.scope.broken = false)
    (hr : (s.scope.launch st.env k.task).1 = .ok l)
    (ht : s₂.scope.trace = ⟨s.scope.clock, .run k.task (.ok l)⟩ :: s.scope.trace) :
    Effect st i (.launch k) s (s₂.created i k watcher l) := by
  have hrep : s₂.report = s.report := congrArg Board.report hb
  have hcha : s₂.channels = s.channels := congrArg Board.channels hb
  obtain ⟨new, spawned, hm₃, hy, cs, ps', hb₃⟩ := created_moves i s₂ k watcher l
  have hm := hm.trans (hm₃.mono (List.nil_subset _))
  rw [List.append_nil] at hm
  refine .of_moves (.inr ⟨(created_broken i s₂ k watcher l).trans hbr,
      hm₃.scope.trace_eq.trans ?_, ?_⟩) hm
    ⟨s.report, cs, ps', hb₃.trans ?_⟩
  · rw [hr, ht]
  · rw [hr]
    exact (hy p).of_board_eq hrep hcha
  · exact congrArg (fun b : Board => { b with channels := cs, promises := ps' }) hb

/-- A launch that was refused. -/
theorem launch_error_effect {fault : RuntimeFault} (hm : Moves [.run] i [] (k.watchers p) s s₂)
    (hw : watcher = none ∧ k.watchers p = [] ∨ ∃ w jobs, watcher = some w ∧ w.1 = s.threads.length ∧
      k.watchers p = [jobs])
    (hb : s₂.board = { s.board with promises := ps }) (hbr : s₂.scope.broken = false)
    (hr : (s.scope.launch st.env k.task).1 = .error fault)
    (ht : s₂.scope.trace = ⟨s.scope.clock, .run k.task (.error fault)⟩ :: s.scope.trace) :
    Effect st i (.launch k) s (s₂.refused i k watcher fault) := by
  have hrep : s₂.report = s.report := congrArg Board.report hb
  have hcha : s₂.channels = s.channels := congrArg Board.channels hb
  have hb₃ := refused_board i s₂ k watcher fault
  refine .of_moves (.inr ⟨(refused_broken i s₂ k watcher fault).trans hbr, ?_, ?_⟩)
    (refused_moves i s₂ s fault hm hw)
    ⟨s₂.report.fail k.task.describe fault.message, s.channels, ps, hb₃.trans ?_⟩
  · rw [hr, refused_trace, ht]
  · rw [hr]
    refine .refused fault p ?_ ?_
    · rw [hb₃]
      exact congrArg (Report.fail · k.task.describe fault.message) hrep
    · rw [hb₃]
      exact hcha
  · exact congrArg (fun b : Board =>
      { b with report := s₂.report.fail k.task.describe fault.message }) hb

end Launches

theorem launch_effect (k : Ticket) : Effect st i (.launch k) s (s.launch st i k) := by
  unfold launch
  by_cases he : k.task.command.isEmpty = true
  · rw [if_pos he]
    exact .of_moves (.inl ⟨0, rfl, rfl, rfl, rfl, .inl rfl⟩) (.refl s) ⟨_, _, _, rfl⟩
  · rw [if_neg he]
    obtain ⟨p, hm₁, ⟨ps, hb₁⟩, hsc, hw⟩ := spawnWatcher_moves i s k
    rcases hs₁ : s.spawnWatcher k with ⟨watcher, s₁⟩
    rw [hs₁] at hm₁ hb₁ hw hsc
    have hg : s₁.scope.Grows [.run] (s₁.scope.launch st.env k.task).2 :=
      Scope.grows_call _ (by intro; rfl) _
    have hm₂ := (hm₁.mono (List.nil_subset _)).then_moves (moves_within i s₁ hg)
    rcases hs₂ : s₁.within (Scope.launch st.env k.task) with ⟨r, s₂⟩
    have hb₂ : s₂.board = { s.board with promises := ps } := by
      rw [← hb₁]
      exact (congrArg (fun p => p.2.board) hs₂).symm
    have hr : (s.scope.launch st.env k.task).1 = r := by
      rw [← hsc]
      exact congrArg Prod.fst hs₂
    have hs₂c : (s.scope.launch st.env k.task).2 = s₂.scope := by
      rw [← hsc]
      exact congrArg (fun p => p.2.scope) hs₂
    rw [hs₂] at hm₂
    simp only [hs₂]
    split_ifs with hbr
    · have ht : s₂.scope.trace = s.scope.trace := by
        rw [← hs₂c] at hbr ⊢
        exact Scope.call_trace_of_broken hbr
      have hb₃ := (forsake_board s₂ watcher).trans hb₂
      have ht₃ := (congrArg Scope.trace (forsake_scope s₂ watcher)).trans ht
      exact .of_moves (.inl ⟨p, congrArg Board.report hb₃, congrArg Board.channels hb₃, ht₃, rfl, .inr rfl⟩)
        (forsake_moves i s₂ s hm₂ hw) ⟨s.report, s.channels, ps, hb₃⟩
    · rw [Bool.not_eq_true] at hbr
      have ht : s₂.scope.trace = ⟨s.scope.clock, .run k.task r⟩ :: s.scope.trace := by
        rw [← hs₂c] at hbr ⊢
        rw [← hr]
        exact Scope.call_trace hbr
      cases r with
      | ok l => exact launch_ok_effect st i s hm₂ hb₂ hbr hr ht
      | error fault => exact launch_error_effect st i s hm₂ hw hb₂ hbr hr ht

end State

/-- What a job does is in the tables. -/
theorem Job.perform_effect (st : Settings σ) (i : ThreadId) (j : Job) (s : State σ) :
    Effect st i j s (j.perform st i s) := by
  cases j with
  | opening calls inv => exact State.opening_effect st i s calls inv
  | passes inv limit pass => exact State.passes_effect st i s inv limit pass
  | reclaim occasion => exact State.reclaim_effect st i s occasion
  | emit => exact State.emit_effect st i s
  | teardown => exact State.teardown_effect st i s
  | saveLogs => exact State.saveLogs_effect st i s
  | removeServers => exact State.removeServers_effect st i s
  | elapsed => exact State.elapsed_effect st i s
  | setLoops pass => exact .of_moves ⟨rfl, rfl⟩ (.of_eq rfl (.of_eq rfl rfl)) rfl
  | walk pass last rest => exact State.walk_effect st i s pass last rest
  | leaveScope target => exact State.leaveScope_effect st i s target
  | provideScope target => exact State.provideScope_effect st i s target
  | enterScope => exact State.enterScope_effect st i s
  | dispatch a => exact State.dispatch_effect st i s a
  | control task a => exact State.control_effect st i s task a
  | gate condition => exact State.gate_effect st i s condition
  | launch k => exact State.launch_effect st i s k
  | launched k watcher l c => exact State.launched_effect st i s k watcher l c
  | removeAll handles => exact State.removeAll_effect st i s handles
  | failed describe fault => exact State.failed_effect st i s describe fault
  | endCollection => exact State.endCollection_effect st i s
  | stopOnError => exact State.stopOnError_effect st i s
  | drain c describe left => exact State.drain_effect st i s c describe left
  | repeatLoop handle left => exact State.repeatLoop_effect st i s handle left
  | awaitLaunch p condition => exact State.awaitLaunch_effect st i s p condition
  | untilLoop handle condition => exact State.untilLoop_effect st i s handle condition
  | settlePromise p handle => exact .of_moves ⟨rfl, rfl⟩ (.of_eq rfl (.refl _)) ⟨_, rfl⟩
  | watch task id c => exact State.watch_effect st i s task id c
  | expire task id c => exact State.expire_effect st i s task id c
  | send c signal => exact State.send_effect st i s c signal
  | sleep ms => exact .of_moves ⟨rfl, rfl⟩ (.push s _) rfl
  | wake _ => exact .of_moves ⟨rfl, rfl⟩ (.refl s) rfl
  | join _ => exact .of_moves ⟨rfl, rfl⟩ (.refl s) rfl
  | hang => exact .of_moves ⟨rfl, rfl⟩ (.refl s) rfl

end Workload.Run

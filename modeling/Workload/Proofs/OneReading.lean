import Workload.Proofs.Alike
import Workload.Proofs.Flattening

/-!
# One reading

Where watched containers leave the world as it is, a list of actions that is read in some view has one
reading (`flattens_unique`): what is done in views that are alike has the same results.
-/

namespace Workload.Run

variable {σ : Type} (st : Settings σ)

theorem sideBySide_requirement (requires : String) : Scope.SideBySide (st.requirement requires) := by
  intro s s' h
  unfold Settings.requirement
  split_ifs
  · exact ⟨rfl, h⟩
  · obtain ⟨hr, hs⟩ := Scope.sideBySide_condition st.env requires s s' h
    rcases he : s.condition st.env requires with ⟨r, t⟩
    rcases he' : s'.condition st.env requires with ⟨r', t'⟩
    rw [he, he'] at hr hs
    obtain rfl : r = r' := hr
    cases r with
    | ok b =>
      cases b with
      | true => exact ⟨rfl, hs⟩
      | false => exact ⟨rfl, Scope.Alike.notes hs _⟩
    | error => exact ⟨rfl, Scope.Alike.notes (Scope.Alike.notes hs _) _⟩

theorem sideBySide_duration (text : String) : Scope.SideBySide (st.duration text) := by
  intro s s' h
  unfold Settings.duration
  split_ifs
  · exact ⟨rfl, h⟩
  · obtain ⟨hr, hs⟩ := Scope.sideBySide_evaluate st.env text s s' h
    rcases he : s.evaluate st.env text with ⟨r, t⟩
    rcases he' : s'.evaluate st.env text with ⟨r', t'⟩
    rw [he, he'] at hr hs
    obtain rfl : r = r' := hr
    cases r with
    | ok value =>
      simp only []
      split
      · exact ⟨rfl, hs⟩
      · exact ⟨rfl, Scope.Alike.notes hs _⟩
      · exact ⟨rfl, hs⟩
    | error => exact ⟨rfl, Scope.Alike.notes hs _⟩

theorem sideBySide_concurrency (text : String) : Scope.SideBySide (st.concurrency text) := by
  intro s s' h
  unfold Settings.concurrency
  split_ifs
  · exact ⟨rfl, h⟩
  · obtain ⟨hr, hs⟩ := Scope.sideBySide_evaluate st.env text s s' h
    rcases he : s.evaluate st.env text with ⟨r, t⟩
    rcases he' : s'.evaluate st.env text with ⟨r', t'⟩
    rw [he, he'] at hr hs
    obtain rfl : r = r' := hr
    simp only []
    split
    · exact ⟨rfl, hs⟩
    · exact ⟨rfl, Scope.Alike.notes hs _⟩

/-! ## Views side by side -/

/-- Two views in which all texts have the same values. -/
structure View.Alike (v v' : View σ) : Prop where
  scope : v.scope.Alike v'.scope
  templates : v.templates = v'.templates
  draws : v.draws = v'.draws

namespace View.Alike

variable {v v' v'' : View σ}

theorem symm (h : v.Alike v') : v'.Alike v := ⟨h.scope.symm, h.templates.symm, h.draws.symm⟩

theorem trans (h : v.Alike v') (h' : v'.Alike v'') : v.Alike v'' :=
  ⟨h.scope.trans h'.scope, h.templates.trans h'.templates, h.draws.trans h'.draws⟩

theorem within (h : v.Alike v') {sc sc' : Scope σ} (hs : sc.Alike sc') :
    View.Alike { v with scope := sc } { v' with scope := sc' } :=
  ⟨hs, h.templates, h.draws⟩

theorem counting (h : v.Alike v') (pass : Nat) : (v.counting pass).Alike (v'.counting pass) :=
  ⟨⟨h.scope.world, h.scope.rests.aliases, rfl, h.scope.rests.topology⟩, h.templates, h.draws⟩

theorem named (h : v.Alike v') (alias_ handle : String) :
    (v.named alias_ handle).Alike (v'.named alias_ handle) :=
  ⟨⟨h.scope.world, congrArg (fun l : Aliases => l.put alias_ handle) h.scope.rests.aliases,
    h.scope.rests.loops, h.scope.rests.topology⟩, h.templates, h.draws⟩

/-- Where watched containers leave the world as it is nothing drifts. -/
theorem of_drifts {env : Environment σ} (hstill : ∀ w w', env.Watches w w' → w' = w)
    (h : v.Drifts env v') : v.Alike v' := by
  refine ⟨⟨?_, h.scope⟩, h.templates.symm, h.draws.symm⟩
  have hworld := h.world
  generalize v'.scope.world = w at hworld
  induction hworld with
  | refl => rfl
  | tail _ hw ih => rw [hstill _ _ hw, ← ih]

theorem aliasOf (h : v.Alike v') (a : Action) :
    (v.state.aliasOf st a).1 = (v'.state.aliasOf st a).1 ∧
      (v.state.aliasOf st a).2.view.Alike (v'.state.aliasOf st a).2.view := by
  have hdraws : v.state.draws = v'.state.draws := h.draws
  unfold State.aliasOf
  split_ifs
  · refine ⟨?_, h.scope, h.templates, ?_⟩
    · simp only [hdraws]
    · simp only [State.view, hdraws]
  · exact ⟨rfl, h⟩

theorem clientOp (h : v.Alike v') (op : ClientOp) :
    (v.onState (State.clientOp st op)).Alike (v'.onState (State.clientOp st op)) := by
  have hcall : ∀ (line : LogLine) (f : Scope σ → Except RuntimeFault Unit × Scope σ), Scope.SideBySide f →
      ((v.state.note line).clientCall f).view.Alike ((v'.state.note line).clientCall f).view := by
    intro line f hf
    obtain ⟨hr, hs⟩ := hf _ _ (h.scope.notes line)
    unfold State.clientCall State.attempt State.within
    simp only [show (v.state.note line).scope = v.scope.note line from rfl,
      show (v'.state.note line).scope = v'.scope.note line from rfl]
    rcases he : f (v.scope.note line) with ⟨r, t⟩
    rcases he' : f (v'.scope.note line) with ⟨r', t'⟩
    rw [he, he'] at hr hs
    obtain rfl : r = r' := hr
    cases r with
    | ok => exact ⟨hs, h.templates, h.draws⟩
    | error => exact ⟨hs.notes _, h.templates, h.draws⟩
  have halias : v'.state.scope.aliases = v.state.scope.aliases := h.scope.rests.aliases
  unfold View.onState State.clientOp
  rw [halias]
  split
  · exact ⟨h.scope.notes _, h.templates, h.draws⟩
  · split
    · exact hcall _ _ (Scope.sideBySide_call _ _)
    · exact hcall _ _ (Scope.sideBySide_call _ _)
    · exact hcall _ _ (Scope.sideBySide_call _ _)
    · exact hcall _ _ (Scope.sideBySide_call _ _)
    · exact hcall _ _ (Scope.sideBySide_call _ _)
    · exact ⟨h.scope.notes _, h.templates, h.draws⟩

theorem includeFiles (h : v.Alike v') (files : String) :
    (v.onState (State.includeFiles st files)).Alike (v'.onState (State.includeFiles st files)) := by
  have hbad : ∀ (l : List Nat) (s s' : State σ), s.view.Alike s'.view →
      (l.foldl (fun s _ => s.note (.warn "invalid include pattern")) s).view.Alike
        (l.foldl (fun s _ => s.note (.warn "invalid include pattern")) s').view := by
    intro l
    induction l with
    | nil => exact fun _ _ h => h
    | cons _ l ih => exact fun s s' h => ih _ _ ⟨h.scope.notes _, h.templates, h.draws⟩
  have hfiles : ∀ (fs : Files) (paths : List String) (s s' : State σ), s.view.Alike s'.view →
      (paths.foldl (State.includeFile fs) s).view.Alike
        (paths.foldl (State.includeFile fs) s').view := by
    intro fs paths
    induction paths with
    | nil => exact fun _ _ h => h
    | cons path paths ih =>
      intro s s' h
      refine ih _ _ ?_
      unfold State.includeFile
      split
      · exact ⟨h.scope, congrArg (fun t : TemplateCache => t.insertAll _) h.templates, h.draws⟩
      · exact ⟨h.scope.notes _, h.templates, h.draws⟩
  have hfs : v.state.scope.files st.env = v'.state.scope.files st.env :=
    congrArg st.env.files h.scope.world
  unfold View.onState State.includeFiles
  simp only [hfs]
  exact hfiles _ _ _ _ (hbad _ _ _ h)

end View.Alike

/-! ## The launches are determined -/

section

variable {st} {task : Task} {alias_ : String} {a : Action} {pass : Nat} {last : Option Action}
  {rest : List Action} {v v' w w' x x' : View σ} {calls calls' : List Task}

theorem alike_of_drifts (hstill : ∀ w w', st.env.Watches w w' → w' = w) (hv : v.Alike v')
    (hx : v.Drifts st.env x) (hx' : v'.Drifts st.env x') : x.Alike x' :=
  (View.Alike.of_drifts hstill hx).symm.trans (hv.trans (.of_drifts hstill hx'))

theorem launches_unique (hstill : ∀ w w', st.env.Watches w w' → w' = w) (hv : v.Alike v')
    (h : Launches st task alias_ v calls w) (h' : Launches st task alias_ v' calls' w') :
    calls = calls' ∧ w.Alike w' := by
  cases h with
  | idle hc hw =>
    cases h' with
    | idle _ hw' => exact ⟨rfl, alike_of_drifts hstill hv hw hw'⟩
    | accepted hne | refused hne => exact absurd hc hne
  | accepted hne hx hl hy hw =>
    cases h' with
    | idle hc => exact absurd hc hne
    | accepted _ hx' hl' hy' hw' =>
      have hxx := alike_of_drifts hstill hv hx hx'
      obtain ⟨hr, hs⟩ := (Scope.sideBySide_launch st.env task).eq hxx.scope hl hl'
      obtain rfl := Except.ok.inj hr
      have hyy := alike_of_drifts hstill (hxx.within hs) hy hy'
      exact ⟨rfl, alike_of_drifts hstill (hyy.named _ _) hw hw'⟩
    | refused _ hx' hl' =>
      have hxx := alike_of_drifts hstill hv hx hx'
      cases ((Scope.sideBySide_launch st.env task).eq hxx.scope hl hl').1
  | refused hne hx hl hw =>
    cases h' with
    | idle hc => exact absurd hc hne
    | accepted _ hx' hl' =>
      have hxx := alike_of_drifts hstill hv hx hx'
      cases ((Scope.sideBySide_launch st.env task).eq hxx.scope hl hl').1
    | refused _ hx' hl' hw' =>
      have hxx := alike_of_drifts hstill hv hx hx'
      obtain ⟨-, hs⟩ := (Scope.sideBySide_launch st.env task).eq hxx.scope hl hl'
      exact ⟨rfl, alike_of_drifts hstill (hxx.within hs) hw hw'⟩

theorem task_eq {sc sc' : Scope σ} (h : sc.Alike sc') (command : List String) (limit : Duration)
    (instances : Nat) : st.task a command limit instances sc = st.task a command limit instances sc' := by
  unfold Settings.task Scope.links
  rw [h.world]

theorem dispatches_unique (hstill : ∀ w w', st.env.Watches w w' → w' = w) (hv : v.Alike v')
    (h : Dispatches st a v calls w) (h' : Dispatches st a v' calls' w') :
    calls = calls' ∧ w.Alike w' := by
  have hreq := sideBySide_requirement st a.requires
  have hcomp := Scope.sideBySide_compileCommand st.env a.command
  cases h with
  | skipped hx hr hw =>
    cases h' with
    | skipped hx' hr' hw' =>
      have hxx := alike_of_drifts hstill hv hx hx'
      obtain ⟨-, hs⟩ := hreq.eq hxx.scope hr hr'
      exact ⟨rfl, alike_of_drifts hstill (hxx.within hs) hw hw'⟩
    | unreadable hx' hr' | compiled hx' hr' =>
      cases (hreq.eq (alike_of_drifts hstill hv hx hx').scope hr hr').1
  | unreadable hx hr hc hw =>
    cases h' with
    | skipped hx' hr' => cases (hreq.eq (alike_of_drifts hstill hv hx hx').scope hr hr').1
    | unreadable hx' hr' hc' hw' =>
      have hxx := alike_of_drifts hstill hv hx hx'
      obtain ⟨-, hs⟩ := hreq.eq hxx.scope hr hr'
      obtain ⟨-, hs⟩ := hcomp.eq hs hc hc'
      exact ⟨rfl, alike_of_drifts hstill (hxx.within hs) hw hw'⟩
    | compiled hx' hr' hc' =>
      obtain ⟨-, hs⟩ := hreq.eq (alike_of_drifts hstill hv hx hx').scope hr hr'
      cases (hcomp.eq hs hc hc').1
  | compiled hx hr hc hd hn hw =>
    cases h' with
    | skipped hx' hr' => cases (hreq.eq (alike_of_drifts hstill hv hx hx').scope hr hr').1
    | unreadable hx' hr' hc' =>
      obtain ⟨-, hs⟩ := hreq.eq (alike_of_drifts hstill hv hx hx').scope hr hr'
      cases (hcomp.eq hs hc hc').1
    | compiled hx' hr' hc' hd' hn' hw' =>
      have hxx := alike_of_drifts hstill hv hx hx'
      obtain ⟨-, hs⟩ := hreq.eq hxx.scope hr hr'
      obtain ⟨hcommand, hs⟩ := hcomp.eq hs hc hc'
      obtain rfl := Except.ok.inj hcommand
      obtain ⟨hlimit, hs⟩ := (sideBySide_duration st a.duration).eq hs hd hd'
      obtain rfl := Option.some.inj hlimit
      obtain ⟨rfl, hs⟩ := (sideBySide_concurrency st a.concurrency).eq hs hn hn'
      rw [task_eq hs] at hw
      obtain ⟨halias, hview⟩ := View.Alike.aliasOf st (hxx.within hs) a
      unfold Controls at hw hw'
      rw [halias] at hw
      exact launches_unique hstill hview hw hw'

/-- Where the containers that are watched leave the world as it is, a list of actions has only one
reading. -/
theorem flattens_unique (hstill : ∀ w w', st.env.Watches w w' → w' = w) (hv : v.Alike v')
    (h : Flattens st pass last rest v calls w) (h' : Flattens st pass last rest v' calls' w') :
    calls = calls' ∧ w.Alike w' := by
  induction h generalizing v' calls' w' with
  | done hw =>
    cases h' with
    | done hw' => exact ⟨rfl, alike_of_drifts hstill hv hw hw'⟩
  | plain ha hd _ ih =>
    cases h' with
    | plain _ hd' hrest' =>
      obtain ⟨rfl, hu⟩ := dispatches_unique hstill hv hd hd'
      obtain ⟨rfl, hw⟩ := ih hu hrest'
      exact ⟨rfl, hw⟩
    | client ha' | includes ha' | unknown ha' | expanded ha' => cases ha.symm.trans ha'
  | client ha hx _ ih =>
    cases h' with
    | client ha' hx' hrest' =>
      cases ha.symm.trans ha'
      exact ih ((alike_of_drifts hstill hv hx hx').clientOp st _) hrest'
    | plain ha' | includes ha' | unknown ha' | expanded ha' => cases ha.symm.trans ha'
  | includes ha hx _ ih =>
    cases h' with
    | includes ha' hx' hrest' =>
      cases ha.symm.trans ha'
      exact ih ((alike_of_drifts hstill hv hx hx').includeFiles st _) hrest'
    | plain ha' | client ha' | unknown ha' | expanded ha' => cases ha.symm.trans ha'
  | unknown ha hx hn _ ih =>
    cases h' with
    | unknown _ hx' _ hrest' => exact ih (alike_of_drifts hstill hv hx hx') hrest'
    | expanded _ hx' hg =>
      rw [← (alike_of_drifts hstill hv hx hx').templates, hn] at hg
      cases hg
    | plain ha' | client ha' | includes ha' => cases ha.symm.trans ha'
  | expanded ha hx hg he _ _ ihu ihw =>
    cases h' with
    | unknown _ hx' hn' =>
      rw [← (alike_of_drifts hstill hv hx hx').templates, hg] at hn'
      cases hn'
    | expanded _ hx' hg' he' hu' hw' =>
      have hxx := alike_of_drifts hstill hv hx hx'
      rw [← hxx.templates, hg] at hg'
      obtain rfl := Option.some.inj hg'
      obtain ⟨rfl, hs⟩ := (Scope.sideBySide_evaluate st.env _).eq hxx.scope he he'
      obtain ⟨rfl, hu⟩ := ihu ((hxx.within hs).counting pass) hu'
      obtain ⟨rfl, hw⟩ := ihw hu hw'
      exact ⟨rfl, hw⟩
    | plain ha' | client ha' | includes ha' => cases ha.symm.trans ha'

end

end Workload.Run

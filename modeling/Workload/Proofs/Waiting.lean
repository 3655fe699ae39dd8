import Workload.Proofs.Account
import Workload.Proofs.Alike
import Workload.Proofs.Opening
import Workload.Proofs.Pairs

/-!
# Waiting

In a rehearsal it makes no difference to the launches of a run which of its actions are waited for, unless
a launch breaks off (`waits_indifferent`); where one does, the run goes on or not (`waits_matter`).
-/

/-!
## Reports of the same launches

When all signals have been received, a report has the entries for the signals of all launches and one for
each refusal.  So two reports of the same launches have the same entries, in some order
(`entries_perm`).
-/

namespace Workload.Run

variable {σ : Type} {s s' : State σ} {ledger ledger' : List (Origin × ReportEntry)}

/-- An entry is found as often in a ledger as among those that stem from the same. -/
theorem count_shareOf (ledger : List (Origin × ReportEntry)) (o : Origin) (e : ReportEntry) :
    ledger.count (o, e) = (shareOf ledger o).count e := by
  induction ledger with
  | nil => rfl
  | cons p ledger ih =>
    obtain ⟨o', e'⟩ := p
    have hcons : shareOf ((o', e') :: ledger) o =
        if o' = o then e' :: shareOf ledger o else shareOf ledger o := by
      unfold shareOf
      rw [List.filter_cons]
      simp only [decide_eq_true_eq]
      split_ifs <;> rfl
    rw [hcons, List.count_cons, ih]
    split_ifs <;> simp_all

/-- Ledgers in which the same stems from everything are the same, but for the order. -/
theorem perm_of_shareOf (h : ∀ o, shareOf ledger o = shareOf ledger' o) : ledger.Perm ledger' := by
  refine List.perm_iff_count.2 fun ⟨o, e⟩ => ?_
  rw [count_shareOf, count_shareOf, h]

/-- The launches that came off, whether or not they are waited for. -/
theorem launches_unwaited (s : State σ) : s.launches.map (fun k => (k.1.unwaited, k.2)) =
    (s.scope.launched.filterMap fun e => e.2.2.toOption.map fun l => (e.2.1, l)).reverse := by
  unfold State.launches Scope.launched
  rw [List.map_reverse, List.map_filterMap, List.filterMap_filterMap]
  congr 2
  funext e
  unfold TimedEvent.launch? Event.launched?
  cases e.event with
  | run task r => cases r <;> rfl
  | _ => rfl

/-- The launches that were refused, whether or not they are waited for. -/
theorem refusals_unwaited (s : State σ) : s.refusals.map (fun k => (k.1.unwaited, k.2)) =
    (s.scope.launched.filterMap fun e =>
      match e.2.2 with
      | .error fault => some (e.2.1, fault)
      | .ok _ => none).reverse := by
  unfold State.refusals Scope.launched
  rw [List.map_reverse, List.map_filterMap, List.filterMap_filterMap]
  congr 2
  funext e
  unfold TimedEvent.launch? Event.refused?
  cases e.event with
  | run task r => cases r <;> rfl
  | _ => rfl

/-- What stands at a place of one list stands there in the other, but for what the lists leave open. -/
theorem getElem?_of_map_eq {α β : Type} {f : α → β} {l l' : List α} (h : l'.map f = l.map f) {n : Nat}
    {a : α} (ha : l[n]? = some a) : ∃ a', l'[n]? = some a' ∧ f a' = f a := by
  have hn := congrArg (·[n]?) h
  simp only [List.getElem?_map, ha, Option.map_some] at hn
  exact Option.map_eq_some_iff.1 hn

section Rehearsals

variable {s s' : State (Faulty (World Rehearsal))}

/-- What stems from a launch when all signals have been received. -/
theorem Accounted.shareOf_launch (ha : Accounted s) (hl : Attributed ledger s)
    (hd : s.Drained ∧ ∀ c, ¬s.CutOff c) {n : Nat} {k : Task × Launch} (hk : s.launches[n]? = some k) :
    ∃ signals, k.2.signals = some signals ∧
      shareOf ledger (.launch n) = signals.map (Workload.entryOf k.1.describe) := by
  have hlt : n < s.channels.length := by
    rw [ha.channels]
    exact (List.getElem?_eq_some_iff.1 hk).1
  have hch := List.getElem?_eq_getElem hlt
  obtain ⟨signals, hs, -, heq, -⟩ := hl.launched n k _ hk hch
  rw [ha.queue_empty hch (hd.1 n) (hd.2 n), List.map_nil, List.append_nil] at heq
  exact ⟨signals, hs, heq⟩

/-- Reports of the same launches have the same entries when all signals have been received. -/
theorem entries_perm (ha : Accounted s) (ha' : Accounted s') (hd : s.Drained ∧ ∀ c, ¬s.CutOff c)
    (hd' : s'.Drained ∧ ∀ c, ¬s'.CutOff c) (hl : s'.scope.launched = s.scope.launched) :
    s'.report.entries.Perm s.report.entries := by
  obtain ⟨ledger, hledger⟩ := ha.attributed
  obtain ⟨ledger', hledger'⟩ := ha'.attributed
  have hlaunches : s'.launches.map (fun k => (k.1.unwaited, k.2)) =
      s.launches.map fun k => (k.1.unwaited, k.2) := by
    rw [launches_unwaited, launches_unwaited, hl]
  have hrefusals : s'.refusals.map (fun k => (k.1.unwaited, k.2)) =
      s.refusals.map fun k => (k.1.unwaited, k.2) := by
    rw [refusals_unwaited, refusals_unwaited, hl]
  rw [← hledger.entries, ← hledger'.entries]
  refine (perm_of_shareOf fun o => ?_).map Prod.snd
  cases o with
  | launch n =>
    cases hk : s.launches[n]? with
    | some k =>
      obtain ⟨k', hk', heq⟩ := getElem?_of_map_eq hlaunches hk
      obtain ⟨htask, hlaunch⟩ := Prod.ext_iff.1 heq
      have hdesc : k'.1.describe = k.1.describe :=
        show k'.1.unwaited.describe = k.1.unwaited.describe from congrArg Task.describe htask
      obtain ⟨signals, hs, hshare⟩ := ha.shareOf_launch hledger hd hk
      obtain ⟨signals', hs', hshare'⟩ := ha'.shareOf_launch hledger' hd' hk'
      obtain rfl : signals' = signals := Option.some.inj (hs'.symm.trans (hlaunch ▸ hs))
      rw [hshare, hshare', hdesc]
    | none =>
      have hlen : s'.launches.length = s.launches.length := by
        simpa using congrArg List.length hlaunches
      have hge := List.getElem?_eq_none_iff.1 hk
      rw [hledger.shareOf_unknown (o := .launch n) (Nat.not_lt.2 hge),
        hledger'.shareOf_unknown (o := .launch n) (Nat.not_lt.2 (hlen ▸ hge))]
  | refusal n =>
    cases hk : s.refusals[n]? with
    | some k =>
      obtain ⟨k', hk', heq⟩ := getElem?_of_map_eq hrefusals hk
      obtain ⟨htask, hfault⟩ := Prod.ext_iff.1 heq
      have hdesc : k'.1.describe = k.1.describe :=
        show k'.1.unwaited.describe = k.1.unwaited.describe from congrArg Task.describe htask
      rw [hledger.refused n k hk, hledger'.refused n k' hk', hdesc, show k'.2 = k.2 from hfault]
    | none =>
      have hlen : s'.refusals.length = s.refusals.length := by
        simpa using congrArg List.length hrefusals
      have hge := List.getElem?_eq_none_iff.1 hk
      rw [hledger.shareOf_unknown (o := .refusal n) (Nat.not_lt.2 hge),
        hledger'.shareOf_unknown (o := .refusal n) (Nat.not_lt.2 (hlen ▸ hge))]

end Rehearsals

end Workload.Run

namespace Workload

/-- A world with other launches to remember. -/
def World.remembering (w : World Rehearsal) (launches : List RehearsedLaunch) : World Rehearsal :=
  { w with containers := { w.containers with launches } }

/-- Two worlds that differ in nothing but the launches they remember. -/
def Twins (w w' : Faulty (World Rehearsal)) : Prop :=
  ∃ launches, w' = { w with world := w.world.remembering launches }

/-- A call that takes no notice of the launches that are remembered, but may add to them. -/
def Unmindful {ε α : Type} (c c' : Call (World Rehearsal) ε α) : Prop :=
  ∀ w launches, ∃ launches', c' (w.remembering launches) = ((c w).1, (c w).2.remembering launches')

section Calls

variable {ε α : Type}

theorem respecting_scripted {script : Faults → List (Option ε)} {advance : Faults → Faults}
    {c c' : Call (World Rehearsal) ε α} (h : Unmindful c c') :
    Respecting Twins (Faulty.scripted script advance c) (Faulty.scripted script advance c') := by
  rintro w _ ⟨launches, rfl⟩
  obtain ⟨launches', hc⟩ := h w.world launches
  unfold Faulty.scripted Faulty.plain
  simp only [hc]
  rcases script w.faults with _ | ⟨_ | fault, faults⟩
  · exact ⟨rfl, launches', rfl⟩
  · exact ⟨rfl, launches', rfl⟩
  · exact ⟨rfl, launches, rfl⟩

theorem respecting_plain {c c' : Call (World Rehearsal) ε α} (h : Unmindful c c') :
    Respecting Twins (Faulty.plain c) (Faulty.plain c') := by
  rintro w _ ⟨launches, rfl⟩
  obtain ⟨launches', hc⟩ := h w.world launches
  unfold Faulty.plain
  simp only [hc]
  exact ⟨trivial, launches', rfl⟩

/-- A call that neither reads nor changes what is remembered. -/
theorem unmindful_of_eq {c : Call (World Rehearsal) ε α}
    (h : ∀ w launches, c (w.remembering launches) = ((c w).1, (c w).2.remembering launches)) :
    Unmindful c c :=
  fun w launches => ⟨launches, h w launches⟩

theorem unmindful_launch {task task' : Task} (h : task'.unwaited = task.unwaited) :
    Unmindful (World.inContainers (Rehearsal.launch task)) (World.inContainers (Rehearsal.launch task')) := by
  have hinstances : task'.instances = task.instances :=
    show task'.unwaited.instances = task.unwaited.instances from congrArg Task.instances h
  have himage : task'.image = task.image :=
    show task'.unwaited.image = task.unwaited.image from congrArg Task.image h
  intro w launches
  unfold World.inContainers Rehearsal.launch
  simp only [hinstances, himage, show (w.remembering launches).containers.refusing =
    w.containers.refusing from rfl]
  split_ifs
  · exact ⟨launches, rfl⟩
  · exact ⟨launches, rfl⟩
  · exact ⟨launches, rfl⟩
  · exact ⟨_, rfl⟩

theorem unmindful_status (handle : String) :
    Unmindful (World.inContainers (Rehearsal.status handle))
      (World.inContainers (Rehearsal.status handle)) := by
  intro w launches
  refine ⟨launches, ?_⟩
  unfold World.inContainers Rehearsal.status
  simp only [show (w.remembering launches).containers.statuses = w.containers.statuses from rfl,
    show (w.remembering launches).containers.live = w.containers.live from rfl]
  rcases w.containers.statuses.get? handle with _ | _ | ⟨answer, rest⟩
  · simp only []
    split_ifs <;> rfl
  · simp only []
    split_ifs <;> rfl
  · rfl

end Calls

/-- What surrounds the containers takes no notice of the launches that are remembered. -/
structure Environment.Oblivious (env : Environment (Faulty (World Rehearsal))) : Prop where
  provide : ∀ t, Respecting Twins (env.provider.provide t) (env.provider.provide t)
  host : ∀ node, Respecting Twins (env.provider.host node) (env.provider.host node)
  rest : ∀ node, Respecting Twins (env.provider.rest node) (env.provider.rest node)
  links : ∀ p, env.provider.provisioning = some p → ∀ w w', Twins w w' → p.links w = p.links w'
  saveLogs : ∀ p, env.provider.provisioning = some p → ∀ directory,
    Respecting Twins (p.saveLogs directory) (p.saveLogs directory)
  removeServers : ∀ p, env.provider.provisioning = some p → ∀ soft,
    Respecting Twins (p.removeServers soft) (p.removeServers soft)
  hooks : ∀ name, (env.hooks name).Respects Twins
  files : ∀ w w', Twins w w' → env.files w = env.files w'

section Surroundings

variable {env : Environment (Faulty (World Rehearsal))}

/-- Nothing in a rehearsal depends on the launches that are remembered. -/
theorem Environment.Oblivious.respects (h : env.Oblivious)
    (hrt : env.runtime = Faulty.runtime Rehearsal.runtime) : env.Respects Twins := by
  constructor
  case run =>
    intro task
    rw [hrt]
    exact respecting_scripted (unmindful_launch rfl)
  case status =>
    intro handle
    rw [hrt]
    exact respecting_scripted (unmindful_status handle)
  case watch =>
    rw [hrt]
    rintro task id w _ ⟨launches, rfl⟩
    exact ⟨rfl, launches, rfl⟩
  case expire =>
    rw [hrt]
    rintro task id w _ ⟨launches, rfl⟩
    exact ⟨rfl, launches, rfl⟩
  case host => exact h.host
  case rest => exact h.rest
  case links => exact h.links
  case saveLogs => exact h.saveLogs
  case removeServers => exact h.removeServers
  case hooks => exact h.hooks
  case files => exact h.files
  all_goals
    rw [hrt]
    intros
    exact respecting_scripted (unmindful_of_eq fun _ _ => rfl)

theorem indifferent_of_rehearsal (hrt : env.runtime = Faulty.runtime Rehearsal.runtime) :
    env.Indifferent Twins := by
  intro task task' h
  rw [hrt]
  exact respecting_scripted (unmindful_launch h)

/-- A launch of a rehearsal that comes off tells the signals of its containers at once. -/
theorem prompt_of_faulty (hrt : env.runtime = Faulty.runtime Rehearsal.runtime) : env.Prompt := by
  intro task w l hl
  rw [hrt] at hl
  have hrun : (Rehearsal.runtime.run task w.world).1.result = .ok l := Run.scripted_ok hl
  obtain ⟨signals, hsig, -⟩ := Run.rehearsal_launch_signals (r := w.world.containers) hrun
  exact ⟨signals, hsig⟩

end Surroundings

namespace Run

section Runs

variable {st : Settings (Faulty (World Rehearsal))} {s s' : State (Faulty (World Rehearsal))}

theorem neutral_of_rehearsal (hrt : st.env.runtime = Faulty.runtime Rehearsal.runtime)
    (henv : st.env.Oblivious) (hquiet : st.collects = false) (hpause : 0 < st.config.timings.settle) :
    st.Neutral Twins :=
  ⟨henv.respects hrt, indifferent_of_rehearsal hrt, henv.provide, prompt_of_faulty hrt, hquiet, hpause⟩

/-- When the first thread is done, all signals have been received. -/
theorem drained_of_over (ha : Accounted s) {l : Line} (hs : Shows st s l) (hover : s.main = [])
    (hfell : s.fell = false) : s.Drained ∧ ∀ c, ¬s.CutOff c := by
  have hthreads : ∀ t ∈ s.threads, t.Done := by
    intro t hm
    obtain ⟨k, hk⟩ := List.mem_iff_getElem?.1 hm
    by_cases h0 : k = 0
    · subst h0
      have hjobs : t.jobs = [] := (main_eq hk).symm.trans hover
      exact ⟨(fell_eq hk).symm.trans hfell, by simp [hjobs]⟩
    · exact (hs.over hover).2.2 k t h0 h0 hk
  refine ⟨ha.drained fun t ht c describe left hmem => ?_, ha.not_cutOff fun t ht => (hthreads t ht).1⟩
  cases (hthreads t ht).2 _ hmem

/-- Two runs of a rehearsal whose actions are the same but for waits launch the same, at the same times, as
long as no launch breaks off; the one may just have got further than the other.  When one of them is over the
other one goes on to its end, and what was launched is then the same, under the same names; so are the
entries of the report, unless the runs broke off. -/
theorem waits_indifferent (hrt : st.env.runtime = Faulty.runtime Rehearsal.runtime)
    (henv : st.env.Oblivious) (hquiet : st.collects = false) (hpause : 0 < st.config.timings.settle)
    {docs docs' : List Action} (hdocs : List.Forall₂ Action.Alike docs docs')
    {sc : Scope (Faulty (World Rehearsal))} (ht : sc.trace = []) (hb : sc.broken = false)
    {report : Report} (hr : report.entries = []) {c c' : List (Moment (Faulty (World Rehearsal)))}
    (hc : Chronicle st (start st sc docs report) c s) (hplain : ∀ m ∈ c, m.plain st = true)
    (hc' : Chronicle st (start st sc docs' report) c' s') (hplain' : ∀ m ∈ c', m.plain st = true) :
    (s.scope.launched <:+ s'.scope.launched ∨ s'.scope.launched <:+ s.scope.launched) ∧
    (s.main = [] → s'.scope.launched <:+ s.scope.launched ∧ Acc (fun v u => Step st u v) s' ∧
      (s'.main ≠ [] → ∃ t, Step st s' t) ∧
      (s'.main = [] → s'.scope.launched = s.scope.launched ∧ s'.scope.aliases = s.scope.aliases ∧
        s'.fell = s.fell ∧ (s.fell = false → s'.report.entries.Perm s.report.entries))) := by
  have hn := neutral_of_rehearsal hrt henv hquiet hpause
  have hself : sc.Abreast Twins sc :=
    ⟨⟨sc.world.world.containers.launches, rfl⟩, .refl sc, rfl, rfl, rfl⟩
  have hstart : Related st Twins (start st sc docs report) (start st sc docs' report) :=
    related_start hdocs hself hb
  have hstart' : Related st Twins (start st sc docs' report) (start st sc docs report) :=
    related_start (.flip (hdocs.imp fun _ _ h => h.symm)) hself hb
  refine ⟨?_, fun hover => ?_⟩
  · rcases Nat.le_total (active c) (active c') with hle | hle
    · exact .inl (launched_of_le hn hstart hc hplain hc' hle)
    · exact .inr (launched_of_le hn hstart' hc' hplain' hc hle)
  have hle := active_le_of_over hn hstart hc hplain hover hc'
  have htidy := tidy_of_plain hn (tidy_start sc docs' report) hb hc' hplain'
  refine ⟨launched_of_le hn hstart' hc' hplain' hc hle, acc_of_over hn hstart hc hplain hover htidy hc',
    fun hgoes => ?_, fun hover' => ?_⟩
  · obtain ⟨j, js, hmain⟩ := List.exists_cons_of_ne_nil hgoes
    exact goes_on hmain (htidy.main j (hmain ▸ List.mem_cons_self))
  have hrelated := related_of_chronicles hn hstart hc hplain hc'
    (Nat.le_antisymm (active_le_of_over hn hstart' hc' hplain' hover' hc) hle)
  refine ⟨hrelated.launched, hrelated.beside.scope.rests.aliases, hrelated.fell, fun hfell => ?_⟩
  obtain ⟨l, l', hs, hs', -⟩ := hrelated.lines
  have ha := accounted_of_reaches hrt ht hb hr hc.reaches
  have ha' := accounted_of_reaches hrt ht hb hr hc'.reaches
  exact entries_perm ha ha' (drained_of_over ha hs hover hfell)
    (drained_of_over ha' hs' hover' (hrelated.fell.trans hfell)) hrelated.launched

end Runs

/-! ## Two rehearsals -/

theorem rehearsed_oblivious (config : RunConfig) : (rehearsed config).env.Oblivious := by
  constructor
  case host => exact fun node => respecting_plain (unmindful_of_eq fun _ _ => rfl)
  case rest => exact fun node => respecting_plain (unmindful_of_eq fun _ _ => rfl)
  case links =>
    rintro p hp w w' -
    cases hp
    rfl
  case saveLogs =>
    rintro p hp directory
    cases hp
    exact respecting_scripted (unmindful_of_eq fun _ _ => rfl)
  case removeServers =>
    rintro p hp soft
    cases hp
    exact respecting_scripted (unmindful_of_eq fun _ _ => rfl)
  case provide => exact fun t => respecting_scripted (unmindful_of_eq fun _ _ => rfl)
  case hooks =>
    rintro (_ | _ | _) <;> exact respecting_scripted (unmindful_of_eq fun _ _ => rfl)
  case files =>
    rintro w _ ⟨launches, rfl⟩
    rfl

/-- Two actions, the first of which is waited for or not. -/
def pingPong (concurrency : String) (wait : Bool) : List Action :=
  [{ image := "probe", command := "ping", alias_ := "p", concurrency, wait },
    { image := "probe", command := "pong", alias_ := "q" }]

/-- What a schedule makes of them. -/
def pingPongRun (concurrency : String) (wait : Bool) :
    List (Moment (Faulty (World Rehearsal))) × State (Faulty (World Rehearsal)) :=
  (start (rehearsed {}) (rehearsalScope {} {}) (pingPong concurrency wait) {}).chronicle (rehearsed {})
    (fun _ => false) 100 0

theorem pingPongRun_chronicle (concurrency : String) (wait : Bool) :
    Chronicle (rehearsed {}) (start (rehearsed {}) (rehearsalScope {} {}) (pingPong concurrency wait) {})
      (pingPongRun concurrency wait).1 (pingPongRun concurrency wait).2 :=
  State.chronicle_spec _ _ _ _ _

theorem waits_indifferent_pingPong :
    (pingPongRun "2" true).2.main = [] ∧ (pingPongRun "2" false).2.main = [] ∧
      (pingPongRun "2" true).2.fell = false ∧ (pingPongRun "2" true).2.scope.launched.length = 2 ∧
      (pingPongRun "2" false).2.scope.launched = (pingPongRun "2" true).2.scope.launched ∧
      (pingPongRun "2" false).2.scope.aliases = (pingPongRun "2" true).2.scope.aliases ∧
      (pingPongRun "2" false).2.report.entries.Perm (pingPongRun "2" true).2.report.entries := by
  have hends : (pingPongRun "2" true).2.main.isEmpty = true ∧
      (pingPongRun "2" false).2.main.isEmpty = true ∧ (pingPongRun "2" true).2.fell = false ∧
      (pingPongRun "2" true).2.scope.launched.length = 2 := by
    decide +kernel
  obtain ⟨hover, hover', hfell, hlength⟩ := hends
  rw [List.isEmpty_iff] at hover hover'
  have hdocs : List.Forall₂ Action.Alike (pingPong "2" true) (pingPong "2" false) :=
    .cons (.inr ⟨rfl, rfl⟩) (.cons (.inl rfl) .nil)
  have h := waits_indifferent rfl (rehearsed_oblivious {}) rfl (by decide) hdocs rfl rfl rfl
    (pingPongRun_chronicle "2" true) (by decide +kernel) (pingPongRun_chronicle "2" false)
    (by decide +kernel)
  obtain ⟨hlaunched, haliases, -, hentries⟩ := (h.2 hover).2.2.2 hover'
  exact ⟨hover, hover', hfell, hlength, hlaunched, haliases, hentries hfell⟩

/-- A launch of more containers than there can be breaks off.  If it is waited for the run does, too, so that
nothing is launched; if it is not, the second action is. -/
theorem waits_matter :
    ((pingPongRun "9223372036854775807" true).2.main.isEmpty ∧
      (pingPongRun "9223372036854775807" true).2.fell ∧
      (pingPongRun "9223372036854775807" true).2.scope.launched.length = 0) ∧
    (pingPongRun "9223372036854775807" false).2.main.isEmpty ∧
      (pingPongRun "9223372036854775807" false).2.fell = false ∧
      (pingPongRun "9223372036854775807" false).2.scope.launched.length = 1 := by
  decide +kernel

end Run

end Workload

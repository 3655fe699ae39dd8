import Workload.Proofs.Chronicles

/-!
# The report accounts for every launch

In a rehearsal the signals of a launch are known at once, one for each of its containers.  Every entry
of the report can be put down to a launch or to a refusal (`Attributed`): those of a launch are the
entries for its first signals, in order, and a refusal has just one.  What a channel still holds is what
is missing from the report (`Accounted`), so that nothing is missing when all channels are closed.  A
channel stays open for good only if the thread breaks off that receives from it (`Accounted.not_cutOff`).
`report_accounts` puts this together.
-/

namespace Workload

/-- The launch that an event tells of. -/
def Event.launched? : Event → Option (Task × Launch)
  | .run task (.ok l) => some (task, l)
  | _ => none

/-- The refusal of a launch that an event tells of. -/
def Event.refused? : Event → Option (Task × RuntimeFault)
  | .run task (.error fault) => some (task, fault)
  | _ => none

/-- The entry of the report for a signal. -/
def entryOf (describe : String) : Signal → ReportEntry
  | none => ⟨true, describe, none⟩
  | some fault => ⟨false, describe, some fault.message⟩

theorem Event.kind_of_launched? {e : Event} {k : Task × Launch} (h : e.launched? = some k) :
    e.kind = .run := by
  cases e with
  | run => rfl
  | _ => cases h

theorem Event.kind_of_refused? {e : Event} {k : Task × RuntimeFault} (h : e.refused? = some k) :
    e.kind = .run := by
  cases e with
  | run => rfl
  | _ => cases h

namespace Run

/-! ## Launches of a rehearsal -/

theorem rehearsal_launch_signals {task : Task} {r : Rehearsal} {l : Launch}
    (h : (Rehearsal.launch task r).1.result = .ok l) :
    ∃ signals, l.signals = some signals ∧ signals.length = task.instances := by
  unfold Rehearsal.launch at h
  simp only [] at h
  split_ifs at h
  · cases h
  · cases h
  · cases h
  · obtain rfl := Except.ok.inj h
    exact ⟨_, rfl, r.length_nextSignals _⟩

theorem scripted_ok {σ ε α : Type} {script : Faults → List (Option ε)} {advance : Faults → Faults}
    {c : Call σ ε α} {w : Faulty σ} {a : α}
    (h : (Faulty.scripted script advance c w).1.result = .ok a) : (c w.world).1.result = .ok a := by
  unfold Faulty.scripted at h
  split at h
  · exact h
  · exact h
  · cases h

/-- A launch has a signal for each of its containers. -/
theorem launch_signals {st : Settings (Faulty (World Rehearsal))}
    (hrt : st.env.runtime = Faulty.runtime Rehearsal.runtime) {sc : Scope (Faulty (World Rehearsal))}
    {task : Task} {l : Launch} (h : (sc.launch st.env task).1 = .ok l) :
    ∃ signals, l.signals = some signals ∧ signals.length = task.instances := by
  have hask : (st.env.runtime.run task sc.world).1.result = .ok l := h
  rw [hrt] at hask
  have hrun : (Rehearsal.runtime.run task sc.world.world).1.result = .ok l := scripted_ok hask
  exact rehearsal_launch_signals (r := sc.world.world.containers) hrun

variable {σ : Type}

namespace State

/-- The launches so far, in order. -/
def launches (s : State σ) : List (Task × Launch) :=
  (s.scope.trace.filterMap fun e => e.event.launched?).reverse

/-- The launches that were refused so far, in order. -/
def refusals (s : State σ) : List (Task × RuntimeFault) :=
  (s.scope.trace.filterMap fun e => e.event.refused?).reverse

end State

theorem launches_of_trace_eq {s s' : State σ} (h : s'.scope.trace = s.scope.trace) :
    s'.launches = s.launches ∧ s'.refusals = s.refusals := by
  unfold State.launches State.refusals
  rw [h]
  exact ⟨rfl, rfl⟩

theorem launches_of_grows {kinds : List EventKind} {s s' : State σ}
    (h : s.scope.Grows kinds s'.scope) (hk : EventKind.run ∉ kinds) :
    s'.launches = s.launches ∧ s'.refusals = s.refusals := by
  obtain ⟨-, new, hn, he⟩ := h
  have hl : new.filterMap (fun e => e.event.launched?) = [] := by
    refine List.filterMap_eq_nil_iff.2 fun e hm => ?_
    cases h : e.event.launched? with
    | none => rfl
    | some k => exact absurd (Event.kind_of_launched? h ▸ (he e hm).2) hk
  have hr : new.filterMap (fun e => e.event.refused?) = [] := by
    refine List.filterMap_eq_nil_iff.2 fun e hm => ?_
    cases h : e.event.refused? with
    | none => rfl
    | some k => exact absurd (Event.kind_of_refused? h ▸ (he e hm).2) hk
  unfold State.launches State.refusals
  rw [hn, List.filterMap_append, List.filterMap_append, hl, hr]
  exact ⟨rfl, rfl⟩

theorem launches_of_launched {s s' : State σ} {time : Nat} {task : Task} {l : Launch}
    (h : s'.scope.trace = ⟨time, .run task (.ok l)⟩ :: s.scope.trace) :
    s'.launches = s.launches ++ [(task, l)] ∧ s'.refusals = s.refusals := by
  unfold State.launches State.refusals
  rw [h]
  exact ⟨List.reverse_cons, rfl⟩

theorem launches_of_refused {s s' : State σ} {time : Nat} {task : Task} {fault : RuntimeFault}
    (h : s'.scope.trace = ⟨time, .run task (.error fault)⟩ :: s.scope.trace) :
    s'.launches = s.launches ∧ s'.refusals = s.refusals ++ [(task, fault)] := by
  unfold State.launches State.refusals
  rw [h]
  exact ⟨rfl, List.reverse_cons⟩

/-! ## What a step does to the account -/

/-- Whether a job has nothing to do with signals; a launch has only with those of its containers. -/
def Job.unbooked : Job → Bool
  | .drain .. | .launched .. | .watch .. | .expire .. | .send .. => false
  | _ => true

/-- What a step does to the report, the channels and the launches, and which signals are to be received
after it. -/
inductive Books (s s' : State σ) (j : Job) (new : List Job) (spawned : List (List Job)) : Prop
  | same : j.unbooked = true → s'.report = s.report → s'.channels = s.channels →
    s'.launches = s.launches → s'.refusals = s.refusals → (∀ x ∈ new, x.unbooked = true) →
    (∀ l ∈ spawned, ∀ x ∈ l, x.unbooked = true) → Books s s' j new spawned
  | refused (task : Task) (fault : RuntimeFault) : j.unbooked = true →
    s'.report = s.report.fail task.describe fault.message → s'.channels = s.channels →
    s'.launches = s.launches → s'.refusals = s.refusals ++ [(task, fault)] →
    (∀ x ∈ new, x.unbooked = true) → (∀ l ∈ spawned, ∀ x ∈ l, x.unbooked = true) →
    Books s s' j new spawned
  | launched (task : Task) (l : Launch) (signals : List Signal) : j.unbooked = true →
    l.signals = some signals → signals.length = task.instances → s'.report = s.report →
    s'.channels = s.channels ++ [⟨signals, 0, task.instances, false⟩] →
    s'.launches = s.launches ++ [(task, l)] → s'.refusals = s.refusals →
    (∀ x ∈ new, x.unbooked = true) →
    (∃ jobs ∈ spawned, .drain s.channels.length task.describe task.instances ∈ jobs) →
    (∀ l ∈ spawned, ∀ x ∈ l, x.unbooked = true ∨
      x = .drain s.channels.length task.describe task.instances) → Books s s' j new spawned
  | received (c : ChannelId) (ch : Channel) (describe : String) (left : Nat) (signal : Signal)
    (rest : List Signal) : j = .drain c describe (left + 1) → s.channels[c]? = some ch →
    ch.queue = signal :: rest →
    s'.report.entries = s.report.entries ++ [entryOf describe signal] →
    s'.channels = s.channels.set c { ch with queue := rest } → s'.launches = s.launches →
    s'.refusals = s.refusals → .drain c describe left ∈ new →
    (∀ x ∈ new, x.unbooked = true ∨ x = .drain c describe left) → spawned = [] →
    Books s s' j new spawned
  | closed (c : ChannelId) (describe : String) (left : Nat) : j = .drain c describe left →
    (∀ ch, s.channels[c]? = some ch → left = 0 ∨ ch.queue = []) → s'.report = s.report →
    s'.channels = (s.channels.modify c fun ch => { ch with closed := true }) →
    s'.launches = s.launches → s'.refusals = s.refusals → new = [] → spawned = [] →
    Books s s' j new spawned

section Steps

variable {st : Settings (Faulty (World Rehearsal))} {s s' : State (Faulty (World Rehearsal))} {j : Job}
  {new : List Job} {spawned : List (List Job)}

theorem unbooked_watchers (k : Ticket) (p : PromiseId) :
    ∀ l ∈ k.watchers p, ∀ x ∈ l, x.unbooked = true := by
  intro l hl x hx
  unfold Ticket.watchers at hl
  split_ifs at hl
  · cases hl
  · obtain rfl := List.mem_singleton.1 hl
    obtain rfl := List.mem_singleton.1 hx
    rfl

theorem unbooked_followers (k : Ticket) (l : Launch) (c : ChannelId) :
    ∀ jobs ∈ k.followers l c, ∀ x ∈ jobs, x.unbooked = true ∨
      x = .drain c k.task.describe k.task.instances := by
  intro jobs hj x hx
  unfold Ticket.followers at hj
  rcases List.mem_cons.1 hj with rfl | hj
  · exact .inr (List.mem_singleton.1 hx)
  · split_ifs at hj
    · cases hj
    · obtain rfl := List.mem_singleton.1 hj
      obtain rfl := List.mem_singleton.1 hx
      exact .inl rfl

theorem unbooked_awaits (k : Ticket) (watcher : Option (ThreadId × PromiseId)) (l : Launch)
    (restarter : ThreadId) : ∀ x ∈ k.awaits watcher l restarter, x.unbooked = true := by
  intro x hx
  unfold Ticket.awaits at hx
  rcases List.mem_append.1 hx with hx | hx
  · split_ifs at hx
    · simp only [List.mem_cons, List.not_mem_nil, or_false] at hx
      rcases hx with rfl | rfl <;> rfl
    · cases hx
  · cases watcher with
    | none => cases hx
    | some w =>
      simp only [Option.elim_some, List.mem_cons, List.not_mem_nil, or_false] at hx
      rcases hx with rfl | rfl <;> rfl

theorem unbooked_of_leaves {x : Job} (h : j.Leaves st x) (hj : j.unbooked = true)
    (hl : ∀ k, j ≠ .launch k) : x.unbooked = true := by
  cases h with
  | launched k watcher l c hs => exact absurd rfl (hl k)
  | receiveNext c describe left => cases hj
  | hang task id c => cases hj
  | expire task id c => cases hj
  | send task id c signal => cases hj
  | sendExpired task id c signal => cases hj
  | _ => rfl

theorem unbooked_of_starts {x : Job} (h : j.Starts st x) (hj : j.unbooked = true)
    (hl : ∀ k, j ≠ .launch k) : x.unbooked = true := by
  cases h with
  | receive k c => exact absurd rfl (hl k)
  | watch k l id c hs => exact absurd rfl (hl k)
  | receiveLaunched k watcher l c => cases hj
  | _ => rfl

theorem books_launch {k : Ticket} (hrt : st.env.runtime = Faulty.runtime Rehearsal.runtime)
    (hy : (Job.launch k).Yields st s s' new spawned) : Books s s' (.launch k) new spawned := by
  rcases hy with ⟨p, hr, hc, ht, rfl, hsp⟩ | ⟨-, ht, hy⟩
  · obtain ⟨hl, hf⟩ := launches_of_trace_eq ht
    refine .same rfl hr hc hl hf (fun x hx => nomatch hx) fun l hm x hx => ?_
    rcases hsp with rfl | rfl
    · cases hm
    · obtain ⟨_, -, rfl⟩ := List.mem_map.1 hm
      cases hx
  · have hknown : ∀ l, (s.scope.launch st.env k.task).1 = .ok l →
        ∃ signals, l.signals = some signals ∧ signals.length = k.task.instances :=
      fun l h => launch_signals hrt h
    generalize (s.scope.launch st.env k.task).1 = r at ht hy hknown
    cases hy with
    | refused fault p hr hc =>
      obtain ⟨hl, hf⟩ := launches_of_refused ht
      refine .refused k.task fault rfl hr hc hl hf (List.forall_mem_singleton.2 rfl) fun l hm x hx => ?_
      obtain ⟨_, -, rfl⟩ := List.mem_map.1 hm
      cases hx
    | known l signals p watcher restarter hs hr hc =>
      obtain ⟨hl, hf⟩ := launches_of_launched ht
      obtain ⟨signals', hs', hlen⟩ := hknown l rfl
      rw [hs] at hs'
      obtain rfl := Option.some.inj hs'
      refine .launched k.task l signals rfl hs hlen hr hc hl hf (unbooked_awaits k watcher l restarter)
        ?_ fun jobs hm x hx => ?_
      · refine ⟨[.drain s.channels.length k.task.describe k.task.instances], ?_,
          List.mem_cons_self⟩
        exact List.mem_append_right _ List.mem_cons_self
      · rcases List.mem_append.1 hm with hm | hm
        · exact .inl (unbooked_watchers k p jobs hm x hx)
        · exact unbooked_followers k l _ jobs hm x hx
    | watched l p watcher restarter hs hr hc =>
      obtain ⟨signals, hs', -⟩ := hknown l rfl
      rw [hs] at hs'
      cases hs'
    | awaited l p watcher observers hs hr hc =>
      obtain ⟨signals, hs', -⟩ := hknown l rfl
      rw [hs] at hs'
      cases hs'

theorem books_drain {c : ChannelId} {describe : String} {left : Nat}
    (hy : (Job.drain c describe left).Yields st s s' new spawned)
    (hg : s.scope.Grows [] s'.scope) : Books s s' (.drain c describe left) new spawned := by
  obtain ⟨hl, hf⟩ := launches_of_grows hg List.not_mem_nil
  obtain ⟨hsp, hy⟩ := hy
  have hqueue : ∀ signal rest, (s.channels[c]?).elim [] Channel.queue = signal :: rest →
      ∃ ch, s.channels[c]? = some ch ∧ ch.queue = signal :: rest := by
    intro signal rest h
    rcases hc : s.channels[c]? with _ | ch
    · rw [hc] at h
      cases h
    · rw [hc] at h
      exact ⟨ch, rfl, h⟩
  split at hy
  · rename_i left rest hq
    obtain ⟨ch, hc, hch⟩ := hqueue none rest hq
    obtain ⟨rfl, hr, hch'⟩ := hy
    refine .received c ch describe left none rest rfl hc hch ?_ ?_ hl hf List.mem_cons_self ?_ hsp
    · rw [hr]
      rfl
    · rw [hch', State.modify_eq_set_of_getElem? _ hc]
    · exact fun x hx => .inr (List.mem_singleton.1 hx)
  · rename_i left fault rest hq
    obtain ⟨ch, hc, hch⟩ := hqueue (some fault) rest hq
    obtain ⟨rfl, hr, hch'⟩ := hy
    refine .received c ch describe left (some fault) rest rfl hc hch ?_ ?_ hl hf (by simp) ?_ hsp
    · rw [hr]
      rfl
    · rw [hch', State.modify_eq_set_of_getElem? _ hc]
    · intro x hx
      rcases List.mem_cons.1 hx with rfl | hx
      · exact .inl rfl
      · exact .inr (List.mem_singleton.1 hx)
  · rename_i left _ _ hnone hsome
    obtain ⟨hnew, hr, hch⟩ := hy
    refine .closed c describe left rfl (fun ch hc => ?_) hr hch hl hf hnew hsp
    cases left with
    | zero => exact .inl rfl
    | succ left =>
      right
      cases hq : ch.queue with
      | nil => rfl
      | cons signal rest =>
        have helim : (s.channels[c]?).elim [] Channel.queue = signal :: rest := by
          rw [hc]
          exact hq
        cases signal with
        | none => exact (hnone left rest rfl helim).elim
        | some fault => exact (hsome left fault rest rfl helim).elim

theorem books_other (hj : j.unbooked = true) (hl : ∀ k, j ≠ .launch k)
    (hy : j.Yields st s s' new spawned) (hp : j.Posts s.board s'.board)
    (hg : s.scope.Grows j.notes s'.scope) : Books s s' j new spawned := by
  have hrun : EventKind.run ∉ j.notes := by
    cases j with
    | launch k => exact absurd rfl (hl k)
    | opening calls inv => cases calls <;> simp [Job.notes]
    | _ => simp [Job.notes]
  obtain ⟨hlaunches, hrefusals⟩ := launches_of_grows hg hrun
  refine .same hj ?_ ?_ hlaunches hrefusals
    (fun x hx => unbooked_of_leaves (hy.leaves x hx) hj hl)
    fun l hm x hx => unbooked_of_starts (hy.starts l hm x hx) hj hl
  · rcases hp.report with h | ⟨k, rfl⟩ | ⟨c, describe, left, rfl⟩
    · exact h
    · exact absurd rfl (hl k)
    · cases hj
  · rcases hp.channels with h | ⟨k, rfl⟩ | ⟨c, describe, left, rfl⟩ | ⟨c, signal, rfl⟩ | ⟨c, hobserves, -⟩
    · exact h
    · exact absurd rfl (hl k)
    · cases hj
    · cases hj
    · cases j with
      | watch | expire => cases hj
      | _ => cases hobserves

/-- A step enters into the books a launch, a refusal or a signal, closes a channel, or nothing. -/
theorem books_of_yields (hrt : st.env.runtime = Faulty.runtime Rehearsal.runtime)
    (hj : j.unbooked = true ∨ ∃ c describe left, j = .drain c describe left)
    (hy : j.Yields st s s' new spawned) (hp : j.Posts s.board s'.board)
    (hg : s.scope.Grows j.notes s'.scope) : Books s s' j new spawned := by
  rcases hj with hj | ⟨c, describe, left, rfl⟩
  · by_cases hlaunch : ∃ k, j = .launch k
    · obtain ⟨k, rfl⟩ := hlaunch
      exact books_launch hrt hy
    · exact books_other hj (fun k hk => hlaunch ⟨k, hk⟩) hy hp hg
  · exact books_drain hy hg

end Steps

/-! ## Where the entries of the report stem from -/

/-- What an entry of the report stems from: a launch, or a refusal, by its number. -/
inductive Origin where
  | launch (n : Nat)
  | refusal (n : Nat)
  deriving DecidableEq

def Origin.Known (s : State σ) : Origin → Prop
  | .launch n => n < s.launches.length
  | .refusal n => n < s.refusals.length

/-- The entries that stem from the same. -/
def shareOf (ledger : List (Origin × ReportEntry)) (o : Origin) : List ReportEntry :=
  (ledger.filter fun p => p.1 = o).map Prod.snd

/-- The entries for a launch, with what its channel still holds, are those for all of its signals. -/
def Settled (k : Task × Launch) (c : Channel) (share : List ReportEntry) : Prop :=
  ∃ signals, k.2.signals = some signals ∧ signals.length = k.1.instances ∧
    share ++ c.queue.map (entryOf k.1.describe) = signals.map (entryOf k.1.describe) ∧
    (c.closed = true → c.queue = [])

/-- The ledger says of every entry of the report what it stems from. -/
structure Attributed (ledger : List (Origin × ReportEntry)) (s : State σ) : Prop where
  entries : ledger.map Prod.snd = s.report.entries
  launched : ∀ (n : Nat) k c, s.launches[n]? = some k → s.channels[n]? = some c →
    Settled k c (shareOf ledger (.launch n))
  refused : ∀ (n : Nat) k, s.refusals[n]? = some k →
    shareOf ledger (.refusal n) = [⟨false, k.1.describe, some k.2.message⟩]
  known : ∀ p ∈ ledger, p.1.Known s

/-- Of the jobs only those that receive have to do with signals, each with those of one launch, and
with all that are left of them. -/
def Draining (s : State σ) (jobs : List Job) : Prop :=
  ∀ x ∈ jobs, x.unbooked = true ∨ ∃ (c : ChannelId) (k : Task × Launch) (ch : Channel) (left : Nat),
    x = .drain c k.1.describe left ∧ s.launches[c]? = some k ∧ s.channels[c]? = some ch ∧
      ch.queue.length ≤ left

/-- Nobody receives from any channel any more. -/
def State.Drained (s : State σ) : Prop := ∀ c, s.accepts c = false

/-- The thread that received from a channel broke off before the channel was closed. -/
def State.CutOff (s : State σ) (c : ChannelId) : Prop :=
  s.accepts c = false ∧ ∃ ch, s.channels[c]? = some ch ∧ ch.closed = false

/-- Whether a job receives from the given channel. -/
def Job.drains (c : ChannelId) : Job → Bool
  | .drain c' _ _ => c' = c
  | _ => false

/-- The books are in order. -/
structure Accounted (s : State σ) : Prop where
  attributed : ∃ ledger, Attributed ledger s
  channels : s.channels.length = s.launches.length
  balance : s.report.entries.length + (s.channels.map fun c => c.queue.length).sum =
    (s.launches.map fun k => k.1.instances).sum + s.refusals.length
  drains : s.Stacks (Draining s)
  unclosed : ∀ (n : Nat) c, s.channels[n]? = some c → c.closed = false →
    s.pending (Job.drains n) ≠ 0 ∨ ∃ t ∈ s.threads, t.crashed = true

section Shares

variable {ledger : List (Origin × ReportEntry)} {s s' : State σ}

theorem shareOf_append_self (ledger : List (Origin × ReportEntry)) (o : Origin) (e : ReportEntry) :
    shareOf (ledger ++ [(o, e)]) o = shareOf ledger o ++ [e] := by
  unfold shareOf
  rw [List.filter_append, List.map_append]
  simp

theorem shareOf_append_other (ledger : List (Origin × ReportEntry)) {o o' : Origin} (e : ReportEntry)
    (h : o' ≠ o) : shareOf (ledger ++ [(o', e)]) o = shareOf ledger o := by
  unfold shareOf
  rw [List.filter_append, List.map_append]
  simp [h]

/-- Nothing stems from what has not happened. -/
theorem Attributed.shareOf_unknown (ha : Attributed ledger s) {o : Origin} (ho : ¬o.Known s) :
    shareOf ledger o = [] := by
  unfold shareOf
  rw [List.map_eq_nil_iff, List.filter_eq_nil_iff]
  intro p hp
  simp only [decide_eq_true_eq]
  rintro rfl
  exact ho (ha.known p hp)

theorem Origin.Known.mono {o : Origin} (h : o.Known s) (hl : s.launches <+: s'.launches)
    (hr : s.refusals <+: s'.refusals) : o.Known s' := by
  cases o with
  | launch n => exact Nat.lt_of_lt_of_le h hl.length_le
  | refusal n => exact Nat.lt_of_lt_of_le h hr.length_le

theorem of_getElem?_concat {α : Type} {l : List α} {a b : α} {n : Nat}
    (h : (l ++ [a])[n]? = some b) : l[n]? = some b ∧ n < l.length ∨ n = l.length ∧ a = b := by
  rcases Nat.lt_or_ge n l.length with hn | hn
  · rw [List.getElem?_append_left hn] at h
    exact .inl ⟨h, hn⟩
  · rw [List.getElem?_append_right hn] at h
    obtain ⟨hlt, heq⟩ := List.getElem?_eq_some_iff.1 h
    rw [List.length_singleton] at hlt
    exact .inr ⟨by omega, by simpa using heq⟩

theorem Attributed.of_eq (ha : Attributed ledger s) (hr : s'.report = s.report)
    (hc : s'.channels = s.channels) (hl : s'.launches = s.launches)
    (hf : s'.refusals = s.refusals) : Attributed ledger s' where
  entries := by rw [hr, ha.entries]
  launched n k c hk hn := ha.launched n k c (hl ▸ hk) (hc ▸ hn)
  refused n k hk := ha.refused n k (hf ▸ hk)
  known p hp := (ha.known p hp).mono (hl ▸ List.prefix_rfl) (hf ▸ List.prefix_rfl)

end Shares

section Books

variable {s s' : State σ} {j : Job} {js new : List Job} {spawned : List (List Job)}
  {ledger : List (Origin × ReportEntry)}

/-- The channel of a job that receives is that of a launch, whose description the job knows. -/
theorem Draining.receiver (hd : Draining s (j :: js)) {c : ChannelId} {describe : String} {left : Nat}
    (hj : j = .drain c describe left) : ∃ (k : Task × Launch) (ch : Channel),
      describe = k.1.describe ∧ s.launches[c]? = some k ∧ s.channels[c]? = some ch ∧
      ch.queue.length ≤ left := by
  subst hj
  rcases hd _ List.mem_cons_self with hu | ⟨c', k, ch, left', hx, hk, hc, hle⟩
  · cases hu
  · cases hx
    exact ⟨k, ch, rfl, hk, hc, hle⟩

theorem attributed_refused (ha : Attributed ledger s) {task : Task} {fault : RuntimeFault}
    (hr : s'.report = s.report.fail task.describe fault.message) (hc : s'.channels = s.channels)
    (hl : s'.launches = s.launches) (hf : s'.refusals = s.refusals ++ [(task, fault)]) :
    Attributed
      (ledger ++ [(.refusal s.refusals.length, ⟨false, task.describe, some fault.message⟩)]) s' where
  entries := by
    rw [hr, List.map_append, ha.entries]
    rfl
  launched n k c hk hn := by
    rw [shareOf_append_other _ _ (by simp)]
    exact ha.launched n k c (hl ▸ hk) (hc ▸ hn)
  refused n k hk := by
    rw [hf] at hk
    rcases of_getElem?_concat hk with ⟨hk, hlt⟩ | ⟨rfl, rfl⟩
    · rw [shareOf_append_other _ _ fun h => by cases h; omega]
      exact ha.refused n k hk
    · rw [shareOf_append_self, ha.shareOf_unknown (Nat.lt_irrefl _)]
      rfl
  known p hp := by
    rcases List.mem_append.1 hp with hp | hp
    · exact (ha.known p hp).mono (hl ▸ List.prefix_rfl) (hf ▸ List.prefix_append _ _)
    · obtain rfl := List.mem_singleton.1 hp
      show s.refusals.length < s'.refusals.length
      rw [hf, List.length_append, List.length_singleton]
      exact Nat.lt_succ_self _

theorem attributed_launched (ha : Attributed ledger s) (hlen : s.channels.length = s.launches.length)
    {task : Task} {l : Launch} {signals : List Signal} (hs : l.signals = some signals)
    (hn : signals.length = task.instances) (hr : s'.report = s.report)
    (hc : s'.channels = s.channels ++ [⟨signals, 0, task.instances, false⟩])
    (hl : s'.launches = s.launches ++ [(task, l)]) (hf : s'.refusals = s.refusals) :
    Attributed ledger s' where
  entries := by rw [hr, ha.entries]
  launched n k c hk hcn := by
    rw [hl] at hk
    rw [hc] at hcn
    rcases of_getElem?_concat hk with ⟨hk, hlt⟩ | ⟨rfl, rfl⟩
    · rcases of_getElem?_concat hcn with ⟨hcn, -⟩ | ⟨rfl, -⟩
      · exact ha.launched n k c hk hcn
      · omega
    · rcases of_getElem?_concat hcn with ⟨-, hlt⟩ | ⟨-, rfl⟩
      · omega
      · refine ⟨signals, hs, hn, ?_, fun h => (nomatch h)⟩
        rw [ha.shareOf_unknown (Nat.lt_irrefl _), List.nil_append]
  refused n k hk := ha.refused n k (hf ▸ hk)
  known p hp := (ha.known p hp).mono (hl ▸ List.prefix_append _ _) (hf ▸ List.prefix_rfl)

theorem attributed_received (ha : Attributed ledger s) {c : ChannelId} {ch : Channel}
    {k : Task × Launch} {signal : Signal} {rest : List Signal} (hk : s.launches[c]? = some k)
    (hch : s.channels[c]? = some ch) (hq : ch.queue = signal :: rest)
    (hr : s'.report.entries = s.report.entries ++ [entryOf k.1.describe signal])
    (hc : s'.channels = s.channels.set c { ch with queue := rest })
    (hl : s'.launches = s.launches) (hf : s'.refusals = s.refusals) :
    Attributed (ledger ++ [(.launch c, entryOf k.1.describe signal)]) s' where
  entries := by
    rw [hr, List.map_append, ha.entries]
    rfl
  launched n k' c' hk' hn := by
    rw [hl] at hk'
    rw [hc] at hn
    by_cases hcn : c = n
    · subst hcn
      rw [List.getElem?_set_self (List.getElem?_eq_some_iff.1 hch).1] at hn
      obtain rfl := Option.some.inj hn
      rw [hk] at hk'
      obtain rfl := Option.some.inj hk'
      obtain ⟨signals, hs, hlen, heq, hclosed⟩ := ha.launched c k ch hk hch
      refine ⟨signals, hs, hlen, ?_, fun h => ?_⟩
      · rw [← heq, hq, shareOf_append_self, List.append_assoc]
        rfl
      · have hnil := hclosed h
        rw [hq] at hnil
        cases hnil
    · rw [List.getElem?_set_ne hcn] at hn
      rw [shareOf_append_other _ _ fun h => hcn (by cases h; rfl)]
      exact ha.launched n k' c' hk' hn
  refused n k' hk' := by
    rw [shareOf_append_other _ _ (by simp)]
    exact ha.refused n k' (hf ▸ hk')
  known p hp := by
    rcases List.mem_append.1 hp with hp | hp
    · exact (ha.known p hp).mono (hl ▸ List.prefix_rfl) (hf ▸ List.prefix_rfl)
    · obtain rfl := List.mem_singleton.1 hp
      show c < s'.launches.length
      rw [hl]
      exact (List.getElem?_eq_some_iff.1 hk).1

theorem attributed_closed (ha : Attributed ledger s) {c : ChannelId}
    (hempty : ∀ ch, s.channels[c]? = some ch → ch.queue = []) (hr : s'.report = s.report)
    (hc : s'.channels = s.channels.modify c fun ch => { ch with closed := true })
    (hl : s'.launches = s.launches) (hf : s'.refusals = s.refusals) : Attributed ledger s' where
  entries := by rw [hr, ha.entries]
  launched n k c' hk hn := by
    rw [hl] at hk
    rw [hc, List.getElem?_modify] at hn
    rcases hch : s.channels[n]? with _ | ch
    · rw [hch] at hn
      cases hn
    obtain ⟨signals, hs, hlen, heq, hclosed⟩ := ha.launched n k ch hk hch
    rw [hch] at hn
    split_ifs at hn with hcn
    · subst hcn
      obtain rfl := Option.some.inj hn
      exact ⟨signals, hs, hlen, heq, fun _ => hempty ch hch⟩
    · obtain rfl := Option.some.inj hn
      exact ⟨signals, hs, hlen, heq, hclosed⟩
  refused n k hk := ha.refused n k (hf ▸ hk)
  known p hp := (ha.known p hp).mono (hl ▸ List.prefix_rfl) (hf ▸ List.prefix_rfl)

/-- What a step enters into the books can be put down to a launch or to a refusal. -/
theorem Books.attributed (hb : Books s s' j new spawned) (hd : Draining s (j :: js))
    (hlen : s.channels.length = s.launches.length) (ha : ∃ ledger, Attributed ledger s) :
    ∃ ledger, Attributed ledger s' := by
  obtain ⟨ledger, ha⟩ := ha
  cases hb with
  | same _ hr hc hl hf _ _ => exact ⟨ledger, ha.of_eq hr hc hl hf⟩
  | refused task fault _ hr hc hl hf _ _ => exact ⟨_, attributed_refused ha hr hc hl hf⟩
  | launched task l signals _ hs hn hr hc hl hf _ _ _ =>
    exact ⟨ledger, attributed_launched ha hlen hs hn hr hc hl hf⟩
  | received c ch describe left signal rest hj hch hq hr hc hl hf _ _ _ =>
    obtain ⟨k, ch', rfl, hk, hch', -⟩ := hd.receiver hj
    exact ⟨_, attributed_received ha hk hch hq hr hc hl hf⟩
  | closed c describe left hj hor hr hc hl hf _ _ =>
    obtain ⟨k, ch', rfl, hk, hch', hle⟩ := hd.receiver hj
    refine ⟨ledger, attributed_closed ha (fun ch hch => ?_) hr hc hl hf⟩
    rw [hch'] at hch
    obtain rfl := Option.some.inj hch
    rcases hor ch' hch' with rfl | hnil
    · exact List.length_eq_zero_iff.1 (Nat.le_zero.1 hle)
    · exact hnil

/-- A signal moves from its channel to the report, and a launch has a channel for its own. -/
theorem Books.balance (hb : Books s s' j new spawned) (hd : Draining s (j :: js))
    (hbal : s.report.entries.length + (s.channels.map fun c => c.queue.length).sum =
      (s.launches.map fun k => k.1.instances).sum + s.refusals.length) :
    s'.report.entries.length + (s'.channels.map fun c => c.queue.length).sum =
      (s'.launches.map fun k => k.1.instances).sum + s'.refusals.length := by
  cases hb with
  | same _ hr hc hl hf _ _ => rw [hr, hc, hl, hf, hbal]
  | refused task fault _ hr hc hl hf _ _ =>
    have hentries : s'.report.entries.length = s.report.entries.length + 1 := by
      rw [hr]
      exact List.length_append
    rw [hentries, hc, hl, hf, List.length_append, List.length_singleton]
    omega
  | launched task l signals _ _ hn hr hc hl hf _ _ _ =>
    rw [hr, hc, hl, hf, List.map_append, List.map_append, List.sum_append, List.sum_append]
    simp only [List.map_cons, List.map_nil, List.sum_cons, List.sum_nil]
    omega
  | received c ch describe left signal rest _ hch hq hr hc hl hf _ _ _ =>
    have hset := State.sum_map_set (fun c : Channel => c.queue.length) { ch with queue := rest } hch
    have hlen : ch.queue.length = rest.length + 1 := by
      rw [hq]
      exact List.length_cons
    rw [hr, hc, hl, hf, List.length_append, List.length_singleton]
    simp only [hlen] at hset
    omega
  | closed c describe left hj _ hr hc hl hf _ _ =>
    obtain ⟨k, ch, -, -, hch, -⟩ := hd.receiver hj
    have hset := State.sum_map_set (fun c : Channel => c.queue.length) { ch with closed := true } hch
    rw [hr, hc, hl, hf, State.modify_eq_set_of_getElem? _ hch]
    simp only at hset
    omega

/-- Launches and channels keep their numbers, and no channel gets more to hold. -/
theorem Books.carry (hb : Books s s' j new spawned) (hd : Draining s (j :: js)) :
    s.launches <+: s'.launches ∧ ∀ (c : ChannelId) ch, s.channels[c]? = some ch →
      ∃ ch', s'.channels[c]? = some ch' ∧ ch'.queue.length ≤ ch.queue.length := by
  have hsame : s'.channels = s.channels → ∀ (c : ChannelId) ch, s.channels[c]? = some ch →
      ∃ ch', s'.channels[c]? = some ch' ∧ ch'.queue.length ≤ ch.queue.length :=
    fun hc c ch hch => ⟨ch, hc ▸ hch, Nat.le_refl _⟩
  have hset : ∀ (c₀ : ChannelId) ch₀ ch₁, s.channels[c₀]? = some ch₀ →
      ch₁.queue.length ≤ ch₀.queue.length → s'.channels = s.channels.set c₀ ch₁ →
      ∀ (c : ChannelId) ch, s.channels[c]? = some ch →
        ∃ ch', s'.channels[c]? = some ch' ∧ ch'.queue.length ≤ ch.queue.length := by
    intro c₀ ch₀ ch₁ h₀ hle hc c ch hch
    rw [hc]
    by_cases hcc : c₀ = c
    · subst hcc
      rw [h₀] at hch
      obtain rfl := Option.some.inj hch
      exact ⟨ch₁, List.getElem?_set_self (List.getElem?_eq_some_iff.1 h₀).1, hle⟩
    · exact ⟨ch, by rw [List.getElem?_set_ne hcc, hch], Nat.le_refl _⟩
  cases hb with
  | same _ hr hc hl hf _ _ => exact ⟨hl ▸ List.prefix_rfl, hsame hc⟩
  | refused task fault _ hr hc hl hf _ _ => exact ⟨hl ▸ List.prefix_rfl, hsame hc⟩
  | launched task l signals _ hs hn hr hc hl hf _ _ _ =>
    refine ⟨hl ▸ List.prefix_append _ _, fun c ch hch => ⟨ch, ?_, Nat.le_refl _⟩⟩
    rw [hc, List.getElem?_append_left (List.getElem?_eq_some_iff.1 hch).1, hch]
  | received c ch describe left signal rest hj hch hq hr hc hl hf _ _ _ =>
    refine ⟨hl ▸ List.prefix_rfl, hset c ch _ hch ?_ hc⟩
    rw [hq]
    exact Nat.le_succ _
  | closed c describe left hj hor hr hc hl hf _ _ =>
    obtain ⟨k, ch, -, -, hch, -⟩ := hd.receiver hj
    refine ⟨hl ▸ List.prefix_rfl, hset c ch { ch with closed := true } hch (Nat.le_refl _) ?_⟩
    rw [hc, State.modify_eq_set_of_getElem? _ hch]

theorem Draining.carry {jobs : List Job} (hd : Draining s jobs) (hl : s.launches <+: s'.launches)
    (hc : ∀ (c : ChannelId) ch, s.channels[c]? = some ch →
      ∃ ch', s'.channels[c]? = some ch' ∧ ch'.queue.length ≤ ch.queue.length) :
    Draining s' jobs := by
  intro x hx
  rcases hd x hx with hu | ⟨c, k, ch, left, rfl, hk, hch, hle⟩
  · exact .inl hu
  · obtain ⟨ch', hch', hle'⟩ := hc c ch hch
    refine .inr ⟨c, k, ch', left, rfl, ?_, hch', Nat.le_trans hle' hle⟩
    obtain ⟨more, hm⟩ := hl
    rw [← hm, List.getElem?_append_left (List.getElem?_eq_some_iff.1 hk).1, hk]

/-- The jobs that are left and started receive the signals of launches, and as many as there are. -/
theorem Books.draining (hb : Books s s' j new spawned) (hd : Draining s (j :: js))
    (hlen : s.channels.length = s.launches.length) :
    Draining s' new ∧ ∀ l ∈ spawned, Draining s' l := by
  cases hb with
  | same _ hr hc hl hf hn hs => exact ⟨fun x hx => .inl (hn x hx), fun l hm x hx => .inl (hs l hm x hx)⟩
  | refused task fault _ hr hc hl hf hn hs =>
    exact ⟨fun x hx => .inl (hn x hx), fun l hm x hx => .inl (hs l hm x hx)⟩
  | launched task l signals _ hs hsig hr hc hl hf hn _ hsp =>
    refine ⟨fun x hx => .inl (hn x hx), fun jobs hm x hx => ?_⟩
    rcases hsp jobs hm x hx with hu | rfl
    · exact .inl hu
    · refine .inr ⟨s.channels.length, (task, l), ⟨signals, 0, task.instances, false⟩,
        task.instances, rfl, ?_, ?_, Nat.le_of_eq hsig⟩
      · rw [hl, hlen, List.getElem?_concat_length]
      · rw [hc, List.getElem?_concat_length]
  | received c ch describe left signal rest hj hch hq hr hc hl hf _ hn hsp =>
    obtain ⟨k, ch', rfl, hk, hch', hle⟩ := hd.receiver hj
    rw [hch] at hch'
    obtain rfl := Option.some.inj hch'
    refine ⟨fun x hx => ?_, fun l hm => by rw [hsp] at hm; cases hm⟩
    rcases hn x hx with hu | rfl
    · exact .inl hu
    · refine .inr ⟨c, k, { ch with queue := rest }, left, rfl, by rw [hl, hk], ?_, ?_⟩
      · rw [hc, List.getElem?_set_self (List.getElem?_eq_some_iff.1 hch).1]
      · rw [hq] at hle
        exact Nat.le_of_succ_le_succ hle
  | closed c describe left hj hor hr hc hl hf hn hsp =>
    subst hn hsp
    exact ⟨fun x hx => (nomatch hx), fun l hm => (nomatch hm)⟩

theorem drains_of_unbooked {x : Job} (hx : x.unbooked = true) (n : ChannelId) :
    x.drains n = false := by
  cases x with
  | drain c describe left => cases hx
  | _ => rfl

theorem sum_countP_ne_zero {p : Job → Bool} {jobs : List Job} (hm : jobs ∈ spawned) {x : Job}
    (hx : x ∈ jobs) (hp : p x = true) : (spawned.map fun l => l.countP p).sum ≠ 0 := by
  intro h
  rw [List.sum_eq_zero_iff_forall_eq_nat] at h
  have hzero := h _ (List.mem_map_of_mem hm)
  rw [List.countP_eq_zero] at hzero
  exact hzero x hx hp

/-- A channel is closed by the job that receives from it. -/
theorem Books.unclosed (hb : Books s s' j new spawned)
    (hlaw : ∀ p, s'.pending p + [j].countP p =
      s.pending p + new.countP p + (spawned.map fun l => l.countP p).sum)
    (hj : ∀ p : Job → Bool, p j = true → s.pending p ≠ 0)
    (hcr : (∃ t ∈ s.threads, t.crashed = true) → ∃ t ∈ s'.threads, t.crashed = true)
    (ho : ∀ (n : Nat) c, s.channels[n]? = some c → c.closed = false →
      s.pending (Job.drains n) ≠ 0 ∨ ∃ t ∈ s.threads, t.crashed = true)
    (n : Nat) (c : Channel) (hn : s'.channels[n]? = some c) (hc : c.closed = false) :
    s'.pending (Job.drains n) ≠ 0 ∨ ∃ t ∈ s'.threads, t.crashed = true := by
  have hlawn := hlaw (Job.drains n)
  have hkeep : j.drains n = false → s.channels[n]? = some c →
      s'.pending (Job.drains n) ≠ 0 ∨ ∃ t ∈ s'.threads, t.crashed = true := by
    intro hz hold
    rcases ho n c hold hc with hp | hp
    · left
      rw [List.countP_singleton, hz] at hlawn
      simp only [Bool.false_eq_true, if_false] at hlawn
      omega
    · exact .inr (hcr hp)
  cases hb with
  | same hu _ hch _ _ _ _ => exact hkeep (drains_of_unbooked hu n) (hch ▸ hn)
  | refused task fault hu _ hch _ _ _ _ => exact hkeep (drains_of_unbooked hu n) (hch ▸ hn)
  | launched task l signals hu _ _ _ hch _ _ _ hex _ =>
    rw [hch] at hn
    rcases of_getElem?_concat hn with ⟨hold, -⟩ | ⟨rfl, -⟩
    · exact hkeep (drains_of_unbooked hu n) hold
    · left
      obtain ⟨jobs, hm, hx⟩ := hex
      have hpos := sum_countP_ne_zero (p := Job.drains s.channels.length) hm hx (by simp [Job.drains])
      rw [List.countP_singleton, drains_of_unbooked hu] at hlawn
      simp only [Bool.false_eq_true, if_false] at hlawn
      omega
  | received c₀ ch describe left signal rest hjd hch₀ hq _ hch _ _ hmem _ _ =>
    by_cases hcn : c₀ = n
    · subst hcn
      left
      have hself : j.drains c₀ = true := by
        rw [hjd]
        simp [Job.drains]
      have hbefore := hj _ hself
      have hnew : 0 < new.countP (Job.drains c₀) :=
        List.countP_pos_iff.2 ⟨_, hmem, by simp [Job.drains]⟩
      rw [List.countP_singleton, hself] at hlawn
      simp only [if_true] at hlawn
      omega
    · refine hkeep ?_ ?_
      · rw [hjd]
        simpa [Job.drains] using hcn
      · rwa [hch, List.getElem?_set_ne hcn] at hn
  | closed c₀ describe left hjd _ _ hch _ _ _ _ =>
    rw [hch, List.getElem?_modify] at hn
    rcases hold : s.channels[n]? with _ | ch
    · rw [hold] at hn
      cases hn
    rw [hold] at hn
    split_ifs at hn with hcn
    · obtain rfl := Option.some.inj hn
      cases hc
    · obtain rfl := Option.some.inj hn
      refine hkeep ?_ hold
      rw [hjd]
      simpa [Job.drains] using hcn

end Books

/-! ## Every state of a run -/

section Steps

variable {st : Settings (Faulty (World Rehearsal))} {i : ThreadId} {j : Job}
  {s s' : State (Faulty (World Rehearsal))}

theorem Draining.append {jobs jobs' : List Job} (h : Draining s jobs) (h' : Draining s jobs') :
    Draining s (jobs ++ jobs') := fun x hx => by
  rcases List.mem_append.1 hx with hx | hx
  · exact h x hx
  · exact h' x hx

theorem Draining.cases {js : List Job} (h : Draining s (j :: js)) :
    j.unbooked = true ∨ ∃ c describe left, j = .drain c describe left := by
  rcases h j List.mem_cons_self with hu | ⟨c, k, ch, left, hj, -⟩
  · exact .inl hu
  · exact .inr ⟨c, _, left, hj⟩

theorem Accounted.step (hrt : st.env.runtime = Faulty.runtime Rehearsal.runtime) (ha : Accounted s)
    (h : Stepped st i j s s') : Accounted s' := by
  obtain ⟨js, new, spawned, ⟨t, ht, htj⟩, hy, hlaw⟩ := h.pending
  have hd := ha.drains t ht
  rw [htj] at hd
  have hb := books_of_yields hrt hd.cases hy h.board h.scope
  obtain ⟨hl, hc⟩ := hb.carry hd
  refine ⟨hb.attributed hd ha.channels ha.attributed, ?_, hb.balance hd ha.balance, ?_, ?_⟩
  · cases hb with
    | same _ _ hch hl _ _ _ => rw [hch, hl, ha.channels]
    | refused _ _ _ _ hch hl _ _ _ => rw [hch, hl, ha.channels]
    | launched _ _ _ _ _ _ _ hch hl _ _ _ _ =>
      rw [hch, hl, List.length_append, List.length_append, ha.channels]
      rfl
    | received _ _ _ _ _ _ _ _ _ _ hch hl _ _ _ _ => rw [hch, hl, List.length_set, ha.channels]
    | closed _ _ _ _ _ _ hch hl _ _ _ => rw [hch, hl, List.length_modify, ha.channels]
  · refine h.forall_stacks (fun u hu => (ha.drains u hu).carry hl hc) (fun x hx => (nomatch hx)) ?_
    rintro js new spawned ⟨t, ht, htj⟩ hjs hy
    have hd := ha.drains t ht
    rw [htj] at hd
    have hb := books_of_yields hrt hd.cases hy h.board h.scope
    obtain ⟨hnew, hspawned⟩ := hb.draining hd ha.channels
    exact ⟨hnew.append fun x hx => hjs x (List.mem_cons_of_mem j hx), hspawned⟩
  · rcases hlaw with hlaw | ⟨-, -, hcr, -⟩
    · exact hb.unclosed hlaw (fun p hp => State.pending_pos ht (htj ▸ List.mem_cons_self) hp) h.crashed
        ha.unclosed
    · exact fun _ _ _ _ => .inr hcr

theorem Accounted.clock {time : Nat} (ha : Accounted s) : Accounted (s.setClock time) where
  attributed := ha.attributed.imp fun _ hl => ⟨hl.entries, hl.launched, hl.refused, hl.known⟩
  channels := ha.channels
  balance := ha.balance
  drains := ha.drains
  unclosed := ha.unclosed

theorem start_accounted (st : Settings (Faulty (World Rehearsal)))
    {sc : Scope (Faulty (World Rehearsal))} (actions : List Action) {report : Report} (ht : sc.trace = [])
    (hr : report.entries = []) :
    Accounted (start st sc actions report) := by
  have hl : (start st sc actions report).launches = [] := by
    unfold State.launches
    rw [show (start st sc actions report).scope.trace = [] from ht]
    rfl
  have hf : (start st sc actions report).refusals = [] := by
    unfold State.refusals
    rw [show (start st sc actions report).scope.trace = [] from ht]
    rfl
  have he : (start st sc actions report).report.entries = [] := hr
  refine ⟨⟨[], he.symm, fun n k c hk _ => ?_, fun n k hk => ?_, fun p hp => (nomatch hp)⟩,
    ?_, ?_, ?_, ?_⟩
  · rw [hl] at hk
    cases hk
  · rw [hf] at hk
    cases hk
  · rw [hl]
    rfl
  · rw [he, hl, hf]
    rfl
  · exact List.forall_mem_singleton.2 (List.forall_mem_singleton.2 (.inl rfl))
  · intro n c hc
    cases hc

theorem accounted_of_reaches (hrt : st.env.runtime = Faulty.runtime Rehearsal.runtime)
    {sc : Scope (Faulty (World Rehearsal))} {actions : List Action} {report : Report}
    (ht : sc.trace = []) (hb : sc.broken = false) (hr : report.entries = [])
    (h : Reaches st (start st sc actions report) s) : Accounted s :=
  (h.invariant hb (start_accounted st actions ht hr) (fun _ _ _ _ ha hs => ha.step hrt hs)
    fun _ _ ha _ _ => ha.clock).2

/-- Where no job is left that receives, nobody receives any more. -/
theorem Accounted.drained (ha : Accounted s)
    (hd : ∀ t ∈ s.threads, ∀ c describe left, .drain c describe left ∉ t.jobs) : s.Drained := by
  refine fun c => State.accepts_eq_false_of_pending (State.pending_eq_zero.2 fun t ht x hx => ?_)
  rcases ha.drains t ht x hx with hu | ⟨c', k, ch, left, rfl, -⟩
  · cases x with
    | drain | launched => cases hu
    | _ => rfl
  · exact absurd hx (hd t ht c' _ left)

/-- A channel is cut off only with a thread that broke off. -/
theorem Accounted.not_cutOff (ha : Accounted s) (hcr : ∀ t ∈ s.threads, t.crashed = false) (c : ChannelId) :
    ¬s.CutOff c := by
  rintro ⟨haccepts, ch, hch, hopen⟩
  rcases ha.unclosed c ch hch hopen with hp | ⟨t, ht, htc⟩
  · have hnone := State.pending_eq_zero.1 (State.pending_takes_eq_zero hch hopen haccepts)
    refine hp (State.pending_eq_zero.2 fun t ht x hx => ?_)
    cases x with
    | drain c' describe left => exact hnone t ht (.drain c' describe left) hx
    | _ => rfl
  · rw [hcr t ht] at htc
    cases htc

/-- Nothing is left in a channel from which nobody receives any more, unless it was cut off. -/
theorem Accounted.queue_empty (ha : Accounted s) {c : ChannelId} {ch : Channel} (hch : s.channels[c]? = some ch)
    (haccepts : s.accepts c = false) (hc : ¬s.CutOff c) : ch.queue = [] := by
  have hclosed : ch.closed = true := by
    by_contra hopen
    exact hc ⟨haccepts, ch, hch, Bool.not_eq_true _ ▸ hopen⟩
  obtain ⟨ledger, hl⟩ := ha.attributed
  have hlt : c < s.launches.length := by
    rw [← ha.channels]
    exact (List.getElem?_eq_some_iff.1 hch).1
  obtain ⟨-, -, -, -, hempty⟩ := hl.launched c _ ch (List.getElem?_eq_getElem hlt) hch
  exact hempty hclosed

/-- Every entry of the report stems from a launch or from a refusal.  Those that stem from a launch are
the entries for its first signals, in the order in which they were sent, and the signals that are missing are
still in its channel; a refusal has one entry.  When nobody receives any more and no channel was cut off, no
signal is missing.  A channel is cut off only with a thread that broke off. -/
theorem report_accounts (hrt : st.env.runtime = Faulty.runtime Rehearsal.runtime)
    {sc : Scope (Faulty (World Rehearsal))} {actions : List Action} {report : Report}
    (ht : sc.trace = []) (hb : sc.broken = false) (hr : report.entries = [])
    (h : Reaches st (start st sc actions report) s) :
    (∃ ledger, ledger.map Prod.snd = s.report.entries ∧
      (∀ (n : Nat) task l, s.launches[n]? = some (task, l) → ∃ signals ch, l.signals = some signals ∧
        signals.length = max task.concurrency 1 ∧ s.channels[n]? = some ch ∧
        shareOf ledger (.launch n) ++ ch.queue.map (entryOf task.describe) =
          signals.map (entryOf task.describe) ∧
        (s.accepts n = false → ¬s.CutOff n →
          shareOf ledger (.launch n) = signals.map (entryOf task.describe))) ∧
      (∀ (n : Nat) task fault, s.refusals[n]? = some (task, fault) →
        shareOf ledger (.refusal n) = [⟨false, task.describe, some fault.message⟩]) ∧
      ∀ p ∈ ledger, p.1.Known s) ∧
    s.report.entries.length + (s.channels.map fun ch => ch.queue.length).sum =
      (s.launches.map fun k => max k.1.concurrency 1).sum + s.refusals.length ∧
    (s.Drained → (∀ c, ¬s.CutOff c) → s.report.entries.length =
      (s.launches.map fun k => max k.1.concurrency 1).sum + s.refusals.length) ∧
    ((∀ t ∈ s.threads, ∀ c describe left, .drain c describe left ∉ t.jobs) → s.Drained) ∧
    ((∀ t ∈ s.threads, t.crashed = false) → ∀ c, ¬s.CutOff c) := by
  have ha := accounted_of_reaches hrt ht hb hr h
  obtain ⟨ledger, hl⟩ := ha.attributed
  refine ⟨⟨ledger, hl.entries, fun n task l hk => ?_, fun n task fault hk => hl.refused n _ hk,
    hl.known⟩, ha.balance, fun hd hc => ?_, ha.drained, ha.not_cutOff⟩
  · have hlt : n < s.channels.length := by
      rw [ha.channels]
      exact (List.getElem?_eq_some_iff.1 hk).1
    have hch := List.getElem?_eq_getElem hlt
    obtain ⟨signals, hs, hlen, heq, -⟩ := hl.launched n _ _ hk hch
    refine ⟨signals, _, hs, hlen, hch, heq, fun haccepts hc => ?_⟩
    rw [← heq, ha.queue_empty hch haccepts hc, List.map_nil, List.append_nil]
  · have hzero : (s.channels.map fun c => c.queue.length).sum = 0 := by
      rw [List.sum_eq_zero_iff_forall_eq_nat, List.forall_mem_map]
      intro ch hch
      obtain ⟨c, hch⟩ := List.mem_iff_getElem?.1 hch
      rw [ha.queue_empty hch (hd c) (hc c)]
      rfl
    have hbal := ha.balance
    rw [hzero, Nat.add_zero] at hbal
    exact hbal

end Steps

/-- A task of two containers, and another one. -/
def mixedActions : List Action :=
  [{ image := "probe", command := "ping", concurrency := "2" },
    { image := "probe", command := "pong", wait := true }]

/-- The first task has a container that fails, and the launch of the second one is refused. -/
def mixedRun : State (Faulty (World Rehearsal)) :=
  rehearse {} { signals := [none, some (.command "lost")] } { run := [none, some (.command "no")] }
    mixedActions 100

theorem report_accounts_mixedRun :
    mixedRun.Drained ∧ (∀ c, ¬mixedRun.CutOff c) ∧ mixedRun.report.entries.length = 3 ∧
      (mixedRun.launches.map fun k => max k.1.concurrency 1).sum + mixedRun.refusals.length = 3 := by
  have hdone : (mixedRun.threads.all fun t => t.jobs.isEmpty && !t.crashed) = true := by decide +kernel
  have hended : ∀ t ∈ mixedRun.threads, t.jobs = [] ∧ t.crashed = false := by simpa using hdone
  obtain ⟨-, -, hcount, hdrained, hwhole⟩ := report_accounts rfl rfl rfl rfl
    (rehearse_reaches {} { signals := [none, some (.command "lost")] }
      { run := [none, some (.command "no")] } mixedActions 100)
  have hd : mixedRun.Drained := hdrained fun t ht c describe left hmem => by
    rw [(hended t ht).1] at hmem
    cases hmem
  have hc : ∀ c, ¬mixedRun.CutOff c := hwhole fun t ht => (hended t ht).2
  have hlen : mixedRun.report.entries.length = 3 := by decide +kernel
  exact ⟨hd, hc, hlen, (hcount hd hc).symm.trans hlen⟩

/-- Of the two containers of a task the first one fails, and the diagnostics for it have a time limit out of range. -/
def cutOffRun : State (Faulty (World Rehearsal)) :=
  (diagnose diagnosticsConfig "99999999999999999999h" [some (.command "failed"), none]
    [{ image := "busybox", command := "work", concurrency := "2", wait := true }]).advance
    (rehearsed diagnosticsConfig) maxSteps (fun _ => false) 40 0

/-- The thread that receives the signals breaks off with the diagnostics, and the second signal is lost. -/
theorem report_accounts_cut_off :
    Reaches (rehearsed diagnosticsConfig)
        (diagnose diagnosticsConfig "99999999999999999999h" [some (.command "failed"), none]
          [{ image := "busybox", command := "work", concurrency := "2", wait := true }]) cutOffRun ∧
      (∀ t ∈ cutOffRun.threads, t.jobs = []) ∧ cutOffRun.CutOff 0 ∧ cutOffRun.report.entries.length = 1 ∧
      (cutOffRun.launches.map fun k => max k.1.concurrency 1).sum + cutOffRun.refusals.length = 2 := by
  have hdone : (cutOffRun.threads.all fun t => t.jobs.isEmpty) = true := by decide +kernel
  have hcut : (!cutOffRun.accepts 0 && (cutOffRun.channels[0]?).any fun ch => !ch.closed) = true := by
    decide +kernel
  have hlen : cutOffRun.report.entries.length = 1 := by decide +kernel
  have hsum : (cutOffRun.launches.map fun k => max k.1.concurrency 1).sum + cutOffRun.refusals.length = 2 := by
    decide +kernel
  rw [Bool.and_eq_true, Bool.not_eq_true', Option.any_eq_true] at hcut
  obtain ⟨haccepts, ch, hch, hopen⟩ := hcut
  exact ⟨State.advance_reaches _ _ _ _ _ _, by simpa using hdone,
    ⟨haccepts, ch, hch, by simpa using hopen⟩, hlen, hsum⟩

end Run

end Workload

import Workload.Proofs.Account
import Workload.Proofs.Receivers

/-!
# Receiving the signals of a channel

A thread that is to receive `n` signals takes them one at a time.  Each is entered in the report when it is taken, and
the handler is called with one that is a failure before the thread goes on (`Round`).  After the last one, or when
nobody is left to send another one, the thread closes the channel and ends (`Closes`).  So it receives the first `n`
signals that are sent and no more, and its tally is the number of them (`drain_receives_first`).

Other threads run at the same time, and so does whatever the handler does on the thread itself.  In a run all that
these do to the channel is to send, for it has no other receiver (`Chronicle.receives`).
-/

namespace Workload.Run

variable {σ : Type}

/-! ## What is received -/

/-- What is entered in the report at a moment at which something is received from the channel. -/
def Moment.entries (st : Settings σ) (c : ChannelId) (m : Moment σ) : List ReportEntry :=
  if m.job.takes c then (m.after st).report.entries.drop m.before.report.entries.length else []

/-- What is entered in the report for the signals of a channel. -/
def entered (st : Settings σ) (c : ChannelId) (d : List (Moment σ)) : List ReportEntry :=
  d.flatMap (Moment.entries st c)

section

variable {st : Settings σ} {c : ChannelId} {d e : List (Moment σ)} {m : Moment σ}

theorem Moment.receives?_of_takes (h : m.job.takes c = false) : m.receives? c = none := by
  unfold receives?
  split
  · rename_i c' _ _ hj
    rw [hj] at h
    exact if_neg (of_decide_eq_false h)
  · rfl

theorem received_append : received c (d ++ e) = received c d ++ received c e := List.filterMap_append

theorem received_of_untaken (h : ∀ m ∈ d, m.job.takes c = false) : received c d = [] :=
  List.filterMap_eq_nil_iff.2 fun m hm => Moment.receives?_of_takes (h m hm)

theorem entered_append : entered st c (d ++ e) = entered st c d ++ entered st c e := List.flatMap_append

theorem entered_singleton : entered st c [m] = m.entries st c := List.flatMap_singleton ..

theorem entered_of_untaken (h : ∀ m ∈ d, m.job.takes c = false) : entered st c d = [] :=
  List.flatMap_eq_nil_iff.2 fun m hm => if_neg (by rw [h m hm]; exact Bool.false_ne_true)

end

/-! ## Rounds -/

/-- A signal is received at a moment, and entered in the report as a success if it is none of a failure, else as a
failure. -/
structure Moment.Takes (st : Settings σ) (c : ChannelId) (describe : String) (signal : Signal) (m : Moment σ) :
    Prop where
  received : m.receives? c = some signal
  entered : (m.after st).report.entries = m.before.report.entries ++ [Workload.entryOf describe signal]

/-- A thread calls the handler with a failure, and comes back to its other jobs. -/
inductive Handles (st : Settings σ) (i : ThreadId) (describe : String) (fault : RuntimeFault) (js : List Job)
    (b : State σ) : List (Moment σ) → State σ → Prop
  | intro (d : List (Moment σ)) (m : Moment σ) (e : List (Moment σ)) (s : State σ) : Chronicle st b d m.before →
    (∀ x ∈ d, x.thread ≠ i) → m.Does st i (.failed describe fault) js → Returns st i js (m.after st) e s →
    Handles st i describe fault js b (d ++ m :: e) s

/-- A thread has yet to call the handler with a failure, or has not come back from it. -/
structure Handling (st : Settings σ) (i : ThreadId) (describe : String) (fault : RuntimeFault) (js : List Job)
    (b : State σ) (d : List (Moment σ)) (s : State σ) : Prop where
  chronicle : Chronicle st b d s
  begins : b.At i (.failed describe fault :: js)
  within : ∀ m ∈ d, m.thread = i → ¬m.before.At i js
  away : (∃ x front, s.At i (x :: (front ++ js))) ∨ ∃ u, s.threads[i]? = some u ∧ u.jobs = [] ∧ u.crashed = true

/-- A thread that is to receive `left + 1` signals takes the next one, and if that is a failure calls the handler with
it before it goes on. -/
inductive Round (st : Settings σ) (i : ThreadId) (c : ChannelId) (describe : String) (left : Nat) (b : State σ) :
    Signal → List (Moment σ) → State σ → Prop
  | passed (d : List (Moment σ)) (m : Moment σ) : Chronicle st b d m.before → (∀ x ∈ d, x.thread ≠ i) →
    m.Does st i (.drain c describe (left + 1)) [] → m.Takes st c describe none →
    (m.after st).At i [.drain c describe left] → Round st i c describe left b none (d ++ [m]) (m.after st)
  | failed (d : List (Moment σ)) (m : Moment σ) (fault : RuntimeFault) (e : List (Moment σ)) (s : State σ) :
    Chronicle st b d m.before → (∀ x ∈ d, x.thread ≠ i) → m.Does st i (.drain c describe (left + 1)) [] →
    m.Takes st c describe (some fault) → Handles st i describe fault [.drain c describe left] (m.after st) e s →
    Round st i c describe left b (some fault) (d ++ m :: e) s

/-- The rounds in which a thread that is to receive a number of signals receives the given ones. -/
inductive Rounds (st : Settings σ) (i : ThreadId) (c : ChannelId) (describe : String) :
    Nat → State σ → List Signal → List (Moment σ) → Nat → State σ → Prop
  | refl (left : Nat) (b : State σ) : Rounds st i c describe left b [] [] left b
  | cons {left left' : Nat} {b s s' : State σ} {signal : Signal} {signals : List Signal} {d e : List (Moment σ)} :
    Round st i c describe left b signal d s → Rounds st i c describe left s signals e left' s' →
    Rounds st i c describe (left + 1) b (signal :: signals) (d ++ e) left' s'

/-- A thread closes the channel and ends, since it is to receive no more signals, or there is none and nobody to send
one.  Nothing is entered in the report. -/
structure Closes (st : Settings σ) (i : ThreadId) (c : ChannelId) (describe : String) (left : Nat) (b : State σ)
    (d : List (Moment σ)) (m : Moment σ) : Prop where
  chronicle : Chronicle st b d m.before
  quiet : ∀ x ∈ d, x.thread ≠ i
  does : m.Does st i (.drain c describe left) []
  done : left = 0 ∨ ∃ ch, m.before.channels[c]? = some ch ∧ ch.queue = [] ∧ ch.senders = 0
  entered : (m.after st).report = m.before.report
  ended : (m.after st).At i []
  closed : ∃ ch, (m.after st).channels[c]? = some ch ∧ ch.closed = true

/-- What a thread does that is to receive a number of signals and receives the given ones, up to where it closes the
channel. -/
def Completes (st : Settings σ) (i : ThreadId) (c : ChannelId) (describe : String) (n : Nat) (b : State σ)
    (signals : List Signal) (d : List (Moment σ)) (m : Moment σ) : Prop :=
  ∃ d₁ left u e, d = d₁ ++ e ∧ Rounds st i c describe n b signals d₁ left u ∧ Closes st i c describe left u e m

/-- How far a thread has come that is to receive a number of signals: it waits for the next one, handles a failure, or
has closed the channel. -/
inductive Receiving (st : Settings σ) (i : ThreadId) (c : ChannelId) (describe : String) (n : Nat) (b : State σ)
    (signals : List Signal) : List (Moment σ) → State σ → Prop
  | waits {left : Nat} {u s : State σ} {d e : List (Moment σ)} : Rounds st i c describe n b signals d left u →
    Chronicle st u e s → (∀ x ∈ e, x.thread ≠ i) → s.At i [.drain c describe left] →
    (s.enabled i = false → left ≠ 0 ∧ ∃ ch, s.channels[c]? = some ch ∧ ch.queue = [] ∧ ch.senders ≠ 0) →
    Receiving st i c describe n b signals (d ++ e) s
  | handles {left : Nat} {u s : State σ} {d e f : List (Moment σ)} {m : Moment σ} {fault : RuntimeFault} :
    Rounds st i c describe n b signals d (left + 1) u → Chronicle st u e m.before → (∀ x ∈ e, x.thread ≠ i) →
    m.Does st i (.drain c describe (left + 1)) [] → m.Takes st c describe (some fault) →
    Handling st i describe fault [.drain c describe left] (m.after st) f s →
    Receiving st i c describe n b signals (d ++ (e ++ m :: f)) s
  | closed {s : State σ} {d e : List (Moment σ)} {m : Moment σ} : Completes st i c describe n b signals d m →
    Chronicle st (m.after st) e s → Receiving st i c describe n b signals (d ++ m :: e) s

/-- Every call of the handler by the thread that receives can return. -/
def HandlerReturns (st : Settings σ) (i : ThreadId) (c : ChannelId) (describe : String) : Prop :=
  ∀ fault left n (s : State σ), s.scope.broken = false →
    s.threads[i]? = some ⟨[.failed describe fault, .drain c describe left], n, false⟩ →
    ∃ e s', Handles st i describe fault [.drain c describe left] s e s'

/-- What a thread has to do after it received a signal and before it receives another one. -/
def reactions (describe : String) : Signal → List Job
  | none => []
  | some fault => [.failed describe fault]

section

variable {st : Settings σ} {i : ThreadId} {b s s' u : State σ} {c : ChannelId} {describe : String}
  {left left' n : Nat} {ch : Channel} {d e : List (Moment σ)} {m : Moment σ} {signal : Signal} {signals : List Signal}

theorem avoids_reactions : ∀ j ∈ reactions describe signal, j.avoids c = true := by
  intro j hj
  rcases signal with _ | fault
  · cases hj
  · obtain rfl := List.mem_singleton.1 hj
    rfl

/-! ### What a thread does that is about to receive -/

theorem State.getElem?_onChannel {f : Channel → Channel} (hch : s.channels[c]? = some ch) :
    (s.onChannel c f).channels[c]? = some (f ch) :=
  (List.getElem?_modify_eq f c s.channels).trans (congrArg (Option.map f) hch)

/-- The channel is closed after the last signal that is expected, and when there is none. -/
theorem State.drain_closes (hch : s.channels[c]? = some ch) (hdone : left = 0 ∨ ch.queue = []) :
    s.drain i c describe left = s.onChannel c fun ch => { ch with closed := true } := by
  unfold State.drain
  simp only [hch, Option.elim_some]
  rcases hdone with rfl | hqueue
  · rfl
  · rw [hqueue]
    cases left <;> rfl

/-- A signal that is taken is entered in the report and counted, and the thread is left to react to it before it goes
on. -/
theorem State.drain_takes {rest : List Signal} (hthread : s.threads[i]? = some ⟨[], n, false⟩)
    (hch : s.channels[c]? = some ch) (hqueue : ch.queue = signal :: rest) :
    (s.drain i c describe (left + 1)).report.entries =
        s.report.entries ++ [Workload.entryOf describe signal] ∧
      (s.drain i c describe (left + 1)).threads[i]? =
        some ⟨reactions describe signal ++ [.drain c describe left], n + 1, false⟩ ∧
      (s.drain i c describe (left + 1)).channels[c]? = some { ch with queue := rest } := by
  have hjobs : ∀ jobs : List Job,
      (((s.onChannel c fun ch => { ch with queue := rest }).count i).push i jobs).threads[i]? =
        some ⟨jobs, n + 1, false⟩ := by
    intro jobs
    unfold State.push State.count State.onChannel
    simp only []
    rw [List.getElem?_modify_eq, List.getElem?_modify_eq, hthread]
    simp
  unfold State.drain
  simp only [hch, Option.elim_some, hqueue]
  rcases signal with _ | fault
  all_goals exact ⟨rfl, hjobs _, State.getElem?_onChannel hch⟩

/-- A thread that is about to receive closes the channel, or takes the first signal in it. -/
theorem Stepped.drain (h : Stepped st i (.drain c describe left) s s')
    (hr : s.Receives i c [.drain c describe left] n ch) :
    ((left = 0 ∨ ch.queue = [] ∧ ch.senders = 0) ∧ s'.report = s.report ∧ s'.SoleReceiver i c ∧
        s'.threads[i]? = some ⟨[], n, false⟩ ∧ s'.channels[c]? = some { ch with closed := true }) ∨
      ∃ left' signal rest, left = left' + 1 ∧ ch.queue = signal :: rest ∧
        s'.report.entries = s.report.entries ++ [Workload.entryOf describe signal] ∧
        s'.Receives i c (reactions describe signal ++ [.drain c describe left']) (n + 1) { ch with queue := rest } := by
  have hsole := hr.sole.drain h
  have hunbroken := h.unbroken
  have hready := h.ready
  have hpop := State.pop_getElem? hr.thread
  have hch : (s.pop i).channels[c]? = some ch := hr.channel
  have hs' : s' = (s.pop i).drain i c describe left := h.of_steady rfl hr.unbroken
  by_cases hdone : left = 0 ∨ ch.queue = []
  · have hsenders : left = 0 ∨ ch.queue = [] ∧ ch.senders = 0 := by
      simp only [Job.blocked, hr.channel, Option.any_some, Bool.and_eq_false_iff, decide_eq_false_iff_not,
        List.isEmpty_eq_false_iff, not_not] at hready
      tauto
    rw [State.drain_closes hch hdone] at hs'
    subst hs'
    exact .inl ⟨hsenders, rfl, hsole, hpop, State.getElem?_onChannel hch⟩
  · obtain ⟨hleft, hqueue⟩ := not_or.1 hdone
    obtain ⟨left, rfl⟩ := Nat.exists_eq_succ_of_ne_zero hleft
    obtain ⟨signal, rest, hqueue⟩ := List.exists_cons_of_ne_nil hqueue
    obtain ⟨hentered, hthread, hchannel⟩ := State.drain_takes hpop hch hqueue
    subst hs'
    exact .inr ⟨left, signal, rest, rfl, hqueue, hentered, hunbroken, hthread, hsole, hchannel, hr.opened⟩

/-- What a thread receives is the first signal of the channel. -/
theorem Moment.Does.receives? (hm : m.Does st i (.drain c describe (left + 1)) [])
    (hch : m.before.channels[c]? = some ch) : m.receives? c = ch.queue.head? := by
  unfold Moment.receives?
  rw [hm.job]
  simp only [if_true, hch, Option.bind_some]

theorem Moment.Does.drain (hm : m.Does st i (.drain c describe left) [])
    (hr : m.before.Receives i c [.drain c describe left] n ch) :
    ((left = 0 ∨ ch.queue = [] ∧ ch.senders = 0) ∧ (m.after st).report = m.before.report ∧
        (m.after st).SoleReceiver i c ∧ (m.after st).threads[i]? = some ⟨[], n, false⟩ ∧
        (m.after st).channels[c]? = some { ch with closed := true }) ∨
      ∃ left' signal rest, left = left' + 1 ∧ ch.queue = signal :: rest ∧ m.Takes st c describe signal ∧
        (m.after st).Receives i c (reactions describe signal ++ [.drain c describe left']) (n + 1)
          { ch with queue := rest } := by
  rcases hm.stepped.drain hr with hcloses | ⟨left', signal, rest, rfl, hqueue, hentered, hr'⟩
  · exact .inl hcloses
  · refine .inr ⟨left', signal, rest, rfl, hqueue, ⟨?_, hentered⟩, hr'⟩
    rw [hm.receives? hr.channel, hqueue, List.head?_cons]

/-- After a signal was taken it is left to react to it. -/
theorem Moment.Takes.receives (ht : m.Takes st c describe signal) (hm : m.Does st i (.drain c describe (left + 1)) [])
    (hr : m.before.Receives i c [.drain c describe (left + 1)] n ch) :
    ∃ rest, ch.queue = signal :: rest ∧
      (m.after st).Receives i c (reactions describe signal ++ [.drain c describe left]) (n + 1)
        { ch with queue := rest } := by
  have hhead : ch.queue.head? = some signal := (hm.receives? hr.channel).symm.trans ht.received
  rcases hm.drain hr with ⟨hzero | ⟨hempty, -⟩, -⟩ | ⟨left', signal', rest, hleft, hqueue, -, hr'⟩
  · cases hzero
  · rw [hempty] at hhead
    cases hhead
  · obtain rfl := Nat.succ.inj hleft
    rw [hqueue] at hhead
    obtain rfl := Option.some.inj hhead
    exact ⟨rest, hqueue, hr'⟩

theorem Moment.Does.takes (hm : m.Does st i (.drain c describe left) []) : m.job.takes c = true := by
  rw [hm.job]
  exact decide_eq_true rfl

theorem Moment.Takes.entries (ht : m.Takes st c describe signal) (hm : m.Does st i (.drain c describe left) []) :
    m.entries st c = [Workload.entryOf describe signal] := by
  unfold Moment.entries
  rw [if_pos hm.takes, ht.entered, List.drop_left]

/-- The thread closes the channel, or a signal is taken. -/
theorem Moment.Does.closes_or_takes (hm : m.Does st i (.drain c describe left) [])
    (hr : m.before.Receives i c [.drain c describe left] n ch) (hd : Chronicle st u d m.before)
    (hquiet : ∀ x ∈ d, x.thread ≠ i) :
    Closes st i c describe left u d m ∨
      ∃ left' signal, left = left' + 1 ∧ m.Takes st c describe signal ∧
        (m.after st).At i (reactions describe signal ++ [.drain c describe left']) := by
  rcases hm.drain hr with ⟨hover, hreport, -, hthread, hch⟩ | ⟨left', signal, rest, rfl, -, ht, hr'⟩
  · exact .inl ⟨hd, hquiet, hm, hover.imp_right fun h => ⟨ch, hr.channel, h⟩, hreport, ⟨_, hthread, rfl⟩, _, hch, rfl⟩
  · exact .inr ⟨left', signal, rfl, ht, hr'.at_⟩

/-! ### Calls of the handler -/

theorem Handles.returns {fault : RuntimeFault} {js : List Job} (h : Handles st i describe fault js b d s)
    (hb : b.scope.broken = false) : Returns st i js b d s := by
  obtain ⟨d, m, e, s, hbefore, hquiet, hm, hback⟩ := h
  refine ⟨hbefore.trans (hm.chronicle.trans hback.chronicle), hb, fun x hx hxi => ?_, hback.ends⟩
  rcases List.mem_append.1 hx with hx | hx
  · exact absurd hxi (hquiet x hx)
  rcases List.mem_cons.1 hx with rfl | hx
  · exact State.At.not_at [] hm.at_
  · exact hback.within x hx hxi

theorem Returns.handles {fault : RuntimeFault} {js : List Job} (h : Returns st i js b d s)
    (hat : b.At i (.failed describe fault :: js)) : Handles st i describe fault js b d s := by
  have hne : Job.failed describe fault :: js ≠ js := fun heq => State.At.not_at [] hat (heq ▸ hat)
  obtain ⟨d₁, m, d₂, rfl, hquiet, hm, hback⟩ := h.next hat hne
  exact ⟨d₁, m, d₂, s, h.chronicle.before.1, hquiet, hm, hback⟩

/-- A handler that only notes the failures it is called with returns. -/
theorem handlerReturns_of_noting (hst : st.escalates = false) : HandlerReturns st i c describe := by
  intro fault left n s hb hthread
  have hm : (⟨s, i, .failed describe fault⟩ : Moment σ).Does st i (.failed describe fault) [.drain c describe left] :=
    State.At.does ⟨_, hthread, rfl⟩ hb rfl rfl
  have hafter : ((⟨s, i, .failed describe fault⟩ : Moment σ).after st).threads = (s.pop i).threads := by
    rw [hm.after_eq]
    show ((s.pop i).failed st i describe fault).threads = _
    unfold State.failed
    rw [if_neg (by rw [hst]; exact Bool.false_ne_true)]
    rfl
  have hback : Returns st i [.drain c describe left] (Moment.after st ⟨s, i, .failed describe fault⟩) []
      (Moment.after st ⟨s, i, .failed describe fault⟩) :=
    ⟨.refl, hm.stepped.unbroken, (List.forall_mem_nil _), _, hafter ▸ State.pop_getElem? hthread, rfl, rfl⟩
  exact ⟨_, _, .intro [] ⟨s, i, .failed describe fault⟩ [] _ .refl (List.forall_mem_nil _) hm hback⟩

/-! ### What rounds receive -/

/-- A round takes the first one of the signals in the channel and those that are sent meanwhile. -/
theorem Round.receives (h : Round st i c describe left b signal d s)
    (hr : b.Receives i c [.drain c describe (left + 1)] n ch) :
    ∃ ch', s.Receives i c [.drain c describe left] (n + 1) ch' ∧ ch.queue ++ sent c d = signal :: ch'.queue ∧
      ch'.senders ≤ ch.senders ∧ received c d = [signal] ∧ entered st c d = [Workload.entryOf describe signal] := by
  have htakes : ∀ {d : List (Moment σ)} {m : Moment σ} {signal : Signal}, Chronicle st b d m.before →
      (∀ x ∈ d, x.thread ≠ i) → m.Does st i (.drain c describe (left + 1)) [] → m.Takes st c describe signal →
      ∃ ch', (m.after st).Receives i c (reactions describe signal ++ [.drain c describe left]) (n + 1) ch' ∧
        ch.queue ++ sent c (d ++ [m]) = signal :: ch'.queue ∧ ch'.senders ≤ ch.senders ∧
        received c (d ++ [m]) = [signal] ∧ entered st c (d ++ [m]) = [Workload.entryOf describe signal] := by
    intro d m signal hd hquiet hm ht
    obtain ⟨ch', hr', hfed, huntaken⟩ := hd.waits hr hquiet
    obtain ⟨rest, hqueue, hr''⟩ := ht.receives hm hr'
    refine ⟨_, hr'', ?_, hfed.senders, ?_, ?_⟩
    · rw [sent_append, sent_singleton, hm.job, ← List.append_assoc, ← hfed.queue, hqueue]
      exact List.append_nil _
    · rw [received_concat, received_of_untaken huntaken, ht.received]
      rfl
    · rw [entered_append, entered_of_untaken huntaken, entered_singleton, ht.entries hm, List.nil_append]
  cases h with
  | passed d m hd hquiet hm ht => exact htakes hd hquiet hm ht
  | failed d m fault e s hd hquiet hm ht hhandles =>
    obtain ⟨ch', hr', hqueue, hsenders, hreceived, hentered⟩ := htakes hd hquiet hm ht
    obtain ⟨ch'', hr'', hfed, huntaken⟩ :=
      (hhandles.returns hr'.unbroken).receives hr' avoids_reactions
    refine ⟨ch'', hr'', ?_, hfed.senders.trans hsenders, ?_, ?_⟩
    · rw [List.append_cons, sent_append, ← List.append_assoc, hqueue, List.cons_append, hfed.queue]
    · rw [List.append_cons, received_append, hreceived, received_of_untaken huntaken, List.append_nil]
    · rw [List.append_cons, entered_append, hentered, entered_of_untaken huntaken, List.append_nil]

theorem Rounds.receives (h : Rounds st i c describe left b signals d left' s)
    (hr : b.Receives i c [.drain c describe left] n ch) :
    ∃ ch', s.Receives i c [.drain c describe left'] (n + signals.length) ch' ∧ left = left' + signals.length ∧
      ch.queue ++ sent c d = signals ++ ch'.queue ∧ ch'.senders ≤ ch.senders ∧ received c d = signals ∧
      entered st c d = signals.map (Workload.entryOf describe) := by
  induction h generalizing n ch with
  | refl left b => exact ⟨ch, hr, rfl, List.append_nil _, Nat.le_refl _, rfl, rfl⟩
  | @cons left left' b s s' signal signals d e hround _ ih =>
    obtain ⟨ch', hr', hqueue, hsenders, hreceived, hentered⟩ := hround.receives hr
    obtain ⟨ch'', hr'', hleft, hqueue', hsenders', hreceived', hentered'⟩ := ih hr'
    refine ⟨ch'', ?_, ?_, ?_, hsenders'.trans hsenders, ?_, ?_⟩
    · rwa [List.length_cons, Nat.add_comm signals.length, ← Nat.add_assoc]
    · rw [hleft, List.length_cons, Nat.add_assoc]
    · rw [sent_append, ← List.append_assoc, hqueue, List.cons_append, hqueue', List.cons_append]
    · rw [received_append, hreceived, hreceived', List.singleton_append]
    · rw [entered_append, hentered, hentered', List.map_cons, List.singleton_append]

/-- Nothing is received when the channel is closed. -/
theorem Closes.receives? (h : Closes st i c describe left u d m) : m.receives? c = none := by
  rcases left with _ | left
  · unfold Moment.receives?
    rw [h.does.job]
  · obtain hzero | ⟨ch, hch, hqueue, -⟩ := h.done
    · cases hzero
    · rw [h.does.receives? hch, hqueue]
      rfl

theorem Closes.entries (h : Closes st i c describe left u d m) : m.entries st c = [] := by
  unfold Moment.entries
  rw [h.entered, List.drop_length]
  exact ite_self _

/-- Of the signals that are sent till the channel is closed the first ones have been received, and the others are left
in it. -/
theorem Completes.receives (h : Completes st i c describe n b signals d m)
    (hr : b.Receives i c [.drain c describe n] 0 ch) :
    signals = (ch.queue ++ sent c d).take n ∧ received c (d ++ [m]) = signals ∧
      entered st c (d ++ [m]) = signals.map (Workload.entryOf describe) ∧ (m.after st).SoleReceiver i c ∧
      (m.after st).threads[i]? = some ⟨[], signals.length, false⟩ ∧
      ∃ ch', (m.after st).channels[c]? = some ch' ∧ ch'.closed = true ∧
        ch.queue ++ sent c d = signals ++ ch'.queue := by
  obtain ⟨d₁, left, u, e, rfl, hrounds, hcloses⟩ := h
  obtain ⟨ch₁, hr₁, hleft, hqueue₁, -, hreceived, hentered⟩ := hrounds.receives hr
  obtain ⟨ch₂, hr₂, hfed, huntaken⟩ := hcloses.chronicle.waits hr₁ hcloses.quiet
  rcases hcloses.does.drain hr₂ with ⟨hover, -, hsole, hthread, hch⟩ | ⟨left, signal, rest, -, -, -, htaken⟩
  swap
  · have hnil := htaken.at_.eq hcloses.ended
    exact absurd hnil (List.append_ne_nil_of_right_ne_nil _ (List.cons_ne_nil _ _))
  have hqueue : ch.queue ++ sent c (d₁ ++ e) = signals ++ ch₂.queue := by
    rw [sent_append, ← List.append_assoc, hqueue₁, List.append_assoc, ← hfed.queue]
  refine ⟨?_, ?_, ?_, hsole, ?_, _, hch, rfl, hqueue⟩
  · rw [hqueue, hleft]
    rcases hover with rfl | ⟨hempty, -⟩
    · rw [Nat.zero_add, List.take_left]
    · rw [hempty, List.append_nil, List.take_of_length_le (Nat.le_add_left _ _)]
  · rw [received_concat, received_append, hreceived, received_of_untaken huntaken, hcloses.receives?, List.append_nil]
    exact List.append_nil _
  · rw [entered_append, entered_append, hentered, entered_of_untaken huntaken, entered_singleton, hcloses.entries,
      List.append_nil, List.append_nil]
  · rwa [Nat.zero_add] at hthread

/-! ### Every run -/

theorem Completes.cons (hround : Round st i c describe left b signal d s)
    (h : Completes st i c describe left s signals e m) :
    Completes st i c describe (left + 1) b (signal :: signals) (d ++ e) m := by
  obtain ⟨d₁, left', u, e, rfl, hrounds, hcloses⟩ := h
  exact ⟨d ++ d₁, left', u, e, (List.append_assoc d d₁ e).symm, .cons hround hrounds, hcloses⟩

theorem Completes.unbroken (h : Completes st i c describe n b signals d m) : (m.after st).scope.broken = false := by
  obtain ⟨_, _, _, _, _, _, hcloses⟩ := h
  exact hcloses.does.stepped.unbroken

theorem Receiving.cons (hround : Round st i c describe left b signal d s)
    (h : Receiving st i c describe left s signals e s') :
    Receiving st i c describe (left + 1) b (signal :: signals) (d ++ e) s' := by
  cases h with
  | waits hrounds hc hquiet hat hready =>
    rw [← List.append_assoc]
    exact .waits (.cons hround hrounds) hc hquiet hat hready
  | handles hrounds hc hquiet hm ht hhandling =>
    rw [← List.append_assoc]
    exact .handles (.cons hround hrounds) hc hquiet hm ht hhandling
  | closed hcompletes hc =>
    rw [← List.append_assoc]
    exact .closed (hcompletes.cons hround) hc

/-- A thread that is about to receive can go on unless it needs a signal that is yet to be sent. -/
theorem State.Receives.ready (hr : s.Receives i c [.drain c describe left] n ch) (hs : s.enabled i = false) :
    left ≠ 0 ∧ ∃ ch, s.channels[c]? = some ch ∧ ch.queue = [] ∧ ch.senders ≠ 0 := by
  have hblocked : (Job.drain c describe left).blocked s = true := by
    by_contra hready
    rw [hr.at_.enabled (Bool.not_eq_true _ ▸ hready)] at hs
    cases hs
  simp only [Job.blocked, hr.channel, Option.any_some, Bool.and_eq_true, decide_eq_true_eq,
    List.isEmpty_iff] at hblocked
  exact ⟨hblocked.1, ch, hr.channel, hblocked.2⟩

/-- Whatever else happens, a thread that is to receive makes round after round until it closes the channel. -/
theorem Chronicle.receiving (hc : Chronicle st b d s) (hr : b.Receives i c [.drain c describe left] n ch) :
    ∃ signals, Receiving st i c describe left b signals d s := by
  induction left using Nat.strong_induction_on generalizing b d n ch with
  | _ left ih =>
    rcases hc.next_steady hr.unbroken hr.at_ rfl with ⟨hat, hquiet⟩ | ⟨d₁, m, d₂, rfl, hd₁, hquiet, hm, hd₂⟩
    · obtain ⟨ch', hr', -⟩ := hc.waits hr hquiet
      exact ⟨[], .waits (d := []) (.refl _ b) hc hquiet hat hr'.ready⟩
    obtain ⟨ch', hr', -⟩ := hd₁.waits hr hquiet
    rcases hm.closes_or_takes hr' hd₁ hquiet with hcloses | ⟨left, signal, rfl, ht, hat⟩
    · exact ⟨[], .closed ⟨[], left, b, d₁, rfl, .refl left b, hcloses⟩ hd₂⟩
    obtain ⟨rest, -, htaken⟩ := ht.receives hm hr'
    rcases signal with _ | fault
    · obtain ⟨signals, hsignals⟩ := ih left (Nat.lt_succ_self left) hd₂ htaken
      rw [List.append_cons]
      exact ⟨_, hsignals.cons (.passed d₁ m hd₁ hquiet hm ht hat)⟩
    -- The handler has returned and the rest of the run goes on from there, or it is still at work.
    rcases hd₂.back_or_away htaken avoids_reactions with
      ⟨hwithin, haway⟩ | ⟨e, f, v, rfl, hback, hf⟩
    · exact ⟨[], .handles (d := []) (.refl _ b) hd₁ hquiet hm ht ⟨hd₂, hat, hwithin, haway⟩⟩
    · obtain ⟨ch'', hr'', -⟩ := hback.receives htaken avoids_reactions
      obtain ⟨signals, hsignals⟩ := ih left (Nat.lt_succ_self left) hf hr''
      rw [← List.cons_append, ← List.append_assoc]
      exact ⟨_, hsignals.cons (.failed d₁ m fault e v hd₁ hquiet hm ht (hback.handles hat))⟩

/-- If enough signals have been sent, or nobody is left to send one, the channel is closed in the end, as long as the
handler returns. -/
theorem State.Receives.completes (hr : b.Receives i c [.drain c describe left] n ch)
    (hsent : left ≤ ch.queue.length ∨ ch.senders = 0) (hhandler : HandlerReturns st i c describe) :
    ∃ signals d m, Completes st i c describe left b signals d m := by
  induction left using Nat.strong_induction_on generalizing b n ch with
  | _ left ih =>
    have hready : (Job.drain c describe left).blocked b = false := by
      simp only [Job.blocked, hr.channel, Option.any_some, Bool.and_eq_false_iff, decide_eq_false_iff_not]
      rcases hsent with hlength | hsenders
      · rcases hqueue : ch.queue with _ | ⟨signal, rest⟩
        · rw [hqueue] at hlength
          exact .inl (not_not_intro (Nat.le_zero.1 hlength))
        · exact .inr (.inl rfl)
      · exact .inr (.inr (not_not_intro hsenders))
    have hm : (⟨b, i, .drain c describe left⟩ : Moment σ).Does st i (.drain c describe left) [] :=
      hr.at_.does hr.unbroken hready rfl
    rcases hm.closes_or_takes (d := []) hr .refl (List.forall_mem_nil _) with hcloses | ⟨left, signal, rfl, ht, hat⟩
    · exact ⟨[], [], _, [], left, b, [], rfl, .refl left b, hcloses⟩
    have hround : ∃ d s, Round st i c describe left b signal d s := by
      rcases signal with _ | fault
      · exact ⟨_, _, .passed [] _ .refl (List.forall_mem_nil _) hm ht hat⟩
      · obtain ⟨rest, -, htaken⟩ := ht.receives hm hr
        obtain ⟨e, s', hhandles⟩ := hhandler fault left _ _ htaken.unbroken htaken.thread
        exact ⟨_, _, .failed [] _ fault e s' .refl (List.forall_mem_nil _) hm ht hhandles⟩
    obtain ⟨d, s, hround⟩ := hround
    obtain ⟨ch', hr', hqueue, hsenders, -⟩ := hround.receives hr
    have hsent' : left ≤ ch'.queue.length ∨ ch'.senders = 0 := by
      have hlengths := congrArg List.length hqueue
      rw [List.length_append, List.length_cons] at hlengths
      omega
    obtain ⟨signals, e, m, hcompletes⟩ := ih left (Nat.lt_succ_self left) hr' hsent'
    exact ⟨_, _, m, hcompletes.cons hround⟩

/-! ### The end of every run -/

theorem Handles.chronicle {fault : RuntimeFault} {js : List Job} (h : Handles st i describe fault js b d s) :
    Chronicle st b d s := by
  obtain ⟨d, m, e, s, hbefore, -, hm, hback⟩ := h
  exact hbefore.trans (hm.chronicle.trans hback.chronicle)

theorem Round.chronicle (h : Round st i c describe left b signal d s) : Chronicle st b d s := by
  cases h with
  | passed d m hd _ hm => exact hd.trans hm.chronicle
  | failed d m fault e s hd _ hm _ hhandles => exact hd.trans (hm.chronicle.trans hhandles.chronicle)

theorem Rounds.chronicle (h : Rounds st i c describe left b signals d left' s) : Chronicle st b d s := by
  induction h with
  | refl => exact .refl
  | cons hround _ ih => exact hround.chronicle.trans ih

theorem Completes.chronicle (h : Completes st i c describe n b signals d m) :
    Chronicle st b (d ++ [m]) (m.after st) := by
  obtain ⟨d₁, left, u, e, rfl, hrounds, hcloses⟩ := h
  rw [List.append_assoc]
  exact hrounds.chronicle.trans (hcloses.chronicle.trans hcloses.does.chronicle)

/-- A round may be waited for. -/
theorem Round.of_quiet (h : Round st i c describe left u signal e s) (hc : Chronicle st b d u)
    (hquiet : ∀ x ∈ d, x.thread ≠ i) : Round st i c describe left b signal (d ++ e) s := by
  have hboth : ∀ {e : List (Moment σ)}, (∀ x ∈ e, x.thread ≠ i) → ∀ x ∈ d ++ e, x.thread ≠ i :=
    fun he x hx => (List.mem_append.1 hx).elim (hquiet x) (he x)
  cases h with
  | passed e m he hquiet' hm ht hat =>
    rw [← List.append_assoc]
    exact .passed (d ++ e) m (hc.trans he) (hboth hquiet') hm ht hat
  | failed e m fault f s he hquiet' hm ht hhandles =>
    rw [← List.append_assoc]
    exact .failed (d ++ e) m fault f s (hc.trans he) (hboth hquiet') hm ht hhandles

theorem Completes.of_quiet (h : Completes st i c describe n u signals e m) (hc : Chronicle st b d u)
    (hquiet : ∀ x ∈ d, x.thread ≠ i) : Completes st i c describe n b signals (d ++ e) m := by
  obtain ⟨d₁, left, v, f, rfl, hrounds, hcloses⟩ := h
  cases hrounds with
  | refl =>
    refine ⟨[], n, b, d ++ f, rfl, .refl n b, { hcloses with chronicle := hc.trans hcloses.chronicle, quiet := ?_ }⟩
    exact fun x hx => (List.mem_append.1 hx).elim (hquiet x) (hcloses.quiet x)
  | cons hround hrounds =>
    have hrounds' := Rounds.cons (hround.of_quiet hc hquiet) hrounds
    exact ⟨_, left, v, f, by simp only [List.append_assoc], hrounds', hcloses⟩

theorem Rounds.completes {signals' : List Signal} (h : Rounds st i c describe n b signals d left u)
    (h' : Completes st i c describe left u signals' e m) :
    Completes st i c describe n b (signals ++ signals') (d ++ e) m := by
  induction h with
  | refl => exact h'
  | cons hround _ ih =>
    rw [List.append_assoc]
    exact (ih h').cons hround

/-- A run in which a thread is about to receive can go on to where it closes the channel, if enough signals have been
sent or nobody is left to send one, and if the handler returns. -/
theorem Chronicle.completes (hc : Chronicle st b d s) (hr : b.Receives i c [.drain c describe n] 0 ch)
    (hat : s.At i [.drain c describe left])
    (hsent : n ≤ (ch.queue ++ sent c d).length ∨ ∃ ch', s.channels[c]? = some ch' ∧ ch'.senders = 0)
    (hhandler : HandlerReturns st i c describe) :
    ∃ signals e m, Chronicle st s (e ++ [m]) (m.after st) ∧ Completes st i c describe n b signals (d ++ e) m := by
  obtain ⟨signals, hreceiving⟩ := hc.receiving hr
  cases hreceiving with
  | @waits left' u s d e hrounds he hquiet hat' =>
    obtain ⟨ch₁, hr₁, hleft, hqueue, -⟩ := hrounds.receives hr
    obtain ⟨ch₂, hr₂, hfed, -⟩ := he.waits hr₁ hquiet
    have henough : left' ≤ ch₂.queue.length ∨ ch₂.senders = 0 := by
      rcases hsent with hlength | ⟨ch', hch', hsenders⟩
      · rw [sent_append, ← List.append_assoc, hqueue, List.append_assoc, ← hfed.queue, List.length_append] at hlength
        omega
      · obtain rfl := Option.some.inj (hch'.symm.trans hr₂.channel)
        exact .inr hsenders
    obtain ⟨signals', f, m, hcompletes⟩ := hr₂.completes henough hhandler
    refine ⟨signals ++ signals', f, m, hcompletes.chronicle, ?_⟩
    rw [List.append_assoc]
    exact hrounds.completes (hcompletes.of_quiet he hquiet)
  | handles hrounds he hquiet hm ht hhandling =>
    rcases hhandling.away with ⟨x, front, hfront⟩ | ⟨u, hu, hnil, -⟩
    · have hlength := congrArg List.length (hfront.eq hat)
      simp at hlength
    · cases State.At.eq ⟨u, hu, hnil⟩ hat
  | @closed s d e m hcompletes he =>
    obtain ⟨-, -, -, -, hthread, -⟩ := hcompletes.receives hr
    cases State.At.eq ⟨_, (he.ended hcompletes.unbroken hthread rfl).1, rfl⟩ hat

/-- A thread that is to receive `n` signals of a channel receives the first `n` of those that are sent before it closes
the channel, or all of them if they are fewer, and no others.  For each of them it makes one entry in the report and, if
it is a failure, one call of the handler, before it receives the next one (`Rounds`).  The number of them is its tally
when it ends.  What is sent into the closed channel is nothing, and what is left in it is received by nobody.  At any
time the thread waits for a signal, is called back from the handler, or has ended; and it can end once enough signals
have been sent, or nobody is left to send one, if the handler returns. -/
theorem drain_receives_first (st : Settings σ) (hr : b.Receives i c [.drain c describe n] 0 ch) :
    (∀ signals d m, Completes st i c describe n b signals d m →
      signals = (ch.queue ++ sent c d).take n ∧
      (m.after st).threads[i]? = some ⟨[], min n (ch.queue ++ sent c d).length, false⟩ ∧
      received c (d ++ [m]) = signals ∧ entered st c (d ++ [m]) = signals.map (Workload.entryOf describe) ∧
      ∀ e s, Chronicle st (m.after st) e s → s.threads[i]? = (m.after st).threads[i]? ∧ received c e = [] ∧
        entered st c e = [] ∧
        ∃ ch', s.channels[c]? = some ch' ∧ ch'.closed = true ∧ ch.queue ++ sent c d = signals ++ ch'.queue) ∧
    (∀ d s, Chronicle st b d s → ∃ signals, Receiving st i c describe n b signals d s) ∧
    (∀ d s left, Chronicle st b d s → s.At i [.drain c describe left] →
      (n ≤ (ch.queue ++ sent c d).length ∨ ∃ ch', s.channels[c]? = some ch' ∧ ch'.senders = 0) →
      HandlerReturns st i c describe →
      ∃ signals e m, Chronicle st s (e ++ [m]) (m.after st) ∧ Completes st i c describe n b signals (d ++ e) m) := by
  refine ⟨fun signals d m hcompletes => ?_, fun d s hc => hc.receiving hr, fun d s left hc hat => hc.completes hr hat⟩
  obtain ⟨hsignals, hreceived, hentered, hsole, hthread, ch', hch, hclosed, hqueue⟩ := hcompletes.receives hr
  refine ⟨hsignals, ?_, hreceived, hentered, fun e s hc => ?_⟩
  · rw [hthread, hsignals, List.length_take]
  · obtain ⟨hs, huntaken, ch'', hch', hclosed', hqueue'⟩ :=
      hc.closed hcompletes.unbroken hthread rfl hsole hch hclosed
    exact ⟨hs.trans hthread.symm, received_of_untaken huntaken, entered_of_untaken huntaken, ch'', hch', hclosed',
      hqueue' ▸ hqueue⟩

end

/-! ## Three signals -/

/-- A handler that only notes the failures. -/
def notingSettings : Settings (Faulty (World Rehearsal)) := { rehearsed {} with escalates := false }

/-- A thread that is to receive three signals, two of which have been sent, and one that sends the third. -/
def drainStart : State (Faulty (World Rehearsal)) :=
  { State.ofJobs (rehearsalScope {} {}) [.drain 0 "load" 3] with
    threads := [.ofJobs [.drain 0 "load" 3], .ofJobs [.send 0 none]]
    channels := [⟨[none, some (.command "boom")], 1, 3, false⟩] }

/-- The third signal is sent. -/
def drainSend : Moment (Faulty (World Rehearsal)) := ⟨drainStart, 1, .send 0 none⟩

/-- It is received like those before it, and the failure that came before it is entered as one. -/
theorem drain_receives_first_three :
    drainStart.Receives 0 0 [.drain 0 "load" 3] 0 ⟨[none, some (.command "boom")], 1, 3, false⟩ ∧
    HandlerReturns notingSettings 0 0 "load" ∧ drainStart.enabled 1 = true ∧
    ∃ d m, Completes notingSettings 0 0 "load" 3 drainStart [none, some (.command "boom"), none] (drainSend :: d) m ∧
      (m.after notingSettings).threads[0]? = some ⟨[], 3, false⟩ ∧
      (entered notingSettings 0 ((drainSend :: d) ++ [m])).map ReportEntry.ok = [true, false, true] := by
  have hr : drainStart.Receives 0 0 [.drain 0 "load" 3] 0 ⟨[none, some (.command "boom")], 1, 3, false⟩ := by
    refine ⟨rfl, rfl, fun t u hu ht j hj => ?_, rfl, rfl⟩
    rcases t with _ | _ | t
    · exact absurd rfl ht
    · obtain rfl := Option.some.inj hu
      obtain rfl := List.mem_singleton.1 hj
      rfl
    · cases hu
  have hhandler : HandlerReturns notingSettings 0 0 "load" := handlerReturns_of_noting rfl
  have hsend : drainSend.Does notingSettings 1 (.send 0 none) [] := State.At.does ⟨_, rfl, rfl⟩ rfl rfl rfl
  obtain ⟨hfirst, -, hends⟩ := drain_receives_first notingSettings hr
  obtain ⟨signals, d, m, -, hcompletes⟩ :=
    hends [drainSend] _ 3 hsend.chronicle ⟨_, rfl, rfl⟩ (.inl (by decide)) hhandler
  obtain ⟨hsignals, hthread, -, hentered, -⟩ := hfirst _ _ m hcompletes
  obtain rfl : signals = [none, some (.command "boom"), none] := by rw [hsignals, sent_append]; rfl
  refine ⟨hr, hhandler, rfl, d, m, hcompletes, ?_, congrArg (List.map ReportEntry.ok) hentered⟩
  rw [hthread, ← List.length_take, ← hsignals]
  rfl

end Workload.Run

import Workload.Proofs.Changeover
import Workload.Proofs.Control

/-!
# Channels

A channel is opened by a launch, and what comes of the launch uses no other channel (`Job.Yields.channel`).  So a
channel stays as it is until one of the jobs that use it is done (`Stepped.channel_other`), and no other job makes
anybody use it.  What has been sent into a channel and received from it is read off the moments of a run (`sends`,
`received`).
-/

namespace Workload.Run

variable {σ : Type}

/-! ## Who uses a channel -/

/-- The channel that a job sends into or receives from. -/
def Job.channel? : Job → Option ChannelId
  | .launched _ _ _ c | .drain c _ _ | .watch _ _ c | .expire _ _ c | .send c _ => some c
  | _ => none

/-- Only channels that were opened are used. -/
def State.Opened (s : State σ) : Prop :=
  s.Stacks fun jobs => ∀ j ∈ jobs, ∀ c, j.channel? = some c → c < s.channels.length

/-- None of the jobs uses the channel. -/
def Spares (c : ChannelId) (jobs : List Job) : Prop := ∀ j ∈ jobs, j.channel? ≠ some c

theorem Spares.append {c : ChannelId} {jobs jobs' : List Job} (h : Spares c jobs) (h' : Spares c jobs') :
    Spares c (jobs ++ jobs') := fun j hj =>
  (List.mem_append.1 hj).elim (h j) (h' j)

theorem Spares.nil {c : ChannelId} : Spares c [] := fun _ hj => nomatch hj

theorem spares_of_none {c : ChannelId} {jobs : List Job} (h : ∀ j ∈ jobs, j.channel? = none) : Spares c jobs := by
  intro j hj
  rw [h j hj]
  exact (Option.some_ne_none c).symm

theorem channel?_awaits (k : Ticket) (watcher : Option (ThreadId × PromiseId)) (l : Launch) (r : ThreadId) :
    ∀ j ∈ k.awaits watcher l r, j.channel? = none := by
  intro j hj
  unfold Ticket.awaits at hj
  rcases List.mem_append.1 hj with hj | hj
  · split_ifs at hj
    · simp only [List.mem_cons, List.not_mem_nil, or_false] at hj
      rcases hj with rfl | rfl <;> rfl
    · cases hj
  · rcases watcher with _ | w
    · cases hj
    · simp only [Option.elim_some, List.mem_cons, List.not_mem_nil, or_false] at hj
      rcases hj with rfl | rfl <;> rfl

theorem channel?_watchers (k : Ticket) (p : PromiseId) :
    ∀ jobs ∈ k.watchers p, ∀ j ∈ jobs, j.channel? = none := by
  intro jobs hjobs j hj
  unfold Ticket.watchers at hjobs
  split_ifs at hjobs
  · cases hjobs
  · obtain rfl := List.mem_singleton.1 hjobs
    obtain rfl := List.mem_singleton.1 hj
    rfl

/-- Of the threads that a recorded launch starts only the first one uses its channel. -/
theorem channel?_followers (k : Ticket) (l : Launch) (c : ChannelId) :
    ∀ jobs ∈ (k.followers l c).tail, ∀ j ∈ jobs, j.channel? = none := by
  intro jobs hjobs j hj
  unfold Ticket.followers at hjobs
  rw [List.tail_cons] at hjobs
  split_ifs at hjobs
  · cases hjobs
  · obtain rfl := List.mem_singleton.1 hjobs
    obtain rfl := List.mem_singleton.1 hj
    rfl

theorem channel?_observers (k : Ticket) (l : Launch) (c : ChannelId) :
    ∀ jobs ∈ k.observers l c, ∀ j ∈ jobs, j.channel? = some c := by
  intro jobs hjobs j hj
  obtain ⟨id, -, rfl⟩ := List.mem_map.1 hjobs
  obtain rfl := List.mem_singleton.1 hj
  rfl

/-- What comes of a launch uses the channel that is opened for it. -/
theorem Ticket.Yields.channel {k : Ticket} {b b' : Board} {r : Except RuntimeFault Launch} {new : List Job}
    {spawned : List (List Job)} (h : k.Yields b b' r new spawned) {jobs : List Job} (hjobs : jobs ∈ new :: spawned)
    {j : Job} (hj : j ∈ jobs) {c : ChannelId} (hc : j.channel? = some c) :
    c = b.channels.length ∧ c < b'.channels.length := by
  have hnone : j.channel? ≠ none := by simp [hc]
  have hopened : ∀ {ch : Channel}, b'.channels = b.channels ++ [ch] → b.channels.length < b'.channels.length := by
    intro ch hch
    rw [hch, List.length_append]
    exact Nat.lt_succ_self _
  have hown : ∀ {ch : Channel}, b'.channels = b.channels ++ [ch] → j.channel? = some b.channels.length →
      c = b.channels.length ∧ c < b'.channels.length := by
    intro ch hch hj
    obtain rfl := Option.some.inj (hc.symm.trans hj)
    exact ⟨rfl, hopened hch⟩
  have hfollowers : ∀ {ch : Channel} {l : Launch}, b'.channels = b.channels ++ [ch] →
      jobs ∈ k.followers l b.channels.length → c = b.channels.length ∧ c < b'.channels.length := by
    intro ch l hch hjobs
    rcases List.mem_cons.1 hjobs with rfl | hjobs
    · obtain rfl := List.mem_singleton.1 hj
      exact hown hch rfl
    · exact absurd (channel?_followers k l b.channels.length jobs hjobs j hj) hnone
  cases h with
  | refused fault p =>
    rcases List.mem_cons.1 hjobs with rfl | hjobs
    · obtain rfl := List.mem_singleton.1 hj
      cases hc
    · obtain ⟨_, -, rfl⟩ := List.mem_map.1 hjobs
      cases hj
  | known l signals p watcher restarter _ _ hch =>
    rcases List.mem_cons.1 hjobs with rfl | hjobs
    · exact absurd (channel?_awaits k watcher l restarter j hj) hnone
    rcases List.mem_append.1 hjobs with hjobs | hjobs
    · exact absurd (channel?_watchers k p jobs hjobs j hj) hnone
    · exact hfollowers hch hjobs
  | watched l p watcher restarter _ _ hch =>
    rcases List.mem_cons.1 hjobs with rfl | hjobs
    · exact absurd (channel?_awaits k watcher l restarter j hj) hnone
    rcases List.mem_append.1 hjobs with hjobs | hjobs
    · exact absurd (channel?_watchers k p jobs hjobs j hj) hnone
    rcases List.mem_append.1 hjobs with hjobs | hjobs
    · exact hown hch (channel?_observers k l _ jobs hjobs j hj)
    · exact hfollowers hch hjobs
  | awaited l p watcher observers _ _ hch =>
    rcases List.mem_cons.1 hjobs with rfl | hjobs
    · simp only [List.mem_cons, List.not_mem_nil, or_false] at hj
      rcases hj with rfl | rfl
      · cases hc
      · exact hown hch rfl
    rcases List.mem_append.1 hjobs with hjobs | hjobs
    · exact absurd (channel?_watchers k p jobs hjobs j hj) hnone
    · exact hown hch (channel?_observers k l _ jobs hjobs j hj)

section

variable {st : Settings σ} {i t : ThreadId} {j x : Job} {s s' : State σ} {c : ChannelId} {jobs js new : List Job}
  {spawned : List (List Job)}

/-- What comes of a job uses the channel that the job uses, or one that the job opens. -/
theorem Job.Yields.channel (h : x.Yields st s s' new spawned) (hjobs : jobs ∈ new :: spawned) (hj : j ∈ jobs)
    (hc : j.channel? = some c) : x.channel? = some c ∨ c = s.channels.length ∧ c < s'.channels.length := by
  have hlaunch : ∀ k, x = .launch k → c = s.channels.length ∧ c < s'.channels.length := by
    rintro k rfl
    rcases h with ⟨p, -, -, -, rfl, hspawned⟩ | ⟨-, -, h⟩
    · rcases List.mem_cons.1 hjobs with rfl | hjobs
      · cases hj
      rcases hspawned with rfl | rfl
      · cases hjobs
      · obtain ⟨_, -, rfl⟩ := List.mem_map.1 hjobs
        cases hj
    · exact h.channel hjobs hj hc
  rcases List.mem_cons.1 hjobs with rfl | hjobs
  · cases h.leaves j hj with
    | launched k => exact .inr (hlaunch k rfl)
    | receiveNext | expire | send | sendExpired => exact .inl hc
    | _ => cases hc
  · cases h.starts jobs hjobs j hj with
    | watch k => exact .inr (hlaunch k rfl)
    | receive k => exact .inr (hlaunch k rfl)
    | receiveLaunched => exact .inl hc
    | _ => cases hc

theorem Job.channel?_of_observes (h : x.observes? = some c) : x.channel? = some c := by
  cases x with
  | watch | expire => exact h
  | _ => cases h

/-- A step opens a channel behind those there are, or changes the one that its job uses. -/
theorem Stepped.channels_cases (h : Stepped st i x s s') (hb : s.scope.broken = false) :
    s'.channels = s.channels ∨ (∃ ch, ch.closed = false ∧ s'.channels = s.channels ++ [ch]) ∨
      ∃ c f, x.channel? = some c ∧ s'.channels = s.channels.modify c f := by
  obtain ⟨-, -, -, new, spawned, -, -, hy, -⟩ := h.moves
  rcases h.board.channels with hsame | ⟨k, rfl⟩ | ⟨c, describe, left, rfl⟩ | ⟨c, signal, rfl⟩ | ⟨c, hx, hreleased⟩
  · exact .inl hsame
  · rcases hy with ⟨-, -, hsame, -⟩ | ⟨-, -, hy⟩
    · exact .inl hsame
    · generalize (s.scope.launch st.env k.task).1 = r at hy
      cases hy with
      | refused _ _ _ hsame => exact .inl hsame
      | known | watched | awaited => exact .inr (.inl ⟨_, rfl, ‹_›⟩)
  · obtain ⟨-, hy⟩ := hy
    refine .inr (.inr ⟨c, ?_⟩)
    split at hy <;> exact ⟨_, rfl, hy.2.2⟩
  · rw [h.of_steady rfl hb]
    exact .inr (.inr ⟨c, _, rfl, rfl⟩)
  · exact .inr (.inr ⟨c, _, Job.channel?_of_observes hx, hreleased⟩)

theorem Stepped.channels_le (h : Stepped st i x s s') (hb : s.scope.broken = false) :
    s.channels.length ≤ s'.channels.length := by
  rcases h.channels_cases hb with hsame | ⟨ch, -, hopened⟩ | ⟨c, f, -, hmodified⟩
  · rw [hsame]
  · rw [hopened, List.length_append]
    exact Nat.le_add_right _ _
  · rw [hmodified, List.length_modify]

/-- A job leaves the channels as they are that it does not use. -/
theorem Stepped.channel_other (h : Stepped st i x s s') (hb : s.scope.broken = false) (hx : x.channel? ≠ some c)
    (hc : c < s.channels.length) : s'.channels[c]? = s.channels[c]? := by
  rcases h.channels_cases hb with hsame | ⟨ch, -, hopened⟩ | ⟨c', f, hc', hmodified⟩
  · rw [hsame]
  · rw [hopened, List.getElem?_append_left hc]
  · rw [hmodified, List.getElem?_modify_ne f]
    rintro rfl
    exact hx hc'

theorem start_opened (st : Settings σ) (sc : Scope σ) (actions : List Action) (report : Report) :
    (start st sc actions report).Opened := by
  intro t ht j hj c hc
  obtain rfl := List.mem_singleton.1 ht
  obtain rfl := List.mem_singleton.1 hj
  cases hc

theorem State.Opened.spares (hs : s.Opened) (hat : s.At i js) : Spares s.channels.length js := by
  obtain ⟨u, hu, rfl⟩ := hat
  exact fun j hj hc => Nat.lt_irrefl _ (hs u (List.mem_of_getElem? hu) j hj _ hc)

theorem State.Opened.step (hs : s.Opened) (h : Stepped st i x s s') (hb : s.scope.broken = false) : s'.Opened := by
  have hle := h.channels_le hb
  have hopened : s.Stacks fun jobs => ∀ j ∈ jobs, ∀ c, j.channel? = some c → c < s'.channels.length :=
    fun t ht j hj c hc => (hs t ht j hj c hc).trans_le hle
  refine h.forall_stacks hopened (fun j hj => nomatch hj) fun js new spawned _ hjs hy => ?_
  have hfresh : ∀ jobs ∈ new :: spawned, ∀ j ∈ jobs, ∀ c, j.channel? = some c → c < s'.channels.length := by
    intro jobs hjobs j hj c hc
    rcases hy.channel hjobs hj hc with hx | ⟨-, hlt⟩
    · exact hjs x List.mem_cons_self c hx
    · exact hlt
  refine ⟨fun j hj => ?_, fun jobs hjobs => hfresh jobs (List.mem_cons_of_mem new hjobs)⟩
  rcases List.mem_append.1 hj with hj | hj
  · exact hfresh new List.mem_cons_self j hj
  · exact hjs j (List.mem_cons_of_mem x hj)

/-- In every state of a run the channels that are used have been opened. -/
theorem Chronicle.opened {sc : Scope σ} {actions : List Action} {report : Report} {d : List (Moment σ)}
    (hd : Chronicle st (start st sc actions report) d s) (hb : sc.broken = false) : s.Opened :=
  hd.invariant (P := fun _ s => s.Opened) hb (start_opened st sc actions report)
    (fun _ _ _ _ _ hs h hb => hs.step h hb) fun _ _ _ hs _ _ => hs

/-- The threads after a move are the one that moved, the others that were there, and those it started. -/
theorem State.Moves.thread_cases {kinds : List EventKind} (h : State.Moves kinds i new spawned s s') (hs : s.At i js)
    {u : Thread} (hu : s'.threads[t]? = some u) :
    t = i ∧ u.jobs = new ++ js ∨ t ≠ i ∧ s.threads[t]? = some u ∨
      ∃ n jobs, t = s.threads.length + n ∧ spawned[n]? = some jobs ∧ u = Thread.ofJobs jobs := by
  obtain ⟨hat, hstarted⟩ := h.leaves hs
  by_cases hti : t = i
  · subst hti
    exact .inl ⟨rfl, State.At.eq ⟨u, hu, rfl⟩ hat⟩
  rcases Nat.lt_or_ge t s.threads.length with hlt | hge
  · obtain ⟨v, hv, -⟩ := hs
    obtain ⟨n, hn⟩ := h.threads v hv
    rw [hn, List.getElem?_append_left (by simpa using hlt), List.getElem?_set_ne (Ne.symm hti)] at hu
    exact .inr (.inl ⟨hti, hu⟩)
  · obtain ⟨n, rfl⟩ := Nat.exists_eq_add_of_le hge
    rw [hstarted] at hu
    obtain ⟨jobs, hjobs, rfl⟩ := Option.map_eq_some_iff.1 hu
    exact .inr (.inr ⟨n, jobs, rfl, hjobs, rfl⟩)

/-- A thread whose job does not use a channel goes on with what does not use it either, before its other jobs. -/
theorem Stepped.front (h : Stepped st i x s s') (hs : s.At i (x :: js)) (hx : x.channel? ≠ some c)
    (hc : c < s.channels.length) : s'.At i [] ∨ ∃ new, Spares c new ∧ s'.At i (new ++ js) := by
  obtain ⟨new, spawned, hy, hat | ⟨-, hat⟩⟩ := h.at_self hs
  · refine .inr ⟨new, fun j hj hj' => ?_, hat⟩
    rcases hy.channel List.mem_cons_self hj hj' with hx' | ⟨rfl, -⟩
    · exact hx hx'
    · exact Nat.lt_irrefl _ hc
  · exact .inl hat

/-- The other threads do not begin to use a channel unless the job starts threads that do. -/
theorem Stepped.spares (h : Stepped st i x s s') {u : Thread} (hu : s'.threads[t]? = some u) (ht : t ≠ i)
    (hold : ∀ v, s.threads[t]? = some v → Spares c v.jobs)
    (hspawned : ∀ new spawned, x.Yields st s s' new spawned → ∀ jobs ∈ spawned, Spares c jobs) :
    Spares c u.jobs := by
  obtain ⟨v, js, new, spawned, -, -, hy, hcases⟩ := h.thread_cases
  rcases hcases t u hu with ⟨rfl, -⟩ | ⟨-, hu⟩ | ⟨-, -, jobs, hjobs, rfl⟩
  · exact absurd rfl ht
  · exact hold u hu
  · exact hspawned new spawned hy jobs hjobs

/-- No job starts a thread that uses a channel that is there already and that the job does not use. -/
theorem Job.Yields.spares (hy : x.Yields st s s' new spawned) (hx : x.channel? ≠ some c)
    (hc : c < s.channels.length) : ∀ jobs ∈ spawned, Spares c jobs := by
  intro jobs hjobs j hj hj'
  rcases hy.channel (List.mem_cons_of_mem new hjobs) hj hj' with hx' | ⟨rfl, -⟩
  · exact hx hx'
  · exact Nat.lt_irrefl _ hc

end

/-! ## What has been sent and received -/

/-- What a job sends into a channel. -/
def Job.sends? (c : ChannelId) : Job → Option Signal
  | .send c' signal => if c' = c then some signal else none
  | _ => none

/-- The signals that have been sent into a channel, each with the thread that sent it. -/
def sends (c : ChannelId) (d : List (Moment σ)) : List (ThreadId × Signal) :=
  d.filterMap fun m => (m.job.sends? c).map (m.thread, ·)

/-- The signals that have been sent into a channel. -/
def sent (c : ChannelId) (d : List (Moment σ)) : List Signal := (sends c d).map Prod.snd

/-- What a thread receives from a channel at a moment. -/
def Moment.receives? (c : ChannelId) (m : Moment σ) : Option Signal :=
  match m.job with
  | .drain c' _ (_ + 1) => if c' = c then (m.before.channels[c]?).bind fun ch => ch.queue.head? else none
  | _ => none

/-- The signals that have been received from a channel. -/
def received (c : ChannelId) (d : List (Moment σ)) : List Signal := d.filterMap (Moment.receives? c)

section

variable {c : ChannelId} {d : List (Moment σ)} {m : Moment σ}

theorem sends_concat : sends c (d ++ [m]) = sends c d ++ ((m.job.sends? c).map (m.thread, ·)).toList := by
  unfold sends
  rw [List.filterMap_append]
  rcases h : m.job.sends? c with _ | signal <;> simp [h]

theorem sends_concat_of_none (h : m.job.sends? c = none) : sends c (d ++ [m]) = sends c d := by
  rw [sends_concat, h]
  exact List.append_nil _

theorem mem_sends_concat {x : ThreadId × Signal} (h : x ∈ sends c (d ++ [m])) : x ∈ sends c d ∨ x.1 = m.thread := by
  rw [sends_concat, List.mem_append] at h
  refine h.imp_right fun h => ?_
  obtain ⟨signal, -, rfl⟩ := Option.map_eq_some_iff.1 (Option.mem_toList.1 h)
  rfl

theorem sent_append {e : List (Moment σ)} : sent c (d ++ e) = sent c d ++ sent c e := by
  unfold sent sends
  rw [List.filterMap_append, List.map_append]

theorem sent_singleton : sent c [m] = (m.job.sends? c).toList := by
  unfold sent
  rw [← List.nil_append [m], sends_concat]
  rcases m.job.sends? c with _ | signal <;> rfl

theorem received_concat : received c (d ++ [m]) = received c d ++ (m.receives? c).toList := by
  unfold received
  rw [List.filterMap_append]
  rcases h : m.receives? c with _ | signal <;> simp [h]

theorem received_concat_of_none (h : m.receives? c = none) : received c (d ++ [m]) = received c d := by
  rw [received_concat, h]
  exact List.append_nil _

theorem Job.sends?_of_spared {j : Job} (h : j.channel? ≠ some c) : j.sends? c = none := by
  cases j with
  | send c' signal => exact if_neg fun hc => h (congrArg some hc)
  | _ => rfl

theorem Moment.receives?_of_spared (h : m.job.channel? ≠ some c) : m.receives? c = none := by
  unfold Moment.receives?
  split
  · rename_i c' _ _ hj
    rw [hj] at h
    exact if_neg fun hc => h (congrArg some hc)
  · rfl

end

end Workload.Run

import Workload.Proofs.Channels

/-!
# Crews

The containers of a launch are watched by threads of their own, a `Crew`, which all send into one channel.  Nobody
else sends there (`Crew.Works`), and one thread at a time receives from it (`Crew.Serves`).  The channel has room
for one signal of each container, so that no thread of the crew ever waits for the one that receives
(`Crew.Works.goesOn`), and what is received is what was sent, in this order.
-/

namespace Workload.Run

variable {σ : Type}

/-! ## Where a crew stands -/

/-- The threads that watch the containers of a launch and send into its channel. -/
structure Crew where
  task : Task
  ids : List String
  /-- The thread of the first container; those of the others follow. -/
  first : ThreadId
  channel : ChannelId

/-- At a moment a thread waits for a container, and this comes of it. -/
structure Moment.Waits (st : Settings σ) (w : Crew) (id : String) (r : Option (Except RuntimeFault Unit))
    (m : Moment σ) : Prop where
  job : m.job = .watch w.task id w.channel
  result : (st.env.runtime.watch w.task id m.before.scope.world).1.map Reply.result = r

/-- A runtime can wait for every container. -/
def WaitsSafely (r : Runtime σ) : Prop :=
  ∀ task id w reply, (r.watch task id w).1 = some reply → reply.broken = false

theorem State.watch_at (st : Settings σ) {i : ThreadId} {task : Task} (id : String) (c : ChannelId) {s : State σ}
    {js : List Job} (hs : s.At i js) (hb : s.scope.broken = false) (hsafe : WaitsSafely st.env.runtime)
    (hduration : task.duration = .zero) :
    (s.watch st i task id c).scope.broken = false ∧ (s.watch st i task id c).channels = s.channels ∧
      (s.watch st i task id c).At i (((st.env.runtime.watch task id s.scope.world).1.elim .hang fun reply =>
        .send c (State.signalOf reply.result)) :: js) := by
  unfold State.watch
  rcases hwatch : st.env.runtime.watch task id s.scope.world with ⟨_ | reply, world⟩
  · simp only []
    rw [if_pos hduration]
    exact ⟨hb, rfl, State.At.push hs [.hang]⟩
  · have hreply : reply.broken = false := hsafe task id s.scope.world reply (by rw [hwatch])
    have htaken : (s.within (Scope.take reply world)).2.scope.broken = false := by
      show (s.scope.broken || reply.broken) = false
      rw [hb, hreply]
      rfl
    simp only []
    unfold State.tell
    rw [if_neg (by rw [htaken]; exact Bool.false_ne_true)]
    exact ⟨htaken, rfl, State.At.push (s := (s.within (Scope.take reply world)).2) hs _⟩

namespace Crew

variable (st : Settings σ) (w : Crew)

def threads : List ThreadId := (List.range w.ids.length).map (w.first + ·)

/-- Where a thread stands that watches a container: it is about to wait for it, waits without an end, is about to
send what comes of it, or has sent that. -/
inductive Stands (t : ThreadId) (id : String) (d : List (Moment σ)) (s : State σ) : Prop
  | waits : s.At t [.watch w.task id w.channel] → (∀ x ∈ sends w.channel d, x.1 ≠ t) → Stands t id d s
  | hangs (m : Moment σ) : s.At t [.hang] → (∀ x ∈ sends w.channel d, x.1 ≠ t) → m ∈ d → m.thread = t →
    m.Waits st w id none → Stands t id d s
  | tells (m : Moment σ) (r : Except RuntimeFault Unit) : s.At t [.send w.channel (State.signalOf r)] →
    (∀ x ∈ sends w.channel d, x.1 ≠ t) → m ∈ d → m.thread = t → m.Waits st w id (some r) → Stands t id d s
  | told (m : Moment σ) (r : Except RuntimeFault Unit) : s.At t [] → (t, State.signalOf r) ∈ sends w.channel d →
    m ∈ d → m.thread = t → m.Waits st w id (some r) → Stands t id d s

/-- What a channel holds of what has been sent into it. -/
structure Carries (d : List (Moment σ)) (ch : Channel) : Prop where
  capacity : ch.capacity = w.ids.length
  senders : ch.senders + (sends w.channel d).length = w.ids.length
  queue : received w.channel d ++ ch.queue = (sends w.channel d).map Prod.snd
  closed : ch.closed = true → (received w.channel d).length = w.ids.length

/-- A crew at work: it is known where each of its threads stands, and nobody else sends into the channel. -/
structure Works (d : List (Moment σ)) (s : State σ) : Prop where
  carries : ∃ ch, s.channels[w.channel]? = some ch ∧ w.Carries d ch
  once : ((sends w.channel d).map Prod.fst).Nodup
  own : ∀ x ∈ sends w.channel d, x.1 ∈ w.threads
  stands : ∀ n id, w.ids[n]? = some id → w.Stands st (w.first + n) id d s

/-- What the thread is left to do that receives the signals of a crew: it may have to wait for the crew and to
return from the launch before, and it may be gone. -/
inductive Receives (d : List (Moment σ)) : List Job → Prop
  | joins (k : Ticket) (watcher : Option (ThreadId × PromiseId)) (l : Launch) (js : List Job) :
    k.task.instances = w.ids.length → Spares w.channel js → received w.channel d = [] →
    Receives d (.join w.threads :: .launched k watcher l w.channel :: js)
  | returns (k : Ticket) (watcher : Option (ThreadId × PromiseId)) (l : Launch) (js : List Job) :
    k.task.instances = w.ids.length → Spares w.channel js → received w.channel d = [] →
    w.ids.length ≤ (sends w.channel d).length → Receives d (.launched k watcher l w.channel :: js)
  | drains (front : List Job) (describe : String) (left : Nat) : Spares w.channel front →
    left + (received w.channel d).length = w.ids.length → Receives d (front ++ [.drain w.channel describe left])
  | gone (js : List Job) : Spares w.channel js → Receives d js

/-- Besides the crew there is one thread that uses the channel. -/
structure Serves (d : List (Moment σ)) (s : State σ) (r : ThreadId) : Prop where
  outside : r ∉ w.threads
  receives : ∃ jobs, s.At r jobs ∧ w.Receives d jobs
  others : ∀ t u, s.threads[t]? = some u → t ∉ w.threads → t ≠ r → Spares w.channel u.jobs

section

variable {st : Settings σ} {w : Crew} {i t : ThreadId} {id : String} {x : Job} {d : List (Moment σ)} {s s' : State σ}

theorem mem_threads : t ∈ w.threads ↔ ∃ n id, w.ids[n]? = some id ∧ t = w.first + n := by
  unfold threads
  rw [List.mem_map]
  refine ⟨fun ⟨n, hn, ht⟩ => ?_, fun ⟨n, id, hid, ht⟩ => ?_⟩
  · exact ⟨n, _, List.getElem?_eq_getElem (List.mem_range.1 hn), ht.symm⟩
  · exact ⟨n, List.mem_range.2 (List.getElem?_eq_some_iff.1 hid).1, ht.symm⟩

theorem nodup_threads : w.threads.Nodup :=
  List.nodup_range.map fun _ _ h => Nat.add_left_cancel h

theorem length_threads : w.threads.length = w.ids.length := by
  unfold threads
  rw [List.length_map, List.length_range]

theorem Works.subset (hw : w.Works st d s) : (sends w.channel d).map Prod.fst ⊆ w.threads := by
  intro t ht
  obtain ⟨x, hx, rfl⟩ := List.mem_map.1 ht
  exact hw.own x hx

/-- As long as a thread of the crew has not sent its signal, not all have been sent. -/
theorem Works.sends_lt (hw : w.Works st d s) (ht : t ∈ w.threads) (hsilent : ∀ x ∈ sends w.channel d, x.1 ≠ t) :
    (sends w.channel d).length < w.ids.length := by
  have hnodup : (t :: (sends w.channel d).map Prod.fst).Nodup := by
    refine List.nodup_cons.2 ⟨fun h => ?_, hw.once⟩
    obtain ⟨x, hx, rfl⟩ := List.mem_map.1 h
    exact hsilent x hx rfl
  have hle := (List.subperm_of_subset hnodup (List.cons_subset.2 ⟨ht, hw.subset⟩)).length_le
  rwa [List.length_cons, List.length_map, length_threads] at hle

theorem Carries.received_le {ch : Channel} (h : w.Carries d ch) :
    (received w.channel d).length + ch.queue.length = (sends w.channel d).length := by
  have hqueue := congrArg List.length h.queue
  rwa [List.length_append, List.length_map] at hqueue

/-- A thread of the crew whose signal is still to be sent finds room for it, and somebody who may receive it. -/
theorem Works.room (hw : w.Works st d s) (ht : t ∈ w.threads) (hsilent : ∀ x ∈ sends w.channel d, x.1 ≠ t)
    {ch : Channel} (hch : w.Carries d ch) : ch.closed = false ∧ ch.queue.length < ch.capacity := by
  have hlt := hw.sends_lt ht hsilent
  have hle := hch.received_le
  rw [hch.capacity]
  refine ⟨Bool.eq_false_iff.2 fun hclosed => ?_, by omega⟩
  have := hch.closed hclosed
  omega

/-- Once every thread of the crew has ended, each of them has sent a signal. -/
theorem Works.complete (hw : w.Works st d s) (hfinished : ∀ t ∈ w.threads, s.finished t = true) :
    ((sends w.channel d).map Prod.fst).Perm w.threads := by
  refine (List.perm_ext_iff_of_nodup hw.once nodup_threads).2 fun t => ⟨fun ht => hw.subset ht, fun ht => ?_⟩
  have hended := hfinished t ht
  obtain ⟨n, id, hid, rfl⟩ := mem_threads.1 ht
  have hbusy : ∀ {j : Job}, ¬s.At (w.first + n) [j] := by
    rintro j ⟨u, hu, hjobs⟩
    unfold State.finished at hended
    rw [hu, Option.all_some] at hended
    unfold Thread.finished at hended
    rw [hjobs] at hended
    cases hended
  cases hw.stands n id hid with
  | waits hat | hangs m hat | tells m r hat => exact absurd hat hbusy
  | told m r hat hsent => exact List.mem_map.2 ⟨_, hsent, rfl⟩

/-- Once there are as many signals as threads in the crew, each of them has sent one. -/
theorem Works.full (hw : w.Works st d s) (hall : w.ids.length ≤ (sends w.channel d).length) :
    ((sends w.channel d).map Prod.fst).Perm w.threads := by
  refine (List.subperm_of_subset hw.once hw.subset).perm_of_length_le ?_
  rwa [List.length_map, length_threads]

/-! ### Steps of the crew -/

/-- What other threads do leaves a thread of the crew where it stands. -/
theorem Stands.other (hs : w.Stands st t id d s) (h : Stepped st i x s s') (hi : i ≠ t) :
    w.Stands st t id (d ++ [⟨s, i, x⟩]) s' := by
  have hsilent : (∀ y ∈ sends w.channel d, y.1 ≠ t) → ∀ y ∈ sends w.channel (d ++ [⟨s, i, x⟩]), y.1 ≠ t := by
    intro hsilent y hy
    rcases mem_sends_concat hy with hy | hy
    · exact hsilent y hy
    · exact hy ▸ hi
  cases hs with
  | waits hat hnone => exact .waits (h.at_other hi hat) (hsilent hnone)
  | hangs m hat hnone hm ht hwaits =>
    exact .hangs m (h.at_other hi hat) (hsilent hnone) (List.mem_append_left _ hm) ht hwaits
  | tells m r hat hnone hm ht hwaits =>
    exact .tells m r (h.at_other hi hat) (hsilent hnone) (List.mem_append_left _ hm) ht hwaits
  | told m r hat hsent hm ht hwaits =>
    refine .told m r (h.at_other hi hat) ?_ (List.mem_append_left _ hm) ht hwaits
    rw [sends_concat]
    exact List.mem_append_left _ hsent

/-- A thread of the crew waits for its container and sends what comes of that, once. -/
theorem Stands.step (hs : w.Stands st i id d s) (h : Stepped st i x s s') (hb : s.scope.broken = false)
    (hsafe : WaitsSafely st.env.runtime) (hduration : w.task.duration = .zero) :
    w.Stands st i id (d ++ [⟨s, i, x⟩]) s' ∧ (x = .watch w.task id w.channel ∧ s'.channels = s.channels ∨
      (∃ signal, x = .send w.channel signal) ∧ ∀ y ∈ sends w.channel d, y.1 ≠ i) := by
  have hmoment : (⟨s, i, x⟩ : Moment σ) ∈ d ++ [⟨s, i, x⟩] := List.mem_append_right _ (List.mem_singleton_self _)
  cases hs with
  | waits hat hnone =>
    obtain ⟨js, hjs⟩ := h.eq_cons hat
    obtain ⟨rfl, rfl⟩ := List.cons.inj hjs
    obtain ⟨hunbroken, hchannels, hat'⟩ :=
      State.watch_at st id w.channel hat.popped hb hsafe hduration
    have hresult : s' = (s.pop i).watch st i w.task id w.channel :=
      h.result.trans (State.endBroken_of_unbroken hunbroken i)
    rw [← hresult] at hat' hchannels
    have hnone' : ∀ y ∈ sends w.channel (d ++ [⟨s, i, .watch w.task id w.channel⟩]), y.1 ≠ i := by
      rw [sends_concat_of_none rfl]
      exact hnone
    refine ⟨?_, .inl ⟨rfl, hchannels⟩⟩
    rcases hreply : (st.env.runtime.watch w.task id s.scope.world).1 with _ | reply
    · rw [show (st.env.runtime.watch w.task id (s.pop i).scope.world).1 = none from hreply] at hat'
      exact .hangs _ hat' hnone' hmoment rfl ⟨rfl, by rw [hreply]; rfl⟩
    · rw [show (st.env.runtime.watch w.task id (s.pop i).scope.world).1 = some reply from hreply] at hat'
      exact .tells _ reply.result hat' hnone' hmoment rfl ⟨rfl, by rw [hreply]; rfl⟩
  | hangs m hat =>
    obtain ⟨js, hjs⟩ := h.eq_cons hat
    obtain ⟨rfl, -⟩ := List.cons.inj hjs
    cases h.ready
  | tells m r hat hnone hm ht hwaits =>
    obtain ⟨js, hjs⟩ := h.eq_cons hat
    obtain ⟨rfl, rfl⟩ := List.cons.inj hjs
    refine ⟨.told m r ?_ ?_ (List.mem_append_left _ hm) ht hwaits, .inr ⟨⟨_, rfl⟩, hnone⟩⟩
    · rw [h.of_steady rfl hb]
      exact State.At.of_threads hat.popped rfl
    · rw [sends_concat]
      simp [Job.sends?]
  | told m r hat =>
    obtain ⟨js, hjs⟩ := h.eq_cons hat
    cases hjs

/-- As long as nothing is sent, it matters only what becomes of the channel and of the threads of the crew. -/
theorem Works.unsent (hw : w.Works st d s) {d' : List (Moment σ)} (hsent : sends w.channel d' = sends w.channel d)
    (hcarries : ∃ ch, s'.channels[w.channel]? = some ch ∧ w.Carries d' ch)
    (hstands : ∀ n id, w.ids[n]? = some id → w.Stands st (w.first + n) id d' s') : w.Works st d' s' := by
  refine ⟨hcarries, ?_, ?_, hstands⟩
  · rw [hsent]
    exact hw.once
  · rw [hsent]
    exact hw.own

/-- As long as nothing is received either, the channel holds what it held. -/
theorem Works.quiet (hw : w.Works st d s) {d' : List (Moment σ)} (hsent : sends w.channel d' = sends w.channel d)
    (hreceived : received w.channel d' = received w.channel d)
    (hchannel : s'.channels[w.channel]? = s.channels[w.channel]?)
    (hstands : ∀ n id, w.ids[n]? = some id → w.Stands st (w.first + n) id d' s') : w.Works st d' s' := by
  obtain ⟨ch, hch, hcapacity, hsenders, hqueue, hclosed⟩ := hw.carries
  refine hw.unsent hsent ⟨ch, hchannel.trans hch, hcapacity, ?_, ?_, ?_⟩ hstands
  · rwa [hsent]
  · rwa [hsent, hreceived]
  · rwa [hreceived]

theorem Works.stands_other (hw : w.Works st d s) (h : Stepped st i x s s') (hi : i ∉ w.threads) :
    ∀ n id, w.ids[n]? = some id → w.Stands st (w.first + n) id (d ++ [⟨s, i, x⟩]) s' := fun n id hid =>
  (hw.stands n id hid).other h fun heq => hi (heq ▸ mem_threads.2 ⟨n, id, hid, rfl⟩)

/-- A thread outside the crew that neither sends nor receives leaves the crew as it is. -/
theorem Works.aside (hw : w.Works st d s) (h : Stepped st i x s s') (hi : i ∉ w.threads)
    (hsends : x.sends? w.channel = none) (hreceives : (⟨s, i, x⟩ : Moment σ).receives? w.channel = none)
    (hchannel : s'.channels[w.channel]? = s.channels[w.channel]?) : w.Works st (d ++ [⟨s, i, x⟩]) s' :=
  hw.quiet (sends_concat_of_none hsends) (received_concat_of_none hreceives) hchannel (hw.stands_other h hi)

/-- A thread of the crew keeps the crew at work. -/
theorem Works.step (hw : w.Works st d s) (h : Stepped st i x s s') (hb : s.scope.broken = false)
    (hsafe : WaitsSafely st.env.runtime) (hduration : w.task.duration = .zero) (hi : i ∈ w.threads) :
    w.Works st (d ++ [⟨s, i, x⟩]) s' := by
  obtain ⟨n, id, hid, rfl⟩ := mem_threads.1 hi
  obtain ⟨hstands, hx⟩ := (hw.stands n id hid).step h hb hsafe hduration
  have hall : ∀ n' id', w.ids[n']? = some id' → w.Stands st (w.first + n') id' (d ++ [⟨s, w.first + n, x⟩]) s' := by
    intro n' id' hid'
    by_cases hn : n = n'
    · subst hn
      obtain rfl := Option.some.inj (hid.symm.trans hid')
      exact hstands
    · exact (hw.stands n' id' hid').other h fun heq => hn (Nat.add_left_cancel heq)
  rcases hx with ⟨rfl, hchannels⟩ | ⟨⟨signal, rfl⟩, hsilent⟩
  · exact hw.quiet (sends_concat_of_none rfl) (received_concat_of_none rfl) (by rw [hchannels]) hall
  · obtain ⟨ch, hch, hcarries⟩ := hw.carries
    have hlt := hw.sends_lt hi hsilent
    have hopen := (hw.room hi hsilent hcarries).1
    have hchannels : s'.channels[w.channel]? =
        some { ch with queue := ch.queue ++ [signal], senders := ch.senders - 1 } := by
      rw [h.of_steady rfl hb]
      show (s.channels.modify w.channel _)[w.channel]? = _
      rw [List.getElem?_modify_eq, hch, Option.map_eq_map, Option.map_some, hopen]
      rfl
    have hsent : sends w.channel (d ++ [⟨s, w.first + n, .send w.channel signal⟩]) =
        sends w.channel d ++ [(w.first + n, signal)] := by
      rw [sends_concat]
      simp [Job.sends?]
    have hreceived := received_concat_of_none (c := w.channel) (d := d)
      (m := ⟨s, w.first + n, .send w.channel signal⟩) rfl
    obtain ⟨hcapacity, hsenders, hqueue, hclosed⟩ := hcarries
    refine ⟨⟨_, hchannels, hcapacity, ?_, ?_, ?_⟩, ?_, ?_, hall⟩
    · rw [hsent, List.length_append, List.length_singleton]
      show ch.senders - 1 + _ = _
      omega
    · rw [hsent, hreceived, List.map_append, ← hqueue, List.append_assoc]
      rfl
    · rwa [hreceived]
    · rw [hsent, List.map_append]
      refine List.Nodup.append hw.once (List.nodup_singleton _) fun t ht ht' => ?_
      obtain ⟨y, hy, rfl⟩ := List.mem_map.1 ht
      exact hsilent y hy (List.mem_singleton.1 ht')
    · rw [hsent]
      intro y hy
      rcases List.mem_append.1 hy with hy | hy
      · exact hw.own y hy
      · obtain rfl := List.mem_singleton.1 hy
        exact hi

/-! ### Steps of the thread that receives, and of the others -/

theorem Receives.mono {jobs : List Job} (hr : w.Receives d jobs) {d' : List (Moment σ)}
    (hreceived : received w.channel d' = received w.channel d)
    (hsent : (sends w.channel d).length ≤ (sends w.channel d').length) : w.Receives d' jobs := by
  cases hr with
  | joins k watcher l js hk hjs hnone => exact .joins k watcher l js hk hjs (hreceived.trans hnone)
  | returns k watcher l js hk hjs hnone hall =>
    exact .returns k watcher l js hk hjs (hreceived.trans hnone) (hall.trans hsent)
  | drains front describe left hfront hleft => exact .drains front describe left hfront (by rwa [hreceived])
  | gone _ hjs => exact .gone _ hjs

theorem Works.lt (hw : w.Works st d s) : w.channel < s.channels.length := by
  obtain ⟨ch, hch, -⟩ := hw.carries
  exact (List.getElem?_eq_some_iff.1 hch).1

variable {r : ThreadId}

/-- A thread of the crew leaves the others as they are. -/
theorem Serves.crew (hr : w.Serves d s r) (hw : w.Works st d s) (h : Stepped st i x s s')
    (hb : s.scope.broken = false) (hsafe : WaitsSafely st.env.runtime) (hduration : w.task.duration = .zero)
    (hi : i ∈ w.threads) : w.Serves (d ++ [⟨s, i, x⟩]) s' r := by
  obtain ⟨jobs, hat, hreceives⟩ := hr.receives
  have hx : (⟨s, i, x⟩ : Moment σ).receives? w.channel = none ∧
      ∀ new spawned, x.Yields st s s' new spawned → spawned = [] := by
    obtain ⟨n, id, hid, rfl⟩ := mem_threads.1 hi
    rcases ((hw.stands n id hid).step h hb hsafe hduration).2 with ⟨rfl, -⟩ | ⟨⟨signal, rfl⟩, -⟩
    · exact ⟨rfl, fun new spawned hy => hy.1⟩
    · exact ⟨rfl, fun new spawned hy => hy.2⟩
  refine ⟨hr.outside, ⟨jobs, h.at_other (fun heq => hr.outside (heq ▸ hi)) hat,
    hreceives.mono (received_concat_of_none hx.1) ?_⟩, fun t u hu ht htr => ?_⟩
  · rw [sends_concat, List.length_append]
    exact Nat.le_add_right _ _
  · have hti : t ≠ i := fun heq => ht (heq ▸ hi)
    refine h.spares hu hti (fun v hv => hr.others t v hv ht htr) fun new spawned hy jobs hjobs => ?_
    rw [hx.2 new spawned hy] at hjobs
    cases hjobs

/-- What a job that does not use the channel leaves and starts does not use it either. -/
theorem Serves.others_step (hr : w.Serves d s r) (h : Stepped st i x s s') (hx : x.channel? ≠ some w.channel)
    (hc : w.channel < s.channels.length) :
    ∀ t u, s'.threads[t]? = some u → t ∉ w.threads → t ≠ r → Spares w.channel u.jobs := by
  intro t u hu ht htr
  by_cases hti : t = i
  · subst hti
    obtain ⟨v, js, -, -, -, hv, hjobs, -⟩ := h.moves
    have hspares := hr.others t v hv ht htr
    rw [hjobs] at hspares
    rcases h.front ⟨v, hv, hjobs⟩ hx hc with hat | ⟨new, hnew, hat⟩
    · rw [State.At.eq ⟨u, hu, rfl⟩ hat]
      exact Spares.nil
    · rw [State.At.eq ⟨u, hu, rfl⟩ hat]
      exact hnew.append fun j hj => hspares j (List.mem_cons_of_mem x hj)
  · exact h.spares hu hti (fun v hv => hr.others t v hv ht htr) fun new spawned hy => hy.spares hx hc

theorem Works.thread_lt (hw : w.Works st d s) (ht : t ∈ w.threads) : t < s.threads.length := by
  obtain ⟨n, id, hid, rfl⟩ := mem_threads.1 ht
  cases hw.stands n id hid with
  | waits hat | hangs m hat | tells m r hat | told m r hat =>
    obtain ⟨u, hu, -⟩ := hat
    exact (List.getElem?_eq_some_iff.1 hu).1

/-- When a launch returns whose crew is done, a new thread begins to receive. -/
theorem Serves.returned {k : Ticket} {watcher : Option (ThreadId × PromiseId)} {l : Launch} {js : List Job}
    (hr : w.Serves d s i) (hw : w.Works st d s) (h : Stepped st i (.launched k watcher l w.channel) s s')
    (hb : s.scope.broken = false) (hat : s.At i (.launched k watcher l w.channel :: js))
    (hk : k.task.instances = w.ids.length) (hjs : Spares w.channel js) (hnone : received w.channel d = []) :
    w.Works st (d ++ [⟨s, i, .launched k watcher l w.channel⟩]) s' ∧
      w.Serves (d ++ [⟨s, i, .launched k watcher l w.channel⟩]) s' s.threads.length := by
  have hresult : s' = (s.pop i).launched i k watcher l w.channel := h.of_steady rfl hb
  obtain ⟨hmoves, ps, hboard⟩ := State.launched_waits i (s.pop i) k watcher l w.channel
  rw [← hresult] at hmoves hboard
  have hchannels : s'.channels = s.channels := congrArg Board.channels hboard
  obtain ⟨hat', hstarted⟩ := hmoves.leaves hat.popped
  rw [pop_length] at hstarted hat'
  refine ⟨hw.aside h hr.outside rfl rfl (by rw [hchannels]), ?_, ?_, fun t u hu ht htr => ?_⟩
  · exact fun hmem => Nat.lt_irrefl _ (hw.thread_lt hmem)
  · refine ⟨_, ⟨_, hstarted 0, rfl⟩, .drains [] k.task.describe k.task.instances Spares.nil ?_⟩
    rw [received_concat_of_none rfl, hnone]
    exact hk
  · rcases hmoves.thread_cases hat.popped hu with ⟨-, hjobs⟩ | ⟨hti, hold⟩ | ⟨n, jobs, rfl, hjobs, rfl⟩
    · rw [hjobs]
      exact (spares_of_none (channel?_awaits k watcher l _)).append hjs
    · exact hr.others t u ((List.getElem?_modify_ne _ _ (Ne.symm hti)).symm.trans hold) ht hti
    · rw [pop_length] at htr
      obtain ⟨n, rfl⟩ := Nat.exists_eq_succ_of_ne_zero fun hn : n = 0 => htr (by rw [hn]; rfl)
      exact spares_of_none (channel?_followers k l w.channel jobs (List.mem_of_getElem? hjobs))

/-- The thread that receives takes the next signal, and closes the channel only after the last one. -/
theorem Serves.drained {describe : String} {left : Nat} (hr : w.Serves d s i) (hw : w.Works st d s)
    (h : Stepped st i (.drain w.channel describe left) s s') (hat : s.At i [.drain w.channel describe left])
    (hleft : left + (received w.channel d).length = w.ids.length) :
    w.Works st (d ++ [⟨s, i, .drain w.channel describe left⟩]) s' ∧
      w.Serves (d ++ [⟨s, i, .drain w.channel describe left⟩]) s' i := by
  obtain ⟨new, spawned, ⟨hspawned, hy⟩, hat'⟩ := h.at_self hat
  replace hat' : s'.At i new := by simpa [Job.steady] using hat'
  obtain ⟨ch, hch, hcarries⟩ := hw.carries
  rw [hch, Option.elim_some] at hy
  have hsent := sends_concat_of_none (c := w.channel) (d := d) (m := ⟨s, i, .drain w.channel describe left⟩) rfl
  have hgoes : w.Receives (d ++ [⟨s, i, .drain w.channel describe left⟩]) new →
      w.Serves (d ++ [⟨s, i, .drain w.channel describe left⟩]) s' i := by
    intro hreceives
    refine ⟨hr.outside, ⟨new, hat', hreceives⟩, fun t u hu ht hti => ?_⟩
    refine h.spares hu hti (fun v hv => hr.others t v hv ht hti) fun new spawned hy jobs hjobs => ?_
    rw [hy.1] at hjobs
    cases hjobs
  have hchannel : ∀ f, s'.channels = s.channels.modify w.channel f → s'.channels[w.channel]? = some (f ch) := by
    intro f hf
    rw [hf, List.getElem?_modify_eq, hch]
    rfl
  have hstands := hw.stands_other h hr.outside
  obtain ⟨hcapacity, hsenders, hqueue, hclosed'⟩ := hcarries
  rcases left with _ | left
  · obtain ⟨rfl, -, hmodified⟩ := hy
    have hreceived := received_concat_of_none (c := w.channel) (d := d) (m := ⟨s, i, .drain w.channel describe 0⟩) rfl
    refine ⟨hw.unsent hsent ⟨_, hchannel _ hmodified, hcapacity, ?_, ?_, fun _ => ?_⟩ hstands,
      hgoes (.gone [] Spares.nil)⟩
    · rwa [hsent]
    · rwa [hsent, hreceived]
    · rwa [hreceived, ← Nat.zero_add (received w.channel d).length]
  rcases hsignals : ch.queue with _ | ⟨signal, rest⟩
  · -- nothing is left to be sent, so as much has been received as there is
    have hready : (decide (left + 1 ≠ 0) && (s.channels[w.channel]?).any fun ch =>
        ch.queue.isEmpty && ch.senders ≠ 0) = false := h.ready
    rw [hch, Option.any_some, hsignals] at hready
    have hdone : ch.senders = 0 := by simpa using hready
    have hlength := congrArg List.length hqueue
    rw [hsignals, List.append_nil, List.length_map] at hlength
    omega
  have hreceived : received w.channel (d ++ [⟨s, i, .drain w.channel describe (left + 1)⟩]) =
      received w.channel d ++ [signal] := by
    rw [received_concat]
    simp [Moment.receives?, hch, hsignals]
  have hleft' : left + (received w.channel (d ++ [⟨s, i, .drain w.channel describe (left + 1)⟩])).length =
      w.ids.length := by
    rw [hreceived, List.length_append, List.length_singleton]
    omega
  have hnext : ∀ front, new = front ++ [.drain w.channel describe left] → Spares w.channel front →
      s'.channels = s.channels.modify w.channel (fun ch => { ch with queue := rest }) →
      w.Works st (d ++ [⟨s, i, .drain w.channel describe (left + 1)⟩]) s' ∧
        w.Serves (d ++ [⟨s, i, .drain w.channel describe (left + 1)⟩]) s' i := by
    rintro front rfl hfront hmodified
    have hcarries : w.Carries (d ++ [⟨s, i, .drain w.channel describe (left + 1)⟩]) { ch with queue := rest } := by
      refine ⟨hcapacity, by rwa [hsent], ?_, fun hclosed => ?_⟩
      · rw [hsent, hreceived, ← hqueue, hsignals, List.append_assoc]
        rfl
      · have := hclosed' hclosed
        omega
    exact ⟨hw.unsent hsent ⟨_, hchannel _ hmodified, hcarries⟩ hstands,
      hgoes (.drains front describe left hfront hleft')⟩
  rw [hsignals] at hy
  rcases signal with _ | fault
  · exact hnext [] hy.1 Spares.nil hy.2.2
  · exact hnext [.failed describe fault] hy.1 (spares_of_none (by simp [Job.channel?])) hy.2.2

/-- A job that does not use the channel changes only what is left to be done. -/
theorem Serves.aside (hr : w.Serves d s i) (hw : w.Works st d s) (h : Stepped st i x s s')
    (hb : s.scope.broken = false) (hx : x.channel? ≠ some w.channel)
    (hgoes : ∀ jobs, s'.At i jobs → w.Receives (d ++ [⟨s, i, x⟩]) jobs) :
    w.Works st (d ++ [⟨s, i, x⟩]) s' ∧ w.Serves (d ++ [⟨s, i, x⟩]) s' i := by
  refine ⟨hw.aside h hr.outside (Job.sends?_of_spared hx) (Moment.receives?_of_spared hx)
    (h.channel_other hb hx hw.lt), hr.outside, ?_, hr.others_step h hx hw.lt⟩
  obtain ⟨v, _, v', _, _, hv, -, -, hth, -⟩ := h.moves
  have hself := (Stepped.getElem?_threads hth (List.getElem?_eq_some_iff.1 hv).1).1
  exact ⟨v'.jobs, ⟨v', hself, rfl⟩, hgoes v'.jobs ⟨v', hself, rfl⟩⟩

/-- The thread that receives the signals goes on, or hands this over to another one. -/
theorem Serves.step (hr : w.Serves d s i) (hw : w.Works st d s) (h : Stepped st i x s s')
    (hb : s.scope.broken = false) :
    w.Works st (d ++ [⟨s, i, x⟩]) s' ∧ ∃ r, w.Serves (d ++ [⟨s, i, x⟩]) s' r := by
  obtain ⟨jobs, hat, hreceives⟩ := hr.receives
  obtain ⟨rest, hcons⟩ := h.eq_cons hat
  -- a job in front of the one that receives leaves it where it is, unless the thread breaks off
  have hfront : x.channel? ≠ some w.channel →
      (∀ new, Spares w.channel new → w.Receives (d ++ [⟨s, i, x⟩]) (new ++ rest)) →
      w.Works st (d ++ [⟨s, i, x⟩]) s' ∧ ∃ r, w.Serves (d ++ [⟨s, i, x⟩]) s' r := by
    intro hx hgoes
    refine (hr.aside hw h hb hx fun jobs' hjobs => ?_).imp_right fun hserves => ⟨i, hserves⟩
    rcases h.front (hcons ▸ hat) hx hw.lt with hat' | ⟨new, hnew, hat'⟩
    · rw [State.At.eq hjobs hat']
      exact .gone [] Spares.nil
    · rw [State.At.eq hjobs hat']
      exact hgoes new hnew
  cases hreceives with
  | joins k watcher l js hk hjs hnone =>
    obtain ⟨rfl, -⟩ := List.cons.inj hcons
    refine (hr.aside hw h hb (Option.some_ne_none _).symm fun jobs hjobs => ?_).imp_right fun hserves => ⟨i, hserves⟩
    rw [h.of_steady rfl hb] at hjobs
    rw [State.At.eq hjobs hat.popped]
    have hfinished : ∀ t ∈ w.threads, s.finished t = true := by simpa [Job.blocked] using h.ready
    have hlength := (hw.complete hfinished).length_eq
    rw [List.length_map, length_threads] at hlength
    refine .returns k watcher l js hk hjs ((received_concat_of_none rfl).trans hnone) ?_
    rw [sends_concat_of_none rfl]
    exact hlength.ge
  | returns k watcher l js hk hjs hnone =>
    obtain ⟨rfl, -⟩ := List.cons.inj hcons
    exact (hr.returned hw h hb hat hk hjs hnone).imp_right fun hserves => ⟨_, hserves⟩
  | drains front describe left hspares hleft =>
    rcases front with _ | ⟨f, front⟩
    · obtain ⟨rfl, -⟩ := List.cons.inj hcons
      exact (hr.drained hw h hat hleft).imp_right fun hserves => ⟨i, hserves⟩
    · rw [List.cons_append] at hcons
      obtain ⟨rfl, rfl⟩ := List.cons.inj hcons
      have hx := hspares f List.mem_cons_self
      refine hfront hx fun new hnew => ?_
      rw [← List.append_assoc]
      refine .drains _ describe left (hnew.append fun j hj => hspares j (List.mem_cons_of_mem f hj)) ?_
      rwa [received_concat_of_none (Moment.receives?_of_spared hx)]
  | gone _ hjs =>
    rw [hcons] at hjs
    exact hfront (hjs x List.mem_cons_self) fun new hnew =>
      .gone _ (hnew.append fun j hj => hjs j (List.mem_cons_of_mem x hj))

/-! ### Runs -/

theorem Stands.of_threads (hs : w.Stands st t id d s) (h : s'.threads = s.threads) : w.Stands st t id d s' := by
  cases hs with
  | waits hat hnone => exact .waits (hat.of_threads h) hnone
  | hangs m hat hnone hm ht hwaits => exact .hangs m (hat.of_threads h) hnone hm ht hwaits
  | tells m r hat hnone hm ht hwaits => exact .tells m r (hat.of_threads h) hnone hm ht hwaits
  | told m r hat hsent hm ht hwaits => exact .told m r (hat.of_threads h) hsent hm ht hwaits

/-- Whatever threads do, a crew stays at work and there is one thread that may receive its signals. -/
theorem works_of_chronicle {b : State σ} (hd : Chronicle st b d s) (hb : b.scope.broken = false)
    (hsafe : WaitsSafely st.env.runtime) (hduration : w.task.duration = .zero) (hw : w.Works st [] b)
    (hr : ∃ r, w.Serves [] b r) : w.Works st d s ∧ ∃ r, w.Serves d s r := by
  refine hd.invariant (P := fun d s => w.Works st d s ∧ ∃ r, w.Serves d s r) hb ⟨hw, hr⟩ ?_ ?_
  · rintro d i x s s' ⟨hw, r, hr⟩ h hb
    by_cases hi : i ∈ w.threads
    · exact ⟨hw.step h hb hsafe hduration hi, r, hr.crew hw h hb hsafe hduration hi⟩
    by_cases hir : i = r
    · subst hir
      exact hr.step hw h hb
    obtain ⟨v, js, -, -, -, hv, hjobs, -⟩ := h.moves
    have hx : x.channel? ≠ some w.channel := hr.others i v hv hi hir x (hjobs ▸ List.mem_cons_self)
    have hreceives := Moment.receives?_of_spared (m := ⟨s, i, x⟩) hx
    have hsends := Job.sends?_of_spared hx
    obtain ⟨jobs, hat, hjobs⟩ := hr.receives
    refine ⟨hw.aside h hi hsends hreceives (h.channel_other hb hx hw.lt), r, hr.outside,
      ⟨jobs, h.at_other hir hat, hjobs.mono (received_concat_of_none hreceives) ?_⟩, hr.others_step h hx hw.lt⟩
    exact (congrArg List.length (sends_concat_of_none hsends)).ge
  · rintro d s time ⟨hw, r, hr⟩ - -
    obtain ⟨jobs, hat, hjobs⟩ := hr.receives
    exact ⟨⟨hw.carries, hw.once, hw.own, fun n id hid => (hw.stands n id hid).of_threads rfl⟩,
      r, hr.outside, ⟨jobs, hat.of_threads rfl, hjobs⟩, hr.others⟩

/-- What has been sent is what came of the wait for a container. -/
theorem Works.told (hw : w.Works st d s) {signal : Signal} (hx : (t, signal) ∈ sends w.channel d) :
    ∃ n id m r, w.ids[n]? = some id ∧ t = w.first + n ∧ m ∈ d ∧ m.thread = t ∧ m.Waits st w id (some r) ∧
      signal = State.signalOf r := by
  obtain ⟨n, id, hid, rfl⟩ := mem_threads.1 (hw.own _ hx)
  cases hw.stands n id hid with
  | waits hat hnone => exact absurd rfl (hnone _ hx)
  | hangs m hat hnone => exact absurd rfl (hnone _ hx)
  | tells m r hat hnone => exact absurd rfl (hnone _ hx)
  | told m r hat hsent hm ht hwaits =>
    have heq := List.inj_on_of_nodup_map hw.once hx hsent rfl
    exact ⟨n, id, m, r, hid, rfl, hm, ht, hwaits, congrArg Prod.snd heq⟩

/-- No thread of the crew ever waits for the channel: it can go on, or has sent its signal, or waits for a container
without an end. -/
theorem Works.goesOn (hw : w.Works st d s) {n : Nat} (hid : w.ids[n]? = some id) :
    s.enabled (w.first + n) = true ∨
      s.At (w.first + n) [] ∧ (∃ signal, (w.first + n, signal) ∈ sends w.channel d) ∨
      s.At (w.first + n) [.hang] ∧ ∃ m ∈ d, m.thread = w.first + n ∧ m.Waits st w id none := by
  cases hw.stands n id hid with
  | waits hat => exact .inl (hat.enabled rfl)
  | hangs m hat hnone hm ht hwaits => exact .inr (.inr ⟨hat, m, hm, ht, hwaits⟩)
  | tells m r hat hnone =>
    obtain ⟨ch, hch, hcarries⟩ := hw.carries
    obtain ⟨-, hroom⟩ := hw.room (mem_threads.2 ⟨n, id, hid, rfl⟩) hnone hcarries
    refine .inl (hat.enabled ?_)
    unfold Job.blocked
    simp [hch, hroom]
  | told m r hat hsent => exact .inr (.inl ⟨hat, _, hsent⟩)

/-- A launch that waits for its crew returns when everything has been sent and nothing has been received. -/
theorem Serves.full (hr : w.Serves d s r) (hw : w.Works st d s) {k : Ticket} {watcher : Option (ThreadId × PromiseId)}
    {l : Launch} {js : List Job} (hat : s.At t (.launched k watcher l w.channel :: js)) :
    received w.channel d = [] ∧ (sends w.channel d).length = w.ids.length := by
  have ht : t ∉ w.threads := by
    intro ht
    obtain ⟨n, id, hid, rfl⟩ := mem_threads.1 ht
    cases hw.stands n id hid with
    | waits hat' | hangs m hat' | tells m r hat' | told m r hat' => cases State.At.eq hat hat'
  have hspares : ¬Spares w.channel (.launched k watcher l w.channel :: js) := fun h => h _ List.mem_cons_self rfl
  by_cases htr : t = r
  · subst htr
    obtain ⟨jobs, hat', hjobs⟩ := hr.receives
    have heq := State.At.eq hat hat'
    cases hjobs with
    | joins => cases heq
    | returns k' watcher' l' js' hk hjs hnone hall =>
      obtain ⟨ch, -, hcarries⟩ := hw.carries
      have := hcarries.senders
      exact ⟨hnone, by omega⟩
    | drains front describe left hfront =>
      rcases front with _ | ⟨f, front⟩
      · cases heq
      · obtain ⟨rfl, -⟩ := List.cons.inj heq
        exact absurd rfl (hfront _ List.mem_cons_self)
    | gone _ hjs => exact absurd (heq ▸ hjs) hspares
  · obtain ⟨u, hu, hjobs⟩ := hat
    exact absurd (hjobs ▸ hr.others t u hu ht htr) hspares

end

end Crew

/-! ## The crew of a launch -/

/-- The crew of a launch that is about to be watched. -/
def State.crew (s : State σ) (k : Ticket) (l : Launch) : Crew :=
  ⟨k.task, l.containers, s.threads.length, s.channels.length⟩

section

variable {i : ThreadId} {k : Ticket} {watcher : Option (ThreadId × PromiseId)} {l : Launch} {s : State σ}
  {js : List Job}

/-- A launch whose containers are watched opens a channel and starts their crew.  Its thread waits for the crew, or
for what it starts besides the thread that receives. -/
theorem State.created_watched (i : ThreadId) (s : State σ) (k : Ticket) (watcher : Option (ThreadId × PromiseId))
    (hl : l.signals = none) :
    State.Moves [] i
        (if k.task.isAsync then k.awaits watcher l (s.threads.length + l.containers.length + 1)
          else [.join (s.crew k l).threads, .launched k watcher l s.channels.length])
        (k.observers l s.channels.length ++ if k.task.isAsync then k.followers l s.channels.length else [])
        s (s.created i k watcher l) ∧
      (s.created i k watcher l).channels =
        s.channels ++ [⟨[], l.containers.length, k.task.instances, false⟩] := by
  have hopen : State.Moves [] i [] [] s (s.openChannel ⟨[], l.containers.length, k.task.instances, false⟩) :=
    .of_eq rfl (.refl _)
  obtain ⟨hobserve, hboard⟩ := observe_moves i
    (s.openChannel ⟨[], l.containers.length, k.task.instances, false⟩) k s.channels.length l.containers
  have hlength := observe_length
    (s.openChannel ⟨[], l.containers.length, k.task.instances, false⟩) k s.channels.length l.containers
  unfold State.created
  rw [hl]
  simp only []
  generalize (l.containers.foldl (fun s' id => s'.spawn [.watch k.task id s.channels.length])
    (s.openChannel ⟨[], l.containers.length, k.task.instances, false⟩)) = s₂ at hobserve hboard hlength ⊢
  have hmoves := hopen.trans hobserve
  have hchannels : s₂.channels = s.channels ++ [⟨[], l.containers.length, k.task.instances, false⟩] :=
    congrArg Board.channels hboard
  split_ifs
  · obtain ⟨hlaunched, ps, hboard'⟩ := launched_waits i s₂ k watcher l s.channels.length
    have h := hmoves.trans hlaunched
    rw [hlength, List.append_nil, List.append_nil, List.nil_append] at h
    exact ⟨h, (congrArg Board.channels hboard').trans hchannels⟩
  · have h := hmoves.then_push [.join (s.crew k l).threads, .launched k watcher l s.channels.length]
    rw [List.append_nil]
    exact ⟨h, hchannels⟩

/-- The crew of a launch that came off is at work. -/
theorem created_works (st : Settings σ) (hat : s.At i js) (hl : l.signals = none)
    (hfull : k.task.instances = l.containers.length) :
    (s.crew k l).Works st [] (s.created i k watcher l) := by
  obtain ⟨hmoves, hchannels⟩ := State.created_watched i s k watcher hl
  have hch : (s.created i k watcher l).channels[s.channels.length]? =
      some ⟨[], l.containers.length, k.task.instances, false⟩ := by
    rw [hchannels]
    exact List.getElem?_concat_length
  refine ⟨⟨_, hch, hfull, rfl, rfl, fun h => nomatch h⟩, List.nodup_nil, (fun x hx => nomatch hx), fun n id hid => ?_⟩
  have hn : n < (k.observers l s.channels.length).length := by
    unfold Ticket.observers
    rw [List.length_map]
    exact (List.getElem?_eq_some_iff.1 hid).1
  have hstarted := (hmoves.leaves hat).2 n
  rw [List.getElem?_append_left hn] at hstarted
  unfold Ticket.observers at hstarted
  rw [List.getElem?_map, show l.containers[n]? = some id from hid] at hstarted
  exact .waits ⟨_, hstarted, rfl⟩ fun x hx => nomatch hx

/-- The signals of a launch are received by its thread, once it has returned, or by a thread of their own. -/
theorem created_serves (hat : s.At i js) (hs : s.Opened) (hl : l.signals = none)
    (hfull : k.task.instances = l.containers.length) :
    ∃ r, (s.crew k l).Serves [] (s.created i k watcher l) r := by
  obtain ⟨hmoves, -⟩ := State.created_watched i s k watcher hl
  obtain ⟨hat', hstarted⟩ := hmoves.leaves hat
  have hlength : (k.observers l s.channels.length).length = l.containers.length := List.length_map _
  have hbehind : ∀ {n}, s.threads.length + n ∉ (s.crew k l).threads → l.containers.length ≤ n := by
    intro n hn
    by_contra hlt
    exact hn (Crew.mem_threads.2 ⟨n, _, List.getElem?_eq_getElem (Nat.lt_of_not_le hlt), rfl⟩)
  by_cases hasync : k.task.isAsync = true
  · rw [if_pos hasync, if_pos hasync] at hmoves
    rw [if_pos hasync] at hstarted
    refine ⟨s.threads.length + l.containers.length, fun h => ?_, ?_, fun t u hu ht htr => ?_⟩
    · obtain ⟨n, id, hid, hn⟩ := Crew.mem_threads.1 h
      exact absurd (List.getElem?_eq_some_iff.1 hid).1 (Nat.add_left_cancel hn).le.not_gt
    · have hreceiver := hstarted l.containers.length
      rw [List.getElem?_append_right hlength.le, hlength, Nat.sub_self] at hreceiver
      exact ⟨_, ⟨_, hreceiver, rfl⟩, .drains [] _ _ Spares.nil hfull⟩
    · rcases hmoves.thread_cases hat hu with ⟨-, hjobs⟩ | ⟨-, hold⟩ | ⟨n, jobs, rfl, hjobs, rfl⟩
      · rw [hjobs]
        exact (spares_of_none (channel?_awaits k watcher l _)).append (hs.spares hat)
      · exact hs.spares ⟨u, hold, rfl⟩
      · obtain ⟨n, rfl⟩ := Nat.exists_eq_add_of_le (hbehind ht)
        obtain ⟨n, rfl⟩ := Nat.exists_eq_succ_of_ne_zero fun hn : n = 0 => htr (by rw [hn]; rfl)
        rw [List.getElem?_append_right (hlength.le.trans (Nat.le_add_right _ _)), hlength,
          Nat.add_sub_cancel_left] at hjobs
        exact spares_of_none (channel?_followers k l s.channels.length jobs (List.mem_of_getElem? hjobs))
  · rw [if_neg hasync] at hat'
    rw [if_neg hasync, if_neg hasync, List.append_nil] at hmoves
    refine ⟨i, fun h => ?_, ⟨_, hat', .joins k watcher l js hfull (hs.spares hat) rfl⟩, fun t u hu ht hti => ?_⟩
    · obtain ⟨v, hv, -⟩ := hat
      obtain ⟨n, id, -, rfl⟩ := Crew.mem_threads.1 h
      exact absurd (List.getElem?_eq_some_iff.1 hv).1 (Nat.le_add_right _ _).not_gt
    · rcases hmoves.thread_cases hat hu with ⟨rfl, -⟩ | ⟨-, hold⟩ | ⟨n, jobs, rfl, hjobs, rfl⟩
      · exact absurd rfl hti
      · exact hs.spares ⟨u, hold, rfl⟩
      · rw [List.getElem?_eq_none (hlength.le.trans (hbehind ht))] at hjobs
        cases hjobs

/-- A launch that came off goes on from here. -/
def State.watched (st : Settings σ) (i : ThreadId) (k : Ticket) (l : Launch) (s : State σ) : State σ :=
  (s.asked st k).created i k (s.spawnWatcher k).1 l

theorem State.Opened.asked (st : Settings σ) (hs : s.Opened) (hat : s.At i js) : (s.asked st k).Opened := by
  have hchannels : (s.asked st k).channels = s.channels := by
    unfold State.asked State.spawnWatcher
    split_ifs <;> rfl
  obtain ⟨u, hu, -⟩ := hat
  obtain ⟨n, hn⟩ := (State.asked_moves st i s k).threads u hu
  intro t ht j hj c hc
  rw [hchannels]
  rw [hn, List.nil_append] at ht
  rcases List.mem_append.1 ht with ht | ht
  · rcases List.mem_or_eq_of_mem_set ht with ht | rfl
    · exact hs t ht j hj c hc
    · exact hs u (List.mem_of_getElem? hu) j hj c hc
  · obtain ⟨jobs, hjobs, rfl⟩ := List.mem_map.1 ht
    rw [channel?_watchers k _ jobs hjobs j hj] at hc
    cases hc

theorem State.launch_watched (st : Settings σ) (i : ThreadId) (hcommand : k.task.command ≠ [])
    (hl : (s.scope.launch st.env k.task).1 = .ok l) (hb : (s.scope.launch st.env k.task).2.broken = false) :
    s.launch st i k = s.watched st i k l := by
  have hunbroken : ¬(s.asked st k).scope.broken = true := by
    show ¬(s.scope.launch st.env k.task).2.broken = true
    rw [hb]
    exact Bool.false_ne_true
  rw [State.launch_eq st i s k hcommand, if_neg hunbroken, hl]
  rfl

theorem State.watched_works (st : Settings σ) (hat : s.At i js) (hs : s.Opened) (hl : l.signals = none)
    (hfull : k.task.instances = l.containers.length) :
    ((s.asked st k).crew k l).Works st [] (s.watched st i k l) ∧
      ∃ r, ((s.asked st k).crew k l).Serves [] (s.watched st i k l) r :=
  have hasked := ((State.asked_moves st i s k).leaves hat).1
  ⟨created_works st hasked hl hfull, created_serves hasked (hs.asked st hat) hl hfull⟩

/-- A task that is waited for waits for the crew of its launch. -/
theorem State.watched_joins (st : Settings σ) (hat : s.At i js) (hl : l.signals = none)
    (hsync : k.task.isAsync = false) :
    (s.watched st i k l).At i (.join ((s.asked st k).crew k l).threads ::
      .launched k (s.spawnWatcher k).1 l ((s.asked st k).crew k l).channel :: js) := by
  have hasked := ((State.asked_moves st i s k).leaves hat).1
  have hat' := ((State.created_watched i (s.asked st k) k (s.spawnWatcher k).1 hl).1.leaves hasked).1
  rwa [hsync, if_neg Bool.false_ne_true] at hat'

end

end Workload.Run

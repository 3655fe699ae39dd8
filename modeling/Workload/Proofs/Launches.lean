import Workload.Proofs.Blockwise
import Workload.Proofs.Changeover
import Workload.Proofs.Crews
import Workload.Proofs.Frames
import Workload.Proofs.Refusals
import Workload.Provider.Static

/-!
# Launches through the docker program

The containers of a launch are started one after the other.  If one of them does not start, those that did are
removed again, each once and in the order in which they were started, whatever comes of that.  What comes back
is the fault of the start that failed, and nothing is left that watches (`launch_undone`).

If all of them start, every container is waited for by a call of its own, and what this call prints or how it fails
is the signal of the container (`Tells`).  The crew of the launch sends one signal of each container, whichever is
done first, and never has to wait for somebody to receive it (`container_signals`).
-/

namespace Workload.Docker

variable {π : Type} {p : Program π}

/-! ## Calls of the program -/

/-- Calls that are made one after the other, each with what came of it. -/
inductive Calls (p : Program π) : List (List String × Answer) → π → π → Prop
  | nil {s} : Calls p [] s s
  | cons {args a cs s s₁ s₂} : call p args s = (a, s₁) → Calls p cs s₁ s₂ → Calls p ((args, a) :: cs) s s₂

theorem Calls.next {args : List String} {a : Answer} {cs : List (List String × Answer)} {s s' : π}
    (h : (call p args s).1 = a) (h' : Calls p cs (call p args s).2 s') : Calls p ((args, a) :: cs) s s' :=
  .cons (Prod.ext h rfl) h'

theorem Calls.invoke {args : List String} {a : Answer} {cs : List (List String × Answer)} {s s' : π}
    (h : Calls p ((args, a) :: cs) s s') : ∃ s₁, Docker.invoke p args s = (a.result, s₁) ∧ Calls p cs s₁ s' := by
  obtain _ | ⟨hcall, hrest⟩ := h
  refine ⟨_, ?_, hrest⟩
  unfold Docker.invoke
  rw [hcall]

/-- The calls that start containers of a task, with suffixes drawn from number `k` on. -/
def runCalls (t : Task) (k : Nat) (as : List Answer) : List (List String × Answer) :=
  (as.zipIdx k).map fun x => (runArgs t (Drawn.suffix x.2), x.1)

/-- Containers that start are listed in that order, and it goes on with the others. -/
theorem startInstances_calls {t : Task} {m k : Nat} {as : List Answer} {ids started : List String} {s s' : π}
    (hids : as.map Answer.result = ids.map .ok) (h : Calls p (runCalls t k as) s s') :
    startInstances p t (as.length + m) k started s =
      startInstances p t m (k + as.length) (started ++ ids) s' := by
  induction as generalizing k ids started s with
  | nil =>
    obtain rfl : ids = [] := by simpa using hids.symm
    obtain _ | _ := h
    simp
  | cons a as ih =>
    obtain _ | ⟨id, ids⟩ := ids
    · cases hids
    obtain ⟨hid, hids⟩ := List.cons.inj hids
    obtain ⟨s₁, hinvoke, hrest⟩ := h.invoke
    rw [List.length_cons, Nat.add_right_comm, startInstances, hinvoke, hid]
    simp only []
    rw [ih hids hrest, List.append_assoc, List.singleton_append, Nat.add_right_comm k 1]
    rfl

/-- A text whose characters are all in ASCII. -/
def IsAscii (s : String) : Prop := ∀ c ∈ s.toList, c.toNat < 128

instance (s : String) : Decidable (IsAscii s) := List.decidableBAll _ s.toList

theorem areNamed_of_ascii {ids : List String} (h : ∀ id ∈ ids, IsAscii id) : areNamed ids = true := by
  have hgo : ∀ (cs : List Char) (n : Nat), (∀ c ∈ cs, c.toNat < 128) → (shortId?.go n cs).isSome = true := by
    intro cs
    induction cs with
    | nil => intro n _; unfold shortId?.go; rfl
    | cons c cs ih =>
      intro n hcs
      have hc := hcs c List.mem_cons_self
      have hsize : c.utf8Size = 1 := Char.utf8Size_eq_one_iff.2 (UInt32.le_iff_toNat_le.2 (Nat.le_of_lt_succ hc))
      cases n with
      | zero => rfl
      | succ n =>
        unfold shortId?.go
        simpa [hsize] using ih n fun d hd => hcs d (List.mem_cons_of_mem c hd)
  unfold areNamed
  rw [List.all_eq_true]
  intro id hid
  unfold shortId?
  rw [Option.isSome_map]
  exact hgo id.toList 12 (h id hid)

/-! ## A launch that fails -/

theorem launch_oversized {t : Task} (h : min maxSignals maxListed < t.instances) (k : Nat) (s : π) :
    launch p t k s = (.impossible (.error notInvoked), s) := if_pos h

end Workload.Docker

namespace Workload.Run

end Workload.Run

namespace Workload.Docker

open Run

variable {π : Type} {p : Program π} {t : Task} {k : Nat} {as : List Answer} {a : Answer} {ids : List String}
  {s s₁ : π} {fault : RuntimeFault}

/-- What a launch in a scope comes to. -/
theorem scope_launch {st : Settings (World (Engine π))} {sc : Scope (World (Engine π))}
    {reply : Reply RuntimeFault Launch} {s' : π} (hst : st.env.runtime = runtime p) (hb : sc.broken = false)
    (h : launch p t sc.world.containers.drawn sc.world.containers.program = (reply, s')) :
    (sc.launch st.env t).1 = reply.result ∧ (sc.launch st.env t).2.broken = reply.broken ∧
      (sc.launch st.env t).2.world.containers.program = s' := by
  have hrun : run p t sc.world = (reply, { sc.world with containers :=
      { sc.world.containers with program := s', drawn := sc.world.containers.drawn + t.instances } }) := by
    unfold run
    simp only [h]
  have hlaunch : sc.launch st.env t = sc.call (run p t) (.run t) := by
    unfold Scope.launch
    rw [hst]
    rfl
  rw [hlaunch]
  unfold Scope.call Scope.ask
  rw [hrun]
  unfold Scope.take Scope.record
  rw [hb]
  rcases reply with ⟨_, _, _, _ | _⟩ <;> exact ⟨rfl, rfl, rfl⟩

/-- A run with the containers of a docker program, and nothing else that could be called. -/
def contained (p : Program π) : Settings (World (Engine π)) where
  env :=
    { runtime := runtime p
      provider := Provider.ofSpec .docker
      hooks := fun _ => .nothing
      files := World.files
      vars := fun _ => none
      drawn := Drawn.aliasName }
  config := {}

end Workload.Docker

namespace Workload.Docker

open Run

variable {π : Type} {p : Program π}

/-! ## What a wait tells -/

/-- A text is a number of 32 bits, but for blanks around it. -/
def Prints (out : String) (n : Int) : Prop :=
  Range.Decimal (Text.trim out.toList) n ∧ -2 ^ 31 ≤ n ∧ n < 2 ^ 31

/-- The signal of a container whose wait ends in an answer. -/
inductive Tells (id : String) : Answer → Signal → Prop
  | done {out err : String} : Prints out 0 → Tells id (.ended out err 0) none
  | exited {out err : String} {n : Int} : Prints out n → n ≠ 0 →
    Tells id (.ended out err 0) (some (.exited id n))
  | unreadable {out err : String} : (∀ n, ¬Prints out n) → Tells id (.ended out err 0)
    (some (.command ("unexpected wait output for " ++ (shortId? id).getD id ++ ": " ++ Text.trimmed out)))
  | failed {out err : String} {code : Int} : code ≠ 0 → Tells id (.ended out err code) (some (faultOf err))
  | unavailable : Tells id .unavailable (some notInvoked)

theorem prints_iff {out : String} {n : Int} :
    Text.signedOf? 10 (Nat.pow 2 31) (Text.trim (Text.trimmed out).toList) = some n ↔ Prints out n := by
  unfold Text.trimmed Prints
  rw [String.toList_ofList, Text.trim_trim]
  exact Range.signedOf?_eq_some_iff (by decide)

theorem exitOf_tells {id out err : String} :
    Tells id (.ended out err 0) (State.signalOf (exitOf id (Text.trimmed out))) := by
  unfold exitOf
  rcases hread : Text.signedOf? 10 (Nat.pow 2 31) (Text.trim (Text.trimmed out).toList) with _ | n
  · refine .unreadable fun n hprints => ?_
    rw [prints_iff.2 hprints] at hread
    cases hread
  · have hprints := prints_iff.1 hread
    simp only []
    split_ifs with hzero
    · exact .done (hzero ▸ hprints)
    · exact .exited hprints hzero

/-- A wait that ends tells the signal of its container. -/
theorem await_tells (id : String) (s : π) :
    match (await p id s).1 with
    | none => (call p ["wait", id] s).1 = .hangs
    | some r => Tells id (call p ["wait", id] s).1 (State.signalOf r) := by
  unfold await
  rcases call p ["wait", id] s with ⟨⟨out, err, code⟩ | _ | _, s'⟩
  · by_cases hcode : code = 0
    · have hresult : (Answer.ended out err code).result = .ok (Text.trimmed out) := if_pos hcode
      simp only [hresult, Except.bind]
      rw [hcode]
      exact exitOf_tells
    · have hresult : (Answer.ended out err code).result = .error (faultOf err) := if_neg hcode
      simp only [hresult, Except.bind]
      exact .failed hcode
  · rfl
  · exact .unavailable

theorem watch_result (t : Task) (id : String) (w : World (Engine π)) :
    (watch p t id w).1.map Reply.result = (await p id w.containers.program).1 := by
  unfold watch
  rcases await p id w.containers.program with ⟨_ | result, program⟩ <;> rfl

theorem waitsSafely : WaitsSafely (runtime p) := by
  intro t id w reply hreply
  replace hreply : (watch p t id w).1 = some reply := hreply
  unfold watch at hreply
  generalize await p id w.containers.program = q at hreply
  rcases q with ⟨_ | result, program⟩
  · cases hreply
  · obtain rfl := Option.some.inj hreply
    rfl

/-! ## Launches that come off -/

theorem launch_calls {t : Task} {k : Nat} {as : List Answer} {ids : List String} {s s₁ : π}
    (hfit : t.instances ≤ min maxSignals maxListed) (hlength : as.length = t.instances)
    (hids : as.map Answer.result = ids.map .ok) (hascii : ∀ id ∈ ids, IsAscii id)
    (hcalls : Calls p (runCalls t k as) s s₁) : launch p t k s = (.done ⟨ids.headD "", ids, none⟩, s₁) := by
  have hstart : startInstances p t t.instances k [] s = ((.ok (), ids), s₁) := by
    rw [← hlength]
    exact startInstances_calls (m := 0) hids hcalls
  unfold launch
  rw [if_neg (Nat.not_lt.2 hfit), hstart]
  simp [areNamed_of_ascii hascii]

/-- What has become of the signals of a launch once `d` has been done by the threads. -/
structure Signalled (p : Program π) (w : Crew) (d : List (Moment (World (Engine π))))
    (s : State (World (Engine π))) : Prop where
  /-- No container has more than one signal, -/
  once : ((sends w.channel d).map Prod.fst).Nodup
  /-- and that is what the wait for it told. -/
  told : ∀ x ∈ sends w.channel d, ∃ n id m, w.ids[n]? = some id ∧ x.1 = w.first + n ∧ m ∈ d ∧ m.thread = x.1 ∧
    m.job = .watch w.task id w.channel ∧
    Tells id (call p ["wait", id] m.before.scope.world.containers.program).1 x.2
  /-- A thread that has not sent its signal can go on, unless its wait does not end. -/
  goesOn : ∀ n id, w.ids[n]? = some id → s.enabled (w.first + n) = true ∨
    s.At (w.first + n) [] ∧ (∃ signal, (w.first + n, signal) ∈ sends w.channel d) ∨
    s.At (w.first + n) [.hang] ∧ ∃ m ∈ d, m.thread = w.first + n ∧ m.job = .watch w.task id w.channel ∧
      (call p ["wait", id] m.before.scope.world.containers.program).1 = .hangs
  /-- Once all have ended, there has been one signal of each container. -/
  complete : (∀ t ∈ w.threads, s.finished t = true) → ((sends w.channel d).map Prod.fst).Perm w.threads
  /-- The channel passes on what is sent, in this order, and ends after as many signals as there are containers. -/
  passes : ∃ ch, s.channels[w.channel]? = some ch ∧
    received w.channel d ++ ch.queue = (sends w.channel d).map Prod.snd ∧
    (ch.queue = [] ∧ ch.senders = 0 ↔ (received w.channel d).length = w.ids.length) ∧
    (ch.closed = true → (received w.channel d).length = w.ids.length)
  /-- A launch that waits for its containers returns when all signals are in the channel. -/
  returns : ∀ t k watcher l js, s.At t (.launched k watcher l w.channel :: js) →
    ∃ ch, s.channels[w.channel]? = some ch ∧ ch.queue = (sends w.channel d).map Prod.snd ∧
      ((sends w.channel d).map Prod.fst).Perm w.threads

section

variable {st : Settings (World (Engine π))} {w : Crew} {id : String} {m : Moment (World (Engine π))}

theorem waits_hangs (hst : st.env.runtime = runtime p) (h : m.Waits st w id none) :
    (call p ["wait", id] m.before.scope.world.containers.program).1 = .hangs := by
  have hresult := h.result
  rw [hst] at hresult
  have htells := await_tells (p := p) id m.before.scope.world.containers.program
  rwa [(watch_result w.task id _).symm.trans hresult] at htells

theorem waits_tells (hst : st.env.runtime = runtime p) {r : Except RuntimeFault Unit} (h : m.Waits st w id (some r)) :
    Tells id (call p ["wait", id] m.before.scope.world.containers.program).1 (State.signalOf r) := by
  have hresult := h.result
  rw [hst] at hresult
  have htells := await_tells (p := p) id m.before.scope.world.containers.program
  rwa [(watch_result w.task id _).symm.trans hresult] at htells

theorem signalled {d : List (Moment (World (Engine π)))} {s : State (World (Engine π))} {r : ThreadId}
    (hst : st.env.runtime = runtime p) (hw : w.Works st d s) (hr : w.Serves d s r) : Signalled p w d s := by
  obtain ⟨ch, hch, hcarries⟩ := hw.carries
  have hle := hcarries.received_le
  have hsenders := hcarries.senders
  refine ⟨hw.once, fun x hx => ?_, fun n id hid => ?_, hw.complete, ⟨ch, hch, hcarries.queue, ?_, hcarries.closed⟩,
    fun t k watcher l js hat => ?_⟩
  · obtain ⟨n, id, m, r, hid, ht, hm, hmt, hwaits, hsignal⟩ := hw.told hx
    exact ⟨n, id, m, hid, ht, hm, hmt, hwaits.job, hsignal ▸ waits_tells hst hwaits⟩
  · refine (hw.goesOn hid).imp_right fun h => h.imp_right fun ⟨hat, m, hm, hmt, hwaits⟩ => ?_
    exact ⟨hat, m, hm, hmt, hwaits.job, waits_hangs hst hwaits⟩
  · rw [← List.length_eq_zero_iff]
    omega
  · obtain ⟨hnone, hall⟩ := hr.full hw hat
    have hqueue := hcarries.queue
    rw [hnone, List.nil_append] at hqueue
    exact ⟨ch, hch, hqueue, hw.full hall.ge⟩

end

/-- If all containers of a launch are started, the launch lists them in the order in which they were started, the
first one as its handle.  From then on there is at most one signal of each container in the channel, the one
that its wait told.  No thread that waits for a container has to wait for the channel, and once all have ended the
channel has got one signal of each and ends behind them; a task that is waited for returns from its launch only
then.  A launch of more containers than can be listed makes no call at all.  That all channels in use have been
opened before holds in every state of a run (`Chronicle.opened`). -/
theorem container_signals {st : Settings (World (Engine π))} {i : ThreadId} {k : Ticket} {js : List Job}
    {s : State (World (Engine π))} {as : List Answer} {ids : List String} {s₁ : π}
    (hst : st.env.runtime = runtime p) (hopened : s.Opened) (hb : s.scope.broken = false) (hat : s.At i js)
    (hduration : k.task.duration = .zero) (hlength : as.length = k.task.instances)
    (hids : as.map Answer.result = ids.map .ok) (hascii : ∀ id ∈ ids, IsAscii id)
    (hcalls : Calls p (runCalls k.task s.scope.world.containers.drawn as) s.scope.world.containers.program s₁) :
    min maxSignals maxListed < k.task.instances ∧
        launch p k.task s.scope.world.containers.drawn s.scope.world.containers.program =
          (.impossible (.error notInvoked), s.scope.world.containers.program) ∨
      launch p k.task s.scope.world.containers.drawn s.scope.world.containers.program =
          (.done ⟨ids.headD "", ids, none⟩, s₁) ∧
        (k.task.command ≠ [] → s.launch st i k = s.watched st i k ⟨ids.headD "", ids, none⟩) ∧
        (k.task.isAsync = false → (s.watched st i k ⟨ids.headD "", ids, none⟩).At i
          (.join ((s.asked st k).crew k ⟨ids.headD "", ids, none⟩).threads ::
            .launched k (s.spawnWatcher k).1 ⟨ids.headD "", ids, none⟩
              ((s.asked st k).crew k ⟨ids.headD "", ids, none⟩).channel :: js)) ∧
        ∀ d s', Chronicle st (s.watched st i k ⟨ids.headD "", ids, none⟩) d s' →
          Signalled p ((s.asked st k).crew k ⟨ids.headD "", ids, none⟩) d s' := by
  by_cases hfit : k.task.instances ≤ min maxSignals maxListed
  swap
  · exact .inl ⟨Nat.lt_of_not_le hfit, launch_oversized (Nat.lt_of_not_le hfit) _ _⟩
  have hlaunch := launch_calls hfit hlength hids hascii hcalls
  obtain ⟨hresult, hunbroken, -⟩ := scope_launch hst hb hlaunch
  have hfull : k.task.instances = ids.length := by
    have := congrArg List.length hids
    rwa [List.length_map, List.length_map, hlength] at this
  obtain ⟨hworks, hserves⟩ := State.watched_works (l := ⟨ids.headD "", ids, none⟩) st hat hopened rfl hfull
  have hb' : (s.watched st i k ⟨ids.headD "", ids, none⟩).scope.broken = false :=
    (State.created_broken i (s.asked st k) k (s.spawnWatcher k).1 _).trans hunbroken
  refine .inr ⟨hlaunch, fun hcommand => State.launch_watched st i hcommand hresult hunbroken,
    State.watched_joins st hat rfl, fun d s' hd => ?_⟩
  obtain ⟨hworks', r, hserves'⟩ :=
    Crew.works_of_chronicle hd hb' (hst ▸ waitsSafely) hduration hworks hserves
  exact signalled hst hworks' hserves'

/-! ### A launch of two containers -/

def pairTask : Task :=
  { name := "canopy", describe := "load", image := "busybox", command := ["work"], concurrency := 2 }

/-- The first container ends well, the second one does not. -/
def pair : Script where
  rules :=
    [⟨["run"], [.ended "c1\n" "" 0, .ended "c2\n" "" 0]⟩,
      ⟨["wait", "c1"], [.ended "0\n" "" 0]⟩,
      ⟨["wait", "c2"], [.ended " +03\n" "" 0]⟩]

def pairState : State (World (Engine Script)) := .ofJobs { world := { containers := { program := pair } } } []

/-- What the threads do after the launch. -/
def pairRun : List (Moment (World (Engine Script))) × State (World (Engine Script)) :=
  (pairState.watched (contained Script.respond) 0 ⟨pairTask, "job", 0, ""⟩ ⟨"c1", ["c1", "c2"], none⟩).chronicle
    (contained Script.respond) (fun _ => false) 20 0

theorem container_signals_pair :
    (launch Script.respond pairTask 0 pair).1.result = .ok ⟨"c1", ["c1", "c2"], none⟩ ∧
      Signalled Script.respond ⟨pairTask, ["c1", "c2"], 1, 0⟩ pairRun.1 pairRun.2 ∧
      sends 0 pairRun.1 = [(1, none), (2, some (.exited "c2" 3))] ∧
      received 0 pairRun.1 = [none, some (.exited "c2" 3)] := by
  have hcalls : ∃ s₁, Calls Script.respond
      (runCalls pairTask 0 [.ended "c1\n" "" 0, .ended "c2\n" "" 0]) pair s₁ :=
    ⟨_, .next (by decide +kernel) (.next (by decide +kernel) .nil)⟩
  obtain ⟨s₁, hcalls⟩ := hcalls
  have hopened : pairState.Opened := by
    intro t ht j hj
    obtain rfl := List.mem_singleton.1 ht
    cases hj
  have hsignals := @container_signals _ Script.respond (contained Script.respond) 0 ⟨pairTask, "job", 0, ""⟩ []
    pairState _ ["c1", "c2"] _ rfl hopened rfl ⟨_, rfl, rfl⟩ rfl rfl (by decide +kernel) (by decide) hcalls
  rcases hsignals with ⟨h, -⟩ | ⟨hlaunch, -, -, hsignalled⟩
  · exact absurd h (by decide +kernel)
  · refine ⟨congrArg (fun q => q.1.result) hlaunch, ?_, by decide +kernel, by decide +kernel⟩
    exact hsignalled _ _ (State.chronicle_spec _ _ _ _ _)

end Workload.Docker

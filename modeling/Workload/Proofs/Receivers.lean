import Workload.Proofs.Channels
import Workload.Proofs.Polling
import Workload.Proofs.Tallies

/-!
# Receivers

In every state of a run each channel has one receiver at most, and none once it is closed (`Chronicle.attended`): a
launch makes the thread that receives from the channel that it opens, and nothing makes another one.  So a channel
whose receiver breaks off is lost (`State.SoleReceiver.crash`), for good (`State.Attended.lost`).

As long as nobody else receives from a channel, all that other threads do to it is to send (`Stepped.channel`).  So
while its receiver waits, or does other things before it goes on to receive, the channel is left as it is but for what
is sent meanwhile (`Chronicle.waits`, `Returns.receives`), and the tally of the receiver stays the same.
-/

namespace Workload.Run

variable {σ : Type}

/-! ## Who receives -/

/-- Whether neither a job nor what it leaves for its thread receives from the channel or counts anything. -/
def Job.avoids (c : ChannelId) : Job → Bool
  | .drain .. | .repeatLoop .. | .awaitLaunch .. | .untilLoop .. => false
  | .launched _ _ _ c' => c' ≠ c
  | _ => true

/-- Nobody but thread `i` receives from the channel. -/
def State.SoleReceiver (s : State σ) (i : ThreadId) (c : ChannelId) : Prop :=
  ∀ t u, s.threads[t]? = some u → t ≠ i → ∀ j ∈ u.jobs, j.takes c = false

section

variable {st : Settings σ} {i k : ThreadId} {j x : Job} {s s' : State σ} {c : ChannelId} {jobs js new : List Job}
  {spawned : List (List Job)}

theorem Job.channel?_of_takes (h : j.takes c = true) : j.channel? = some c := by
  cases j with
  | drain | launched => exact congrArg some (of_decide_eq_true h)
  | _ => cases h

theorem Job.not_takes_of_none (h : j.channel? = none) : j.takes c = false := by
  by_contra htakes
  rw [channel?_of_takes (Bool.not_eq_false _ ▸ htakes)] at h
  cases h

theorem Job.takes_of_avoids (h : j.avoids c = true) : j.takes c = false := by
  cases j with
  | drain => cases h
  | launched => simpa [Job.avoids, Job.takes] using h
  | _ => rfl

theorem Job.counts_of_avoids (h : j.avoids c = true) : j.counts = false := by
  cases j with
  | drain | repeatLoop | untilLoop => cases h
  | _ => rfl

/-- Nobody begins to receive from a channel that is there but by a job that receives from it. -/
theorem Job.Yields.takes (hy : x.Yields st s s' new spawned) (hx : x.takes c = false) (hc : c < s.channels.length)
    (hjobs : jobs ∈ new :: spawned) (hj : j ∈ jobs) : j.takes c = false := by
  by_contra htakes
  rw [Bool.not_eq_false] at htakes
  rcases hy.channel hjobs hj (channel?_of_takes htakes) with hx' | ⟨rfl, -⟩
  · rcases List.mem_cons.1 hjobs with rfl | hjobs
    · cases hy.leaves j hj with
      | receiveNext => exact Bool.false_ne_true (hx.symm.trans htakes)
      | launched => cases hx'
      | _ => cases htakes
    · cases hy.starts jobs hjobs j hj with
      | receive => cases hx'
      | receiveLaunched => exact Bool.false_ne_true (hx.symm.trans htakes)
      | _ => cases htakes
  · exact Nat.lt_irrefl _ hc

theorem Job.Yields.avoids (hy : x.Yields st s s' new spawned) (hx : x.avoids c = true) (hc : c < s.channels.length) :
    ∀ j ∈ new, j.avoids c = true := by
  intro j hj
  have htakes := hy.takes (takes_of_avoids hx) hc List.mem_cons_self hj
  cases hy.leaves j hj with
  | launched => simpa [Job.avoids, Job.takes] using htakes
  | receiveNext | restart | untilAgain | untilLoop => cases hx
  | _ => rfl

theorem State.SoleReceiver.takes (hs : s.SoleReceiver i c) (h : Stepped st k x s s') (hk : k ≠ i) :
    x.takes c = false := by
  obtain ⟨t, js, -, -, -, ht, hjobs, -⟩ := h.moves
  exact hs k t ht hk x (hjobs ▸ List.mem_cons_self)

theorem State.SoleReceiver.step (hs : s.SoleReceiver i c) (h : Stepped st k x s s') (hx : x.takes c = false)
    (hc : c < s.channels.length) : s'.SoleReceiver i c := by
  obtain ⟨v, js, new, spawned, hv, hjobs, hy, hcases⟩ := h.thread_cases
  intro t u hu hti j hj
  rcases hcases t u hu with ⟨rfl, ⟨hnew, -⟩ | ⟨hnil, -⟩⟩ | ⟨-, hold⟩ | ⟨-, -, jobs, hm, rfl⟩
  · rw [hnew] at hj
    rcases List.mem_append.1 hj with hj | hj
    · exact hy.takes hx hc List.mem_cons_self hj
    · exact hs t v hv hti j (hjobs ▸ List.mem_cons_of_mem x hj)
  · rw [hnil] at hj
    cases hj
  · exact hs t u hold hti j hj
  · exact hy.takes hx hc (List.mem_cons_of_mem new hm) hj

/-- To receive starts no thread. -/
theorem State.SoleReceiver.drain {describe : String} {left : Nat} (hs : s.SoleReceiver i c)
    (h : Stepped st i (.drain c describe left) s s') : s'.SoleReceiver i c := by
  obtain ⟨v, js, new, spawned, -, -, ⟨rfl, -⟩, hcases⟩ := h.thread_cases
  intro t u hu hti
  rcases hcases t u hu with ⟨rfl, -⟩ | ⟨-, hold⟩ | ⟨-, -, jobs, hm, -⟩
  · exact absurd rfl hti
  · exact hs t u hold hti
  · cases hm

end

/-! ## What others do to the channel -/

/-- Signals were sent into a channel, and nothing else happened to it that concerns who receives. -/
structure Channel.Fed (ch : Channel) (signals : List Signal) (ch' : Channel) : Prop where
  queue : ch'.queue = ch.queue ++ signals
  senders : ch'.senders ≤ ch.senders
  closed : ch'.closed = false

/-- Thread `i` has the given jobs and tally, and it alone receives from the channel, which is as given and open. -/
structure State.Receives (s : State σ) (i : ThreadId) (c : ChannelId) (jobs : List Job) (n : Nat) (ch : Channel) :
    Prop where
  unbroken : s.scope.broken = false
  thread : s.threads[i]? = some ⟨jobs, n, false⟩
  sole : s.SoleReceiver i c
  channel : s.channels[c]? = some ch
  opened : ch.closed = false

section

variable {st : Settings σ} {i k : ThreadId} {x : Job} {b s s' u : State σ} {c : ChannelId} {front js jobs : List Job}
  {n : Nat} {ch ch' ch'' : Channel} {signals signals' : List Signal} {d : List (Moment σ)} {m : Moment σ}

theorem Channel.Fed.refl (h : ch.closed = false) : ch.Fed [] ch := ⟨(List.append_nil _).symm, Nat.le_refl _, h⟩

theorem Channel.Fed.trans (h : ch.Fed signals ch') (h' : ch'.Fed signals' ch'') : ch.Fed (signals ++ signals') ch'' :=
  ⟨by rw [h'.queue, h.queue, List.append_assoc], h'.senders.trans h.senders, h'.closed⟩

/-- All that a job does to a channel that it does not receive from is to send, and that is nothing if the channel is
closed. -/
theorem Stepped.channel (h : Stepped st k x s s') (hb : s.scope.broken = false) (hx : x.takes c = false)
    (hch : s.channels[c]? = some ch) : ∃ ch', s'.channels[c]? = some ch' ∧
      if ch.closed then ch'.closed = true ∧ ch'.queue = ch.queue else ch.Fed (x.sends? c).toList ch' := by
  have hsame : x.sends? c = none → s'.channels[c]? = s.channels[c]? → ∃ ch', s'.channels[c]? = some ch' ∧
      if ch.closed then ch'.closed = true ∧ ch'.queue = ch.queue else ch.Fed (x.sends? c).toList ch' := by
    intro hsends hget
    refine ⟨ch, hget.trans hch, ?_⟩
    rw [hsends]
    split_ifs with hclosed
    · exact ⟨hclosed, rfl⟩
    · exact .refl (Bool.not_eq_true _ ▸ hclosed)
  by_cases hused : x.channel? = some c
  · cases x with
    | send c' signal =>
      obtain rfl := Option.some.inj hused
      have hsends : (Job.send c' signal).sends? c' = some signal := if_pos rfl
      rw [hsends]
      refine ⟨_, by rw [h.of_steady rfl hb]; exact (List.getElem?_modify_eq _ _ _).trans (congrArg _ hch), ?_⟩
      split_ifs with hclosed
      · exact ⟨hclosed, if_pos hclosed⟩
      · exact ⟨if_neg hclosed, Nat.sub_le _ _, Bool.not_eq_true _ ▸ hclosed⟩
    | watch _ _ c' | expire _ _ c' =>
      obtain rfl := Option.some.inj hused
      rcases h.board with hboard | hboard
      · exact hsame rfl (congrArg (fun b => (Board.channels b)[c']?) hboard)
      · -- the thread breaks off, so that there is one sender less
        have hreleased : s'.channels = s.channels.modify c' Channel.release := congrArg Board.channels hboard
        refine ⟨ch.release, by rw [hreleased, List.getElem?_modify_eq, hch]; rfl, ?_⟩
        split_ifs with hclosed
        · exact ⟨hclosed, rfl⟩
        · exact ⟨(List.append_nil _).symm, Nat.sub_le _ _, Bool.not_eq_true _ ▸ hclosed⟩
    | drain | launched =>
      obtain rfl := Option.some.inj hused
      exact absurd hx (by simp [Job.takes])
    | _ => cases hused
  · exact hsame (Job.sends?_of_spared hused) (h.channel_other hb hused (List.getElem?_eq_some_iff.1 hch).1)

namespace State.Receives

theorem lt (h : s.Receives i c jobs n ch) : c < s.channels.length := (List.getElem?_eq_some_iff.1 h.channel).1

theorem at_ (h : s.Receives i c jobs n ch) : s.At i jobs := ⟨_, h.thread, rfl⟩

theorem fed (hr : s.Receives i c jobs n ch) (h : Stepped st k x s s') (hx : x.takes c = false) :
    s'.SoleReceiver i c ∧ ∃ ch', s'.channels[c]? = some ch' ∧ ch.Fed (x.sends? c).toList ch' := by
  obtain ⟨ch', hch', hfed⟩ := h.channel hr.unbroken hx hr.channel
  rw [hr.opened, if_neg Bool.false_ne_true] at hfed
  exact ⟨hr.sole.step h hx hr.lt, ch', hch', hfed⟩

/-- Other threads leave the one that receives as it is. -/
theorem other (hr : s.Receives i c jobs n ch) (h : Stepped st k x s s') (hk : k ≠ i) :
    ∃ ch', s'.Receives i c jobs n ch' ∧ ch.Fed (x.sends? c).toList ch' := by
  obtain ⟨hsole, ch', hch', hfed⟩ := hr.fed h (hr.sole.takes h hk)
  obtain ⟨t, -, t', new, spawned, -, -, -, hth, -⟩ := h.moves
  exact ⟨ch', ⟨h.unbroken, Stepped.getElem?_other hth hk hr.thread, hsole, hch', hfed.closed⟩, hfed⟩

/-- What the thread itself does meanwhile leaves its tally and its later jobs as they are, unless it breaks off. -/
theorem self (hr : s.Receives i c (x :: jobs) n ch) (h : Stepped st i x s s') (hx : x.avoids c = true) :
    (∃ new ch', (∀ j ∈ new, j.avoids c = true) ∧ s'.Receives i c (new ++ jobs) n ch' ∧
      ch.Fed (x.sends? c).toList ch') ∨ s'.threads[i]? = some ⟨[], n, true⟩ := by
  obtain ⟨hsole, ch', hch', hfed⟩ := hr.fed h (Job.takes_of_avoids hx)
  obtain ⟨t, js, t', new, spawned, ht, hjobs, hy, hth, ht'⟩ := h.moves
  have hself := (Stepped.getElem?_threads hth (List.getElem?_eq_some_iff.1 ht).1).1
  obtain ⟨u, hu, htally⟩ := h.tally (Job.counts_of_avoids hx) ht
  obtain rfl := Option.some.inj (hself.symm.trans hu)
  obtain rfl := Option.some.inj (ht.symm.trans hr.thread)
  obtain ⟨-, rfl⟩ := List.cons.inj hjobs
  obtain ⟨jobs', n', crashed⟩ := t'
  obtain rfl : n' = n := htally
  rcases ht' with ⟨rfl, rfl⟩ | ⟨-, -, rfl, rfl⟩
  · exact .inl ⟨new, ch', hy.avoids hx hr.lt, ⟨h.unbroken, hself, hsole, hch', hfed.closed⟩, hfed⟩
  · exact .inr hself

end State.Receives

/-! ### Until the thread is back -/

/-- What has become of a thread that has other things to do before it goes on with `js`. -/
inductive Meanwhile (i : ThreadId) (c : ChannelId) (js : List Job) (n : Nat) (ch : Channel) (d : List (Moment σ))
    (s : State σ) : Prop
  | goesOn (front : List Job) (ch' : Channel) : (∀ j ∈ front, j.avoids c = true) → s.Receives i c (front ++ js) n ch' →
    ch.Fed (sent c d) ch' → (∀ m ∈ d, m.job.takes c = false) → Meanwhile i c js n ch d s
  | brokeOff : s.threads[i]? = some ⟨[], n, true⟩ → Meanwhile i c js n ch d s

theorem Meanwhile.concat (hfront : ∀ j ∈ front, j.avoids c = true) (hr : s'.Receives i c (front ++ js) n ch'')
    (hfed : ch.Fed (sent c d) ch') (hfed' : ch'.Fed (m.job.sends? c).toList ch'')
    (huntaken : ∀ m ∈ d, m.job.takes c = false) (hm : m.job.takes c = false) :
    Meanwhile i c js n ch (d ++ [m]) s' := by
  refine .goesOn front ch'' hfront hr ?_ fun x hx => ?_
  · rw [sent_append, sent_singleton]
    exact hfed.trans hfed'
  · rcases List.mem_append.1 hx with hx | hx
    · exact huntaken x hx
    · rwa [List.mem_singleton.1 hx]

theorem Meanwhile.step (h : Meanwhile i c js n ch d s) (hstep : Stepped st k x s s') (hturn : k = i → ¬s.At i js) :
    Meanwhile i c js n ch (d ++ [⟨s, k, x⟩]) s' := by
  by_cases hk : k = i
  · subst hk
    rcases h with ⟨front, ch', hfront, hr, hfed, huntaken⟩ | hbroke
    · cases front with
      | nil => exact absurd hr.at_ (hturn rfl)
      | cons y front =>
        rw [List.cons_append] at hr
        obtain ⟨rest, heq⟩ := hstep.eq_cons hr.at_
        obtain ⟨rfl, -⟩ := List.cons.inj heq
        have hy := hfront y List.mem_cons_self
        rcases hr.self hstep hy with ⟨new, ch'', hnew, hr', hfed'⟩ | hbroke
        · rw [← List.append_assoc] at hr'
          refine .concat (fun j hj => ?_) hr' hfed hfed' huntaken (Job.takes_of_avoids hy)
          exact (List.mem_append.1 hj).elim (hnew j) fun hj => hfront j (List.mem_cons_of_mem y hj)
        · exact .brokeOff hbroke
    · obtain ⟨rest, heq⟩ := hstep.eq_cons ⟨_, hbroke, rfl⟩
      cases heq
  · rcases h with ⟨front, ch', hfront, hr, hfed, huntaken⟩ | hbroke
    · obtain ⟨ch'', hr', hfed'⟩ := hr.other hstep hk
      exact .concat hfront hr' hfed hfed' huntaken (hr.sole.takes hstep hk)
    · obtain ⟨t, -, t', new, spawned, -, -, -, hth, -⟩ := hstep.moves
      exact .brokeOff (Stepped.getElem?_other hth hk hbroke)

/-- A thread that has other things to do first is still at it, or it has come back to its later jobs and done the
first of them. -/
theorem Chronicle.meanwhile (hc : Chronicle st b d s) (hr : b.Receives i c (front ++ js) n ch)
    (hfront : ∀ j ∈ front, j.avoids c = true) :
    ((∀ m ∈ d, m.thread = i → ¬m.before.At i js) ∧ Meanwhile i c js n ch d s) ∨
      ∃ d₁ m d₂, d = d₁ ++ m :: d₂ ∧ m.thread = i ∧ Returns st i js b d₁ m.before := by
  induction hc with
  | refl => exact .inl ⟨List.forall_mem_nil _, .goesOn front ch hfront hr (.refl hr.opened) (List.forall_mem_nil _)⟩
  | clock _ _ _ ih =>
    rcases ih with ⟨hwithin, ⟨front, ch', hfront, hr', hfed, huntaken⟩ | hbroke⟩ | hback
    · exact .inl ⟨hwithin, .goesOn front ch' hfront ⟨hr'.unbroken, hr'.thread, hr'.sole, hr'.channel, hr'.opened⟩
        hfed huntaken⟩
    · exact .inl ⟨hwithin, .brokeOff hbroke⟩
    · exact .inr hback
  | @thread d s s' k x hc hj hs ih =>
    have hstep := stepped_of_next? (hc.unbroken hr.unbroken) hj hs
    rcases ih with ⟨hwithin, hmeanwhile⟩ | ⟨d₁, m, d₂, rfl, hm, hback⟩
    swap
    · exact .inr ⟨d₁, m, d₂ ++ [⟨s, k, x⟩], by simp, hm, hback⟩
    -- Only a step of the thread itself, and one that it makes when it is back at `js`, ends the stretch.
    by_cases hturn : k = i ∧ s.At i js
    · obtain ⟨rfl, u, hu, hjobs⟩ := hturn
      refine .inr ⟨d, ⟨s, k, x⟩, [], rfl, rfl, hc, hr.unbroken, hwithin, u, hu, hjobs, ?_⟩
      rcases hmeanwhile with ⟨front, ch', -, hr', -⟩ | hbroke
      · rw [Option.some.inj (hu.symm.trans hr'.thread)]
      · obtain ⟨rest, heq⟩ := hstep.eq_cons ⟨_, hbroke, rfl⟩
        cases heq
    · refine .inl ⟨fun m hm hmi => ?_, hmeanwhile.step hstep (not_and.1 hturn)⟩
      rcases List.mem_append.1 hm with hm | hm
      · exact hwithin m hm hmi
      · obtain rfl := List.mem_singleton.1 hm
        exact not_and.1 hturn hmi

/-- A thread that is back has left the channel to those who send. -/
theorem Returns.receives (h : Returns st i js b d s) (hr : b.Receives i c (front ++ js) n ch)
    (hfront : ∀ j ∈ front, j.avoids c = true) :
    ∃ ch', s.Receives i c js n ch' ∧ ch.Fed (sent c d) ch' ∧ ∀ m ∈ d, m.job.takes c = false := by
  obtain ⟨u, hu, hjobs, hgoing⟩ := h.ends
  rcases h.chronicle.meanwhile hr hfront with
    ⟨-, ⟨front', ch', -, hr', hfed, huntaken⟩ | hbroke⟩ | ⟨d₁, m, d₂, rfl, hm, hback⟩
  · obtain rfl := Option.some.inj (hu.symm.trans hr'.thread)
    obtain rfl : front' = [] := List.append_left_eq_self.1 hjobs
    exact ⟨ch', hr', hfed, huntaken⟩
  · obtain rfl := Option.some.inj (hu.symm.trans hbroke)
    cases hgoing
  · obtain ⟨v, hv, hvjobs, -⟩ := hback.ends
    exact absurd ⟨v, hv, hvjobs⟩ (h.within m (by simp) hm)

/-- A thread that waits leaves the channel to those who send. -/
theorem Chronicle.waits (hc : Chronicle st b d s) (hr : b.Receives i c js n ch) (hquiet : ∀ m ∈ d, m.thread ≠ i) :
    ∃ ch', s.Receives i c js n ch' ∧ ch.Fed (sent c d) ch' ∧ ∀ m ∈ d, m.job.takes c = false := by
  rcases hc.first_moment hr.unbroken hr.thread with ⟨hs, -⟩ | ⟨d₁, m, d₂, rfl, -, hm, -⟩
  · have hreturns : Returns st i js b d s :=
      ⟨hc, hr.unbroken, fun m hm hmi => absurd hmi (hquiet m hm), _, hs, rfl, rfl⟩
    have hr' : b.Receives i c ([] ++ js) n ch := hr
    exact hreturns.receives hr' (List.forall_mem_nil _)
  · exact absurd hm (hquiet m (by simp))

/-- A thread that has other things to do first is still away, or it came back to its later jobs. -/
theorem Chronicle.back_or_away (hc : Chronicle st b d s) (hr : b.Receives i c (front ++ js) n ch)
    (hfront : ∀ j ∈ front, j.avoids c = true) :
    ((∀ m ∈ d, m.thread = i → ¬m.before.At i js) ∧
      ((∃ x front, s.At i (x :: (front ++ js))) ∨ ∃ u, s.threads[i]? = some u ∧ u.jobs = [] ∧ u.crashed = true)) ∨
    ∃ d₁ d₂ u, d = d₁ ++ d₂ ∧ Returns st i js b d₁ u ∧ Chronicle st u d₂ s := by
  rcases hc.meanwhile hr hfront with ⟨hwithin, ⟨front', ch', -, hr', -⟩ | hbroke⟩ | ⟨d₁, m, d₂, rfl, -, hback⟩
  · cases front' with
    | nil => exact .inr ⟨d, [], s, (List.append_nil d).symm, ⟨hc, hr.unbroken, hwithin, _, hr'.thread, rfl, rfl⟩, .refl⟩
    | cons x front' => exact .inl ⟨hwithin, .inl ⟨x, front', hr'.at_⟩⟩
  · exact .inl ⟨hwithin, .inr ⟨_, hbroke, rfl, rfl⟩⟩
  · exact .inr ⟨d₁, m :: d₂, m.before, rfl, hback, hc.from_moment hr.unbroken⟩

/-- A closed channel stays as it is but for who may send, and nothing is received from it. -/
theorem Chronicle.closed {t : Thread} (hc : Chronicle st b d s) (hb : b.scope.broken = false)
    (ht : b.threads[i]? = some t) (hnil : t.jobs = []) (hsole : b.SoleReceiver i c) (hch : b.channels[c]? = some ch)
    (hclosed : ch.closed = true) :
    s.threads[i]? = some t ∧ (∀ m ∈ d, m.job.takes c = false) ∧
      ∃ ch', s.channels[c]? = some ch' ∧ ch'.closed = true ∧ ch'.queue = ch.queue := by
  obtain ⟨hs, hquiet⟩ := hc.ended hb ht hnil
  have hkept : s.SoleReceiver i c ∧ (∀ m ∈ d, m.job.takes c = false) ∧
      ∃ ch', s.channels[c]? = some ch' ∧ ch'.closed = true ∧ ch'.queue = ch.queue := by
    clear hs
    induction hc with
    | refl => exact ⟨hsole, (List.forall_mem_nil _), ch, hch, hclosed, rfl⟩
    | clock _ _ _ ih => exact ih hquiet
    | @thread d s s' k x hc hj hstep ih =>
      obtain ⟨hsole', huntaken, ch', hch', hclosed', hqueue⟩ := ih fun x hx => hquiet x (List.mem_append_left _ hx)
      have hstepped := stepped_of_next? (hc.unbroken hb) hj hstep
      have hx := hsole'.takes hstepped (hquiet ⟨s, k, x⟩ (by simp))
      obtain ⟨ch'', hch'', hkept⟩ := hstepped.channel (hc.unbroken hb) hx hch'
      rw [if_pos hclosed'] at hkept
      refine ⟨hsole'.step hstepped hx (List.getElem?_eq_some_iff.1 hch').1, fun m hm => ?_, ch'', hch'', hkept.1,
        hkept.2.trans hqueue⟩
      rcases List.mem_append.1 hm with hm | hm
      · exact huntaken m hm
      · rwa [List.mem_singleton.1 hm]
  exact ⟨hs, hkept.2⟩

end

/-! ## In a run -/

section

variable {st : Settings σ} {i k : ThreadId} {x : Job} {s s' : State σ} {c : ChannelId} {js new : List Job}
  {spawned : List (List Job)}

/-- How many of the jobs that come of another one receive from the channel. -/
def takers (c : ChannelId) (new : List Job) (spawned : List (List Job)) : Nat :=
  new.countP (Job.takes c) + (spawned.map fun jobs => jobs.countP (Job.takes c)).sum

theorem takers_eq_zero (h : ∀ jobs ∈ new :: spawned, ∀ j ∈ jobs, j.takes c = false) : takers c new spawned = 0 := by
  unfold takers
  rw [State.sum_countP_eq_zero fun jobs hjobs => h jobs (List.mem_cons_of_mem new hjobs), Nat.add_zero,
    List.countP_eq_zero]
  exact fun j hj => by rw [h new List.mem_cons_self j hj]; exact Bool.false_ne_true

theorem sum_followers_le (t : Ticket) (l : Launch) (c' : ChannelId) :
    ((t.followers l c').map fun jobs => jobs.countP (Job.takes c)).sum ≤ 1 := by
  have htail : ((t.followers l c').tail.map fun jobs => jobs.countP (Job.takes c)).sum = 0 :=
    State.sum_countP_eq_zero fun jobs hjobs j hj => Job.not_takes_of_none (channel?_followers t l c' jobs hjobs j hj)
  have hhead : [Job.drain c' t.task.describe t.task.instances].countP (Job.takes c) ≤ 1 := List.countP_le_length
  show [Job.drain c' t.task.describe t.task.instances].countP (Job.takes c) +
    ((t.followers l c').tail.map fun jobs => jobs.countP (Job.takes c)).sum ≤ 1
  omega

/-- What comes of a launch receives once from the channel that it opens. -/
theorem Ticket.Yields.takers_le {t : Ticket} {b b' : Board} {r : Except RuntimeFault Launch}
    (h : t.Yields b b' r new spawned) : takers c new spawned ≤ 1 := by
  have hwatchers : ∀ p, ((t.watchers p).map fun jobs => jobs.countP (Job.takes c)).sum = 0 := fun p =>
    State.sum_countP_eq_zero fun jobs hjobs j hj => Job.not_takes_of_none (channel?_watchers t p jobs hjobs j hj)
  have hobservers : ∀ l c', ((t.observers l c').map fun jobs => jobs.countP (Job.takes c)).sum = 0 := fun l c' => by
    refine State.sum_countP_eq_zero fun jobs hjobs j hj => ?_
    obtain ⟨id, -, rfl⟩ := List.mem_map.1 hjobs
    obtain rfl := List.mem_singleton.1 hj
    rfl
  have hawaits : ∀ watcher l restarter, (t.awaits watcher l restarter).countP (Job.takes c) = 0 := by
    intro watcher l restarter
    refine List.countP_eq_zero.2 fun j hj => ?_
    rw [Job.not_takes_of_none (channel?_awaits t watcher l restarter j hj)]
    exact Bool.false_ne_true
  unfold takers
  cases h with
  | refused fault p =>
    rw [State.sum_countP_eq_zero]
    · exact Nat.zero_le 1
    · intro jobs hjobs j hj
      obtain ⟨_, -, rfl⟩ := List.mem_map.1 hjobs
      cases hj
  | known l signals p watcher restarter =>
    rw [hawaits, List.map_append, List.sum_append, hwatchers, Nat.zero_add, Nat.zero_add]
    exact sum_followers_le t l _
  | watched l p watcher restarter =>
    rw [hawaits, List.map_append, List.sum_append, hwatchers, List.map_append, List.sum_append, hobservers,
      Nat.zero_add, Nat.zero_add, Nat.zero_add]
    exact sum_followers_le t l _
  | awaited l p watcher observers =>
    rw [List.map_append, List.sum_append, hwatchers, hobservers]
    exact List.countP_le_length (l := [Job.launched t watcher l _])

/-- What receives from a channel comes of what does so, or of a launch. -/
theorem Job.Yields.takes_of_takes (hy : x.Yields st s s' new spawned) (hx : ∀ t, x ≠ .launch t) {jobs : List Job}
    (hjobs : jobs ∈ new :: spawned) {j : Job} (hj : j ∈ jobs) (htakes : j.takes c = true) : x.takes c = true := by
  rcases List.mem_cons.1 hjobs with rfl | hjobs
  · cases hy.leaves j hj with
    | receiveNext => exact htakes
    | launched t => exact absurd rfl (hx t)
    | _ => cases htakes
  · cases hy.starts jobs hjobs j hj with
    | receive t => exact absurd rfl (hx t)
    | receiveLaunched => exact htakes
    | _ => cases htakes

/-- A launch makes one receiver at most, and none of a channel that is there. -/
theorem Job.Yields.takers_launch_le {t : Ticket} (hy : (Job.launch t).Yields st s s' new spawned) :
    takers c new spawned ≤ if c < s.channels.length then 0 else 1 := by
  split_ifs with hc
  · exact (takers_eq_zero fun jobs hjobs j hj => hy.takes rfl hc hjobs hj).le
  rcases hy with ⟨p, -, -, -, rfl, hspawned⟩ | ⟨-, -, hy⟩
  · refine (takers_eq_zero fun jobs hjobs j hj => ?_).trans_le (Nat.zero_le 1)
    rcases List.mem_cons.1 hjobs with rfl | hjobs
    · cases hj
    rcases hspawned with rfl | rfl
    · cases hjobs
    · obtain ⟨_, -, rfl⟩ := List.mem_map.1 hjobs
      cases hj
  · exact hy.takers_le

/-- What receives hands that on to one job at most. -/
theorem Job.Yields.takers_le_one (hy : x.Yields st s s' new spawned) (htakes : x.takes c = true) :
    takers c new spawned ≤ 1 := by
  unfold takers
  cases x with
  | drain c' describe left =>
    obtain ⟨rfl, hy⟩ := hy
    split at hy
    · obtain ⟨rfl, -⟩ := hy
      exact List.countP_le_length
    · obtain ⟨rfl, -⟩ := hy
      exact List.countP_le_length (l := [Job.drain c' describe _])
    · obtain ⟨rfl, -⟩ := hy
      exact Nat.zero_le 1
  | launched t watcher l c' =>
    obtain ⟨⟨restarter, rfl⟩, rfl⟩ := hy
    rw [List.countP_eq_zero.2, Nat.zero_add]
    · exact sum_followers_le t l c'
    · intro j hj
      rw [Job.not_takes_of_none (channel?_awaits t watcher l restarter j hj)]
      exact Bool.false_ne_true
  | _ => cases htakes

/-- No job makes more of the receivers of a channel, but for the launch that opens it. -/
theorem Job.Yields.takers_le (hy : x.Yields st s s' new spawned)
    (hx : ∀ c, x.channel? = some c → c < s.channels.length) :
    takers c new spawned ≤ if c < s.channels.length then [x].countP (Job.takes c) else 1 := by
  by_cases hlaunch : ∃ t, x = .launch t
  · obtain ⟨t, rfl⟩ := hlaunch
    exact hy.takers_launch_le
  rcases htakes : x.takes c with _ | _
  · refine (takers_eq_zero fun jobs hjobs j hj => ?_).trans_le (Nat.zero_le _)
    by_contra hj'
    rw [hy.takes_of_takes (not_exists.1 hlaunch) hjobs hj (Bool.not_eq_false _ ▸ hj')] at htakes
    cases htakes
  · rw [if_pos (hx c (Job.channel?_of_takes htakes)), List.countP_singleton, if_pos htakes]
    exact hy.takers_le_one htakes

/-- A channel is open when it is new. -/
theorem Stepped.opened (h : Stepped st k x s s') (hb : s.scope.broken = false) (hc : s.channels.length ≤ c)
    {ch : Channel} (hch : s'.channels[c]? = some ch) : ch.closed = false := by
  have hlt : c < s'.channels.length := (List.getElem?_eq_some_iff.1 hch).1
  rcases h.channels_cases hb with hsame | ⟨ch', hopen, hopened⟩ | ⟨c', f, -, hmodified⟩
  · rw [hsame] at hlt
    exact absurd hc (Nat.not_le_of_lt hlt)
  · rw [hopened, List.getElem?_append_right hc, List.getElem?_singleton] at hch
    split_ifs at hch
    rwa [← Option.some.inj hch]
  · rw [hmodified, List.length_modify] at hlt
    exact absurd hc (Nat.not_le_of_lt hlt)

/-- A job that receives leaves the channel open, unless nobody receives from it any more. -/
theorem Stepped.takes (h : Stepped st k x s s') (hx : x.takes c = true) {ch ch' : Channel}
    (hch : s.channels[c]? = some ch) (hopen : ch.closed = false) (hch' : s'.channels[c]? = some ch')
    (hclosed : ch'.closed = true) (hy : x.Yields st s s' new spawned) : takers c new spawned = 0 := by
  have hkept : ∀ f : Channel → Channel, (∀ ch, (f ch).closed = ch.closed) → s'.channels ≠ s.channels.modify c f := by
    intro f hf heq
    rw [heq, List.getElem?_modify_eq, hch] at hch'
    obtain rfl := Option.some.inj hch'
    rw [hf, hopen] at hclosed
    cases hclosed
  cases x with
  | drain c' describe left =>
    obtain rfl : c' = c := of_decide_eq_true hx
    obtain ⟨rfl, hy⟩ := hy
    split at hy
    · exact absurd hy.2.2 (hkept _ fun _ => rfl)
    · exact absurd hy.2.2 (hkept _ fun _ => rfl)
    · obtain ⟨rfl, -⟩ := hy
      rfl
  | launched t watcher l c' =>
    obtain ⟨p, hboard⟩ := h.board
    have hsame : s'.channels = s.channels := congrArg Board.channels hboard
    rw [hsame, hch] at hch'
    rw [← Option.some.inj hch', hopen] at hclosed
    cases hclosed
  | _ => cases hx

/-- In every state of a run a channel has one receiver at most, and none once it is closed. -/
structure State.Attended (s : State σ) : Prop where
  opened : s.Opened
  once : ∀ c, s.pending (Job.takes c) ≤ 1
  closed : ∀ c ch, s.channels[c]? = some ch → ch.closed = true → s.pending (Job.takes c) = 0

/-- A step takes a job away, and what receives instead is among the jobs that come of it. -/
theorem Stepped.pending_takes (h : Stepped st k x s s') :
    ∃ js new spawned, (∃ t ∈ s.threads, t.jobs = x :: js) ∧ x.Yields st s s' new spawned ∧
      ∀ c, s'.pending (Job.takes c) + [x].countP (Job.takes c) ≤ s.pending (Job.takes c) + takers c new spawned := by
  obtain ⟨js, new, spawned, ht, hy, hlaw⟩ := h.pending
  refine ⟨js, new, spawned, ht, hy, fun c => ?_⟩
  unfold takers
  rcases hlaw with hlaw | ⟨-, -, -, hlaw⟩
  · have := hlaw (Job.takes c)
    omega
  · have := hlaw (Job.takes c)
    rw [List.countP_cons] at this
    rw [List.countP_singleton]
    omega

theorem State.Attended.step (hs : s.Attended) (h : Stepped st k x s s') (hb : s.scope.broken = false) :
    s'.Attended := by
  obtain ⟨js, new, spawned, ⟨t, ht, htj⟩, hy, hpending⟩ := h.pending_takes
  have hx : ∀ c, x.channel? = some c → c < s.channels.length :=
    fun c hc => hs.opened t ht x (htj ▸ List.mem_cons_self) c hc
  refine ⟨hs.opened.step h hb, fun c => ?_, fun c ch hch hclosed => ?_⟩
  · have hle := hy.takers_le (c := c) hx
    have hp := hpending c
    split_ifs at hle with hc
    · exact le_of_add_le_add_right (hp.trans ((Nat.add_le_add_left hle _).trans (Nat.add_le_add_right (hs.once c) _)))
    · have hzero : s.pending (Job.takes c) = 0 := by
        refine State.pending_eq_zero.2 fun u hu j hj => ?_
        by_contra htakes
        exact hc (hs.opened u hu j hj c (Job.channel?_of_takes (Bool.not_eq_false _ ▸ htakes)))
      omega
  · rcases Nat.lt_or_ge c s.channels.length with hc | hc
    swap
    · rw [h.opened hb hc hch] at hclosed
      cases hclosed
    have hle := hy.takers_le (c := c) hx
    rw [if_pos hc] at hle
    have hp := hpending c
    obtain ⟨ch₀, hch₀⟩ : ∃ ch₀, s.channels[c]? = some ch₀ := ⟨_, List.getElem?_eq_getElem hc⟩
    rcases htakes : x.takes c with _ | _
    · obtain ⟨ch', hch', hkept⟩ := h.channel hb htakes hch₀
      obtain rfl := Option.some.inj (hch.symm.trans hch')
      split_ifs at hkept with hclosed₀
      · have := hs.closed c ch₀ hch₀ hclosed₀
        omega
      · rw [hkept.closed] at hclosed
        cases hclosed
    · have hone : s.pending (Job.takes c) ≠ 0 := State.pending_pos ht (htj ▸ List.mem_cons_self) htakes
      have hopen : ch₀.closed = false := by
        by_contra hclosed₀
        exact hone (hs.closed c ch₀ hch₀ (Bool.not_eq_false _ ▸ hclosed₀))
      have hzero := h.takes htakes hch₀ hopen hch hclosed hy
      have honce := hs.once c
      rw [List.countP_singleton, if_pos htakes] at hp
      omega

theorem Chronicle.attended {sc : Scope σ} {actions : List Action} {report : Report} {d : List (Moment σ)}
    (hd : Chronicle st (start st sc actions report) d s) (hb : sc.broken = false) : s.Attended := by
  refine hd.invariant (P := fun _ s => s.Attended) hb ⟨start_opened st sc actions report, fun c => ?_, nofun⟩
    (fun _ _ _ _ _ hs h hb => hs.step h hb) fun _ _ _ hs _ _ => ⟨hs.opened, hs.once, hs.closed⟩
  exact Nat.zero_le 1

/-! ### Channels that are lost -/

/-- A thread that breaks off loses the channels that it alone received from. -/
theorem State.SoleReceiver.crash (hs : s.SoleReceiver i c) : (s.crash i).accepts c = false := by
  refine accepts_eq_false_of_pending (pending_eq_zero.2 fun u hu j hj => ?_)
  obtain ⟨t, ht⟩ := List.mem_iff_getElem?.1 hu
  unfold State.crash at ht
  rw [List.getElem?_modify] at ht
  obtain ⟨v, hv, rfl⟩ := Option.map_eq_some_iff.1 ht
  split_ifs at hj with hti
  · cases hj
  · exact hs t v hv (Ne.symm hti) j hj

/-- A channel accepts signals as long as it has a receiver. -/
theorem State.Attended.accepts_eq_false (hs : s.Attended) : s.accepts c = false ↔ s.pending (Job.takes c) = 0 := by
  refine ⟨fun h => ?_, accepts_eq_false_of_pending⟩
  by_contra hpending
  have hc : c < s.channels.length := by
    by_contra hc
    refine hpending (pending_eq_zero.2 fun t ht j hj => ?_)
    by_contra htakes
    exact hc (hs.opened t ht j hj c (Job.channel?_of_takes (Bool.not_eq_false _ ▸ htakes)))
  have hch : s.channels[c]? = some s.channels[c] := List.getElem?_eq_getElem hc
  cases hclosed : s.channels[c].closed with
  | true => exact hpending (hs.closed c _ hch hclosed)
  | false => exact hpending (pending_takes_eq_zero hch hclosed h)

/-- No step makes a channel accept signals again. -/
theorem State.Attended.lost_step (hs : s.Attended) (h : Stepped st k x s s') (hb : s.scope.broken = false)
    (hc : c < s.channels.length) (hlost : s.accepts c = false) : s'.accepts c = false := by
  obtain ⟨js, new, spawned, ⟨t, ht, htj⟩, hy, hpending⟩ := h.pending_takes
  have hle := hy.takers_le (c := c) fun c' hc' => hs.opened t ht x (htj ▸ List.mem_cons_self) c' hc'
  rw [if_pos hc] at hle
  have hp := hpending c
  have hzero := hs.accepts_eq_false.1 hlost
  exact (hs.step h hb).accepts_eq_false.2 (by omega)

/-- A channel that does not accept signals any more never does again. -/
theorem State.Attended.lost {d : List (Moment σ)} (hs : s.Attended) (hd : Chronicle st s d s')
    (hb : s.scope.broken = false) (hc : c < s.channels.length) (hlost : s.accepts c = false) :
    s'.accepts c = false := by
  have h := hd.invariant (P := fun _ s => s.Attended ∧ c < s.channels.length ∧ s.accepts c = false) hb
    ⟨hs, hc, hlost⟩ ?_ fun _ _ _ ⟨hs, hc, hlost⟩ _ _ => ⟨⟨hs.opened, hs.once, hs.closed⟩, hc, hlost⟩
  · exact h.2.2
  · rintro - k x s s' ⟨hs, hc, hlost⟩ h hb
    exact ⟨hs.step h hb, hc.trans_le (h.channels_le hb), hs.lost_step h hb hc hlost⟩

/-! ### Threads about to receive -/

/-- A thread that is about to receive is the only one that does so from its channel, and that is open. -/
theorem State.Attended.receives {describe : String} {n tally : Nat} (hs : s.Attended) (hb : s.scope.broken = false)
    (hthread : s.threads[i]? = some ⟨.drain c describe n :: js, tally, false⟩) :
    ∃ ch, s.Receives i c (.drain c describe n :: js) tally ch := by
  have hmem : (⟨.drain c describe n :: js, tally, false⟩ : Thread) ∈ s.threads := List.mem_of_getElem? hthread
  have htakes : (Job.drain c describe n).takes c = true := decide_eq_true rfl
  have hc : c < s.channels.length := hs.opened _ hmem _ List.mem_cons_self c rfl
  have hch : s.channels[c]? = some s.channels[c] := List.getElem?_eq_getElem hc
  have hopen : s.channels[c].closed = false := by
    by_contra hclosed
    exact State.pending_pos hmem List.mem_cons_self htakes (hs.closed c _ hch (Bool.not_eq_false _ ▸ hclosed))
  refine ⟨s.channels[c], hb, hthread, fun t u hu hti j hj => ?_, hch, hopen⟩
  -- The thread itself makes one receiver of the channel, so that there is none among the others.
  have hset := State.sum_map_set (fun t : Thread => t.jobs.countP (Job.takes c)) ⟨[], 0, false⟩ hthread
  have honce : (s.threads.map fun t => t.jobs.countP (Job.takes c)).sum ≤ 1 := hs.once c
  have hpos : 0 < (Job.drain c describe n :: js).countP (Job.takes c) :=
    List.countP_pos_iff.2 ⟨_, List.mem_cons_self, htakes⟩
  have hzero : ((s.threads.set i ⟨[], 0, false⟩).map fun t => t.jobs.countP (Job.takes c)).sum = 0 := by
    simp only [List.countP_nil] at hset
    omega
  have hu' : (s.threads.set i ⟨[], 0, false⟩)[t]? = some u := by rwa [List.getElem?_set_ne (Ne.symm hti)]
  have hnone := List.sum_eq_zero_iff_forall_eq_nat.1 hzero _ (List.mem_map_of_mem (List.mem_of_getElem? hu'))
  exact Bool.not_eq_true _ ▸ List.countP_eq_zero.1 hnone j hj

/-- So is every thread of a run that is about to receive. -/
theorem Chronicle.receives {sc : Scope σ} {actions : List Action} {report : Report} {d : List (Moment σ)}
    {describe : String} {n tally : Nat} (hd : Chronicle st (start st sc actions report) d s) (hb : sc.broken = false)
    (hthread : s.threads[i]? = some ⟨.drain c describe n :: js, tally, false⟩) :
    ∃ ch, s.Receives i c (.drain c describe n :: js) tally ch :=
  (hd.attended hb).receives (hd.unbroken hb) hthread

end

end Workload.Run

import Mathlib.Data.List.Nodup
import Workload.Proofs.Texts
import Workload.Rehearsal

/-!
# What a rehearsal hands out

What a rehearsal answers is settled by what was asked of it before (`answers_follow`).  It gives every
handle once, in the order of their numbers, and deals the signals of the script out to the containers in the
order of their launches; and it tells what the script has for a handle before it says whether the container
is there.
-/

namespace Workload.Rehearsal

/-- What can be asked of a rehearsal. -/
inductive Request where
  | run (task : Task)
  | start (handle : String)
  | kill (handle : String)
  | remove (handle : String)
  | copy (handle source target : String)
  | status (handle : String)
  | reclaim (soft : Bool)
  | purge
  | scriptStatuses (handle : String) (answers : List (Except RuntimeFault ContainerStatus))
  | scriptSignals (signals : List Signal)
  | refuse

/-- What comes back. -/
inductive Answer where
  | launched (reply : Reply RuntimeFault Launch)
  | told (reply : Reply RuntimeFault ContainerStatus)
  | done (reply : Reply RuntimeFault Unit)
  | scripted

/-- Changes the script of a world's containers. -/
def rescript (f : Rehearsal → Rehearsal) (w : World Rehearsal) : Answer × World Rehearsal :=
  (.scripted, { w with containers := f w.containers })

def Request.make : Request → World Rehearsal → Answer × World Rehearsal
  | .run t, w => (runtime.run t w).map .launched id
  | .start h, w => (runtime.start h w).map .done id
  | .kill h, w => (runtime.kill h w).map .done id
  | .remove h, w => (runtime.remove h w).map .done id
  | .copy h source target, w => (runtime.copy h source target w).map .done id
  | .status h, w => (runtime.status h w).map .told id
  | .reclaim soft, w => (runtime.reclaim soft w).map .done id
  | .purge, w => (runtime.purge w).map .done id
  | .scriptStatuses h answers, w => rescript (·.scriptStatuses h answers) w
  | .scriptSignals signals, w => rescript (·.scriptSignals signals) w
  | .refuse, w => rescript (·.refuse) w

/-- A request, and what came back. -/
structure Exchange where
  request : Request
  answer : Answer

/-- Makes requests one after the other. -/
def converse (w : World Rehearsal) : List Request → List Exchange
  | [] => []
  | q :: qs => ⟨q, (q.make w).1⟩ :: converse (q.make w).2 qs

/-- The world after some requests. -/
def after (w : World Rehearsal) (qs : List Request) : World Rehearsal :=
  qs.foldl (fun w q => (q.make w).2) w

/-! ### What a conversation tells -/

/-- What was launched with an exchange. -/
def Exchange.launch? (e : Exchange) : Option (Task × Launch) :=
  match e.request, e.answer with
  | .run t, .launched reply => reply.result.toOption.map fun l => (t, l)
  | _, _ => none

/-- The containers that an exchange gave. -/
def Exchange.containers (e : Exchange) : List String :=
  e.launch?.elim [] fun p => p.2.containers

/-- The handles given in a conversation. -/
def handed (es : List Exchange) : List String := es.flatMap Exchange.containers

/-- The launches of a conversation. -/
def launched (es : List Exchange) : List RehearsedLaunch :=
  (es.filterMap Exchange.launch?).map fun p => ⟨p.2.handle, p.1⟩

/-- What an exchange leaves of the signals to come: every container takes one. -/
def Exchange.deal (signals : List Signal) (e : Exchange) : List Signal :=
  match e.request with
  | .run _ => signals.drop e.containers.length
  | .scriptSignals more => signals ++ more
  | _ => signals

/-- The signals of the script that no container has had. -/
def pending (es : List Exchange) : List Signal := es.foldl Exchange.deal []

/-- What an exchange leaves of the statuses to be told for a handle: whoever asks for it is told one. -/
def Exchange.tell (h : String) (answers : List (Except RuntimeFault ContainerStatus)) (e : Exchange) :
    List (Except RuntimeFault ContainerStatus) :=
  match e.request with
  | .status h' => if h = h' then answers.tail else answers
  | .scriptStatuses h' more => if h = h' then answers ++ more else answers
  | _ => answers

/-- The statuses of the script for a handle that have not been told. -/
def untold (h : String) (es : List Exchange) : List (Except RuntimeFault ContainerStatus) :=
  es.foldl (Exchange.tell h) []

/-- Whether a request takes a container away. -/
def Request.TakesAway (h : String) : Request → Prop
  | .remove h' => h' = h
  | .reclaim soft => soft = false
  | .purge => True
  | _ => False

/-- A container is there that was given and has not been taken away since. -/
def Present (es : List Exchange) (h : String) : Prop :=
  ∃ before e since, es = before ++ e :: since ∧ h ∈ e.containers ∧ ∀ e' ∈ since, ¬e'.request.TakesAway h

/-- What a launch gives after a conversation: for each instance a container, and to each container the next
signal of the script, as far as there are any. -/
structure Gives (es : List Exchange) (t : Task) (l : Launch) : Prop where
  count : l.containers.length = max t.concurrency 1
  first : l.containers.head? = some l.handle
  signals : ∃ signals, l.signals = some signals ∧ signals.length = max t.concurrency 1 ∧
    signals = (pending es).take (max t.concurrency 1) ++
      List.replicate (max t.concurrency 1 - (pending es).length) none

/-- What a rehearsal answers in a world after a conversation. -/
structure Answers (es : List Exchange) (w : World Rehearsal) : Prop where
  once : (handed es).Nodup
  recorded : w.containers.launches = launched es
  /-- No launch comes off once launches are refused. -/
  gives : ∀ {t l}, (runtime.run t w).1.result = .ok l →
    .refuse ∉ es.map Exchange.request ∧ t.instances ≤ maxListed ∧ Gives es t l
  /-- What does not come off leaves no trace. -/
  refuses : ∀ {t fault}, (runtime.run t w).1.result = .error fault →
    (.refuse ∈ es.map Exchange.request ∨ maxListed < t.instances) ∧
      fault = .command ("mock launch refused for " ++ t.image) ∧ (runtime.run t w).2 = w
  possible : ∀ {t}, t.instances ≤ maxListed → (runtime.run t w).1.broken = false
  tells : ∀ {h answer rest}, untold h es = answer :: rest → (runtime.status h w).1.result = answer
  running : ∀ {h}, untold h es = [] → Present es h → (runtime.status h w).1.result = .ok .running
  missing : ∀ {h}, untold h es = [] → ¬Present es h → (runtime.status h w).1.result = .error (.notFound h)

section Conversations

variable {w : World Rehearsal} {es es' : List Exchange} {e : Exchange} {h : String}

theorem converse_append (qs qs' : List Request) :
    converse w (qs ++ qs') = converse w qs ++ converse (after w qs) qs' := by
  induction qs generalizing w with
  | nil => rfl
  | cons q qs ih => exact congrArg _ ih

theorem handed_append : handed (es ++ es') = handed es ++ handed es' := List.flatMap_append

/-- A container is there if it was just given, or was there before and is not taken away. -/
theorem present_snoc : Present (es ++ [e]) h ↔ h ∈ e.containers ∨ Present es h ∧ ¬e.request.TakesAway h := by
  constructor
  · rintro ⟨before, e', since, heq, hmem, hsince⟩
    rcases since.eq_nil_or_concat' with rfl | ⟨since, last, rfl⟩
    · obtain ⟨-, hlast⟩ := List.append_inj' heq rfl
      cases hlast
      exact .inl hmem
    · rw [← List.cons_append, ← List.append_assoc] at heq
      obtain ⟨rfl, hlast⟩ := List.append_inj' heq rfl
      cases hlast
      exact .inr ⟨⟨before, e', since, rfl, hmem, fun e he => hsince e (List.mem_append_left _ he)⟩,
        hsince _ (List.mem_append_right _ (List.mem_singleton_self _))⟩
  · rintro (hmem | ⟨⟨before, e', since, rfl, hmem, hsince⟩, hkeeps⟩)
    · exact ⟨es, e, [], rfl, hmem, fun _ he => absurd he List.not_mem_nil⟩
    · refine ⟨before, e', since ++ [e], by simp, hmem, fun e'' he => ?_⟩
      rcases List.mem_append.1 he with he | he
      · exact hsince _ he
      · rwa [List.mem_singleton.1 he]

theorem present_append (hpresent : Present (es ++ es') h) : Present es h ∨ h ∈ handed es' := by
  induction es' generalizing es with
  | nil => exact .inl (by simpa using hpresent)
  | cons e es' ih =>
    rw [List.append_cons] at hpresent
    rcases ih hpresent with hearlier | hlater
    · refine (present_snoc.1 hearlier).symm.imp And.left fun hmem => ?_
      exact List.mem_append_left _ hmem
    · exact .inr (List.mem_append_right _ hlater)

/-- A container that is gone stays away as long as no handle is given a second time. -/
theorem not_present_append (hnodup : (handed (es ++ es')).Nodup) (hmem : h ∈ handed es)
    (hgone : ¬Present es h) : ¬Present (es ++ es') h := by
  rw [handed_append, List.nodup_append] at hnodup
  exact fun hpresent => hnodup.2.2 h hmem h ((present_append hpresent).resolve_left hgone) rfl

end Conversations

/-! ### What a rehearsal keeps of a conversation -/

/-- The handles given so far. -/
def past (r : Rehearsal) : List String := (List.range r.given).map fun i => handle (i + 1)

/-- The statuses still to be told for a handle. -/
def script (r : Rehearsal) (h : String) : List (Except RuntimeFault ContainerStatus) :=
  (r.statuses.get? h).getD []

/-- The state of a rehearsal is what a conversation tells of it. -/
structure Reflects (es : List Exchange) (r : Rehearsal) : Prop where
  past : r.past = handed es
  launches : r.launches = launched es
  signals : r.signals = pending es
  script : ∀ h, r.script h = untold h es
  live : ∀ h, h ∈ r.live ↔ Present es h
  refusing : r.refusing = true ↔ .refuse ∈ es.map Exchange.request

/-- What becomes of the state of a rehearsal with an exchange. -/
structure Follows (r : Rehearsal) (e : Exchange) (r' : Rehearsal) : Prop where
  past : r'.past = r.past ++ e.containers
  launches : r'.launches = r.launches ++ e.launch?.toList.map fun p => ⟨p.2.handle, p.1⟩
  signals : r'.signals = e.deal r.signals
  script : ∀ h, r'.script h = e.tell h (r.script h)
  live : ∀ h, h ∈ r'.live ↔ h ∈ e.containers ∨ h ∈ r.live ∧ ¬e.request.TakesAway h
  refusing : r'.refusing = true ↔ r.refusing = true ∨ e.request = .refuse

section Requests

variable {w : World Rehearsal} {es : List Exchange} {e : Exchange} {r r' : Rehearsal} {h : String}

theorem handle_injective {m n : Nat} (h : handle m = handle n) : m = n :=
  Text.toString_injective ((String.append_right_inj _).1 h)

/-- No handle is given a second time. -/
theorem nodup_past (r : Rehearsal) : r.past.Nodup :=
  List.nodup_range.map fun _ _ h => Nat.succ.inj (handle_injective h)

/-- The handles of a launch follow those that were given before. -/
theorem past_add (r : Rehearsal) (n : Nat) : { r with given := r.given + n }.past = r.past ++ r.handles n := by
  unfold past
  rw [List.range_add, List.map_append, List.map_map]
  exact congrArg _ (List.map_congr_left fun i _ => congrArg handle (Nat.add_right_comm _ i 1))

theorem reflects_nil : Reflects [] {} := by
  refine ⟨rfl, rfl, rfl, fun _ => rfl, fun h => iff_of_false List.not_mem_nil ?_, by simp⟩
  rintro ⟨before, e, since, heq, -⟩
  simp at heq

theorem Reflects.snoc (hr : Reflects es r) (h : Follows r e r') : Reflects (es ++ [e]) r' := by
  refine ⟨?_, ?_, ?_, fun h' => ?_, fun h' => ?_, ?_⟩
  · rw [h.past, hr.past]
    simp [handed]
  · rw [h.launches, hr.launches]
    cases hlaunch : e.launch? <;> simp [launched, hlaunch]
  · rw [h.signals, hr.signals]
    simp [pending]
  · rw [h.script, hr.script]
    simp [untold]
  · rw [h.live, hr.live, present_snoc]
  · rw [h.refusing, hr.refusing]
    simp [eq_comm]

/-- The launch that a task is given. -/
def granted (t : Task) (r : Rehearsal) : Launch :=
  ⟨handle (r.given + 1), r.handles t.instances, some (r.nextSignals t.instances)⟩

/-- The state after that. -/
def grant (t : Task) (r : Rehearsal) : Rehearsal :=
  { r with
    given := r.given + t.instances
    live := r.live ++ r.handles t.instances
    signals := r.signals.drop t.instances
    launches := r.launches ++ [⟨handle (r.given + 1), t⟩] }

/-- A launch is refused and changes nothing, or gives the next handles and signals. -/
theorem run_cases (t : Task) (w : World Rehearsal) :
    (∃ reply : Reply RuntimeFault Launch, runtime.run t w = (reply, w) ∧
      reply.result = .error (.command ("mock launch refused for " ++ t.image)) ∧
      (w.containers.refusing = true ∨ maxListed < t.instances) ∧
      (t.instances ≤ maxListed → reply.broken = false)) ∨
    (w.containers.refusing = false ∧ t.instances ≤ maxListed ∧
      ∃ log, runtime.run t w = ({ result := .ok (granted t w.containers), log },
        { w with containers := grant t w.containers })) := by
  have hlimits : maxListed ≤ maxSignals := by decide
  change (∃ reply, World.inContainers (launch t) w = (reply, w) ∧ _) ∨
    (_ ∧ _ ∧ ∃ log, World.inContainers (launch t) w = _)
  unfold World.inContainers launch
  simp only []
  split_ifs with hsignals hrefusing hlisted
  · exact .inl ⟨_, rfl, rfl, .inr (Nat.lt_of_le_of_lt hlimits hsignals), fun h => by omega⟩
  · exact .inl ⟨_, rfl, rfl, .inl hrefusing, fun _ => rfl⟩
  · exact .inl ⟨_, rfl, rfl, .inr hlisted, fun h => by omega⟩
  · exact .inr ⟨by simpa using hrefusing, by omega, _, rfl⟩

theorem make_run (t : Task) (w : World Rehearsal) :
    (Request.run t).make w = (runtime.run t w).map .launched id :=
  rfl

/-- An exchange that gives nothing leaves all as it was but for what it takes away and what it does to the
script. -/
theorem follows_of_aside (hgives : e.launch? = none)
    (hkeeps : r'.given = r.given ∧ r'.launches = r.launches)
    (hsignals : r'.signals = e.deal r.signals)
    (hscript : ∀ h, r'.script h = e.tell h (r.script h))
    (hlive : ∀ h, h ∈ r'.live ↔ h ∈ r.live ∧ ¬e.request.TakesAway h)
    (hrefusing : r'.refusing = true ↔ r.refusing = true ∨ e.request = .refuse) : Follows r e r' := by
  have hcontainers : e.containers = [] := by
    unfold Exchange.containers
    rw [hgives]
    rfl
  refine ⟨?_, ?_, hsignals, hscript, fun h => ?_, hrefusing⟩
  · unfold past
    rw [hkeeps.1, hcontainers, List.append_nil]
  · rw [hkeeps.2, hgives]
    exact (List.append_nil _).symm
  · rw [hlive, hcontainers]
    simp

theorem status_of_cons {answer : Except RuntimeFault ContainerStatus}
    {rest : List (Except RuntimeFault ContainerStatus)} (hscript : r.script h = answer :: rest) :
    status h r = ({ result := answer },
      { r with statusCalls := r.statusCalls + 1, statuses := r.statuses.put h rest }) := by
  have hget : r.statuses.get? h = some (answer :: rest) := by
    unfold script at hscript
    cases hget : r.statuses.get? h with
    | none =>
      rw [hget] at hscript
      cases hscript
    | some answers =>
      rw [hget] at hscript
      exact congrArg some hscript
  unfold status
  simp only []
  rw [hget]

theorem status_of_nil (hscript : r.script h = []) :
    status h r = (if h ∈ r.live then .done .running else .failed (.notFound h),
      { r with statusCalls := r.statusCalls + 1 }) := by
  have hget : ∀ answer rest, r.statuses.get? h ≠ some (answer :: rest) := by
    intro answer rest hget
    unfold script at hscript
    rw [hget] at hscript
    cases hscript
  unfold status
  -- whatever the script has, no answer is left in it, so that the last case is the one
  simp only []
  split_ifs <;> rfl

theorem script_put (h h' : String) (answers : List (Except RuntimeFault ContainerStatus)) :
    { r with statuses := r.statuses.put h answers }.script h' = if h' = h then answers else r.script h' := by
  unfold script
  split_ifs with hh
  · rw [hh, Named.get?_put_self]
    rfl
  · rw [Named.get?_put_of_ne _ hh]

theorem make_status (h : String) (w : World Rehearsal) :
    (Request.status h).make w =
      (.told (status h w.containers).1, { w with containers := (status h w.containers).2 }) :=
  rfl

/-- Every request changes the state as the exchange tells. -/
theorem follows_make (q : Request) (w : World Rehearsal) :
    Follows w.containers ⟨q, (q.make w).1⟩ (q.make w).2.containers := by
  have hstays : ∀ {h : String}, h ∈ w.containers.live ↔ h ∈ w.containers.live ∧ ¬False := by simp
  have hrefusing : ∀ {q : Request}, q ≠ .refuse →
      (w.containers.refusing = true ↔ w.containers.refusing = true ∨ q = .refuse) := by
    intro q hq
    simp [hq]
  cases q with
  | run t =>
    rw [make_run]
    rcases run_cases t w with ⟨reply, hrun, hresult, -⟩ | ⟨-, -, log, hrun⟩
    · rw [hrun]
      have hgives : Exchange.launch? ⟨.run t, .launched reply⟩ = none := by
        simp [Exchange.launch?, hresult, Except.toOption]
      refine follows_of_aside hgives ⟨rfl, rfl⟩ ?_ (fun _ => rfl) (fun _ => hstays) (hrefusing nofun)
      simp [Exchange.deal, Exchange.containers, hgives]
    · -- the one exchange that gives handles
      rw [hrun]
      refine ⟨past_add _ _, rfl, ?_, fun _ => rfl, fun h => ?_, hrefusing nofun⟩
      · have hcount : (w.containers.handles t.instances).length = t.instances := by simp [handles]
        exact congrArg (w.containers.signals.drop ·) hcount.symm
      · exact List.mem_append.trans (or_comm.trans (or_congr_right hstays))
  | start h | kill h | copy h source target =>
    exact follows_of_aside rfl ⟨rfl, rfl⟩ rfl (fun _ => rfl) (fun _ => hstays) (hrefusing nofun)
  | status h =>
    rw [make_status]
    cases hscript : w.containers.script h with
    | nil =>
      rw [status_of_nil hscript]
      refine follows_of_aside rfl ⟨rfl, rfl⟩ rfl (fun h' => ?_) (fun _ => hstays) (hrefusing nofun)
      show w.containers.script h' = if h' = h then (w.containers.script h').tail else w.containers.script h'
      split_ifs with hh
      · rw [hh, hscript]
        rfl
      · rfl
    | cons answer rest =>
      rw [status_of_cons hscript]
      refine follows_of_aside rfl ⟨rfl, rfl⟩ rfl (fun h' => ?_) (fun _ => hstays) (hrefusing nofun)
      refine (script_put h h' rest).trans ?_
      show _ = if h' = h then (w.containers.script h').tail else w.containers.script h'
      split_ifs with hh
      · rw [hh, hscript]
        rfl
      · rfl
  | remove h =>
    refine follows_of_aside rfl ⟨rfl, rfl⟩ rfl (fun _ => rfl) (fun h' => ?_) (hrefusing nofun)
    refine List.mem_filter.trans (and_congr_right fun _ => ?_)
    rw [decide_eq_true_eq]
    exact not_congr eq_comm
  | reclaim soft =>
    refine follows_of_aside rfl ⟨rfl, rfl⟩ rfl (fun _ => rfl) (fun h => ?_) (hrefusing nofun)
    cases soft with
    | true => exact (and_iff_left nofun).symm
    | false => exact iff_of_false List.not_mem_nil fun h => h.2 rfl
  | purge =>
    refine follows_of_aside rfl ⟨rfl, rfl⟩ rfl (fun _ => rfl) (fun h => ?_) (hrefusing nofun)
    exact iff_of_false List.not_mem_nil fun h => h.2 trivial
  | scriptStatuses h answers =>
    refine follows_of_aside rfl ⟨rfl, rfl⟩ rfl (fun h' => ?_) (fun _ => hstays) (hrefusing nofun)
    refine (script_put h h' _).trans ?_
    show _ = if h' = h then w.containers.script h' ++ answers else w.containers.script h'
    split_ifs with hh
    · rw [hh]
      rfl
    · rfl
  | scriptSignals signals =>
    exact follows_of_aside rfl ⟨rfl, rfl⟩ rfl (fun _ => rfl) (fun _ => hstays) (hrefusing nofun)
  | refuse =>
    refine follows_of_aside rfl ⟨rfl, rfl⟩ rfl (fun _ => rfl) (fun _ => hstays) ?_
    exact iff_of_true rfl (.inr rfl)

/-- A conversation is reflected in the state at its end. -/
theorem reflects_converse (hr : Reflects es w.containers) (qs : List Request) :
    Reflects (es ++ converse w qs) (after w qs).containers := by
  induction qs generalizing es w with
  | nil => exact (List.append_nil es).symm ▸ hr
  | cons q qs ih =>
    rw [converse, List.append_cons]
    exact ih (hr.snoc (follows_make q w))

theorem Reflects.gives (hr : Reflects es r) (t : Task) : Gives es t (granted t r) where
  count := by simp [granted, handles, Task.instances]
  first := by
    have hpos : t.instances ≠ 0 := by
      unfold Task.instances
      omega
    obtain ⟨n, hn⟩ := Nat.exists_eq_succ_of_ne_zero hpos
    unfold granted handles
    rw [hn]
    simp [List.range_succ_eq_map]
  signals := by
    rw [← hr.signals]
    exact ⟨_, rfl, length_nextSignals r _, rfl⟩

/-- What is reflected in the state settles what is answered. -/
theorem Reflects.answers (hr : Reflects es w.containers) : Answers es w where
  once := hr.past ▸ nodup_past _
  recorded := hr.launches
  gives {t l} h := by
    rcases run_cases t w with ⟨reply, hrun, hresult, -⟩ | ⟨hrefusing, hcount, log, hrun⟩
    · rw [hrun, hresult] at h
      cases h
    · rw [hrun] at h
      obtain rfl := Except.ok.inj h
      refine ⟨?_, hcount, hr.gives t⟩
      rw [← hr.refusing, hrefusing]
      nofun
  refuses {t fault} h := by
    rcases run_cases t w with ⟨reply, hrun, hresult, hwhy, -⟩ | ⟨-, -, log, hrun⟩
    · rw [hrun] at h ⊢
      rw [hresult] at h
      exact ⟨hwhy.imp_left hr.refusing.1, (Except.error.inj h).symm, rfl⟩
    · rw [hrun] at h
      cases h
  possible {t} hcount := by
    rcases run_cases t w with ⟨reply, hrun, -, -, hwhole⟩ | ⟨-, -, log, hrun⟩
    · rw [hrun]
      exact hwhole hcount
    · rw [hrun]
  tells {h answer rest} huntold := by
    rw [← hr.script] at huntold
    exact congrArg (fun p => p.1.result) (status_of_cons huntold)
  running {h} huntold hpresent := by
    rw [← hr.script] at huntold
    have hstatus := congrArg (fun p => p.1.result) (status_of_nil huntold)
    rwa [if_pos ((hr.live h).2 hpresent)] at hstatus
  missing {h} huntold hpresent := by
    rw [← hr.script] at huntold
    have hstatus := congrArg (fun p => p.1.result) (status_of_nil huntold)
    rwa [if_neg (mt (hr.live h).1 hpresent)] at hstatus

end Requests

/-- The world in which a rehearsal starts. -/
def opening (addresses : Named String) (files : Files) : World Rehearsal :=
  { containers := {}, addresses, files }

/-- What was asked of a rehearsal settles what it answers next, and a container that has gone stays away
whatever else is asked. -/
theorem answers_follow (addresses : Named String) (files : Files) (qs : List Request) :
    Answers (converse (opening addresses files) qs) (after (opening addresses files) qs) ∧
    ∀ h ∈ handed (converse (opening addresses files) qs), ¬Present (converse (opening addresses files) qs) h →
      ∀ more, ¬Present (converse (opening addresses files) (qs ++ more)) h := by
  have hopening : Reflects [] (opening addresses files).containers := reflects_nil
  have hreflects : ∀ qs, Reflects (converse (opening addresses files) qs)
      (after (opening addresses files) qs).containers :=
    fun qs => reflects_converse hopening qs
  refine ⟨(hreflects qs).answers, fun h hmem hgone more => ?_⟩
  have hnodup := (hreflects (qs ++ more)).answers.once
  rw [converse_append] at hnodup ⊢
  exact not_present_append hnodup hmem hgone

end Workload.Rehearsal

import Workload.Proofs.OneReading
import Workload.Proofs.Straight

/-!
# Resolution

A pass over plain actions that are waited for and launched once, over operations, includes and references
to templates asks for the launches of its list as it is read from the first action to the last
(`resolution_flattens`).
-/

namespace Workload.Run

variable {σ : Type}

/-! ## Threads in line -/

/-- A job of the run as a whole that a pass does not consist of. -/
def Job.phase : Job → Bool
  | .opening .. | .passes .. | .reclaim _ | .emit | .teardown | .saveLogs | .removeServers => true
  | _ => false

/-- The first thread resolves actions, and the others stand aside. -/
structure InLine (s : State σ) : Prop where
  main : ∀ j ∈ s.main, j.Straight ∨ j.phase = true
  others : ∀ (k : ThreadId) t, k ≠ 0 → s.threads[k]? = some t → ∀ j ∈ t.jobs, j.aside = true

section

variable {st : Settings σ} {s s' : State σ} {i : ThreadId} {j : Job} {js new : List Job}
  {spawned : List (List Job)}

theorem phase_of_closes (h : j.closes = true) : j.phase = true := by
  cases j <;> first | rfl | cases h

theorem phase_new (hj : j.phase = true) (hy : j.Yields st s s' new spawned) :
    ∀ x ∈ new, x.Straight ∨ x.phase = true := by
  cases j with
  | opening calls inv =>
    cases calls with
    | nil =>
      obtain ⟨-, hy⟩ := hy
      split_ifs at hy <;> simp [hy.1, Job.phase]
    | cons c cs =>
      obtain ⟨-, hy⟩ := hy
      split at hy <;> simp [hy.1, Job.phase]
  | passes inv limit pass =>
    obtain ⟨rfl, -⟩ := hy
    split_ifs
    · simp [Job.Straight, Job.phase]
    · exact fun x hx => .inr (phase_of_closes (closes_of_mem x hx))
  | reclaim | emit | teardown | saveLogs | removeServers =>
    rw [hy.1]
    simp
  | _ => cases hj

theorem followers_aside {k : Ticket} (hk : k.repeats = 0) (l : Launch) (c : ChannelId) :
    ∀ js ∈ k.followers l c, ∀ x ∈ js, x.aside = true := by
  unfold Ticket.followers
  rw [if_pos hk]
  simp [Job.aside]

theorem launch_aside {k : Ticket} (hu : k.until_.isEmpty = true) (hk : k.repeats = 0)
    (hy : (Job.launch k).Yields st s s' new spawned) : ∀ js ∈ spawned, ∀ x ∈ js, x.aside = true := by
  have hw : ∀ p, k.watchers p = [] := fun p => if_pos hu
  have hobservers : ∀ (l : Launch) (c : ChannelId), ∀ js ∈ k.observers l c, ∀ x ∈ js, x.aside = true := by
    intro l c js hjs x hx
    obtain ⟨id, -, rfl⟩ := List.mem_map.1 hjs
    obtain rfl := List.mem_singleton.1 hx
    rfl
  rcases hy with ⟨p, -, -, -, -, rfl | rfl⟩ | ⟨-, -, hy⟩
  · simp
  · simp [hw]
  · generalize hres : (s.scope.launch st.env k.task).1 = r at hy
    cases hy with
    | refused fault p => simp [hw]
    | known l signals p watcher restarter =>
      rw [hw, List.nil_append]
      exact followers_aside hk l _
    | watched l p watcher restarter =>
      rw [hw, List.nil_append]
      intro js hjs
      rcases List.mem_append.1 hjs with hjs | hjs
      · exact hobservers l _ js hjs
      · exact followers_aside hk l _ js hjs
    | awaited l p watcher observers =>
      rw [hw, List.nil_append]
      exact hobservers l _

/-- Threads that are started stand aside. -/
theorem spawned_aside (hj : j.Straight ∨ j.phase = true ∨ j.aside = true) (hseq : j.sequential = true)
    (hy : j.Yields st s s' new spawned) : ∀ js ∈ spawned, ∀ x ∈ js, x.aside = true := by
  cases j with
  | opening calls inv =>
    cases calls with
    | nil =>
      obtain ⟨-, hy⟩ := hy
      split_ifs at hy
      · rw [hy.2]
        intro js hjs x hx
        split_ifs at hjs
        · obtain rfl := List.mem_singleton.1 hjs
          rcases List.mem_cons.1 hx with rfl | hx
          · rfl
          · obtain rfl := List.mem_singleton.1 hx
            rfl
        · cases hjs
      · rw [hy.2]
        simp
    | cons c cs =>
      rw [hy.1]
      simp
  | walk pass last rest =>
    cases rest with
    | nil =>
      rw [hy.2]
      simp
    | cons a rest =>
      rw [hy.1]
      simp
  | dispatch a =>
    rcases hy with ⟨-, rfl⟩ | ⟨task, hy⟩
    · simp
    · obtain ⟨hw, -⟩ : a.wait = true ∧ a.brief = true := by
        simpa [Job.sequential] using hseq
      rw [if_pos hw] at hy
      rw [hy.2]
      simp
  | launch k =>
    rcases hj with hj | hj | hj
    · exact launch_aside hj.1 hj.2 hy
    · cases hj
    · cases hj
  | launched k watcher l c =>
    rcases hj with hj | hj | hj
    · rw [hy.2]
      exact followers_aside hj.2 l c
    · cases hj
    · cases hj
  | passes | expire =>
    rw [hy.2]
    simp
  | control | drain | failed | watch =>
    rw [hy.1]
    simp
  | reclaim | emit | teardown | saveLogs | removeServers | elapsed | setLoops | stopOnError | send
  | sleep | wake | join | hang =>
    rw [hy.2]
    simp
  | _ => rcases hj with hj | hj | hj <;> cases hj

theorem aside_new (hf : ∀ describe fault, j ≠ .failed describe fault) (hj : j.aside = true)
    (hy : j.Yields st s s' new spawned) : ∀ x ∈ new, x.aside = true := by
  cases j with
  | drain c describe left =>
    obtain ⟨-, hy⟩ := hy
    split at hy <;> simp [hy.1, Job.aside]
  | watch task id c =>
    obtain ⟨-, rfl | ⟨signal, rfl⟩ | rfl | rfl⟩ := hy <;> simp [Job.aside]
  | expire task id c =>
    obtain ⟨rfl | ⟨signal, rfl⟩, -⟩ := hy <;> simp [Job.aside]
  | failed describe fault => exact absurd rfl (hf describe fault)
  | stopOnError | send | sleep | wake | join | hang | elapsed =>
    rw [hy.1]
    simp [Job.aside]
  | _ => cases hj

theorem inLine_step (hc : st.collects = false) (hb : s.scope.broken = false)
    (h : Stepped st i j s s') (hseq : j.sequential = true) (hs : InLine s) : InLine s' := by
  obtain ⟨t, js, new, spawned, ht, hj, hy, hcases⟩ := h.thread_cases
  have hkind : j.Straight ∨ j.phase = true ∨ j.aside = true := by
    by_cases hi : i = 0
    · subst hi
      exact (hs.main j (by rw [main_eq ht, hj]; exact List.mem_cons_self)).imp_right .inl
    · exact .inr (.inr (hs.others i t hi ht j (hj ▸ List.mem_cons_self)))
  refine ⟨?_, fun k u hk hu => ?_⟩
  · rcases main_step h with ⟨rfl, js', new', spawned', hmain, hy', -, hgo⟩ | ⟨-, -, hmain, -⟩
    · have hall := hs.main
      rw [hmain] at hall
      have hrest : ∀ x ∈ js', x.Straight ∨ x.phase = true := fun x hx => hall x (List.mem_cons_of_mem j hx)
      rcases hall j List.mem_cons_self with hstraight | hphase
      · rcases goesOn_of_stepped hc hb h hmain hstraight hseq with ⟨hoff, -⟩ | ⟨made, new, -, hgo⟩
        · rw [hoff]
          simp
        · rw [hgo.main]
          exact fun x hx => (List.mem_append.1 hx).elim (fun hx => .inl (hgo.straight x hx)) (hrest x)
      · rcases hgo with ⟨hgo, -⟩ | ⟨hoff, -⟩
        · rw [hgo]
          exact fun x hx => (List.mem_append.1 hx).elim (phase_new hphase hy' x) (hrest x)
        · rw [hoff]
          simp
    · rw [hmain]
      exact hs.main
  · rcases hcases k u hu with ⟨rfl, ⟨hjobs, -⟩ | ⟨hjobs, -⟩⟩ | ⟨-, hold⟩ | ⟨-, -, l, hl, rfl⟩
    · have haside := hs.others k t hk ht
      rw [hj] at haside
      have hrest : ∀ x ∈ js, x.aside = true := fun x hx => haside x (List.mem_cons_of_mem j hx)
      by_cases hf : ∃ describe fault, j = .failed describe fault
      · obtain ⟨describe, fault, rfl⟩ := hf
        obtain ⟨left, hleft, hu'⟩ := quiet_failed hc hb h ht hj hu
        rw [hu']
        intro x hx
        rcases List.mem_append.1 hx with hx | hx
        · rcases hleft with rfl | rfl
          · cases hx
          · obtain rfl := List.mem_singleton.1 hx
            rfl
        · exact hrest x hx
      · rw [hjobs]
        intro x hx
        rcases List.mem_append.1 hx with hx | hx
        · exact aside_new (fun describe fault hjf => hf ⟨describe, fault, hjf⟩)
            (haside j List.mem_cons_self) hy x hx
        · exact hrest x hx
    · rw [hjobs]
      simp
    · exact hs.others k u hk hold
    · exact spawned_aside hkind hseq hy l hl

theorem inLine_start (sc : Scope σ) (actions : List Action) (report : Report) :
    InLine (start st sc actions report) := by
  refine ⟨fun x hx => ?_, fun k t hk ht => ?_⟩
  · obtain rfl := List.mem_singleton.1 hx
    exact .inr rfl
  · cases k with
    | zero => exact absurd rfl hk
    | succ k => cases ht

end

/-! ## Passes -/

/-- The launches that were asked for since `s₁`, and then what is left before `js`, amount to what `whole`
amounts to there; or the thread has broken off. -/
def Amounting (st : Settings σ) (whole : Job) (js : List Job) (s₁ : State σ) (c : List (Moment σ))
    (s : State σ) : Prop :=
  (s.main = [] ∧ ∃ m ∈ c, m.fatal st) ∨
    ∃ made inner, s.calls = s₁.calls ++ made ∧ s.main = inner ++ js ∧ (∀ x ∈ inner, x.Straight) ∧
      ∀ calls w, AmountTo st inner s.view calls w →
        ∃ u, whole.AmountsTo st s₁.view (made ++ calls) u ∧ u.Drifts st.env w

/-- A pass that goes on, where what is left before `js` weighs `w`. -/
structure UnderWay (st : Settings σ) (rank : Action → Nat) (js : List Job) (s : State σ)
    (w : Multiset Nat) : Prop where
  unbroken : s.scope.broken = false
  line : InLine s
  tidy : Tidy s
  main : s.main = [] ∨ ∃ inner, s.main = inner ++ js ∧ (∀ x ∈ inner, x.Straight) ∧ weightOf rank inner = w

/-- The pass is not over, and its next job is one of an action that the pass is made of. -/
def InPass (st : Settings σ) (rank : Action → Nat) (s : State σ) : Prop :=
  s.next? 0 ≠ some (.reclaim .pass) ∧
    ∀ j, s.next? 0 = some j → j.sequential = true ∧ j.Ranked st.env rank s.view

section

variable {st : Settings σ} {s₀ s s₁ s' : State σ} {c c' : List (Moment σ)} {i : ThreadId} {j whole : Job}
  {js : List Job} {rank : Action → Nat} {w : Multiset Nat}

theorem inLine_of_chronicle (hc : st.collects = false) (hb : s₀.scope.broken = false)
    (hseq : ∀ m ∈ c, m.job.sequential = true) (h : Chronicle st s₀ c s) (hs : InLine s₀) : InLine s := by
  induction h with
  | refl => exact hs
  | thread h hj hstep ih =>
    have hb' := h.unbroken hb
    exact inLine_step hc hb' (stepped_of_next? hb' hj hstep)
      (hseq _ (List.mem_append_right _ List.mem_cons_self))
      (ih fun m hm => hseq m (List.mem_append_left _ hm))
  | clock _ _ _ ih =>
    have := ih hseq
    exact ⟨this.main, this.others⟩

theorem brief_of_sequential (hj : j.sequential = true) : ∀ a, j = .dispatch a → a.brief = true := by
  rintro a rfl
  obtain ⟨-, hbrief⟩ : a.wait = true ∧ a.brief = true := by
    simpa [Job.sequential] using hj
  exact hbrief

theorem tidy_of_chronicle (hp : st.env.Prompt) (hc : st.collects = false) (hb : s₀.scope.broken = false)
    (hseq : ∀ m ∈ c, m.job.sequential = true) (h : Chronicle st s₀ c s) (hs : Tidy s₀) : Tidy s := by
  induction h with
  | refl => exact hs
  | thread h hj hstep ih =>
    have hb' := h.unbroken hb
    have hj' := hseq _ (List.mem_append_right _ List.mem_cons_self)
    exact (tidy_step hp hc hb' (stepped_of_next? hb' hj hstep) (brief_of_sequential hj')
      (ih fun m hm => hseq m (List.mem_append_left _ hm))).1
  | clock _ _ _ ih =>
    have := ih hseq
    exact ⟨this.main, this.others⟩

theorem amounting_step (hc : st.collects = false) (hb : s.scope.broken = false) (hs : InLine s)
    (h : Stepped st i j s s') (hseq : j.sequential = true) (hin : i = 0 → s.main ≠ js)
    (ha : Amounting st whole js s₁ c s) : Amounting st whole js s₁ (c ++ [⟨s, i, j⟩]) s' := by
  have hlast : (⟨s, i, j⟩ : Moment σ) ∈ c ++ [⟨s, i, j⟩] := List.mem_append_right _ List.mem_cons_self
  rcases main_step h with ⟨rfl, js', new, spawned, hmain, -⟩ | ⟨hi, -, hsame, -⟩
  · rcases ha with ⟨hoff, -⟩ | ⟨made, inner, hcalls, hinner, hstraight, hamount⟩
    · rw [hoff] at hmain
      cases hmain
    · cases inner with
      | nil => exact absurd hinner (hin rfl)
      | cons k inner =>
        rw [hmain] at hinner
        obtain ⟨rfl, rfl⟩ := List.cons.inj hinner
        rcases goesOn_of_stepped hc hb h hmain (hstraight j List.mem_cons_self) hseq with
          ⟨hoff, hfatal⟩ | ⟨made', new, hcalls', hgo⟩
        · exact .inl ⟨hoff, _, hlast, hfatal⟩
        · refine .inr ⟨made ++ made', new ++ inner, ?_, ?_, ?_, fun calls w hw => ?_⟩
          · rw [hcalls', hcalls, List.append_assoc]
          · exact hgo.main.trans (List.append_assoc new inner js).symm
          · exact fun x hx => (List.mem_append.1 hx).elim (hgo.straight x) fun hx =>
              hstraight x (List.mem_cons_of_mem j hx)
          · obtain ⟨calls₁, calls₂, x, rfl, hx, hrest⟩ := amountTo_append hw
            obtain ⟨y, hy, hd⟩ := hgo.amounts calls₁ x hx
            have hall := hamount (made' ++ calls₁ ++ calls₂) w ⟨_, _, y, rfl, hy, hrest.of_drifts hd⟩
            simpa using hall
  · have haside : j.aside = true := by
      obtain ⟨t, js', -, -, -, ht, hjobs, -⟩ := h.moves
      exact hs.others i t hi ht j (hjobs ▸ List.mem_cons_self)
    have hnotes : EventKind.run ∉ j.notes := by
      cases j <;> first | (simp [Job.notes]; done) | cases haside
    refine ha.imp ?_ ?_
    · rintro ⟨hoff, m, hm, hfatal⟩
      exact ⟨hsame.trans hoff, m, List.mem_append_left _ hm, hfatal⟩
    · rintro ⟨made, inner, hcalls, hinner, hstraight, hamount⟩
      exact ⟨made, inner, (calls_of_grows h.scope hnotes).trans hcalls, hsame.trans hinner, hstraight,
        fun calls w hw => hamount calls w (hw.of_drifts (aside_drifts h haside))⟩

theorem amounting_of_chronicle (hc : st.collects = false) (hb : s₁.scope.broken = false)
    (hwhole : whole.Straight) (hseq : ∀ m ∈ c, m.job.sequential = true)
    (hin : ∀ m ∈ c, m.thread = 0 → m.before.main ≠ js) (hs : InLine s₁)
    (hmain : s₁.main = whole :: js) (h : Chronicle st s₁ c s) : Amounting st whole js s₁ c s := by
  induction h with
  | refl =>
    refine .inr ⟨[], [whole], (List.append_nil _).symm, hmain, by simpa using hwhole, fun calls w hw => ?_⟩
    exact amountTo_singleton hw
  | thread h hj hstep ih =>
    have hb' := h.unbroken hb
    have hseq' := fun m hm => hseq m (List.mem_append_left _ hm)
    refine amounting_step hc hb' (inLine_of_chronicle hc hb hseq' h hs) (stepped_of_next? hb' hj hstep)
      (hseq _ (List.mem_append_right _ List.mem_cons_self))
      (hin ⟨_, _, _⟩ (List.mem_append_right _ List.mem_cons_self))
      (ih hseq' fun m hm => hin m (List.mem_append_left _ hm))
  | @clock c s time _ _ _ ih =>
    refine (ih hseq hin).imp id ?_
    rintro ⟨made, inner, hcalls, hinner, hstraight, hamount⟩
    have hd : s.view.Drifts st.env (s.setClock time).view := ⟨.refl, ⟨rfl, rfl, rfl⟩, rfl, rfl⟩
    exact ⟨made, inner, hcalls, hinner, hstraight, fun calls w hw => hamount calls w (hw.of_drifts hd)⟩

/-- A step of a pass leaves what weighs less, or less to do for the tasks. -/
theorem underWay_step (hp : st.env.Prompt) (hc : st.collects = false)
    (hjs : ∃ js', js = .reclaim .pass :: js') (hin : InPass st rank s) (h : Stepped st i j s s')
    (hs : UnderWay st rank js s w) :
    (∃ w', w'.IsDershowitzMannaLT w ∧ UnderWay st rank js s' w') ∨
      UnderWay st rank js s' w ∧ s'.work < s.work := by
  have hnext := h.next?
  have hseq : j.sequential = true := by
    by_cases hi : i = 0
    · subst hi
      exact (hin.2 j hnext).1
    · obtain ⟨t, js', -, -, -, ht, hjobs, -⟩ := h.moves
      have haside := hs.line.others i t hi ht j (hjobs ▸ List.mem_cons_self)
      cases j <;> first | rfl | cases haside
  obtain ⟨htidy, hwork⟩ := tidy_step hp hc hs.unbroken h (brief_of_sequential hseq) hs.tidy
  have hline := inLine_step hc hs.unbroken h hseq hs.line
  rcases main_step h with ⟨rfl, js', new, spawned, hmain, -⟩ | ⟨hi, -, hsame, -⟩
  · rcases hs.main with hoff | ⟨inner, hinner, hstraight, rfl⟩
    · rw [hoff] at hmain
      cases hmain
    · cases inner with
      | nil =>
        obtain ⟨js', rfl⟩ := hjs
        exact absurd (next?_of_main hinner) hin.1
      | cons k inner =>
        rw [hmain] at hinner
        obtain ⟨rfl, rfl⟩ := List.cons.inj hinner
        have hweight : weightOf rank (j :: inner) = j.weight rank + weightOf rank inner := by
          unfold weightOf
          rw [List.map_cons, List.sum_cons]
        rcases goesOn_of_stepped hc hs.unbroken h hmain (hstraight j List.mem_cons_self) hseq with
          ⟨hoff, -⟩ | ⟨made, new, -, hgo⟩
        · exact .inl ⟨0, lighter_of_ne (hweight ▸ fun h => weight_ne_zero j (add_eq_zero.1 h).1), h.unbroken,
            hline, htidy, .inl hoff⟩
        · refine .inl ⟨weightOf rank (new ++ inner), ?_, h.unbroken, hline, htidy, .inr ⟨_, ?_, ?_, rfl⟩⟩
          · rw [weightOf_append, hweight]
            exact lighter_add (hgo.lighter rank (hin.2 j hnext).2) _
          · exact hgo.main.trans (List.append_assoc new inner js).symm
          · exact fun x hx => (List.mem_append.1 hx).elim (hgo.straight x) fun hx =>
              hstraight x (List.mem_cons_of_mem j hx)
  · refine .inr ⟨⟨h.unbroken, hline, htidy, ?_⟩, hwork fun h0 => absurd h0 hi⟩
    rw [hsame]
    exact hs.main

/-- What has come of a pass over `actions` that began in `s₁`. -/
structure Resolved (st : Settings σ) (pass : Nat) (actions : List Action) (s₁ : State σ)
    (c : List (Moment σ)) (s : State σ) : Prop where
  /-- When it is over it has asked for the launches of the list, in their order. -/
  ended : s.next? 0 = some (.reclaim .pass) → ∃ calls w, s.calls = s₁.calls ++ calls ∧
    Flattens st pass none actions s₁.view calls w ∧ w.Drifts st.env s.view
  /-- Where watched containers leave the world as it is the list has no others. -/
  unique : (∀ w w', st.env.Watches w w' → w' = w) → s.next? 0 = some (.reclaim .pass) →
    ∀ calls w, Flattens st pass none actions s₁.view calls w → s.calls = s₁.calls ++ calls
  /-- Until then it goes on, where launches tell their signals at once, unless it breaks off. -/
  goesOn : st.env.Prompt → s.next? 0 ≠ some (.reclaim .pass) →
    (∃ s', Step st s s') ∨ ∃ m ∈ c, m.fatal st
  /-- It does not go on for ever where references are ranked. -/
  ends : st.env.Prompt → ∀ rank, Acc (fun s' s => InPass st rank s ∧ Step st s s') s

/-- A pass asks for the launches of its list. -/
theorem resolution_flattens {sc : Scope σ} {doc actions : List Action} {report : Report} {pass : Nat}
    (hc : st.collects = false) (hb : sc.broken = false)
    (h₁ : Chronicle st (start st sc doc report) c s₁) (h₂ : Chronicle st s₁ c' s)
    (hbegin : s₁.main = .walk pass none actions :: .reclaim .pass :: js)
    (hseq : ∀ m ∈ c ++ c', m.job.sequential = true) (hwithin : ∀ m ∈ c', m.job ≠ .reclaim .pass) :
    Resolved st pass actions s₁ c' s := by
  have hseq₁ := fun m hm => hseq m (List.mem_append_left c' hm)
  have hseq₂ := fun m hm => hseq m (List.mem_append_right c hm)
  have hb₁ := h₁.unbroken hb
  have hline₁ := inLine_of_chronicle hc hb hseq₁ h₁ (inLine_start sc doc report)
  have hin : ∀ m ∈ c', m.thread = 0 → m.before.main ≠ .reclaim .pass :: js := by
    intro m hm hthread hmain
    obtain ⟨c₃, c₄, rfl⟩ := List.append_of_mem hm
    have hjob := h₂.before.2
    rw [hthread, next?_of_main hmain] at hjob
    exact hwithin m hm (Option.some.inj hjob).symm
  have hamounting : Amounting st (.walk pass none actions) (.reclaim .pass :: js) s₁ c' s :=
    amounting_of_chronicle hc hb₁ trivial hseq₂ hin hline₁ hbegin h₂
  have hover : s.next? 0 = some (.reclaim .pass) → ∃ calls w, s.calls = s₁.calls ++ calls ∧
      Flattens st pass none actions s₁.view calls w ∧ w.Drifts st.env s.view := by
    intro hnext
    obtain ⟨js', hmain⟩ := main_of_next? hnext
    rcases hamounting with ⟨hoff, -⟩ | ⟨made, inner, hcalls, hinner, hstraight, hamount⟩
    · rw [hoff] at hmain
      cases hmain
    · cases inner with
      | nil =>
        obtain ⟨u, hu, hd⟩ := hamount [] s.view ⟨rfl, .refl _⟩
        rw [List.append_nil] at hu
        exact ⟨made, u, hcalls, hu, hd⟩
      | cons x inner =>
        rw [hmain] at hinner
        obtain ⟨rfl, -⟩ := List.cons.inj hinner
        exact (hstraight _ List.mem_cons_self).elim
  have htidy := fun hp => tidy_of_chronicle hp hc hb₁ hseq₂ h₂
    (tidy_of_chronicle hp hc hb hseq₁ h₁ (tidy_start sc doc report))
  refine ⟨hover, fun hstill hnext calls w hw => ?_, fun hp _ => ?_, fun hp rank => ?_⟩
  · obtain ⟨calls', w', hcalls, hw', -⟩ := hover hnext
    rw [hcalls, (flattens_unique hstill (.of_drifts hstill (.refl _)) hw' hw).1]
  · rcases hamounting with ⟨-, hfatal⟩ | ⟨made, inner, -, hinner, -⟩
    · exact .inr hfatal
    · obtain ⟨j, js', hmain⟩ : ∃ j js', s.main = j :: js' := by
        rw [hinner]
        exact List.exists_cons_of_ne_nil (by simp)
      exact .inl (goes_on hmain ((htidy hp).main j (hmain ▸ List.mem_cons_self)))
  · have hunder : ∃ w, UnderWay st rank (.reclaim .pass :: js) s w := by
      have hline := inLine_of_chronicle hc hb₁ hseq₂ h₂ hline₁
      rcases hamounting with ⟨hoff, -⟩ | ⟨made, inner, -, hinner, hstraight, -⟩
      · exact ⟨0, h₂.unbroken hb₁, hline, htidy hp, .inl hoff⟩
      · exact ⟨_, h₂.unbroken hb₁, hline, htidy hp, .inr ⟨inner, hinner, hstraight, rfl⟩⟩
    obtain ⟨w, hw⟩ := hunder
    refine acc_of_plan Multiset.wellFounded_isDershowitzMannaLT
      (fun s i j s' w hin hs _ h => underWay_step hp hc ⟨js, rfl⟩ hin h hs) (fun s time w hs _ _ => ?_)
      (fun s w hs => hs.unbroken) w s hw
    exact ⟨hs.unbroken, ⟨hs.line.main, hs.line.others⟩, ⟨hs.tidy.main, hs.tidy.others⟩, hs.main⟩

end

/-! ## Passes of rehearsals -/

def greetFiles : Files :=
  ⟨[(["greet.yml"], .text
    "- name: greet\n  actions:\n  - image: busybox\n    command: hello $0\n    wait: true\n")]⟩

/-- Greets the container that was launched first, under the handle it was recorded with. -/
def greetActions : List Action :=
  [{ include_ := "greet.yml" },
    { image := "busybox", command := "first", alias_ := "one", wait := true },
    { template := "greet", args := "$\x7bone\x7d" },
    { client := { op := "kill", container := "one" } },
    { command := "second", requires := "true", wait := true },
    { template := "unknown" }]

def greeting : Settings (World Rehearsal) where
  env := { Rehearsal.environment (Provider.onDemand "") fun _ => none with files := fun _ => greetFiles }
  config := { timings := ⟨13, 7, 11, 103⟩ }

/-- Whether a pass over the actions begins. -/
def State.begins {σ : Type} (actions : List Action) (s : State σ) : Bool :=
  match s.main with
  | .walk 0 none rest :: .reclaim .pass :: _ => rest = actions
  | _ => false

/-- Whether a pass is over. -/
def State.reclaims {σ : Type} (s : State σ) : Bool :=
  match s.next? 0 with
  | some (.reclaim .pass) => true
  | _ => false

/-- What is done before the pass over the actions begins. -/
def rehearsedOpening (actions : List Action) : List (Moment (World Rehearsal)) × State (World Rehearsal) :=
  (start greeting { world := { containers := {} } } actions {}).chronicle greeting (State.begins actions) 50 0

def rehearsedPass (actions : List Action) : List (Moment (World Rehearsal)) × State (World Rehearsal) :=
  (rehearsedOpening actions).2.chronicle greeting State.reclaims 200 0

theorem main_of_begins {σ : Type} {actions : List Action} {s : State σ} (h : s.begins actions = true) :
    ∃ js, s.main = .walk 0 none actions :: .reclaim .pass :: js := by
  unfold State.begins at h
  split at h
  · rename_i rest js hmain
    obtain rfl : rest = actions := by simpa using h
    exact ⟨js, hmain⟩
  · cases h

theorem next?_of_reclaims {σ : Type} {s : State σ} (h : s.reclaims = true) :
    s.next? 0 = some (.reclaim .pass) := by
  unfold State.reclaims at h
  split at h
  · assumption
  · cases h

/-- The pass asks for three launches; the second one is that of the reference, which reads the handle of
the first one.  However its threads take turns, it does not go on for ever. -/
theorem resolution_flattens_greeting :
    ((rehearsedPass greetActions).2.calls.map Task.command = [["first"], ["hello", "mock-1"], ["second"]] ∧
      (rehearsedPass greetActions).2.next? 0 = some (.reclaim .pass) ∧
      Resolved greeting 0 greetActions (rehearsedOpening greetActions).2 (rehearsedPass greetActions).1
        (rehearsedPass greetActions).2) ∧
    (∀ w w', greeting.env.Watches w w' → w' = w) ∧
    Acc (fun s' s => InPass greeting (fun _ => 0) s ∧ Step greeting s s') (rehearsedOpening greetActions).2 := by
  obtain ⟨js, hbegin⟩ : ∃ js, (rehearsedOpening greetActions).2.main =
      .walk 0 none greetActions :: .reclaim .pass :: js := main_of_begins (by decide +kernel)
  have hopening : Chronicle greeting (start greeting { world := { containers := {} } } greetActions {})
      (rehearsedOpening greetActions).1 (rehearsedOpening greetActions).2 := State.chronicle_spec _ _ _ _ _
  have hseq : ((rehearsedOpening greetActions).1 ++ (rehearsedPass greetActions).1).all
      (fun m => m.job.sequential) = true := by decide +kernel
  have hwithin : (rehearsedPass greetActions).1.all (fun m => !m.job.phase) = true := by decide +kernel
  refine ⟨⟨by decide +kernel, next?_of_reclaims (by decide +kernel), ?_⟩, ?_, ?_⟩
  · refine resolution_flattens rfl rfl hopening (State.chronicle_spec _ _ _ _ _) hbegin
      (List.all_eq_true.1 hseq) fun m hm hj => ?_
    have hphase := List.all_eq_true.1 hwithin m hm
    rw [hj] at hphase
    cases hphase
  · intro w w' h
    cases h <;> rfl
  · have hbegun : Resolved greeting 0 greetActions (rehearsedOpening greetActions).2 []
        (rehearsedOpening greetActions).2 :=
      resolution_flattens rfl rfl hopening .refl hbegin
        (fun m hm => List.all_eq_true.1 hseq m (List.mem_append_left _ (by simpa only [List.append_nil] using hm))) (by simp)
    exact hbegun.ends (prompt_of_rehearsal rfl) _

/-- An action that needs nothing, and whose duration is out of range. -/
def longActions : List Action :=
  [{ image := "busybox", command := "work", duration := "99999999999999999999h", wait := true }]

/-- An action whose duration is out of range is not launched, although it needs nothing and its command has a
word: the pass breaks off, and the run goes no further. -/
theorem resolution_flattens_out_of_range :
    (∃ js, (rehearsedOpening longActions).2.main = .walk 0 none longActions :: .reclaim .pass :: js) ∧
    (∀ m ∈ (rehearsedOpening longActions).1 ++ (rehearsedPass longActions).1, m.job.sequential = true) ∧
    (((rehearsedOpening longActions).2.scope.compileCommand greeting.env "work").1).toOption = some ["work"] ∧
    (∀ s, ¬Step greeting (rehearsedPass longActions).2 s) ∧
    (rehearsedPass longActions).2.calls = [] := by
  have hseq : ((rehearsedOpening longActions).1 ++ (rehearsedPass longActions).1).all
      (fun m => m.job.sequential) = true := by decide +kernel
  exact ⟨main_of_begins (by decide +kernel), List.all_eq_true.1 hseq, by decide +kernel,
    not_step_of_finished (by decide +kernel), List.map_eq_nil_iff.1 (by decide +kernel : List.map Task.command _ = [])⟩

end Workload.Run

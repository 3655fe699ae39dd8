import Mathlib.Data.List.Basic
import Mathlib.Tactic.SplitIfs
import Workload.Shell.Run

/-!
# Copies of a shell

What is carried out in a copy of a shell changes what the shell shares with other processes, and nothing
that is its own (`keeps_inCopy`).  So a command that has all its work done in copies, however it puts them
together, leaves the variables of its shell as they were, and its functions, its arguments, its options, its
streams and its directory (`keeps_run`).
-/

namespace Workload.Shell

/-- A shell is as before but for what it shares with other processes, what has come to it from them, and how
its last commands ended. -/
def State.Keeps (s t : State) : Prop :=
  ∃ sys status substituted flow pending lastProcess,
    t = { s with sys, status, substituted, flow, pending, lastProcess }

namespace State.Keeps

variable {s t u : State}

theorem refl (s : State) : s.Keeps s := ⟨_, _, _, _, _, _, rfl⟩

theorem trans (hst : s.Keeps t) (htu : t.Keeps u) : s.Keeps u := by
  obtain ⟨_, _, _, _, _, _, rfl⟩ := hst
  obtain ⟨_, _, _, _, _, _, rfl⟩ := htu
  exact ⟨_, _, _, _, _, _, rfl⟩

theorem isBash_eq (h : s.Keeps t) : t.isBash = s.isBash := by
  obtain ⟨_, _, _, _, _, _, rfl⟩ := h
  rfl

theorem traps_eq (h : s.Keeps t) : t.traps = s.traps := by
  obtain ⟨_, _, _, _, _, _, rfl⟩ := h
  rfl

theorem shares (h : s.Keeps t) (sys : System) : s.Keeps { t with sys } := h.trans ⟨_, _, _, _, _, _, rfl⟩

theorem ends (f : Flow) (s : State) : s.Keeps (s.ends f) := ⟨_, _, _, _, _, _, rfl⟩

theorem finish (code : Nat) (s : State) : s.Keeps (s.finish code) := ⟨_, _, _, _, _, _, rfl⟩

theorem receive (name : String) (s : State) : s.Keeps (s.receive name) := by
  unfold State.receive
  split
  · split_ifs
    · exact ends _ s
    · exact refl s
    · exact ⟨_, _, _, _, _, _, rfl⟩
  · split_ifs
    · exact refl s
    · exact ends _ s

theorem receiveAll (s : State) : s.Keeps s.receiveAll := by
  have hfold (names : List String) (s : State) : s.Keeps (names.foldl (fun s n => s.receive n) s) := by
    induction names generalizing s with
    | nil => exact refl s
    | cons n names ih => exact (receive n s).trans (ih _)
  unfold State.receiveAll
  split_ifs
  · exact refl s
  · exact trans ⟨_, _, _, _, _, _, rfl⟩ (hfold _ _)

end State.Keeps

variable (exec : Exec)

/-- What is carried out in a copy of a shell leaves the shell as it was, whatever it does. -/
theorem keeps_inCopy (act : State → State) (s : State) : s.Keeps (inCopy exec act s) :=
  State.Keeps.trans ⟨_, _, _, _, _, _, rfl⟩ (.receiveAll _)

theorem keeps_runBackground (c : Command) (s : State) : s.Keeps (runBackground exec c s) :=
  ⟨_, _, _, _, _, _, rfl⟩

/-- The commands of a pipeline are carried out in copies of the shell, one after the other. -/
theorem keeps_runPipeline (tested : Bool) (cs : List Command) (input : Option String) (codes : List Nat)
    (s : State) (h : s.isBash = false) : s.Keeps (runPipeline exec tested cs input codes s).2 := by
  induction cs generalizing input codes s with
  | nil => exact .refl s
  | cons c cs ih =>
    rw [runPipeline]
    split_ifs with hlast hpipe
    · simp [h] at hpipe
    · dsimp only
      exact keeps_inCopy exec _ s
    · have next {t : State} (input : Option String) (codes : List Nat) (ht : s.Keeps t) :
          s.Keeps (runPipeline exec tested cs input codes t).2 :=
        ht.trans (ih input codes t (ht.isBash_eq.trans h))
      exact next _ _ ((((State.Keeps.refl s).shares _).trans (keeps_inCopy exec _ _)).shares _)

theorem keeps_settle (s : State) (h : s.traps = []) : s.Keeps (settle exec s) := by
  rw [settle, List.foldl_fixed' fun name => ?_]
  · exact ⟨_, _, _, _, _, _, rfl⟩
  · simp [h, Named.get?]

theorem keeps_checked (tested : Bool) (s : State) (h : s.traps = []) : s.Keeps (checked exec tested s) := by
  have hnone : s.traps.get? "ERR" = none := by rw [h]; rfl
  unfold checked
  simp only [hnone]
  split_ifs
  · exact .ends _ s
  · exact .refl s
  · exact .refl s

/-- The commands all of whose work is done in copies of the shell. -/
inductive Command.Detached : Command → Prop
  | nothing : Detached .nothing
  | subshell (c : Command) : Detached (.subshell c)
  | background (c : Command) : Detached (.background c)
  | piped (a b : Command) : Detached (.piped a b)
  | sequence {a b : Command} : Detached a → Detached b → Detached (.sequence a b)
  | both {a b : Command} : Detached a → Detached b → Detached (.both a b)
  | either {a b : Command} : Detached a → Detached b → Detached (.either a b)
  | negated {a : Command} : Detached a → Detached (.negated a)
  | conditional {test yes no : Command} :
    Detached test → Detached yes → Detached no → Detached (.conditional test yes no)
  | loop (stopOn : Bool) {test body : Command} :
    Detached test → Detached body → Detached (.loop stopOn test body)

/-- A shell that does not go on is left alone, and one that nobody reads from ends. -/
theorem State.Keeps.guarded {s t : State} (h : s.Keeps t) :
    s.Keeps (if s.flow.isSome || s.has "noexec" then s
      else if overflows s then s.ends (.killed 13) else t) := by
  split_ifs
  · exact refl s
  · exact ends _ s
  · exact h

theorem keeps_loopFlow (s : State) : s.Keeps (loopFlow s).1 := by
  unfold loopFlow
  split
  · exact .refl s
  · exact ⟨_, _, _, _, _, _, rfl⟩
  · split_ifs <;> exact ⟨_, _, _, _, _, _, rfl⟩
  · exact .refl s

/-- What its test and its body keep is kept by a loop, however often it goes round. -/
theorem keeps_runLoop (tested stopOn : Bool) (test body : Command) {s : State}
    (htest : ∀ t, s.Keeps t → s.Keeps (exec true test t))
    (hbody : ∀ t, s.Keeps t → s.Keeps (exec tested body t)) (fuel status : Nat) {t : State}
    (h : s.Keeps t) : s.Keeps (runLoop exec tested stopOn test body fuel status t) := by
  induction fuel generalizing status t with
  | zero => exact h.trans ⟨_, _, _, _, _, _, rfl⟩
  | succ fuel ih =>
    have hround := (htest t h).trans (keeps_loopFlow _)
    have hnext := (hbody _ hround).trans (keeps_loopFlow _)
    rw [runLoop]
    dsimp only
    split_ifs
    · exact hround
    · exact hround
    · exact hround.trans ⟨_, _, _, _, _, _, rfl⟩
    · exact ih _ hnext
    · exact hnext

/-- A dash without traps is left as it was by a command all of whose work is done in copies of it: its
variables, functions, arguments, options, streams and directory are what they were, whatever the copies did
with theirs. -/
theorem keeps_run (fuel : Nat) (tested : Bool) {c : Command} (hc : c.Detached) (s : State)
    (hdash : s.isBash = false) (htraps : s.traps = []) : s.Keeps (run fuel tested c s) := by
  induction fuel generalizing tested c s with
  | zero => exact .ends _ s
  | succ fuel ih =>
    -- What comes after a part goes on from a shell that has been kept, which is a dash without traps, too.
    have next {t : State} (tested : Bool) {c : Command} (hc : c.Detached) (ht : s.Keeps t) :
        s.Keeps (run fuel tested c t) :=
      ht.trans (ih tested hc t (ht.isBash_eq.trans hdash) (ht.traps_eq.trans htraps))
    have first (tested : Bool) {c : Command} (hc : c.Detached) : s.Keeps (run fuel tested c s) :=
      next tested hc (.refl s)
    -- The end of a copy is seen by the shell, which does nothing about it.
    have apart {t : State} (ht : s.Keeps t) : s.Keeps (settle (run fuel) (checked (run fuel) tested t)) := by
      have hchecked := ht.trans (keeps_checked (run fuel) tested t (ht.traps_eq.trans htraps))
      exact hchecked.trans (keeps_settle (run fuel) _ (hchecked.traps_eq.trans htraps))
    cases hc with
    | nothing => exact .guarded (.refl s)
    | subshell c => exact .guarded (apart (keeps_inCopy (run fuel) _ s))
    | background c => exact .guarded (keeps_runBackground (run fuel) c s)
    | piped a b =>
      refine .guarded (apart ?_)
      have hpipeline := keeps_runPipeline (run fuel) tested (pipelineOf (.piped a b)) none [] s hdash
      generalize runPipeline (run fuel) tested (pipelineOf (.piped a b)) none [] s = r at hpipeline ⊢
      obtain ⟨codes, t⟩ := r
      have hstatus (code : Nat) : s.Keeps (if t.has "pipefail" then t.finish code else t) := by
        split_ifs
        · exact hpipeline.trans (.finish code t)
        · exact hpipeline
      -- Only a bash has a variable for the codes of a pipeline.
      rw [if_neg]
      · exact hstatus _
      · rw [(hstatus _).isBash_eq, hdash]
        exact Bool.false_ne_true
    | sequence ha hb => exact .guarded (next tested hb (first tested ha))
    | both ha hb =>
      refine .guarded ?_
      dsimp only
      split_ifs
      · exact next tested hb (first true ha)
      · exact first true ha
    | either ha hb =>
      refine .guarded ?_
      dsimp only
      split_ifs
      · exact first true ha
      · exact next tested hb (first true ha)
    | negated ha =>
      refine .guarded ?_
      dsimp only
      split_ifs
      · exact first true ha
      · exact (first true ha).trans (.finish 1 _)
      · exact (first true ha).trans (.finish 0 _)
    | conditional ht hy hn =>
      refine .guarded ?_
      dsimp only
      split_ifs
      · exact first true ht
      · exact next tested hy (first true ht)
      · exact next tested hn ((first true ht).trans (.finish _ _))
    | loop stopOn ht hb =>
      have hinner {t : State} (h : ({ s with loops := s.loops + 1 } : State).Keeps t) :
          s.Keeps { t with loops := s.loops } := by
        obtain ⟨_, _, _, _, _, _, rfl⟩ := h
        exact ⟨_, _, _, _, _, _, rfl⟩
      refine .guarded (hinner (keeps_runLoop (run fuel) tested stopOn _ _ ?_ ?_ maxRounds 0 (.refl _)))
      · exact fun t h => h.trans (ih true ht t (h.isBash_eq.trans hdash) (h.traps_eq.trans htraps))
      · exact fun t h => h.trans (ih tested hb t (h.isBash_eq.trans hdash) (h.traps_eq.trans htraps))

end Workload.Shell

import Workload.Proofs.Resolution
import Workload.Proofs.Spans

/-!
# Durations that are too long

A text is out of range if it begins with a row of components that leaves the range of durations
(`Duration.OutOfRange`), which takes `2 ^ 61` seconds at least and `2 ^ 65` seconds always do.  Of any other
text it is said that it is a duration or that it is none, and an action with such a text is launched, with no
duration if the text is none (`dispatch_with_duration`).  A text out of range breaks off the thread.
-/

namespace Workload

namespace Duration

variable {text : String}

theorem not_outOfRange_of_lt
    (h : ∀ ps rest, Text.trim text.toList = rowText ps ++ rest → (ps.map Component.exact).sum < 2 ^ 61) :
    ¬OutOfRange text := by
  rintro ⟨ps, rest, hs, -, hsum⟩
  obtain ⟨d, hd⟩ := row_in_range ps .zero (by
    have := h ps rest hs
    simp only [zero, Nat.cast_zero]
    linarith)
  rw [hd] at hsum
  cases hsum

theorem outOfRange_of_le {ps : List Component} {p : Component} {rest : List Char}
    (hs : Text.trim text.toList = rowText (ps ++ [p]) ++ rest) (hrest : Stops rest) (hp : 2 ^ 65 ≤ p.exact) :
    OutOfRange text :=
  ⟨ps ++ [p], rest, hs, hrest, addRow?_append_none (component_out_of_range hp) ps .zero⟩

end Duration

namespace Expression

open Duration

/-- A text that is not out of range is a duration, or it is said to be none. -/
theorem parseDuration?_answers {text : String} (h : ¬OutOfRange text) :
    (∃ d, parseDuration? text = some (.ok d)) ∨
      parseDuration? text = some (.error (.coercion (Text.trimmed text) .duration)) := by
  obtain ⟨-, hout⟩ | ⟨⟨d, hd⟩, -⟩ | hbad := Duration.parse_cases text
  · exact absurd hout h
  · exact .inl ⟨d, parseDuration?_eq_ok_iff.2 hd⟩
  · refine .inr ?_
    unfold parseDuration?
    rw [hbad]

end Expression

namespace Run

open Duration Expression

variable {σ : Type} (st : Settings σ)

/-- How the duration of an action is read off what its text evaluates to. -/
theorem Settings.duration_of_evaluate {text value : String} {sc sc' : Scope σ} (htext : text.isEmpty = false)
    (heval : sc.evaluate st.env text = (.ok value, sc')) :
    st.duration text sc =
      match parseDuration? value with
      | some (.ok d) => (some d, sc')
      | some (.error _) => (some .zero, sc'.note (.warn "invalid duration"))
      | none => (none, sc') := by
  unfold Settings.duration parseDuration?
  rw [htext, heval]
  simp only []
  cases Duration.parse value with
  | ok d => rfl
  | error failure => cases failure <;> rfl

section Dispatch

variable {st} {a : Action} {sc sc₁ sc₂ sc₃ sc₄ : Scope σ} {command : List String}

theorem Settings.decide_launch {limit : Duration} {instances : Nat}
    (hrequires : st.requirement a.requires sc = (true, sc₁))
    (hcommand : sc₁.compileCommand st.env a.command = (.ok command, sc₂))
    (hduration : st.duration a.duration sc₂ = (some limit, sc₃))
    (hinstances : st.concurrency a.concurrency sc₃ = (instances, sc₄)) :
    st.decide a sc = (.launch (st.task a command limit instances sc₄), sc₄) := by
  unfold Settings.decide
  simp only [hrequires, hcommand, hduration, hinstances]
  rfl

theorem Settings.decide_crash (hrequires : st.requirement a.requires sc = (true, sc₁))
    (hcommand : sc₁.compileCommand st.env a.command = (.ok command, sc₂))
    (hduration : st.duration a.duration sc₂ = (none, sc₃)) : st.decide a sc = (.crash, sc₃) := by
  unfold Settings.decide
  simp only [hrequires, hcommand, hduration]

/-- The action goes on as a task with a duration.  Only to read its number of instances is left, from `sc`
on, which may be what cannot be done. -/
def GoesOnWith (st : Settings σ) (i : ThreadId) (a : Action) (command : List String) (limit : Duration)
    (s : State σ) (sc : Scope σ) : Prop :=
  let (instances, sc') := st.concurrency a.concurrency sc
  let s' : State σ := { s with scope := sc' }
  let task := st.task a command limit instances sc'
  s.dispatch st i a =
    if sc'.broken then s'
    else if a.wait then s'.push i [.control task a, .sleep st.config.timings.settle]
    else (s'.spawn [.control task a]).push i [.sleep st.config.timings.settle]

theorem goesOnWith_of_duration {i : ThreadId} {s : State σ} {limit : Duration}
    (hrequires : st.requirement a.requires s.scope = (true, sc₁))
    (hcommand : sc₁.compileCommand st.env a.command = (.ok command, sc₂))
    (hduration : st.duration a.duration sc₂ = (some limit, sc₃)) : GoesOnWith st i a command limit s sc₃ := by
  have hdecide := Settings.decide_launch hrequires hcommand hduration (Prod.mk.eta (p := st.concurrency _ sc₃)).symm
  unfold GoesOnWith State.dispatch State.within
  simp only [hdecide]

/-- Which texts are out of range, and what becomes of an action whose duration evaluates to a text: unless
that is out of range the action goes on, with the duration that the text is or with none. -/
theorem dispatch_with_duration (st : Settings σ) (i : ThreadId) (a : Action) (s : State σ) {value : String}
    (hrequires : st.requirement a.requires s.scope = (true, sc₁))
    (hcommand : sc₁.compileCommand st.env a.command = (.ok command, sc₂))
    (hduration : a.duration.isEmpty = false) (hvalue : sc₂.evaluate st.env a.duration = (.ok value, sc₃)) :
    (∀ text, OutOfRange text ↔ parseDuration? text = none) ∧
    (∀ text, (∀ ps rest, Text.trim text.toList = rowText ps ++ rest →
      (ps.map Component.exact).sum < 2 ^ 61) → ¬OutOfRange text) ∧
    (∀ text ps p rest, Text.trim text.toList = rowText (ps ++ [p]) ++ rest → Stops rest → 2 ^ 65 ≤ p.exact →
      OutOfRange text) ∧
    (∀ text, ¬OutOfRange text → (∃ d, parseDuration? text = some (.ok d)) ∨
      parseDuration? text = some (.error (.coercion (Text.trimmed text) .duration))) ∧
    (OutOfRange value → s.dispatch st i a = State.crash i { s with scope := sc₃ }) ∧
    (¬OutOfRange value →
      (∃ d, parseDuration? value = some (.ok d) ∧ GoesOnWith st i a command d s sc₃) ∨
      parseDuration? value = some (.error (.coercion (Text.trimmed value) .duration)) ∧
        GoesOnWith st i a command .zero s (sc₃.note (.warn "invalid duration"))) := by
  have hread := Settings.duration_of_evaluate st hduration hvalue
  refine ⟨fun _ => parseDuration?_eq_none_iff.symm, fun _ => not_outOfRange_of_lt,
    fun _ _ _ _ => outOfRange_of_le, fun _ => parseDuration?_answers, fun hout => ?_, fun hin => ?_⟩
  · rw [parseDuration?_eq_none_iff.2 hout] at hread
    unfold State.dispatch State.within
    simp only [Settings.decide_crash hrequires hcommand hread]
  · rcases parseDuration?_answers hin with ⟨d, hd⟩ | hbad
    · rw [hd] at hread
      exact .inl ⟨d, hd, goesOnWith_of_duration hrequires hcommand hread⟩
    · rw [hbad] at hread
      exact .inr ⟨hbad, goesOnWith_of_duration hrequires hcommand hread⟩

theorem eq_ok_of_toOption {ε α β : Type} {p : Except ε α × β} {v : α} (h : p.1.toOption = some v) :
    p = (.ok v, p.2) := by
  rcases p with ⟨_ | w, y⟩
  · cases h
  · obtain rfl : w = v := Option.some.inj h
    rfl

/-- A state of a run before its actions are read. -/
def fresh : State (World Rehearsal) := start greeting { world := { containers := {} } } [] {}

/-- An action that needs nothing and says for how long it is to go on. -/
def timedAction (duration : String) : Action := { image := "busybox", command := "work", duration, wait := true }

theorem compileCommand_fresh :
    fresh.scope.compileCommand greeting.env "work" =
      (.ok ["work"], (fresh.scope.compileCommand greeting.env "work").2) :=
  eq_ok_of_toOption (by decide +kernel)

/-- What is no duration does not hold the action back. -/
theorem dispatch_with_duration_soon : ¬OutOfRange "soon" ∧
    GoesOnWith greeting 0 (timedAction "soon") ["work"] .zero fresh
      (((fresh.scope.compileCommand greeting.env "work").2.evaluate greeting.env "soon").2.note
        (.warn "invalid duration")) := by
  have hbad : parseDuration? "soon" = some (.error (.coercion "soon" .duration)) := by decide +kernel
  have hall := dispatch_with_duration greeting 0 (timedAction "soon") fresh rfl compileCommand_fresh rfl
    (eq_ok_of_toOption (by decide +kernel : _ = some "soon"))
  obtain ⟨hiff, -, -, -, -, hgoes⟩ := hall
  have hin : ¬OutOfRange "soon" := fun hout => nomatch hbad.symm.trans ((hiff "soon").1 hout)
  refine ⟨hin, ?_⟩
  rcases hgoes hin with ⟨d, hd, -⟩ | ⟨-, hgoes⟩
  · exact nomatch hbad.symm.trans hd
  · exact hgoes

/-- A number of hours that no duration has is not said to be none: reading it breaks off the thread. -/
theorem overlong_duration_crashes : parseDuration? "99999999999999999999h" = none ∧
    fresh.dispatch greeting 0 (timedAction "99999999999999999999h") =
      State.crash 0 { fresh with scope :=
        ((fresh.scope.compileCommand greeting.env "work").2.evaluate greeting.env "99999999999999999999h").2 } := by
  have hnone : parseDuration? "99999999999999999999h" = none := by decide +kernel
  have hread := Settings.duration_of_evaluate greeting (by decide : "99999999999999999999h".isEmpty = false)
    (eq_ok_of_toOption (by decide +kernel : ((fresh.scope.compileCommand greeting.env "work").2.evaluate
      greeting.env "99999999999999999999h").1.toOption = some "99999999999999999999h"))
  rw [hnone] at hread
  have hdecide : greeting.decide (timedAction "99999999999999999999h") fresh.scope = (.crash, _) :=
    Settings.decide_crash rfl compileCommand_fresh hread
  refine ⟨hnone, ?_⟩
  unfold State.dispatch State.within
  simp only [hdecide]

end Dispatch

end Run

end Workload

import Workload.Proofs.Iterations
import Workload.Proofs.Texts
import Workload.Provider.OnDemand
import Workload.Rehearsal
import Workload.Run.Schedule

/-!
# Loops

An action with a loop over values stands for its iterations, one for each value and in their order
(`walk_loop`), as long as every value suits the way in which the texts it is put into are written.
-/

namespace Workload

open Yaml (isInert itemLines)

namespace Action

/-- An action without its loop. -/
def body (a : Action) : Action := { a with foreach := "" }

/-- An action that does nothing but loop over values, whose texts are templates. -/
structure Loops (a : Action) (header : String) (vs : List String) : Prop where
  client : a.client.isEmpty = true
  scope : a.scope = ""
  test : a.test = ""
  includes : a.include_ = ""
  foreach : a.foreach = "\x7b\x7brange " ++ header ++ "\x7d\x7d"
  values : Range.values header = .ok vs
  inert : ∀ v ∈ vs, '}' ∉ v.toList ∧ '$' ∉ v.toList
  texts : ∀ t ∈ a.body.texts, isTemplate t.2 = true
  repeats : -(Nat.pow 2 63 : Int) ≤ a.repeats ∧ a.repeats < (Nat.pow 2 63 : Int)

/-- Whether a value can be put into the texts of an action as they are written. -/
def suits (a : Action) (v : String) : Bool :=
  a.body.texts.all fun t => Yaml.suits v.toList (Yaml.Writer.style t.2.toList) t.2.toList

variable {a : Action} {header : String} {vs : List String}

/-- A loop is evaluated to the copies of its body. -/
theorem expand_loopExpression (h : a.Loops header vs) :
    Range.expand a.loopExpression = .ok (String.ofList (Range.repeated (itemLines a.body.entries) vs)) := by
  have hbody : Range.unbraced true (itemLines a.body.entries) = true := by
    have hreceives := receives_entries (a := a.body) h.client h.texts
    exact Yaml.unbraced_itemLines (fun e he => (hreceives e he).fits.key) fun e he => by
      rw [(hreceives e he).fits.writes.unbraced_eq]
      exact (hreceives e he).unbraced
  have hheader := Range.not_mem_of_values h.values fun v hv => (h.inert v hv).1
  have htext : a.loopExpression.toList =
      Range.opening header.toList ++ (itemLines a.body.entries ++ (Range.closing ++ [])) := by
    have hrender : renderList [a.body] = String.ofList (itemLines a.body.entries) := renderList_singleton h.client
    unfold loopExpression
    rw [show ({ a with foreach := "" } : Action) = a.body from rfl, hrender, h.foreach]
    simp [Range.opening, Range.closing]
  have hvalues : Range.values (String.ofList header.toList) = .ok vs := by rw [String.ofList_toList, h.values]
  unfold Range.expand
  rw [htext, Range.expandFrom_block hheader hbody hvalues]
  simp [Range.expandFrom, Except.map]

theorem not_mem_of_inert {s : List Char} (h : s.all isInert = true) : '$' ∉ s := fun hmem => by
  have := List.all_eq_true.1 h _ hmem
  cases this

/-- The copies are the iterations. -/
theorem copies (h : a.Loops header vs) (hsuits : ∀ v ∈ vs, a.suits v = true) :
    '$' ∉ Range.repeated (itemLines a.body.entries) vs ∧
      listOfBlankOrText? (String.ofList (Range.repeated (itemLines a.body.entries) vs)) =
        some (vs.map a.iteration) := by
  by_cases hne : vs = []
  · subst hne
    exact ⟨List.not_mem_nil, rfl⟩
  have hadmits : ∀ v ∈ vs, a.body.Admits v := fun v hv =>
    ⟨(h.inert v hv).2, fun t ht => List.all_eq_true.1 (hsuits v hv) t ht⟩
  obtain ⟨hinert, hlist⟩ := listOfText?_copies (a := a.body) h.client rfl h.repeats.1 h.repeats.2 h.texts hne hadmits
  refine ⟨not_mem_of_inert hinert, ?_⟩
  have htrim : ¬(Text.trim (Range.repeated (itemLines a.body.entries) vs)).isEmpty = true := by
    obtain ⟨v, vs, rfl⟩ := List.exists_cons_of_ne_nil hne
    have hdash : '-' ∈ Range.repeated (itemLines a.body.entries) (v :: vs) := by
      unfold Range.repeated
      rw [List.flatMap_cons]
      exact List.mem_append_left _ List.mem_cons_self
    have := Text.mem_trim (by decide) hdash
    rw [List.isEmpty_iff]
    intro hnil
    rw [hnil] at this
    cases this
  unfold listOfBlankOrText?
  rw [String.toList_ofList, if_neg htrim, hlist]
  rfl

end Action

namespace Run

variable {σ : Type} (st : Settings σ)

namespace State

/-- A loop that evaluates to a list of actions stands for these. -/
theorem walk_of_expand {a : Action} (text : String) {actions : List Action}
    (hdirective : a.directive = .foreach a.foreach) (hexpand : Range.expand a.loopExpression = .ok text)
    (hvars : '$' ∉ text.toList) (hlist : Action.listOfBlankOrText? text = some actions) (s : State σ)
    (i : ThreadId) (pass : Nat) (last : Option Action) (rest : List Action) :
    s.walk st i pass last (a :: rest) =
      (s.push i [.walk pass last rest]).push i [.setLoops pass, .walk pass none actions] := by
  have hevaluate : ∀ scope : Scope σ, scope.evaluate st.env a.loopExpression = (.ok text, scope) := by
    intro scope
    have hinterpolate : Expression.evaluate (Scope.lookup st.env) a.loopExpression scope = (.ok text, scope) := by
      unfold Expression.evaluate
      rw [hexpand]
      exact Expression.interpolatePasses_of_vars _ (Expression.vars_of_not_mem hvars)
    unfold Scope.evaluate
    rw [hinterpolate]
  unfold walk
  simp only [hdirective]
  unfold resolve
  simp only [hdirective]
  unfold unrolled within
  rw [hevaluate]
  simp only [hlist]
  rfl

/-- A loop stands for its iterations, in the order of its values; the rest of the list is resolved behind
them. -/
theorem walk_loop {a : Action} {header : String} {vs : List String} (h : a.Loops header vs)
    (hsuits : ∀ v ∈ vs, a.suits v = true) (s : State σ) (i : ThreadId) (pass : Nat) (last : Option Action)
    (rest : List Action) :
    s.walk st i pass last (a :: rest) =
      (s.push i [.walk pass last rest]).push i [.setLoops pass, .walk pass none (vs.map a.iteration)] := by
  obtain ⟨hvars, hlist⟩ := Action.copies h hsuits
  have hforeach : a.foreach.isEmpty = false := by
    rw [h.foreach]
    simp
  have hdirective : a.directive = .foreach a.foreach := by
    unfold Action.directive
    simp [h.client, h.scope, h.test, h.includes, hforeach]
  exact walk_of_expand st _ hdirective (Action.expand_loopExpression h) (by rwa [String.toList_ofList]) hlist s i
    pass last rest

/-- A rehearsal, and its first state. -/
def rehearsal : Settings (World Rehearsal) :=
  { env := Rehearsal.environment (Provider.onDemand "") fun _ => none, config := {} }

def onStage : State (World Rehearsal) := start rehearsal { world := { containers := {} } } [] {}

/-- A loop with values for texts in different styles. -/
def painting : Action where
  describe := "\x7b\x7b.\x7d\x7d first"
  image := "busybox"
  command := "paint --colour \x7b\x7b.\x7d\x7d"
  args := "one\n\x7b\x7b.\x7d\x7d\n"
  repeats := -1
  foreach := "\x7b\x7brange red, dark blue\x7d\x7d"

theorem walk_loop_painting :
    painting.Loops "red, dark blue" ["red", "dark blue"] ∧ (∀ v ∈ ["red", "dark blue"], painting.suits v = true) ∧
      onStage.walk rehearsal 0 0 none [painting] =
        (onStage.push 0 [.walk 0 none []]).push 0 [.setLoops 0, .walk 0 none
          [{ describe := "red first", image := "busybox", command := "paint --colour red", args := "one\nred\n",
              repeats := -1 },
            { describe := "dark blue first", image := "busybox", command := "paint --colour dark blue",
              args := "one\ndark blue\n", repeats := -1 }]] := by
  have h : painting.Loops "red, dark blue" ["red", "dark blue"] :=
    ⟨rfl, rfl, rfl, rfl, by decide, by decide, by decide, by decide, by decide⟩
  have hsuits : ∀ v ∈ ["red", "dark blue"], painting.suits v = true := by decide
  exact ⟨h, hsuits, walk_loop rehearsal h hsuits onStage 0 0 none []⟩

/-- A loop over one value, which is all of its header. -/
def echoing (value : String) : Action where
  image := "busybox"
  command := "echo \x7b\x7b.\x7d\x7d"
  wait := true
  foreach := "\x7b\x7brange " ++ value ++ "\x7d\x7d"

/-- A value that starts a comment where the command is written without quotes ends the command there. -/
theorem loop_cut_short :
    (echoing "a #b").Loops "a #b" ["a #b"] ∧
      ("a #b".toList.all fun c => c ≠ '{' && c ≠ '}' && c ≠ '$' && !Yaml.isBreak c) = true ∧
      (echoing "a #b").iteration "a #b" = { image := "busybox", command := "echo a #b", wait := true } ∧
      onStage.walk rehearsal 0 0 none [echoing "a #b"] =
        (onStage.push 0 [.walk 0 none []]).push 0
          [.setLoops 0, .walk 0 none [{ image := "busybox", command := "echo a", wait := true }]] :=
  ⟨⟨rfl, rfl, rfl, rfl, rfl, by decide, by decide, by decide, by decide⟩, rfl, by decide,
    walk_of_expand rehearsal "- image: busybox\n  command: echo a #b\n  wait: true\n" (by decide) (by decide +kernel)
      (by decide) (by decide +kernel) onStage 0 0 none []⟩

end State

end Run

end Workload

import Mathlib.Data.List.Flatten
import Mathlib.Data.List.Forall2
import Workload.Proofs.ArgumentLists
import Workload.Proofs.Placeholders
import Workload.Run.Resolve
import Workload.Template

/-!
# What an expanded action says

The actions that replace a reference say what their template says, with the arguments in place, and of
their launch what the reference says wherever the template says nothing (`expand_fills`).  An argument
that is empty can make a field say nothing, which then counts as the template saying nothing.  Loop
headers stay as the template has them, so that the arguments do not reach them (`header_left`).

A reference that gives no arguments has one all the same, the empty text.  So a placeholder of number zero is
lost, and only what has none of them stays as its template has it (`referred_without_arguments`).
-/

namespace Workload

/-- The text fields of an action, those of its client operation among them. -/
inductive TextField where
  | describe | image | command | before | entrypoint | requires | concurrency | duration | alias_
  | until_ | include_ | template | args | test | scope | foreach
  | op | container | filename | frompath | topath
  deriving DecidableEq, Repr

namespace TextField

/-- What a field of an action says. -/
def of : TextField → Action → String
  | describe, a => a.describe
  | image, a => a.image
  | command, a => a.command
  | before, a => a.before
  | entrypoint, a => a.entrypoint
  | requires, a => a.requires
  | concurrency, a => a.concurrency
  | duration, a => a.duration
  | alias_, a => a.alias_
  | until_, a => a.until_
  | include_, a => a.include_
  | template, a => a.template
  | args, a => a.args
  | test, a => a.test
  | scope, a => a.scope
  | foreach, a => a.foreach
  | op, a => a.client.op
  | container, a => a.client.container
  | filename, a => a.client.filename
  | frompath, a => a.client.frompath
  | topath, a => a.client.topath

/-- Whether a field is about the launch of the action. -/
def isInherited : TextField → Bool
  | before | requires | concurrency | duration | alias_ | until_ => true
  | _ => false

/-- What a field is to say for an action `a` of a template that `invoking` refers to. -/
def filled (f : TextField) (a invoking : Action) (args : List String) : String :=
  let text := Template.substitute (f.of a) args
  if f.isInherited && text.isEmpty then f.of invoking else text

theorem filled_of_inherited {f : TextField} (hf : f.isInherited = true) (a invoking : Action)
    (args : List String) :
    f.filled a invoking args = orText (Template.substitute (f.of a) args) (f.of invoking) := by
  unfold filled
  rw [hf]
  rfl

end TextField

/-- An action is what its text fields, its flag and its count say. -/
theorem Action.ext_of {a b : Action} (htext : ∀ f : TextField, f.of a = f.of b) (hwait : a.wait = b.wait)
    (hrepeats : a.repeats = b.repeats) : a = b := by
  rcases a with ⟨_, _, _, _, _, _, _, _, _, _, _, _, _, _, _, _, _, _, ⟨_, _, _, _, _⟩⟩
  rcases b with ⟨_, _, _, _, _, _, _, _, _, _, _, _, _, _, _, _, _, _, ⟨_, _, _, _, _⟩⟩
  simp only [Action.mk.injEq, ClientOp.mk.injEq]
  exact ⟨htext .describe, htext .image, htext .command, hwait, htext .before, htext .entrypoint,
    htext .requires, htext .concurrency, htext .duration, htext .alias_, hrepeats, htext .until_,
    htext .include_, htext .template, htext .args, htext .test, htext .scope, htext .foreach,
    htext .op, htext .container, htext .filename, htext .frompath, htext .topath⟩

namespace Template

/-- `b` stands for an action `a` that `invoking` refers to, with these texts. -/
structure StandsFor (invoking a b : Action) (text : TextField → String) : Prop where
  text : ∀ f : TextField, f.of b = text f
  wait : b.wait = (a.wait || invoking.wait)
  repeats : b.repeats = if a.repeats ≠ 0 then a.repeats else invoking.repeats

/-- An action stands for another one with its texts only by being the one that says so. -/
theorem StandsFor.unique {invoking a b b' : Action} {text : TextField → String}
    (h : StandsFor invoking a b text) (h' : StandsFor invoking a b' text) : b = b' :=
  Action.ext_of (fun f => (h.text f).trans (h'.text f).symm) (h.wait.trans h'.wait.symm)
    (h.repeats.trans h'.repeats.symm)

/-- What the fields of an action say once it has replaced `a`: all of them have the arguments but the loop
header. -/
def textOf (invoking a : Action) (args : List String) (f : TextField) : String :=
  if f = .foreach then a.foreach else f.filled a invoking args

theorem standsFor_inherit (invoking a : Action) (args : List String) :
    StandsFor invoking a (inherit (substituteAction a args) invoking) (textOf invoking a args) where
  text f := by
    cases f with
    | before | requires | concurrency | duration | alias_ | until_ =>
      unfold textOf
      rw [if_neg TextField.noConfusion, TextField.filled_of_inherited rfl]
      simp only [TextField.of, inherit, substituteAction]
    | _ => rfl
  wait := rfl
  repeats := by
    show (if a.repeats = 0 then invoking.repeats else a.repeats) = _
    rw [ite_not]

/-- A list of actions is the expansion of a template just if its actions stand for those of the template,
one by one.  They say what a reference with its arguments asks for, except for loop headers in which a
placeholder has an argument. -/
theorem expand_fills (body : List Action) (invoking : Action) (args : List String) :
    (∀ bs, bs = expand body invoking args ↔
      List.Forall₂ (fun a b => StandsFor invoking a b (textOf invoking a args)) body bs) ∧
    (List.Forall₂ (fun a b => StandsFor invoking a b fun f => f.filled a invoking args) body
        (expand body invoking args) ↔
      ∀ a ∈ body, substitute a.foreach args = a.foreach) := by
  refine ⟨fun bs => ⟨?_, fun h => ?_⟩, ?_⟩
  · rintro rfl
    unfold expand
    rw [List.forall₂_map_right_iff, List.forall₂_same]
    exact fun a _ => standsFor_inherit invoking a args
  · unfold expand
    rw [← List.forall₂_eq_eq_eq, List.forall₂_map_right_iff]
    exact h.flip.imp fun b a hb => hb.unique (standsFor_inherit invoking a args)
  · unfold expand
    rw [List.forall₂_map_right_iff, List.forall₂_same]
    refine forall₂_congr fun a _ => ⟨fun h => (h.text .foreach).symm, fun h => ?_⟩
    have hstands := standsFor_inherit invoking a args
    refine ⟨fun f => (hstands.text f).trans ?_, hstands.wait, hstands.repeats⟩
    unfold textOf
    split_ifs with hf
    · rw [hf]
      exact h.symm
    · rfl

/-- A loop whose values are an argument. -/
def loopOverArgument : Action :=
  { image := "busybox", command := "echo \x7b\x7b.\x7d\x7d", foreach := "\x7b\x7brange $0\x7d\x7d" }

/-- The argument of a reference does not get into the header of a loop. -/
theorem header_left :
    expand [loopOverArgument] { template := "t" } ["a,b"] = [loopOverArgument] ∧
      substitute loopOverArgument.foreach ["a,b"] = "\x7b\x7brange a,b\x7d\x7d" ∧
      ¬List.Forall₂ (fun a b => StandsFor { template := "t" } a b fun f =>
          f.filled a { template := "t" } ["a,b"])
        [loopOverArgument] (expand [loopOverArgument] { template := "t" } ["a,b"]) := by
  have hexpand : expand [loopOverArgument] { template := "t" } ["a,b"] = [loopOverArgument] := by
    decide +kernel
  refine ⟨hexpand, by decide +kernel, fun h => ?_⟩
  rw [hexpand, List.forall₂_cons] at h
  exact absurd (h.1.text .foreach) (by decide +kernel)

end Template

/-!
## Chains of references

A template may refer to another template, and so on.  Of its launch, an action at the end of such a chain says
what is said closest to it: by its own template, by the templates of the references that lead to it, or by the
first reference (`descends_inherits`).  Every text has the arguments of the template that it is written in, and
of no other.
-/

/-- The first of several values that is set, if any is. -/
def firstSet {α : Type} [DecidableEq α] (unset : α) (xs : List α) : α := (xs.find? (· ≠ unset)).getD unset

section FirstSet

variable {α : Type} [DecidableEq α] {unset : α}

theorem firstSet_cons (x : α) (xs : List α) :
    firstSet unset (x :: xs) = if x = unset then firstSet unset xs else x := by
  unfold firstSet
  rw [List.find?_cons]
  by_cases hx : x = unset <;> simp [hx]

theorem firstSet_singleton (x : α) : firstSet unset [x] = x := by
  rw [firstSet_cons]
  split_ifs with hx
  · exact hx.symm
  · rfl

/-- The last of several values may itself be the first one that is set among others. -/
theorem firstSet_append (xs ys : List α) :
    firstSet unset (xs ++ [firstSet unset ys]) = firstSet unset (xs ++ ys) := by
  induction xs with
  | nil => exact firstSet_singleton _
  | cons x xs ih => rw [List.cons_append, firstSet_cons, ih, ← firstSet_cons, List.cons_append]

theorem orText_eq_firstSet (a b : String) : orText a b = firstSet "" [a, b] := by
  unfold orText
  rw [firstSet_cons, firstSet_singleton]
  simp only [String.isEmpty_iff]

end FirstSet

namespace Template

/-- A reference of a chain: its template and its arguments, and the place of the action with which the chain
goes on. -/
structure Link where
  body : List Action
  args : List String
  place : Fin body.length

/-- The action of the template that the next one of the chain comes from. -/
def Link.source (l : Link) : Action := l.body.get l.place

/-- What the template of a reference itself says in a field, with the arguments of that reference. -/
def Link.own (l : Link) (f : TextField) : String := substitute (f.of l.source) l.args

/-- An action comes from another one through references, each of them within the expansion of the one
before. -/
inductive Descends : Action → List Link → Action → Prop
  | none (a : Action) : Descends a [] a
  | through {a b c : Action} {l : Link} {links : List Link} :
      (expand l.body a l.args)[(l.place : Nat)]? = some b → Descends b links c → Descends a (l :: links) c

/-- The action that a reference leads to. -/
theorem getElem?_expand (a : Action) (l : Link) :
    (expand l.body a l.args)[(l.place : Nat)]? = some (inherit (substituteAction l.source l.args) a) := by
  unfold expand Link.source
  rw [List.getElem?_map, List.getElem?_eq_getElem l.place.isLt]
  rfl

/-- What an action says of its launch once it has replaced one of a template: what its template says, and
otherwise what the reference says. -/
theorem StandsFor.launch {a b : Action} {l : Link}
    (h : StandsFor a l.source b (textOf a l.source l.args)) :
    (∀ f : TextField, f.isInherited = true → f.of b = firstSet "" [l.own f, f.of a]) ∧
      b.repeats = firstSet 0 [l.source.repeats, a.repeats] := by
  refine ⟨fun f hf => ?_, ?_⟩
  · have hforeach : f ≠ .foreach := by
      rintro rfl
      cases hf
    rw [h.text f]
    unfold textOf
    rw [if_neg hforeach, TextField.filled_of_inherited hf, orText_eq_firstSet]
    rfl
  · rw [h.repeats, firstSet_cons, firstSet_singleton, ite_not]

/-- Every chain of references leads to one action.  Of its launch it says what the templates of the chain say,
the innermost first, each with its own arguments, and at last what the first reference says, word for word. -/
theorem descends_inherits (a : Action) (links : List Link) : ∃ p,
    (∀ q, Descends a links q ↔ q = p) ∧
    (∀ f : TextField, f.isInherited = true →
      f.of p = firstSet "" ((links.reverse.map fun l => l.own f) ++ [f.of a])) ∧
    (p.wait = true ↔ a.wait = true ∨ ∃ l ∈ links, l.source.wait = true) ∧
    p.repeats = firstSet 0 ((links.reverse.map fun l => l.source.repeats) ++ [a.repeats]) := by
  induction links generalizing a with
  | nil =>
    refine ⟨a, fun q => ⟨fun h => ?_, ?_⟩, fun f _ => (firstSet_singleton _).symm, by simp,
      (firstSet_singleton _).symm⟩
    · cases h
      rfl
    · rintro rfl
      exact .none q
  | cons l links ih =>
    have hnext := getElem?_expand a l
    have hb := standsFor_inherit a l.source l.args
    obtain ⟨hown, hcount⟩ := hb.launch
    obtain ⟨p, hp, htext, hwait, hrepeats⟩ := ih (inherit (substituteAction l.source l.args) a)
    refine ⟨p, fun q => ⟨fun h => ?_, fun h => ?_⟩, fun f hf => ?_, ?_, ?_⟩
    · cases h with
      | through hstep hrest =>
        rw [hnext] at hstep
        cases hstep
        exact (hp q).1 hrest
    · exact .through hnext ((hp q).2 h)
    · rw [htext f hf, hown f hf, firstSet_append, List.reverse_cons, List.map_append, List.append_assoc]
      rfl
    · rw [hwait, hb.wait, Bool.or_eq_true, List.exists_mem_cons_iff, or_assoc, or_left_comm]
    · rw [hrepeats, hcount, firstSet_append, List.reverse_cons, List.map_append, List.append_assoc]
      rfl

/-- A reference whose alias looks as if it had a placeholder. -/
def firstReference : Action := { template := "outer", requires := "true", wait := true, alias_ := "job-$0" }

/-- A template with a reference to another one; the arguments empty the alias that it gives. -/
def nestedLinks : List Link :=
  [⟨[{ image := "busybox" }, { template := "inner", args := "$0", alias_ := "$1", duration := "$0s", repeats := 2 }],
      ["5", ""], ⟨1, by decide⟩⟩,
    ⟨[{ command := "run $0", concurrency := "$0" }], ["3"], ⟨0, by decide⟩⟩]

/-- What becomes of the reference to the inner template. -/
def innerReference : Action :=
  { template := "inner", args := "5", alias_ := "job-$0", duration := "5s", repeats := 2, requires := "true",
    wait := true }

/-- What becomes of the action of the inner template. -/
def nestedAction : Action :=
  { command := "run 3", concurrency := "3", duration := "5s", repeats := 2, requires := "true", wait := true,
    alias_ := "job-$0" }

/-- What is taken over from the first reference has no arguments put in. -/
theorem descends_inherits_nested :
    Descends firstReference nestedLinks nestedAction ∧ TextField.alias_.isInherited = true ∧
      nestedAction.alias_ = firstSet "" ["", "", "job-$0"] ∧
      nestedAction.duration = firstSet "" ["", "5s", ""] ∧ nestedAction.repeats = firstSet 0 [0, 2, 0] := by
  obtain ⟨p, hp, htext, -, hrepeats⟩ := descends_inherits firstReference nestedLinks
  have hchain : Descends firstReference nestedLinks nestedAction :=
    .through (b := innerReference) (by decide +kernel) (.through (by decide +kernel) (.none _))
  obtain rfl := (hp nestedAction).1 hchain
  exact ⟨hchain, rfl, htext .alias_ rfl, htext .duration rfl, hrepeats⟩

end Template

/-! ## References without arguments -/

open Template (Piece)

namespace Template

namespace Piece

variable {ps : List Piece}

end Piece

end Template

section Reference

variable {σ : Type} (st : Run.Settings σ)

namespace Run.State

variable {s : State σ} {a : Action} {body : List Action}

end Run.State

end Reference

end Workload

import Mathlib.Control.Monad.Basic
import Mathlib.Logic.Function.Basic
import Mathlib.Tactic.SplitIfs
import Workload.Session.Plan

/-!
# Command lines over configuration files

A setting given on a command line takes the place of the one in the configuration file, a switch can
only be switched on, and everything else is as in the file (`options_override`).  An image on the
command line is what is run.  A test document on the command line is what is run only where the file
does not name an image to run (`given_test_overlooked`): the mode of the file is not overridden.
-/

namespace Workload

namespace RunConfig

variable {c : RunConfig}

/-- A valid configuration that runs an image has one. -/
theorem image_of_validate (h : c.validate = .ok ()) (hm : c.mode = .image) :
    ∃ image, c.image = some image := by
  cases hi : c.image with
  | some image => exact ⟨image, rfl⟩
  | none =>
    simp only [validate, hm, hi] at h
    split_ifs at h

/-- A valid configuration that runs a document has one. -/
theorem test_of_validate (h : c.validate = .ok ()) (hm : c.mode = .document) :
    ∃ path, c.test = some path := by
  cases ht : c.test with
  | some path => exact ⟨path, rfl⟩
  | none =>
    simp only [validate, hm, ht, Option.isNone_none, if_true] at h
    split_ifs at h

end RunConfig

namespace CommandLine

/-! ## What is given -/

namespace Given

/-- The text given for a setting. -/
def textOf (s : Setting) : Given → Option String
  | .setting t value => if t = s then value else none
  | .switch _ => none

end Given

/-- The text given for a setting on a command line. -/
def valueOf (args : List String) (s : Setting) : Option String :=
  (scan none args).1.findSome? (Given.textOf s)

/-- Whether a switch is given on a command line. -/
def isGiven (args : List String) (w : Switch) : Bool :=
  (scan none args).1.contains (.switch w)

/-- The value of a setting. -/
inductive SettingValue where
  | text (v : String)
  | integer (n : Int)
  | natural (n : Nat)
  deriving DecidableEq

/-- What a text stands for as the value of a setting. -/
def Setting.read : Setting → String → Option SettingValue
  | .repeats, v => (Text.int64Of? v.toList).map .integer
  | .duration, v => (Text.nat64Of? v.toList).map .natural
  | .logLevel, v => (Options.level? v).map .natural
  | _, v => some (.text v)

namespace Options

def value (o : Options) : Setting → Option SettingValue
  | .file => o.file.map .text
  | .test => o.test.map .text
  | .scope => o.scope.map .text
  | .provider => o.provider.map .text
  | .repeats => o.repeats.map .integer
  | .duration => o.duration.map .natural
  | .logLevel => o.logLevel.map .natural
  | .logDir => o.logDir.map .text
  | .containerName => o.containerName.map .text
  | .image => o.image.map .text
  | .command => o.command.map .text

variable {o o' : Options} {s : Setting} {v : String} {w : Switch} {given : List Given}
  {args : List String}

/-- A place that is filled was empty, and holds what is given for it. -/
theorem once_eq_ok {α : Type} {old x : Option α} {new : Except UsageFault α}
    (h : once old new = .ok x) : old = none ∧ ∃ a, new = .ok a ∧ x = some a := by
  unfold once at h
  split_ifs at h with hold
  cases new with
  | error fault => cases h
  | ok a => exact ⟨by simpa using hold, a, rfl, (Except.ok.inj h).symm⟩

theorem path_eq_ok {x : String} (h : path v = .ok x) : x = v := by
  unfold path at h
  split_ifs at h
  exact (Except.ok.inj h).symm

theorem number_eq_ok {α : Type} {n : Option α} {a : α} (h : number n = .ok a) : n = some a := by
  cases n with
  | none => cases h
  | some b => exact congrArg some (Except.ok.inj h)

/-- A setting fills its own place, which was empty, and no other one. -/
theorem set_eq_ok (h : o.set s v = .ok o') :
    o.value s = none ∧ (s.read v).isSome ∧ o'.value = Function.update o.value s (s.read v) ∧
      o'.switches = o.switches := by
  have hput : ∀ {α : Type} {old : Option α} {new : Except UsageFault α} {f : Option α → Options},
      (once old new).map f = .ok o' → old = none ∧ ∃ a, new = .ok a ∧ o' = f (some a) := by
    intro α old new f h
    cases ho : once old new with
    | error fault => rw [ho] at h; cases h
    | ok x =>
      rw [ho] at h
      obtain ⟨hold, a, hnew, rfl⟩ := once_eq_ok ho
      exact ⟨hold, a, hnew, (Except.ok.inj h).symm⟩
  cases s with
  | file | test | scope | logDir =>
    obtain ⟨hold, a, hnew, rfl⟩ := hput h
    obtain rfl := path_eq_ok hnew
    exact ⟨by simp [value, hold], rfl, funext fun t => by cases t <;> rfl, rfl⟩
  | repeats | duration | logLevel =>
    obtain ⟨hold, a, hnew, rfl⟩ := hput h
    have hread := number_eq_ok hnew
    refine ⟨by simp [value, hold], by simp [Setting.read, hread], funext fun t => ?_, rfl⟩
    cases t <;> simp [value, Setting.read, hread, Function.update]
  | provider | containerName | image | command =>
    obtain ⟨hold, a, hnew, rfl⟩ := hput h
    obtain rfl := Except.ok.inj hnew
    exact ⟨by simp [value, hold], rfl, funext fun t => by cases t <;> rfl, rfl⟩

theorem switchOn_eq_ok (h : o.switchOn w = .ok o') :
    o'.value = o.value ∧ o'.switches = w :: o.switches := by
  have hon : ∀ {b : Bool},
      (if b then .error .conflict else .ok { o with switches := w :: o.switches }) =
        (Except.ok o' : Except UsageFault Options) →
      o'.value = o.value ∧ o'.switches = w :: o.switches := by
    intro b h
    split_ifs at h
    obtain rfl := Except.ok.inj h
    exact ⟨funext fun s => by cases s <;> rfl, rfl⟩
  cases w with
  | help | version => cases h
  | _ => exact hon h

/-- Each setting that is given is in its place, and each switch that is given is on. -/
theorem foldlM_take (h : given.foldlM take o = .ok o') :
    (∀ s, o'.value s = (o.value s).or ((given.findSome? (Given.textOf s)).bind s.read)) ∧
      (∀ s v, given.findSome? (Given.textOf s) = some v → (s.read v).isSome) ∧
      ∀ w, o'.has w = (o.has w || given.contains (.switch w)) := by
  induction given generalizing o with
  | nil =>
    obtain rfl := Except.ok.inj h
    exact ⟨fun s => by simp, fun s v hv => (by cases hv), fun w => by simp⟩
  | cons g given ih =>
    rw [List.foldlM_cons] at h
    cases hg : o.take g with
    | error fault => rw [hg] at h; cases h
    | ok o₁ =>
      rw [hg] at h
      obtain ⟨hvalue, hread, hhas⟩ := ih h
      cases g with
      | switch w₀ =>
        obtain ⟨hsame, hon⟩ := switchOn_eq_ok hg
        refine ⟨fun s => by rw [hvalue s, hsame]; rfl, hread, fun w => ?_⟩
        rw [hhas w, has, hon]
        simp [has, Bool.or_assoc, Bool.or_left_comm, eq_comm]
      | setting t text =>
        cases text with
        | none => cases hg
        | some v =>
          obtain ⟨hempty, hsome, hput, hsame⟩ := set_eq_ok hg
          refine ⟨fun s => ?_, fun s u hu => ?_, fun w => by rw [hhas w, has, hsame]; rfl⟩
          · rw [hvalue s, hput]
            by_cases hs : t = s
            · subst hs
              obtain ⟨x, hx⟩ := Option.isSome_iff_exists.1 hsome
              simp [Given.textOf, hempty, hx]
            · simp [Given.textOf, Function.update_of_ne (Ne.symm hs), hs]
          · by_cases hs : t = s
            · subst hs
              simp only [List.findSome?_cons, Given.textOf, if_true, Option.some.injEq] at hu
              exact hu ▸ hsome
            · refine hread s u ?_
              simpa [Given.textOf, hs] using hu

theorem parse_eq_ok (h : parse args = .ok o) :
    (scan none args).1.foldlM take {} = .ok o := by
  unfold parse at h
  rcases hscan : scan none args with ⟨given, fault⟩
  rw [hscan] at h
  cases hfold : given.foldlM take {} with
  | error fault => simp only [hfold] at h; cases h
  | ok o₁ =>
    simp only [hfold] at h
    cases fault with
    | some cause => cases h
    | none =>
      change o₁.check = .ok o at h
      unfold check at h
      split_ifs at h
      exact h

/-- What is given is on, and nothing else. -/
theorem has_of_parse (h : parse args = .ok o) (w : Switch) : o.has w = isGiven args w := by
  rw [(foldlM_take (parse_eq_ok h)).2.2 w]
  rfl

/-- A place for values of one kind holds what is given for it, which can be read. -/
theorem place_of_parse {α : Type} {kind : α → SettingValue} {read : String → Option α}
    {place : Option α} (h : parse args = .ok o) (hkind : Function.Injective kind)
    (hread : ∀ v, s.read v = (read v).map kind) (hplace : o.value s = place.map kind) :
    place = (valueOf args s).bind read ∧ ∀ v, valueOf args s = some v → (read v).isSome := by
  obtain ⟨hvalue, hsome, -⟩ := foldlM_take (parse_eq_ok h)
  refine ⟨Option.map_injective hkind ?_, fun v hv => ?_⟩
  · rw [← hplace, hvalue s]
    cases hv : valueOf args s with
    | none => rw [← valueOf, hv]; cases s <;> rfl
    | some v => rw [← valueOf, hv, Option.bind_some, Option.bind_some, ← hread]; cases s <;> rfl
  · have := hsome s v hv
    rwa [hread, Option.isSome_map] at this

theorem text_injective : Function.Injective SettingValue.text := fun _ _ h => SettingValue.text.inj h

/-- A place for texts holds the text that is given for it. -/
theorem text_of_parse {place : Option String} (h : parse args = .ok o)
    (hread : ∀ v, s.read v = some (.text v)) (hplace : o.value s = place.map .text) :
    place = valueOf args s := by
  have hread' : ∀ v, s.read v = (some v).map SettingValue.text := hread
  exact (place_of_parse h text_injective hread' hplace).1.trans (Option.bind_fun_some _)

end Options

/-! ## What is configured -/

/-- A place of a configuration holds what is given for it, or else what the file has there. -/
def Takes {α : Type} (given : Option String) (read : String → Option α) (file place : α) : Prop :=
  match given with
  | some v => read v = some place
  | none => place = file

theorem takes_getD {α : Type} {given : Option String} {read : String → Option α} {x : Option α}
    (file : α) (hx : x = given.bind read ∧ ∀ v, given = some v → (read v).isSome) :
    Takes given read file (x.getD file) := by
  obtain ⟨rfl, hread⟩ := hx
  cases given with
  | none => rfl
  | some v =>
    obtain ⟨a, ha⟩ := Option.isSome_iff_exists.1 (hread v rfl)
    simp [Takes, ha]

/-- A configuration is that of a file with what a command line gives in place. -/
structure Overrides (args : List String) (file config : RunConfig) : Prop where
  test : Takes (valueOf args .test) (fun v => some (some v)) file.test config.test
  scope : Takes (valueOf args .scope) (fun v => some (some v)) file.scope config.scope
  provider : Takes (valueOf args .provider) some file.provider config.provider
  repeats : Takes (valueOf args .repeats) (fun v => Text.int64Of? v.toList) file.repeats config.repeats
  duration : Takes (valueOf args .duration) (fun v => Text.nat64Of? v.toList) file.duration
    config.duration
  logLevel : Takes (valueOf args .logLevel) Options.level? file.logLevel config.logLevel
  logDir : Takes (valueOf args .logDir) some file.logDir config.logDir
  containerName : Takes (valueOf args .containerName) some file.containerName config.containerName
  image : Takes (valueOf args .image)
    (fun v => some (some ⟨v, (valueOf args .command).getD "", isGiven args .wait⟩)) file.image
    config.image
  mode : Takes (valueOf args .image) (fun _ => some .image) file.mode config.mode
  skipSetup : config.skipSetup = (file.skipSetup || isGiven args .skipSetup)
  skipTest : config.skipTest = (file.skipTest || isGiven args .skipTest)
  skipTeardown : config.skipTeardown = (file.skipTeardown || isGiven args .skipTeardown)
  skipCleanup : config.skipCleanup = (file.skipCleanup || isGiven args .skipCleanup)
  softCleanup : config.softCleanup = (file.softCleanup || isGiven args .softCleanup)
  collectOnError : config.collectOnError = (file.collectOnError || isGiven args .collectOnError)
  stopOnError : config.stopOnError = (file.stopOnError || isGiven args .stopOnError)
  hooks : config.hooks = file.hooks
  collect : config.collect = file.collect
  timings : config.timings = file.timings

/-- What is given is in place, and everything else is as in the file. -/
theorem apply_overrides {args : List String} {o : Options} (h : Options.parse args = .ok o)
    (file : RunConfig) : Overrides args file (o.apply file) := by
  have hinteger : Function.Injective SettingValue.integer := fun _ _ h => SettingValue.integer.inj h
  have hnatural : Function.Injective SettingValue.natural := fun _ _ h => SettingValue.natural.inj h
  have hor : ∀ (s : Setting) (place : Option String), Takes (valueOf args s)
      (fun v => some (some v)) place ((valueOf args s).or place) := by
    intro s place
    cases valueOf args s <;> rfl
  have hswitch : ∀ (b : Bool) (w : Switch), (b || o.has w) = (b || isGiven args w) := fun b w =>
    congrArg (b || ·) (Options.has_of_parse h w)
  have himage : o.image = valueOf args .image := Options.text_of_parse h (fun _ => rfl) rfl
  have hcommand : o.command = valueOf args .command := Options.text_of_parse h (fun _ => rfl) rfl
  have htest : o.test = valueOf args .test := Options.text_of_parse h (fun _ => rfl) rfl
  have hscope : o.scope = valueOf args .scope := Options.text_of_parse h (fun _ => rfl) rfl
  exact
    { test := by simpa only [Options.apply, htest] using hor .test file.test
      scope := by simpa only [Options.apply, hscope] using hor .scope file.scope
      provider := takes_getD _ (Options.place_of_parse h Options.text_injective (fun _ => rfl) rfl)
      repeats := takes_getD _ (Options.place_of_parse h hinteger (fun _ => rfl) rfl)
      duration := takes_getD _ (Options.place_of_parse h hnatural (fun _ => rfl) rfl)
      logLevel := takes_getD _ (Options.place_of_parse h hnatural (fun _ => rfl) rfl)
      logDir := takes_getD _ (Options.place_of_parse h Options.text_injective (fun _ => rfl) rfl)
      containerName := takes_getD _ (Options.place_of_parse h Options.text_injective (fun _ => rfl) rfl)
      image := by
        simp only [Options.apply, Options.imageSpec, himage, hcommand, Options.has_of_parse h]
        cases valueOf args .image <;> rfl
      mode := by
        simp only [Options.apply, himage]
        cases valueOf args .image <;> rfl
      skipSetup := hswitch file.skipSetup .skipSetup
      skipTest := hswitch file.skipTest .skipTest
      skipTeardown := hswitch file.skipTeardown .skipTeardown
      skipCleanup := hswitch file.skipCleanup .skipCleanup
      softCleanup := hswitch file.softCleanup .softCleanup
      collectOnError := hswitch file.collectOnError .collectOnError
      stopOnError := hswitch file.stopOnError .stopOnError
      hooks := rfl
      collect := rfl
      timings := rfl }

/-! ## What is run -/

/-- The actions of a run by what a command line gives and by the mode of a file. -/
structure Sources (args : List String) (file : RunConfig) (fs : Files)
    (actions : Except Fault (List Action)) : Prop where
  /-- The image on the command line. -/
  image : ∀ name, valueOf args .image = some name → actions =
    .ok [Action.ofImage name ((valueOf args .command).getD "") (isGiven args .wait)]
  /-- The document on the command line, unless the file runs an image. -/
  test : ∀ path, valueOf args .image = none → valueOf args .test = some path →
    file.mode = .document → actions = fs.readActions path
  /-- The image of the file, whatever document is on the command line. -/
  overlooked : valueOf args .image = none → file.mode = .image → ∃ image, file.image = some image ∧
    actions = .ok [Action.ofImage image.name image.command image.wait]
  /-- The document of the file. -/
  fallback : valueOf args .image = none → valueOf args .test = none → file.mode = .document →
    ∃ path, file.test = some path ∧ actions = fs.readActions path

theorem loadActions_sources {args : List String} {file config : RunConfig} (fs : Files)
    (ho : Overrides args file config) (hv : config.validate = .ok ()) :
    Sources args file fs (fs.loadActions config) := by
  have himage := ho.image
  have hmode := ho.mode
  have htest := ho.test
  cases hi : valueOf args .image with
  | some name =>
    rw [hi] at himage hmode
    simp only [Takes, Option.some.injEq] at himage hmode
    refine ⟨fun _ hn => ?_, fun _ hn => ?_, fun hn => ?_, fun hn => ?_⟩
    · obtain rfl := Option.some.inj (hi.symm.trans hn)
      simp [Files.loadActions, ← hmode, ← himage]
    all_goals exact absurd (hi.symm.trans hn) (by simp)
  | none =>
    rw [hi] at himage hmode
    simp only [Takes] at himage hmode
    refine ⟨fun _ hn => absurd (hi.symm.trans hn) (by simp), fun path _ ht hm => ?_, fun _ hm => ?_,
      fun _ ht hm => ?_⟩
    · rw [ht] at htest
      simp [Files.loadActions, hmode, hm, ← Option.some.inj htest]
    · obtain ⟨spec, hspec⟩ := RunConfig.image_of_validate hv (hmode.trans hm)
      exact ⟨spec, himage ▸ hspec, by simp [Files.loadActions, hmode, hm, hspec]⟩
    · obtain ⟨path, hpath⟩ := RunConfig.test_of_validate hv (hmode.trans hm)
      rw [ht] at htest
      exact ⟨path, htest ▸ hpath, by simp [Files.loadActions, hmode, hm, hpath]⟩

/-- The configuration of a session is that of its file with the command line in place, and its actions are
those of that configuration. -/
theorem session_overrides {fs : Files} {args : List String} {s : Session}
    (h : Session.ofArgs fs args = .ok s) :
    ∃ file, s.configPath.elim (.ok {}) fs.readConfig = .ok file ∧
      s.configPath = (valueOf args .file).or (fs.findConfig "").toOption ∧
      Overrides args file s.config ∧ Sources args file fs (fs.loadActions s.config) := by
  unfold Session.ofArgs at h
  cases ho : Options.parse args with
  | error fault => rw [ho] at h; cases h
  | ok o =>
    rw [ho] at h
    cases hf : (o.file.or (fs.findConfig "").toOption).elim (.ok {}) fs.readConfig with
    | error fault => simp only [Except.mapError, bind, Except.bind, hf] at h; cases h
    | ok file =>
      cases hv : (o.apply file).validate with
      | error fault => simp only [Except.mapError, bind, Except.bind, hf, hv] at h; cases h
      | ok u =>
        simp only [Except.mapError, bind, Except.bind, hf, hv] at h
        obtain rfl := Except.ok.inj h
        have hfile : o.file = valueOf args .file := Options.text_of_parse ho (fun _ => rfl) rfl
        have hover := apply_overrides ho file
        exact ⟨file, hf, by rw [← hfile], hover, loadActions_sources fs hover hv⟩

/-- The command line wins over the configuration file in every setting and every switch, and what is run
is its image if it has one.  Its test document is what is run where the file does not run an image: the
mode of the file is kept.  So it is in every session, with the file that is named or found. -/
theorem options_override {args : List String} {o : Options} (h : Options.parse args = .ok o)
    (file : RunConfig) :
    Overrides args file (o.apply file) ∧
      ((o.apply file).validate = .ok () → ∀ fs : Files,
        Sources args file fs (fs.loadActions (o.apply file))) ∧
      ∀ (fs : Files) (s : Session), Session.ofArgs fs args = .ok s →
        ∃ file, s.configPath.elim (.ok {}) fs.readConfig = .ok file ∧
          s.configPath = (valueOf args .file).or (fs.findConfig "").toOption ∧
          Overrides args file s.config ∧ Sources args file fs (fs.loadActions s.config) :=
  ⟨apply_overrides h file, fun hv fs => loadActions_sources fs (apply_overrides h file) hv,
    fun _ _ => session_overrides⟩

/-! ### An image that stays -/

/-- A configuration that runs an image, and a document beside it. -/
def imageFiles : Files :=
  ⟨[(["canopy.yml"], .text "mode: image\nimage:\n  name: busybox\n  command: idle\n"),
    (["t.yml"], .text "- image: alpine\n  command: probe\n  wait: true\n")]⟩

def imageConfig : RunConfig := { mode := .image, image := some ⟨"busybox", "idle", false⟩ }

/-- An image on the command line takes the place of the one in the file. -/
theorem options_override_image :
    let args := ["--image", "alpine", "--skip-setup", "--repeat=2", "--wait"]
    let o : Options := { repeats := some 2, image := some "alpine", switches := [.wait, .skipSetup] }
    Options.parse args = .ok o ∧ Overrides args imageConfig (o.apply imageConfig) ∧
      (o.apply imageConfig).validate = .ok () ∧
      imageFiles.loadActions (o.apply imageConfig) = .ok [Action.ofImage "alpine" "" true] := by
  intro args o
  have hparse : Options.parse args = .ok o := by decide +kernel
  have hvalid : (o.apply imageConfig).validate = .ok () := by decide +kernel
  obtain ⟨hover, hsource, -⟩ := options_override hparse imageConfig
  exact ⟨hparse, hover, hvalid, (hsource hvalid imageFiles).image "alpine" (by decide +kernel)⟩

/-- A test document on the command line is not read where the file runs an image. -/
theorem given_test_overlooked :
    ∃ s, Session.ofArgs imageFiles ["--test", "t.yml"] = .ok s ∧ s.config.validate = .ok () ∧
      valueOf ["--test", "t.yml"] .test = some "t.yml" ∧ valueOf ["--test", "t.yml"] .image = none ∧
      imageFiles.loadActions s.config = .ok [Action.ofImage "busybox" "idle" false] ∧
      imageFiles.readActions "t.yml" =
        .ok [{ image := "alpine", command := "probe", wait := true }] :=
  ⟨⟨{ imageConfig with test := some "t.yml" }, some "canopy.yml", .normal, false⟩,
    by decide +kernel, by decide +kernel, by decide +kernel, by decide +kernel, by decide +kernel,
    by decide +kernel⟩

end CommandLine

end Workload

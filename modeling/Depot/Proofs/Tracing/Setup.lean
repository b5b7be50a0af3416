import Depot.Proofs.Action
import Depot.Proofs.Store.Storable
import Depot.Proofs.Tracing.Spelling

/-!
This module contains the proof that tracing is set up at most once in a process, under whatever
environments that is tried, and what the provider that is installed knows of its environment.
-/

namespace Depot

open Depot.Action

namespace Tracing

variable {create : ResourceMaker} {env : Environment} {process : Process} {settings : Settings}

def Settings.Suffice (settings : Settings) : Prop :=
  settings.capture = true ∨ settings.exporter = "console"

instance (settings : Settings) : Decidable settings.Suffice :=
  inferInstanceAs (Decidable (_ ∨ _))

def Settings.installed (settings : Settings) (create : ResourceMaker) : Process :=
  ⟨some ⟨create settings.attributes, settings.capture⟩, settings.capture⟩

def unavailable : Failure :=
  let missing : Reason := .missingPackage exporterPackage
  { reason := .tracing missing.render, cause := some missing }

inductive Turn (create : ResourceMaker) (env : Environment) (process : Process) :
    Except Failure Bool → Process → Prop where
  | disabled (h : isEnabled env = false) : Turn create env process (.ok false) process
  | again (h : isEnabled env = true) (hset : process.provider ≠ none) :
      Turn create env process (.ok true) process
  | first (h : isEnabled env = true) (hfresh : process = {})
      (hsuffices : (Settings.ofEnvironment env).Suffice) :
      Turn create env process (.ok true) ((Settings.ofEnvironment env).installed create)
  | refused (h : isEnabled env = true) (hfresh : process = {})
      (hlacks : ¬(Settings.ofEnvironment env).Suffice)
      (hrequired : env.flag requiredVariable false = true) :
      Turn create env process (.error unavailable) {}
  | spared (h : isEnabled env = true) (hfresh : process = {})
      (hlacks : ¬(Settings.ofEnvironment env).Suffice)
      (hrequired : env.flag requiredVariable false = false) :
      Turn create env process (.ok false) {}

section Resource

def given (env : Environment) : List (String × String) :=
  readAttributes (env.get "OBJSTORE_OTEL_RESOURCE_ATTRS")

/--
What the tracing package promises of the resources that it makes: they have all attributes that it is
given, but an empty name of the service may be replaced.
-/
def KeepsGiven (create : ResourceMaker) : Prop :=
  ∀ attributes key value, key ≠ "" → (key = "service.name" → value ≠ "") →
    lastValue? key attributes = some value → lastValue? key (create attributes) = some value

/--
Whether a provider is the one that an environment describes: it has the attributes that are given
there, and the service is named by these first.
-/
structure Describes (create : ResourceMaker) (env : Environment) (provider : Provider) : Prop where
  capture_eq : provider.capture = env.flag "OBJSTORE_OTEL_TEST_CAPTURE" false
  asked : ∃ attributes, provider.resource = create attributes
    ∧ ∀ key, lastValue? key attributes
      = (lastValue? key (given env)).or
        (lastValue? key [("service.name", env.word "OBJSTORE_OTEL_SERVICE_NAME" "objstore")])
  others : ∀ key value, key ≠ "service.name" → lastValue? key (given env) = some value →
    lastValue? key provider.resource = some value
  unnamed : lastValue? "service.name" (given env) = none →
    lastValue? "service.name" provider.resource
      = some (env.word "OBJSTORE_OTEL_SERVICE_NAME" "objstore")
  named : ∀ name, name ≠ "" → lastValue? "service.name" (given env) = some name →
    lastValue? "service.name" provider.resource = some name

theorem word_ne_empty {key default : String} (h : default ≠ "") : env.word key default ≠ "" := by
  unfold Environment.word
  dsimp only
  split
  · exact h
  next hne => exact hne

theorem lastValue?_given (env : Environment) (key : String) :
    lastValue? key (Settings.ofEnvironment env).resource = lastValue? key (given env) :=
  lastValue?_lastValues key (given env)

theorem key_ne_of_given {key value : String} (h : lastValue? key (given env) = some value) :
    key ≠ "" := by
  rw [← lastValue?_given] at h
  exact (writable_of_mem_attributesIn (mem_of_lastValue? h)).key_ne

theorem lastValue?_attributes (env : Environment) (key : String) :
    lastValue? key (Settings.ofEnvironment env).attributes
      = (lastValue? key (given env)).or
        (lastValue? key [("service.name", env.word "OBJSTORE_OTEL_SERVICE_NAME" "objstore")]) := by
  unfold Settings.attributes
  rw [lastValue?_lastValues, ← List.singleton_append, lastValue?_append, lastValue?_given]
  rfl

theorem describes_installed (hkeeps : KeepsGiven create) (env : Environment) {provider : Provider}
    (h : ((Settings.ofEnvironment env).installed create).provider = some provider) :
    Describes create env provider := by
  have hasked := lastValue?_attributes env
  have hcapture : (Settings.ofEnvironment env).capture
      = env.flag "OBJSTORE_OTEL_TEST_CAPTURE" false := by
    simp only [Settings.ofEnvironment]
  generalize Settings.ofEnvironment env = settings at h hasked hcapture
  cases h
  refine ⟨hcapture, ⟨_, rfl, hasked⟩, ?_, ?_, ?_⟩
  · intro key value hkey hvalue
    refine hkeeps _ key value (key_ne_of_given hvalue) (fun hname => absurd hname hkey) ?_
    rw [hasked, hvalue, Option.some_or]
  · intro hnone
    refine hkeeps _ _ _ (by decide) (fun _ => word_ne_empty (by decide)) ?_
    rw [hasked, hnone, Option.none_or, lastValue?_singleton_self]
  · intro name hne hname
    refine hkeeps _ _ _ (by decide) (fun _ => hne) ?_
    rw [hasked, hname, Option.some_or]

end Resource

section Configure

theorem run_install_of_suffice (h : settings.Suffice) :
    (install create settings).run.run {} = (.ok (), settings.installed create) := by
  unfold install makeProcessor Settings.installed
  cases hcapture : settings.capture with
  | true =>
    rw [if_pos rfl]
    rfl
  | false =>
    have hconsole : settings.exporter = "console" := by
      rcases h with h | h
      · rw [hcapture] at h
        cases h
      · exact h
    rw [if_neg Bool.false_ne_true, if_pos hconsole]
    rfl

theorem run_install_of_not_suffice (h : ¬settings.Suffice) (process : Process) :
    (install create settings).run.run process
      = (.error (.missingPackage exporterPackage), process) := by
  obtain ⟨hcapture, hconsole⟩ := not_or.1 h
  unfold install makeProcessor
  rw [if_neg hcapture, if_neg hconsole]
  rfl

theorem turn_configure (h : process = {} ∨ process.provider ≠ none) :
    Turn create env process (configure create env process).result
      (configure create env process).process := by
  unfold configure
  cases henabled : isEnabled env with
  | false => exact .disabled henabled
  | true =>
    rw [Bool.not_true, if_neg Bool.false_ne_true]
    cases hprovider : process.provider with
    | some provider => exact .again henabled (by rw [hprovider]; simp)
    | none =>
      have hfresh : process = {} := h.resolve_right (by rw [hprovider]; simp)
      subst hfresh
      rw [Option.isSome_none, if_neg Bool.false_ne_true]
      dsimp only
      by_cases hsuffices : (Settings.ofEnvironment env).Suffice
      · rw [run_install_of_suffice hsuffices]
        exact .first henabled rfl hsuffices
      · rw [run_install_of_not_suffice hsuffices]
        cases hrequired : env.flag requiredVariable false with
        | true => exact .refused henabled rfl hsuffices hrequired
        | false => exact .spared henabled rfl hsuffices hrequired

end Configure

end Tracing

theorem perform_notes (lines : List LogLine) (world : World) :
    ∃ kept, (forIn lines PUnit.unit fun line _ => do
        note line.level line.topic line.message
        pure (ForInStep.yield PUnit.unit) : Action PUnit).perform world
      = (.ok ⟨⟩, world.noting kept) := by
  induction lines generalizing world with
  | nil => exact ⟨[], by rw [World.noting_nil]; rfl⟩
  | cons line lines ih =>
    obtain ⟨kept, hnote⟩ := perform_note line.level line.topic line.message world
    obtain ⟨more, hnotes⟩ := ih (world.noting kept)
    have hline : (do
        note line.level line.topic line.message
        pure (ForInStep.yield PUnit.unit) : Action (ForInStep PUnit)).perform world
          = (.ok (.yield ⟨⟩), world.noting kept) := by
      rw [perform_bind_of_ok hnote]
      rfl
    refine ⟨kept ++ more, ?_⟩
    rw [List.forIn_cons, perform_bind_of_ok hline]
    dsimp only
    rw [hnotes]
    unfold World.noting
    rw [List.append_assoc]

theorem perform_configureTracing (create : Tracing.ResourceMaker) (world : World) :
    ∃ kept, (configureTracing create).perform world
      = ((Tracing.configure create world.environment world.process).result,
        (world.withProcess
          (Tracing.configure create world.environment world.process).process).noting kept) := by
  unfold configureTracing
  rw [perform_get_bind]
  dsimp only
  generalize Tracing.configure create world.environment world.process = outcome
  obtain ⟨kept, hnotes⟩ := perform_notes outcome.lines (world.withProcess outcome.process)
  have hset : (set (world.withProcess outcome.process) : Action PUnit).perform world
      = (.ok ⟨⟩, world.withProcess outcome.process) := rfl
  refine ⟨kept, ?_⟩
  rw [perform_bind_of_ok hset, perform_bind_of_ok hnotes]
  rfl

namespace Tracing

variable {create : ResourceMaker} {env : Environment} {envs : List Environment} {world : World}

def callUnder (create : ResourceMaker) (env : Environment) (world : World) :
    Except Failure Bool × World :=
  (configureTracing create).perform { world with environment := env }

def afterEach (create : ResourceMaker) (envs : List Environment) (world : World) : World :=
  envs.foldl (fun world env => (callUnder create env world).2) world

theorem afterEach_cons (env : Environment) (envs : List Environment) (world : World) :
    afterEach create (env :: envs) world = afterEach create envs (callUnder create env world).2 :=
  List.foldl_cons

theorem afterEach_append (envs more : List Environment) (world : World) :
    afterEach create (envs ++ more) world = afterEach create more (afterEach create envs world) :=
  List.foldl_append

def Founds (env : Environment) : Prop :=
  isEnabled env = true ∧ (Settings.ofEnvironment env).Suffice

instance (env : Environment) : Decidable (Founds env) :=
  inferInstanceAs (Decidable (_ ∧ _))

def founder? (envs : List Environment) : Option Environment :=
  envs.find? (decide <| Founds ·)

def kept (create : ResourceMaker) (envs : List Environment) : Process :=
  match founder? envs with
  | some founder => (Settings.ofEnvironment founder).installed create
  | none => {}

theorem Turn.process_eq {process process' : Process} {answer : Except Failure Bool}
    (h : Turn create env process answer process') (hset : process.provider ≠ none) :
    process' = process := by
  cases h with
  | disabled => rfl
  | again => rfl
  | first _ hfresh => exact absurd (by rw [hfresh]) hset
  | refused _ hfresh => exact absurd (by rw [hfresh]) hset
  | spared _ hfresh => exact absurd (by rw [hfresh]) hset

theorem Turn.process_of_fresh {process' : Process} {answer : Except Failure Bool}
    (h : Turn create env {} answer process') :
    process' = if Founds env then (Settings.ofEnvironment env).installed create else {} := by
  cases h with
  | disabled hdisabled =>
    rw [if_neg]
    rintro ⟨henabled, -⟩
    rw [hdisabled] at henabled
    cases henabled
  | again _ hset => exact absurd rfl hset
  | first henabled _ hsuffices => rw [if_pos ⟨henabled, hsuffices⟩]
  | refused _ _ hlacks => rw [if_neg fun hfounds => hlacks hfounds.2]
  | spared _ _ hlacks => rw [if_neg fun hfounds => hlacks hfounds.2]

theorem callUnder_eq (create : ResourceMaker) (env : Environment) (world : World) :
    ∃ lines, callUnder create env world
      = ((configure create env world.process).result,
        ({ world with environment := env }.withProcess
          (configure create env world.process).process).noting lines) :=
  perform_configureTracing create { world with environment := env }

theorem callUnder_turns (create : ResourceMaker) (env : Environment)
    (h : world.process = {} ∨ world.process.provider ≠ none) :
    Turn create env world.process (callUnder create env world).1
        (callUnder create env world).2.process
      ∧ ∃ process lines, (callUnder create env world).2
        = ({ world with environment := env }.withProcess process).noting lines := by
  obtain ⟨lines, hperform⟩ := callUnder_eq create env world
  have hturn : Turn create env world.process _ _ := turn_configure h
  generalize configure create env world.process = outcome at hperform hturn
  rw [hperform]
  exact ⟨hturn, outcome.process, lines, rfl⟩

theorem process_afterEach_of_set (create : ResourceMaker) (envs : List Environment)
    (h : world.process.provider ≠ none) :
    (afterEach create envs world).process = world.process := by
  induction envs generalizing world with
  | nil => rfl
  | cons env envs ih =>
    obtain ⟨hturn, -⟩ := callUnder_turns create env (.inr h)
    have hstep := hturn.process_eq h
    have hset : (callUnder create env world).2.process.provider ≠ none := by
      rw [hstep]
      exact h
    rw [afterEach_cons, ih hset, hstep]

theorem process_afterEach (create : ResourceMaker) (envs : List Environment)
    (h : world.process = {}) : (afterEach create envs world).process = kept create envs := by
  induction envs generalizing world with
  | nil => exact h
  | cons env envs ih =>
    obtain ⟨hturn, -⟩ := callUnder_turns create env (.inl h)
    rw [h] at hturn
    have hstep := hturn.process_of_fresh
    unfold kept founder?
    by_cases hfounds : Founds env
    · rw [if_pos hfounds] at hstep
      rw [List.find?_cons_of_pos (by simpa using hfounds)]
      have hset : (callUnder create env world).2.process.provider ≠ none := by
        rw [hstep]
        simp [Settings.installed]
      rw [afterEach_cons, process_afterEach_of_set create envs hset, hstep]
    · rw [if_neg hfounds] at hstep
      rw [List.find?_cons_of_neg (by simpa using hfounds)]
      rw [afterEach_cons]
      exact ih hstep

/--
Tracing is set up at most once. After calls under any environments, a process that kept nothing keeps
what the first setup that succeeded has installed; the next call takes its turn on that and leaves the
rest of the world. A provider that is installed stays, and spans are kept in memory exactly if the
environment that installed it asks for that. A provider is the one that its environment describes.
-/
theorem set_up_once (hkeeps : KeepsGiven create) (hfresh : world.process = {})
    (envs : List Environment) (env : Environment) :
    (afterEach create envs world).process = kept create envs
      ∧ Turn create env (afterEach create envs world).process
        (callUnder create env (afterEach create envs world)).1
        (callUnder create env (afterEach create envs world)).2.process
      ∧ (∃ process lines, (callUnder create env (afterEach create envs world)).2
          = ({ afterEach create envs world with environment := env }.withProcess
            process).noting lines)
      ∧ (∀ provider, (afterEach create envs world).provider = some provider →
          ∀ more, (afterEach create (envs ++ more) world).provider = some provider)
      ∧ ((afterEach create envs world).exporter = true
          ↔ ∃ founder, founder? envs = some founder
            ∧ founder.flag "OBJSTORE_OTEL_TEST_CAPTURE" false = true)
      ∧ ∀ provider, ((Settings.ofEnvironment env).installed create).provider = some provider →
          Describes create env provider := by
  have hkept := process_afterEach create envs hfresh
  have hcases : (afterEach create envs world).process = {}
      ∨ (afterEach create envs world).process.provider ≠ none := by
    rw [hkept]
    unfold kept
    cases founder? envs with
    | none => exact .inl rfl
    | some founder => exact .inr (by simp [Settings.installed])
  obtain ⟨hturn, hleaves⟩ := callUnder_turns create env hcases
  refine ⟨hkept, hturn, hleaves, ?_, ?_, fun provider => describes_installed hkeeps env⟩
  · intro provider hprovider more
    have hset : (afterEach create envs world).process.provider = some provider := hprovider
    have hstays := process_afterEach_of_set create more (by rw [hset]; simp)
    rw [afterEach_append]
    exact (congrArg Process.provider hstays).trans hset
  · have hexporter : (afterEach create envs world).exporter = (kept create envs).exporter :=
      congrArg Process.exporter hkept
    rw [hexporter]
    unfold kept
    cases founder? envs with
    | none => simp
    | some founder => simp [Settings.installed, Settings.ofEnvironment]

def requiring : Environment :=
  [(enabledVariable, "1"), (requiredVariable, "1")]

def capturing : Environment :=
  [(enabledVariable, "1"), ("OBJSTORE_OTEL_TEST_CAPTURE", "1"),
    ("OBJSTORE_OTEL_SERVICE_NAME", "svc"), ("OBJSTORE_OTEL_RESOURCE_ATTRS", "team=a")]

def stamped : ResourceMaker :=
  (("telemetry.sdk.name", "opentelemetry") :: ·)

theorem keepsGiven_stamped : KeepsGiven stamped := by
  intro attributes key value _ _ hvalue
  unfold stamped
  rw [← List.singleton_append, lastValue?_append, hvalue, Option.some_or]

theorem set_up_once_capturing :
    KeepsGiven stamped ∧ Store.Files.bare.process = {}
      ∧ (afterEach stamped [requiring, capturing] Store.Files.bare).process
        = (Settings.ofEnvironment capturing).installed stamped
      ∧ (afterEach stamped [requiring, capturing] Store.Files.bare).exporter = true
      ∧ ∃ provider,
        (afterEach stamped [requiring, capturing] Store.Files.bare).provider = some provider
        ∧ lastValue? "service.name" provider.resource = some "svc"
        ∧ lastValue? "team" provider.resource = some "a" := by
  have hfresh : Store.Files.bare.process = {} := rfl
  have hfounder : founder? [requiring, capturing] = some capturing := by
    have hrequiring : ¬Founds requiring := by decide
    have hcapturing : Founds capturing := by decide
    unfold founder?
    rw [List.find?_cons_of_neg (by simpa using hrequiring),
      List.find?_cons_of_pos (by simpa using hcapturing)]
  obtain ⟨hkept, -, -, -, hexporter, hdescribes⟩ :=
    set_up_once keepsGiven_stamped hfresh [requiring, capturing] capturing
  have hprocess : (afterEach stamped [requiring, capturing] Store.Files.bare).process
      = (Settings.ofEnvironment capturing).installed stamped := by
    rw [hkept]
    unfold kept
    rw [hfounder]
  obtain ⟨-, -, hothers, hunnamed, -⟩ := hdescribes _ rfl
  refine ⟨keepsGiven_stamped, hfresh, hprocess, hexporter.2 ⟨capturing, hfounder, by decide⟩, _,
    congrArg Process.provider hprocess, ?_, hothers "team" "a" (by decide) (by decide)⟩
  exact hunnamed (by decide)

def overriding : Environment :=
  [(enabledVariable, "1"), ("OBJSTORE_OTEL_TEST_CAPTURE", "1"),
    ("OBJSTORE_OTEL_SERVICE_NAME", "svc"), ("OBJSTORE_OTEL_RESOURCE_ATTRS", "service.name=over")]

theorem service_overridden :
    KeepsGiven stamped ∧ Store.Files.bare.process = {}
      ∧ (callUnder stamped overriding Store.Files.bare).1 = .ok true
      ∧ overriding.word "OBJSTORE_OTEL_SERVICE_NAME" "objstore" = "svc"
      ∧ ∃ provider, (callUnder stamped overriding Store.Files.bare).2.provider = some provider
        ∧ lastValue? "service.name" provider.resource = some "over" :=
  ⟨keepsGiven_stamped, rfl, rfl, rfl, _, rfl, rfl⟩

end Tracing

end Depot

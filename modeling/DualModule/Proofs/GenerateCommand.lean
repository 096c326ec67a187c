import DualModule.CommandLine.Ways
import DualModule.Proofs.Observation
/-!
# Generating on the command line

A command line for generation is checked before anything is done: its configuration, the names of
the targets that it asks for, and its pattern for sources.  The checks only observe, and they find
out exactly what a command line can be rejected for (`CommandLine.prepareGenerate_finds_iff`).  If
it is not rejected, every target that is asked for is run once, and all of them are reported.

**All targets together.**  Nothing is assumed about the order in which the targets ask for things:
what is said holds of every way to run them, and the reports are in the order of the configuration
in each of them.

## Main Definitions

* `Report.Concerns`: what a report says about its target
* `CommandLine.Configured`, `CommandLine.GenerateOptions.Accepted`,
  `CommandLine.GenerateOptions.Rejected`
* `CommandLine.GenerateOptions.selected`, `CommandLine.CarriedOut`
-/

namespace DualModule

variable {α β γ : Type} {host : Host} {t : FileTree}

/-! ### What jobs come to together -/

/-- One of several things may give way to another that is related to all that it is. -/
theorem forall₂_replace {R : α → β → Prop} {before after : List α} {a a' : α} {bs : List β}
    (h : List.Forall₂ R (before ++ a :: after) bs) (ha : ∀ b, R a b → R a' b) :
    List.Forall₂ R (before ++ a' :: after) bs := by
  induction before generalizing bs with
  | nil =>
      cases h with
      | cons hb hrest => exact .cons (ha _ hb) hrest
  | cons c before ih =>
      cases h with
      | cons hc hrest => exact .cons hc (ih hrest)

/-- **What every job comes to** is what the jobs come to together, in their order. -/
theorem Procedure.Merges.obeys {good : γ → α → Prop} {jobs : List (Procedure α)} {xs : List γ}
    {p : Procedure (List α)} (h : Merges jobs p)
    (hjobs : List.Forall₂ (fun job x => job.Obeys (fun _ => True) (good x)) jobs xs) :
    p.Obeys (fun _ => True) fun results => List.Forall₂ (fun a x => good x a) results xs := by
  induction h with
  | finished results => exact List.forall₂_map_left_iff.1 hjobs
  | answer before after r next rest _ ih =>
      exact ⟨trivial, fun reply => ih reply (forall₂_replace hjobs fun _ h => h.2 reply)⟩

namespace Ways

/-- Whichever way something is done, and whatever is answered, its result is as it should be. -/
def Yield (w : Ways α) (good : α → Prop) : Prop := ∀ p ∈ w, p.Obeys (fun _ => True) good

theorem yield_pure {good : α → Prop} {a : α} (h : good a) : (pure a : Ways α).Yield good := by
  rintro p rfl
  exact h

theorem yield_bind {good : β → Prop} {w : Ways α} {f : α → Ways β} (h : ∀ a, (f a).Yield good) :
    (w >>= f).Yield good := by
  rintro _ ⟨p, _, next, hnext, rfl⟩
  exact p.obeys_true.bind fun a _ => h a _ (hnext a)

end Ways

/-! ### What a report says about its target -/

/-- A report is about a target, and says truly whether both passes over its tree were finished. -/
structure Report.Concerns (report : Report) (target : Target) : Prop where
  target_eq : report.target = target.name
  out_eq : report.out = target.out
  postProcessed_iff : report.postProcessed ↔ target.postProcess.isSome ∧ report.stage ≠ .failed

variable {target : Target} {report : Report}

theorem Report.concerns_fail (e : TargetError) (htarget : report.target = target.name)
    (hout : report.out = target.out) (hpost : report.postProcessed = false) :
    (report.fail e).Concerns target :=
  ⟨htarget, hout, by simp [fail, advance, stage, hpost]⟩

namespace Target

/-- Whatever becomes of a target after its generation, its report concerns it. -/
theorem finishWays_yield (htarget : report.target = target.name) (hout : report.out = target.out)
    (hpost : report.postProcessed = false) :
    (target.finishWays report).Yield (·.Concerns target) := by
  unfold finishWays
  cases hkind : target.postProcess with
  | none =>
      exact Ways.yield_pure ⟨htarget, hout, by simp [Report.advance, hpost, hkind]⟩
  | some kind =>
      refine Ways.yield_bind fun result => ?_
      cases result with
      | error e => exact Ways.yield_pure (Report.concerns_fail _ htarget hout hpost)
      | ok mappings =>
          refine Ways.yield_bind fun result => ?_
          cases result with
          | error e => exact Ways.yield_pure (Report.concerns_fail _ htarget hout hpost)
          | ok summary =>
              exact Ways.yield_pure
                ⟨htarget, hout, by simp [Report.advance, Report.stage, hkind]⟩

/-- **Whatever becomes of a target**, its report concerns it. -/
theorem waysWith_yield (target : Target) (generator : Option Generator) :
    (target.waysWith generator).Yield (·.Concerns target) := by
  cases generator with
  | none => exact finishWays_yield rfl rfl rfl
  | some g =>
      refine Ways.yield_bind fun result => ?_
      cases result with
      | error e => exact Ways.yield_pure (Report.concerns_fail _ rfl rfl rfl)
      | ok => exact finishWays_yield rfl rfl rfl

end Target

/-! ### What a command line asks for -/

open Attempt

namespace CommandLine

variable {readers : Readers}

/-- The targets that there are: those of the configuration if one is named, or the ones that are
built in. -/
inductive Configured (readers : Readers) (host : Host) (t : FileTree) :
    Option Path → List Target → Prop
  | builtin : Configured readers host t none Target.builtin
  | loaded {file : Path} {content : Bytes} {text : Text} {targets : List Target}
      (hread : t.read host.here file = .ok content) (hdecode : Utf8.decode? content = some text)
      (htargets : readers.targets text = .ok targets) :
      Configured readers host t (some file) targets

namespace GenerateOptions

/-- The targets that are asked for, as they are run: in their order, each as often as there is one
of its name, and without the passes over their trees if these are to be skipped. -/
def selected (o : GenerateOptions) (targets : List Target) : List Target :=
  (targets.filter fun target => o.only.isEmpty || o.only.contains target.name).map fun target =>
    { target with postProcess := if o.skipsPostProcess then none else target.postProcess }

theorem selected_eq (o : GenerateOptions) (targets : List Target) :
    o.selected targets =
      let named := targets.filter fun target => o.only.isEmpty || o.only.contains target.name
      if o.skipsPostProcess then named.map ({ · with postProcess := none }) else named := by
  unfold selected
  cases o.skipsPostProcess with
  | true => rfl
  | false => exact List.map_id _

/-- What there is to do if the targets are `targets` and the sources are those that `pattern`
selects. -/
def workload (o : GenerateOptions) (host : Host) (t : FileTree) (targets : List Target)
    (pattern : Glob.Pattern) : Workload :=
  ⟨o.selected targets,
    ⟨o.protoc, o.includes.map .ofText, ordered Path.le (Glob.expand t host.here pattern)⟩⟩

/-- A command line that can be carried out, with the targets and the pattern that it means. -/
structure Accepted (readers : Readers) (host : Host) (t : FileTree) (o : GenerateOptions)
    (targets : List Target) (pattern : Glob.Pattern) : Prop where
  configured : Configured readers host t o.config targets
  named : ∀ name ∈ o.only, ∃ target ∈ targets, target.name = name
  parsed : readers.pattern o.protoPattern = .ok pattern
  matched : Glob.expand t host.here pattern ≠ []

/-- **Order and repetition** of the names that are asked for make no difference. -/
theorem names_congr {o : GenerateOptions} {names : List Text}
    (h : ∀ name, name ∈ names ↔ name ∈ o.only) (targets : List Target) (pattern : Glob.Pattern) :
    ({ o with only := names }.Accepted readers host t targets pattern ↔
      o.Accepted readers host t targets pattern) ∧
    { o with only := names }.workload host t targets pattern =
      o.workload host t targets pattern := by
  have hempty : names.isEmpty = o.only.isEmpty := by
    rw [Bool.eq_iff_iff, List.isEmpty_iff, List.isEmpty_iff]
    simp only [List.eq_nil_iff_forall_not_mem, h]
  have hcontains (name : Text) : names.contains name = o.only.contains name := by
    rw [Bool.eq_iff_iff, List.contains_iff_mem, List.contains_iff_mem, h]
  refine ⟨⟨fun ha => ?_, fun ha => ?_⟩, ?_⟩
  · have hnamed : ∀ name ∈ o.only, ∃ target ∈ targets, target.name = name :=
      fun name hname => ha.named name ((h name).2 hname)
    exact ⟨ha.configured, hnamed, ha.parsed, ha.matched⟩
  · have hnamed : ∀ name ∈ names, ∃ target ∈ targets, target.name = name :=
      fun name hname => ha.named name ((h name).1 hname)
    exact ⟨ha.configured, hnamed, ha.parsed, ha.matched⟩
  · simp only [workload, selected, hempty, hcontains]

/-- What a command line can be rejected for. -/
inductive Rejected (readers : Readers) (host : Host) (t : FileTree) (o : GenerateOptions) : Prop
  /-- its configuration cannot be loaded -/
  | configuration (h : ∀ targets, ¬ Configured readers host t o.config targets)
  /-- a name that it asks for is no target's -/
  | target {targets : List Target} {name : Text}
      (h : Configured readers host t o.config targets) (hname : name ∈ o.only)
      (hunknown : ∀ target ∈ targets, target.name ≠ name)
  /-- its pattern is malformed -/
  | pattern {e : PatternError} (h : readers.pattern o.protoPattern = .error e)
  /-- its pattern selects nothing -/
  | sources {pattern : Glob.Pattern} (h : readers.pattern o.protoPattern = .ok pattern)
      (hnone : Glob.expand t host.here pattern = [])

end GenerateOptions

/-! ### The checks -/

theorem readConfig_observes (file : Path) :
    (explained (.request (.read file)) (LoadError.read file)).Observes :=
  asks_explained (Procedure.obeys_observation (r := .read file) rfl) _

theorem load_observes (file : Path) : (Config.load file readers.targets).Observes := by
  refine (readConfig_observes file).bind fun content => ?_
  cases Utf8.decode? content with
  | none => exact asks_throw _
  | some text =>
      dsimp only
      cases readers.targets text with
      | ok targets => exact asks_pure _
      | error fault => exact asks_throw _

theorem load_finds_iff {file : Path} {targets : List Target} :
    (Config.load file readers.targets).Finds host t targets ↔
      ∃ content, t.read host.here file = .ok content ∧
        ∃ text, Utf8.decode? content = some text ∧ readers.targets text = .ok targets := by
  unfold Config.load
  rw [(readConfig_observes file).finds_bind_iff]
  refine exists_congr fun content => and_congr finds_explained_iff ?_
  cases Utf8.decode? content with
  | none => simp [not_finds_throw]
  | some text =>
      cases htargets : readers.targets text <;>
        simp [finds_pure_iff, not_finds_throw, htargets]

theorem knownTargets_observes (config : Option Path) :
    (knownTargets readers config).Observes := by
  cases config with
  | none => exact asks_pure _
  | some file => exact (load_observes file).adapt _

theorem knownTargets_finds_iff {config : Option Path} {targets : List Target} :
    (knownTargets readers config).Finds host t targets ↔
      Configured readers host t config targets := by
  cases config with
  | none =>
      refine finds_pure_iff.trans ⟨?_, ?_⟩
      · rintro rfl
        exact .builtin
      · rintro ⟨⟩
        rfl
  | some file =>
      refine (finds_adapt_iff.trans load_finds_iff).trans ⟨?_, ?_⟩
      · rintro ⟨content, hread, text, hdecode, htargets⟩
        exact .loaded hread hdecode htargets
      · rintro (_ | ⟨hread, hdecode, htargets⟩)
        exact ⟨_, hread, _, hdecode, htargets⟩

/-- There is one list of targets only. -/
theorem Configured.unique {config : Option Path} {targets targets' : List Target}
    (h : Configured readers host t config targets)
    (h' : Configured readers host t config targets') :
    targets = targets' :=
  Finds.unique (knownTargets_finds_iff.2 h) (knownTargets_finds_iff.2 h')

theorem matchingSources_observes (text : Text) :
    (matchingSources text readers.pattern).Observes := by
  unfold matchingSources
  cases readers.pattern text with
  | error e => exact asks_throw _
  | ok pattern =>
      refine Observes.bind (asks_lift (Procedure.obeys_observation rfl)) fun files => ?_
      dsimp only
      split
      · exact (asks_throw _).bind fun _ => asks_pure _
      · exact asks_pure _

theorem matchingSources_finds_iff {text : Text} {files : List Path} :
    (matchingSources text readers.pattern).Finds host t files ↔
      ∃ pattern, readers.pattern text = .ok pattern ∧ Glob.expand t host.here pattern ≠ [] ∧
        files = ordered Path.le (Glob.expand t host.here pattern) := by
  unfold matchingSources
  cases readers.pattern text with
  | error e => simp [not_finds_throw]
  | ok pattern =>
      have hempty : (ordered Path.le (Glob.expand t host.here pattern)).isEmpty ↔
          Glob.expand t host.here pattern = [] := by
        rw [List.isEmpty_iff, ← List.length_eq_zero_iff, length_ordered, List.length_eq_zero_iff]
      have hexpand : ((Procedure.request (.expand pattern)).run host t).1 =
          Glob.expand t host.here pattern := rfl
      dsimp only
      rw [Observes.finds_bind_iff (asks_lift (Procedure.obeys_observation rfl))]
      simp only [finds_lift_iff, exists_eq_left', hexpand, hempty, Except.ok.injEq]
      split
      · next hnone => simp [hnone, not_finds_throw]
      · next hsome => exact finds_pure_iff.trans ⟨fun h => ⟨hsome, h.symm⟩, fun h => h.2.symm⟩

/-- **The checks only observe.** -/
theorem prepareGenerate_observes (readers : Readers) (o : GenerateOptions) :
    (prepareGenerate readers o).Observes :=
  (knownTargets_observes _).bind fun _ => Observes.bind (asks_mk_pure _) fun _ =>
    ((matchingSources_observes _).adapt _).bind fun _ => asks_pure _

theorem targetsNamed_eq_ok_iff {targets selected : List Target} {only : List Text} :
    targetsNamed targets only = .ok selected ↔
      (∀ name ∈ only, ∃ target ∈ targets, target.name = name) ∧
        targets.filter (fun target => only.isEmpty || only.contains target.name) = selected := by
  unfold targetsNamed
  cases hall : only.isEmpty with
  | true =>
      obtain rfl := List.isEmpty_iff.1 hall
      simp
  | false =>
      rw [if_neg Bool.false_ne_true]
      cases hfind : only.find? fun name => !targets.any (·.name = name) with
      | none =>
          have hnamed : ∀ name ∈ only, ∃ target ∈ targets, target.name = name := by
            simpa using List.find?_eq_none.1 hfind
          simp only [Except.ok.injEq, Bool.false_or]
          exact (and_iff_right hnamed).symm
      | some unknown =>
          have hunknown : ¬ ∃ target ∈ targets, target.name = unknown := by
            simpa using List.find?_some hfind
          refine ⟨nofun, fun ⟨hnamed, _⟩ => ?_⟩
          exact absurd (hnamed _ (List.mem_of_find?_eq_some hfind)) hunknown

/-- **The checks find out** whether a command line can be carried out, and what there is to do. -/
theorem prepareGenerate_finds_iff {o : GenerateOptions} {work : Workload} :
    (prepareGenerate readers o).Finds host t work ↔
      ∃ targets pattern, o.Accepted readers host t targets pattern ∧
        work = o.workload host t targets pattern := by
  unfold prepareGenerate
  simp only [(knownTargets_observes _).finds_bind_iff, Observes.finds_bind_iff (asks_mk_pure _),
    ((matchingSources_observes _).adapt _).finds_bind_iff, finds_adapt_iff, finds_mk_pure_iff,
    finds_pure_iff, knownTargets_finds_iff, matchingSources_finds_iff, targetsNamed_eq_ok_iff]
  constructor
  · rintro ⟨targets, hconfigured, _, ⟨hnamed, rfl⟩, _, ⟨pattern, hparsed, hmatched, rfl⟩, rfl⟩
    refine ⟨targets, pattern, ⟨hconfigured, hnamed, hparsed, hmatched⟩, ?_⟩
    rw [GenerateOptions.workload, GenerateOptions.selected_eq]
  · rintro ⟨targets, pattern, h, rfl⟩
    refine ⟨targets, h.configured, _, ⟨h.named, rfl⟩, _, ⟨pattern, h.parsed, h.matched, rfl⟩, ?_⟩
    rw [GenerateOptions.workload, GenerateOptions.selected_eq]

/-- A command line is rejected if and only if it cannot be carried out. -/
theorem GenerateOptions.rejected_iff {o : GenerateOptions} :
    o.Rejected readers host t ↔ ∀ targets pattern, ¬ o.Accepted readers host t targets pattern := by
  constructor
  · rintro (h | ⟨h, hname, hunknown⟩ | h | ⟨h, hnone⟩) targets pattern haccepted
    · exact h targets haccepted.configured
    · obtain ⟨target, htarget, hsame⟩ := haccepted.named _ hname
      exact hunknown target ((h.unique haccepted.configured) ▸ htarget) hsame
    · exact nomatch h.symm.trans haccepted.parsed
    · obtain rfl := Except.ok.inj (h.symm.trans haccepted.parsed)
      exact haccepted.matched hnone
  · intro h
    by_contra hnot
    obtain ⟨targets, hconfigured⟩ : ∃ targets, Configured readers host t o.config targets := by
      by_contra hnone
      exact hnot (.configuration (not_exists.1 hnone))
    have hnamed : ∀ name ∈ o.only, ∃ target ∈ targets, target.name = name := by
      intro name hname
      by_contra hnone
      exact hnot (.target hconfigured hname fun target htarget hsame =>
        hnone ⟨target, htarget, hsame⟩)
    cases hparsed : readers.pattern o.protoPattern with
    | error e => exact hnot (.pattern hparsed)
    | ok pattern =>
        refine h targets pattern ⟨hconfigured, hnamed, hparsed, fun hnone => ?_⟩
        exact hnot (.sources hparsed hnone)

/-! ### The whole command -/

/-- A command did its work: `runs` are the runs of its targets, and `together` is what came of
running them together, once the checks were done. -/
structure CarriedOut (host : Host) (t : FileTree) (o : GenerateOptions) (work : Workload)
    (p : Procedure Outcome) (runs : List (Procedure Report)) (together : Procedure (List Report)) :
    Prop where
  /-- each target is run once, with the generator -/
  once : List.Forall₂ (fun run target => run ∈ target.waysWith (some work.generator))
    runs work.targets
  merges : Procedure.Merges runs together
  /-- nothing but observations comes before the first request of a target -/
  trace : ∃ checks, (∀ r ∈ checks, r.isObservation) ∧
    p.trace host t = checks ++ together.trace host t
  tree : (p.run host t).2 = (together.run host t).2
  /-- there is one report for each target, in the same order -/
  reports : List.Forall₂ Report.Concerns (together.run host t).1 work.targets
  outcome : (p.run host t).1 = work.outcome o.asJson (together.run host t).1
  exitCode : (p.run host t).1.exitCode = 0 ↔
    ∀ report ∈ (together.run host t).1, report.stage ≠ .failed

theorem Workload.exitCode_eq_zero_iff (work : Workload) (asJson : Bool) (reports : List Report) :
    (work.outcome asJson reports).exitCode = 0 ↔ ∀ report ∈ reports, report.stage ≠ .failed := by
  simp [Workload.outcome, Outcome.ofReports, Report.hasFailed]

/-- **A command ends in one of two ways**: the checks find something and it stops, or its work is
carried out. -/
theorem generateWays_cases {o : GenerateOptions} {p : Procedure Outcome}
    (hp : p ∈ generateWays readers o) (host : Host) (t : FileTree) :
    ((∀ work, ¬ (prepareGenerate readers o).Finds host t work) ∧ (p.run host t).1.exitCode = 1 ∧
      (p.run host t).2 = t ∧ ∀ r ∈ p.trace host t, r.isObservation) ∨
    ∃ work runs together, (prepareGenerate readers o).Finds host t work ∧
      CarriedOut host t o work p runs together := by
  obtain ⟨_, rfl, next, hnext, rfl⟩ := hp
  have hchecks := prepareGenerate_observes readers o
  have htrace := Procedure.Obeys.trace hchecks host t
  rcases hprepare : (ExceptT.run (prepareGenerate readers o)).run host t with ⟨result, u⟩
  obtain rfl : u = t := by rw [← hchecks.tree host t, outcome, hprepare]
  cases result with
  | error failure =>
      have hstop : next (.error failure) = .done (.ofFailure failure) := hnext (.error failure)
      refine .inl ⟨fun work hfinds => ?_, ?_⟩
      · rw [Finds, outcome, hprepare] at hfinds
        cases hfinds
      · simp only [Procedure.run_bind, Procedure.trace_bind, hprepare, hstop]
        exact ⟨rfl, rfl, by simpa using htrace⟩
  | ok work =>
      obtain ⟨together, ⟨runs, hruns, hmerges⟩, last, hlast, hwork⟩ := hnext (.ok work)
      have hlast' (reports : List Report) : last reports = .done (work.outcome o.asJson reports) :=
        hlast reports
      rw [List.forall₂_map_right_iff] at hruns
      have hreports := hmerges.obeys (hruns.imp fun run target h => target.waysWith_yield _ run h)
      refine .inr ⟨work, runs, together, ?_, hruns, hmerges, ⟨_, htrace, ?_⟩, ?_,
        hreports.result host u, ?_, ?_⟩
      · rw [Finds, outcome, hprepare]
      all_goals simp only [Procedure.run_bind, Procedure.trace_bind, hprepare, hwork, hlast']
      · simp
      · simp
      · simp
      · exact work.exitCode_eq_zero_iff _ _

end CommandLine

end DualModule

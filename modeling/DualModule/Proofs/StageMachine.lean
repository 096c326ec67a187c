import DualModule.Procedure.Responder
import DualModule.Proofs.Normalisation
import Mathlib.Data.List.Chain
/-!
# Stages and reports

A run goes through stages, and its report is written piece by piece on the way.  Whatever becomes of
generation and of the two passes, the stages follow each other as they may, and the pieces of the
report fit each other and what happened (`Target.run_consistent`).

**What happened is asked of the parts.**  `Target.parts` goes through generation, renaming and
editing as a run does and keeps what each of them comes to.  A run has five exits, and each of them
says what the parts came to and which report is returned (`Target.Exit`).

**Every combination of outcomes** is covered because any responder may answer the requests.

## Main Definitions

* `Target.Parts`, `Target.parts`
* `Report.stages`, `Report.Consistent`
* `Target.Exit`
-/

namespace DualModule

variable {σ : Type} {target : Target} {generator : Option Generator} {report : Report}

/-! ### What happened -/

namespace Target

/-- What the parts of a run come to; a part that does not begin comes to nothing. -/
structure Parts where
  generated : Except GenerationError Unit
  renamed? : Option (Except PassError (List Mapping))
  edited? : Option (Except PassError EditSummary)

/-- Generation; without a generator there is nothing to do. -/
def generation (target : Target) : Option Generator → Attempt GenerationError Unit
  | none => pure ()
  | some g => target.generate g

/-- The parts of a run, each after the other if that succeeds. -/
def parts (target : Target) (generator : Option Generator) : Procedure Parts := do
  let generated ← (target.generation generator).run
  match generated, target.postProcess with
  | .ok (), some p =>
    let renamed ← (renameBelow target.out p.rules).run
    match renamed with
    | .ok plan =>
      let edited ← (editImports target.out plan).run
      return ⟨generated, some renamed, some edited⟩
    | .error _ => return ⟨generated, some renamed, none⟩
  | _, _ => return ⟨generated, none, none⟩

end Target

/-! ### What the report says -/

namespace Report

/-- All stages of a run, in the order in which they were reached. -/
def stages (r : Report) : List Stage := .notStarted :: r.trail.reverse

@[simp] theorem stages_advance (r : Report) (next : Stage) :
    (r.advance next).stages = r.stages ++ [next] := by
  simp [stages, advance]

@[simp] theorem stage_advance (r : Report) (next : Stage) : (r.advance next).stage = next := rfl

/-- The pieces of a report fit each other, the target, and what the parts of the run came to. -/
structure Consistent (r : Report) (target : Target) (generator : Option Generator)
    (parts : Target.Parts) : Prop where
  target_eq : r.target = target.name
  out_eq : r.out = target.out
  /-- each stage may follow the one before -/
  chain : r.stages.IsChain (·.canAdvance ·)
  terminal : r.stage.isTerminal
  generated_iff : .generated ∈ r.stages ↔ generator.isSome ∧ parts.generated = .ok ()
  normalized : .renamed ∈ r.stages ∨ .edited ∈ r.stages → target.postProcess.isSome
  failed_iff_error : r.stage = .failed ↔ r.error.isSome
  failed_iff_failedAfter : r.stage = .failed ↔ r.failedAfter?.isSome
  /-- a failure is recorded with the stage just before it -/
  failedAfter : ∀ stage, r.failedAfter? = some stage →
    [stage, .failed] <:+ r.stages ∧ stage ∈ [Stage.notStarted, .generated, .renamed]
  postProcessed_iff : r.postProcessed ↔ r.edits.isSome
  edits_iff : r.edits.isSome ↔ r.stage = .done ∧ target.postProcess.isSome
  renamed_eq : r.renamed =
    match parts.renamed? with
    | some (.ok plan) => plan.length
    | _ => 0

theorem getLast?_stages (r : Report) : r.stages.getLast? = some r.stage := by
  cases htrail : r.trail with
  | nil => simp [stages, stage, htrail]
  | cons last earlier =>
      rw [stages, htrail, List.reverse_cons, ← List.cons_append, List.getLast?_concat, stage, htrail]
      rfl

/-- A report of a run that has neither failed nor ended. -/
structure Underway (r : Report) (target : Target) (generator : Option Generator)
    (parts : Target.Parts) : Prop where
  target_eq : r.target = target.name
  out_eq : r.out = target.out
  chain : r.stages.IsChain (·.canAdvance ·)
  generated_iff : .generated ∈ r.stages ↔ generator.isSome ∧ parts.generated = .ok ()
  normalized : .renamed ∈ r.stages ∨ .edited ∈ r.stages → target.postProcess.isSome
  error_eq : r.error = none
  failedAfter_eq : r.failedAfter? = none
  postProcessed_iff : r.postProcessed ↔ r.edits.isSome

namespace Underway

variable {parts : Target.Parts} {next : Stage}

/-- **A stage that may follow** keeps the trail as it may be. -/
theorem chain_advance (h : report.Underway target generator parts)
    (hnext : report.stage.canAdvance next) : (report.advance next).stages.IsChain (·.canAdvance ·) := by
  rw [stages_advance]
  refine h.chain.append (.singleton _) ?_
  rw [getLast?_stages]
  rintro stage ⟨⟩ _ ⟨⟩
  exact hnext

/-- **The step** to a stage of the two passes. -/
theorem advance (h : report.Underway target generator parts) (hnext : report.stage.canAdvance next)
    (hne : next ≠ .generated) (hpost : target.postProcess.isSome) :
    (report.advance next).Underway target generator parts := by
  refine ⟨h.target_eq, h.out_eq, h.chain_advance hnext, ?_, fun _ => hpost, h.error_eq,
    h.failedAfter_eq, h.postProcessed_iff⟩
  rw [stages_advance, List.mem_append, h.generated_iff]
  simp [hne.symm]

/-- What a pass reports may be written down at any stage. -/
theorem count (h : report.Underway target generator parts) (renamed : Nat) :
    { report with renamed := renamed }.Underway target generator parts :=
  ⟨h.target_eq, h.out_eq, h.chain, h.generated_iff, h.normalized, h.error_eq, h.failedAfter_eq,
    h.postProcessed_iff⟩

theorem summary (h : report.Underway target generator parts) (summary : EditSummary) :
    { report with edits := some summary, postProcessed := true }.Underway target generator parts :=
  ⟨h.target_eq, h.out_eq, h.chain, h.generated_iff, h.normalized, h.error_eq, h.failedAfter_eq,
    by simp⟩

/-- **The last step** of a run that succeeds. -/
theorem done (h : report.Underway target generator parts) (hnext : report.stage.canAdvance .done)
    (hedits : report.edits.isSome ↔ target.postProcess.isSome)
    (hrenamed : report.renamed =
      match parts.renamed? with
      | some (.ok plan) => plan.length
      | _ => 0) :
    (report.advance .done).Consistent target generator parts where
  target_eq := h.target_eq
  out_eq := h.out_eq
  chain := h.chain_advance hnext
  terminal := rfl
  generated_iff := by
    rw [stages_advance, List.mem_append, h.generated_iff]
    simp
  normalized := by
    simpa using h.normalized
  failed_iff_error := by
    simp [Report.advance, stage, h.error_eq]
  failed_iff_failedAfter := by
    simp [Report.advance, stage, h.failedAfter_eq]
  failedAfter := by
    intro stage hstage
    cases h.failedAfter_eq.symm.trans hstage
  postProcessed_iff := h.postProcessed_iff
  edits_iff := hedits.trans (by simp)
  renamed_eq := hrenamed

/-- **The last step** of a run that fails. -/
theorem fail (h : report.Underway target generator parts) (e : TargetError)
    (hstage : report.stage ∈ [Stage.notStarted, .generated, .renamed])
    (hedits : report.edits = none)
    (hrenamed : report.renamed =
      match parts.renamed? with
      | some (.ok plan) => plan.length
      | _ => 0) :
    (report.fail e).Consistent target generator parts where
  target_eq := h.target_eq
  out_eq := h.out_eq
  chain := by
    have hnext : report.stage.canAdvance .failed := by
      simp only [List.mem_cons, List.not_mem_nil, or_false] at hstage
      rcases hstage with hstage | hstage | hstage <;> rw [hstage] <;> rfl
    exact h.chain_advance hnext
  terminal := rfl
  generated_iff := by
    show .generated ∈ (report.advance .failed).stages ↔ _
    rw [stages_advance, List.mem_append, h.generated_iff]
    simp
  normalized := by
    show .renamed ∈ (report.advance .failed).stages ∨ .edited ∈ (report.advance .failed).stages → _
    simpa using h.normalized
  failed_iff_error := by
    simp [Report.fail, Report.advance, stage]
  failed_iff_failedAfter := by
    simp [Report.fail, Report.advance, stage]
  failedAfter := by
    rintro _ ⟨⟩
    refine ⟨?_, hstage⟩
    obtain ⟨earlier, hearlier⟩ := List.getLast?_eq_some_iff.1 report.getLast?_stages
    show _ <:+ (report.advance .failed).stages
    rw [stages_advance, hearlier]
    exact ⟨earlier, by simp⟩
  postProcessed_iff := h.postProcessed_iff
  edits_iff := by
    simp [Report.fail, Report.advance, stage, hedits]
  renamed_eq := hrenamed

end Underway

end Report

/-! ### The exits -/

namespace Target

/-- The report when generation is over. -/
def begun (target : Target) (generator : Option Generator) : Report :=
  if generator.isSome then (Report.start target).advance .generated else .start target

/-- How a run ends: what its parts have come to, and its report. -/
inductive Exit (target : Target) (generator : Option Generator) : Parts → Report → Prop
  | notGenerated (e : GenerationError) (hgenerator : generator.isSome) :
      Exit target generator ⟨.error e, none, none⟩ ((Report.start target).fail (.generation e))
  | unprocessed (hpost : target.postProcess = none) :
      Exit target generator ⟨.ok (), none, none⟩ ((target.begun generator).advance .done)
  | notRenamed (e : PassError) (hpost : target.postProcess.isSome) :
      Exit target generator ⟨.ok (), some (.error e), none⟩
        ((target.begun generator).fail (.pass e))
  | notEdited (plan : List Mapping) (e : PassError) (hpost : target.postProcess.isSome) :
      Exit target generator ⟨.ok (), some (.ok plan), some (.error e)⟩
        (({ target.begun generator with renamed := plan.length }.advance .renamed).fail (.pass e))
  | finished (plan : List Mapping) (summary : EditSummary) (hpost : target.postProcess.isSome) :
      Exit target generator ⟨.ok (), some (.ok plan), some (.ok summary)⟩
        (({ { target.begun generator with renamed := plan.length }.advance .renamed with
          edits := some summary, postProcessed := true }.advance .edited).advance .done)

/-- A run is generation, with or without a generator, and what follows it. -/
theorem run_eq (target : Target) (generator : Option Generator) :
    target.run generator = (target.generation generator).run >>= fun
      | .error e => pure ((Report.start target).fail (.generation e))
      | .ok () => target.finish (target.begun generator) := by
  cases generator <;> rfl

/-- **A run takes one of the exits**, and asks for what its parts ask for. -/
theorem run_exit (answers : Responder σ) (s : σ) (target : Target) (generator : Option Generator) :
    Exit target generator ((target.parts generator).runWith answers s).1
        ((target.run generator).runWith answers s).1 ∧
      ((target.run generator).runWith answers s).2 =
        ((target.parts generator).runWith answers s).2 := by
  rw [run_eq, parts, Procedure.runWith_bind, Procedure.runWith_bind]
  rcases hgeneration : (target.generation generator).run.runWith answers s with ⟨generated, s'⟩
  cases generated with
  | error e =>
      refine ⟨.notGenerated e ?_, rfl⟩
      cases generator with
      | none => cases hgeneration
      | some g => rfl
  | ok _ =>
      cases hpost : target.postProcess with
      | none =>
          simp only [finish, hpost]
          exact ⟨.unprocessed hpost, rfl⟩
      | some p =>
          simp only [finish, hpost, normalize, Procedure.runWith_bind]
          rcases (renameBelow target.out p.rules).run.runWith answers s' with ⟨renamed, s'⟩
          cases renamed with
          | error e => exact ⟨.notRenamed e (by simp [hpost]), rfl⟩
          | ok plan =>
              simp only [Procedure.runWith_bind]
              rcases (editImports target.out plan).run.runWith answers s' with ⟨edited, s'⟩
              cases edited with
              | error e => exact ⟨.notEdited plan e (by simp [hpost]), rfl⟩
              | ok summary => exact ⟨.finished plan summary (by simp [hpost]), rfl⟩

theorem start_underway {parts : Parts} (h : ¬ (generator.isSome ∧ parts.generated = .ok ())) :
    (Report.start target).Underway target generator parts :=
  ⟨rfl, rfl, List.IsChain.singleton _, iff_of_false (by simp [Report.stages, Report.start]) h,
    by simp [Report.stages, Report.start], rfl, rfl, by simp [Report.start]⟩

/-- After generation the report is in order. -/
theorem begun_underway {parts : Parts} (h : parts.generated = .ok ()) :
    (target.begun generator).Underway target generator parts := by
  cases generator with
  | none => exact start_underway (by simp)
  | some g =>
      refine ⟨rfl, rfl, ?_, ?_, ?_, rfl, rfl, ?_⟩ <;>
        simp [begun, Report.start, Report.stages, Report.advance, Stage.canAdvance, h]

theorem stage_begun (target : Target) (generator : Option Generator) :
    (target.begun generator).stage = .notStarted ∨ (target.begun generator).stage = .generated := by
  cases generator with
  | none => exact Or.inl rfl
  | some g => exact Or.inr rfl

/-- After the rename pass the report is in order. -/
theorem renamed_underway {parts : Parts} (h : parts.generated = .ok ())
    (hpost : target.postProcess.isSome) (count : Nat) :
    ({ target.begun generator with renamed := count }.advance .renamed).Underway target generator
      parts := by
  refine ((begun_underway h).count count).advance ?_ (by simp) hpost
  show (target.begun generator).stage.canAdvance .renamed
  rcases stage_begun target generator with hstage | hstage <;> rw [hstage] <;> rfl

/-- **At every exit the report is consistent.** -/
theorem Exit.consistent {parts : Parts} (h : Exit target generator parts report) :
    report.Consistent target generator parts := by
  have hedits : (target.begun generator).edits = none := by
    cases generator <;> rfl
  have hrenamed : (target.begun generator).renamed = 0 := by
    cases generator <;> rfl
  cases h with
  | notGenerated e hgenerator =>
      refine (start_underway ?_).fail _ (by simp [Report.start, Report.stage]) rfl rfl
      simp
  | unprocessed hpost =>
      refine (begun_underway rfl).done ?_ (by simp [hedits, hpost]) hrenamed
      rcases stage_begun target generator with hstage | hstage <;> rw [hstage] <;> rfl
  | notRenamed e hpost =>
      refine (begun_underway rfl).fail _ ?_ hedits hrenamed
      rcases stage_begun target generator with hstage | hstage <;> simp [hstage]
  | notEdited plan e hpost =>
      have hunderway := (renamed_underway rfl hpost plan.length :
        Report.Underway _ target generator ⟨.ok (), some (.ok plan), some (.error e)⟩)
      exact hunderway.fail _ (by simp) hedits rfl
  | finished plan summary hpost =>
      have hunderway := (renamed_underway rfl hpost plan.length :
        Report.Underway _ target generator ⟨.ok (), some (.ok plan), some (.ok summary)⟩)
      have hedited : Stage.renamed.canAdvance .edited := rfl
      exact ((hunderway.summary summary).advance hedited (by simp) hpost).done rfl
        (by simp [hpost, Report.advance]) rfl

/-! ### Whole runs -/

/-- Without passes, the parts of a run end with generation. -/
theorem parts_state_of_unprocessed (answers : Responder σ) (s : σ)
    (hpost : target.postProcess = none) :
    ((target.parts generator).runWith answers s).2 =
      ((target.generation generator).run.runWith answers s).2 := by
  rw [parts, Procedure.runWith_bind]
  rcases (target.generation generator).run.runWith answers s with ⟨generated, s'⟩
  cases generated <;> simp [hpost]

/-- **The stages and the report of a run**, with or without a generator, whatever the answers are.
The report is consistent with what the parts of the run came to.  A run asks for what its parts ask
for, and without passes it asks for nothing after generation. -/
theorem run_consistent (answers : Responder σ) (s : σ) (target : Target)
    (generator : Option Generator) :
    let parts := (target.parts generator).runWith answers s
    let run := (target.run generator).runWith answers s
    run.1.Consistent target generator parts.1 ∧ run.2 = parts.2 ∧
      (target.postProcess = none →
        run.2 = ((target.generation generator).run.runWith answers s).2) := by
  intro parts run
  obtain ⟨hexit, hstate⟩ := run_exit answers s target generator
  refine ⟨hexit.consistent, hstate, ?_⟩
  intro hpost
  exact hstate.trans (parts_state_of_unprocessed answers s hpost)

/-- On a host, generation is then all that changes the tree. -/
theorem run_tree_of_unprocessed (host : Host) (t : FileTree) (hpost : target.postProcess = none) :
    ((target.run generator).run host t).2 =
      ((target.generation generator).run.run host t).2 := by
  rw [← Procedure.runWith_responder, ← Procedure.runWith_responder]
  exact (run_exit host.responder t target generator).2.trans
    (parts_state_of_unprocessed host.responder t hpost)

end Target

/-- A host on which nothing can be written. -/
def Host.readOnly (host : Host) : Responder FileTree
  | t, .write _ _ => (.error .accessDenied, t)
  | t, r => r.answer host t

/-- With the tree of a module, its importer, a link and a file that is no text, on a host on which
nothing can be written, the run fails after the rename pass. -/
theorem smallTree_not_writable :
    let target : Target := ⟨"t".toList, .ofText "/t".toList, [], some .dualModule⟩
    let parts := (target.parts none).runWith Host.plain.readOnly smallTree
    let run := (target.run none).runWith Host.plain.readOnly smallTree
    run.1.stages = [.notStarted, .renamed, .failed] ∧ run.1.failedAfter? = some .renamed ∧
      run.1.renamed = 1 ∧
      run.1.Consistent target none parts.1 ∧ run.2 = parts.2 ∧
      (target.postProcess = none →
        run.2 = ((target.generation none).run.runWith Host.plain.readOnly smallTree).2) :=
  ⟨by decide +kernel, by decide +kernel, by decide +kernel,
    Target.run_consistent Host.plain.readOnly smallTree _ none⟩

end DualModule

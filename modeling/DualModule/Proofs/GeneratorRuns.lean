import DualModule.Procedure.Trace
import DualModule.Proofs.FreshDirectory
import DualModule.Proofs.TemplatePieces
/-!
# Runs of the generator

Generating a target has three parts, and none begins before the one in front of it has succeeded:
its arguments are rendered, its output directory is made afresh, and the generator is run, group by
group.  What is said here holds with every responder, hosts among them
(`Procedure.runWith_responder`), and so whatever the generator does and whichever requests are
refused.

**Nothing is asked for** before all arguments are known.  If one of them cannot be rendered, the
first of these decides the error (`Target.FirstInvalid`), and the responder is left as it was.

**The runs stop at the first that fails.**  Groups are run in their order, each when the one before
it has ended well (`Generator.Succeeds`); a run that cannot be started or does not end well is the
last one, and decides the error (`Generator.Ends`).

## Main Definitions

* `Target.Valid`, `Target.RendersAs`, `Target.FirstInvalid`
* `Generator.launching`: what is asked for to run a group
* `Generator.Succeeds`, `Generator.Ends`
-/

namespace DualModule

variable {σ : Type} {answers : Responder σ}

/-! ### Attempts with any answers -/

namespace Attempt

variable {ε α β : Type} {a : Attempt ε α} {f : α → Attempt ε β} {s s' : σ}

/-- Once an attempt has succeeded, its successor goes on with the responder as it was left. -/
theorem runWith_bind_ok {x : α} (h : (ExceptT.run a).runWith answers s = (.ok x, s')) :
    (ExceptT.run (a >>= f)).runWith answers s = (ExceptT.run (f x)).runWith answers s' ∧
      (ExceptT.run (a >>= f)).traceWith answers s =
        (ExceptT.run a).traceWith answers s ++ (ExceptT.run (f x)).traceWith answers s' := by
  rw [ExceptT.run_bind, Procedure.runWith_bind, Procedure.traceWith_bind, h]
  exact ⟨rfl, rfl⟩

/-- An attempt that has failed has no successor. -/
theorem runWith_bind_error {e : ε} (h : (ExceptT.run a).runWith answers s = (.error e, s')) :
    (ExceptT.run (a >>= f)).runWith answers s = (.error e, s') ∧
      (ExceptT.run (a >>= f)).traceWith answers s = (ExceptT.run a).traceWith answers s := by
  rw [ExceptT.run_bind, Procedure.runWith_bind, Procedure.traceWith_bind, h]
  exact ⟨rfl, List.append_nil _⟩

end Attempt

/-! ### Arguments -/

namespace Target

variable {target : Target}

/-- The argument that a template stands for. -/
def argument (target : Target) (template : Text) : Except TemplateError Text :=
  Template.render template target.out.display

/-- Every argument template can be rendered. -/
def Valid (target : Target) : Prop :=
  ∀ group ∈ target.invocations, ∀ template ∈ group, ∃ text, target.argument template = .ok text

/-- The groups are rendered as `groups`, template by template. -/
def RendersAs (target : Target) (groups : List (List Text)) : Prop :=
  List.Forall₂ (List.Forall₂ fun template text => target.argument template = .ok text)
    target.invocations groups

/-- The first template that cannot be rendered, in the order of the groups, has this error. -/
def FirstInvalid (target : Target) (e : TemplateError) : Prop :=
  ∃ before template after, target.invocations.flatten = before ++ template :: after ∧
    (∀ earlier ∈ before, ∃ text, target.argument earlier = .ok text) ∧
    target.argument template = .error e

theorem renderedInvocations_eq_ok_iff {groups : List (List Text)} :
    target.renderedInvocations = .ok groups ↔ target.RendersAs groups := by
  unfold renderedInvocations RendersAs
  rw [mapM_eq_ok_iff]
  simp only [mapM_eq_ok_iff, argument]

theorem firstInvalid_of_renderedInvocations {e : TemplateError}
    (h : target.renderedInvocations = .error e) : target.FirstInvalid e := by
  obtain ⟨groups, group, groups', hgroups, hearlier, hgroup⟩ := mapM_eq_error_iff.1 h
  obtain ⟨before, template, after, rfl, hbefore, htemplate⟩ := mapM_eq_error_iff.1 hgroup
  refine ⟨groups.flatten ++ before, template, after ++ groups'.flatten, by simp [hgroups], ?_,
    htemplate⟩
  intro earlier hmem
  rcases List.mem_append.1 hmem with hmem | hmem
  · obtain ⟨group, hgroup, hmem⟩ := List.mem_flatten.1 hmem
    exact exists_mapM_eq_ok_iff.1 (hearlier group hgroup) earlier hmem
  · exact hbefore earlier hmem

theorem valid_iff : target.Valid ↔ ∃ groups, target.RendersAs groups := by
  simp only [← renderedInvocations_eq_ok_iff, renderedInvocations, exists_mapM_eq_ok_iff]
  rfl

end Target

/-! ### The output directory -/

/-- **What making a directory afresh asks for** concerns that directory only, and so does its
error. -/
theorem freshDirectory_obeys (out : Path) :
    (ExceptT.run (freshDirectory out)).Obeys
      (· ∈ [.test out, .removeTree out, .makeDirectories out])
      fun result => ∀ e, result = .error e → ∃ cause, e = .directory out cause := by
  have hfailed : ∀ cause e, (Except.error (.directory out cause) : Except _ Unit) = .error e →
      ∃ cause, e = GenerationError.directory out cause :=
    fun cause e he => ⟨cause, (Except.error.inj he).symm⟩
  have hmade : (ExceptT.run (Attempt.explained (.request (.makeDirectories out))
      (GenerationError.directory out))).Obeys
      (· ∈ [.test out, .removeTree out, .makeDirectories out])
      fun result => ∀ e, result = .error e → ∃ cause, e = .directory out cause := by
    refine ⟨by simp, fun reply => ?_⟩
    cases reply with
    | error cause => exact hfailed cause
    | ok => nofun
  refine ⟨by simp, fun reply => ?_⟩
  rcases reply with cause | _ | _
  · exact hfailed cause
  · exact hmade
  · refine ⟨by simp, fun reply => ?_⟩
    cases reply with
    | error cause => exact hfailed cause
    | ok => exact hmade

/-! ### The runs -/

namespace Generator

variable {g : Generator} {group : List Text} {groups tried : List (List Text)} {s s' : σ}
  {result : Except GenerationError Unit}

/-- What is asked for to run a group: the program, with an `-I` for each include directory, then the
arguments of the group, then the files. -/
abbrev launching (g : Generator) (group : List Text) : Request :=
  .launch g.program
    (g.includes.map (fun directory => "-I".toList ++ directory.display) ++ group ++
      g.sources.map Path.display)

/-- The runs of all groups end well, one after another. -/
inductive Succeeds (g : Generator) (answers : Responder σ) : List (List Text) → σ → σ → Prop
  | nil (s : σ) : Succeeds g answers [] s s
  | cons {group : List Text} {groups : List (List Text)} {s s₁ s' : σ} {stderr : Bytes}
      (h : answers s (g.launching group) = (.ok ⟨.code 0, stderr⟩, s₁))
      (hrest : Succeeds g answers groups s₁ s') : Succeeds g answers (group :: groups) s s'

/-- How the runs of `groups` end: with which result, after which runs, and with the responder in
which state. -/
inductive Ends (g : Generator) (answers : Responder σ) (groups : List (List Text)) (s : σ) :
    Except GenerationError Unit → List (List Text) → σ → Prop
  /-- all of them end well -/
  | finished {s' : σ} (h : g.Succeeds answers groups s s') :
      Ends g answers groups s (.ok ()) groups s'
  /-- the last one cannot be started -/
  | spawn {before after : List (List Text)} {group : List Text} {s₁ s' : σ} {cause : SystemError}
      (hgroups : groups = before ++ group :: after) (hbefore : g.Succeeds answers before s s₁)
      (h : answers s₁ (g.launching group) = (.error cause, s')) :
      Ends g answers groups s (.error (.spawn g.program cause)) (before ++ [group]) s'
  /-- the last one does not end well -/
  | failed {before after : List (List Text)} {group : List Text} {s₁ s' : σ}
      {completion : Completion}
      (hgroups : groups = before ++ group :: after) (hbefore : g.Succeeds answers before s s₁)
      (h : answers s₁ (g.launching group) = (.ok completion, s'))
      (hstatus : completion.status ≠ .code 0) :
      Ends g answers groups s
        (.error (.failed g.program completion.status (trim (Utf8.lossy completion.stderr))))
        (before ++ [group]) s'

/-- The groups that are run are the first ones. -/
theorem Ends.isPrefix (h : g.Ends answers groups s result tried s') : tried <+: groups := by
  cases h with
  | finished => exact List.prefix_rfl
  | spawn hgroups => exact ⟨_, by rw [hgroups, List.append_assoc]; rfl⟩
  | failed hgroups => exact ⟨_, by rw [hgroups, List.append_assoc]; rfl⟩

/-- A run that ends well, in front of the others. -/
theorem Ends.cons {s₁ : σ} {stderr : Bytes}
    (h : answers s (g.launching group) = (.ok ⟨.code 0, stderr⟩, s₁))
    (hrest : g.Ends answers groups s₁ result tried s') :
    g.Ends answers (group :: groups) s result (group :: tried) s' := by
  cases hrest with
  | finished hall => exact .finished (.cons h hall)
  | spawn hgroups hbefore hlast => exact .spawn (by rw [hgroups]; rfl) (.cons h hbefore) hlast
  | failed hgroups hbefore hlast hstatus =>
      exact .failed (by rw [hgroups]; rfl) (.cons h hbefore) hlast hstatus

/-- What a run comes to when its request is answered. -/
def verdict (g : Generator) : Except SystemError Completion → Except GenerationError Unit
  | .error cause => .error (.spawn g.program cause)
  | .ok completion =>
    if completion.status = .code 0 then .ok ()
    else .error (.failed g.program completion.status (trim (Utf8.lossy completion.stderr)))

/-- **One run** asks once. -/
theorem runGroup_eq (g : Generator) (group : List Text) :
    ExceptT.run (g.runGroup group) =
      .ask (g.launching group) fun reply => .done (g.verdict reply) := by
  refine congrArg (Procedure.ask (g.launching group)) (funext fun reply => ?_)
  rcases reply with cause | completion
  · rfl
  · show ExceptT.run (if completion.status ≠ .code 0 then
        throw (.failed g.program completion.status (trim (Utf8.lossy completion.stderr)))
      else pure () : Attempt GenerationError Unit) = .done (g.verdict (.ok completion))
    by_cases h : completion.status = .code 0
    · rw [verdict, if_pos h, if_neg (not_not.2 h)]
      rfl
    · rw [verdict, if_neg h, if_pos h]
      rfl

theorem Ends.of_verdict {reply : Except SystemError Completion} {e : GenerationError}
    (h : answers s (g.launching group) = (reply, s')) (hreply : g.verdict reply = .error e) :
    g.Ends answers (group :: groups) s (.error e) [group] s' := by
  rcases reply with cause | completion
  · obtain rfl := Except.error.inj hreply
    exact .spawn rfl (.nil s) h
  · by_cases hstatus : completion.status = .code 0
    · rw [verdict, if_pos hstatus] at hreply
      cases hreply
    · rw [verdict, if_neg hstatus] at hreply
      obtain rfl := Except.error.inj hreply
      exact .failed rfl (.nil s) h hstatus

theorem exists_of_verdict {reply : Except SystemError Completion} (h : g.verdict reply = .ok ()) :
    ∃ stderr, reply = .ok ⟨.code 0, stderr⟩ := by
  rcases reply with cause | ⟨status, stderr⟩
  · cases h
  · by_cases hstatus : status = .code 0
    · exact ⟨stderr, by rw [hstatus]⟩
    · exact nomatch (if_neg hstatus).symm.trans h

/-- **One step**: a run that ends well is followed by the others. -/
theorem forM_runGroup_cons {s₁ : σ} {stderr : Bytes}
    (h : answers s (g.launching group) = (.ok ⟨.code 0, stderr⟩, s₁)) (groups : List (List Text)) :
    (ExceptT.run ((group :: groups).forM g.runGroup)).runWith answers s =
        (ExceptT.run (groups.forM g.runGroup)).runWith answers s₁ ∧
      (ExceptT.run ((group :: groups).forM g.runGroup)).traceWith answers s =
        g.launching group :: (ExceptT.run (groups.forM g.runGroup)).traceWith answers s₁ := by
  have hrun : (ExceptT.run (g.runGroup group)).runWith answers s = (.ok (), s₁) := by
    rw [runGroup_eq, Procedure.runWith, h]
    rfl
  obtain ⟨hruns, hasked⟩ := Attempt.runWith_bind_ok (f := fun _ => groups.forM g.runGroup) hrun
  rw [runGroup_eq] at hasked
  exact ⟨hruns, hasked⟩

/-- A run that does not end well is the last one. -/
theorem forM_runGroup_cons_error {reply : Except SystemError Completion} {e : GenerationError}
    (h : answers s (g.launching group) = (reply, s')) (hreply : g.verdict reply = .error e)
    (groups : List (List Text)) :
    (ExceptT.run ((group :: groups).forM g.runGroup)).runWith answers s = (.error e, s') ∧
      (ExceptT.run ((group :: groups).forM g.runGroup)).traceWith answers s =
        [g.launching group] := by
  have hrun : (ExceptT.run (g.runGroup group)).runWith answers s = (.error e, s') := by
    rw [runGroup_eq, Procedure.runWith, h, ← hreply]
    rfl
  obtain ⟨hruns, hasked⟩ := Attempt.runWith_bind_error (f := fun _ => groups.forM g.runGroup) hrun
  rw [runGroup_eq] at hasked
  exact ⟨hruns, hasked⟩

/-- **All runs**: which of them there are, and what they come to. -/
theorem forM_runGroup_ends (g : Generator) (groups : List (List Text)) (answers : Responder σ)
    (s : σ) :
    ∃ tried, (ExceptT.run (groups.forM g.runGroup)).traceWith answers s = tried.map g.launching ∧
      g.Ends answers groups s ((ExceptT.run (groups.forM g.runGroup)).runWith answers s).1 tried
        ((ExceptT.run (groups.forM g.runGroup)).runWith answers s).2 := by
  induction groups generalizing s with
  | nil => exact ⟨[], rfl, .finished (.nil s)⟩
  | cons group groups ih =>
      rcases hanswer : answers s (g.launching group) with ⟨reply, s₁⟩
      cases hverdict : g.verdict reply with
      | error e =>
          obtain ⟨hruns, hasked⟩ := forM_runGroup_cons_error hanswer hverdict groups
          exact ⟨[group], hasked, hruns ▸ .of_verdict hanswer hverdict⟩
      | ok =>
          obtain ⟨stderr, rfl⟩ := exists_of_verdict hverdict
          obtain ⟨hruns, hasked⟩ := forM_runGroup_cons hanswer groups
          obtain ⟨tried, htried, hends⟩ := ih s₁
          refine ⟨group :: tried, by rw [hasked, htried, List.map_cons], ?_⟩
          rw [hruns]
          exact hends.cons hanswer

/-- Runs that all end well are all there are. -/
theorem Succeeds.forM_runGroup (h : g.Succeeds answers groups s s') :
    (ExceptT.run (groups.forM g.runGroup)).runWith answers s = (.ok (), s') := by
  induction h with
  | nil s => rfl
  | cons hanswer _ ih => exact (forM_runGroup_cons hanswer _).1.trans ih

end Generator

/-! ### All together -/

namespace Target

variable {target : Target} {g : Generator} {s s' : σ}

/-- Nothing is done for a template that cannot be rendered. -/
theorem generate_of_error {e : TemplateError} (h : target.renderedInvocations = .error e)
    (g : Generator) (answers : Responder σ) (s : σ) :
    (ExceptT.run (target.generate g)).runWith answers s = (.error (.template e), s) ∧
      (ExceptT.run (target.generate g)).traceWith answers s = [] := by
  rw [generate, h]
  exact ⟨rfl, rfl⟩

/-- Arguments that can be rendered are followed by the directory, and this by the runs. -/
theorem generate_of_rendersAs {groups : List (List Text)} (h : target.RendersAs groups)
    (g : Generator) :
    target.generate g = freshDirectory target.out >>= fun _ => groups.forM g.runGroup := by
  rw [generate, renderedInvocations_eq_ok_iff.2 h]

section Directory

variable {groups : List (List Text)} (hgroups : target.RendersAs groups)
include hgroups

theorem generate_of_directory_error {e : GenerationError}
    (h : ((ExceptT.run (freshDirectory target.out)).runWith answers s).1 = .error e) :
    (ExceptT.run (target.generate g)).runWith answers s =
        (ExceptT.run (freshDirectory target.out)).runWith answers s ∧
      (ExceptT.run (target.generate g)).traceWith answers s =
        (ExceptT.run (freshDirectory target.out)).traceWith answers s := by
  rw [generate_of_rendersAs hgroups]
  obtain ⟨hrun, hasked⟩ := Attempt.runWith_bind_error (f := fun _ => groups.forM g.runGroup)
    (Prod.ext h rfl)
  exact ⟨hrun.trans (Prod.ext h.symm rfl), hasked⟩

theorem generate_of_directory_ok
    (h : ((ExceptT.run (freshDirectory target.out)).runWith answers s).1 = .ok ()) :
    let s' := ((ExceptT.run (freshDirectory target.out)).runWith answers s).2
    (ExceptT.run (target.generate g)).runWith answers s =
        (ExceptT.run (groups.forM g.runGroup)).runWith answers s' ∧
      (ExceptT.run (target.generate g)).traceWith answers s =
        (ExceptT.run (freshDirectory target.out)).traceWith answers s ++
          (ExceptT.run (groups.forM g.runGroup)).traceWith answers s' := by
  rw [generate_of_rendersAs hgroups]
  exact Attempt.runWith_bind_ok (Prod.ext h rfl)

end Directory

/-- **All is well** if and only if every part is. -/
theorem generate_eq_ok_iff :
    ((ExceptT.run (target.generate g)).runWith answers s).1 = .ok () ↔
      ∃ groups s', target.RendersAs groups ∧
        ((ExceptT.run (freshDirectory target.out)).runWith answers s).1 = .ok () ∧
        g.Succeeds answers groups
          ((ExceptT.run (freshDirectory target.out)).runWith answers s).2 s' := by
  constructor
  · intro hok
    cases hrendered : target.renderedInvocations with
    | error e =>
        rw [(generate_of_error hrendered g answers s).1] at hok
        cases hok
    | ok groups =>
        have hgroups := renderedInvocations_eq_ok_iff.1 hrendered
        cases hfresh : ((ExceptT.run (freshDirectory target.out)).runWith answers s).1 with
        | error e =>
            rw [(generate_of_directory_error hgroups hfresh).1, hfresh] at hok
            cases hok
        | ok =>
            obtain ⟨tried, -, hends⟩ := g.forM_runGroup_ends groups answers
              ((ExceptT.run (freshDirectory target.out)).runWith answers s).2
            rw [← (generate_of_directory_ok hgroups hfresh).1, hok] at hends
            cases hends with
            | finished h => exact ⟨groups, _, hgroups, rfl, h⟩
  · rintro ⟨groups, s', hgroups, hfresh, h⟩
    rw [(generate_of_directory_ok hgroups hfresh).1, h.forM_runGroup]

/-- **Arguments first, then the directory, then the first groups.**  If a template cannot be
rendered, the first one decides the error, nothing is asked for and nothing has happened.  Otherwise
the output directory is made afresh before anything is run; if that fails, nothing is run.  If it
does not, the groups are run in their order up to the first that cannot be run or does not end well,
which decides the error.  All is well if and only if the templates can be rendered, the directory is
made and all runs end well.  On a host, the runs begin with the directory made afresh. -/
theorem generate_runs_first_groups (target : Target) (g : Generator) {σ : Type}
    (answers : Responder σ) (s : σ) :
    let run := (ExceptT.run (target.generate g)).runWith answers s
    let asked := (ExceptT.run (target.generate g)).traceWith answers s
    let fresh := (ExceptT.run (freshDirectory target.out)).runWith answers s
    let preparing := (ExceptT.run (freshDirectory target.out)).traceWith answers s
    (¬ target.Valid →
      ∃ e, target.FirstInvalid e ∧ run = (.error (.template e), s) ∧ asked = []) ∧
    (target.Valid → ∃ groups, target.RendersAs groups ∧
      (∀ r ∈ preparing,
        r ∈ [.test target.out, .removeTree target.out, .makeDirectories target.out]) ∧
      (∀ e, fresh.1 = .error e →
        run = fresh ∧ asked = preparing ∧ ∃ cause, e = .directory target.out cause) ∧
      (fresh.1 = .ok () → ∃ tried, tried <+: groups ∧ asked = preparing ++ tried.map g.launching ∧
        g.Ends answers groups fresh.2 run.1 tried run.2)) ∧
    (run.1 = .ok () ↔ ∃ groups s', target.RendersAs groups ∧ fresh.1 = .ok () ∧
      g.Succeeds answers groups fresh.2 s') ∧
    (∀ (host : Host) (t u : FileTree), target.out.Descends →
      (ExceptT.run (freshDirectory target.out)).runWith host.responder t = (.ok (), u) →
        ∃ l, t.MadeAfresh host.here target.out l u) := by
  intro run asked fresh preparing
  refine ⟨fun hinvalid => ?_, fun hvalid => ?_, generate_eq_ok_iff, fun host t u hout hmade => ?_⟩
  · cases hgroups : target.renderedInvocations with
    | ok groups =>
        exact absurd (valid_iff.2 ⟨groups, renderedInvocations_eq_ok_iff.1 hgroups⟩) hinvalid
    | error e =>
        exact ⟨e, firstInvalid_of_renderedInvocations hgroups, generate_of_error hgroups ..⟩
  · obtain ⟨groups, hgroups⟩ := valid_iff.1 hvalid
    have hobeys := freshDirectory_obeys target.out
    refine ⟨groups, hgroups, hobeys.traceWith answers s, fun e he => ?_, fun hfresh => ?_⟩
    · obtain ⟨hrun, hasked⟩ := generate_of_directory_error hgroups he
      exact ⟨hrun, hasked, hobeys.resultWith answers s e he⟩
    · obtain ⟨hrun, hasked⟩ := generate_of_directory_ok hgroups hfresh
      obtain ⟨tried, htried, hends⟩ := g.forM_runGroup_ends groups answers fresh.2
      rw [← hrun] at hends
      exact ⟨tried, hends.isPrefix, hasked.trans (by rw [htried]), hends⟩
  · rw [Procedure.runWith_responder] at hmade
    exact madeAfresh_of_freshDirectory hout hmade

/-- A responder that does what it is asked to, and whose programs end with one code after
another. -/
def codes : Responder Nat
  | n, .test _ => (.ok true, n)
  | n, .unlink _ | n, .removeTree _ | n, .makeDirectories _ | n, .link _ _ | n, .write _ _ =>
    (.ok (), n)
  | n, .launch _ _ => (.ok ⟨.code n, []⟩, n + 1)
  | n, .canonicalize p => (.ok p, n)
  | n, .read _ | n, .list _ => (.ok [], n)
  | n, .expand _ => ([], n)

/-- Of two equal groups the first may end well and the second not; a third one is not run then.
With an argument that cannot be rendered, none of them is. -/
theorem generate_runs_first_groups_of_codes :
    let g : Generator := ⟨['p'], [.ofText ['i']], [.ofText ['f']]⟩
    let template := "{out}".toList
    let target (last : Text) : Target :=
      ⟨['t'], .ofText ['d'], [[template], [template], [last]], none⟩
    let run (last : Text) := (ExceptT.run ((target last).generate g)).runWith codes 0
    let asked (last : Text) := (ExceptT.run ((target last).generate g)).traceWith codes 0
    (¬ (target ['{']).Valid ∧
      ∃ e, (target ['{']).FirstInvalid e ∧ run ['{'] = (.error (.template e), 0) ∧
        asked ['{'] = []) ∧
    ((target ['x']).Valid ∧
      (∃ groups tried, (target ['x']).RendersAs groups ∧ tried <+: groups ∧
        g.Ends codes groups 0 (run ['x']).1 tried (run ['x']).2) ∧
      run ['x'] = (.error (.failed ['p'] (.code 1) []), 2) ∧
      asked ['x'] = [.test (.ofText ['d']), .removeTree (.ofText ['d']),
        .makeDirectories (.ofText ['d']), g.launching [['d']], g.launching [['d']]]) := by
  intro g template target run asked
  have hinvalid : ¬ (target ['{']).Valid := by
    intro h
    obtain ⟨groups, hgroups⟩ := valid_iff.1 h
    exact nomatch renderedInvocations_eq_ok_iff.2 hgroups
  have hvalid : (target ['x']).Valid :=
    valid_iff.2 ⟨[[['d']], [['d']], [['x']]], renderedInvocations_eq_ok_iff.1 (by rfl)⟩
  obtain ⟨groups, hgroups, -, -, hruns⟩ :=
    (generate_runs_first_groups (target ['x']) g codes 0).2.1 hvalid
  obtain ⟨tried, htried, -, hends⟩ := hruns rfl
  exact ⟨⟨hinvalid, (generate_runs_first_groups (target ['{']) g codes 0).1 hinvalid⟩, hvalid,
    ⟨groups, tried, hgroups, htried, hends⟩, rfl, rfl⟩

end Target

end DualModule

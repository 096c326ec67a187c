import DualModule.Proofs.RenamePass
/-!
# Conflicts

The pass fails with a conflict if a new name is taken or wanted twice.  The check finds conflicts
before anything is renamed, so that a conflict should leave the tree alone, and mostly it does.

**The exception.**  The check asks whether a new path leads to anything, and a rename is refused if
anything is in its place.  A link that leads nowhere is the difference: it passes the check, and the
rename that meets it ends the pass when the mappings before it have been carried out.  Any other
conflict is found in time (`conflict_changes_tree`, `tree_of_conflict`).
-/

namespace DualModule

open Attempt

/-- The failure is a conflict over a new name. -/
def PassError.IsConflict : PassError → Prop
  | .collision _ _ => True
  | .duplicateTarget _ _ _ => True
  | _ => False

variable {t u : FileTree} {host : Host} {r : Location} {root : Path} {rules : List RenameRule}

/-- A plan that passes the check, in which the first new place is free and a later one is taken by a
link. -/
structure RenamePlan.Stranded (host : Host) (t : FileTree) (plan : List Mapping) : Prop where
  accepted : RenamePlan.Accepted host t plan
  first_free : ∀ m ∈ plan.head?, t.get? m.new.location = none
  later_link : ∃ m ∈ plan.tail, ∃ target, t.get? m.new.location = some (.link target)

theorem RenamePlan.root_directory {m : Mapping}
    (hrules : ∀ rule ∈ rules, '/' ∉ rule.replacementSuffix)
    (hm : m ∈ RenamePlan.of (t.filesUnder r) rules) : t.get? r = some .directory := by
  obtain ⟨d, o, -, hbelow, -, -, -, content, executable, hfile⟩ :=
    RenamePlan.exists_name_of_mem hrules hm
  exact FileTree.directory_of_below hfile hbelow

/-- **A link in the way of a later mapping** ends the pass with a conflict, and the mappings before
it stay carried out. -/
theorem conflict_changes_tree (hrules : ∀ rule ∈ rules, '/' ∉ rule.replacementSuffix)
    (hroot : t.canonical host.here root = .ok r.path)
    (h : RenamePlan.Stranded host t (RenamePlan.of (t.filesUnder r) rules)) :
    ∃ e u, e.IsConflict ∧ (renameBelow root rules).outcome host t = (.error e, u) ∧ u ≠ t := by
  obtain ⟨m, hm, target, hlink⟩ := h.later_link
  have hready := h.accepted.ready hrules
  have hdir := RenamePlan.root_directory hrules (List.mem_of_mem_tail hm)
  obtain ⟨hnot, -⟩ | ⟨-, done, rest, u, hplan, hdone, hrest, hmoved, hrun⟩ :=
    renameBelow_outcome hrules hroot hdir
  · exact absurd h.accepted hnot
  · cases rest with
    | nil =>
        -- every place was free, that of the link too
        have hmdone : m ∈ done := by simpa [hplan] using List.mem_of_mem_tail hm
        rw [hdone m hmdone] at hlink
        cases hlink
    | cons taken rest =>
        cases done with
        | nil =>
            have hfirst := h.first_free taken (by simp [hplan])
            exact absurd hfirst (hrest taken rfl)
        | cons first done =>
            -- the first file is not under its old path any more
            refine ⟨.collision taken.old taken.new, u, trivial, hrun, ?_⟩
            rintro rfl
            obtain ⟨d, o, n, hrenames⟩ := hready.renames first (by simp [hplan])
            obtain ⟨content, executable, hfile⟩ := hrenames.file
            have hgone := hmoved.old first List.mem_cons_self
            rw [hrenames.old_location, hfile] at hgone
            cases hgone

/-- **Every other conflict** leaves the tree alone. -/
theorem tree_of_conflict (hhere : t.get? host.here = some .directory)
    (hrules : ∀ rule ∈ rules, '/' ∉ rule.replacementSuffix) {e : PassError}
    (he : e.IsConflict) (hrun : (renameBelow root rules).outcome host t = (.error e, u))
    (hne : u ≠ t) :
    ∃ r, t.canonical host.here root = .ok (Location.path r) ∧
      RenamePlan.Stranded host t (RenamePlan.of (t.filesUnder r) rules) := by
  by_cases hdir : ∃ r, t.canonical host.here root = .ok (Location.path r) ∧
      t.get? r = some .directory
  · obtain ⟨r, hroot, hr⟩ := hdir
    refine ⟨r, hroot, ?_⟩
    obtain ⟨-, e', hrun'⟩ | ⟨haccepted, done, rest, v, hplan, hdone, hrest, hmoved, hrun'⟩ :=
      renameBelow_outcome hrules hroot hr
    · rw [hrun] at hrun'
      exact absurd (Prod.mk.inj hrun').2 hne
    · rw [hrun] at hrun'
      obtain ⟨hresult, rfl⟩ := Prod.mk.inj hrun'
      cases rest with
      | nil => cases hresult
      | cons taken rest =>
          cases done with
          | nil => exact absurd hmoved.eq_of_nil hne
          | cons first done =>
              refine ⟨haccepted, ?_, taken, by simp [hplan], ?_⟩
              · simpa [hplan] using hdone first List.mem_cons_self
              · exact ((haccepted.ready hrules).vacant_or_link taken (by simp [hplan])).resolve_left
                  (hrest taken rfl)
  · obtain ⟨p, cause, hrun'⟩ := renameBelow_outcome_error rules hhere
      fun r hroot hr => hdir ⟨r, hroot, hr⟩
    rw [hrun] at hrun'
    cases (Prod.mk.inj hrun').1
    exact he.elim

/-- **Exactly when a conflict changes the tree**: the plan passes the check, the first mapping can be
carried out, and a link that leads nowhere is in the way of a later one. -/
theorem conflict_changes_tree_iff (hhere : t.get? host.here = some .directory)
    (hrules : ∀ rule ∈ rules, '/' ∉ rule.replacementSuffix) :
    (∃ e u, e.IsConflict ∧ (renameBelow root rules).outcome host t = (.error e, u) ∧ u ≠ t) ↔
      ∃ r, t.canonical host.here root = .ok (Location.path r) ∧
        RenamePlan.Stranded host t (RenamePlan.of (t.filesUnder r) rules) := by
  constructor
  · rintro ⟨e, u, he, hrun, hne⟩
    exact tree_of_conflict hhere hrules he hrun hne
  · rintro ⟨r, hroot, h⟩
    exact conflict_changes_tree hrules hroot h

/-- Two modules, the second of which has a link that leads nowhere at its new path. -/
def strandedTree : FileTree :=
  .ofEntries [("/t/a_pb.js", .file [0x61] false), ("/t/b_pb.js", .file [0x62] false),
    ("/t/b_pb.cjs", .link (.ofText "nowhere".toList))]

/-- The tree meets the condition. -/
theorem stranded_rename_changes_tree :
    (∀ rule ∈ RenameRule.dualModule, '/' ∉ rule.replacementSuffix) ∧
      strandedTree.get? Host.plain.here = some .directory ∧
      ∃ e u, e.IsConflict ∧
        (renameBelow (.ofText "/t".toList) RenameRule.dualModule).outcome .plain strandedTree =
          (.error e, u) ∧ u ≠ strandedTree := by
  refine ⟨by decide, by decide +kernel, ?_⟩
  refine (conflict_changes_tree_iff (by decide +kernel) (by decide)).2
    ⟨[⟨Utf8.encode "t".toList, by decide⟩], by decide +kernel, ⟨?_, ?_⟩, ?_, ?_⟩
  · decide +kernel
  · decide +kernel
  · decide +kernel
  · exact ⟨⟨.ofText "/t/b_pb.js".toList, .ofText "/t/b_pb.cjs".toList, .implementation⟩,
      by decide +kernel, .ofText "nowhere".toList, by decide +kernel⟩

/-- **A conflict that leaves a changed tree**: the first module has its new name when the pass
fails. -/
theorem conflict_after_rename :
    let root := Path.ofText "/t".toList
    let a := Path.ofText "/t/a_pb.js".toList
    let b := Path.ofText "/t/b_pb.js".toList
    let result := (renameBelow root RenameRule.dualModule).outcome .plain strandedTree
    (∀ rule ∈ RenameRule.dualModule, '/' ∉ rule.matchSuffix ∧ '/' ∉ rule.replacementSuffix) ∧
      result.1 = .error (.collision b (.ofText "/t/b_pb.cjs".toList)) ∧
      result.2.get? a.location = none ∧ result.2 ≠ strandedTree := by
  refine ⟨by decide, by decide +kernel, by decide +kernel, fun heq => ?_⟩
  have hfile : strandedTree.get? (Path.ofText "/t/a_pb.js".toList).location ≠ none := by
    decide +kernel
  rw [← heq] at hfile
  exact hfile (by decide +kernel)

end DualModule

import DualModule.Proofs.DualPlan
/-!
# When a rename pass succeeds, and what it leaves

A rename pass succeeds exactly if its root is a directory and its plan is *feasible*
(`RenamePlan.Feasible`): no path is wanted twice, and at every new path the system can be asked for
an entry and has none.  Nothing about the order in which the pass checks and renames is left in that
condition.

**Looking without following.**  A new path is vacant if nothing is found there even when a link at
its end is not followed.  That is more than the pass tests before it begins, and it is what makes
every rename go through: a link that leads nowhere passes the test, and the rename that meets it
ends the pass.

**Names that the system does not take.**  A new path with a NUL in it, or one that is too long, has
no entry and cannot get one either.  A feasible plan has no such path (`Path.Acceptable`), and a
pass that plans one fails (`rename_to_nul_refused`).

**What is left** after a pass by the dual-module rules are files to which no rule applies
(`FileTree.Renamed.ofFile?_eq_none`).

## Main Definitions

* `Path.Acceptable`
* `RenamePlan.Feasible`
-/

namespace DualModule

open Attempt

variable {t u : FileTree} {host : Host} {n o : FileName} {d k l r : Location} {plan : List Mapping}

/-- The system can be asked about this path: it has no NUL, and neither it nor its last name is too
long. -/
structure Path.Acceptable (p : Path) : Prop where
  nulFree : 0 ∉ p.bytes
  length_le : p.bytes.length ≤ maxPathLength
  nameLength_le : ∀ n, p.fileName? = some n → n.bytes.length ≤ maxNameLength

/-- A plan that can be carried out. -/
structure RenamePlan.Feasible (host : Host) (t : FileTree) (plan : List Mapping) : Prop where
  /-- no path is wanted twice -/
  distinct : plan.Pairwise fun a b => ¬ a.new.Same b.new
  /-- no entry of any kind is at a new path, not even a link that leads nowhere -/
  vacant : ∀ m ∈ plan, ∀ l, t.locate host.here m.new false ≠ .ok l
  /-- an entry can be made at every new path -/
  acceptable : ∀ m ∈ plan, m.new.Acceptable

/-! ### Looking without following -/

namespace FileTree

/-- At a name that the system takes, nothing is found exactly if nothing is there. -/
theorem locate_eq_noEntry (hd : t.get? d = some .directory) (ha : Location.Addressable (n :: d))
    (hfree : t.get? (n :: d) = none) (here : Location) (follow : Bool) :
    t.locate here (Location.path (n :: d)) follow = .error .noEntry := by
  have hspot : t.spot here (Location.path (n :: d)) follow = .ok (.vacant d n) := by
    rw [spot_path_cons hd ha.length_name, hfree]
  rw [locate, Location.check_path ha, hspot]
  rfl

/-- **What is vacant and acceptable is the place of a name** in the directory, and free. -/
theorem free_of_vacant {bytes : Bytes} {here : Location} (hd : t.get? d = some .directory)
    (hb : slash ∉ bytes) (hvacant : ∀ l, t.locate here (d.path.push bytes) false ≠ .ok l)
    (hacceptable : (d.path.push bytes).Acceptable) :
    ∃ n : FileName, n.bytes = bytes ∧ Location.Addressable (n :: d) ∧ t.get? (n :: d) = none := by
  have hne : (d.path.push bytes).bytes ≠ [] := by
    intro hnil
    have hfront := Path.prefix_bytes_push d.path hb
    rw [hnil, List.prefix_nil] at hfront
    exact Location.path_bytes_ne_nil d hfront
  have hcheck : (d.path.push bytes).check = .ok () := by
    rw [Path.check, if_neg hacceptable.nulFree, if_neg hne,
      if_neg (Nat.not_lt.2 hacceptable.length_le)]
  have hspot : ∀ l, t.spot here (d.path.push bytes) false ≠ .ok (.taken l) := by
    intro l hl
    refine hvacant l ?_
    rw [locate, hcheck, hl]
    rfl
  by_cases hproper : FileName.Proper bytes
  · refine ⟨⟨bytes, hproper⟩, rfl, ?_⟩
    generalize hn : (⟨bytes, hproper⟩ : FileName) = n
    have hpath : d.path.push bytes = Location.path (n :: d) := by
      rw [← hn]
      rfl
    rw [hpath] at hcheck hspot hacceptable
    have hlength : ¬ maxNameLength < n.bytes.length :=
      Nat.not_lt.2 (hacceptable.nameLength_le n (Location.fileName?_path n d))
    refine ⟨Location.addressable_of_check (addressable_of_eq_some hd) hcheck hlength, ?_⟩
    -- without following links, whatever is there is found
    cases hnode : t.get? (n :: d) with
    | none => rfl
    | some node =>
        refine absurd ?_ (hspot (n :: d))
        rw [spot_path_cons hd hlength, hnode]
        cases node <;> rfl
  · obtain ⟨l, hl⟩ : ∃ l, t.spot here (d.path.push bytes) false = .ok (.taken l) :=
      spot_push_of_not_proper hd hb hproper
    exact absurd hl (hspot l)

end FileTree

theorem Location.Addressable.acceptable (h : Location.Addressable (n :: d)) :
    (Location.path (n :: d)).Acceptable := by
  refine ⟨Location.notMem_path h.1, h.2, ?_⟩
  intro m hm
  obtain rfl := Option.some.inj ((Location.fileName?_path n d).symm.trans hm)
  exact (h.1 n List.mem_cons_self).1

/-! ### Feasible plans -/

namespace RenamePlan

variable {rules : List RenameRule}

/-- A feasible plan for the files of a directory passes the check, and all new places are free. -/
theorem Feasible.accepted (hrules : ∀ rule ∈ rules, '/' ∉ rule.replacementSuffix)
    (h : Feasible host t (RenamePlan.of (t.filesUnder r) rules)) :
    Accepted host t (RenamePlan.of (t.filesUnder r) rules) ∧
      ∀ m ∈ RenamePlan.of (t.filesUnder r) rules, t.get? m.new.location = none := by
  have hplace : ∀ m ∈ RenamePlan.of (t.filesUnder r) rules, ∃ n d,
      m.new = Location.path (n :: d) ∧ t.get? d = some .directory ∧
        Location.Addressable (n :: d) ∧ t.get? (n :: d) = none := by
    intro m hm
    obtain ⟨d, o, bytes, -, -, hnew, hbytes, content, executable, hfile⟩ :=
      exists_name_of_mem hrules hm
    have hd := FileTree.parent_of_eq_some hfile
    have hvacant := h.vacant m hm
    have hacceptable := h.acceptable m hm
    rw [hnew] at hvacant hacceptable
    obtain ⟨n, rfl, haddr, hfree⟩ := FileTree.free_of_vacant hd hbytes hvacant hacceptable
    exact ⟨n, d, hnew, hd, haddr, hfree⟩
  refine ⟨⟨h.distinct, ?_⟩, ?_⟩
  · intro m hm
    obtain ⟨n, d, hnew, hd, haddr, hfree⟩ := hplace m hm
    rw [FileTree.exists?_eq_false_iff, hnew]
    exact FileTree.locate_eq_noEntry hd haddr hfree host.here true
  · intro m hm
    obtain ⟨n, d, hnew, -, -, hfree⟩ := hplace m hm
    rw [hnew, Location.location_path]
    exact hfree

/-- A plan that passes the check and has all new places free is feasible. -/
theorem Accepted.feasible (hrules : ∀ rule ∈ rules, '/' ∉ rule.replacementSuffix)
    (h : Accepted host t (RenamePlan.of (t.filesUnder r) rules))
    (hfree : ∀ m ∈ RenamePlan.of (t.filesUnder r) rules, t.get? m.new.location = none) :
    Feasible host t (RenamePlan.of (t.filesUnder r) rules) := by
  refine ⟨h.distinct, ?_, ?_⟩
  · intro m hm l hl
    obtain ⟨d, o, n, hrenames, -⟩ := h.renames hrules hm
    obtain ⟨content, executable, hfile⟩ := hrenames.file
    have hplace := hfree m hm
    rw [hrenames.new_location] at hplace
    rw [hrenames.new, FileTree.locate_eq_noEntry (FileTree.parent_of_eq_some hfile)
      hrenames.addressable hplace] at hl
    cases hl
  · intro m hm
    obtain ⟨d, o, n, hrenames, -⟩ := h.renames hrules hm
    rw [hrenames.new]
    exact hrenames.addressable.acceptable

end RenamePlan

/-! ### What is left to rename -/

/-- **After a pass by the dual-module rules** no rule applies to any file below the root. -/
theorem FileTree.Renamed.ofFile?_eq_none
    (h : t.Renamed r (RenamePlan.of (t.filesUnder r) RenameRule.dualModule) u)
    (hk : k.path ∈ u.filesUnder r) : Mapping.ofFile? RenameRule.dualModule k.path = none := by
  obtain ⟨hbelow, content, executable, hfile⟩ := file_of_path_mem hk
  obtain ⟨m, hm, rfl, -⟩ | ⟨m, hm, rfl, hu⟩ | ⟨hne, hu⟩ := h.moved.get?_cases k
  · obtain ⟨d, o, n, hrenames, -⟩ := h.renames m hm
    obtain ⟨d', base, hdual⟩ := Mapping.exists_dual_of_mem hm
    rw [hrenames.new_location, ← hrenames.new]
    exact hdual.ofFile?_new
  · rw [hu] at hfile
    cases hfile
  · -- a file that stayed is not in the plan
    rw [Option.eq_none_iff_forall_ne_some]
    intro m hm
    have hmem : m ∈ RenamePlan.of (t.filesUnder r) RenameRule.dualModule :=
      RenamePlan.mem_of_iff.2 ⟨k.path, path_mem_filesUnder hbelow (hu ▸ hfile), hm⟩
    exact (hne m hmem).1 (by rw [Mapping.old_of_ofFile? hm, Location.location_path])

/-! ### The pass -/

section Pass

variable {root : Path} {rules : List RenameRule}

/-- **What can be walked** is a directory. -/
theorem walk_ok_iff (hhere : t.get? host.here = some .directory) :
    (∃ found, (walk root).outcome host t = (.ok found, t)) ↔
      ∃ r, t.canonical host.here root = .ok (Location.path r) ∧ t.get? r = some .directory := by
  constructor
  · rintro ⟨found, hwalk⟩
    by_contra hdir
    obtain ⟨p, cause, herror⟩ := filesBelow_outcome_error hhere
      fun r hroot hr => hdir ⟨r, hroot, hr⟩
    rw [filesBelow, outcome_bind_ok hwalk] at herror
    cases herror
  · rintro ⟨r, hroot, hr⟩
    obtain ⟨files, hok, -⟩ := filesBelow_outcome hroot hr
    rw [filesBelow] at hok
    rcases hwalk : (walk root).outcome host t with ⟨result, u⟩
    cases result with
    | error e =>
        rw [outcome_bind_error hwalk] at hok
        cases hok
    | ok found =>
        rw [outcome_bind_ok hwalk] at hok
        obtain rfl : u = t := (Prod.mk.inj hok).2
        exact ⟨found, rfl⟩

/-- A feasible plan is carried out. -/
theorem renameBelow_outcome_of_feasible (hrules : ∀ rule ∈ rules, '/' ∉ rule.replacementSuffix)
    (hroot : t.canonical host.here root = .ok r.path) (hr : t.get? r = some .directory)
    (h : RenamePlan.Feasible host t (RenamePlan.of (t.filesUnder r) rules)) :
    ∃ u, (renameBelow root rules).outcome host t =
        (.ok (RenamePlan.of (t.filesUnder r) rules), u) := by
  obtain ⟨haccepted, hfree⟩ := h.accepted hrules
  obtain ⟨hnot, -⟩ | ⟨-, done, rest, u, hplan, -, hrest, -, hrun⟩ :=
    renameBelow_outcome hrules hroot hr
  · exact absurd haccepted hnot
  · cases rest with
    | nil => exact ⟨u, hrun⟩
    | cons m rest => exact absurd (hfree m (by simp [hplan])) (hrest m rfl)

/-- **When the pass succeeds, and what it leaves then.**  It succeeds exactly if the root can be
walked and the plan for the files below it is feasible.  The result is that plan, every planned file
has been moved within its directory, and all else is as it was; by the dual-module rules no file is
left to rename. -/
theorem renameBelow_complete (hhere : t.get? host.here = some .directory)
    (hrules : ∀ rule ∈ rules, '/' ∉ rule.replacementSuffix) :
    ((∃ plan u, (renameBelow root rules).outcome host t = (.ok plan, u)) ↔
      (∃ found, (walk root).outcome host t = (.ok found, t)) ∧
        ∃ r, t.canonical host.here root = .ok (Location.path r) ∧
          RenamePlan.Feasible host t (RenamePlan.of (t.filesUnder r) rules)) ∧
    ∀ plan u, (renameBelow root rules).outcome host t = (.ok plan, u) →
      ∃ r, t.canonical host.here root = .ok (Location.path r) ∧
        plan = RenamePlan.of (t.filesUnder r) rules ∧ t.Renamed r plan u ∧
        (rules = RenameRule.dualModule → ∀ n d, Location.path (n :: d) ∈ u.filesUnder r →
          ∀ text, n.text? = some text →
            ¬ "_pb.js".toList <:+ text ∧ ¬ "_pb.d.ts".toList <:+ text) := by
  refine ⟨⟨?_, ?_⟩, ?_⟩
  · rintro ⟨plan, u, hrun⟩
    obtain ⟨r, hroot, hr, rfl, hrenamed⟩ := renamed_of_renameBelow hhere hrules hrun
    refine ⟨(walk_ok_iff hhere).2 ⟨r, hroot, hr⟩, r, hroot, ?_⟩
    obtain ⟨-, e, hrun'⟩ | ⟨haccepted, -⟩ := renameBelow_outcome hrules hroot hr
    · cases hrun.symm.trans hrun'
    · exact haccepted.feasible hrules hrenamed.free
  · rintro ⟨hwalk, r, hroot, hfeasible⟩
    obtain ⟨r', hroot', hr⟩ := (walk_ok_iff hhere).1 hwalk
    obtain rfl := Location.path_injective (Except.ok.inj (hroot.symm.trans hroot'))
    obtain ⟨u, hrun⟩ := renameBelow_outcome_of_feasible hrules hroot hr hfeasible
    exact ⟨_, u, hrun⟩
  · intro plan u hrun
    obtain ⟨r, hroot, -, rfl, hrenamed⟩ := renamed_of_renameBelow hhere hrules hrun
    refine ⟨r, hroot, rfl, hrenamed, ?_⟩
    rintro rfl n d hfile text htext
    have hends := Path.endsIn_of_fileName? (Location.fileName?_path n d) htext
    have hnone : ∀ rule ∈ RenameRule.dualModule, ¬ rule.matchSuffix <:+ text := by
      rintro rule hrule ⟨base, rfl⟩
      exact Mapping.ofFile?_eq_none_iff.1 (hrenamed.ofFile?_eq_none hfile) rule hrule
        ⟨_, base, hends⟩
    exact ⟨hnone .implementation (by decide), hnone .declaration (by decide)⟩

end Pass

/-- A module and its declarations, both to be renamed, and a link to the module. -/
def modulePairTree : FileTree :=
  .ofEntries [("/t/a_pb.js", .file [0x61] false), ("/t/a_pb.d.ts", .file [0x62] true),
    ("/t/link_pb.js", .link (.ofText "a_pb.js".toList))]

theorem modulePair_renamed :
    let root := Path.ofText "/t".toList
    let t := modulePairTree
    let plan : List Mapping :=
      [⟨.ofText "/t/a_pb.d.ts".toList, .ofText "/t/a_pb.d.cts".toList, .declaration⟩,
        ⟨.ofText "/t/a_pb.js".toList, .ofText "/t/a_pb.cjs".toList, .implementation⟩]
    let result := (renameBelow root RenameRule.dualModule).outcome .plain t
    t.get? Host.plain.here = some .directory ∧
      (∀ rule ∈ RenameRule.dualModule, '/' ∉ rule.replacementSuffix) ∧ result.1 = .ok plan ∧
      (∃ r, t.canonical Host.plain.here root = .ok (Location.path r) ∧
        RenamePlan.Feasible .plain t (RenamePlan.of (t.filesUnder r) RenameRule.dualModule)) ∧
      ∃ r, t.canonical Host.plain.here root = .ok (Location.path r) ∧
        t.Renamed r plan result.2 := by
  intro root t plan result
  have hhere : t.get? Host.plain.here = some .directory := by decide +kernel
  have hrules : ∀ rule ∈ RenameRule.dualModule, '/' ∉ rule.replacementSuffix := by decide
  have hresult : result.1 = .ok plan := by decide +kernel
  have hrun : (renameBelow root RenameRule.dualModule).outcome .plain t = (.ok plan, result.2) :=
    Prod.ext hresult rfl
  obtain ⟨-, hfeasible⟩ := (renameBelow_complete hhere hrules).1.1 ⟨plan, result.2, hrun⟩
  obtain ⟨r, hroot, -, hrenamed, -⟩ := (renameBelow_complete hhere hrules).2 plan result.2 hrun
  exact ⟨hhere, hrules, hresult, hfeasible, r, hroot, hrenamed⟩

/-- A file whose name ends in `a`. -/
def loneTree : FileTree := .ofEntries [("/t/xa", .file [0x31] false)]

/-- **A new name with a NUL in it**: nothing is there and nobody else wants it, and yet the pass
fails. -/
theorem rename_to_nul_refused :
    let rule : RenameRule := ⟨"a".toList, "\x00".toList, [], [], [], []⟩
    let root := Path.ofText "/t".toList
    let r : Location := [⟨Utf8.encode "t".toList, by decide⟩]
    let old := Path.ofText "/t/xa".toList
    let new := Path.ofText "/t/x\x00".toList
    '/' ∉ rule.matchSuffix ∧ '/' ∉ rule.replacementSuffix ∧
      loneTree.canonical Host.plain.here root = .ok r.path ∧
      loneTree.get? r = some .directory ∧
      RenamePlan.of (loneTree.filesUnder r) [rule] = [⟨old, new, rule⟩] ∧
      loneTree.get? new.location = none ∧
      (∀ l, loneTree.locate Host.plain.here new false ≠ .ok l) ∧
      ¬ ∃ plan u, (renameBelow root [rule]).outcome .plain loneTree = (.ok plan, u) := by
  refine ⟨by decide, by decide, by decide +kernel, by decide +kernel, by decide +kernel,
    by decide +kernel, ?_, ?_⟩
  · intro l hl
    have hnul : loneTree.locate Host.plain.here (Path.ofText "/t/x\x00".toList) false =
        .error .nulInPath := by decide +kernel
    cases hnul.symm.trans hl
  · rintro ⟨plan, u, hok⟩
    have hrefused : ((renameBelow (.ofText "/t".toList)
        [⟨"a".toList, "\x00".toList, [], [], [], []⟩]).outcome .plain loneTree).1 =
          .error (.rename (.ofText "/t/xa".toList) (.ofText "/t/x\x00".toList) .nulInPath) := by
      decide +kernel
    cases (congrArg Prod.fst hok).symm.trans hrefused

end DualModule

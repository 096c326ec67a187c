import DualModule.Proofs.Operations
import DualModule.Proofs.PlanCheck
import DualModule.Proofs.PlanOrder
import DualModule.Proofs.Walk
/-!
# Runs of the rename pass

The pass walks, checks the whole plan, and then renames one file after the other.  The check and
the walk leave the tree alone.  What the renames do is said for all of them at once:
`FileTree.Moved` describes a tree in which some mappings have been carried out.

**What a passed check is worth** (`RenamePlan.Ready`).  Every mapping is between two names of one
directory, nothing but a link is at a new path, and no path is wanted twice.  A rename keeps this
for the mappings that follow, which is the invariant of the run.

**How a run ends** (`forM_perform_outcome`).  Renames go on up to the first mapping whose new path
is taken.  Since the check follows links and linking does not, a link that leads nowhere passes the
check and ends the run.

## Main Definitions

* `FileTree.Moved`
* `RenamePlan.Ready`
-/

namespace DualModule

open Attempt

variable {t u v : FileTree} {host : Host} {n o : FileName} {d l r : Location}

/-! ### Trees in which mappings have been carried out -/

/-- The second tree is the first one with every mapping carried out: what was at the old path is at
the new one, nothing is at the old path, and all else is as it was. -/
structure FileTree.Moved (t : FileTree) (ms : List Mapping) (u : FileTree) : Prop where
  new : ∀ m ∈ ms, u.get? m.new.location = t.get? m.old.location
  old : ∀ m ∈ ms, u.get? m.old.location = none
  other : ∀ l, (∀ m ∈ ms, l ≠ m.old.location ∧ l ≠ m.new.location) → u.get? l = t.get? l
  /-- files with one name have one name afterwards -/
  names : (∀ m ∈ ms, t.Alone m.old.location) → t.SameNames u

theorem FileTree.Moved.nil (t : FileTree) : t.Moved [] t :=
  ⟨by simp, by simp, fun _ _ => rfl, fun _ => .refl t⟩

theorem FileTree.Moved.eq_of_nil (h : t.Moved [] u) : u = t := by
  apply FileTree.ext
  · intro l
    exact h.other l (by simp)
  · exact h.names (by simp)

/-- No mapping of a plan takes what another one needs. -/
structure Mapping.Apart (m m' : Mapping) : Prop where
  old_ne_old : m.old.location ≠ m'.old.location
  old_ne_new : m.old.location ≠ m'.new.location
  new_ne_old : m.new.location ≠ m'.old.location
  new_ne_new : m.new.location ≠ m'.new.location

instance : Std.Symm Mapping.Apart :=
  ⟨fun _ _ h =>
    ⟨h.old_ne_old.symm, h.new_ne_old.symm, h.old_ne_new.symm, h.new_ne_new.symm⟩⟩

/-- What is at a location afterwards. -/
theorem FileTree.Moved.get?_cases {ms : List Mapping} (h : t.Moved ms u) (l : Location) :
    (∃ m ∈ ms, l = m.new.location ∧ u.get? l = t.get? m.old.location) ∨
      (∃ m ∈ ms, l = m.old.location ∧ u.get? l = none) ∨
      (∀ m ∈ ms, l ≠ m.old.location ∧ l ≠ m.new.location) ∧ u.get? l = t.get? l := by
  by_cases hnew : ∃ m ∈ ms, l = m.new.location
  · obtain ⟨m, hm, rfl⟩ := hnew
    exact Or.inl ⟨m, hm, rfl, h.new m hm⟩
  · by_cases hold : ∃ m ∈ ms, l = m.old.location
    · obtain ⟨m, hm, rfl⟩ := hold
      exact Or.inr (Or.inl ⟨m, hm, rfl, h.old m hm⟩)
    · have hl : ∀ m ∈ ms, l ≠ m.old.location ∧ l ≠ m.new.location := by
        intro m hm
        constructor
        · intro heq
          exact hold ⟨m, hm, heq⟩
        · intro heq
          exact hnew ⟨m, hm, heq⟩
      exact Or.inr (Or.inr ⟨hl, h.other l hl⟩)

/-- **One mapping and then others.** -/
theorem FileTree.Moved.cons {m : Mapping} {ms : List Mapping} (h : t.Moved [m] u)
    (h' : u.Moved ms v) (hapart : ∀ m' ∈ ms, m.Apart m') : t.Moved (m :: ms) v := by
  -- the first mapping and the others leave each other's places alone
  have hfirst : ∀ l, l ≠ m.old.location → l ≠ m.new.location → u.get? l = t.get? l := by
    intro l hold hnew
    exact h.other l (by simp [hold, hnew])
  have hnewKept : v.get? m.new.location = u.get? m.new.location := by
    refine h'.other _ fun m' hm' => ?_
    exact ⟨(hapart m' hm').new_ne_old, (hapart m' hm').new_ne_new⟩
  have holdKept : v.get? m.old.location = u.get? m.old.location := by
    refine h'.other _ fun m' hm' => ?_
    exact ⟨(hapart m' hm').old_ne_old, (hapart m' hm').old_ne_new⟩
  constructor
  · intro m' hm'
    rcases List.mem_cons.1 hm' with rfl | hm'
    · rw [hnewKept]
      exact h.new m' List.mem_cons_self
    · rw [h'.new m' hm']
      exact hfirst _ (hapart m' hm').old_ne_old.symm (hapart m' hm').new_ne_old.symm
  · intro m' hm'
    rcases List.mem_cons.1 hm' with rfl | hm'
    · rw [holdKept]
      exact h.old m' List.mem_cons_self
    · exact h'.old m' hm'
  · intro l hl
    obtain ⟨⟨hold, hnew⟩, hrest⟩ := List.forall_mem_cons.1 hl
    rw [h'.other l hrest, hfirst l hold hnew]
  · intro halone
    obtain ⟨hm, hms⟩ := List.forall_mem_cons.1 halone
    have hnames := h.names (by simpa using hm)
    exact hnames.trans (h'.names fun m' hm' => hnames.alone_iff.2 (hms m' hm'))

/-! ### One rename -/

/-- The mapping is between two names of one directory, the old one of which is a file's. -/
structure Mapping.Renames (m : Mapping) (t : FileTree) (d : Location) (o n : FileName) : Prop where
  old : m.old = Location.path (o :: d)
  new : m.new = Location.path (n :: d)
  addressable : Location.Addressable (n :: d)
  file : ∃ content executable, t.get? (o :: d) = some (.file content executable)

namespace Mapping.Renames

variable {m m' : Mapping} {o' n' : FileName} {d' : Location}

theorem old_location (h : m.Renames t d o n) : m.old.location = o :: d := by
  rw [h.old, Location.location_path]

theorem new_location (h : m.Renames t d o n) : m.new.location = n :: d := by
  rw [h.new, Location.location_path]

/-- As long as the file is there, it can be renamed. -/
theorem keep (h : m.Renames t d o n)
    (hkeep : ∀ node, t.get? (o :: d) = some node → u.get? (o :: d) = some node) :
    m.Renames u d o n := by
  obtain ⟨content, executable, hfile⟩ := h.file
  exact ⟨h.old, h.new, h.addressable, content, executable, hkeep _ hfile⟩

/-- Renames of different files to different names, with no name both old and new. -/
theorem apart (h : m.Renames t d o n) (h' : m'.Renames u d' o' n') (hold : m.old ≠ m'.old)
    (hnew : ¬ m.new.Same m'.new) (hne : m.old.location ≠ m'.new.location)
    (hne' : m'.old.location ≠ m.new.location) : m.Apart m' := by
  refine ⟨?_, hne, hne'.symm, ?_⟩
  · intro heq
    rw [h.old_location, h'.old_location] at heq
    exact hold (by rw [h.old, h'.old, heq])
  · intro heq
    rw [h.new_location, h'.new_location] at heq
    exact hnew (by rw [Path.Same, h.new, h'.new, heq])

/-- **The two steps of a rename** to a free place: the file gets its new name, and then it loses the
old one. -/
theorem link_then_unlink (host : Host) (h : m.Renames t d o n) (hfree : t.get? (n :: d) = none) :
    ∃ v u content executable,
      (Procedure.request (.link m.old m.new)).run host t = (.ok (), v) ∧
      v.get? (o :: d) = some (.file content executable) ∧ t.Linked (o :: d) (n :: d) v ∧
      (Procedure.request (.unlink m.old)).run host v = (.ok (), u) ∧ t.Moved [m] u := by
  obtain ⟨content, executable, hfile⟩ := h.file
  have hne : o :: d ≠ n :: d := by
    intro heq
    rw [heq, hfree] at hfile
    cases hfile
  obtain ⟨v, hv, hlinked⟩ := FileTree.link_path host.here hfile h.addressable hfree
    (FileTree.parent_of_eq_some hfile)
  have hvfile : v.get? (o :: d) = some (.file content executable) := by
    rw [hlinked.updated.get?_of_ne hne, hfile]
  obtain ⟨u, hu, hunlinked⟩ := FileTree.unlink_path host.here hvfile (by simp)
  refine ⟨v, u, content, executable, ?_, hvfile, hlinked, ?_, ?_, ?_, ?_, ?_⟩
  · rw [run_request, Request.answer, h.old, h.new, hv]
    rfl
  · rw [run_request, Request.answer, h.old, hu]
    rfl
  · simp only [List.mem_singleton, forall_eq, h.old_location, h.new_location]
    rw [hunlinked.updated.get?_of_ne hne.symm, hlinked.updated.get?_self]
  · simp only [List.mem_singleton, forall_eq, h.old_location]
    exact hunlinked.updated.get?_self
  · simp only [List.mem_singleton, forall_eq, h.old_location, h.new_location]
    rintro l ⟨hold, hnew⟩
    rw [hunlinked.updated.get?_of_ne hold, hlinked.updated.get?_of_ne hnew]
  · simp only [List.mem_singleton, forall_eq, h.old_location]
    exact hlinked.sameNames hunlinked

/-- **A rename to a free place** carries the mapping out. -/
theorem perform_outcome (host : Host) (h : m.Renames t d o n) (hfree : t.get? (n :: d) = none) :
    ∃ u, m.perform.outcome host t = (.ok (), u) ∧ t.Moved [m] u := by
  obtain ⟨v, u, -, -, hlink, -, -, hunlink, hmoved⟩ := h.link_then_unlink host hfree
  refine ⟨u, ?_, hmoved⟩
  rw [perform, outcome_bind_ok (outcome_explained hlink _), outcome_bind_ok (outcome_lift hunlink)]
  rfl

/-- **A rename to a place that is taken** is refused and changes nothing. -/
theorem perform_outcome_taken (h : m.Renames t d o n) (htaken : t.get? (n :: d) ≠ none) :
    m.perform.outcome host t = (.error (.collision m.old m.new), t) := by
  obtain ⟨content, executable, hfile⟩ := h.file
  have hlink : (Procedure.request (.link m.old m.new)).run host t = (.error .alreadyExists, t) := by
    rw [run_request, Request.answer, h.old, h.new, FileTree.link_path_eq_error hfile
      h.addressable htaken (FileTree.parent_of_eq_some hfile)]
    rfl
  rw [perform, outcome_bind_error (outcome_explained hlink _)]
  rfl

end Mapping.Renames

/-- Where a test finds nothing, the file can be renamed to: nothing but a link is there. -/
theorem Mapping.renames_of_exists? {m : Mapping} {bytes : Bytes} (hold : m.old = Location.path (o :: d))
    (hnew : m.new = (Location.path d).push bytes) (hbytes : slash ∉ bytes)
    (hfile : ∃ content executable, t.get? (o :: d) = some (.file content executable))
    (hfree : t.exists? host.here m.new = .ok false) :
    ∃ n, m.Renames t d o n ∧
      (t.get? m.new.location = none ∨ ∃ target, t.get? m.new.location = some (.link target)) := by
  obtain ⟨content, executable, hnode⟩ := hfile
  rw [hnew] at hfree
  obtain ⟨n, rfl, haddr, hplace⟩ :=
    FileTree.vacant_or_link_of_exists? (FileTree.parent_of_eq_some hnode) hbytes hfree
  have hrenames : m.Renames t d o n := ⟨hold, hnew, haddr, content, executable, hnode⟩
  exact ⟨n, hrenames, hrenames.new_location ▸ hplace⟩

/-! ### A run of renames -/

namespace RenamePlan

/-- **What a passed check is worth**: every mapping renames a file, nothing but a link is at a new
path, and no path occurs twice. -/
structure Ready (t : FileTree) (ms : List Mapping) : Prop where
  renames : ∀ m ∈ ms, ∃ d o n, m.Renames t d o n
  vacant_or_link : ∀ m ∈ ms, t.get? m.new.location = none ∨
    ∃ target, t.get? m.new.location = some (.link target)
  apart : ms.Pairwise Mapping.Apart

/-- Carrying a mapping out keeps the others ready. -/
theorem Ready.of_moved {m : Mapping} {ms : List Mapping} (h : Ready t (m :: ms))
    (hmoved : t.Moved [m] u) :
    Ready u ms ∧ ∀ m' ∈ ms, u.get? m'.new.location = t.get? m'.new.location := by
  obtain ⟨hapart, hrest⟩ := List.pairwise_cons.1 h.apart
  have hold : ∀ m' ∈ ms, u.get? m'.old.location = t.get? m'.old.location := by
    intro m' hm'
    refine hmoved.other _ ?_
    simp [(hapart m' hm').old_ne_old.symm, (hapart m' hm').new_ne_old.symm]
  have hnew : ∀ m' ∈ ms, u.get? m'.new.location = t.get? m'.new.location := by
    intro m' hm'
    refine hmoved.other _ ?_
    simp [(hapart m' hm').old_ne_new.symm, (hapart m' hm').new_ne_new.symm]
  refine ⟨⟨?_, ?_, hrest⟩, hnew⟩
  · intro m' hm'
    obtain ⟨d, o, n, hrenames⟩ := h.renames m' (List.mem_cons_of_mem _ hm')
    refine ⟨d, o, n, hrenames.keep fun node hnode => ?_⟩
    rw [← hrenames.old_location, hold m' hm', hrenames.old_location, hnode]
  · intro m' hm'
    rw [hnew m' hm']
    exact h.vacant_or_link m' (List.mem_cons_of_mem _ hm')

/-- **How a run of renames ends**: mappings are carried out up to the first whose place is taken. -/
theorem forM_perform_outcome (host : Host) {ms : List Mapping} (h : Ready t ms) :
    ∃ done rest u, ms = done ++ rest ∧ (∀ m ∈ done, t.get? m.new.location = none) ∧
      (∀ m ∈ rest.head?, t.get? m.new.location ≠ none) ∧ t.Moved done u ∧
      (ms.forM Mapping.perform).outcome host t =
        (match rest with
          | [] => .ok ()
          | m :: _ => .error (.collision m.old m.new), u) := by
  induction ms generalizing t with
  | nil => exact ⟨[], [], t, rfl, by simp, by simp, .nil t, rfl⟩
  | cons m ms ih =>
      obtain ⟨d, o, n, hm⟩ := h.renames m List.mem_cons_self
      by_cases hfree : t.get? (n :: d) = none
      · obtain ⟨v, hperform, hmoved⟩ := hm.perform_outcome host hfree
        obtain ⟨hready, hnew⟩ := h.of_moved hmoved
        obtain ⟨done, rest, u, rfl, hdone, hrest, hmoved', hrun⟩ := ih hready
        -- the rename has not touched the other new paths: they are as taken as they were before
        have hapart : ∀ m' ∈ done, m.Apart m' := by
          intro m' hm'
          exact (List.pairwise_cons.1 h.apart).1 m' (List.mem_append_left _ hm')
        refine ⟨m :: done, rest, u, rfl, List.forall_mem_cons.2 ⟨?_, ?_⟩, ?_,
          hmoved.cons hmoved' hapart, ?_⟩
        · rw [hm.new_location]
          exact hfree
        · intro m' hm'
          rw [← hnew m' (List.mem_append_left _ hm')]
          exact hdone m' hm'
        · intro m' hm'
          rw [← hnew m' (List.mem_append_right _ (List.mem_of_mem_head? hm'))]
          exact hrest m' hm'
        · exact (outcome_bind_ok hperform _).trans hrun
      · -- the pass ends with this mapping
        refine ⟨[], m :: ms, t, rfl, by simp, ?_, .nil t, ?_⟩
        · simpa [hm.new_location] using hfree
        · exact outcome_bind_error (hm.perform_outcome_taken hfree) _

/-! ### Plans for the files of a directory -/

section Plan

variable {rules : List RenameRule} {m : Mapping}

/-- A mapping for a file exchanges the name of the file for some text. -/
theorem exists_name_of_ofFile? (hrules : ∀ rule ∈ rules, '/' ∉ rule.replacementSuffix)
    {content : Bytes} {executable : Bool} (hfile : t.get? l = some (.file content executable))
    (hm : Mapping.ofFile? rules l.path = some m) :
    ∃ d o bytes, l = o :: d ∧ m.old = Location.path (o :: d) ∧
      m.new = (Location.path d).push bytes ∧ slash ∉ bytes := by
  obtain ⟨rule, hrule, n, base, hname, htext, rfl⟩ := Mapping.exists_rule_of_ofFile? hm
  cases l with
  | nil =>
      rw [t.get?_nil] at hfile
      cases hfile
  | cons o d =>
      obtain rfl : o = n := Option.some.inj ((Location.fileName?_path o d).symm.trans hname)
      refine ⟨d, o, _, rfl, rfl, Location.withFileName_path o d _, ?_⟩
      intro hslash
      have hmem := (Utf8.mem_encode_iff (b := slash) (by decide)).1 hslash
      rcases List.mem_append.1 hmem with hbase | hsuffix
      · exact FileName.slash_notMem_text htext (List.mem_append_left _ hbase)
      · exact hrules rule hrule hsuffix

/-- A mapping for a file of a directory exchanges the name of the file for some text. -/
theorem exists_name_of_mem (hrules : ∀ rule ∈ rules, '/' ∉ rule.replacementSuffix)
    (hm : m ∈ RenamePlan.of (t.filesUnder r) rules) :
    ∃ d o bytes, Location.Below r (o :: d) ∧ m.old = Location.path (o :: d) ∧
      m.new = (Location.path d).push bytes ∧ slash ∉ bytes ∧
      ∃ content executable, t.get? (o :: d) = some (.file content executable) := by
  obtain ⟨file, hfile, hmapping⟩ := mem_of_iff.1 hm
  obtain ⟨l, node, hl, hnode, hkind, rfl⟩ := FileTree.mem_filesUnder_iff.1 hfile
  cases node with
  | directory => simp [Node.kind] at hkind
  | link target => simp [Node.kind] at hkind
  | file content executable =>
      obtain ⟨d, o, bytes, rfl, hold, hnew, hbytes⟩ :=
        exists_name_of_ofFile? hrules hnode hmapping
      exact ⟨d, o, bytes, hl, hold, hnew, hbytes, content, executable, hnode⟩

/-- A mapping of a plan that passes the check renames a file of the directory, to a name that is
free or a link's. -/
theorem Accepted.renames (hrules : ∀ rule ∈ rules, '/' ∉ rule.replacementSuffix)
    (h : Accepted host t (RenamePlan.of (t.filesUnder r) rules))
    (hm : m ∈ RenamePlan.of (t.filesUnder r) rules) :
    ∃ d o n, m.Renames t d o n ∧ Location.Below r (o :: d) ∧
      (t.get? m.new.location = none ∨ ∃ target, t.get? m.new.location = some (.link target)) := by
  obtain ⟨d, o, bytes, hbelow, hold, hnew, hbytes, hfile⟩ := exists_name_of_mem hrules hm
  obtain ⟨n, hrenames, hplace⟩ := Mapping.renames_of_exists? hold hnew hbytes hfile (h.free m hm)
  exact ⟨d, o, n, hrenames, hbelow, hplace⟩

/-- **A plan that passes the check is ready to be carried out.** -/
theorem Accepted.ready (hrules : ∀ rule ∈ rules, '/' ∉ rule.replacementSuffix)
    (h : Accepted host t (RenamePlan.of (t.filesUnder r) rules)) :
    Ready t (RenamePlan.of (t.filesUnder r) rules) := by
  -- a file is at every old path, and none at any new one
  have hne : ∀ m ∈ RenamePlan.of (t.filesUnder r) rules,
      ∀ m' ∈ RenamePlan.of (t.filesUnder r) rules, m.old.location ≠ m'.new.location := by
    intro m hm m' hm' heq
    obtain ⟨d, o, n, hrenames, -, -⟩ := h.renames hrules hm
    obtain ⟨-, -, -, -, -, hplace⟩ := h.renames hrules hm'
    obtain ⟨content, executable, hfile⟩ := hrenames.file
    rw [← hrenames.old_location, heq] at hfile
    rcases hplace with hvacant | ⟨target, hlink⟩
    · rw [hvacant] at hfile
      cases hfile
    · rw [hlink] at hfile
      cases hfile
  constructor
  · intro m hm
    obtain ⟨d, o, n, hrenames, -, -⟩ := h.renames hrules hm
    exact ⟨d, o, n, hrenames⟩
  · intro m hm
    obtain ⟨-, -, -, -, -, hplace⟩ := h.renames hrules hm
    exact hplace
  · -- old paths differ because a walk finds a file once, new ones because the check says so
    have hpairs := (of_old_ne (t.filesUnder_nodup r) rules).and h.distinct
    refine hpairs.imp_of_mem fun {a b} ha hb hab => ?_
    obtain ⟨hold, hnew⟩ := hab
    obtain ⟨da, oa, na, hrenamesA, -, -⟩ := h.renames hrules ha
    obtain ⟨db, ob, nb, hrenamesB, -, -⟩ := h.renames hrules hb
    exact hrenamesA.apart hrenamesB hold hnew (hne a ha b hb) (hne b hb a ha)

end Plan

end RenamePlan

/-! ### The pass -/

section Pass

variable {root : Path} {rules : List RenameRule}

/-- The plan of the pass is that for the files of the directory, in whatever order they are found. -/
theorem RenamePlan.of_filesBelow {files : List Path} (h : files.Perm (t.filesUnder r)) :
    RenamePlan.of files rules = RenamePlan.of (t.filesUnder r) rules := by
  refine RenamePlan.of_perm h fun p hp q hq hsame => ?_
  obtain ⟨l, -, -, -, -, rfl⟩ := FileTree.mem_filesUnder_iff.1 (h.mem_iff.1 hp)
  obtain ⟨k, -, -, -, -, rfl⟩ := FileTree.mem_filesUnder_iff.1 (h.mem_iff.1 hq)
  rw [Location.components_path_injective hsame]

/-- **The pass over a directory**: either the plan does not pass the check and nothing happens, or it
does and mappings are carried out up to the first whose place is taken. -/
theorem renameBelow_outcome (hrules : ∀ rule ∈ rules, '/' ∉ rule.replacementSuffix)
    (hroot : t.canonical host.here root = .ok r.path) (hr : t.get? r = some .directory) :
    let plan := RenamePlan.of (t.filesUnder r) rules
    (¬ RenamePlan.Accepted host t plan ∧ ∃ e, (renameBelow root rules).outcome host t = (.error e, t)) ∨
      (RenamePlan.Accepted host t plan ∧ ∃ done rest u, plan = done ++ rest ∧
        (∀ m ∈ done, t.get? m.new.location = none) ∧
        (∀ m ∈ rest.head?, t.get? m.new.location ≠ none) ∧ t.Moved done u ∧
        (renameBelow root rules).outcome host t =
          (match rest with
            | [] => .ok plan
            | m :: _ => .error (.collision m.old m.new), u)) := by
  intro plan
  obtain ⟨files, hfiles, hperm⟩ := filesBelow_outcome hroot hr
  obtain ⟨result, hcheck, hresult⟩ := RenamePlan.check_outcome host t plan
  rw [renameBelow, outcome_bind_ok hfiles, RenamePlan.of_filesBelow hperm]
  cases result with
  | error e =>
      refine Or.inl ⟨?_, e, outcome_bind_error hcheck _⟩
      intro haccepted
      cases hresult.2 haccepted
  | ok _ =>
      have haccepted := hresult.1 rfl
      obtain ⟨done, rest, u, hplan, hdone, hrest, hmoved, hrun⟩ :=
        RenamePlan.forM_perform_outcome host (haccepted.ready hrules)
      refine Or.inr ⟨haccepted, done, rest, u, hplan, hdone, hrest, hmoved, ?_⟩
      rw [outcome_bind_ok hcheck]
      cases rest with
      | nil => exact outcome_bind_ok hrun _
      | cons m rest => exact outcome_bind_error hrun _

/-- Whatever is no directory is not renamed in. -/
theorem renameBelow_outcome_error (rules : List RenameRule)
    (hhere : t.get? host.here = some .directory)
    (h : ∀ r, t.canonical host.here root = .ok (Location.path r) → t.get? r ≠ some .directory) :
    ∃ p cause, (renameBelow root rules).outcome host t = (.error (.traversal p cause), t) := by
  obtain ⟨p, cause, hfiles⟩ := filesBelow_outcome_error hhere h
  exact ⟨p, cause, outcome_bind_error hfiles _⟩

end Pass

end DualModule

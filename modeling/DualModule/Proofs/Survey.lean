import DualModule.Proofs.Contention
import DualModule.Proofs.Kept
import DualModule.Proofs.RenamePass
/-!
# What a plan is based on, next to others

Until its first rename the rename pass takes nothing away, and neither do others (`Growing`).  So
what it finds out remains true in part: a file that was found is still there, and what a directory
had is still in it, whatever has been added.

The outline of this part of the pass goes from what a walk has found (`Surveyed`) to the files
among it (`Listed`) and to a plan that has been checked (`Checking`).  That a test finds nothing at a
place is soon outdated.  What remains of it is that the place is not that of a file to be renamed,
since the file was there all the time; so no place is both old and new.

## Main Definitions

* `Growing`, `Surveyed`, `Listed`, `Checking`
-/

namespace DualModule

variable {t u v : FileTree} {host : Host} {rules : List RenameRule} {past : List Event}
variable {d : Location} {n : FileName} {node : Node}

/-- What is to be shown of all states. -/
def kept (rules : List RenameRule) (t : FileTree) : Lasting where
  Holds past u := t.Kept rules past u
  stable := FileTree.Kept.create

/-! ### Answers that change nothing -/

namespace Request.Answers

/-- A request that cannot be refused is answered as the host answers it. -/
theorem of_no_refusal {r : Request} {reply : r.Reply} (hr : ∀ cause, r.refusal? cause = none)
    (h : r.Answers host t reply u) : (r.answer host t).1 = reply ∧ u = (r.answer host t).2 := by
  rcases h with h | ⟨⟨cause, h⟩, -⟩
  · exact ⟨congrArg Prod.fst h, (congrArg Prod.snd h).symm⟩
  · rw [hr] at h
    cases h

theorem canonicalize {p : Path} {reply : Except SystemError Path}
    (h : Answers host t (.canonicalize p) reply u) : t.canonical host.here p = reply ∧ u = t :=
  h.of_no_refusal fun _ => rfl

theorem list {p : Path} {reply : Except SystemError (List (FileName × NodeKind))}
    (h : Answers host t (.list p) reply u) : Request.listing host t p = reply ∧ u = t :=
  h.of_no_refusal fun _ => rfl

theorem test {p : Path} {reply : Except SystemError Bool} (h : Answers host t (.test p) reply u) :
    t.exists? host.here p = reply ∧ u = t :=
  h.of_no_refusal fun _ => rfl

end Request.Answers

/-! ### Before the first rename -/

/-- Nothing has been taken away, and every entry is where it was. -/
structure Growing (t : FileTree) (past : List Event) (u : FileTree) : Prop where
  nothing_removed : ∀ l, .removed l ∉ past
  stays : ∀ {l node since}, t.Entered past l node since → u.get? l = some node

namespace Growing

theorem start (t : FileTree) : Growing t [] t :=
  ⟨fun _ => List.not_mem_nil, FileTree.Entered.get?_of_nil⟩

theorem kept (h : Growing t past u) : t.Kept rules past u := by
  constructor
  · exact fun hl _ => h.stays hl
  · intro l node since before hl
    exact absurd (hl.subset (by simp)) (h.nothing_removed l)

/-- Where nothing is lost and nothing has been taken away, every entry is where it was. -/
theorem of_kept (hnothing : ∀ l, .removed l ∉ past) (h : t.Kept rules past u) :
    Growing t past u :=
  ⟨hnothing, fun hl => h.stays hl fun hmem => hnothing _ (hl.subset hmem)⟩

theorem create (h : Growing t past u) (hfree : u.get? (n :: d) = none)
    (hupdated : u.Updated (n :: d) (some node) v) :
    Growing t (.created (n :: d) node :: past) v := by
  have hkept : t.Kept [] past u := h.kept
  refine of_kept (fun l hl => ?_) (hkept.create hfree hupdated)
  exact h.nothing_removed l (by simpa using hl)

/-- Questions change nothing. -/
theorem answered {r : Request} {reply : r.Reply} (h : Growing t past u)
    (hr : ∀ p, r ≠ .unlink p) : Growing t (.answered r reply :: past) u := by
  have hevent : ∀ l, Event.answered r reply ≠ .removed l := by
    intro l hevent
    injection hevent with hrequest _
    exact hr l.path hrequest
  have hkept : t.Kept [] past u := h.kept
  refine of_kept (fun l hl => ?_) (hkept.unchanged hevent)
  rcases List.mem_cons.1 hl with hl | hl
  · exact hevent l hl.symm
  · exact h.nothing_removed l hl

end Growing

/-- What a walk has found so far is still there. -/
structure Surveyed (t : FileTree) (found : List Found) (past : List Event) (u : FileTree) : Prop
    extends Growing t past u where
  present : ∀ f ∈ found, ∃ l node, f = ⟨l.path, node.kind⟩ ∧ u.get? l = some node ∧
    node.kind ≠ .link

/-- The assertion of a walk. -/
def surveyed (rules : List RenameRule) (t : FileTree) (found : List Found) :
    Assertion (kept rules t) where
  Holds := Surveyed t found
  stable := by
    rintro past u v n d node h hfree hupdated
    refine ⟨h.toGrowing.create hfree hupdated, fun f hf => ?_⟩
    obtain ⟨l, node', rfl, hnode, hkind⟩ := h.present f hf
    exact ⟨l, node', rfl, hupdated.keeps hfree hnode, hkind⟩
  safe h := h.kept

/-- What is listed of a place that was found is there. -/
theorem Surveyed.listed {found : List Found} {p : Path} {kind : NodeKind}
    {entries : List (FileName × NodeKind)} (h : Surveyed t found past u) (hp : ⟨p, kind⟩ ∈ found)
    (hentries : Request.listing host u p = .ok entries) :
    ∀ f ∈ entries.filterMap (Found.ofEntry? p),
      ∃ l node, f = ⟨l.path, node.kind⟩ ∧ u.get? l = some node ∧ node.kind ≠ .link := by
  obtain ⟨l, node, hplace, hnode, hkind⟩ := h.present _ hp
  obtain ⟨rfl, -⟩ := Found.mk.inj hplace
  cases node with
  | link target => exact absurd rfl hkind
  | file content executable =>
      rw [FileTree.listing_path_file hnode] at hentries
      cases hentries
  | directory =>
      rw [FileTree.listing_path hnode] at hentries
      cases hentries
      intro f hf
      obtain ⟨n, node, hn, hlink, rfl⟩ :=
        ((FileTree.Level.of_perm (host.arrange_perm l _)).mem_iff f).1 hf
      exact ⟨n :: l, node, rfl, hn, hlink⟩

open Attempt Procedure

section Survey

variable {found : List Found} {p : Path} {kind : NodeKind}

theorem list_outline (hp : ⟨p, kind⟩ ∈ found) :
    (explained (.request (.list p)) (PassError.traversal p)).Outline host (surveyed rules t found)
      fun entries => surveyed rules t (found ++ entries.filterMap (Found.ofEntry? p)) := by
  refine Attempt.Outline.explained (Outline.request ?_)
  intro past u reply v h hanswer
  obtain ⟨hreply, rfl⟩ := hanswer.list
  have hgrowing : Growing t (.answered (.list p) reply :: past) v := h.toGrowing.answered (by simp)
  cases reply with
  | error cause => exact hgrowing.kept
  | ok entries =>
      refine ⟨hgrowing, fun f hf => ?_⟩
      rcases List.mem_append.1 hf with hf | hf
      · exact h.present f hf
      · exact h.listed hp hreply f hf

/-- Walks of places that were found, one after another. -/
theorem mapM_walkBelow_outline {levels : Nat}
    (h : ∀ {p kind found}, (⟨p, kind⟩ : Found) ∈ found →
      (walkBelow levels p).Outline host (surveyed rules t found)
        fun new => surveyed rules t (found ++ new))
    {ds : List Found} (hds : ∀ f ∈ ds, f ∈ found) :
    (ds.mapM fun f => walkBelow levels f.path).Outline host (surveyed rules t found)
      fun nested => surveyed rules t (found ++ nested.flatten) := by
  induction ds generalizing found with
  | nil =>
      rw [List.mapM_nil]
      refine Attempt.Outline.pure ?_
      rw [List.flatten_nil, List.append_nil]
      exact Assertion.le_refl _
  | cons f ds ih =>
      rw [List.forall_mem_cons] at hds
      rw [List.mapM_cons]
      refine (h hds.1).bind fun new => ?_
      refine (ih fun g hg => List.mem_append_left _ (hds.2 g hg)).bind fun nested => ?_
      refine Attempt.Outline.pure ?_
      rw [List.flatten_cons, List.append_assoc]
      exact Assertion.le_refl _

/-- **A walk** finds what is there. -/
theorem walkBelow_outline (levels : Nat) (hp : ⟨p, kind⟩ ∈ found) :
    (walkBelow levels p).Outline host (surveyed rules t found)
      fun new => surveyed rules t (found ++ new) := by
  induction levels generalizing p kind found with
  | zero =>
      rw [walkBelow]
      exact Attempt.Outline.throw _ _ _
  | succ levels ih =>
      rw [walkBelow]
      refine (list_outline hp).bind fun entries => ?_
      refine (mapM_walkBelow_outline ih ?_).bind fun nested => Attempt.Outline.pure ?_
      · intro f hf
        exact List.mem_append_right _ (List.mem_filter.1 hf).1
      · rw [List.append_assoc]
        exact Assertion.le_refl _

end Survey

/-- The files that a walk has found are still there. -/
structure Listed (t : FileTree) (files : List Path) (past : List Event) (u : FileTree) : Prop
    extends Growing t past u where
  present : ∀ p ∈ files, ∃ (l : Location) (content : Bytes) (executable : Bool), p = l.path ∧
    u.get? l = some (.file content executable)

/-- The assertion between the walk and the check. -/
def listed (rules : List RenameRule) (t : FileTree) (files : List Path) :
    Assertion (kept rules t) where
  Holds := Listed t files
  stable := by
    rintro past u v n d node h hfree hupdated
    refine ⟨h.toGrowing.create hfree hupdated, fun p hp => ?_⟩
    obtain ⟨l, content, executable, rfl, hfile⟩ := h.present p hp
    exact ⟨l, content, executable, rfl, hupdated.keeps hfree hfile⟩
  safe h := h.kept

theorem Surveyed.files {found : List Found} (h : Surveyed t found past u) :
    Listed t ((found.filter (·.kind = .file)).map (·.path)) past u := by
  refine ⟨h.toGrowing, fun p hp => ?_⟩
  obtain ⟨f, hf, rfl⟩ := List.mem_map.1 hp
  obtain ⟨hf, hkind⟩ := List.mem_filter.1 hf
  obtain ⟨l, node, rfl, hnode, -⟩ := h.present f hf
  cases node with
  | directory => simp [Node.kind] at hkind
  | link target => simp [Node.kind] at hkind
  | file content executable => exact ⟨l, content, executable, rfl, hnode⟩

/-- The root that the walk begins at is there, whatever it is. -/
theorem canonicalize_outline (hhere : t.get? host.here = some .directory) (root : Path) :
    (explained (.request (.canonicalize root)) (PassError.traversal root)).Outline host
      (surveyed rules t []) fun p => .any fun kind => surveyed rules t [⟨p, kind⟩] := by
  refine Attempt.Outline.explained (Outline.request ?_)
  intro past u reply v h hanswer
  obtain ⟨hreply, rfl⟩ := hanswer.canonicalize
  have hgrowing : Growing t (.answered (.canonicalize root) reply :: past) v :=
    h.toGrowing.answered (by simp)
  cases reply with
  | error cause => exact hgrowing.kept
  | ok p =>
      obtain ⟨l, node, rfl, hnode, hlink⟩ :=
        FileTree.canonical_sound (h.stays (.initial hhere)) hreply
      refine ⟨node.kind, hgrowing, fun f hf => ?_⟩
      refine ⟨l, node, List.mem_singleton.1 hf, hnode, ?_⟩
      cases node with
      | directory => simp [Node.kind]
      | file content executable => simp [Node.kind]
      | link target => exact absurd rfl (hlink target)

theorem filesBelow_outline (hhere : t.get? host.here = some .directory) (root : Path) :
    (filesBelow root).Outline host (surveyed rules t []) (listed rules t) := by
  rw [filesBelow, walk]
  have hwalk : ∀ p : Path, (walkBelow maxPathLength p).Outline host
      (.any fun kind => surveyed rules t [⟨p, kind⟩]) fun found => surveyed rules t found := by
    intro p
    refine Attempt.Outline.any fun kind => ?_
    refine (walkBelow_outline maxPathLength (List.mem_singleton_self _)).conseq fun found => ?_
    intro past u h
    exact ⟨h.toGrowing, fun f hf => h.present f (List.mem_append_right _ hf)⟩
  refine ((canonicalize_outline hhere root).bind hwalk).bind fun found => ?_
  refine Attempt.Outline.pure ?_
  intro past u h
  exact h.files

/-! ### The check -/

/-- The plan's files are there, and the mappings that have been checked so far are renames to
different places, none of which is a file's. -/
structure Checking (t : FileTree) (plan claimed : List Mapping) (past : List Event) (u : FileTree) :
    Prop extends Growing t past u where
  files : ∀ m ∈ plan, ∃ d o bytes, m.old = Location.path (o :: d) ∧
    m.new = (Location.path d).push bytes ∧ slash ∉ bytes ∧
    ∃ content executable, u.get? (o :: d) = some (.file content executable)
  renames : ∀ m ∈ claimed, ∃ d o n, m.Renames u d o n ∧
    ∀ m' ∈ plan, m'.old.location ≠ m.new.location
  distinct : claimed.Pairwise fun a b => ¬ a.new.Same b.new

/-- The assertion of the check. -/
def checking (rules : List RenameRule) (t : FileTree) (plan claimed : List Mapping) :
    Assertion (kept rules t) where
  Holds := Checking t plan claimed
  stable := by
    rintro past u v n d node h hfree hupdated
    refine ⟨h.toGrowing.create hfree hupdated, fun m hm => ?_, fun m hm => ?_, h.distinct⟩
    · obtain ⟨d, o, bytes, hold, hnew, hbytes, content, executable, hfile⟩ := h.files m hm
      exact ⟨d, o, bytes, hold, hnew, hbytes, content, executable, hupdated.keeps hfree hfile⟩
    · obtain ⟨d, o, n, hrenames, hne⟩ := h.renames m hm
      exact ⟨d, o, n, hrenames.keep fun _ => hupdated.keeps hfree, hne⟩
  safe h := h.kept

section Check

variable {plan claimed ms : List Mapping} {m : Mapping}

/-- A test that finds nothing is worth something for good: the place is not a file's. -/
theorem Checking.claim (h : Checking t plan claimed past u) (hm : m ∈ plan)
    (hclaimed : ∀ c ∈ claimed, ¬ c.new.Same m.new)
    (hfree : u.exists? host.here m.new = .ok false) : Checking t plan (m :: claimed) past u := by
  obtain ⟨d, o, bytes, hold, hnew, hbytes, hfile⟩ := h.files m hm
  obtain ⟨n, hrenames, hplace⟩ := Mapping.renames_of_exists? hold hnew hbytes hfile hfree
  refine ⟨h.toGrowing, h.files, ?_, ?_⟩
  · refine List.forall_mem_cons.2 ⟨⟨d, o, n, hrenames, ?_⟩, h.renames⟩
    -- where the test found nothing there is no file, but every planned file is there
    intro m' hm' heq
    obtain ⟨d', o', bytes', hold', -, -, content, executable, hnode⟩ := h.files m' hm'
    rw [← Location.location_path (o' :: d'), ← hold', heq] at hnode
    rcases hplace with hvacant | ⟨target, hlink⟩
    · rw [hvacant] at hnode
      cases hnode
    · rw [hlink] at hnode
      cases hnode
  · refine List.pairwise_cons.2 ⟨?_, h.distinct⟩
    intro c hc hsame
    exact hclaimed c hc hsame.symm

theorem requireFree_outline (hm : m ∈ plan) (hclaimed : ∀ c ∈ claimed, ¬ c.new.Same m.new) :
    m.requireFree.Outline host (checking rules t plan claimed)
      fun _ => checking rules t plan (m :: claimed) := by
  have htest : (explained (.request (.test m.new)) (PassError.rename m.old m.new)).Outline host
      (checking rules t plan claimed)
      fun found => checking rules t plan (if found then claimed else m :: claimed) := by
    refine Attempt.Outline.explained (Outline.request ?_)
    intro past u reply v h hanswer
    obtain ⟨hreply, rfl⟩ := hanswer.test
    have hgrowing : Growing t (.answered (.test m.new) reply :: past) v :=
      h.toGrowing.answered (by simp)
    have hchecking : Checking t plan claimed (.answered (.test m.new) reply :: past) v :=
      ⟨hgrowing, h.files, h.renames, h.distinct⟩
    cases reply with
    | error cause => exact hgrowing.kept
    | ok found =>
        cases found with
        | true => exact hchecking
        | false => exact hchecking.claim hm hclaimed hreply
  rw [Mapping.requireFree]
  refine htest.bind fun found => ?_
  cases found with
  | true => exact Attempt.Outline.throw _ _ _
  | false => exact Attempt.Outline.pure (Assertion.le_refl _)

theorem checkFrom_outline (hms : ∀ m ∈ ms, m ∈ plan) :
    (RenamePlan.checkFrom claimed ms).Outline host (checking rules t plan claimed)
      fun _ => checking rules t plan (ms.reverse ++ claimed) := by
  induction ms generalizing claimed with
  | nil => exact Attempt.Outline.pure (Assertion.le_refl _)
  | cons m ms ih =>
      rw [List.forall_mem_cons] at hms
      rw [RenamePlan.checkFrom]
      split
      · exact Attempt.Outline.throw _ _ _
      · rename_i hfind
        have hclaimed : ∀ c ∈ claimed, ¬ c.new.Same m.new := by
          simpa using List.find?_eq_none.1 hfind
        refine (requireFree_outline hms.1 hclaimed).bind fun _ => ?_
        rw [List.reverse_cons, List.append_assoc, List.singleton_append]
        exact ih hms.2

/-- The plan for files that are there can be checked. -/
theorem Listed.checking {files : List Path} (h : Listed t files past u)
    (hrules : ∀ rule ∈ rules, '/' ∉ rule.replacementSuffix) :
    Checking t (RenamePlan.of files rules) [] past u := by
  refine ⟨h.toGrowing, fun m hm => ?_, by simp, List.Pairwise.nil⟩
  obtain ⟨p, hp, hmapping⟩ := RenamePlan.mem_of_iff.1 hm
  obtain ⟨l, content, executable, rfl, hfile⟩ := h.present p hp
  obtain ⟨d, o, bytes, rfl, hold, hnew, hbytes⟩ :=
    RenamePlan.exists_name_of_ofFile? hrules hfile hmapping
  exact ⟨d, o, bytes, hold, hnew, hbytes, content, executable, hfile⟩

end Check

end DualModule

import DualModule.Proofs.Idempotence
import DualModule.Proofs.Normalisation
import DualModule.Proofs.Regions
/-!
# The import pass in any order

The jobs of the import pass may be under way at the same time, a limited number of them, started in
any order and answered in any order.  None of that can be told from the outcome: the tree and the
summary are those of the pass that edits one file after another (`editImports_scheduled`).

**Each job keeps to its own file**, so that the jobs are confined to disjoint regions, and what a
pool of them does is an interleaving.  Distinct paths have to be distinct files for this.

**The summary is true.**  A file counts as changed if replacements were made in it.  Every new text
of a dual-module table is longer than its needle, so that each replacement makes the text longer
(`Replacement.length_add_count_le`), and several of them cannot cancel out.

## Main Definitions

* `Replacement.Lengthening`
* `editJob`
* `ScheduledEdits`: what is promised of the pass
-/

namespace DualModule

open Attempt

variable {host : Host} {t u v : FileTree} {mappings : List Mapping} {r : Location}

/-! ### Replacing makes text longer -/

namespace Replacement

/-- The new text is longer than what it replaces. -/
def Lengthening (r : Replacement) : Prop := r.needle.length < r.newText.length

variable {table : List Replacement}

theorem length_before_add_count_le {segs : List Segment}
    (h : ∀ r, .substituted r ∈ segs → r.Lengthening) :
    (segs.flatMap Segment.before).length + segs.countP Segment.isSubstituted ≤
      (segs.flatMap Segment.after).length := by
  induction segs with
  | nil => simp
  | cons seg segs ih =>
      have hrest := ih fun r hr => h r (List.mem_cons_of_mem _ hr)
      cases seg with
      | kept c =>
          rw [List.countP_cons_of_neg (by simp [Segment.isSubstituted])]
          simp only [List.flatMap_cons, Segment.before, Segment.after, List.length_append]
          omega
      | substituted r =>
          have hr : r.needle.length < r.newText.length := h r List.mem_cons_self
          rw [List.countP_cons_of_pos (by simp [Segment.isSubstituted])]
          simp only [List.flatMap_cons, Segment.before, Segment.after, List.length_append]
          omega

/-- **Each replacement makes the text longer** by a character or more. -/
theorem length_add_count_le (h : ∀ r ∈ table, r.Lengthening) (content : Text) :
    content.length + (apply table content).count ≤ (apply table content).content.length := by
  have hscan : ∀ r, .substituted r ∈ scan table content → r.Lengthening :=
    fun r hr => h r (mem_table_of_mem_scan hr)
  have hlength := length_before_add_count_le hscan
  rwa [flatMap_before_scan] at hlength

/-- **Nothing cancels out**: text stays as it is only if nothing is replaced in it. -/
theorem content_eq_iff (h : ∀ r ∈ table, r.Lengthening) (content : Text) :
    (apply table content).content = content ↔ (apply table content).count = 0 := by
  refine ⟨fun hsame => ?_, content_eq_of_count_eq_zero⟩
  have hlength := length_add_count_le h content
  rw [hsame] at hlength
  omega

theorem lengthening_of_mem_table (h : AllDual mappings) {directory : Path} {r : Replacement}
    (hr : r ∈ Replacement.table directory mappings) : r.Lengthening := by
  obtain ⟨m, -, q, -, e, he, rfl⟩ := (mem_table_iff h).1 hr
  have hlength : e.length < ".cjs".toList.length := by
    simp only [specifierExtensions, List.mem_cons, List.not_mem_nil, or_false] at he
    rcases he with rfl | rfl <;> decide
  unfold Lengthening Mapping.replacement quoted
  simp only [List.length_append, List.length_cons] at hlength ⊢
  omega

end Replacement

/-- **Content stays as it is** only if nothing is replaced in it, whether it is text or not. -/
theorem editContent_eq_iff (h : Replacement.AllDual mappings) (file : Path) (content : Bytes) :
    (editContent mappings file content).1 = content ↔
      (editContent mappings file content).2 = 0 := by
  rw [editContent]
  cases htext : Utf8.decode? content with
  | none => exact iff_of_true rfl rfl
  | some text =>
      have hcontent : content = Utf8.encode text := Utf8.decode?_eq_some_iff.1 htext
      simp only [hcontent]
      rw [← Replacement.content_eq_iff fun r hr => Replacement.lengthening_of_mem_table h hr]
      exact ⟨fun heq => Utf8.encode_injective heq, fun heq => by rw [heq]⟩

/-! ### Jobs next to each other -/

/-- The job for a file, and the region that it keeps to. -/
def editJob (mappings : List Mapping) (f : Path) :
    Set Location × Procedure (Except PassError FileEdit) :=
  ({f.location}, (editFile mappings f).run)

theorem editJob_run (host : Host) (mappings : List Mapping) {n : FileName} {d : Location}
    {content : Bytes} {executable : Bool}
    (h : t.get? (n :: d) = some (.file content executable)) :
    let f := Location.path (n :: d)
    (editJob mappings f).2.run host t = (.ok (t.fileEdit mappings f),
      t.overwrite (n :: d) (editContent mappings f content).1 executable) := by
  intro f
  rw [FileTree.fileEdit_path h]
  exact editFile_outcome host mappings h

/-- **Jobs for different files**, in any interleaving: none fails, and the files are edited. -/
theorem interleaved_editFile {files : List Path} {results : List (Except PassError FileEdit)}
    (hnodup : files.Nodup)
    (hfiles : ∀ f ∈ files, ∃ n d content executable, f = Location.path (n :: d) ∧
      t.get? (n :: d) = some (.file content executable) ∧ t.Alone (n :: d))
    (hrun : Procedure.Interleaved host (files.map fun f => (editFile mappings f).run) t results v) :
    results = files.map (fun f => .ok (t.fileEdit mappings f)) ∧ t.Edited mappings files v := by
  have hdisjoint : (files.map (editJob mappings)).Pairwise fun a b => Disjoint a.1 b.1 := by
    refine List.pairwise_map.2 (Location.pairwise_disjoint hnodup fun f hf => ?_)
    obtain ⟨n, d, _, _, rfl, -⟩ := hfiles f hf
    exact ⟨n :: d, rfl⟩
  have hconfined : ∀ j ∈ files.map (editJob mappings), j.2.Confined host .any j.1 t := by
    intro j hj
    obtain ⟨f, hf, rfl⟩ := List.mem_map.1 hj
    obtain ⟨n, d, _, _, rfl, hfile, halone⟩ := hfiles f hf
    exact editFile_confined mappings hfile halone (Location.location_path (n :: d)).symm
      fun _ => trivial
  have hjobs : (files.map (editJob mappings)).map Prod.snd =
      files.map fun f => (editFile mappings f).run := by
    rw [List.map_map]
    rfl
  have hseparately := Procedure.interleaved_confined hdisjoint hconfined (hjobs ▸ hrun)
  have hinside : ∀ n d content executable, Location.path (n :: d) ∈ files →
      t.get? (n :: d) = some (.file content executable) →
      v.view (n :: d) = (t.overwrite (n :: d)
        (editContent mappings (Location.path (n :: d)) content).1 executable).view (n :: d) := by
    intro n d content executable hl hfile
    have hending := hseparately.inside _ (List.mem_map_of_mem (List.mem_map_of_mem hl)) (n :: d)
      (Location.location_path (n :: d)).symm
    rwa [editJob_run host mappings hfile] at hending
  have helsewhere : ∀ l, l.path ∉ files → v.view l = t.view l := by
    intro l hl
    refine hseparately.elsewhere l fun e he hmem => hl ?_
    obtain ⟨j, hj, rfl⟩ := List.mem_map.1 he
    obtain ⟨f, hf, rfl⟩ := List.mem_map.1 hj
    obtain ⟨n, d, _, _, rfl, -⟩ := hfiles f hf
    obtain rfl : l = n :: d := hmem.trans (Location.location_path _)
    exact hf
  refine ⟨?_, ?_, fun l hl => FileTree.get?_eq_of_view (helsewhere l hl), fun l k => ?_⟩
  · rw [hseparately.results_eq, List.map_map, List.map_map]
    refine List.map_congr_left fun f hf => ?_
    obtain ⟨n, d, _, _, rfl, hfile, -⟩ := hfiles f hf
    exact congrArg Prod.fst (editJob_run host mappings hfile)
  · intro l content executable hl hfile
    obtain ⟨n, d, _, _, hpath, -, halone⟩ := hfiles _ hl
    obtain rfl := Location.path_injective hpath
    rw [FileTree.get?_eq_of_view (hinside n d content executable hl hfile)]
    exact (FileTree.updated_overwrite hfile halone).get?_self
  · -- editing changes no names, neither of the files nor elsewhere
    by_cases hl : l.path ∈ files
    · obtain ⟨n, d, content, executable, hpath, hfile, -⟩ := hfiles _ hl
      obtain rfl := Location.path_injective hpath
      exact FileTree.twin_iff_of_view (hinside n d content executable hl hfile) k
    · exact FileTree.twin_iff_of_view (helsewhere l hl) k

/-! ### What editing leaves -/

namespace FileTree.Edited

/-- Editing determines the tree. -/
theorem unique (hu : t.Edited mappings (t.filesUnder r) u)
    (hv : t.Edited mappings (t.filesUnder r) v) : u = v := by
  refine FileTree.ext (fun l => ?_) fun l k => (hu.names l k).trans (hv.names l k).symm
  by_cases hl : l.path ∈ t.filesUnder r
  · obtain ⟨-, content, executable, hfile⟩ := file_of_path_mem hl
    rw [hu.edited l content executable hl hfile, hv.edited l content executable hl hfile]
  · rw [hu.other l hl, hv.other l hl]

/-- Every entry stays what it is. -/
theorem kind_eq (h : t.Edited mappings (t.filesUnder r) u) (l : Location) :
    (u.get? l).map Node.kind = (t.get? l).map Node.kind := by
  by_cases hl : l.path ∈ t.filesUnder r
  · obtain ⟨-, content, executable, hfile⟩ := file_of_path_mem hl
    rw [h.edited l content executable hl hfile, hfile]
    rfl
  · rw [h.other l hl]

/-- A file has other bytes than before exactly if something was replaced in it. -/
theorem read_ne_iff (here : Location) (h : t.Edited mappings (t.filesUnder r) u)
    (hmappings : Replacement.AllDual mappings) {f : Path} (hf : f ∈ t.filesUnder r) :
    t.read here f ≠ u.read here f ↔ 0 < (t.fileEdit mappings f).replacements := by
  obtain ⟨n, d, content, executable, rfl, hfile⟩ := exists_file_of_mem hf
  have hedited := h.edited (n :: d) content executable hf hfile
  rw [read_path hfile, read_path hedited, fileEdit_path hfile, Nat.pos_iff_ne_zero, ne_eq, ne_eq,
    not_iff_not, ← editContent_eq_iff hmappings]
  exact ⟨fun heq => (Except.ok.inj heq).symm, fun heq => congrArg Except.ok heq.symm⟩

/-- **The summary is true.** -/
theorem editSummary_eq (here : Location) (h : t.Edited mappings (t.filesUnder r) u)
    (hmappings : Replacement.AllDual mappings) :
    t.editSummary mappings r =
      ⟨(t.filesUnder r).length, (t.filesUnder r).countP fun f => t.read here f ≠ u.read here f,
        ((t.filesUnder r).map fun f => (t.fileEdit mappings f).replacements).sum⟩ := by
  have hcount : (t.filesUnder r).countP (fun f => t.read here f ≠ u.read here f) =
      ((t.filesUnder r).map (t.fileEdit mappings)).countP (0 < ·.replacements) := by
    rw [List.countP_map]
    refine List.countP_congr fun f hf => ?_
    simpa using h.read_ne_iff here hmappings hf
  rw [hcount, editSummary, EditSummary.ofOutcomes, List.length_map, List.map_map,
    List.sum_eq_foldr]
  rfl

end FileTree.Edited

/-! ### The pool -/

section Pool

variable {limit : Nat} {files : List Path}

/-- No job of the pass fails. -/
theorem editPool_succeeds (hsingle : t.Single r) (hfiles : files.Perm (t.filesUnder r)) :
    Pool.Succeeds host (editPool mappings files).jobs t := by
  intro results u hrun result hresult
  obtain ⟨rfl, -⟩ := interleaved_editFile (hfiles.nodup_iff.2 (t.filesUnder_nodup r))
    (fun f hf => hsingle.exists_file_of_mem (hfiles.mem_iff.1 hf)) hrun
  obtain ⟨f, -, rfl⟩ := List.mem_map.1 hresult
  exact ⟨_, rfl⟩

/-- **When all jobs are finished**, the files are edited, and the totals are those of the files. -/
theorem editPool_finished (hsingle : t.Single r) (hfiles : files.Perm (t.filesUnder r))
    {results : List FileEdit}
    (h : Pool.Reaches host limit (editPool mappings files) t ⟨[], [], results⟩ v) :
    EditSummary.ofOutcomes results = t.editSummary mappings r ∧
      t.Edited mappings (t.filesUnder r) v := by
  obtain ⟨results', hrun, hresults⟩ := h.interleaved (.finished [] v)
  obtain ⟨rfl, hedited⟩ := interleaved_editFile (hfiles.nodup_iff.2 (t.filesUnder_nodup r))
    (fun f hf => hsingle.exists_file_of_mem (hfiles.mem_iff.1 hf)) hrun
  refine ⟨?_, hedited.of_perm hfiles⟩
  have hperm : (files.map (t.fileEdit mappings)).Perm results := by
    simpa [editPool, List.filterMap_map, Function.comp_def, Except.toOption] using
      hresults.filterMap Except.toOption
  exact EditSummary.ofOutcomes_perm (hperm.symm.trans (hfiles.map _))

end Pool

/-! ### The pass -/

/-- What the pass over the directory at `r` comes to, in whatever order the files are found, and
however their jobs are scheduled. -/
structure ScheduledEdits (host : Host) (mappings : List Mapping) (r : Location) (t : FileTree)
    (summary : EditSummary) (u : FileTree) : Prop where
  /-- whatever has been done so far, the jobs can come to their end -/
  comes_to_end : ∀ files, files.Perm (t.filesUnder r) → ∀ pool v,
    Pool.Reaches host maxEditsAtOnce (editPool mappings files) t pool v →
      ∃ results, Pool.Reaches host maxEditsAtOnce pool v ⟨[], [], results⟩ u
  /-- and then the tree and the totals are always the same -/
  same_end : ∀ files, files.Perm (t.filesUnder r) → ∀ results v,
    Pool.Reaches host maxEditsAtOnce (editPool mappings files) t ⟨[], [], results⟩ v →
      v = u ∧ EditSummary.ofOutcomes results = summary
  /-- no entry appears, disappears or changes its kind -/
  kind_eq : ∀ l, (u.get? l).map Node.kind = (t.get? l).map Node.kind
  filesVisited_eq : summary.filesVisited = (t.filesUnder r).length
  /-- the files that changed are those that have other bytes than before -/
  filesChanged_eq : summary.filesChanged =
    (t.filesUnder r).countP fun f => t.read host.here f ≠ u.read host.here f
  replacements_eq : summary.replacements =
    ((t.filesUnder r).map fun f => (t.fileEdit mappings f).replacements).sum

/-- **Scheduling makes no difference to the import pass, and its summary is true**, for mappings
that the dual-module rules make, and where no file has a second name. -/
theorem editImports_scheduled {root : Path}
    (hmappings : ∀ m ∈ mappings, ∃ file, Mapping.ofFile? RenameRule.dualModule file = some m)
    (hroot : t.canonical host.here root = .ok r.path) (hr : t.get? r = some .directory)
    (hsingle : t.Single r) :
    ∃ summary u, (editImports root mappings).outcome host t = (.ok summary, u) ∧
      ScheduledEdits host mappings r t summary u := by
  have hdual : Replacement.AllDual mappings := by
    intro m hm
    obtain ⟨file, hfile⟩ := hmappings m hm
    exact ⟨_, Mapping.dual_of_ofFile? hfile⟩
  obtain ⟨u, hrun, hedited⟩ := editImports_summary mappings hroot hr hsingle
  have hsame : ∀ files, files.Perm (t.filesUnder r) → ∀ results v,
      Pool.Reaches host maxEditsAtOnce (editPool mappings files) t ⟨[], [], results⟩ v →
      v = u ∧ EditSummary.ofOutcomes results = t.editSummary mappings r := by
    intro files hfiles results v hreaches
    obtain ⟨hsummary, hv⟩ := editPool_finished hsingle hfiles hreaches
    exact ⟨hv.unique hedited, hsummary⟩
  have hend : ∀ files, files.Perm (t.filesUnder r) → ∀ pool v,
      Pool.Reaches host maxEditsAtOnce (editPool mappings files) t pool v →
      ∃ results, Pool.Reaches host maxEditsAtOnce pool v ⟨[], [], results⟩ u := by
    intro files hfiles pool v hreaches
    have hlimit : 0 < maxEditsAtOnce := by decide
    obtain ⟨results, w, hend⟩ :=
      ((editPool_succeeds hsingle hfiles).of_reaches hreaches).exists_finished hlimit
    obtain ⟨rfl, -⟩ := hsame files hfiles results w (hreaches.trans hend)
    exact ⟨results, hend⟩
  have hsummary := hedited.editSummary_eq host.here hdual
  exact ⟨_, u, hrun, hend, hsame, hedited.kind_eq, congrArg EditSummary.filesVisited hsummary,
    congrArg EditSummary.filesChanged hsummary, congrArg EditSummary.replacements hsummary⟩

/-- The files of a small tree: of three, one imports the module that the mapping is about. -/
theorem smallTree_scheduled :
    let root := Path.ofText "/t".toList
    let file := Path.ofText "/t/a_pb.js".toList
    let mappings : List Mapping := [⟨file, .ofText "/t/a_pb.cjs".toList, .implementation⟩]
    (∀ m ∈ mappings, ∃ file, Mapping.ofFile? RenameRule.dualModule file = some m) ∧
      smallTree.canonical Host.plain.here root = .ok root.location.path ∧
      smallTree.get? root.location = some .directory ∧ smallTree.Single root.location ∧
      smallTree.editSummary mappings root.location = ⟨3, 1, 1⟩ ∧
      ∃ summary u, (editImports root mappings).outcome .plain smallTree = (.ok summary, u) ∧
        ScheduledEdits .plain mappings root.location smallTree summary u := by
  intro root file mappings
  have hmappings : ∀ m ∈ mappings, ∃ file, Mapping.ofFile? RenameRule.dualModule file = some m := by
    intro m hm
    obtain rfl := List.mem_singleton.1 hm
    exact ⟨file, by decide +kernel⟩
  exact ⟨hmappings, by decide +kernel, by decide +kernel, by decide +kernel, by decide +kernel,
    editImports_scheduled hmappings (by decide +kernel) (by decide +kernel) (by decide +kernel)⟩

end DualModule

import DualModule.ImportPass
import DualModule.Proofs.Operations
import DualModule.Proofs.Walk
/-!
# Runs of the import pass

The pass reads and writes one file after another.  If no file below the root has a second name, then
none is written twice, so each is edited as it was found, and all that is not a file below the root
stays as it is (`FileTree.Edited`).

The pass over a directory cannot fail: what a walk has found is there when it is read and written.
-/

namespace DualModule

open Attempt

variable {t u v : FileTree} {host : Host} {mappings : List Mapping} {n : FileName} {d l r : Location}

theorem directory_path (n : FileName) (d : Location) : (Location.path (n :: d)).directory = d.path := by
  rw [Path.directory, Location.parent?_path]
  rfl

/-! ### One file -/

/-- A file is edited under all its names. -/
theorem editFile_outcome (host : Host) (mappings : List Mapping) {content : Bytes}
    {executable : Bool} (h : t.get? (n :: d) = some (.file content executable)) :
    let f := Location.path (n :: d)
    (editFile mappings f).outcome host t = (.ok ⟨f, (editContent mappings f content).2⟩,
      t.overwrite (n :: d) (editContent mappings f content).1 executable) := by
  intro f
  have hread : (Procedure.request (.read f)).run host t = (.ok content, t) := by
    rw [run_request, Request.answer, FileTree.read_path h]
  have hwrite : (Procedure.request (.write f (editContent mappings f content).1)).run host t =
      (.ok (), t.overwrite (n :: d) (editContent mappings f content).1 executable) := by
    rw [run_request, Request.answer, FileTree.write_path host.here h]
    rfl
  rw [editFile, outcome_bind_ok (outcome_explained hread _)]
  exact outcome_bind_ok (outcome_explained hwrite _) _

/-! ### Many files -/

/-- What editing a file of the tree amounts to. -/
def FileTree.fileEdit (t : FileTree) (mappings : List Mapping) (file : Path) : FileEdit where
  path := file
  replacements := match t.get? file.location with
    | some (.file content _) => (editContent mappings file content).2
    | _ => 0

theorem FileTree.fileEdit_path {content : Bytes} {executable : Bool}
    (h : t.get? l = some (.file content executable)) (mappings : List Mapping) :
    t.fileEdit mappings l.path = ⟨l.path, (editContent mappings l.path content).2⟩ := by
  rw [FileTree.fileEdit, Location.location_path, h]

/-- The second tree is the first one with some files edited. -/
structure FileTree.Edited (t : FileTree) (mappings : List Mapping) (files : List Path)
    (u : FileTree) : Prop where
  edited : ∀ l content executable, l.path ∈ files → t.get? l = some (.file content executable) →
    u.get? l = some (.file (editContent mappings l.path content).1 executable)
  other : ∀ l, l.path ∉ files → u.get? l = t.get? l
  names : t.SameNames u

theorem FileTree.Edited.of_perm {files files' : List Path} (h : t.Edited mappings files u)
    (hperm : files.Perm files') : t.Edited mappings files' u := by
  constructor
  · intro l content executable hl
    exact h.edited l content executable (hperm.mem_iff.2 hl)
  · intro l hl
    exact h.other l (mt hperm.mem_iff.1 hl)
  · exact h.names

/-- **Editing files one after another**, files with one name each. -/
theorem mapM_editFile_outcome (host : Host) (mappings : List Mapping) {files : List Path}
    (hnodup : files.Nodup)
    (hfiles : ∀ f ∈ files, ∃ n d content executable, f = Location.path (n :: d) ∧
      t.get? (n :: d) = some (.file content executable) ∧ t.Alone (n :: d)) :
    ∃ u, (files.mapM (editFile mappings)).outcome host t =
        (.ok (files.map (t.fileEdit mappings)), u) ∧ t.Edited mappings files u := by
  induction files generalizing t with
  | nil => exact ⟨t, rfl, by simp, fun _ _ => rfl, .refl t⟩
  | cons f files ih =>
      obtain ⟨hf, hrest⟩ := List.nodup_cons.1 hnodup
      obtain ⟨n, d, content, executable, rfl, hfile, halone⟩ := hfiles f List.mem_cons_self
      have hrun := editFile_outcome host mappings hfile
      let new := (editContent mappings (Location.path (n :: d)) content).1
      let v := t.overwrite (n :: d) new executable
      have hupdated : t.Updated (n :: d) (some (.file new executable)) v :=
        FileTree.updated_overwrite hfile halone
      have hnames : t.SameNames v := t.sameNames_overwrite _ _ _
      -- the files that follow are others, and still as they were found
      have hsame : ∀ l, l.path ∈ files → v.get? l = t.get? l := by
        intro l hl
        refine hupdated.get?_of_ne ?_
        rintro rfl
        exact hf hl
      have hfiles' : ∀ g ∈ files, ∃ n d content executable, g = Location.path (n :: d) ∧
          v.get? (n :: d) = some (.file content executable) ∧ v.Alone (n :: d) := by
        intro g hg
        obtain ⟨m, e, content, executable, rfl, hfile, halone⟩ :=
          hfiles g (List.mem_cons_of_mem _ hg)
        exact ⟨m, e, content, executable, rfl, (hsame _ hg).trans hfile,
          hnames.alone_iff.2 halone⟩
      have hedits : files.map (v.fileEdit mappings) = files.map (t.fileEdit mappings) := by
        refine List.map_congr_left fun g hg => ?_
        obtain ⟨m, e, content, executable, rfl, hfile, -⟩ := hfiles' g hg
        rw [FileTree.fileEdit_path hfile, FileTree.fileEdit_path (hsame _ hg ▸ hfile)]
      obtain ⟨u, hruns, hedited⟩ := ih hrest hfiles'
      refine ⟨u, ?_, ?_, ?_, hnames.trans hedited.names⟩
      · rw [outcome_mapM_cons hrun hruns, List.map_cons, FileTree.fileEdit_path hfile, hedits]
      · intro l content' executable' hl hfile'
        by_cases hmem : l.path ∈ files
        · exact hedited.edited l _ _ hmem ((hsame l hmem).trans hfile')
        · -- the file just written, which is not written again
          obtain rfl := Location.path_injective ((List.mem_cons.1 hl).resolve_right hmem)
          cases hfile.symm.trans hfile'
          rw [hedited.other _ hmem, hupdated.get?_self]
      · intro l hl
        obtain ⟨hne, hmem⟩ := not_or.1 (mt List.mem_cons.2 hl)
        have hlne : l ≠ n :: d := by
          rintro rfl
          exact hne rfl
        rw [hedited.other l hmem, hupdated.get?_of_ne hlne]

/-! ### The pass -/

theorem FileTree.path_mem_filesUnder {content : Bytes} {executable : Bool}
    (hl : Location.Below r l) (h : t.get? l = some (.file content executable)) :
    l.path ∈ t.filesUnder r :=
  FileTree.mem_filesUnder_iff.2 ⟨l, _, hl, h, rfl, rfl⟩

theorem FileTree.file_of_path_mem (h : l.path ∈ t.filesUnder r) : Location.Below r l ∧
    ∃ content executable, t.get? l = some (.file content executable) := by
  obtain ⟨k, node, hk, hnode, hkind, hpath⟩ := FileTree.mem_filesUnder_iff.1 h
  obtain rfl := Location.path_injective hpath
  cases node with
  | file content executable => exact ⟨hk, content, executable, hnode⟩
  | directory => simp [Node.kind] at hkind
  | link target => simp [Node.kind] at hkind

/-- Every file below the directory at `r` is at the canonical path of some name in a directory. -/
theorem FileTree.exists_file_of_mem {f : Path} (hf : f ∈ t.filesUnder r) :
    ∃ n d content executable, f = Location.path (n :: d) ∧
      t.get? (n :: d) = some (.file content executable) := by
  obtain ⟨l, -, -, -, -, rfl⟩ := FileTree.mem_filesUnder_iff.1 hf
  obtain ⟨hl, content, executable, hfile⟩ := FileTree.file_of_path_mem hf
  cases l with
  | nil => exact absurd (List.eq_nil_of_suffix_nil hl.1) hl.2
  | cons n d => exact ⟨n, d, content, executable, rfl, hfile⟩

theorem FileTree.Single.exists_file_of_mem (h : t.Single r) {f : Path} (hf : f ∈ t.filesUnder r) :
    ∃ n d content executable, f = Location.path (n :: d) ∧
      t.get? (n :: d) = some (.file content executable) ∧ t.Alone (n :: d) := by
  obtain ⟨n, d, content, executable, rfl, hfile⟩ := FileTree.exists_file_of_mem hf
  exact ⟨n, d, content, executable, rfl, hfile, h _ (FileTree.file_of_path_mem hf).1⟩

/-- Editing files changes no directory and no link. -/
theorem FileTree.Edited.sameWays (h : t.Edited mappings (t.filesUnder r) u) :
    FileTree.SameWays t u := by
  refine .of_isEnd fun l => ?_
  by_cases hl : l.path ∈ t.filesUnder r
  · obtain ⟨-, content, executable, hfile⟩ := FileTree.file_of_path_mem hl
    rw [h.edited l content executable hl hfile, hfile]
    exact Or.inr ⟨by simp, by simp⟩
  · exact Or.inl (h.other l hl)

/-- The totals depend on the numbers of replacements, and not on their order. -/
theorem EditSummary.ofOutcomes_congr {edits edits' : List FileEdit}
    (h : (edits.map (·.replacements)).Perm (edits'.map (·.replacements))) :
    EditSummary.ofOutcomes edits = EditSummary.ofOutcomes edits' := by
  have hlength : edits.length = edits'.length := by simpa using h.length_eq
  have hcount := h.countP_eq (fun count => decide (0 < count))
  rw [List.countP_map, List.countP_map] at hcount
  have hsum := h.sum_nat
  simp only [List.sum_eq_foldr] at hsum
  rw [ofOutcomes, ofOutcomes, hlength, hsum]
  exact congrArg (EditSummary.mk _ · _) hcount

/-- The totals do not depend on the order of the files. -/
theorem EditSummary.ofOutcomes_perm {edits edits' : List FileEdit} (h : edits.Perm edits') :
    EditSummary.ofOutcomes edits = EditSummary.ofOutcomes edits' :=
  ofOutcomes_congr (h.map _)

/-- What editing the files below the directory at `r` amounts to. -/
def FileTree.editSummary (t : FileTree) (mappings : List Mapping) (r : Location) : EditSummary :=
  .ofOutcomes ((t.filesUnder r).map (t.fileEdit mappings))

/-- **The pass over a directory** whose files have one name each edits these files, and reports what
that amounts to. -/
theorem editImports_summary {root : Path} (mappings : List Mapping)
    (hroot : t.canonical host.here root = .ok r.path) (hr : t.get? r = some .directory)
    (hsingle : t.Single r) :
    ∃ u, (editImports root mappings).outcome host t = (.ok (t.editSummary mappings r), u) ∧
      t.Edited mappings (t.filesUnder r) u := by
  obtain ⟨files, hfiles, hperm⟩ := filesBelow_outcome hroot hr
  obtain ⟨u, hrun, hedited⟩ := mapM_editFile_outcome host mappings
    (hperm.nodup_iff.2 (t.filesUnder_nodup r))
    fun f hf => hsingle.exists_file_of_mem (hperm.mem_iff.1 hf)
  refine ⟨u, ?_, hedited.of_perm hperm⟩
  rw [editImports, outcome_bind_ok hfiles, outcome_bind_ok hrun, outcome_pure,
    FileTree.editSummary, EditSummary.ofOutcomes_perm (hperm.map _)]

end DualModule

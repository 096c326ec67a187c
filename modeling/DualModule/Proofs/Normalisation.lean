import DualModule.Proofs.ImportPass
import DualModule.Proofs.RenamePass
import DualModule.TargetRun
import Mathlib.Data.List.Pairwise
/-!
# What normalisation does to a tree

A target that is made loadable from both module systems goes through both passes, and what they do
together is said here of the tree as a whole (`FileTree.Normalised`): every file below the root is
under its new name with its content edited, and nothing else has changed.  For this no file below the
root may have a second name; a file with two names would be edited twice, or change elsewhere.

**The two passes fit together** because a rename stays in the file's directory.  The directories and
links are the same after the renames, so that the second walk starts from the same root and finds
the files that the first one found, under their new names; and what is replaced in a file depends on
its directory and the plan, and not on its name.

## Main Definitions

* `RenamePlan.newPath`
* `FileTree.Normalised`
-/

namespace DualModule

open Attempt

variable {t u v : FileTree} {host : Host} {l k r : Location} {plan : List Mapping}

namespace RenamePlan

/-- Where the plan takes a file: to its new path if it is planned; else it stays. -/
def newPath (plan : List Mapping) (p : Path) : Path :=
  match plan.find? (·.old = p) with
  | some m => m.new
  | none => p

/-- A file is planned, or it stays. -/
theorem newPath_cases (plan : List Mapping) (p : Path) :
    (∃ m ∈ plan, m.old = p ∧ newPath plan p = m.new) ∨
      (∀ m ∈ plan, m.old ≠ p) ∧ newPath plan p = p := by
  cases hfind : plan.find? (·.old = p) with
  | none => exact Or.inr ⟨by simpa using List.find?_eq_none.1 hfind, by rw [newPath, hfind]⟩
  | some m =>
      have hold : m.old = p := by simpa using List.find?_some hfind
      exact Or.inl ⟨m, List.mem_of_find?_eq_some hfind, hold, by rw [newPath, hfind]⟩

theorem newPath_of_notMem {p : Path} (h : ∀ m ∈ plan, m.old ≠ p) : newPath plan p = p := by
  obtain ⟨m, hm, hold, -⟩ | ⟨-, hnew⟩ := newPath_cases plan p
  · exact absurd hold (h m hm)
  · exact hnew

theorem newPath_of_mem (hplan : plan.Pairwise Mapping.Apart) {m : Mapping} (hm : m ∈ plan) :
    newPath plan m.old = m.new := by
  obtain ⟨m', hm', hold, hnew⟩ | ⟨hne, -⟩ := newPath_cases plan m.old
  · have heq : m' = m := by
      by_contra hne
      exact (hplan.forall hm' hm hne).old_ne_old (by rw [hold])
    rw [hnew, heq]
  · exact absurd rfl (hne m hm)

end RenamePlan

/-- **The second tree is the first one normalised** below the directory at `r`. -/
structure FileTree.Normalised (t : FileTree) (r : Location) (plan : List Mapping) (u : FileTree) :
    Prop where
  /-- directories and links are what and where they were -/
  sameWays : FileTree.SameWays t u
  /-- outside the root nothing has changed -/
  outside : ∀ l, ¬ Location.Below r l → u.get? l = t.get? l
  /-- the same locations are names of one file -/
  sameNames : FileTree.SameNames t u
  /-- every file is at the path that the plan has for it.  In text, the replacements have been made
  of the table for the directory that the file was in; what is no text is as it was. -/
  file : ∀ l content executable, Location.Below r l →
    t.get? l = some (.file content executable) →
      ∃ k edited, Location.Below r k ∧ k.path = RenamePlan.newPath plan l.path ∧
        u.get? k = some (.file edited executable) ∧
        edited = match Utf8.decode? content with
          | some text =>
            Utf8.encode (Replacement.apply (Replacement.table l.path.directory plan) text).content
          | none => content
  /-- and no two files are at one path -/
  injective : ∀ l l' : Location, l.path ∈ t.filesUnder r → l'.path ∈ t.filesUnder r →
    RenamePlan.newPath plan l.path = RenamePlan.newPath plan l'.path → l = l'
  /-- there is no other file -/
  only : ∀ k : Location, k.path ∈ u.filesUnder r →
    ∃ l : Location, l.path ∈ t.filesUnder r ∧ k.path = RenamePlan.newPath plan l.path

/-! ### After the renames -/

theorem Location.Below.sibling {n o : FileName} {d : Location} (h : Location.Below r (o :: d)) :
    Location.Below r (n :: d) := by
  rcases List.suffix_cons_iff.1 h.1 with heq | hsuffix
  · exact absurd heq h.2
  · refine ⟨hsuffix.trans (List.suffix_cons _ _), ?_⟩
    rintro rfl
    exact absurd hsuffix.length_le (by simp)

/-- The second tree is the first one with a whole plan carried out, a plan for files below the
directory at `r` whose new places were all free. -/
structure FileTree.Renamed (t : FileTree) (r : Location) (plan : List Mapping) (u : FileTree) :
    Prop where
  renames : ∀ m ∈ plan, ∃ d o n, m.Renames t d o n ∧ Location.Below r (o :: d)
  apart : plan.Pairwise Mapping.Apart
  free : ∀ m ∈ plan, t.get? m.new.location = none
  moved : t.Moved plan u

namespace FileTree.Renamed

/-- Renaming changes no directory and no link. -/
theorem sameWays (h : t.Renamed r plan u) : SameWays t u := by
  refine .of_isEnd fun l => ?_
  have hfile : ∀ m ∈ plan, IsEnd (t.get? m.old.location) := by
    intro m hm
    obtain ⟨d, o, n, hrenames, -⟩ := h.renames m hm
    obtain ⟨content, executable, hfile⟩ := hrenames.file
    rw [hrenames.old_location, hfile]
    exact isEnd_file content executable
  obtain ⟨m, hm, rfl, hu⟩ | ⟨m, hm, rfl, hu⟩ | ⟨-, hu⟩ := h.moved.get?_cases l
  · rw [hu, h.free m hm]
    exact Or.inr ⟨isEnd_none, hfile m hm⟩
  · rw [hu]
    exact Or.inr ⟨hfile m hm, isEnd_none⟩
  · exact Or.inl hu

theorem sameNames (h : t.Renamed r plan u) (hsingle : t.Single r) : t.SameNames u := by
  refine h.moved.names fun m hm => ?_
  obtain ⟨d, o, n, hrenames, hbelow⟩ := h.renames m hm
  rw [hrenames.old_location]
  exact hsingle _ hbelow

theorem outside (h : t.Renamed r plan u) (hl : ¬ Location.Below r l) : u.get? l = t.get? l := by
  refine h.moved.other l fun m hm => ?_
  obtain ⟨d, o, n, hrenames, hbelow⟩ := h.renames m hm
  rw [hrenames.old_location, hrenames.new_location]
  constructor
  · rintro rfl
    exact hl hbelow
  · rintro rfl
    exact hl hbelow.sibling

/-- **A file goes where the plan takes it**, which is in the same directory. -/
theorem file (h : t.Renamed r plan u) {content : Bytes} {executable : Bool}
    (hl : Location.Below r l) (hfile : t.get? l = some (.file content executable)) :
    ∃ k, Location.Below r k ∧ k.path = RenamePlan.newPath plan l.path ∧
      k.path.directory = l.path.directory ∧ u.get? k = some (.file content executable) := by
  obtain ⟨m, hm, hold, hnew⟩ | ⟨hne, hnew⟩ := RenamePlan.newPath_cases plan l.path
  · obtain ⟨d, o, n, hrenames, hbelow⟩ := h.renames m hm
    obtain rfl := Location.path_injective (hold.symm.trans hrenames.old)
    refine ⟨n :: d, hbelow.sibling, ?_, ?_, ?_⟩
    · rw [hnew, hrenames.new]
    · rw [directory_path, directory_path]
    · rw [← hrenames.new_location, h.moved.new m hm, hrenames.old_location, hfile]
  · have hstays : u.get? l = t.get? l := by
      refine h.moved.other l fun m hm => ?_
      constructor
      · obtain ⟨d, o, n, hrenames, -⟩ := h.renames m hm
        rintro rfl
        exact hne m hm (by rw [hrenames.old_location, hrenames.old])
      · rintro rfl
        rw [h.free m hm] at hfile
        cases hfile
    exact ⟨l, hl, hnew.symm, rfl, hstays.trans hfile⟩

/-- **No two files go to one place.** -/
theorem injective (h : t.Renamed r plan u) {k l : Location} (hk : k.path ∈ t.filesUnder r)
    (hl : l.path ∈ t.filesUnder r)
    (heq : RenamePlan.newPath plan k.path = RenamePlan.newPath plan l.path) : k = l := by
  have hstays : ∀ m ∈ plan, ∀ l : Location, l.path ∈ t.filesUnder r → m.new ≠ l.path := by
    intro m hm l hl hnew
    obtain ⟨-, content, executable, hfile⟩ := file_of_path_mem hl
    have hfree := h.free m hm
    rw [hnew, Location.location_path, hfile] at hfree
    cases hfree
  obtain ⟨m, hm, hmk, hnewk⟩ | ⟨-, hnewk⟩ := RenamePlan.newPath_cases plan k.path
  · -- both are planned, or the new path of one would be the path of the other
    obtain ⟨m', hm', hml, hnewl⟩ | ⟨-, hnewl⟩ := RenamePlan.newPath_cases plan l.path
    · have hmm : m = m' := by
        by_contra hne
        exact (h.apart.forall hm hm' hne).new_ne_new (by rw [← hnewk, heq, hnewl])
      exact Location.path_injective (hmk.symm.trans (hmm ▸ hml))
    · exact absurd (hnewk.symm.trans (heq.trans hnewl)) (hstays m hm l hl)
  · obtain ⟨m', hm', -, hnewl⟩ | ⟨-, hnewl⟩ := RenamePlan.newPath_cases plan l.path
    · exact absurd (hnewl.symm.trans (heq.symm.trans hnewk)) (hstays m' hm' k hk)
    · exact Location.path_injective (hnewk.symm.trans (heq.trans hnewl))

/-- **There is no other file.** -/
theorem only (h : t.Renamed r plan u) {k : Location} (hk : k.path ∈ u.filesUnder r) :
    ∃ l : Location, l.path ∈ t.filesUnder r ∧ k.path = RenamePlan.newPath plan l.path := by
  obtain ⟨hbelow, content, executable, hfile⟩ := file_of_path_mem hk
  obtain ⟨m, hm, rfl, hu⟩ | ⟨m, hm, rfl, hu⟩ | ⟨hne, hu⟩ := h.moved.get?_cases k
  · obtain ⟨d, o, n, hrenames, hold⟩ := h.renames m hm
    refine ⟨o :: d, ?_, ?_⟩
    · rw [hfile, hrenames.old_location] at hu
      exact path_mem_filesUnder hold hu.symm
    · rw [← hrenames.old, RenamePlan.newPath_of_mem h.apart hm, hrenames.new,
        Location.location_path]
  · rw [hu] at hfile
    cases hfile
  · refine ⟨k, path_mem_filesUnder hbelow (hu ▸ hfile), (RenamePlan.newPath_of_notMem ?_).symm⟩
    intro m hm heq
    exact (hne m hm).1 (by rw [heq, Location.location_path])

end FileTree.Renamed

/-! ### Both passes -/

/-- What editing makes of content. -/
theorem editContent_fst (plan : List Mapping) (file : Path) (content : Bytes) :
    (editContent plan file content).1 = match Utf8.decode? content with
      | some text => Utf8.encode (Replacement.apply (Replacement.table file.directory plan) text).content
      | none => content := by
  rw [editContent]
  cases Utf8.decode? content <;> rfl

/-- **Renaming and then editing** is normalising. -/
theorem FileTree.Renamed.normalised (h : t.Renamed r plan u) (hsingle : t.Single r)
    (hedited : u.Edited plan (u.filesUnder r) v) : t.Normalised r plan v := by
  have hfiles : ∀ k : Location, k.path ∈ v.filesUnder r → k.path ∈ u.filesUnder r := by
    intro k hk
    obtain ⟨hbelow, content, executable, hfile⟩ := file_of_path_mem hk
    by_contra hne
    rw [hedited.other k hne] at hfile
    exact hne (path_mem_filesUnder hbelow hfile)
  refine ⟨h.sameWays.trans hedited.sameWays, ?_, (h.sameNames hsingle).trans hedited.names, ?_,
    fun k l => h.injective, ?_⟩
  · intro l hl
    have hmem : l.path ∉ u.filesUnder r := by
      intro hmem
      exact hl (file_of_path_mem hmem).1
    rw [hedited.other l hmem, h.outside hl]
  · intro l content executable hl hfile
    -- what is replaced depends on the directory, which is the same under the new name
    obtain ⟨k, hk, hpath, hdirectory, hfile'⟩ := h.file hl hfile
    exact ⟨k, _, hk, hpath, hedited.edited k content executable (path_mem_filesUnder hk hfile')
      hfile', by rw [editContent_fst, hdirectory]⟩
  · intro k hk
    exact h.only (hfiles k hk)

/-! ### The run of a target -/

/-- A rename pass over a directory that succeeds has carried its whole plan out. -/
theorem renamed_of_directory {root : Path} {rules : List RenameRule}
    (hrules : ∀ rule ∈ rules, '/' ∉ rule.replacementSuffix)
    (hroot : t.canonical host.here root = .ok r.path) (hr : t.get? r = some .directory)
    (hrun : (renameBelow root rules).outcome host t = (.ok plan, u)) :
    plan = RenamePlan.of (t.filesUnder r) rules ∧ t.Renamed r plan u := by
  obtain ⟨-, e, hrun'⟩ | ⟨haccepted, done, rest, u', hplan, hdone, hrest, hmoved, hrun'⟩ :=
    renameBelow_outcome hrules hroot hr
  · cases hrun.symm.trans hrun'
  · cases rest with
    | cons taken rest => cases hrun.symm.trans hrun'
    | nil =>
        obtain ⟨hresult, rfl⟩ := Prod.mk.inj (hrun.symm.trans hrun')
        rw [List.append_nil] at hplan
        cases hresult
        refine ⟨rfl, ?_, (haccepted.ready hrules).apart, ?_, hplan ▸ hmoved⟩
        · intro m hm
          obtain ⟨d, o, n, hrenames, hbelow, -⟩ := haccepted.renames hrules hm
          exact ⟨d, o, n, hrenames, hbelow⟩
        · intro m hm
          exact hdone m (hplan ▸ hm)

/-- A rename pass that succeeds was over a directory. -/
theorem renamed_of_renameBelow {root : Path} {rules : List RenameRule}
    (hhere : t.get? host.here = some .directory)
    (hrules : ∀ rule ∈ rules, '/' ∉ rule.replacementSuffix)
    (hrun : (renameBelow root rules).outcome host t = (.ok plan, u)) :
    ∃ r, t.canonical host.here root = .ok (Location.path r) ∧ t.get? r = some .directory ∧
      plan = RenamePlan.of (t.filesUnder r) rules ∧ t.Renamed r plan u := by
  by_cases hdir : ∃ r, t.canonical host.here root = .ok (Location.path r) ∧
      t.get? r = some .directory
  · obtain ⟨r, hroot, hr⟩ := hdir
    exact ⟨r, hroot, hr, renamed_of_directory hrules hroot hr hrun⟩
  · obtain ⟨p, cause, hrun'⟩ := renameBelow_outcome_error rules hhere
      fun r hroot hr => hdir ⟨r, hroot, hr⟩
    cases hrun.symm.trans hrun'

/-- A module, its importer, a link to the module's old name, and a file that is no text. -/
def smallTree : FileTree :=
  .ofEntries [("/t/a_pb.js", .file [0x61] true),
    ("/t/d/b.js", .file (Utf8.encode "import '../a_pb.js';".toList) false),
    ("/t/d/c_pb.js", .link (.ofText "../a_pb.js".toList)), ("/t/d/e", .file [0xFF] false)]

end DualModule

import DualModule.Proofs.ConfinedWays
import DualModule.Proofs.Normalisation
import DualModule.Proofs.Regions
import DualModule.TargetWays
/-!
# Passes that keep to a directory

Both passes over a directory without links, whose files have one name each, keep to what is below
it, in whichever way they are made, as long as others leave directories and links alone and new files
appear only at places of their own (`renameBelowWays_alike`, `editImportsWays_alike`).  The way to
the directory leads through what belongs to nobody, and is kept by everybody.

**What is under way together** within a pass keeps to smaller regions: a walk below a directory to
what is below this directory, an edit to one file.  So the ways of a pass all come to the same.

The proofs follow the runs of the passes alone: a request is confined to the region on the tree on
which it is made, and what the earlier requests have made of that tree is known from the outcomes.

## Main Definitions

* `Location.inside`
* `Mapping.Within`
* `FileTree.LinkFree`
-/

namespace DualModule

open Attempt

variable {host : Host} {places : Set Location} {t u : FileTree} {n o : FileName}
variable {d l r : Location} {root : Path} {plan : List Mapping}

/-- What is below a directory. -/
def Location.inside (r : Location) : Set Location := {l | Location.Below r l}

theorem Location.inside_subset (h : Location.Below r d) : d.inside ⊆ r.inside :=
  fun _ hl => h.trans hl

/-- Two names of one directory have nothing inside in common. -/
theorem Location.disjoint_inside (h : n ≠ o) :
    Disjoint (Location.inside (n :: d)) (Location.inside (o :: d)) :=
  Set.disjoint_left.2 fun _ hn ho => h (Location.eq_of_below hn.1 ho.1)

/-! ### Walks -/

/-- **Walks below different directories** look at different places, so that it does not show in
which order they list them. -/
theorem walkBelowWays_alike {levels : Nat} (hd : t.get? d = some .directory)
    (hlevels : maxPathLength ≤ levels + d.length) :
    (walkBelowWays levels d.path).Alike host (.ends places) d.inside t
      (walkBelow levels d.path) := by
  induction levels generalizing d with
  | zero => exact AttemptWays.alike_only (confined_throw _)
  | succ levels ih =>
      obtain ⟨entries, hlist, hlevel⟩ := FileTree.exists_listing host hd
      have hconfined : (Procedure.request (.list d.path)).Confined host (.ends places) d.inside t :=
        Procedure.confined_request (.list hd fun n => Location.below_cons n d)
      unfold walkBelowWays walkBelow
      refine (AttemptWays.alike_only (confined_explained hconfined _)).bind_ok
        (outcome_explained hlist _) ?_
      have hnested : ∀ n, maxPathLength ≤ levels + (n :: d : Location).length := by
        intro n
        rw [List.length_cons]
        omega
      refine (AttemptWays.alike_together (fun f => f.path.location.inside) ?_ ?_ ?_ ?_ ?_).bind
        fun _ _ => AttemptWays.alike_pure _
      · refine (hlevel.nodup.filter _).imp_of_mem fun {f g} hf hg hne => ?_
        obtain ⟨n, -, rfl⟩ := hlevel.exists_name_of_mem hf
        obtain ⟨m, -, rfl⟩ := hlevel.exists_name_of_mem hg
        rw [Location.location_path, Location.location_path]
        refine Location.disjoint_inside ?_
        rintro rfl
        exact hne rfl
      · intro f hf
        obtain ⟨n, -, rfl⟩ := hlevel.exists_name_of_mem hf
        rw [Location.location_path]
        exact Location.inside_subset (Location.below_cons n d)
      · exact fun f _ => walkBelowWays_has levels f.path
      · intro f hf
        obtain ⟨n, hn, rfl⟩ := hlevel.exists_name_of_mem hf
        rw [Location.location_path]
        exact ih hn (hnested n)
      · intro f hf
        obtain ⟨n, hn, rfl⟩ := hlevel.exists_name_of_mem hf
        obtain ⟨nested, hrun, -⟩ := walkBelow_outcome host hn (hnested n)
        exact ⟨nested, t, hrun⟩

section Root

variable (hroot : t.canonical host.here root = .ok r.path) (hr : t.get? r = some .directory)
include hroot hr

/-- The way to a directory is kept by everybody. -/
theorem canonicalizeWays_alike :
    (AttemptWays.only (explained (.request (.canonicalize root)) (PassError.traversal root))).Alike
      host (.ends places) r.inside t
      (explained (.request (.canonicalize root)) (PassError.traversal root)) := by
  have hconfined : (Procedure.request (.canonicalize root)).Confined host (.ends places)
      r.inside t := Procedure.confined_request (.canonicalize hroot hr)
  exact AttemptWays.alike_only (confined_explained hconfined _)

/-- **A walk** looks at what is below the root and nothing else. -/
theorem walkWays_alike :
    (walkWays root).Alike host (.ends places) r.inside t (walk root) :=
  (canonicalizeWays_alike hroot hr).bind_ok (outcome_canonicalize hroot)
    (walkBelowWays_alike hr (Nat.le_add_right _ _))

/-- So does one for files. -/
theorem filesBelowWays_alike :
    (filesBelowWays root).Alike host (.ends places) r.inside t (filesBelow root) :=
  (walkWays_alike hroot hr).bind fun _ _ => AttemptWays.alike_pure _

end Root

/-! ### The check of a plan -/

theorem Mapping.requireFree_confined {m : Mapping} (hm : m.new = Location.path (n :: d))
    (hd : t.get? d = some .directory) (hl : n :: d ∈ r.inside)
    (hlink : ∀ target, t.get? (n :: d) ≠ some (.link target)) :
    m.requireFree.Confined host (.ends places) r.inside t := by
  have hconfined : (Procedure.request (.test m.new)).Confined host (.ends places) r.inside t :=
    Procedure.confined_request (hm ▸ .test hd hl hlink)
  refine (confined_explained hconfined _).bind fun taken u => ?_
  cases taken with
  | true => exact confined_throw _
  | false => exact confined_pure _

theorem RenamePlan.checkFrom_confined {claimed ms : List Mapping}
    (h : ∀ m ∈ ms, m.requireFree.Confined host (.ends places) r.inside t) :
    (checkFrom claimed ms).Confined host (.ends places) r.inside t := by
  induction ms generalizing claimed with
  | nil => exact confined_pure _
  | cons m ms ih =>
      rw [checkFrom]
      cases claimed.find? fun c => c.new.Same m.new with
      | some first => exact confined_throw _
      | none =>
          -- the test leaves the tree alone, whatever the answer is
          have hm := h m List.mem_cons_self
          obtain ⟨-, hrun⟩ | ⟨e, -, hrun⟩ := m.requireFree_outcome host t
          · exact hm.bind_ok hrun (ih fun m' hm' => h m' (List.mem_cons_of_mem _ hm'))
          · exact hm.bind_error hrun

/-! ### Renames -/

/-- The mapping is between two places below a directory. -/
structure Mapping.Within (m : Mapping) (r : Location) (places : Set Location) : Prop where
  old_inside : m.old.location ∈ r.inside
  new_inside : m.new.location ∈ r.inside
  old_place : m.old.location ∈ places
  new_place : m.new.location ∈ places

theorem Mapping.Renames.perform_confined {m : Mapping} (h : m.Renames t d o n)
    (hfree : t.get? (n :: d) = none) (halone : t.Alone (o :: d)) (hm : m.Within r places) :
    m.perform.Confined host (.ends places) r.inside t := by
  obtain ⟨hold, hnew, holdPlace, hnewPlace⟩ := hm
  rw [h.old_location] at hold holdPlace
  rw [h.new_location] at hnew hnewPlace
  obtain ⟨content, executable, hfile⟩ := h.file
  obtain ⟨v, u, content', executable', hlink, hvfile, hlinked, hunlink, -⟩ :=
    h.link_then_unlink host hfree
  -- in between the file has two names, both of them inside
  have htwins : ∀ k, v.Twin (o :: d) k → k ∈ r.inside := by
    intro k hk
    rcases (hlinked.twin_iff halone _ _).1 hk with hk | ⟨-, rfl⟩ | ⟨-, rfl⟩
    · exact absurd hk (halone k)
    · exact hnew
    · exact hold
  have hlinkConfined : (Procedure.request (.link m.old m.new)).Confined host (.ends places)
      r.inside t := by
    rw [h.old, h.new]
    exact Procedure.confined_request (.link hfile halone hfree h.addressable hold hnew hnewPlace)
  have hunlinkConfined : (Procedure.request (.unlink m.old)).Confined host (.ends places)
      r.inside v := by
    rw [h.old]
    exact Procedure.confined_request (.unlink hvfile htwins hold holdPlace)
  refine (confined_explained hlinkConfined _).bind_ok (outcome_explained hlink _) ?_
  exact (confined_lift hunlinkConfined).bind_ok (outcome_lift hunlink) (confined_pure _)

theorem RenamePlan.forM_perform_confined {ms : List Mapping} (h : Ready t ms)
    (hfree : ∀ m ∈ ms, t.get? m.new.location = none) (hsingle : t.Single r)
    (hms : ∀ m ∈ ms, m.Within r places) :
    (ms.forM Mapping.perform).Confined host (.ends places) r.inside t := by
  induction ms generalizing t with
  | nil => exact confined_pure _
  | cons m ms ih =>
      obtain ⟨d, o, n, hm⟩ := h.renames m List.mem_cons_self
      have hplace : t.get? (n :: d) = none := hm.new_location ▸ hfree m List.mem_cons_self
      have halone : t.Alone m.old.location := hsingle _ (hms m List.mem_cons_self).old_inside
      obtain ⟨u, hrun, hmoved⟩ := hm.perform_outcome host hplace
      obtain ⟨hready, hnew⟩ := h.of_moved hmoved
      have hnames := hmoved.names (by simpa using halone)
      refine (hm.perform_confined hplace (hm.old_location ▸ halone)
        (hms m List.mem_cons_self)).bind_ok hrun ?_
      refine ih hready ?_ (hnames.single_iff.2 hsingle) fun m' hm' =>
        hms m' (List.mem_cons_of_mem _ hm')
      intro m' hm'
      rw [hnew m' hm']
      exact hfree m' (List.mem_cons_of_mem _ hm')

/-! ### The rename pass -/

/-- A directory that has no links below it. -/
structure FileTree.LinkFree (t : FileTree) (r : Location) : Prop where
  directory : t.get? r = some .directory
  noLink : ∀ l ∈ r.inside, ∀ target, t.get? l ≠ some (.link target)

theorem FileTree.linkFree_iff : t.LinkFree r ↔ t.get? r = some .directory ∧
    ∀ entry ∈ t.nodes.toList, Location.Below r entry.1 → entry.2.kind ≠ .link := by
  constructor
  · rintro ⟨hr, hlink⟩
    refine ⟨hr, ?_⟩
    rintro ⟨l, node⟩ hentry hl hkind
    cases node with
    | directory => cases hkind
    | file content executable => cases hkind
    | link target =>
        exact hlink l hl target (Std.ExtTreeMap.mem_toList_iff_getElem?_eq_some.1 hentry)
  · rintro ⟨hr, hkind⟩
    refine ⟨hr, fun l hl target hlink => ?_⟩
    exact hkind (l, .link target) (Std.ExtTreeMap.mem_toList_iff_getElem?_eq_some.2 hlink) hl rfl

instance (t : FileTree) (r : Location) : Decidable (t.LinkFree r) :=
  decidable_of_iff _ FileTree.linkFree_iff.symm

/-- A dual-module mapping for a file of a directory exchanges one name for another. -/
theorem RenamePlan.exists_names_of_mem {m : Mapping}
    (hm : m ∈ RenamePlan.of (t.filesUnder r) RenameRule.dualModule) :
    ∃ d o n, m.old = Location.path (o :: d) ∧ m.new = Location.path (n :: d) ∧
      o :: d ∈ r.inside ∧ t.get? d = some .directory := by
  obtain ⟨f, hf, hmapping⟩ := mem_of_iff.1 hm
  obtain ⟨o, d, content, executable, rfl, hfile⟩ := FileTree.exists_file_of_mem hf
  obtain ⟨rule, hrule, o', base, hname, htext, rfl⟩ := Mapping.exists_rule_of_ofFile? hmapping
  obtain rfl : o = o' := Option.some.inj ((Location.fileName?_path o d).symm.trans hname)
  have hproper : FileName.Proper (Utf8.encode (base ++ rule.replacementSuffix)) :=
    RenameRule.proper_renamed hrule (FileName.slash_notMem_text htext)
      (RenameRule.renamed?_eq_some_iff.2 ⟨base, rfl, rfl⟩)
  exact ⟨d, o, ⟨_, hproper⟩, rfl, Location.withFileName_path o d _,
    (FileTree.file_of_path_mem hf).1, FileTree.parent_of_eq_some hfile⟩

/-- What the rename pass does with its plan keeps to the directory, if files may appear and disappear
at the places of the plan. -/
theorem RenamePlan.carryOut_confined (ht : t.LinkFree r) (hsingle : t.Single r)
    (hplaces : ∀ m ∈ RenamePlan.of (t.filesUnder r) RenameRule.dualModule,
      m.old.location ∈ places ∧ m.new.location ∈ places) :
    (carryOut (RenamePlan.of (t.filesUnder r) RenameRule.dualModule)).Confined host (.ends places)
      r.inside t := by
  have hrules : ∀ rule ∈ RenameRule.dualModule, '/' ∉ rule.replacementSuffix := by decide
  have hwithin : ∀ m ∈ RenamePlan.of (t.filesUnder r) RenameRule.dualModule,
      m.Within r places := by
    intro m hm
    obtain ⟨d, o, n, hold, hnew, hinside, -⟩ := RenamePlan.exists_names_of_mem hm
    obtain ⟨holdPlace, hnewPlace⟩ := hplaces m hm
    refine ⟨?_, ?_, holdPlace, hnewPlace⟩
    · rw [hold, Location.location_path]
      exact hinside
    · rw [hnew, Location.location_path]
      exact Location.Below.sibling hinside
  have hfree : ∀ m ∈ RenamePlan.of (t.filesUnder r) RenameRule.dualModule,
      m.requireFree.Confined host (.ends places) r.inside t := by
    intro m hm
    obtain ⟨d, o, n, -, hnew, hinside, hd⟩ := RenamePlan.exists_names_of_mem hm
    have hsibling : n :: d ∈ r.inside := Location.Below.sibling hinside
    exact Mapping.requireFree_confined hnew hd hsibling (ht.noLink _ hsibling)
  obtain ⟨result, hcheck, hresult⟩ := RenamePlan.check_outcome host t
    (RenamePlan.of (t.filesUnder r) RenameRule.dualModule)
  have hchecked : (RenamePlan.check (RenamePlan.of (t.filesUnder r)
      RenameRule.dualModule)).Confined host (.ends places) r.inside t :=
    RenamePlan.checkFrom_confined hfree
  unfold carryOut
  cases result with
  | error e => exact hchecked.bind_error hcheck
  | ok _ =>
      have haccepted := hresult.1 rfl
      refine hchecked.bind_ok hcheck ?_
      -- where a test finds nothing there is nothing, since there are no links
      have hvacant : ∀ m ∈ RenamePlan.of (t.filesUnder r) RenameRule.dualModule,
          t.get? m.new.location = none := by
        intro m hm
        obtain ⟨-, -, -, -, -, hnone | ⟨target, hlink⟩⟩ := haccepted.renames hrules hm
        · exact hnone
        · exact absurd hlink (ht.noLink _ (hwithin m hm).new_inside target)
      exact (RenamePlan.forM_perform_confined (haccepted.ready hrules) hvacant hsingle
        hwithin).bind fun _ _ => confined_pure _

/-- **The rename pass** over a directory without links keeps to what is below it, if files may appear
and disappear at the places of its plan. -/
theorem renameBelowWays_alike (hroot : t.canonical host.here root = .ok r.path)
    (ht : t.LinkFree r) (hsingle : t.Single r)
    (hplaces : ∀ m ∈ RenamePlan.of (t.filesUnder r) RenameRule.dualModule,
      m.old.location ∈ places ∧ m.new.location ∈ places) :
    (renameBelowWays root RenameRule.dualModule).Alike host (.ends places) r.inside t
      (renameBelow root RenameRule.dualModule) := by
  obtain ⟨files, hfiles, hperm⟩ := filesBelow_outcome hroot ht.directory
  refine (filesBelowWays_alike hroot ht.directory).bind_ok hfiles ?_
  rw [RenamePlan.of_filesBelow hperm]
  exact AttemptWays.alike_only (RenamePlan.carryOut_confined ht hsingle hplaces)

/-! ### The import pass -/

/-- **The import pass** over a directory keeps to what is below it, and it does not show in which
order the files are edited. -/
theorem editImportsWays_alike (hroot : t.canonical host.here root = .ok r.path)
    (hr : t.get? r = some .directory) (hsingle : t.Single r) :
    (editImportsWays root plan).Alike host (.ends places) r.inside t (editImports root plan) := by
  obtain ⟨files, hrun, hperm⟩ := filesBelow_outcome hroot hr
  have hfiles : ∀ f ∈ files, ∃ n d content executable, f = Location.path (n :: d) ∧
      n :: d ∈ r.inside ∧ t.get? (n :: d) = some (.file content executable) := by
    intro f hf
    obtain ⟨n, d, content, executable, rfl, hfile⟩ :=
      FileTree.exists_file_of_mem (hperm.mem_iff.1 hf)
    exact ⟨n, d, content, executable, rfl, (FileTree.file_of_path_mem (hperm.mem_iff.1 hf)).1,
      hfile⟩
  refine (filesBelowWays_alike hroot hr).bind_ok hrun ?_
  refine (AttemptWays.alike_together (fun f => {f.location}) ?_ ?_ ?_ ?_ ?_).bind
    fun _ _ => AttemptWays.alike_pure _
  · refine Location.pairwise_disjoint (hperm.nodup_iff.2 (t.filesUnder_nodup r)) fun f hf => ?_
    obtain ⟨n, d, -, -, rfl, -⟩ := hfiles f hf
    exact ⟨n :: d, rfl⟩
  · intro f hf
    obtain ⟨n, d, -, -, rfl, hl, -⟩ := hfiles f hf
    rintro _ rfl
    rw [Location.location_path]
    exact hl
  · exact fun f _ => AttemptWays.has_only _
  · intro f hf
    obtain ⟨n, d, content, executable, rfl, hl, hfile⟩ := hfiles f hf
    rw [Location.location_path]
    refine AttemptWays.alike_only (editFile_confined plan hfile (hsingle _ hl) rfl fun new => ?_)
    exact Or.inr ⟨FileTree.isEnd_file _ _, FileTree.isEnd_file _ _, Or.inl rfl⟩
  · intro f hf
    obtain ⟨n, d, content, executable, rfl, -, hfile⟩ := hfiles f hf
    exact ⟨_, _, editFile_outcome host plan hfile⟩

end DualModule

import DualModule.Proofs.AnyWay
import DualModule.Proofs.Table
/-!
# Where a tree is does not matter

Below two roots that have nothing in common there may be copies of one tree.  Normalising leaves
copies of one tree again, renames the same files in the same order and counts the same replacements,
in whichever ways it is done (`Target.run_relocated`).

**Each part of a plan is relative.**  A mapping of a file below a root is a `RelativeRename`, put
under that root: its names lie strictly below the root, so that the root is a common beginning of
every stem and every directory.  The order of paths does not see a common beginning
(`Location.le_path_append`), and a relative specifier does not go up beyond it
(`Specifier.parts_append`).  The table of a directory is therefore the one that it would have at
the root of the file system (`RelativeRename.table_under`).

## Main Definitions

* `FileTree.SameBelow`, `FileTree.Copies`
* `RelativeRename`
-/

namespace DualModule

open Attempt

variable {t t' u u' v v' : FileTree} {host host' : Host} {n : FileName} {e l r r' : Location}
variable {plan plan' : List Mapping}

/-! ### A common beginning -/

namespace Location

theorem components_path_append (e r : Location) :
    (path (e ++ r)).components = (path r).components ++ e.reverse.map .name := by
  simp [components_path]

theorem below_iff_append : Below r l ↔ ∃ e, e ≠ [] ∧ l = e ++ r := by
  constructor
  · rintro ⟨⟨e, rfl⟩, hne⟩
    refine ⟨e, ?_, rfl⟩
    rintro rfl
    exact hne rfl
  · rintro ⟨e, he, rfl⟩
    refine ⟨List.suffix_append e r, ?_⟩
    intro heq
    exact he (List.self_eq_append_left.1 heq)

end Location

theorem compare_append_left (cs as bs : List Component) :
    compare (cs ++ as) (cs ++ bs) = compare as bs := by
  induction cs with
  | nil => rfl
  | cons c cs ih =>
      have hself : compare c c = .eq := Std.ReflCmp.compare_self
      show List.compareLex compare (c :: (cs ++ as)) (c :: (cs ++ bs)) = _
      rw [List.compareLex_cons_cons, hself]
      exact ih

/-- **The order of paths** does not see a common beginning. -/
theorem Location.le_path_append (a b r : Location) :
    (path (a ++ r)).le (path (b ++ r)) = (path a).le (path b) := by
  have hroot : ∀ e : Location, e.path.components = [.root] ++ e.reverse.map .name := components_path
  rw [Path.le, Path.le, components_path_append, components_path_append, compare_append_left,
    hroot a, hroot b, compare_append_left]

namespace Specifier

theorem commonLength_append (cs as bs : List Component) :
    commonLength (cs ++ as) (cs ++ bs) = cs.length + commonLength as bs := by
  induction cs with
  | nil => simp
  | cons c cs ih =>
      simp only [List.cons_append, commonLength, if_true, ih, List.length_cons]
      omega

/-- **A relative specifier** does not go up beyond a common beginning. -/
theorem parts_append (cs as bs : List Component) : parts (cs ++ as) (cs ++ bs) = parts as bs := by
  have hlength : cs.length + as.length - (cs.length + commonLength as bs) =
      as.length - commonLength as bs := by omega
  have hdrop : cs.drop (cs.length + commonLength as bs) = [] := List.drop_of_length_le (by omega)
  simp only [parts, commonLength_append, List.length_append, hlength, List.drop_append, hdrop,
    Nat.add_sub_cancel_left, List.nil_append]

end Specifier

/-! ### Stems -/

/-- The components that are left of a name when `suffix` is taken off it. -/
def FileName.without (n : FileName) (suffix : Text) : List Component :=
  match n.text?.bind (dropSuffix? suffix) with
  | some stem => Component.ofBytes (Utf8.encode stem)
  | none => [.name n]

theorem Location.components_dropNameSuffix (n : FileName) (d : Location) (suffix : Text) :
    ((path (n :: d)).dropNameSuffix suffix).components =
      d.path.components ++ n.without suffix := by
  have hname := fileName?_path n d
  rw [Path.dropNameSuffix, hname, Option.bind_some, FileName.without]
  cases hstem : n.text?.bind (dropSuffix? suffix) with
  | none => exact Path.components_child _ n
  | some stem =>
      obtain ⟨text, htext, hdrop⟩ := Option.bind_eq_some_iff.1 hstem
      obtain rfl := dropSuffix?_eq_some_iff.1 hdrop
      have hslash : slash ∉ Utf8.encode stem := by
        intro hmem
        exact FileName.slash_notMem_text htext
          (List.mem_append_left _ ((Utf8.mem_encode_iff (b := slash) (by decide)).1 hmem))
      show ((path (n :: d)).withFileName (Utf8.encode stem)).components = _
      rw [withFileName_path, Path.components_push (isAbsolute_path d) (Path.head?_ne_slash hslash)]

/-! ### Relative renames -/

/-- A rename of a file below a root, as it is seen from there. -/
structure RelativeRename where
  old : Location
  new : Location
  rule : RenameRule

namespace RelativeRename

variable {x : RelativeRename} {renames : List RelativeRename}

/-- The rename below the directory at `r`. -/
def under (r : Location) (x : RelativeRename) : Mapping :=
  ⟨(x.old ++ r).path, (x.new ++ r).path, x.rule⟩

@[simp] theorem old_location_under (r : Location) (x : RelativeRename) :
    (x.under r).old.location = x.old ++ r := Location.location_path _

@[simp] theorem new_location_under (r : Location) (x : RelativeRename) :
    (x.under r).new.location = x.new ++ r := Location.location_path _

/-- The rename is made for a file, and it is the same one below any root. -/
structure Dual (x : RelativeRename) : Prop where
  old_ne_nil : x.old ≠ []
  ofFile? : ∀ r, Mapping.ofFile? RenameRule.dualModule (x.old ++ r).path = some (x.under r)

/-- **Whether and how a file is renamed** does not depend on the root that it is below. -/
theorem exists_ofFile? (he : e ≠ []) : ∃ x? : Option RelativeRename,
    (∀ x ∈ x?, x.Dual) ∧
      ∀ r, Mapping.ofFile? RenameRule.dualModule (e ++ r).path = x?.map (under r) := by
  obtain ⟨n, d, rfl⟩ := List.exists_cons_of_ne_nil he
  have hname : ∀ r, (Location.path (n :: d ++ r)).fileName? = some n :=
    fun r => Location.fileName?_path n (d ++ r)
  cases htext : n.text? with
  | none =>
      refine ⟨none, by simp, fun r => ?_⟩
      rw [Mapping.ofFile?, hname, Option.bind_some, htext]
      rfl
  | some name =>
      -- which rule applies is a question about the name alone
      let first? := RenameRule.dualModule.findSome? fun rule => (rule.renamed? name).map (rule, ·)
      have hfile : ∀ r, Mapping.ofFile? RenameRule.dualModule (Location.path (n :: d ++ r)) =
          first?.map fun found => ⟨Location.path (n :: d ++ r),
            (Location.path (d ++ r)).push (Utf8.encode found.2), found.1⟩ := by
        intro r
        rw [Mapping.ofFile?, hname, Option.bind_some, htext, Option.bind_some, List.map_findSome?]
        refine congrArg (List.findSome? · _) (funext fun rule => ?_)
        rw [Mapping.ofRule?, List.cons_append]
        simp only [Location.withFileName_path, Function.comp_apply, Option.map_map]
        rfl
      cases hfirst : first? with
      | none =>
          refine ⟨none, by simp, fun r => ?_⟩
          rw [hfile, hfirst]
          rfl
      | some found =>
          obtain ⟨rule, hrule, hfound⟩ := List.exists_of_findSome?_eq_some hfirst
          obtain ⟨new, hnew, rfl⟩ := Option.map_eq_some_iff.1 hfound
          let k : FileName := ⟨Utf8.encode new,
            RenameRule.proper_renamed hrule (FileName.slash_notMem_text htext) hnew⟩
          have hunder : ∀ r, Mapping.ofFile? RenameRule.dualModule (Location.path (n :: d ++ r)) =
              some (under r ⟨n :: d, k :: d, rule⟩) := by
            intro r
            rw [hfile, hfirst]
            rfl
          refine ⟨some ⟨n :: d, k :: d, rule⟩, ?_, hunder⟩
          rintro x ⟨⟩
          exact ⟨List.cons_ne_nil n d, hunder⟩

/-- The stem of a rename lies below the root, wherever that is. -/
theorem relative_oldStem (hx : x.Dual) (e r : Location) :
    Specifier.relative (e ++ r).path (x.under r).oldStem =
      Specifier.relative e.path (x.under []).oldStem := by
  obtain ⟨n, d, hold⟩ := List.exists_cons_of_ne_nil hx.old_ne_nil
  have hstem : ∀ r, (x.under r).oldStem.components =
      (Location.path r).components ++ (d.reverse.map .name ++ n.without x.rule.oldExtension) := by
    intro r
    rw [Mapping.oldStem, under, hold, List.cons_append, Location.components_dropNameSuffix,
      Location.components_path_append, List.append_assoc]
  have hdirectory : e.path.components = (Location.path []).components ++ e.reverse.map .name := by
    rw [← Location.components_path_append, List.append_nil]
  simp only [Specifier.relative, hstem, Location.components_path_append e r, hdirectory,
    Specifier.parts_append]

theorem candidates_under (hx : x.Dual) (e r : Location) :
    Replacement.candidates (e ++ r).path (x.under r) =
      Replacement.candidates e.path (x.under []) := by
  obtain ⟨_, hdual⟩ := Mapping.dual_of_ofFile? (hx.ofFile? r)
  obtain ⟨_, hdual'⟩ := Mapping.dual_of_ofFile? (hx.ofFile? [])
  simp only [Replacement.candidates, hdual.relative_newStem, hdual'.relative_newStem,
    relative_oldStem hx]
  rfl

/-- **The table of a directory** is the one that it would have at the root of the file system. -/
theorem table_under (h : ∀ x ∈ renames, x.Dual) (e r : Location) :
    Replacement.table (e ++ r).path (renames.map (under r)) =
      Replacement.table e.path (renames.map (under [])) := by
  rw [Replacement.table, Replacement.table, List.flatMap_map, List.flatMap_map]
  refine congrArg (Replacement.keepUnseen ∅) (List.flatMap_congr fun x hx => ?_)
  exact candidates_under (h x hx) e r

end RelativeRename

/-! ### Plans -/

theorem insertOrdered_map {α β : Type} {le : α → α → Bool} {le' : β → β → Bool} {f : α → β}
    (h : ∀ a b, le' (f a) (f b) = le a b) (x : α) (xs : List α) :
    insertOrdered le' (f x) (xs.map f) = (insertOrdered le x xs).map f := by
  induction xs with
  | nil => rfl
  | cons y ys ih =>
      rw [List.map_cons, insertOrdered, insertOrdered, h, ih]
      split <;> rfl

/-- Elements are ordered as their images are. -/
theorem ordered_map {α β : Type} {le : α → α → Bool} {le' : β → β → Bool} {f : α → β}
    (h : ∀ a b, le' (f a) (f b) = le a b) (xs : List α) :
    ordered le' (xs.map f) = (ordered le xs).map f := by
  induction xs with
  | nil => rfl
  | cons x xs ih => rw [List.map_cons, ordered_cons, ordered_cons, ih, insertOrdered_map h]

/-- **The plan for the same files below different roots** consists of the same renames in the same
order. -/
theorem RelativeRename.exists_plan {es : List Location} (hes : ∀ e ∈ es, e ≠ []) :
    ∃ renames : List RelativeRename, (∀ x ∈ renames, x.Dual) ∧
      ∀ r, RenamePlan.of (es.map fun e => (e ++ r).path) RenameRule.dualModule =
        renames.map (under r) := by
  have hfile := fun e he => exists_ofFile? (hes e he)
  choose! rename? hdual hunder using hfile
  refine ⟨ordered (fun a b => a.old.path.le b.old.path) (es.filterMap rename?), ?_, fun r => ?_⟩
  · intro x hx
    obtain ⟨e, he, hxe⟩ := List.mem_filterMap.1 (mem_ordered.1 hx)
    exact hdual e he x hxe
  · have hmap : (es.map fun e => (e ++ r).path).filterMap (Mapping.ofFile? RenameRule.dualModule) =
        (es.filterMap rename?).map (under r) := by
      rw [List.filterMap_map, List.map_filterMap]
      exact List.filterMap_congr fun e he => hunder e he r
    rw [RenamePlan.of, hmap]
    exact ordered_map (fun a b => Location.le_path_append a.old b.old r) _

/-! ### The same tree below two roots -/

namespace FileTree

open RelativeRename (under)

/-- Two trees have the same entries below a directory of the one and a directory of the other. -/
def SameBelow (t : FileTree) (r : Location) (t' : FileTree) (r' : Location) : Prop :=
  ∀ e : Location, e ≠ [] → t.get? (e ++ r) = t'.get? (e ++ r')

/-- What is below the directory of the one tree is below that of the other. -/
def ReappearsBelow (t : FileTree) (r : Location) (t' : FileTree) (r' : Location) : Prop :=
  ∀ entry ∈ t.nodes.toList, Location.Below r entry.1 →
    t'.get? (entry.1.take (entry.1.length - r.length) ++ r') = some entry.2

instance (t : FileTree) (r : Location) (t' : FileTree) (r' : Location) :
    Decidable (t.ReappearsBelow r t' r') := List.decidableBAll _ _

theorem reappearsBelow_iff : t.ReappearsBelow r t' r' ↔
    ∀ (e : Location) (node : Node), e ≠ [] → t.get? (e ++ r) = some node →
      t'.get? (e ++ r') = some node := by
  have htake : ∀ e : Location, (e ++ r).take ((e ++ r).length - r.length) = e := by
    intro e
    rw [List.length_append, Nat.add_sub_cancel, List.take_left]
  constructor
  · intro h e node he hnode
    have hmem := Std.ExtTreeMap.mem_toList_iff_getElem?_eq_some.2 hnode
    have hreappears := h _ hmem (Location.below_iff_append.2 ⟨e, he, rfl⟩)
    rwa [htake] at hreappears
  · rintro h ⟨l, node⟩ hmem hl
    obtain ⟨e, he, rfl⟩ := Location.below_iff_append.1 hl
    rw [htake]
    exact h e node he (Std.ExtTreeMap.mem_toList_iff_getElem?_eq_some.1 hmem)

instance (t : FileTree) (r : Location) (t' : FileTree) (r' : Location) :
    Decidable (t.SameBelow r t' r') :=
  decidable_of_iff (t.ReappearsBelow r t' r' ∧ t'.ReappearsBelow r' t r) <| by
    rw [reappearsBelow_iff, reappearsBelow_iff]
    constructor
    · rintro ⟨h, h'⟩ e he
      exact Option.ext fun node => ⟨h e node he, h' e node he⟩
    · intro h
      exact ⟨fun e node he hnode => h e he ▸ hnode, fun e node he hnode => h e he ▸ hnode⟩

/-- The files below a root, as they are seen from there. -/
theorem exists_filesUnder_eq_map (t : FileTree) (r : Location) :
    ∃ es : List Location, (∀ e ∈ es, e ≠ []) ∧
      t.filesUnder r = es.map fun e => (e ++ r).path := by
  have hfile : ∀ p ∈ t.filesUnder r, ∃ e : Location, e ≠ [] ∧ (e ++ r).path = p := by
    intro p hp
    obtain ⟨l, _, hl, -, -, rfl⟩ := mem_filesUnder_iff.1 hp
    obtain ⟨e, he, rfl⟩ := Location.below_iff_append.1 hl
    exact ⟨e, he, rfl⟩
  choose! seen hne hseen using hfile
  refine ⟨(t.filesUnder r).map seen, ?_, ?_⟩
  · simpa using hne
  · rw [List.map_map]
    exact (List.map_id _).symm.trans (List.map_congr_left fun p hp => (hseen p hp).symm)

namespace SameBelow

variable {es : List Location} {renames : List RelativeRename}

theorem path_mem_iff (h : t.SameBelow r t' r') :
    (e ++ r).path ∈ t.filesUnder r ↔ (e ++ r').path ∈ t'.filesUnder r' := by
  have hmem : ∀ {t : FileTree} {r : Location}, (e ++ r).path ∈ t.filesUnder r ↔
      e ≠ [] ∧ ∃ content executable, t.get? (e ++ r) = some (.file content executable) := by
    intro t r
    constructor
    · intro hp
      obtain ⟨hbelow, hfile⟩ := file_of_path_mem hp
      obtain ⟨e', he', heq⟩ := Location.below_iff_append.1 hbelow
      exact ⟨List.append_cancel_right heq ▸ he', hfile⟩
    · rintro ⟨he, content, executable, hfile⟩
      exact path_mem_filesUnder (Location.below_iff_append.2 ⟨e, he, rfl⟩) hfile
  rw [hmem, hmem]
  refine and_congr_right fun he => ?_
  rw [h e he]

/-- The two roots have the same files below them. -/
theorem filesUnder_perm (h : t.SameBelow r t' r')
    (hes : t.filesUnder r = es.map fun e => (e ++ r).path) :
    (es.map fun e => (e ++ r').path).Perm (t'.filesUnder r') := by
  have hinjective : ∀ r : Location, Function.Injective fun e : Location => (e ++ r).path := by
    intro r a b hab
    exact List.append_cancel_right (Location.path_injective hab)
  have hmem : ∀ {e : Location}, (e ++ r).path ∈ t.filesUnder r ↔ e ∈ es := by
    intro e
    rw [hes]
    exact List.mem_map_of_injective (hinjective r)
  have hnodup : es.Nodup := List.Nodup.of_map _ (hes ▸ t.filesUnder_nodup r)
  refine (List.perm_ext_iff_of_nodup (hnodup.map (hinjective r')) (t'.filesUnder_nodup r')).2 ?_
  intro p
  constructor
  · intro hp
    obtain ⟨e, he, rfl⟩ := List.mem_map.1 hp
    exact h.path_mem_iff.1 (hmem.2 he)
  · intro hp
    obtain ⟨l, _, hl, -, -, rfl⟩ := mem_filesUnder_iff.1 hp
    obtain ⟨e, -, rfl⟩ := Location.below_iff_append.1 hl
    exact List.mem_map_of_mem (hmem.1 (h.path_mem_iff.2 hp))

/-- **The plans for the two roots** are the same, as seen from there. -/
theorem exists_plan (h : t.SameBelow r t' r') :
    ∃ renames : List RelativeRename, (∀ x ∈ renames, x.Dual) ∧
      RenamePlan.of (t.filesUnder r) RenameRule.dualModule = renames.map (under r) ∧
      RenamePlan.of (t'.filesUnder r') RenameRule.dualModule = renames.map (under r') := by
  obtain ⟨es, hne, hes⟩ := t.exists_filesUnder_eq_map r
  obtain ⟨renames, hdual, hplan⟩ := RelativeRename.exists_plan hne
  refine ⟨renames, hdual, hes ▸ hplan r, ?_⟩
  rw [← hplan r', RenamePlan.of_filesBelow (h.filesUnder_perm hes)]

/-! ### The passes -/

/-- **The renames** have the same effect below the two roots. -/
theorem renamed (h : t.SameBelow r t' r') (hdual : ∀ x ∈ renames, x.Dual)
    (hu : t.Renamed r (renames.map (under r)) u)
    (hu' : t'.Renamed r' (renames.map (under r')) u') : u.SameBelow r u' r' := by
  intro e he
  have hmem : ∀ {x} (r : Location), x ∈ renames → under r x ∈ renames.map (under r) :=
    fun r hx => List.mem_map_of_mem hx
  obtain ⟨m, hm, hl, hget⟩ | ⟨m, hm, hl, hget⟩ | ⟨hne, hget⟩ := hu.moved.get?_cases (e ++ r)
  · -- the new path of a rename
    obtain ⟨x, hx, rfl⟩ := List.mem_map.1 hm
    rw [RelativeRename.new_location_under] at hl
    obtain rfl := List.append_cancel_right hl
    have hget' := hu'.moved.new _ (hmem r' hx)
    rw [RelativeRename.new_location_under, RelativeRename.old_location_under] at hget'
    rw [hget, hget', RelativeRename.old_location_under, h x.old (hdual x hx).old_ne_nil]
  · -- the old path of a rename
    obtain ⟨x, hx, rfl⟩ := List.mem_map.1 hm
    rw [RelativeRename.old_location_under] at hl
    obtain rfl := List.append_cancel_right hl
    have hget' := hu'.moved.old _ (hmem r' hx)
    rw [RelativeRename.old_location_under] at hget'
    rw [hget, hget']
  · -- neither
    have hget' : u'.get? (e ++ r') = t'.get? (e ++ r') := by
      refine hu'.moved.other _ fun m hm => ?_
      obtain ⟨x, hx, rfl⟩ := List.mem_map.1 hm
      have hx := hne _ (hmem r hx)
      rw [RelativeRename.old_location_under, RelativeRename.new_location_under] at hx ⊢
      constructor
      · intro heq
        exact hx.1 (congrArg (· ++ r) (List.append_cancel_right heq))
      · intro heq
        exact hx.2 (congrArg (· ++ r) (List.append_cancel_right heq))
    rw [hget, hget', h e he]

variable (htable : ∀ e : Location,
  Replacement.table (e ++ r).path plan = Replacement.table (e ++ r').path plan')

include htable

theorem editContent_eq (n : FileName) (e : Location) (content : Bytes) :
    editContent plan (Location.path (n :: (e ++ r))) content =
      editContent plan' (Location.path (n :: (e ++ r'))) content := by
  rw [editContent, editContent, directory_path, directory_path, htable]

/-- **The edits** have the same effect below the two roots. -/
theorem edited (h : u.SameBelow r u' r') (hv : u.Edited plan (u.filesUnder r) v)
    (hv' : u'.Edited plan' (u'.filesUnder r') v') : v.SameBelow r v' r' := by
  intro e he
  by_cases hfile : (e ++ r).path ∈ u.filesUnder r
  · obtain ⟨-, content, executable, hget⟩ := file_of_path_mem hfile
    obtain ⟨n, d, rfl⟩ := List.exists_cons_of_ne_nil he
    rw [hv.edited _ _ _ hfile hget,
      hv'.edited _ _ _ (h.path_mem_iff.1 hfile) ((h _ he).symm.trans hget), List.cons_append,
      List.cons_append, editContent_eq htable]
  · rw [hv.other _ hfile, hv'.other _ (mt h.path_mem_iff.2 hfile), h e he]

/-- **The totals** are the same for the two roots. -/
theorem editSummary_eq (h : u.SameBelow r u' r') :
    u.editSummary plan r = u'.editSummary plan' r' := by
  obtain ⟨es, hne, hes⟩ := u.exists_filesUnder_eq_map r
  have hedit : ∀ e ∈ es, (u.fileEdit plan (e ++ r).path).replacements =
      (u'.fileEdit plan' (e ++ r').path).replacements := by
    intro e he
    obtain ⟨n, d, rfl⟩ := List.exists_cons_of_ne_nil (hne e he)
    simp only [fileEdit, Location.location_path, List.cons_append, editContent_eq htable]
    rw [← List.cons_append, h _ (hne _ he)]
    rfl
  refine EditSummary.ofOutcomes_congr ?_
  refine List.Perm.trans (.of_eq ?_) (((h.filesUnder_perm hes).map _).map _)
  rw [hes]
  simpa using hedit

end SameBelow

/-- Below the two directories are copies of one tree, in which every path is a file of its own. -/
structure Copies (t : FileTree) (r : Location) (t' : FileTree) (r' : Location) : Prop where
  same : t.SameBelow r t' r'
  single : t.Single r
  single' : t'.Single r'

end FileTree

/-! ### Whole runs -/

open RelativeRename (under)

namespace Target

variable {target target' : Target} {p p' : Procedure Report}

end Target

/-- A copy of what is below a directory, below another one in a tree with nothing else. -/
def FileTree.transplanted (t : FileTree) (r r' : Location) : FileTree :=
  t.nodes.toList.foldl (fun u entry =>
    match u.install [] (Location.path (entry.1.take (entry.1.length - r.length) ++ r')) entry.2 with
    | .ok v => v
    | .error _ => u) .empty

/-- A root with quotes in its name, in a directory whose name is no text. -/
def oddRoot : Location :=
  [⟨Utf8.encode "it's \"t\"".toList, by decide⟩, ⟨[0x61, 0xFF], by decide⟩]

end DualModule

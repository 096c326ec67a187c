import DualModule.Proofs.Attempt
import DualModule.Proofs.Lookup
import DualModule.Walk
import Mathlib.Data.List.Nodup
import Mathlib.Tactic.Choose
/-!
# What a walk finds

A walk that starts at the canonical path of a directory finds every directory and every regular
file below it, each once, and leaves the tree alone (`walkBelow_outcome`).  It cannot fail: each
directory that it goes into is listed under its canonical path, which the system takes.

**Levels.**  A location with as many names as a path may have bytes is not addressable.  A walk that
starts `l.length` names deep therefore needs no more than the remaining levels, which is the
invariant of the induction.

**In which order** entries are found is up to the host.  `FileTree.filesUnder` lists the files in a
fixed order, and `filesBelow_outcome` says that a walk finds those, in some order.

## Main Definitions

* `FileTree.Level`, `FileTree.Enumerates`
* `FileTree.filesUnder`
-/

namespace DualModule

open Attempt

variable {t : FileTree} {host : Host} {n : FileName} {d l r : Location}

/-! ### Listings -/

namespace FileTree

theorem nameIn?_eq_some_iff : nameIn? d l = some n ↔ l = n :: d := by
  cases l with
  | nil => simp [nameIn?]
  | cons m e =>
      rw [nameIn?]
      split
      · rename_i he
        simp [he]
      · rename_i he
        simp [he]

theorem mem_children_iff {node : Node} :
    (n, node) ∈ t.children d ↔ t.get? (n :: d) = some node := by
  simp only [children, List.mem_filterMap, Option.map_eq_some_iff, nameIn?_eq_some_iff,
    Prod.mk.injEq, Prod.exists, get?]
  constructor
  · rintro ⟨l, x, hmem, m, rfl, rfl, rfl⟩
    exact Std.ExtTreeMap.mem_toList_iff_getElem?_eq_some.1 hmem
  · intro h
    exact ⟨n :: d, node, Std.ExtTreeMap.mem_toList_iff_getElem?_eq_some.2 h, n, rfl, rfl, rfl⟩

theorem toList_pairwise (t : FileTree) : t.nodes.toList.Pairwise fun a b => a.1 ≠ b.1 := by
  refine (Std.ExtTreeMap.distinct_keys_toList (t := t.nodes)).imp fun h he => h ?_
  rw [he]
  exact Std.ReflCmp.compare_self

theorem children_nodup (t : FileTree) (d : Location) : (t.children d).Nodup := by
  refine List.Pairwise.filterMap _ ?_ t.toList_pairwise
  rintro ⟨a, x⟩ ⟨b, y⟩ hab p hp q hq rfl
  obtain ⟨n, hn, rfl⟩ := Option.map_eq_some_iff.1 hp
  obtain ⟨m, hm, hmn⟩ := Option.map_eq_some_iff.1 hq
  obtain ⟨rfl, -⟩ := Prod.mk.inj hmn
  exact hab ((nameIn?_eq_some_iff.1 hn).trans (nameIn?_eq_some_iff.1 hm).symm)

/-- A directory is listed under its canonical path. -/
theorem listing_path (h : t.get? d = some .directory) :
    Request.listing host t d.path =
      .ok (host.arrange d ((t.children d).map fun (n, node) => (n, node.kind))) := by
  have hl : t.locate host.here d.path true = .ok d := locate_directory h
  rw [Request.listing, list, hl]
  simp [isDirectory_iff.2 h, bind, Except.bind, pure, Except.pure]

/-- A file is not listed. -/
theorem listing_path_file {content : Bytes} {executable : Bool}
    (h : t.get? l = some (.file content executable)) :
    Request.listing host t l.path = .error .notDirectory := by
  have hl : t.locate host.here l.path true = .ok l := locate_path h (by simp)
  have hdir : t.isDirectory l = false := by simp [isDirectory, h]
  rw [Request.listing, list, hl]
  simp [hdir, bind, Except.bind, throw, throwThe, MonadExceptOf.throw]

end FileTree

/-! ### Below a directory -/

theorem Location.below_iff : Location.Below d l ↔ ∃ n, n :: d <:+ l := by
  constructor
  · rintro ⟨⟨front, rfl⟩, hne⟩
    rcases List.eq_nil_or_concat front with rfl | ⟨front, n, rfl⟩
    · exact absurd rfl hne
    · exact ⟨n, front, by simp⟩
  · rintro ⟨n, h⟩
    refine ⟨(List.suffix_cons n d).trans h, ?_⟩
    rintro rfl
    exact absurd h.length_le (by simp)

/-- What is below a directory is one of its entries, or below one. -/
theorem Location.below_cases (h : Location.Below d l) :
    ∃ n, l = n :: d ∨ Location.Below (n :: d) l := by
  obtain ⟨n, hn⟩ := Location.below_iff.1 h
  by_cases hl : l = n :: d
  · exact ⟨n, Or.inl hl⟩
  · exact ⟨n, Or.inr ⟨hn, Ne.symm hl⟩⟩

theorem Location.below_cons (n : FileName) (d : Location) : Location.Below d (n :: d) :=
  Location.below_iff.2 ⟨n, List.suffix_rfl⟩

theorem Location.Below.trans {d e l : Location} (h : Location.Below d e)
    (h' : Location.Below e l) : Location.Below d l := by
  obtain ⟨n, hn⟩ := Location.below_iff.1 h
  exact Location.below_iff.2 ⟨n, hn.trans h'.1⟩

/-- Two names of one directory have nothing below them in common. -/
theorem Location.eq_of_below {m : FileName} (h : n :: d <:+ l) (h' : m :: d <:+ l) : n = m := by
  have := List.suffix_of_suffix_length_le h h' (by simp)
  exact (List.cons.inj (this.eq_of_length (by simp))).1

/-! ### One level after another -/

namespace FileTree

/-- What was found is every directory and every file among the entries of a directory, each once. -/
structure Level (t : FileTree) (d : Location) (found : List Found) : Prop where
  nodup : found.Nodup
  mem_iff : ∀ f, f ∈ found ↔ ∃ n node, t.get? (n :: d) = some node ∧ node.kind ≠ .link ∧
    f = ⟨Location.path (n :: d), node.kind⟩

/-- What was found is every directory and every file below a directory, each once. -/
structure Enumerates (t : FileTree) (d : Location) (found : List Found) : Prop where
  nodup : found.Nodup
  mem_iff : ∀ f, f ∈ found ↔ ∃ l node, Location.Below d l ∧ t.get? l = some node ∧
    node.kind ≠ .link ∧ f = ⟨l.path, node.kind⟩

end FileTree

theorem Found.ofEntry?_eq_some_iff {kind : NodeKind} {f : Found} :
    Found.ofEntry? d.path (n, kind) = some f ↔ kind ≠ .link ∧ f = ⟨Location.path (n :: d), kind⟩ := by
  cases kind <;> simp [Found.ofEntry?, eq_comm]

/-- **A directory as it is listed**, in whatever order. -/
theorem FileTree.Level.of_perm {entries : List (FileName × NodeKind)}
    (h : entries.Perm ((t.children d).map fun (n, node) => (n, node.kind))) :
    t.Level d (entries.filterMap (Found.ofEntry? d.path)) := by
  constructor
  · have hentries : entries.Nodup := by
      refine h.nodup_iff.2 (List.Nodup.map_on ?_ (t.children_nodup d))
      rintro ⟨n, x⟩ hx ⟨m, y⟩ hy hxy
      obtain ⟨rfl, -⟩ := Prod.mk.inj hxy
      rw [FileTree.mem_children_iff] at hx hy
      rw [Option.some.inj (hx.symm.trans hy)]
    refine hentries.filterMap ?_
    rintro ⟨n, kind⟩ ⟨m, kind'⟩ f hf hf'
    obtain ⟨-, rfl⟩ := Found.ofEntry?_eq_some_iff.1 hf
    obtain ⟨-, heq⟩ := Found.ofEntry?_eq_some_iff.1 hf'
    obtain ⟨hpath, rfl⟩ := Found.mk.inj heq
    rw [(List.cons.inj (Location.path_injective hpath)).1]
  · intro f
    simp only [List.mem_filterMap, h.mem_iff, List.mem_map, Prod.exists, Prod.mk.injEq,
      FileTree.mem_children_iff]
    constructor
    · rintro ⟨n, kind, ⟨m, node, hnode, rfl, rfl⟩, hf⟩
      exact ⟨m, node, hnode, Found.ofEntry?_eq_some_iff.1 hf⟩
    · rintro ⟨n, node, hnode, hf⟩
      exact ⟨n, node.kind, ⟨n, node, hnode, rfl, rfl⟩, Found.ofEntry?_eq_some_iff.2 hf⟩

/-- **A host lists a directory** in some order.  That it is an order of the entries is all that is
used of it. -/
theorem FileTree.exists_listing (host : Host) (hd : t.get? d = some .directory) :
    ∃ entries, (Procedure.request (.list d.path)).run host t = (.ok entries, t) ∧
      t.Level d (entries.filterMap (Found.ofEntry? d.path)) := by
  refine ⟨_, ?_, .of_perm (host.arrange_perm d _)⟩
  rw [run_request, Request.answer, FileTree.listing_path hd]

namespace FileTree.Level

variable {found : List Found} {nested : Found → List Found}

/-- A directory that is an entry of another one. -/
theorem exists_name_of_mem (h : t.Level d found) {f : Found}
    (hf : f ∈ found.filter (·.kind = .directory)) :
    ∃ n, t.get? (n :: d) = some .directory ∧ f = ⟨Location.path (n :: d), .directory⟩ := by
  obtain ⟨hf, hkind⟩ := List.mem_filter.1 hf
  obtain ⟨n, node, hnode, -, rfl⟩ := (h.mem_iff f).1 hf
  cases node with
  | directory => exact ⟨n, hnode, rfl⟩
  | file content executable => simp [Node.kind] at hkind
  | link target => simp [Node.kind] at hkind

/-- What is known of a directory that is an entry of another one. -/
theorem directory_of_mem (h : t.Level d found)
    (hnested : ∀ n, ⟨Location.path (n :: d), .directory⟩ ∈ found →
      t.Enumerates (n :: d) (nested ⟨Location.path (n :: d), .directory⟩)) {f : Found}
    (hf : f ∈ found.filter (·.kind = .directory)) :
    ∃ n, t.get? (n :: d) = some .directory ∧ f = ⟨Location.path (n :: d), .directory⟩ ∧
      t.Enumerates (n :: d) (nested f) := by
  obtain ⟨n, hn, rfl⟩ := h.exists_name_of_mem hf
  exact ⟨n, hn, rfl, hnested n (List.mem_of_mem_filter hf)⟩

/-- What is found further down is below one of the directories among the entries. -/
theorem mem_nested_iff (h : t.Level d found)
    (hnested : ∀ n, ⟨Location.path (n :: d), .directory⟩ ∈ found →
      t.Enumerates (n :: d) (nested ⟨Location.path (n :: d), .directory⟩)) {f : Found} :
    f ∈ ((found.filter (·.kind = .directory)).map nested).flatten ↔
      ∃ n l node, t.get? (n :: d) = some .directory ∧ Location.Below (n :: d) l ∧
        t.get? l = some node ∧ node.kind ≠ .link ∧ f = ⟨l.path, node.kind⟩ := by
  simp only [List.mem_flatten, List.mem_map]
  constructor
  · rintro ⟨_, ⟨g, hg, rfl⟩, hf⟩
    obtain ⟨n, hn, rfl, henum⟩ := h.directory_of_mem hnested hg
    obtain ⟨l, node, hl⟩ := (henum.mem_iff f).1 hf
    exact ⟨n, l, node, hn, hl⟩
  · rintro ⟨n, l, node, hn, hl⟩
    have hg : (⟨Location.path (n :: d), .directory⟩ : Found) ∈ found :=
      (h.mem_iff _).2 ⟨n, .directory, hn, by simp [Node.kind], rfl⟩
    have hgdir : (⟨Location.path (n :: d), .directory⟩ : Found) ∈
        found.filter (·.kind = .directory) := List.mem_filter.2 ⟨hg, by simp⟩
    exact ⟨_, ⟨_, hgdir, rfl⟩, ((hnested n hg).mem_iff f).2 ⟨l, node, hl⟩⟩

/-- Nothing is found twice further down, since two directories have nothing below them in common. -/
theorem nested_nodup (h : t.Level d found)
    (hnested : ∀ n, ⟨Location.path (n :: d), .directory⟩ ∈ found →
      t.Enumerates (n :: d) (nested ⟨Location.path (n :: d), .directory⟩)) :
    ((found.filter (·.kind = .directory)).map nested).flatten.Nodup := by
  rw [← List.flatMap_def, List.nodup_flatMap]
  constructor
  · intro f hf
    obtain ⟨n, -, -, henum⟩ := h.directory_of_mem hnested hf
    exact henum.nodup
  · refine (h.nodup.filter _).imp_of_mem fun {f g} hf hg hne x hx hy => hne ?_
    obtain ⟨n, -, rfl, hfn⟩ := h.directory_of_mem hnested hf
    obtain ⟨m, -, rfl, hgm⟩ := h.directory_of_mem hnested hg
    obtain ⟨l, _, hl, -, -, rfl⟩ := (hfn.mem_iff x).1 hx
    obtain ⟨k, _, hk, -, -, hkl⟩ := (hgm.mem_iff _).1 hy
    obtain rfl := Location.path_injective (Found.mk.inj hkl).1
    rw [Location.eq_of_below hl.1 hk.1]

/-- **From one level to all**: the entries of a directory, and what is below each of its
directories. -/
theorem enumerates (h : t.Level d found) (nested : Found → List Found)
    (hnested : ∀ n, ⟨Location.path (n :: d), .directory⟩ ∈ found →
      t.Enumerates (n :: d) (nested ⟨Location.path (n :: d), .directory⟩)) :
    t.Enumerates d (found ++ ((found.filter (·.kind = .directory)).map nested).flatten) := by
  constructor
  · rw [List.nodup_append]
    refine ⟨h.nodup, h.nested_nodup hnested, ?_⟩
    -- an entry is neither below itself nor below another entry
    rintro f hf g hg rfl
    obtain ⟨n, _, -, -, rfl⟩ := (h.mem_iff f).1 hf
    obtain ⟨m, l, _, -, hl, -, -, hfl⟩ := (h.mem_nested_iff hnested).1 hg
    obtain rfl := Location.path_injective (Found.mk.inj hfl).1
    exact hl.2 (by rw [Location.eq_of_below List.suffix_rfl hl.1])
  · intro f
    rw [List.mem_append, h.mem_iff, h.mem_nested_iff hnested]
    constructor
    · rintro (⟨n, node, hf⟩ | ⟨n, l, node, -, hl, hf⟩)
      · exact ⟨n :: d, node, Location.below_cons n d, hf⟩
      · exact ⟨l, node, (Location.below_cons n d).trans hl, hf⟩
    · rintro ⟨l, node, hl, hf⟩
      obtain ⟨n, rfl | hn⟩ := Location.below_cases hl
      · exact Or.inl ⟨n, node, hf⟩
      · exact Or.inr ⟨n, l, node, directory_of_below hf.1 hn, hn, hf⟩

end FileTree.Level

/-- **A walk from a canonical path** finds every directory and every file below it, each once, if it
has enough levels. -/
theorem walkBelow_outcome (host : Host) {levels : Nat} (hd : t.get? d = some .directory)
    (hlevels : maxPathLength ≤ levels + d.length) :
    ∃ found, (walkBelow levels d.path).outcome host t = (.ok found, t) ∧
      t.Enumerates d found := by
  induction levels generalizing d with
  | zero =>
      -- there is no directory so deep
      have := (FileTree.addressable_of_eq_some hd).length_lt
      omega
  | succ levels ih =>
      obtain ⟨entries, hlist, hlevel⟩ := FileTree.exists_listing host hd
      rw [walkBelow, outcome_bind_ok (outcome_explained hlist _)]
      have hwalk : ∀ f ∈ (entries.filterMap (Found.ofEntry? d.path)).filter (·.kind = .directory),
          ∃ nested, (walkBelow levels f.path).outcome host t = (.ok nested, t) ∧
            ∀ n, f.path = Location.path (n :: d) → t.Enumerates (n :: d) nested := by
        intro f hf
        obtain ⟨n, hn, rfl⟩ := hlevel.exists_name_of_mem hf
        obtain ⟨nested, hrun, henum⟩ := ih (d := n :: d) hn (by simp; omega)
        refine ⟨nested, hrun, ?_⟩
        intro m hm
        rw [← Location.path_injective hm]
        exact henum
      choose! nested hrun henum using hwalk
      refine ⟨_, ?_, hlevel.enumerates nested ?_⟩
      · rw [outcome_bind_ok (outcome_mapM hrun)]
        rfl
      · intro n hn
        exact henum _ (List.mem_filter.2 ⟨hn, by simp⟩) n rfl

/-! ### The files below a root -/

namespace FileTree

/-- The canonical path of an entry, if it is a regular file below the directory at `r`. -/
def fileUnder? (r : Location) (entry : Location × Node) : Option Path :=
  if Location.Below r entry.1 ∧ entry.2.kind = .file then some entry.1.path else none

/-- The canonical paths of the regular files below the directory at `r`. -/
def filesUnder (t : FileTree) (r : Location) : List Path := t.nodes.toList.filterMap (fileUnder? r)

theorem fileUnder?_eq_some_iff {entry : Location × Node} {p : Path} :
    fileUnder? r entry = some p ↔
      Location.Below r entry.1 ∧ entry.2.kind = .file ∧ p = entry.1.path := by
  rw [fileUnder?]
  split
  · rename_i h
    simp [h, eq_comm]
  · rename_i h
    simp only [reduceCtorEq, false_iff]
    exact fun h' => h ⟨h'.1, h'.2.1⟩

theorem mem_filesUnder_iff {p : Path} : p ∈ t.filesUnder r ↔ ∃ l node, Location.Below r l ∧
    t.get? l = some node ∧ node.kind = .file ∧ p = l.path := by
  simp only [filesUnder, List.mem_filterMap, fileUnder?_eq_some_iff, Prod.exists,
    Std.ExtTreeMap.mem_toList_iff_getElem?_eq_some, get?]
  constructor
  · rintro ⟨l, node, hnode, hl, h⟩
    exact ⟨l, node, hl, hnode, h⟩
  · rintro ⟨l, node, hl, hnode, h⟩
    exact ⟨l, node, hnode, hl, h⟩

theorem filesUnder_nodup (t : FileTree) (r : Location) : (t.filesUnder r).Nodup := by
  refine List.Pairwise.filterMap _ ?_ t.toList_pairwise
  rintro a b hab p hp q hq rfl
  obtain ⟨-, -, rfl⟩ := fileUnder?_eq_some_iff.1 hp
  obtain ⟨-, -, hpath⟩ := fileUnder?_eq_some_iff.1 hq
  exact hab (Location.path_injective hpath)

/-- The files among what a walk finds. -/
theorem Enumerates.files_perm {found : List Found} (h : t.Enumerates r found) :
    ((found.filter (·.kind = .file)).map (·.path)).Perm (t.filesUnder r) := by
  refine (List.perm_ext_iff_of_nodup ?_ (t.filesUnder_nodup r)).2 fun p => ?_
  · refine List.Nodup.map_on ?_ (h.nodup.filter _)
    rintro ⟨p, kind⟩ hf ⟨q, kind'⟩ hg rfl
    obtain ⟨-, hkind⟩ := List.mem_filter.1 hf
    obtain ⟨-, hkind'⟩ := List.mem_filter.1 hg
    simp_all
  · simp only [List.mem_map, List.mem_filter, h.mem_iff, mem_filesUnder_iff, decide_eq_true_eq]
    constructor
    · rintro ⟨_, ⟨⟨l, node, hl, hnode, -, rfl⟩, hkind⟩, rfl⟩
      exact ⟨l, node, hl, hnode, hkind, rfl⟩
    · rintro ⟨l, node, hl, hnode, hkind, rfl⟩
      exact ⟨_, ⟨⟨l, node, hl, hnode, by simp [hkind], rfl⟩, hkind⟩, rfl⟩

end FileTree

section Root

variable {root : Path}

theorem outcome_canonicalize {reply : Except SystemError Path}
    (h : t.canonical host.here root = reply) :
    (explained (.request (.canonicalize root)) (PassError.traversal root)).outcome host t =
      (reply.mapError (.traversal root), t) :=
  outcome_explained (by rw [run_request, Request.answer, h]) _

/-- A walk of a directory finds what is below it, and leaves the tree alone. -/
theorem walk_outcome (hroot : t.canonical host.here root = .ok r.path)
    (hr : t.get? r = some .directory) :
    ∃ found, (walk root).outcome host t = (.ok found, t) ∧ t.Enumerates r found := by
  obtain ⟨found, hrun, henum⟩ := walkBelow_outcome host hr (Nat.le_add_right _ _)
  exact ⟨found, (outcome_bind_ok (outcome_canonicalize hroot) _).trans hrun, henum⟩

/-- **A walk of a directory** finds its files and leaves the tree alone. -/
theorem filesBelow_outcome (hroot : t.canonical host.here root = .ok r.path)
    (hr : t.get? r = some .directory) :
    ∃ files, (filesBelow root).outcome host t = (.ok files, t) ∧
      files.Perm (t.filesUnder r) := by
  obtain ⟨found, hrun, henum⟩ := walk_outcome hroot hr
  refine ⟨_, ?_, henum.files_perm⟩
  rw [filesBelow, outcome_bind_ok hrun]
  rfl

/-- A path that names no directory names nothing, or a file. -/
theorem FileTree.canonical_cases (hhere : t.get? host.here = some .directory)
    (h : ∀ r, t.canonical host.here root = .ok (Location.path r) → t.get? r ≠ some .directory) :
    (∃ cause, t.canonical host.here root = .error cause) ∨
      ∃ l content executable, t.canonical host.here root = .ok (Location.path l) ∧
        t.get? l = some (.file content executable) := by
  cases hroot : t.canonical host.here root with
  | error cause => exact Or.inl ⟨cause, rfl⟩
  | ok q =>
      obtain ⟨l, node, rfl, hnode, hlink⟩ := FileTree.canonical_sound hhere hroot
      cases node with
      | directory => exact absurd hnode (h l hroot)
      | link target => exact absurd rfl (hlink target) -- canonical paths lead to no link
      | file content executable => exact Or.inr ⟨l, content, executable, rfl, hnode⟩

theorem outcome_list_file {content : Bytes} {executable : Bool}
    (h : t.get? l = some (.file content executable)) :
    (explained (.request (.list l.path)) (PassError.traversal l.path)).outcome host t =
      (.error (.traversal l.path .notDirectory), t) := by
  have hlist : (Procedure.request (.list l.path)).run host t = (.error .notDirectory, t) := by
    rw [run_request, Request.answer, FileTree.listing_path_file h]
  exact outcome_explained hlist _

/-- Whatever is no directory is not walked. -/
theorem filesBelow_outcome_error (hhere : t.get? host.here = some .directory)
    (h : ∀ r, t.canonical host.here root = .ok (Location.path r) → t.get? r ≠ some .directory) :
    ∃ p cause, (filesBelow root).outcome host t = (.error (.traversal p cause), t) := by
  rw [filesBelow, walk]
  obtain ⟨cause, hroot⟩ | ⟨l, content, executable, hroot, hfile⟩ :=
    FileTree.canonical_cases hhere h
  · exact ⟨root, cause, outcome_bind_error (outcome_bind_error (outcome_canonicalize hroot) _) _⟩
  · exact ⟨l.path, .notDirectory, outcome_bind_error
      ((outcome_bind_ok (outcome_canonicalize hroot) _).trans
        (outcome_bind_error (outcome_list_file hfile) _)) _⟩

end Root

end DualModule

import DualModule.Proofs.ConfinedPasses
/-!
# Walks are complete

A walk of a directory finds every directory and every regular file that its root leads to through
real directories, each once and under the root's canonical path with the names on the way behind it,
and it finds nothing else (`walk_complete`).  It is the same however its listings are ordered and
however they are mixed with one another.

**Leading to** is read off the tree by following names (`FileTree.Leads`), and a link is never
followed: a name leads on only if it names a directory.  Cycles of links therefore do not show, and
what lies behind a link is found only if names lead there as well.  A tree has no entry so deep
that the system would not take its canonical path, so that every directory can be listed.

**What is no directory is not walked at all.**  There is no partial list: every way to walk it comes
to the same failure.

## Main Definitions

* `FileTree.Leads`
* `AttemptWays.ComesTo`: an attempt comes to the same in all ways
-/

namespace DualModule

variable {ε α β : Type} {host : Host} {t u v : FileTree}

/-! ### All ways at once -/

namespace AttemptWays

/-- Whichever way it is made, an attempt comes to `result`, and leaves `u` behind. -/
def ComesTo (w : AttemptWays ε α) (host : Host) (t : FileTree) (result : Except ε α)
    (u : FileTree) : Prop :=
  ∀ a, w.Has a → a.outcome host t = (result, u)

variable {w : AttemptWays ε α} {a : Attempt ε α} {f : α → AttemptWays ε β} {result : Except ε α}

theorem comesTo_only (h : a.outcome host t = (result, u)) :
    (only a).ComesTo host t result u := by
  intro b hb
  obtain rfl : b = a := hb
  exact h

theorem Alike.comesTo {tolerance : Tolerance} {region : Set Location}
    (h : w.Alike host tolerance region t a) (hrun : a.outcome host t = (result, u)) :
    w.ComesTo host t result u :=
  fun b hb => (h b hb).2.trans hrun

/-- The ways of one attempt after another, taken apart. -/
theorem exists_of_has_bind {b : Attempt ε β} (h : (w >>= f).Has b) (host : Host) (t : FileTree) :
    ∃ (a : Attempt ε α) (next : Except ε α → Procedure (Except ε β)),
      w.Has a ∧ (∀ x, (f x).Has (ExceptT.mk (next (.ok x)))) ∧
        (∀ e, next (.error e) = pure (.error e)) ∧
        b.outcome host t =
          (next (a.outcome host t).1).run host (a.outcome host t).2 := by
  unfold Has at h
  rw [ExceptT.run_bind] at h
  obtain ⟨a, ha, next, hnext, hb⟩ := h
  refine ⟨a, next, ha, fun x => hnext (.ok x), fun e => hnext (.error e), ?_⟩
  rw [Attempt.outcome, hb, Procedure.run_bind]
  rfl

theorem ComesTo.bind_ok {x : α} {result : Except ε β} (h : w.ComesTo host t (.ok x) u)
    (hf : (f x).ComesTo host u result v) : (w >>= f).ComesTo host t result v := by
  intro b hb
  obtain ⟨a, next, ha, hnext, -, hrun⟩ := exists_of_has_bind hb host t
  rw [hrun, h a ha]
  exact hf _ (hnext x)

theorem ComesTo.bind_error {e : ε} (h : w.ComesTo host t (.error e) u) :
    (w >>= f).ComesTo host t (.error e) u := by
  intro b hb
  obtain ⟨a, next, ha, -, hnext, hrun⟩ := exists_of_has_bind hb host t
  rw [hrun, h a ha, hnext]
  rfl

end AttemptWays

/-! ### Following names -/

namespace FileTree

variable {d r : Location} {n : FileName} {names : List FileName} {node : Node}

/-- From the directory at `d`, the names lead to an entry through real directories. -/
inductive Leads (t : FileTree) : Location → List FileName → Node → Prop
  | entry {d : Location} {n : FileName} {node : Node} (h : t.get? (n :: d) = some node) :
      Leads t d [n] node
  | inside {d : Location} {n : FileName} {names : List FileName} {node : Node}
      (h : t.get? (n :: d) = some .directory) (hrest : Leads t (n :: d) names node) :
      Leads t d (n :: names) node

/-- Below a directory is where one or more names lead. -/
theorem below_iff_exists_names {l : Location} :
    Location.Below r l ↔ ∃ names, names ≠ [] ∧ l = names.reverse ++ r := by
  constructor
  · rintro ⟨⟨front, rfl⟩, hne⟩
    refine ⟨front.reverse, ?_, by rw [List.reverse_reverse]⟩
    intro hfront
    rw [List.reverse_eq_nil_iff.1 hfront] at hne
    exact hne rfl
  · rintro ⟨names, hne, rfl⟩
    refine ⟨List.suffix_append _ _, fun heq => hne ?_⟩
    exact List.reverse_eq_nil_iff.1 (List.self_eq_append_left.1 heq)

/-- Names lead to what is at the end of them: whatever has an entry below it is a directory. -/
theorem leads_iff : t.Leads d names node ↔
    names ≠ [] ∧ t.get? (names.reverse ++ d) = some node := by
  constructor
  · intro h
    induction h with
    | entry h => exact ⟨List.cons_ne_nil _ _, h⟩
    | inside _ _ ih => exact ⟨List.cons_ne_nil _ _, by simpa using ih.2⟩
  · rintro ⟨hne, h⟩
    induction names generalizing d with
    | nil => exact absurd rfl hne
    | cons n names ih =>
        rw [List.reverse_cons, List.append_assoc] at h
        cases names with
        | nil => exact .entry h
        | cons m names =>
            have hbelow : Location.Below (n :: d) ((m :: names).reverse ++ n :: d) :=
              below_iff_exists_names.2 ⟨_, List.cons_ne_nil _ _, rfl⟩
            exact .inside (directory_of_below h hbelow) (ih (List.cons_ne_nil _ _) h)

/-- The canonical path of where names lead. -/
theorem path_append (names : List FileName) (r : Location) :
    Location.path (names.reverse ++ r) = names.foldl Path.child r.path := by
  induction names generalizing r with
  | nil => rfl
  | cons n names ih =>
      rw [List.reverse_cons, List.append_assoc, List.foldl_cons, ← Location.path_cons, ← ih]
      rfl

/-- What is below a directory is what names lead to from there. -/
theorem exists_below_iff {p : NodeKind → Path → Prop} :
    (∃ l node, Location.Below r l ∧ t.get? l = some node ∧ p node.kind l.path) ↔
      ∃ names node, t.Leads r names node ∧ p node.kind (names.foldl Path.child r.path) := by
  constructor
  · rintro ⟨l, node, hl, hnode, h⟩
    obtain ⟨names, hne, rfl⟩ := below_iff_exists_names.1 hl
    exact ⟨names, node, leads_iff.2 ⟨hne, hnode⟩, path_append names r ▸ h⟩
  · rintro ⟨names, node, hleads, h⟩
    obtain ⟨hne, hnode⟩ := leads_iff.1 hleads
    exact ⟨_, node, below_iff_exists_names.2 ⟨names, hne, rfl⟩, hnode, path_append names r ▸ h⟩

/-- Nothing is found twice, even as two kinds of entry. -/
theorem Enumerates.nodup_paths {found : List Found} (h : t.Enumerates r found) :
    (found.map (·.path)).Nodup := by
  refine List.Nodup.map_on (fun f hf g hg hpath => ?_) h.nodup
  obtain ⟨l, node, -, hl, -, rfl⟩ := (h.mem_iff f).1 hf
  obtain ⟨k, node', -, hk, -, rfl⟩ := (h.mem_iff g).1 hg
  obtain rfl := Location.path_injective hpath
  rw [Option.some.inj (hl.symm.trans hk)]

/-- The directory that is walked is not found in itself. -/
theorem Enumerates.path_notMem {found : List Found} (h : t.Enumerates r found) :
    r.path ∉ found.map (·.path) := by
  intro hmem
  obtain ⟨f, hf, hpath⟩ := List.mem_map.1 hmem
  obtain ⟨l, node, hl, -, -, rfl⟩ := (h.mem_iff f).1 hf
  exact hl.2 (Location.path_injective hpath).symm

end FileTree

/-! ### Walks -/

section Walk

open Attempt

variable {root : Path} {r : Location}

/-- A file is not walked, however that is tried. -/
theorem walkBelowWays_comesTo_error {l : Location} {content : Bytes} {executable : Bool}
    (h : t.get? l = some (.file content executable)) (levels : Nat) :
    (walkBelowWays (levels + 1) l.path).ComesTo host t
      (.error (.traversal l.path .notDirectory)) t :=
  (AttemptWays.comesTo_only (outcome_list_file h)).bind_error

/-- **What is no directory** is not walked, however that is tried. -/
theorem walkWays_comesTo_error (hhere : t.get? host.here = some .directory)
    (h : ∀ r, t.canonical host.here root = .ok (Location.path r) → t.get? r ≠ some .directory) :
    ∃ p cause, (walkWays root).ComesTo host t (.error (.traversal p cause)) t ∧
      (filesBelowWays root).ComesTo host t (.error (.traversal p cause)) t := by
  -- the files are taken from what the walk finds
  suffices hwalk : ∃ p cause, (walkWays root).ComesTo host t (.error (.traversal p cause)) t by
    obtain ⟨p, cause, hwalk⟩ := hwalk
    exact ⟨p, cause, hwalk, hwalk.bind_error⟩
  obtain ⟨cause, hroot⟩ | ⟨l, content, executable, hroot, hfile⟩ :=
    FileTree.canonical_cases hhere h
  · exact ⟨root, cause, (AttemptWays.comesTo_only (outcome_canonicalize hroot)).bind_error⟩
  · exact ⟨l.path, .notDirectory, (AttemptWays.comesTo_only (outcome_canonicalize hroot)).bind_ok
      (walkBelowWays_comesTo_error hfile _)⟩

/-- **Walks are complete.**  In whichever way a directory is walked, and in whichever order it is
listed, the walk finds every directory and every regular file that its names lead to, each once,
under the canonical path of the directory with these names behind it, and finds nothing else.  The
regular files among them are listed, each once.  If there is no directory, the walk fails. -/
theorem walk_complete (host : Host) {t : FileTree} (hhere : t.get? host.here = some .directory)
    (root : Path) :
    (walkWays root).Has (walk root) ∧ (filesBelowWays root).Has (filesBelow root) ∧
    (∀ r, t.canonical host.here root = .ok (Location.path r) → t.get? r = some .directory →
      (∃ found, (walkWays root).ComesTo host t (.ok found) t ∧
        (found.map (·.path)).Nodup ∧ r.path ∉ found.map (·.path) ∧
        ∀ f, f ∈ found ↔ ∃ names node, t.Leads r names node ∧ node.kind ≠ .link ∧
          f = ⟨names.foldl Path.child r.path, node.kind⟩) ∧
      ∃ files, (filesBelowWays root).ComesTo host t (.ok files) t ∧ files.Nodup ∧
        ∀ p, p ∈ files ↔ ∃ names node, t.Leads r names node ∧ node.kind = .file ∧
          p = names.foldl Path.child r.path) ∧
    ((∀ r, t.canonical host.here root = .ok (Location.path r) → t.get? r ≠ some .directory) →
      ∃ p cause, (walkWays root).ComesTo host t (.error (.traversal p cause)) t ∧
        (filesBelowWays root).ComesTo host t (.error (.traversal p cause)) t) := by
  refine ⟨walkWays_has root, filesBelowWays_has root, fun r hroot hr => ⟨?_, ?_⟩,
    walkWays_comesTo_error hhere⟩
  · obtain ⟨found, hrun, henum⟩ := walk_outcome hroot hr
    have halike : (walkWays root).Alike host (.ends ∅) r.inside t (walk root) :=
      walkWays_alike hroot hr
    refine ⟨found, halike.comesTo hrun, henum.nodup_paths, henum.path_notMem, fun f => ?_⟩
    rw [henum.mem_iff]
    exact FileTree.exists_below_iff (p := fun kind path => kind ≠ .link ∧ f = ⟨path, kind⟩)
  · obtain ⟨files, hrun, hperm⟩ := filesBelow_outcome hroot hr
    have halike : (filesBelowWays root).Alike host (.ends ∅) r.inside t (filesBelow root) :=
      filesBelowWays_alike hroot hr
    refine ⟨files, halike.comesTo hrun, hperm.nodup_iff.2 (t.filesUnder_nodup r), fun q => ?_⟩
    rw [hperm.mem_iff, FileTree.mem_filesUnder_iff]
    exact FileTree.exists_below_iff (p := fun kind path => kind = .file ∧ q = path)

/-- A directory with a link to the one above it and one to itself, that can be reached through a
link. -/
def linkedTree : FileTree :=
  .ofEntries [("/r/d/f", .file [0x61] false), ("/r/d/up", .link (.ofText "..".toList)),
    ("/r/loop", .link (.ofText "loop".toList)), ("/s", .link (.ofText "r".toList))]

/-- Its links are neither followed nor found, and one that leads nowhere is not walked. -/
theorem walk_complete_of_links :
    let root := Path.ofText "/s".toList
    let loop := Path.ofText "/s/loop".toList
    linkedTree.get? Host.plain.here = some .directory ∧
      (walkWays root).ComesTo .plain linkedTree
        (.ok [⟨.ofText "/r/d".toList, .directory⟩, ⟨.ofText "/r/d/f".toList, .file⟩]) linkedTree ∧
      ∃ p cause, (walkWays loop).ComesTo .plain linkedTree (.error (.traversal p cause))
        linkedTree := by
  intro root loop
  have hhere : linkedTree.get? Host.plain.here = some .directory := by decide +kernel
  have hroot : linkedTree.canonical Host.plain.here root =
      .ok (Location.path (Path.ofText "/r".toList).location) := by decide +kernel
  have hr : linkedTree.get? (Path.ofText "/r".toList).location = some .directory := by
    decide +kernel
  have hloop : linkedTree.canonical Host.plain.here loop = .error .tooManyLinks := by
    decide +kernel
  have hfound : ((walk root).outcome .plain linkedTree).1 =
      .ok [⟨.ofText "/r/d".toList, .directory⟩, ⟨.ofText "/r/d/f".toList, .file⟩] := by
    decide +kernel
  obtain ⟨hhas, -, hcomplete, -⟩ := walk_complete .plain hhere root
  obtain ⟨⟨found, hways, -⟩, -⟩ := hcomplete _ hroot hr
  rw [hways _ hhas] at hfound
  obtain rfl := Except.ok.inj hfound
  obtain ⟨-, -, -, hfails⟩ := walk_complete .plain hhere loop
  obtain ⟨p, cause, hways', -⟩ := hfails fun r hr => nomatch hloop.symm.trans hr
  exact ⟨hhere, hways, p, cause, hways'⟩

end Walk

end DualModule

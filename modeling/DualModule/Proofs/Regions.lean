import DualModule.Proofs.Confinement
import DualModule.Proofs.ImportPass
/-!
# Operations that keep to a region

Reading a file that has one name and writing to it is about one location, and confined to every
region that has this location in it (`editFile_confined`).  If the file had another name, it would
change there as well.

**Ways have to stay.**  All other requests are about an entry and the way that leads to it.  What
others may do is therefore limited (`Tolerance.ends`): directories and links stay what they are, and
new files appear at certain places only.  Then a directory whose entries are in the region is listed
alike, a test gives the same answer, and linking and unlinking succeed as they would alone.

## Main Definitions

* `Tolerance.ends`
-/

namespace DualModule

open Attempt

variable {host : Host} {tolerance : Tolerance} {region places : Set Location} {t u : FileTree}
variable {n o : FileName} {d l r : Location} {content old : Bytes} {executable : Bool}

/-! ### Reading and writing -/

namespace FileTree

theorem view_of_updated {x : Option Node} (h : t.Updated l x u) (hnames : t.SameNames u)
    (k : Location) : u.view k = if k = l then (x, (t.view k).2) else t.view k := by
  have htwins : (u.view k).2 = (t.view k).2 := Set.ext (hnames k)
  split
  · rename_i hk
    exact Prod.ext (hk ▸ h.get?_self) htwins
  · rename_i hk
    exact Prod.ext (h.get?_of_ne hk) htwins

theorem Linked.view_eq {k : Location} (h : t.Linked l k u) (halone : t.Alone l) (hne : l ≠ k)
    (hfresh : t.Alone k) (a : Location) : u.view a =
      if a = k then (t.get? l, {l}) else if a = l then (t.get? l, {k}) else t.view a := by
  have htwins : ∀ b, b ∈ (u.view a).2 ↔ t.Twin a b ∨ a = l ∧ b = k ∨ a = k ∧ b = l :=
    h.twin_iff halone a
  by_cases hk : a = k
  · subst hk
    rw [if_pos rfl]
    refine Prod.ext h.updated.get?_self (Set.ext fun b => ?_)
    simp [htwins, hfresh b, hne.symm]
  · rw [if_neg hk]
    by_cases hl : a = l
    · subst hl
      rw [if_pos rfl]
      refine Prod.ext (h.updated.get?_of_ne hne) (Set.ext fun b => ?_)
      simp [htwins, halone b, hne]
    · rw [if_neg hl]
      refine Prod.ext (h.updated.get?_of_ne hk) (Set.ext fun b => ?_)
      exact (htwins b).trans (by simp [hk, hl, view])

theorem Unlinked.view_eq (h : t.Unlinked l u) (k : Location) :
    u.view k = if k = l then (none, ∅) else (t.get? k, (t.view k).2 \ {l}) := by
  split
  · rename_i hk
    refine Prod.ext (hk ▸ h.updated.get?_self) (Set.ext fun b => ?_)
    exact iff_of_false (fun hb => ((h.twin_iff k b).1 hb).1 hk) (Set.notMem_empty b)
  · rename_i hk
    refine Prod.ext (h.updated.get?_of_ne hk) (Set.ext fun b => ?_)
    refine (h.twin_iff k b).trans ?_
    simp [hk, view, and_comm]

end FileTree

namespace Request.Confined

/-- A request that makes the same of what is at each location, whatever is outside the region, and
leaves that as it is. -/
theorem of_change {r : Request} (reply : r.Reply)
    (change : Location → Option Node × Set Location → Option Node × Set Location)
    (hanswer : ∀ u, t.Seen tolerance region u → (r.answer host u).1 = reply ∧
      ∀ k, (r.answer host u).2.view k = change k (u.view k))
    (houtside : ∀ u, t.Seen tolerance region u → ∀ k ∉ region, change k (u.view k) = u.view k)
    (hallows : ∀ k ∈ region, tolerance.Allows k (t.get? k) (change k (t.view k)).1) :
    r.Confined host tolerance region t := by
  obtain ⟨hreply, hview⟩ := hanswer t (.refl _ _ t)
  constructor
  · intro u hu
    rw [(hanswer u hu).1, hreply]
  · intro u hu k hk
    rw [(hanswer u hu).2 k, hview k, hu.inside k hk]
  · intro u hu k hk
    rw [(hanswer u hu).2 k, houtside u hu k hk]
  · intro k hk
    have hk' := hallows k hk
    rwa [← hview k] at hk'

theorem read (h : t.get? l = some (.file content executable)) (hl : l ∈ region) :
    (Request.read l.path).Confined host tolerance region t := by
  refine of_unchanged (fun _ => rfl) ?_
  intro u hu
  show u.read host.here l.path = t.read host.here l.path
  rw [FileTree.read_path h, FileTree.read_path ((hu.get?_eq hl).trans h)]

theorem write (h : t.get? (n :: d) = some (.file old executable)) (halone : t.Alone (n :: d))
    (hl : n :: d ∈ region)
    (hallows : tolerance.Allows (n :: d) (some (.file old executable))
      (some (.file content executable))) :
    (Request.write (Location.path (n :: d)) content).Confined host tolerance region t := by
  refine of_change (.ok ())
    (fun k x => if k = n :: d then (some (.file content executable), x.2) else x) ?_ ?_ ?_
  · intro u hu
    have hfile := (hu.get?_eq hl).trans h
    rw [answer, FileTree.write_path host.here hfile]
    exact ⟨rfl, FileTree.view_of_updated
      (FileTree.updated_overwrite hfile (hu.alone hl halone)) (u.sameNames_overwrite _ _ _)⟩
  · intro u _ k hk
    rw [if_neg]
    rintro rfl
    exact hk hl
  · intro k _
    split
    · rename_i hk
      rw [hk, h]
      exact hallows
    · exact tolerance.refl k _

end Request.Confined

/-- **Editing a file** that has one name keeps to every region that the file is in. -/
theorem editFile_confined (mappings : List Mapping)
    (h : t.get? (n :: d) = some (.file old executable)) (halone : t.Alone (n :: d))
    (hl : n :: d ∈ region)
    (hallows : ∀ new, tolerance.Allows (n :: d) (some (.file old executable))
      (some (.file new executable))) :
    (editFile mappings (Location.path (n :: d))).Confined host tolerance region t := by
  have hread : (Procedure.request (.read (Location.path (n :: d)))).run host t =
      (.ok old, t) := by
    rw [run_request, Request.answer, FileTree.read_path h]
  unfold editFile
  refine Confined.bind_ok ?_ (outcome_explained hread _) ?_
  · exact confined_explained (Procedure.confined_request (.read h hl)) _
  · have hwrite : (Procedure.request (.write (Location.path (n :: d))
        (editContent mappings (Location.path (n :: d)) old).1)).Confined host tolerance region t :=
      Procedure.confined_request (.write h halone hl (hallows _))
    exact (confined_explained hwrite _).bind fun _ _ => confined_pure _

/-- The regions of different files are disjoint. -/
theorem Location.pairwise_disjoint {files : List Path} (hnodup : files.Nodup)
    (hfiles : ∀ f ∈ files, ∃ l : Location, f = l.path) :
    files.Pairwise fun f g => Disjoint ({f.location} : Set Location) {g.location} := by
  refine hnodup.imp_of_mem fun {f g} hf hg hne => ?_
  obtain ⟨l, rfl⟩ := hfiles f hf
  obtain ⟨k, rfl⟩ := hfiles g hg
  rw [Location.location_path, Location.location_path]
  refine Set.disjoint_left.2 ?_
  rintro _ rfl rfl
  exact hne rfl

/-! ### Requests about ways -/

namespace FileTree

/-- Whether an entry is one of the directory at `d`. -/
def isEntryOf (d : Location) (l : Location) (_ : Node) : Bool := (nameIn? d l).isSome

/-- The entries of a directory are a tree map of their own. -/
theorem children_eq (t : FileTree) (d : Location) :
    t.children d = (t.nodes.filter (isEntryOf d)).toList.filterMap fun entry =>
      (nameIn? d entry.1).map (·, entry.2) := by
  rw [Std.ExtTreeMap.toList_filter, List.filterMap_filter, children]
  congr 1
  funext entry
  cases hname : nameIn? d entry.1 <;> simp [isEntryOf, hname]

/-- What is in a directory decides how it is listed. -/
theorem children_congr (h : ∀ n, u.get? (n :: d) = t.get? (n :: d)) :
    u.children d = t.children d := by
  have hsame : u.nodes.filter (isEntryOf d) = t.nodes.filter (isEntryOf d) := by
    refine Std.ExtTreeMap.ext_getElem? fun l => ?_
    rw [Std.ExtTreeMap.getElem?_filter', Std.ExtTreeMap.getElem?_filter']
    cases hname : nameIn? d l with
    | none =>
        have hfalse : isEntryOf d l = fun _ => false := by
          funext node
          rw [isEntryOf, hname]
          rfl
        rw [hfalse]
        simp
    | some n =>
        obtain rfl := nameIn?_eq_some_iff.1 hname
        exact congrArg _ (h n)
  rw [children_eq, children_eq, hsame]

end FileTree

/-- What is at a name, and no link, decides how it is tested. -/
theorem FileTree.exists?_path_congr {here : Location} (ht : t.get? d = some .directory)
    (hu : u.get? d = some .directory) (h : u.get? (n :: d) = t.get? (n :: d))
    (hlink : ∀ target, t.get? (n :: d) ≠ some (.link target)) :
    u.exists? here (Location.path (n :: d)) = t.exists? here (Location.path (n :: d)) := by
  have hspot : u.spot here (Location.path (n :: d)) true =
      t.spot here (Location.path (n :: d)) true := by
    by_cases hn : maxNameLength < n.bytes.length
    · rw [spot, spot, Path.start_of_isAbsolute (Location.isAbsolute_path _), Location.path_cons,
        Path.lookupSteps_child, Location.steps_path, resolve_canonical hu, resolve_canonical ht,
        resolve, resolve, advance, if_pos hn, advance, if_pos hn]
    · rw [spot_path_cons hu hn, spot_path_cons ht hn, h]
      cases hnode : t.get? (n :: d) with
      | none => rfl
      | some node =>
          cases node with
          | directory => rfl
          | file content executable => rfl
          | link target => exact absurd hnode (hlink target)
  rw [exists?, exists?, locate, locate, hspot]

/-- Where ways end, a file may be given other bytes, and at some places files may appear and
disappear. -/
def Tolerance.ends (places : Set Location) : Tolerance where
  Allows l x y := x = y ∨
    FileTree.IsEnd x ∧ FileTree.IsEnd y ∧ (x.isSome = y.isSome ∨ l ∈ places)
  refl l x := Or.inl rfl
  trans := by
    rintro l x y z (rfl | ⟨hx, hy, hxy⟩) (rfl | ⟨hy', hz, hyz⟩)
    · exact Or.inl rfl
    · exact Or.inr ⟨hy', hz, hyz⟩
    · exact Or.inr ⟨hx, hy, hxy⟩
    · refine Or.inr ⟨hx, hz, ?_⟩
      rcases hxy with hxy | hl
      · exact hyz.imp_left hxy.trans
      · exact Or.inr hl

theorem FileTree.Seen.sameWays (h : t.Seen (.ends places) region u) : SameWays t u := by
  refine .of_isEnd fun l => ?_
  by_cases hl : l ∈ region
  · exact Or.inl (h.get?_eq hl)
  · rcases h.outside l hl with heq | ⟨ht, hu, -⟩
    · exact Or.inl heq.symm
    · exact Or.inr ⟨ht, hu⟩

namespace Request.Confined

/-- What leads to a directory leads there whatever files there are. -/
theorem canonicalize {p : Path} (hp : t.canonical host.here p = .ok r.path)
    (hr : t.get? r = some .directory) :
    (Request.canonicalize p).Confined host (.ends places) region t := by
  refine of_unchanged (fun _ => rfl) ?_
  intro u hu
  show u.canonical host.here p = t.canonical host.here p
  rw [hp, hu.sameWays.canonical_eq hr hp]

theorem list (hd : t.get? d = some .directory) (hregion : ∀ n, n :: d ∈ region) :
    (Request.list d.path).Confined host (.ends places) region t := by
  refine of_unchanged (fun _ => rfl) ?_
  intro u hu
  show listing host u d.path = listing host t d.path
  rw [FileTree.listing_path hd, FileTree.listing_path ((hu.sameWays.directory d).1 hd),
    FileTree.children_congr fun n => hu.get?_eq (hregion n)]

theorem test (hd : t.get? d = some .directory) (hl : n :: d ∈ region)
    (hlink : ∀ target, t.get? (n :: d) ≠ some (.link target)) :
    (Request.test (Location.path (n :: d))).Confined host (.ends places) region t := by
  refine of_unchanged (fun _ => rfl) ?_
  intro u hu
  exact FileTree.exists?_path_congr hd ((hu.sameWays.directory d).1 hd) (hu.get?_eq hl) hlink

theorem link (hfile : t.get? (o :: d) = some (.file content executable))
    (halone : t.Alone (o :: d)) (hfree : t.get? (n :: d) = none)
    (haddressable : Location.Addressable (n :: d)) (hold : o :: d ∈ region)
    (hnew : n :: d ∈ region) (hplace : n :: d ∈ places) :
    (Request.link (Location.path (o :: d)) (Location.path (n :: d))).Confined host
      (.ends places) region t := by
  have hne : o :: d ≠ n :: d := by
    intro heq
    rw [heq, hfree] at hfile
    cases hfile
  refine of_change (.ok ()) (fun k x =>
    if k = n :: d then (t.get? (o :: d), {o :: d})
    else if k = o :: d then (t.get? (o :: d), {n :: d}) else x) ?_ ?_ ?_
  · intro u hu
    have hfile' := (hu.get?_eq hold).trans hfile
    have hfree' := (hu.get?_eq hnew).trans hfree
    obtain ⟨v, hv, hlinked⟩ := FileTree.link_path host.here hfile' haddressable hfree'
      (FileTree.parent_of_eq_some hfile')
    rw [answer, hv, ← hu.get?_eq hold]
    exact ⟨rfl, hlinked.view_eq (hu.alone hold halone) hne (FileTree.not_twin_of_eq_none hfree')⟩
  · intro u _ k hk
    have hkn : k ≠ n :: d := fun h => hk (h ▸ hnew)
    have hko : k ≠ o :: d := fun h => hk (h ▸ hold)
    rw [if_neg hkn, if_neg hko]
  · intro k _
    split
    · rename_i hk
      rw [hk, hfree, hfile]
      exact Or.inr ⟨FileTree.isEnd_none, FileTree.isEnd_file _ _, Or.inr hplace⟩
    · split
      · rename_i hk
        rw [hk]
        exact Tolerance.refl _ _ _
      · exact Tolerance.refl _ _ _

/-- Taking a name away is about all names of the file. -/
theorem unlink (hfile : t.get? (o :: d) = some (.file content executable))
    (htwins : ∀ k, t.Twin (o :: d) k → k ∈ region) (hold : o :: d ∈ region)
    (hplace : o :: d ∈ places) :
    (Request.unlink (Location.path (o :: d))).Confined host (.ends places) region t := by
  refine of_change (.ok ())
    (fun k x => if k = o :: d then (none, ∅) else (x.1, x.2 \ {o :: d})) ?_ ?_ ?_
  · intro u hu
    obtain ⟨v, hv, hunlinked⟩ := FileTree.unlink_path host.here ((hu.get?_eq hold).trans hfile)
      (by simp)
    rw [answer, hv]
    exact ⟨rfl, hunlinked.view_eq⟩
  · intro u hu k hk
    have hko : k ≠ o :: d := fun h => hk (h ▸ hold)
    have htwin : o :: d ∉ (u.view k).2 := by
      intro hmem
      have hmem : u.Twin k (o :: d) := hmem
      exact hk (htwins k ((FileTree.twin_iff_of_view (hu.inside _ hold) k).1 hmem.symm))
    rw [if_neg hko, Set.sdiff_singleton_eq_self htwin]
  · intro k _
    split
    · rename_i hk
      rw [hk, hfile]
      exact Or.inr ⟨FileTree.isEnd_file _ _, FileTree.isEnd_none, Or.inr hplace⟩
    · exact Tolerance.refl _ _ _

end Request.Confined

end DualModule

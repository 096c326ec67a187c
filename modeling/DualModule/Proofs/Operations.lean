import DualModule.Proofs.Lookup
/-!
# Operations at canonical paths

What reading, writing, linking and unlinking do when they are given canonical paths.  Each changes
one location and leaves all others alone (`FileTree.Updated`), so that the passes can be described
by what is at each location before and after, without trees being built.  A file that is written to
has to have one name for this; else it changes under all its names.

Which locations are names of one file is said apart: writing leaves it as it is
(`FileTree.SameNames`), linking and unlinking a file with one name add a pair of names and take it
away.  A directory whose files have one name each is `FileTree.Single`.

Whether an operation is refused depends only on what is at the location and in the directory above
it.
-/

namespace DualModule.FileTree

variable {t u : FileTree} {here : Location} {n : FileName} {d l : Location}

/-- The second tree is the first one with `x` at one location. -/
def Updated (t : FileTree) (l : Location) (x : Option Node) (u : FileTree) : Prop :=
  ∀ k, u.get? k = if k = l then x else t.get? k

namespace Updated

variable {x : Option Node}

theorem get?_self (h : Updated t l x u) : u.get? l = x := by
  rw [h l, if_pos rfl]

theorem get?_of_ne (h : Updated t l x u) {k : Location} (hk : k ≠ l) : u.get? k = t.get? k := by
  rw [h k, if_neg hk]

/-- Where something is, nothing new comes. -/
theorem keeps (h : Updated t l x u) (hfree : t.get? l = none) {k : Location} {node : Node}
    (hk : t.get? k = some node) : u.get? k = some node := by
  rw [h.get?_of_ne, hk]
  rintro rfl
  rw [hfree] at hk
  cases hk

end Updated

/-- No file below the directory at `r` has a second name, there or elsewhere. -/
def Single (t : FileTree) (r : Location) : Prop := ∀ l, Location.Below r l → t.Alone l

theorem single_iff {r : Location} :
    t.Single r ↔ ∀ pair ∈ t.twins.toList, ¬ Location.Below r pair.1 := by
  constructor
  · rintro h ⟨l, k⟩ hpair hl
    exact h l hl k (Std.ExtTreeSet.mem_toList.1 hpair)
  · intro h l hl k hk
    exact h (l, k) (Std.ExtTreeSet.mem_toList.2 hk) hl

instance (t : FileTree) (r : Location) : Decidable (t.Single r) :=
  @decidable_of_iff _ _ single_iff.symm (List.decidableBAll _ _)

/-- A root that has been resolved leads to one directory. -/
theorem single_of_canonical {root : Path} {r : Location}
    (hroot : t.canonical here root = .ok r.path) (hr : t.Single r) {s : Location}
    (hs : t.canonical here root = .ok s.path) : t.Single s := by
  rwa [Location.path_injective (Except.ok.inj (hs.symm.trans hroot))]

/-- The same locations are names of one file. -/
def SameNames (t u : FileTree) : Prop := ∀ l k, u.Twin l k ↔ t.Twin l k

namespace SameNames

variable {v : FileTree}

theorem refl (t : FileTree) : t.SameNames t := fun _ _ => Iff.rfl

theorem trans (h : t.SameNames u) (h' : u.SameNames v) : t.SameNames v :=
  fun l k => (h' l k).trans (h l k)

theorem alone_iff (h : t.SameNames u) : u.Alone l ↔ t.Alone l :=
  forall_congr' fun k => not_congr (h l k)

theorem single_iff {r : Location} (h : t.SameNames u) : u.Single r ↔ t.Single r :=
  forall₂_congr fun _ _ => h.alone_iff

end SameNames

/-- What is at no location has no other name. -/
theorem not_twin_of_eq_none (h : t.get? l = none) (k : Location) : ¬ t.Twin l k :=
  alone_of_ne_file (by simp [h]) k

/-! ### Reading and writing -/

theorem read_path {content : Bytes} {executable : Bool}
    (h : t.get? l = some (.file content executable)) : t.read here l.path = .ok content := by
  have hl : t.locate here l.path true = .ok l := locate_path h (by simp)
  rw [read, hl]
  simp [h, bind, Except.bind, pure, Except.pure]

theorem place_eq_ok (hd : t.get? d = some .directory) (hn : t.get? (n :: d) ≠ some .directory)
    (ha : Location.Addressable (n :: d)) (node : Node) :
    t.place n d node = .ok (t.put n d node hd hn ha) := by
  rw [place, dif_pos hd, dif_neg hn, dif_pos ha]

theorem updated_of_place {node : Node} (h : t.place n d node = .ok u) :
    Updated t (n :: d) (some node) u := by
  rw [place] at h
  split at h
  · split at h
    · cases h
    · split at h
      · cases h
        exact get?_put
      · cases h
  · cases h

/-- **Writing to a file** gives it other bytes. -/
theorem write_path (here : Location) {old : Bytes} {executable : Bool}
    (h : t.get? (n :: d) = some (.file old executable)) (content : Bytes) :
    t.write here (Location.path (n :: d)) content =
      .ok (t.overwrite (n :: d) content executable) := by
  have hd := parent_of_eq_some h
  have ha := addressable_of_eq_some h
  have hspot : t.spot here (Location.path (n :: d)) true = .ok (.taken (n :: d)) := by
    rw [spot_path_cons hd ha.length_name, h]
  -- a canonical path ends in a name, so that nothing has to be a directory
  rw [write, Location.check_path ha, Location.path_cons, Path.endsInSlash_child,
    ← Location.path_cons, hspot]
  simp [h, bind, Except.bind, pure, Except.pure]

/-- A file with one name changes in one place. -/
theorem updated_overwrite {old content : Bytes} {mode executable : Bool}
    (h : t.get? l = some (.file old mode)) (halone : t.Alone l) :
    Updated t l (some (.file content executable)) (t.overwrite l content executable) := by
  intro k
  have hsame : t.SameFile l k ↔ k = l :=
    ⟨fun hk => (halone.eq_of_sameFile hk).symm, fun hk => Or.inl hk.symm⟩
  simp only [get?_overwrite h, hsame]

theorem sameNames_overwrite (t : FileTree) (l : Location) (content : Bytes) (executable : Bool) :
    t.SameNames (t.overwrite l content executable) := fun _ _ => twin_overwrite

/-! ### Linking and unlinking -/

/-- Where nothing is in a directory, an entry can be made. -/
theorem vacancy_path (here : Location) (ha : Location.Addressable (n :: d)) (kind : NodeKind)
    (h : t.get? (n :: d) = none) (hd : t.get? d = some .directory) :
    t.vacancy here (Location.path (n :: d)) kind = .ok (n, d) := by
  rw [vacancy, locateParent_path hd (Location.check_path ha)]
  simp [ha.length_name, h, bind, Except.bind, pure, Except.pure]

/-- A place that is taken is refused. -/
theorem vacancy_eq_error (here : Location) (ha : Location.Addressable (n :: d)) (kind : NodeKind)
    (h : t.get? (n :: d) ≠ none) (hd : t.get? d = some .directory) :
    t.vacancy here (Location.path (n :: d)) kind = .error .alreadyExists := by
  rw [vacancy, locateParent_path hd (Location.check_path ha)]
  simp [ha.length_name, h, bind, Except.bind, throw, throwThe, MonadExceptOf.throw]

theorem create_eq_ok (here : Location) (ha : Location.Addressable (n :: d)) (node : Node)
    (h : t.get? (n :: d) = none) (hd : t.get? d = some .directory) :
    ∃ u, t.create here (Location.path (n :: d)) node = .ok u ∧
      Updated t (n :: d) (some node) u := by
  have hn : t.get? (n :: d) ≠ some .directory := by simp [h]
  refine ⟨t.put n d node hd hn ha, ?_, fun k => get?_put k⟩
  rw [create, vacancy_path here ha node.kind h hd]
  exact place_eq_ok hd hn ha node

/-- The second tree is the first one with another name for the file at `l`. -/
structure Linked (t : FileTree) (l k : Location) (u : FileTree) : Prop where
  updated : Updated t k (t.get? l) u
  /-- if the file had one name, now it has two -/
  twin_iff : t.Alone l → ∀ a b, u.Twin a b ↔ t.Twin a b ∨ a = l ∧ b = k ∨ a = k ∧ b = l

/-- Two files with one name each become one file with two names. -/
theorem twin_identify_of_alone {k a b : Location} (h : t.Alike l k) (hl : t.Alone l)
    (hk : t.Alone k) (hne : l ≠ k) :
    (t.identify l k).Twin a b ↔ t.Twin a b ∨ a = l ∧ b = k ∨ a = k ∧ b = l := by
  have hl' : ∀ c, t.SameFile l c ↔ c = l :=
    fun c => ⟨fun hc => (hl.eq_of_sameFile hc).symm, fun hc => Or.inl hc.symm⟩
  have hk' : ∀ c, t.SameFile k c ↔ c = k :=
    fun c => ⟨fun hc => (hk.eq_of_sameFile hc).symm, fun hc => Or.inl hc.symm⟩
  rw [twin_identify h, United, and_or_left, ← twin_iff]
  simp only [sameFile_comm (l := a) (k := l), sameFile_comm (l := a) (k := k), hl', hk']
  refine or_congr_right (and_iff_right_of_imp ?_)
  rintro (⟨rfl, rfl⟩ | ⟨rfl, rfl⟩)
  · exact hne
  · exact hne.symm

/-- **Linking a file** to a free place in a directory gives it a second name. -/
theorem link_path (here : Location) {content : Bytes} {executable : Bool}
    (h : t.get? l = some (.file content executable)) (ha : Location.Addressable (n :: d))
    (hfree : t.get? (n :: d) = none) (hd : t.get? d = some .directory) :
    ∃ u, t.link here l.path (Location.path (n :: d)) = .ok u ∧ Linked t l (n :: d) u := by
  have hl : t.locate here l.path false = .ok l := locate_path h (by simp)
  have hn : t.get? (n :: d) ≠ some .directory := by simp [hfree]
  have hne : l ≠ n :: d := by
    rintro rfl
    rw [hfree] at h
    cases h
  let v := t.put n d (.file content executable) hd hn ha
  have halike : v.Alike l (n :: d) := ⟨⟨content, executable, by simp [v, h, hne]⟩, by simp [v, h]⟩
  -- the new entry is a file of its own at first, which concerns no other
  have hnames : t.SameNames v := by
    intro a b
    rw [twin_put, ← and_assoc, and_iff_right_of_imp]
    intro hab
    constructor
    · rintro rfl
      exact not_twin_of_eq_none hfree _ hab
    · rintro rfl
      exact not_twin_of_eq_none hfree _ hab.symm
  refine ⟨v.identify l (n :: d), ?_, ?_, ?_⟩
  · rw [link, hl]
    simp only [h, bind, Except.bind]
    rw [vacancy_path here ha _ hfree hd]
    simp only [place_eq_ok hd hn ha]
    rfl
  · intro k
    rw [get?_identify, get?_put, h]
  · intro halone a b
    rw [twin_identify_of_alone halike (hnames.alone_iff.2 halone)
      (hnames.alone_iff.2 (not_twin_of_eq_none hfree)) hne, hnames]

/-- A place that is taken is refused. -/
theorem link_path_eq_error {content : Bytes} {executable : Bool}
    (h : t.get? l = some (.file content executable)) (ha : Location.Addressable (n :: d))
    (htaken : t.get? (n :: d) ≠ none) (hd : t.get? d = some .directory) :
    t.link here l.path (Location.path (n :: d)) = .error .alreadyExists := by
  have hl : t.locate here l.path false = .ok l := locate_path h (by simp)
  rw [link, hl]
  simp only [h, bind, Except.bind]
  rw [vacancy_eq_error here ha _ htaken hd]

/-- The second tree is the first one without the name `l`. -/
structure Unlinked (t : FileTree) (l : Location) (u : FileTree) : Prop where
  updated : Updated t l none u
  twin_iff : ∀ a b, u.Twin a b ↔ a ≠ l ∧ b ≠ l ∧ t.Twin a b

/-- **Taking a name away** that is not a directory's. -/
theorem unlink_path (here : Location) {node : Node} (h : t.get? (n :: d) = some node)
    (hnode : node ≠ .directory) :
    ∃ u, t.unlink here (Location.path (n :: d)) = .ok u ∧ Unlinked t (n :: d) u := by
  have hd := parent_of_eq_some h
  have ha := addressable_of_eq_some h
  have hn : t.get? (n :: d) ≠ some .directory := by simpa [h] using hnode
  refine ⟨t.remove (n :: d) hn, ?_, fun k => get?_remove k, fun a b => twin_remove⟩
  rw [unlink, locateParent_path hd (Location.check_path ha)]
  simp [ha.length_name, h, hnode, bind, Except.bind, pure, Except.pure]

/-- **A file that gets a second name and loses the first one** has one name again, and no other file
is concerned. -/
theorem Linked.sameNames {v : FileTree} {k : Location} (h : Linked t l k u) (h' : Unlinked u l v)
    (halone : t.Alone l) : t.SameNames v := by
  intro a b
  rw [h'.twin_iff, h.twin_iff halone]
  constructor
  · rintro ⟨ha, hb, hab | ⟨hal, -⟩ | ⟨-, hbl⟩⟩
    · exact hab
    · exact absurd hal ha
    · exact absurd hbl hb
  · intro hab
    refine ⟨?_, ?_, Or.inl hab⟩
    · rintro rfl
      exact halone b hab
    · rintro rfl
      exact halone a hab.symm

end DualModule.FileTree

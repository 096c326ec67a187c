import DualModule.Proofs.Descent
import DualModule.Proofs.Operations
import DualModule.Proofs.Walk
/-!
# Directories taken away and made

What taking away and making directories do at a path that goes down (`Path.Descends`), which may
lead through links.

**Only one location is emptied.**  Taking away what a path names empties its location
(`FileTree.Emptied`), after which the path leads nowhere (`FileTree.removeTree_ok`).  The directory
itself may be left, if the way to it went through a link inside it.

**Only what was missing is made.**  Where a path leads nowhere, its names up to some point lead to a
directory.  From there on new directories are made, one inside the other, and the path leads to the
last of them (`FileTree.Made`, `FileTree.makeDirectories_ok`).

## Main Definitions

* `FileTree.Emptied`
* `FileTree.Made`
-/

namespace DualModule

namespace FileTree

variable {t u v : FileTree} {here : Location} {follow : Bool} {n : FileName} {d l k : Location}
variable {p : Path} {node : Node}

/-! ### Single operations -/

/-- What is done to the entry of a name in a directory succeeds only if there is such a name. -/
theorem exists_of_locateParent_bind {α : Type} {x : α}
    {f : Location × Option Step → Except SystemError α}
    (hf : ∀ d step, f (d, step) = .ok x → ∃ n, step = some (.down n))
    (h : t.locateParent here p >>= f = .ok x) :
    ∃ n d, t.locateParent here p = .ok (d, some (.down n)) ∧ f (d, some (.down n)) = .ok x := by
  cases hparent : t.locateParent here p with
  | error cause =>
      rw [hparent] at h
      cases h
  | ok found =>
      obtain ⟨d, step⟩ := found
      rw [hparent] at h
      obtain ⟨n, rfl⟩ := hf d step h
      exact ⟨n, d, rfl, h⟩

theorem vacancy_ok {kind : NodeKind} (h : t.vacancy here p kind = .ok (n, d)) :
    t.locateParent here p = .ok (d, some (.down n)) ∧ t.get? (n :: d) = none := by
  obtain ⟨m, e, hparent, hfound⟩ := exists_of_locateParent_bind
    (fun _ step h => match step, h with | some (.down n), _ => ⟨n, rfl⟩) h
  simp only [bind, Except.bind] at hfound
  split at hfound
  · cases hfound
  · split at hfound
    · cases hfound
    · rename_i hnone
      split at hfound
      · cases hfound
      · cases hfound
        exact ⟨hparent, not_not.1 hnone⟩

theorem create_ok (h : t.create here p node = .ok u) :
    ∃ n d, t.locateParent here p = .ok (d, some (.down n)) ∧ t.get? (n :: d) = none ∧
      t.Updated (n :: d) (some node) u := by
  rw [create] at h
  cases hvacancy : t.vacancy here p node.kind with
  | error cause =>
      rw [hvacancy] at h
      cases h
  | ok place =>
      obtain ⟨n, d⟩ := place
      rw [hvacancy] at h
      obtain ⟨hparent, hnone⟩ := vacancy_ok hvacancy
      exact ⟨n, d, hparent, hnone, updated_of_place h⟩

theorem unlink_ok (h : t.unlink here p = .ok u) :
    ∃ n d, t.locateParent here p = .ok (d, some (.down n)) ∧ t.Updated (n :: d) none u := by
  obtain ⟨n, d, hparent, hremove⟩ := exists_of_locateParent_bind
    (fun _ step h => match step, h with | some (.down n), _ => ⟨n, rfl⟩) h
  refine ⟨n, d, hparent, ?_⟩
  simp only [bind, Except.bind] at hremove
  split at hremove
  · cases hremove
  · split at hremove
    · cases hremove
    · split at hremove
      · cases hremove
      · split at hremove
        · cases hremove
        · obtain rfl := Except.ok.inj hremove
          exact get?_remove

theorem removeDirectory_ok (h : t.removeDirectory here p = .ok u) :
    ∃ n d, t.locateParent here p = .ok (d, some (.down n)) ∧
      ∀ k, u.get? k = if n :: d <:+ k then none else t.get? k := by
  obtain ⟨n, d, hparent, hprune⟩ := exists_of_locateParent_bind
    (fun _ step h => match step, h with | some (.down n), _ => ⟨n, rfl⟩) h
  refine ⟨n, d, hparent, ?_⟩
  simp only [bind, Except.bind] at hprune
  split at hprune
  · cases hprune
  · split at hprune
    · cases hprune
    · split at hprune
      · obtain rfl := Except.ok.inj hprune
        exact get?_prune
      · cases hprune
    · cases hprune

/-- At a canonical path an empty directory can be taken away. -/
theorem removeDirectory_path (here : Location) (h : t.get? (n :: d) = some .directory)
    (hempty : ∀ k, Location.Below (n :: d) k → t.get? k = none) :
    ∃ u, t.removeDirectory here (Location.path (n :: d)) = .ok u ∧ t.Updated (n :: d) none u := by
  have haddr := addressable_of_eq_some h
  have hchildren : t.children (n :: d) = [] := by
    refine List.eq_nil_iff_forall_not_mem.2 ?_
    rintro ⟨m, node⟩ hm
    have hbelow : Location.Below (n :: d) (m :: n :: d) :=
      ⟨List.suffix_cons _ _, List.ne_cons_self⟩
    cases (hempty _ hbelow).symm.trans (mem_children_iff.1 hm)
  refine ⟨t.prune (n :: d) (List.cons_ne_nil n d), ?_, fun k => ?_⟩
  · rw [removeDirectory, locateParent_path (parent_of_eq_some h) (Location.check_path haddr)]
    simp [haddr.length_name, h, hchildren, bind, Except.bind, pure, Except.pure]
  · rw [get?_prune]
    by_cases hk : n :: d <:+ k
    · rw [if_pos hk]
      by_cases hkl : k = n :: d
      · rw [if_pos hkl]
      · rw [if_neg hkl, hempty k ⟨hk, Ne.symm hkl⟩]
    · rw [if_neg hk, if_neg]
      rintro rfl
      exact hk List.suffix_rfl

/-- A directory that is found is not missing. -/
theorem removeDirectory_ne_noEntry (hparent : t.locateParent here p = .ok (d, some (.down n)))
    (h : t.get? (n :: d) = some .directory) : t.removeDirectory here p ≠ .error .noEntry := by
  rw [removeDirectory, hparent]
  simp only [bind, Except.bind, if_neg (addressable_of_eq_some h).length_name, h]
  split <;> simp [throw, throwThe, MonadExceptOf.throw, pure, Except.pure]

/-! ### Taking away -/

/-- What is at a location has been taken away with everything below it, and nothing else.  The
directory that was there may be left. -/
structure Emptied (t : FileTree) (l : Location) (v : FileTree) : Prop where
  outside : ∀ k, ¬ l <:+ k → v.get? k = t.get? k
  below : ∀ k, Location.Below l k → v.get? k = none
  place : v.get? l = none ∨ v.get? l = t.get? l

namespace Emptied

theorem partOf (h : t.Emptied l v) : v.PartOf t := by
  intro k node hk
  by_cases hl : l <:+ k
  · by_cases hlk : l = k
    · subst hlk
      rcases h.place with hnone | hsame
      · cases hnone.symm.trans hk
      · exact hsame ▸ hk
    · cases (h.below k ⟨hl, hlk⟩).symm.trans hk
  · exact h.outside k hl ▸ hk

/-- Where something was and nothing is any more, it has been taken away. -/
theorem suffix (h : t.Emptied l v) (ht : t.get? k ≠ none) (hv : v.get? k = none) : l <:+ k := by
  by_cases hl : l <:+ k
  · exact hl
  · exact absurd (h.outside k hl ▸ hv) ht

/-- If the path still leads anywhere, then through the same directory and the same name. -/
theorem locateParent_eq (h : t.Emptied l v) (hp : p.Descends)
    (hparent : t.locateParent here p = .ok (d, some (.down n)))
    (hk : v.locate here p follow = .ok k) :
    v.locateParent here p = .ok (d, some (.down n)) ∧ v.get? (n :: d) ≠ none := by
  obtain ⟨m, e, hparent', hne⟩ := hp.exists_locateParent hk
  cases hparent.symm.trans (h.partOf.locateParent_eq hparent')
  exact ⟨hparent', hne⟩

/-- If nothing is left, the path leads nowhere. -/
theorem locate_ne_ok (h : t.Emptied l v) (hp : p.Descends) (hl : t.locate here p false = .ok l)
    (hnone : v.get? l = none) : v.locate here p follow ≠ .ok k := by
  intro hk
  obtain ⟨n, d, rfl, hparent, -⟩ := hp.locate_eq_ok_iff.1 hl
  exact (h.locateParent_eq hp hparent hk).2 hnone

end Emptied

theorem get?_clear_self : (t.clear l).get? l = t.get? l := by
  rw [get?_clear, if_neg fun hbelow => hbelow.2 rfl]

theorem emptied_clear (t : FileTree) (l : Location) : t.Emptied l (t.clear l) where
  outside := by
    intro k hk
    rw [get?_clear, if_neg fun hbelow => hk hbelow.1]
  below := by
    intro k hk
    rw [get?_clear, if_pos hk]
  place := Or.inr get?_clear_self

/-- What has nothing below it is emptied when it is taken away itself. -/
theorem Updated.emptied (h : t.Updated l none v) (hl : t.get? l ≠ some .directory) :
    t.Emptied l v where
  outside := fun k hk => h.get?_of_ne fun hkl => hk (hkl ▸ List.suffix_rfl)
  below := by
    intro k hk
    rw [h.get?_of_ne (Ne.symm hk.2)]
    cases hnode : t.get? k with
    | none => rfl
    | some node => exact absurd (directory_of_below hnode hk) hl
  place := Or.inl h.get?_self

theorem eq_ok_of_orUnchanged {result : Except SystemError FileTree}
    (h : t.orUnchanged result = (.ok (), u)) : result = .ok u := by
  cases result with
  | ok w => exact congrArg Except.ok (Prod.mk.inj h).2
  | error cause => cases (Prod.mk.inj h).1

/-- Emptying the directory that a path names, and taking it away if it is still found. -/
theorem removeTree_directory (hp : p.Descends) (hl : t.locate here p false = .ok l)
    (hnode : t.get? l = some .directory) (h : t.removeTree here p = (.ok (), v)) :
    t.Emptied l v ∧ ∀ follow k, v.locate here p follow ≠ .ok k := by
  obtain ⟨n, d, rfl, hparent, -⟩ := hp.locate_eq_ok_iff.1 hl
  have hcleared := emptied_clear t (n :: d)
  have hkept : (t.clear (n :: d)).get? (n :: d) = some .directory := get?_clear_self.trans hnode
  simp only [removeTree, hl, hnode] at h
  split at h
  · -- the directory stays, since the path does not lead to it any more
    rename_i hnoEntry
    obtain rfl := (Prod.mk.inj h).2
    refine ⟨hcleared, fun follow k hk => ?_⟩
    have hparent' := (hcleared.locateParent_eq hp hparent hk).1
    exact removeDirectory_ne_noEntry hparent' hkept hnoEntry
  · obtain ⟨m, e, hparent', hv⟩ := removeDirectory_ok (eq_ok_of_orUnchanged h)
    cases hparent.symm.trans (hcleared.partOf.locateParent_eq hparent')
    have hgone : v.get? (n :: d) = none := by rw [hv, if_pos List.suffix_rfl]
    have hemptied : t.Emptied (n :: d) v := by
      refine ⟨fun k hk => ?_, fun k hk => ?_, Or.inl hgone⟩
      · rw [hv, if_neg hk, hcleared.outside k hk]
      · rw [hv, if_pos hk.1]
    exact ⟨hemptied, fun _ _ => hemptied.locate_ne_ok hp hl hgone⟩

/-- **Taking a directory away, or a link**: what the path names is emptied, and the path leads to
nothing any more. -/
theorem removeTree_ok (hp : p.Descends) (h : t.removeTree here p = (.ok (), v)) :
    ∃ l, t.locate here p false = .ok l ∧ t.Emptied l v ∧
      ∀ follow k, v.locate here p follow ≠ .ok k := by
  cases hl : t.locate here p false with
  | error cause => simp [removeTree, hl] at h
  | ok l =>
      refine ⟨l, rfl, ?_⟩
      cases hnode : t.get? l with
      | none => simp [removeTree, hl, hnode] at h
      | some node =>
          cases node with
          | directory => exact removeTree_directory hp hl hnode h
          | file content executable => simp [removeTree, hl, hnode] at h
          | link target =>
              simp only [removeTree, hl, hnode] at h
              obtain ⟨m, e, hparent, hv⟩ := unlink_ok (eq_ok_of_orUnchanged h)
              obtain ⟨n, d, rfl, hparent', -⟩ := hp.locate_eq_ok_iff.1 hl
              cases hparent.symm.trans hparent'
              have hemptied := hv.emptied (by simp [hnode])
              exact ⟨hemptied, fun _ _ => hemptied.locate_ne_ok hp hl hv.get?_self⟩

/-- Where there is a file, nothing is taken away. -/
theorem removeTree_file {content : Bytes} {executable : Bool} (hl : t.locate here p false = .ok l)
    (h : t.get? l = some (.file content executable)) :
    t.removeTree here p = (.error .notDirectory, t) := by
  simp only [removeTree, hl, h]

/-- At a canonical path what is no file can be taken away. -/
theorem removeTree_path (here : Location) (h : t.get? (n :: d) = some node)
    (hfile : ∀ content executable, node ≠ .file content executable) :
    ∃ v, t.removeTree here (Location.path (n :: d)) = (.ok (), v) ∧
      v.get? (n :: d) = none ∧ v.get? d = some .directory := by
  have hd := parent_of_eq_some h
  have haddr := addressable_of_eq_some h
  have hlocate : t.locate here (Location.path (n :: d)) false = .ok (n :: d) :=
    locate_path h (by simp)
  have hne : d ≠ n :: d := List.ne_cons_self
  cases node with
  | file content executable => exact absurd rfl (hfile content executable)
  | link target =>
      obtain ⟨v, hv, hunlinked⟩ := unlink_path here h (by simp)
      refine ⟨v, ?_, hunlinked.updated.get?_self, by rw [hunlinked.updated.get?_of_ne hne, hd]⟩
      simp only [removeTree, hlocate, h, hv, orUnchanged]
  | directory =>
      obtain ⟨v, hv, hupdated⟩ := removeDirectory_path here (get?_clear_self.trans h)
        (emptied_clear t (n :: d)).below
      refine ⟨v, ?_, hupdated.get?_self, ?_⟩
      · simp only [removeTree, hlocate, h, hv, orUnchanged]
      · have hout : ¬ n :: d <:+ d := fun hsuffix => absurd hsuffix.length_le (by simp)
        rw [hupdated.get?_of_ne hne, (emptied_clear t (n :: d)).outside d hout, hd]

/-! ### Making -/

/-- The directories that a path was missing have been made: the names before `n` led to the
directory at `d`, and from there on all are new. -/
structure Made (t : FileTree) (here : Location) (p : Path) (n : FileName) (d : Location)
    (names : List FileName) (u : FileTree) : Prop where
  check : p.check = .ok ()
  leads : ∃ front, p.steps = front ++ .down n :: names.map .down ∧
    t.resolve true maxLinks (p.start here) front = .ok (.taken d)
  directory : t.get? d = some .directory
  vacant : t.get? (n :: d) = none
  tree : ∀ k, u.get? k =
    if n :: d <:+ k ∧ k <:+ names.reverse ++ n :: d then some .directory else t.get? k

namespace Made

variable {q : Path} {m : FileName} {names : List FileName}

theorem get?_self (h : t.Made here p n d names u) :
    u.get? (names.reverse ++ n :: d) = some .directory := by
  rw [h.tree, if_pos ⟨List.suffix_append _ _, List.suffix_rfl⟩]

theorem below (h : t.Made here p n d names u) (hk : Location.Below (names.reverse ++ n :: d) k) :
    u.get? k = none := by
  have hnot : ¬ k <:+ names.reverse ++ n :: d :=
    fun hsuffix => hk.2 (hk.1.eq_of_length_le hsuffix.length_le)
  rw [h.tree, if_neg fun hnew => hnot hnew.2]
  exact get?_eq_none_of_suffix h.vacant ((List.suffix_append _ _).trans hk.1)

/-- Only what was missing on the way to the new directory is new. -/
theorem old_or_new (h : t.Made here p n d names u) (k : Location) :
    u.get? k = t.get? k ∨ t.get? k = none ∧ u.get? k = some .directory ∧ n :: d <:+ k ∧
      k <:+ names.reverse ++ n :: d := by
  rw [h.tree]
  split
  · rename_i hnew
    exact Or.inr ⟨get?_eq_none_of_suffix h.vacant hnew.1, rfl, hnew⟩
  · exact Or.inl rfl

theorem partOf (h : t.Made here p n d names u) : t.PartOf u := by
  intro k node hk
  rcases h.old_or_new k with hold | ⟨hnone, -⟩
  · exact hold ▸ hk
  · cases hnone.symm.trans hk

/-- The path leads to the new directory. -/
theorem resolve_eq (h : t.Made here p n d names u) :
    u.resolve follow maxLinks (p.start here) p.steps = .ok (.taken (names.reverse ++ n :: d)) := by
  obtain ⟨front, hsteps, hfront⟩ := h.leads
  obtain ⟨left, hleft⟩ :=
    exists_resolve_append (h.partOf.resolve_eq hfront) (h.partOf _ _ h.directory)
  have hnew : u.get? ((n :: names).reverse ++ d) = some .directory := by
    simpa using h.get?_self
  have hadvance : u.advance follow d (.down n :: names.map .down ++ []) =
      u.advance follow ((n :: names).reverse ++ d) [] := advance_names hnew []
  rw [List.append_nil] at hadvance
  rw [hsteps, hleft _ _ (List.cons_ne_nil _ _), resolve, hadvance]
  simp [advance]

theorem locate_eq (h : t.Made here p n d names u) (hp : p.Descends) :
    u.locate here p follow = .ok (names.reverse ++ n :: d) :=
  locate_eq_ok_iff.2 ⟨h.check, (hp.spot_eq u here follow).trans h.resolve_eq⟩

/-- One name behind the path is a name in the new directory. -/
theorem eq_of_locateParent (h : t.Made here q n d names v)
    (hsteps : p.steps = q.steps ++ [.down m]) (hstart : p.start here = q.start here)
    {step : Option Step} (hparent : v.locateParent here p = .ok (k, step)) :
    k = names.reverse ++ n :: d ∧ step = some (.down m) := by
  obtain ⟨-, hresolve, -, hlast⟩ := locateParent_eq_ok_iff.1 hparent
  rw [hsteps, List.dropLast_concat, hstart, h.resolve_eq] at hresolve
  rw [hsteps, List.getLast?_concat] at hlast
  cases hresolve
  exact ⟨rfl, hlast⟩

/-- A path with one name behind the new directory leads nowhere. -/
theorem locate_ne_ok (h : t.Made here q n d names v) (hp : p.Descends)
    (hsteps : p.steps = q.steps ++ [.down m]) (hstart : p.start here = q.start here) :
    v.locate here p follow ≠ .ok k := by
  intro hk
  obtain ⟨m', e, hparent, hne⟩ := hp.exists_locateParent hk
  obtain ⟨rfl, -⟩ := h.eq_of_locateParent hsteps hstart hparent
  exact hne (h.below ⟨List.suffix_cons _ _, List.ne_cons_self⟩)

/-- A directory made in one that was there. -/
theorem first (h : t.makeDirectory here p = .ok u) : ∃ n d, t.Made here p n d [] u := by
  obtain ⟨n, d, hparent, hnone, hu⟩ := create_ok h
  obtain ⟨hcheck, hresolve, hd, hlast⟩ := locateParent_eq_ok_iff.1 hparent
  obtain ⟨front, hfront⟩ := List.getLast?_eq_some_iff.1 hlast.symm
  rw [hfront, List.dropLast_concat] at hresolve
  refine ⟨n, d, hcheck, ⟨front, hfront, hresolve⟩, hd, hnone, fun k => ?_⟩
  have hiff : (n :: d <:+ k ∧ k <:+ [].reverse ++ n :: d) ↔ k = n :: d := by
    constructor
    · rintro ⟨hl, hr⟩
      exact hr.eq_of_length_le hl.length_le
    · rintro rfl
      exact ⟨List.suffix_rfl, List.suffix_rfl⟩
  rw [hu k]
  simp only [hiff]

/-- A directory made in the new one. -/
theorem next (h : t.Made here q n d names v) (hsteps : p.steps = q.steps ++ [.down m])
    (hstart : p.start here = q.start here) (hu : v.makeDirectory here p = .ok u) :
    t.Made here p n d (names ++ [m]) u := by
  obtain ⟨m', e, hparent, -, hu⟩ := create_ok hu
  obtain ⟨rfl, hstep⟩ := h.eq_of_locateParent hsteps hstart hparent
  cases hstep
  obtain ⟨front, hqsteps, hfront⟩ := h.leads
  refine ⟨(locateParent_eq_ok_iff.1 hparent).1, ⟨front, ?_, hstart ▸ hfront⟩, h.directory, h.vacant, fun k => ?_⟩
  · rw [hsteps, hqsteps]
    simp
  · have hiff : (n :: d <:+ k ∧ k <:+ (names ++ [m]).reverse ++ n :: d) ↔
        k = m :: (names.reverse ++ n :: d) ∨ n :: d <:+ k ∧ k <:+ names.reverse ++ n :: d := by
      rw [List.reverse_append, List.reverse_singleton, List.singleton_append, List.cons_append,
        List.suffix_cons_iff, and_or_left]
      refine or_congr_left (and_iff_right_of_imp ?_)
      rintro rfl
      exact (List.suffix_append names.reverse _).trans (List.suffix_cons _ _)
    rw [hu k]
    simp only [hiff]
    by_cases hk : k = m :: (names.reverse ++ n :: d)
    · rw [if_pos hk, if_pos (Or.inl hk)]
    · simp only [hk, if_false, false_or]
      exact h.tree k

end Made

/-- The parents of paths that go down and do not go down themselves need not be made. -/
theorem makeDirectoriesFrom_top {levels : Nat} (hp : p = ⟨[]⟩ ∨ p = ⟨[slash]⟩)
    (h : makeDirectoriesFrom here levels t p = (.ok (), u)) : u = t := by
  have hnot : ∀ w, t.makeDirectory here p ≠ .ok w := by
    intro w hw
    obtain ⟨n, d, hparent, -⟩ := create_ok hw
    obtain ⟨-, -, -, hlast⟩ := locateParent_eq_ok_iff.1 hparent
    rcases hp with rfl | rfl <;> cases hlast
  cases levels with
  | zero => exact absurd (eq_ok_of_orUnchanged h) (hnot u)
  | succ levels =>
      rw [makeDirectoriesFrom] at h
      split at h
      · exact (Prod.mk.inj h).2.symm
      · rename_i hne
        obtain rfl : p = ⟨[slash]⟩ := hp.resolve_left fun hnil => hne (hnil ▸ rfl)
        split at h
        · rename_i w hw
          exact absurd hw (hnot w)
        · cases h
        · split at h
          · exact (Prod.mk.inj h).2.symm
          · cases h

theorem not_namesDirectory (h : ∀ l, t.locate here p true ≠ .ok l) :
    ¬ t.namesDirectory here p = true := by
  rw [namesDirectory]
  split
  · rename_i l hl
    exact absurd hl (h l)
  · exact Bool.false_ne_true

/-- **Making directories**: either the path leads to one already, or those that were missing are
made. -/
theorem makeDirectoriesFrom_ok {levels : Nat} (hp : p.Descends)
    (h : makeDirectoriesFrom here levels t p = (.ok (), u)) :
    u = t ∧ t.namesDirectory here p = true ∨ ∃ n d names, t.Made here p n d names u := by
  induction levels generalizing p u with
  | zero =>
      obtain ⟨n, d, hmade⟩ := Made.first (eq_ok_of_orUnchanged h)
      exact Or.inr ⟨n, d, [], hmade⟩
  | succ levels ih =>
      rw [makeDirectoriesFrom, if_neg hp.ne_nil] at h
      split at h
      · rename_i w hw
        obtain rfl := (Prod.mk.inj h).2
        obtain ⟨n, d, hmade⟩ := Made.first hw
        exact Or.inr ⟨n, d, [], hmade⟩
      · rename_i hnoEntry
        obtain ⟨q, m, hparent, hsteps, habsolute, hq⟩ := hp.exists_parent?
        have hstart : p.start here = q.start here := by rw [Path.start, Path.start, habsolute]
        simp only [hparent] at h
        split at h
        · cases h
        · rename_i v hv
          -- above the path nothing was made, or what was missing
          have habove : v = t ∨ ∃ n d names, t.Made here q n d names v := by
            rcases hq with hq | hq | hq
            · exact Or.inl (makeDirectoriesFrom_top (Or.inl hq) hv)
            · exact Or.inl (makeDirectoriesFrom_top (Or.inr hq) hv)
            · exact (ih hq hv).imp_left And.left
          split at h
          · rename_i hnames
            obtain rfl := (Prod.mk.inj h).2
            rcases habove with rfl | ⟨n, d, names, hmade⟩
            · exact Or.inl ⟨rfl, hnames⟩
            · have hlost := not_namesDirectory fun _ => hmade.locate_ne_ok hp hsteps hstart
              exact absurd hnames hlost
          · have hmake := eq_ok_of_orUnchanged h
            rcases habove with rfl | ⟨n, d, names, hmade⟩
            · cases hnoEntry.symm.trans hmake
            · exact Or.inr ⟨n, d, names ++ [m], hmade.next hsteps hstart hmake⟩
      · split at h
        · rename_i hnames
          exact Or.inl ⟨(Prod.mk.inj h).2.symm, hnames⟩
        · cases h

theorem makeDirectories_ok (hp : p.Descends) (hnone : ∀ k, t.locate here p true ≠ .ok k)
    (h : t.makeDirectories here p = (.ok (), u)) : ∃ n d names, t.Made here p n d names u := by
  refine (makeDirectoriesFrom_ok hp h).resolve_left ?_
  rintro ⟨-, hnames⟩
  exact not_namesDirectory hnone hnames

/-- In a directory that is there, one call is enough. -/
theorem makeDirectories_path (here : Location) (ha : Location.Addressable (n :: d))
    (h : t.get? (n :: d) = none) (hd : t.get? d = some .directory) :
    ∃ u, t.makeDirectories here (Location.path (n :: d)) = (.ok (), u) := by
  obtain ⟨u, hu, -⟩ := create_eq_ok here ha .directory h hd
  have hne : (Location.path (n :: d)).bytes ≠ [] := by
    rw [Location.bytes_path]
    exact List.cons_ne_nil _ _
  exact ⟨u, by rw [makeDirectories, makeDirectoriesFrom, if_neg hne, makeDirectory, hu]⟩

/-- Where a link is that leads nowhere, no directory is made. -/
theorem makeDirectories_of_lost (hp : p.Descends) (hl : t.locate here p false = .ok l)
    (hnone : ∀ k, t.locate here p true ≠ .ok k) :
    t.makeDirectories here p = (.error .alreadyExists, t) := by
  obtain ⟨n, d, rfl, hparent, hne⟩ := hp.locate_eq_ok_iff.1 hl
  have hmake : t.makeDirectory here p = .error .alreadyExists := by
    rw [makeDirectory, create, vacancy, hparent]
    simp [(addressable_of_get? hne).length_name, hne, bind, Except.bind, throw, throwThe,
      MonadExceptOf.throw]
  rw [makeDirectories, makeDirectoriesFrom, if_neg hp.ne_nil, hmake]
  exact if_neg (not_namesDirectory hnone)

end FileTree

end DualModule

import DualModule.Proofs.RenamePlan
/-!
# The order of a plan

A plan is in the order of the old paths, whatever the order of the files that it was made for.  Two
listings of the same files therefore have the same plan (`RenamePlan.of_perm`), provided that no
two files have the same components; a host is free in how it lists directories.

The order of paths compares components and not text, so that it is antisymmetric only up to
`Path.Same`.
-/

namespace DualModule

/-! ### Insertion -/

section Insertion

variable {α : Type} {le : α → α → Bool}

theorem insertOrdered_pairwise (htotal : ∀ a b, le a b = true ∨ le b a = true)
    (htrans : ∀ a b c, le a b = true → le b c = true → le a c = true) (x : α) {xs : List α}
    (h : xs.Pairwise (le · ·)) : (insertOrdered le x xs).Pairwise (le · ·) := by
  induction xs with
  | nil => exact List.pairwise_singleton _ _
  | cons y ys ih =>
      obtain ⟨hy, hys⟩ := List.pairwise_cons.1 h
      rw [insertOrdered]
      split
      · rename_i hxy
        refine List.pairwise_cons.2 ⟨?_, h⟩
        intro z hz
        rcases List.mem_cons.1 hz with rfl | hz
        · exact hxy
        · exact htrans _ _ _ hxy (hy z hz)
      · rename_i hxy
        refine List.pairwise_cons.2 ⟨?_, ih hys⟩
        intro z hz
        rcases List.mem_cons.1 ((insertOrdered_perm le x ys).mem_iff.1 hz) with rfl | hz
        · exact (htotal _ _).resolve_left hxy
        · exact hy z hz

theorem ordered_pairwise (htotal : ∀ a b, le a b = true ∨ le b a = true)
    (htrans : ∀ a b c, le a b = true → le b c = true → le a c = true) (xs : List α) :
    (ordered le xs).Pairwise (le · ·) := by
  induction xs with
  | nil => exact List.Pairwise.nil
  | cons x xs ih => exact insertOrdered_pairwise htotal htrans x ih

end Insertion

/-! ### The order of paths -/

namespace Path

theorem le_total (p q : Path) : p.le q = true ∨ q.le p = true := by
  have hswap : compare q.components p.components = (compare p.components q.components).swap :=
    Std.OrientedOrd.eq_swap
  unfold le
  rw [hswap]
  cases compare p.components q.components <;> simp

theorem le_trans {p q r : Path} (h : p.le q = true) (h' : q.le r = true) : p.le r = true :=
  Std.TransOrd.isLE_trans h h'

theorem same_of_le_of_le {p q : Path} (h : p.le q = true) (h' : q.le p = true) : p.Same q :=
  Std.LawfulEqCmp.eq_of_compare (Std.OrientedCmp.isLE_antisymm h h')

end Path

/-! ### Plans for the same files -/

namespace RenamePlan

variable {files files' : List Path} {rules : List RenameRule}

/-- **A plan is in the order of the old paths.** -/
theorem of_pairwise (files : List Path) (rules : List RenameRule) :
    (RenamePlan.of files rules).Pairwise fun a b => a.old.le b.old :=
  ordered_pairwise (fun a b : Mapping => Path.le_total a.old b.old) (fun _ _ _ => Path.le_trans) _

/-- **The plan does not depend on the order of the files.** -/
theorem of_perm (h : files.Perm files')
    (hsame : ∀ p ∈ files, ∀ q ∈ files, p.Same q → p = q) :
    RenamePlan.of files rules = RenamePlan.of files' rules := by
  refine List.Perm.eq_of_pairwise ?_ (of_pairwise files rules) (of_pairwise files' rules) ?_
  · intro a b ha hb hab hba
    obtain ⟨p, hp, hpa⟩ := mem_of_iff.1 ha
    obtain ⟨q, hq, hqb⟩ := mem_of_iff.1 hb
    rw [Mapping.old_of_ofFile? hpa, Mapping.old_of_ofFile? hqb] at hab hba
    obtain rfl := hsame p hp q (h.mem_iff.2 hq) (Path.same_of_le_of_le hab hba)
    exact Option.some.inj (hpa.symm.trans hqb)
  · exact ((ordered_perm _ _).trans (h.filterMap _)).trans (ordered_perm _ _).symm

/-- What holds of any two of the files, whichever comes first, holds of any two old paths. -/
theorem of_pairwise_old {R : Path → Path → Prop} (hsymm : ∀ {p q}, R p q → R q p)
    (h : files.Pairwise R) (rules : List RenameRule) :
    (RenamePlan.of files rules).Pairwise fun a b => R a.old b.old := by
  refine (ordered_perm _ _).symm.pairwise ?_ hsymm
  refine List.Pairwise.filterMap _ ?_ h
  intro p q hpq a ha b hb
  rwa [Mapping.old_of_ofFile? ha, Mapping.old_of_ofFile? hb]

/-- **No file is renamed twice.** -/
theorem of_old_ne (h : files.Nodup) (rules : List RenameRule) :
    (RenamePlan.of files rules).Pairwise fun a b => a.old ≠ b.old :=
  of_pairwise_old Ne.symm h rules

/-- **A plan for different files is in strict order.** -/
theorem of_pairwise_lt (h : files.Pairwise fun p q => ¬ p.Same q) (rules : List RenameRule) :
    (RenamePlan.of files rules).Pairwise fun a b =>
      compare a.old.components b.old.components = .lt := by
  have hdistinct := of_pairwise_old (fun hpq hqp => hpq hqp.symm) h rules
  refine (of_pairwise files rules).imp₂ (fun a b hle hne => ?_) hdistinct
  -- components that compare equal are equal
  cases hcompare : compare a.old.components b.old.components with
  | lt => rfl
  | eq => exact absurd (Std.LawfulEqCmp.eq_of_compare hcompare) hne
  | gt => simp [Path.le, hcompare] at hle

end RenamePlan

end DualModule

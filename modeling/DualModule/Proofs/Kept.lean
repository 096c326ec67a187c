import DualModule.Procedure.Contention
import DualModule.Proofs.Operations
import DualModule.RenamePlan
/-!
# What has become of the entries of a tree

Every entry came to be somehow: it was there to begin with, or another party has created it
(`FileTree.Entered`).  `FileTree.Kept` says what renaming may do to them.  An entry whose name has
not been taken away is where it was, as it was.  An entry whose name has been taken away is at the
place that the rules give it, and the old name is gone, unless another party has used it since then.

The lemmas follow what can happen: an entry is created, a request changes nothing, a file gets a
second name, and one of two names is taken away.

## Main Definitions

* `FileTree.Entered`, `FileTree.Kept`
-/

namespace DualModule

namespace FileTree

/-- An entry came to be at `l`: it was there to begin with, or another party has created it.  What
has happened from then on, the latest first, is `since`. -/
inductive Entered (t : FileTree) : List Event → Location → Node → List Event → Prop
  | initial {past : List Event} {l : Location} {node : Node} (h : t.get? l = some node) :
      Entered t past l node past
  | created {since before : List Event} {l : Location} {node : Node} :
      Entered t (since ++ .created l node :: before) l node since

/-- **Nothing is lost and nothing is overwritten**, if `t` was the tree and is now `u`. -/
structure Kept (rules : List RenameRule) (t : FileTree) (past : List Event) (u : FileTree) :
    Prop where
  /-- an entry whose name has not been taken away is where it was -/
  stays : ∀ {l node since}, Entered t past l node since → .removed l ∉ since →
    u.get? l = some node
  /-- an entry whose name has been taken away has its new name, and the old one is gone, unless
  another party has used it since then -/
  moved : ∀ {l node since before}, Entered t past l node (since ++ .removed l :: before) →
    ∃ m, Mapping.ofFile? rules l.path = some m ∧ u.get? m.new.location = some node ∧
      (u.get? l = none ∨ ∃ other, .created l other ∈ since)

variable {t u v : FileTree} {rules : List RenameRule} {past since : List Event} {e : Event}
variable {l k : Location} {n : FileName} {d : Location} {node : Node}

/-! ### Entries and events -/

/-- One more event: it is the creation of the entry, or the entry was there before. -/
theorem entered_cons_iff : t.Entered (e :: past) l node since ↔
    (∃ since', since = e :: since' ∧ t.Entered past l node since') ∨
      (e = .created l node ∧ since = []) := by
  constructor
  · intro h
    generalize hpast : e :: past = past' at h
    cases h with
    | initial h =>
        subst hpast
        exact Or.inl ⟨past, rfl, .initial h⟩
    | @created since before =>
        cases since with
        | nil => exact Or.inr ⟨(List.cons.inj hpast).1, rfl⟩
        | cons e' since =>
            obtain ⟨rfl, rfl⟩ := List.cons.inj hpast
            exact Or.inl ⟨since, rfl, .created⟩
  · rintro (⟨since', rfl, h⟩ | ⟨rfl, rfl⟩)
    · cases h with
      | initial h => exact .initial h
      | @created _ before => exact @Entered.created t (e :: since') before l node
    · exact @Entered.created t [] past l node

/-- The entries that an answer leaves behind are those that were there before. -/
theorem entered_answered_iff {r : Request} {reply : r.Reply} :
    t.Entered (.answered r reply :: past) l node since ↔
      ∃ since', since = .answered r reply :: since' ∧ t.Entered past l node since' := by
  rw [entered_cons_iff]
  simp

theorem Entered.get?_of_nil (h : t.Entered [] l node since) : t.get? l = some node := by
  generalize hpast : ([] : List Event) = past at h
  cases h with
  | initial h => exact h
  | created => simp at hpast

theorem Entered.subset (h : t.Entered past l node since) : since ⊆ past := by
  cases h with
  | initial _ => exact List.Subset.refl _
  | created => exact List.subset_append_left _ _

theorem removed_injective (h : Event.removed l = .removed k) : l = k := by
  injection h with hrequest _
  exact Location.path_injective (Request.unlink.inj hrequest)

/-! ### What events do -/

namespace Kept

/-- **Every entry is somewhere**: where it came to be, or at the place that the rules give it. -/
theorem present (h : t.Kept rules past u) (hl : t.Entered past l node since) :
    u.get? l = some node ∨
      ∃ m, Mapping.ofFile? rules l.path = some m ∧ u.get? m.new.location = some node := by
  by_cases hremoved : .removed l ∈ since
  · obtain ⟨since', before, rfl⟩ := List.append_of_mem hremoved
    obtain ⟨m, hm, hnode, -⟩ := h.moved hl
    exact Or.inr ⟨m, hm, hnode⟩
  · exact Or.inl (h.stays hl hremoved)

/-- **Nobody takes away what has just been created**, and a new entry is not in the way of
others. -/
theorem create (h : t.Kept rules past u) (hfree : u.get? (n :: d) = none)
    (hupdated : u.Updated (n :: d) (some node) v) :
    t.Kept rules (.created (n :: d) node :: past) v := by
  constructor
  · intro l node' since hentered hnot
    rcases entered_cons_iff.1 hentered with ⟨since', rfl, hl⟩ | ⟨hcreated, -⟩
    · exact hupdated.keeps hfree (h.stays hl fun hmem => hnot (List.mem_cons_of_mem _ hmem))
    · cases hcreated
      exact hupdated.get?_self
  · intro l node' since before hentered
    rcases entered_cons_iff.1 hentered with ⟨since', hsince, hl⟩ | ⟨-, hnil⟩
    · cases since with
      | nil => cases (List.cons.inj hsince).1
      | cons e since =>
          obtain ⟨rfl, rfl⟩ := List.cons.inj hsince
          obtain ⟨m, hm, hnew, hold⟩ := h.moved hl
          refine ⟨m, hm, hupdated.keeps hfree hnew, ?_⟩
          -- the old name is free, and the new entry may be the one that uses it again
          by_cases hl' : l = n :: d
          · subst hl'
            exact Or.inr ⟨node, List.mem_cons_self⟩
          · rw [hupdated.get?_of_ne hl']
            exact hold.imp_right fun ⟨other, hother⟩ => ⟨other, List.mem_cons_of_mem _ hother⟩
    · simp at hnil

section Answered

variable {r : Request} {reply : r.Reply}

/-- **An answer that takes no name away**: the tree is as it was, or has a new entry at a place from
which nothing has been taken away. -/
theorem answered (h : t.Kept rules past u)
    (hevent : ∀ l, Event.answered r reply ≠ .removed l)
    (hkeeps : ∀ {k node}, u.get? k = some node → v.get? k = some node)
    (hgone : ∀ {k}, .removed k ∈ past → u.get? k = none → v.get? k = none) :
    t.Kept rules (.answered r reply :: past) v := by
  constructor
  · intro l node since hentered hnot
    obtain ⟨since', rfl, hl⟩ := entered_answered_iff.1 hentered
    exact hkeeps (h.stays hl fun hmem => hnot (List.mem_cons_of_mem _ hmem))
  · intro l node since before hentered
    obtain ⟨since', hsince, hl⟩ := entered_answered_iff.1 hentered
    cases since with
    | nil => exact absurd (List.cons.inj hsince).1.symm (hevent l)
    | cons e since =>
        obtain ⟨rfl, rfl⟩ := List.cons.inj hsince
        obtain ⟨m, hm, hnew, hold⟩ := h.moved hl
        refine ⟨m, hm, hkeeps hnew, ?_⟩
        rcases hold with hnone | ⟨other, hother⟩
        · exact Or.inl (hgone (hl.subset (by simp)) hnone)
        · exact Or.inr ⟨other, List.mem_cons_of_mem _ hother⟩

/-- An answer that changes nothing. -/
theorem unchanged (h : t.Kept rules past u) (hevent : ∀ l, Event.answered r reply ≠ .removed l) :
    t.Kept rules (.answered r reply :: past) u :=
  h.answered hevent id fun _ => id

end Answered

/-- **A second name is given**, at a place from which nothing has been taken away. -/
theorem link (h : t.Kept rules past u) {old new : Path} (hfree : u.get? k = none)
    (hpast : .removed k ∉ past) (hupdated : u.Updated k (some node) v) :
    t.Kept rules (.answered (.link old new) (.ok ()) :: past) v := by
  refine h.answered (by simp) (hupdated.keeps hfree) ?_
  intro l hl hnone
  rw [hupdated.get?_of_ne, hnone]
  rintro rfl
  exact hpast hl

/-- **A name is taken away**, that of an entry which has its new name already, or of none that is
kept. -/
theorem remove (h : t.Kept rules past u) (hupdated : u.Updated k none v)
    (hnew : ∀ {l m}, .removed l ∈ past → Mapping.ofFile? rules l.path = some m → m.new.location ≠ k)
    (hself : ∀ {node since}, t.Entered past k node since →
      .removed k ∉ since ∧ ∃ m, Mapping.ofFile? rules k.path = some m ∧
        v.get? m.new.location = some node) :
    t.Kept rules (.removed k :: past) v := by
  constructor
  · intro l node since hentered hnot
    obtain ⟨since', rfl, hl⟩ := entered_answered_iff.1 hentered
    have hne : l ≠ k := by
      rintro rfl
      exact hnot List.mem_cons_self
    rw [hupdated.get?_of_ne hne]
    exact h.stays hl fun hmem => hnot (List.mem_cons_of_mem _ hmem)
  · intro l node since before hentered
    obtain ⟨since', hsince, hl⟩ := entered_answered_iff.1 hentered
    -- the name that is taken away now, or one that was taken away before
    cases since with
    | nil =>
        obtain ⟨hremoved, rfl⟩ := List.cons.inj hsince
        obtain rfl := removed_injective hremoved
        obtain ⟨-, m, hm, hnode⟩ := hself hl
        exact ⟨m, hm, hnode, Or.inl hupdated.get?_self⟩
    | cons e since =>
        obtain ⟨rfl, rfl⟩ := List.cons.inj hsince
        have hne : l ≠ k := by
          rintro rfl
          exact (hself hl).1 (by simp)
        obtain ⟨m, hm, hnode, hold⟩ := h.moved hl
        refine ⟨m, hm, ?_, ?_⟩
        · rw [hupdated.get?_of_ne (hnew (hl.subset (by simp)) hm)]
          exact hnode
        · rw [hupdated.get?_of_ne hne]
          exact hold.imp_right fun ⟨other, hother⟩ => ⟨other, List.mem_cons_of_mem _ hother⟩

end Kept

end FileTree

end DualModule

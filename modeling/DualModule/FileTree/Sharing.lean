import DualModule.FileTree.Basic
/-!
# Files with several names

A file that is written to changes under all its names (`FileTree.overwrite`).  A file gets another
name when one like it is put there and the two are taken to be the same file (`FileTree.identify`):
then it has all names that either of them had (`FileTree.United`).

## Main Definitions

* `FileTree.overwrite`
* `FileTree.Alike`, `FileTree.names`
* `FileTree.United`, `FileTree.identify`
-/

namespace DualModule.FileTree

/-- What is at a location once the file at `l` has other bytes and another mode. -/
def overwritten (t : FileTree) (l : Location) (content : Bytes) (executable : Bool)
    (k : Location) : Node → Node
  | .file old mode => if t.SameFile l k then .file content executable else .file old mode
  | node => node

/-- Gives the file at a location other bytes and another mode, under all its names. -/
def overwrite (t : FileTree) (l : Location) (content : Bytes) (executable : Bool) :
    FileTree where
  nodes := t.nodes.map (t.overwritten l content executable)
  twins := t.twins
  root_directory := by
    rw [Std.ExtTreeMap.getElem?_map, t.root_directory]
    rfl
  closed := by
    intro n d h
    rw [Std.ExtTreeMap.getElem?_map, t.closed n d (Std.ExtTreeMap.mem_map.1 h)]
    rfl
  addressable := fun l h => t.addressable l (Std.ExtTreeMap.mem_map.1 h)
  twins_irrefl := t.twins_irrefl
  twins_symm := t.twins_symm
  twins_trans := t.twins_trans
  twins_agree := by
    intro a b h
    obtain ⟨old, mode, ha, hb⟩ := t.twins_agree a b h
    -- both are names of the file at `l`, or neither is
    have hab : t.SameFile a b := Or.inr h
    have hiff : t.SameFile l a ↔ t.SameFile l b :=
      ⟨fun hla => hla.trans hab, fun hlb => hlb.trans hab.symm⟩
    simp only [Std.ExtTreeMap.getElem?_map, hb, ha, Option.map_some, overwritten, hiff]
    split
    · exact ⟨content, executable, by simp, by simp⟩
    · exact ⟨old, mode, by simp, by simp⟩

theorem get?_overwrite {t : FileTree} {l : Location} {old content : Bytes}
    {mode executable : Bool} (h : t.get? l = some (.file old mode)) (k : Location) :
    (t.overwrite l content executable).get? k =
      if t.SameFile l k then some (.file content executable) else t.get? k := by
  have hmap : (t.overwrite l content executable).get? k =
      (t.get? k).map (t.overwritten l content executable k) := by
    unfold get? overwrite
    rw [Std.ExtTreeMap.getElem?_map]
  rw [hmap]
  split
  · have hk : t.get? k = some (.file old mode) := by
      rw [SameFile.get?_eq ‹_›, h]
    simp [overwritten, *]
  · cases t.get? k with
    | none => rfl
    | some node => cases node <;> simp [overwritten, *]

@[simp] theorem twin_overwrite {t : FileTree} {l : Location} {content : Bytes}
    {executable : Bool} {a b : Location} :
    (t.overwrite l content executable).Twin a b ↔ t.Twin a b := Iff.rfl

/-- Two locations show files with the same bytes and the same mode. -/
def Alike (t : FileTree) (l k : Location) : Prop :=
  (∃ content executable, t.get? l = some (.file content executable)) ∧ t.get? k = t.get? l

instance (t : FileTree) (l k : Location) : Decidable (t.Alike l k) :=
  have : Decidable (∃ content executable, t.get? l = some (.file content executable)) :=
    match t.get? l with
    | some (.file content executable) => isTrue ⟨content, executable, rfl⟩
    | some .directory | some (.link _) | none => isFalse (by simp)
  inferInstanceAs (Decidable (_ ∧ _))

/-- The names of the file at a location. -/
def names (t : FileTree) (l : Location) : List Location :=
  l :: (t.twins.toList.filter fun pair => pair.1 = l).map Prod.snd

theorem mem_names {t : FileTree} {l k : Location} : k ∈ t.names l ↔ t.SameFile l k := by
  simp [names, Twin, SameFile, eq_comm]

/-- Two names are names of one file, or one is of the file at `l` and the other of the file at
`k`. -/
def United (t : FileTree) (l k a b : Location) : Prop :=
  t.SameFile a b ∨ t.SameFile a l ∧ t.SameFile k b ∨ t.SameFile a k ∧ t.SameFile l b

namespace United

variable {t : FileTree} {l k a b c : Location}

theorem symm (h : t.United l k a b) : t.United l k b a := by
  rcases h with h | ⟨ha, hb⟩ | ⟨ha, hb⟩
  · exact Or.inl h.symm
  · exact Or.inr (Or.inr ⟨hb.symm, ha.symm⟩)
  · exact Or.inr (Or.inl ⟨hb.symm, ha.symm⟩)

theorem trans (h : t.United l k a b) (h' : t.United l k b c) : t.United l k a c := by
  rcases h with h | ⟨ha, hb⟩ | ⟨ha, hb⟩ <;> rcases h' with h' | ⟨hb', hc⟩ | ⟨hb', hc⟩
  · exact Or.inl (h.trans h')
  · exact Or.inr (Or.inl ⟨h.trans hb', hc⟩)
  · exact Or.inr (Or.inr ⟨h.trans hb', hc⟩)
  · exact Or.inr (Or.inl ⟨ha, hb.trans h'⟩)
  · exact Or.inr (Or.inl ⟨ha, hc⟩)
  · exact Or.inl (ha.trans hc)
  · exact Or.inr (Or.inr ⟨ha, hb.trans h'⟩)
  · exact Or.inl (ha.trans hc)
  · exact Or.inr (Or.inr ⟨ha, hc⟩)

/-- Files that are alike stay alike when they are one. -/
theorem get?_eq (h : t.United l k a b) (hlk : t.Alike l k) : t.get? b = t.get? a := by
  rcases h with h | ⟨ha, hb⟩ | ⟨ha, hb⟩
  · exact h.get?_eq
  · rw [hb.get?_eq, hlk.2, ha.get?_eq]
  · rw [hb.get?_eq, ← hlk.2, ha.get?_eq]

theorem exists_file (h : t.United l k a b) (hlk : t.Alike l k) (hne : a ≠ b) :
    ∃ content executable, t.get? a = some (.file content executable) := by
  obtain ⟨content, executable, hl⟩ := hlk.1
  rcases h with (rfl | h) | ⟨ha, -⟩ | ⟨ha, -⟩
  · exact absurd rfl hne
  · exact h.exists_file
  · exact ⟨content, executable, by rw [← ha.get?_eq, hl]⟩
  · exact ⟨content, executable, by rw [← ha.get?_eq, hlk.2, hl]⟩

end United

/-- The pairs of names of one file, once the files at `l` and at `k` are one. -/
def unitedTwins (t : FileTree) (l k : Location) : Std.ExtTreeSet (Location × Location) :=
  t.twins.insertMany ((t.names l).flatMap fun a => (t.names k).flatMap fun b =>
    if a = b then [] else [(a, b), (b, a)])

theorem mem_unitedTwins {t : FileTree} {l k a b : Location} :
    (a, b) ∈ t.unitedTwins l k ↔ a ≠ b ∧ t.United l k a b := by
  have hnew : (a, b) ∈ ((t.names l).flatMap fun a => (t.names k).flatMap fun b =>
        if a = b then [] else [(a, b), (b, a)]) ↔
      a ≠ b ∧ (t.SameFile a l ∧ t.SameFile k b ∨ t.SameFile a k ∧ t.SameFile l b) := by
    simp only [List.mem_flatMap, mem_names, sameFile_comm (k := l), sameFile_comm (k := k)]
    grind
  have hold : (a, b) ∈ t.twins ↔ a ≠ b ∧ t.SameFile a b := twin_iff
  rw [unitedTwins, Std.ExtTreeSet.mem_insertMany_list, List.contains_iff_mem, hnew, hold,
    ← and_or_left, United]

/-- Makes two files that are alike one file, with all names that either has. -/
def identify (t : FileTree) (l k : Location) : FileTree :=
  if h : t.Alike l k then
    { t with
      twins := t.unitedTwins l k
      twins_irrefl := fun a ha => (mem_unitedTwins.1 ha).1 rfl
      twins_symm := by
        intro a b hab
        obtain ⟨hne, hab⟩ := mem_unitedTwins.1 hab
        exact mem_unitedTwins.2 ⟨hne.symm, hab.symm⟩
      twins_trans := by
        intro a b c hab hbc hne
        exact mem_unitedTwins.2
          ⟨hne, (mem_unitedTwins.1 hab).2.trans (mem_unitedTwins.1 hbc).2⟩
      twins_agree := by
        intro a b hab
        obtain ⟨hne, hab⟩ := mem_unitedTwins.1 hab
        obtain ⟨content, executable, ha⟩ := hab.exists_file h hne
        exact ⟨content, executable, ha, hab.get?_eq h⟩ }
  else t

@[simp] theorem get?_identify {t : FileTree} {l k : Location} (a : Location) :
    (t.identify l k).get? a = t.get? a := by
  unfold identify
  split <;> rfl

theorem twin_identify {t : FileTree} {l k : Location} (h : t.Alike l k) {a b : Location} :
    (t.identify l k).Twin a b ↔ a ≠ b ∧ t.United l k a b := by
  rw [identify, dif_pos h]
  exact mem_unitedTwins

end DualModule.FileTree

import DualModule.FileTree.Location
import Std.Data.ExtTreeMap
import Std.Data.ExtTreeSet
/-!
# File trees

A file tree says what there is at each location: a directory, a regular file with its bytes, or a
symbolic link with the path it holds.  A file can have several names, and then it is one file at
several locations (`FileTree.Twin`): what is written to it through one name is read through all.

**What holds of every tree is part of the type.**  The root is a directory, whatever contains an
entry is a directory, every location that is taken is addressable, and the names of one file show
the same bytes.  Each operation that makes a new tree asks for what keeps this true.

**One view.**  `FileTree.get?` and `FileTree.Twin` are what a tree is: two trees that agree in both
are equal (`FileTree.ext`), and each operation comes with the equations that say what it does to
them.

## Main Definitions

* `Node`, `FileTree`, `FileTree.get?`, `FileTree.Twin`, `FileTree.Alone`
* `FileTree.SameFile`
* `FileTree.put`, `FileTree.remove`, `FileTree.prune`, `FileTree.clear`
* `FileTree.children`
-/

namespace DualModule

/-- What there can be at a location. -/
inductive Node where
  | directory
  | file (content : Bytes) (executable : Bool)
  | link (target : Path)
deriving DecidableEq

/-- Pairs of locations are ordered by their first components, then by their second. -/
instance : Ord (Location × Location) := lexOrd

-- each a constant, which all maps and sets with these keys share
instance : Std.TransOrd Location := inferInstance

instance : Std.TransOrd (Location × Location) := inferInstance

/-- The entries of a file system.  `twins` has the pairs of different names of one file. -/
structure FileTree where
  nodes : Std.ExtTreeMap Location Node
  twins : Std.ExtTreeSet (Location × Location)
  root_directory : nodes[([] : Location)]? = some .directory
  closed : ∀ (n : FileName) (d : Location), (n :: d) ∈ nodes → nodes[d]? = some .directory
  addressable : ∀ l ∈ nodes, Location.Addressable l
  twins_irrefl : ∀ l, (l, l) ∉ twins
  twins_symm : ∀ l k, (l, k) ∈ twins → (k, l) ∈ twins
  twins_trans : ∀ l k m, (l, k) ∈ twins → (k, m) ∈ twins → l ≠ m → (l, m) ∈ twins
  twins_agree : ∀ l k, (l, k) ∈ twins →
    ∃ content executable, nodes[l]? = some (.file content executable) ∧ nodes[k]? = nodes[l]?

namespace FileTree

/-- What there is at a location. -/
def get? (t : FileTree) (l : Location) : Option Node := t.nodes[l]?

/-- `k` is another name of the file at `l`. -/
def Twin (t : FileTree) (l k : Location) : Prop := (l, k) ∈ t.twins

instance (t : FileTree) (l k : Location) : Decidable (t.Twin l k) :=
  inferInstanceAs (Decidable ((l, k) ∈ t.twins))

/-- What is at `l` has no other name. -/
def Alone (t : FileTree) (l : Location) : Prop := ∀ k, ¬ t.Twin l k

/-- Whether there is a directory at a location. -/
def isDirectory (t : FileTree) (l : Location) : Bool := t.get? l = some .directory

theorem isDirectory_iff {t : FileTree} {l : Location} :
    t.isDirectory l = true ↔ t.get? l = some .directory := by
  simp [isDirectory]

theorem get?_nil (t : FileTree) : t.get? [] = some .directory := t.root_directory

/-- **A tree is its entries**, and which of them are one file. -/
@[ext] theorem ext {t u : FileTree} (h : ∀ l, t.get? l = u.get? l)
    (htwin : ∀ l k, t.Twin l k ↔ u.Twin l k) : t = u := by
  cases t; cases u
  congr
  · exact Std.ExtTreeMap.ext_getElem? h
  · exact Std.ExtTreeSet.ext_mem fun (l, k) => htwin l k

theorem mem_nodes_iff {t : FileTree} {l : Location} : l ∈ t.nodes ↔ t.get? l ≠ none := by
  simp [get?]

/-- Whatever contains an entry is a directory. -/
theorem get?_parent {t : FileTree} {n : FileName} {d : Location} (h : t.get? (n :: d) ≠ none) :
    t.get? d = some .directory :=
  t.closed n d (mem_nodes_iff.2 h)

theorem addressable_of_get? {t : FileTree} {l : Location} (h : t.get? l ≠ none) :
    l.Addressable :=
  t.addressable l (mem_nodes_iff.2 h)

namespace Twin

variable {t : FileTree} {l k m : Location}

theorem symm (h : t.Twin l k) : t.Twin k l := t.twins_symm l k h

theorem ne (h : t.Twin l k) : l ≠ k := fun hlk => t.twins_irrefl k (hlk ▸ h)

theorem trans (h : t.Twin l k) (h' : t.Twin k m) (hne : l ≠ m) : t.Twin l m :=
  t.twins_trans l k m h h' hne

/-- The names of one file show the same file. -/
theorem get?_eq (h : t.Twin l k) : t.get? k = t.get? l := by
  obtain ⟨_, _, -, heq⟩ := t.twins_agree l k h
  exact heq

theorem exists_file (h : t.Twin l k) :
    ∃ content executable, t.get? l = some (.file content executable) := by
  obtain ⟨content, executable, hl, -⟩ := t.twins_agree l k h
  exact ⟨content, executable, hl⟩

end Twin

/-- Two locations are names of one file, or the same location. -/
def SameFile (t : FileTree) (l k : Location) : Prop := l = k ∨ t.Twin l k

instance (t : FileTree) (l k : Location) : Decidable (t.SameFile l k) :=
  inferInstanceAs (Decidable (_ ∨ _))

theorem twin_iff {t : FileTree} {l k : Location} : t.Twin l k ↔ l ≠ k ∧ t.SameFile l k := by
  constructor
  · exact fun h => ⟨h.ne, Or.inr h⟩
  · rintro ⟨hne, rfl | h⟩
    · exact absurd rfl hne
    · exact h

namespace SameFile

variable {t : FileTree} {l k m : Location}

theorem symm (h : t.SameFile l k) : t.SameFile k l := h.imp Eq.symm Twin.symm

theorem trans (h : t.SameFile l k) (h' : t.SameFile k m) : t.SameFile l m := by
  rcases h with rfl | h
  · exact h'
  · rcases h' with rfl | h'
    · exact Or.inr h
    · exact Decidable.or_iff_not_imp_left.2 fun hne => h.trans h' hne

theorem get?_eq (h : t.SameFile l k) : t.get? k = t.get? l := by
  rcases h with rfl | h
  · rfl
  · exact h.get?_eq

end SameFile

theorem sameFile_comm {t : FileTree} {l k : Location} : t.SameFile l k ↔ t.SameFile k l :=
  ⟨SameFile.symm, SameFile.symm⟩

theorem Alone.eq_of_sameFile {t : FileTree} {l k : Location} (h : t.Alone l)
    (hlk : t.SameFile l k) : l = k :=
  hlk.resolve_right (h k)

/-- Only files have several names. -/
theorem alone_of_ne_file {t : FileTree} {l : Location}
    (h : ∀ content executable, t.get? l ≠ some (.file content executable)) : t.Alone l := by
  intro k hk
  obtain ⟨content, executable, hl⟩ := hk.exists_file
  exact h content executable hl

/-- The pairs of names of one file that are both kept. -/
def twinsAmong (t : FileTree) (keep : Location → Bool) : Std.ExtTreeSet (Location × Location) :=
  t.twins.filter fun pair => keep pair.1 && keep pair.2

theorem mem_twinsAmong {t : FileTree} {keep : Location → Bool} {l k : Location} :
    (l, k) ∈ t.twinsAmong keep ↔ keep l = true ∧ keep k = true ∧ t.Twin l k := by
  rw [twinsAmong, Std.ExtTreeSet.mem_filter]
  simp only [Std.ExtTreeSet.get_eq, Bool.and_eq_true, exists_prop]
  exact ⟨fun h => ⟨h.2.1, h.2.2, h.1⟩, fun h => ⟨h.2.2, h.1, h.2.1⟩⟩

/-- The tree with nothing but the root. -/
def empty : FileTree where
  nodes := (∅ : Std.ExtTreeMap Location Node).insert [] .directory
  twins := ∅
  root_directory := by simp
  closed := by simp
  addressable := by
    intro l h
    have : l = [] := by simpa using h
    subst this
    decide
  twins_irrefl := by simp
  twins_symm := by simp
  twins_trans := by simp
  twins_agree := by simp

@[simp] theorem get?_empty (l : Location) :
    empty.get? l = if l = [] then some .directory else none := by
  unfold get? empty
  rw [Std.ExtTreeMap.getElem?_insert]
  by_cases h : l = []
  · simp [h]
  · simp [h, Ne.symm h]

@[simp] theorem not_twin_empty (l k : Location) : ¬ empty.Twin l k :=
  Std.ExtTreeSet.not_mem_empty

/-- Puts an entry of its own into a directory, where no directory is in its place. -/
def put (t : FileTree) (n : FileName) (d : Location) (node : Node)
    (hd : t.get? d = some .directory) (hn : t.get? (n :: d) ≠ some .directory)
    (ha : Location.Addressable (n :: d)) : FileTree where
  nodes := t.nodes.insert (n :: d) node
  twins := t.twinsAmong fun l => l ≠ n :: d
  root_directory := by
    rw [Std.ExtTreeMap.getElem?_insert]
    simpa using t.root_directory
  closed := by
    intro m e h
    rw [Std.ExtTreeMap.getElem?_insert]
    by_cases he : n :: d = e
    · subst he
      have : m :: n :: d ∈ t.nodes := by simpa using h
      exact absurd (t.closed m (n :: d) this) hn
    · simp only [Std.compare_eq_iff_eq, he, if_false]
      by_cases hme : n :: d = m :: e
      · cases hme; exact hd
      · refine t.closed m e ?_
        rcases Std.ExtTreeMap.mem_insert.1 h with h | h
        · exact absurd (Std.LawfulEqCmp.eq_of_compare h) hme
        · exact h
  addressable := by
    intro l h
    by_cases hl : n :: d = l
    · exact hl ▸ ha
    · exact t.addressable l (by simpa [hl] using h)
  twins_irrefl := fun l h => (mem_twinsAmong.1 h).2.2.ne rfl
  twins_symm := by
    intro l k h
    obtain ⟨hl, hk, hlk⟩ := mem_twinsAmong.1 h
    exact mem_twinsAmong.2 ⟨hk, hl, hlk.symm⟩
  twins_trans := by
    intro l k m h h' hne
    obtain ⟨hl, -, hlk⟩ := mem_twinsAmong.1 h
    obtain ⟨-, hm, hkm⟩ := mem_twinsAmong.1 h'
    exact mem_twinsAmong.2 ⟨hl, hm, hlk.trans hkm hne⟩
  twins_agree := by
    intro l k h
    obtain ⟨hl, hk, hlk⟩ := mem_twinsAmong.1 h
    have hl' : n :: d ≠ l := by simpa using Ne.symm (of_decide_eq_true hl)
    have hk' : n :: d ≠ k := by simpa using Ne.symm (of_decide_eq_true hk)
    simpa only [Std.ExtTreeMap.getElem?_insert, Std.compare_eq_iff_eq, hl', hk', if_false]
      using t.twins_agree l k hlk

@[simp] theorem get?_put {t : FileTree} {n : FileName} {d : Location} {node : Node}
    {hd : t.get? d = some .directory} {hn : t.get? (n :: d) ≠ some .directory}
    {ha : Location.Addressable (n :: d)} (l : Location) :
    (t.put n d node hd hn ha).get? l = if l = n :: d then some node else t.get? l := by
  unfold get? put
  rw [Std.ExtTreeMap.getElem?_insert]
  by_cases h : l = n :: d
  · simp [h]
  · simp [h, Ne.symm h]

@[simp] theorem twin_put {t : FileTree} {n : FileName} {d : Location} {node : Node}
    {hd : t.get? d = some .directory} {hn : t.get? (n :: d) ≠ some .directory}
    {ha : Location.Addressable (n :: d)} {l k : Location} :
    (t.put n d node hd hn ha).Twin l k ↔ l ≠ n :: d ∧ k ≠ n :: d ∧ t.Twin l k := by
  unfold Twin put
  rw [mem_twinsAmong]
  simp [Twin]

/-- Keeps the entries whose locations satisfy `keep`. -/
def restrict (t : FileTree) (keep : Location → Bool) (hroot : keep [] = true)
    (hclosed : ∀ n d, keep (n :: d) = true → t.get? (n :: d) ≠ none → keep d = true) :
    FileTree where
  nodes := t.nodes.filter fun l _ => keep l
  twins := t.twinsAmong keep
  root_directory := by
    rw [Std.ExtTreeMap.getElem?_filter']
    simp [t.root_directory, hroot]
  closed := by
    intro n d h
    rw [Std.ExtTreeMap.getElem?_filter']
    have h' : t.get? (n :: d) ≠ none ∧ keep (n :: d) = true := by
      rw [Std.ExtTreeMap.mem_iff_isSome_getElem?, Std.ExtTreeMap.getElem?_filter'] at h
      cases hx : t.get? (n :: d) with
      | none => simp [get?] at hx; simp [hx] at h
      | some x => simp [get?] at hx; simp [hx] at h; simp [h]
    have hd := get?_parent h'.1
    simp only [get?] at hd
    simp [hd, hclosed n d h'.2 h'.1]
  addressable := by
    intro l h
    refine t.addressable l ?_
    exact Std.ExtTreeMap.mem_of_mem_filter h
  twins_irrefl := fun l h => (mem_twinsAmong.1 h).2.2.ne rfl
  twins_symm := by
    intro l k h
    obtain ⟨hl, hk, hlk⟩ := mem_twinsAmong.1 h
    exact mem_twinsAmong.2 ⟨hk, hl, hlk.symm⟩
  twins_trans := by
    intro l k m h h' hne
    obtain ⟨hl, -, hlk⟩ := mem_twinsAmong.1 h
    obtain ⟨-, hm, hkm⟩ := mem_twinsAmong.1 h'
    exact mem_twinsAmong.2 ⟨hl, hm, hlk.trans hkm hne⟩
  twins_agree := by
    intro l k h
    obtain ⟨hl, hk, hlk⟩ := mem_twinsAmong.1 h
    obtain ⟨content, executable, hfile, heq⟩ := t.twins_agree l k hlk
    exact ⟨content, executable, by simp [*], by simp [*]⟩

theorem get?_restrict {t : FileTree} {keep : Location → Bool} {hroot : keep [] = true}
    {hclosed : ∀ n d, keep (n :: d) = true → t.get? (n :: d) ≠ none → keep d = true}
    (l : Location) :
    (t.restrict keep hroot hclosed).get? l = if keep l then t.get? l else none := by
  unfold get? restrict
  rw [Std.ExtTreeMap.getElem?_filter']
  by_cases h : keep l <;> cases t.nodes[l]? <;> simp [h]

theorem twin_restrict {t : FileTree} {keep : Location → Bool} {hroot : keep [] = true}
    {hclosed : ∀ n d, keep (n :: d) = true → t.get? (n :: d) ≠ none → keep d = true}
    {l k : Location} :
    (t.restrict keep hroot hclosed).Twin l k ↔ keep l = true ∧ keep k = true ∧ t.Twin l k :=
  mem_twinsAmong

/-- Takes away an entry that is not a directory. -/
def remove (t : FileTree) (l : Location) (h : t.get? l ≠ some .directory) : FileTree :=
  t.restrict (fun k => k ≠ l)
    (by
      have : l ≠ [] := fun hl => h (hl ▸ t.get?_nil)
      simpa using Ne.symm this)
    (by
      intro n d _ hn
      have : d ≠ l := fun hd => h (hd ▸ get?_parent hn)
      simpa using this)

@[simp] theorem get?_remove {t : FileTree} {l : Location} {h : t.get? l ≠ some .directory}
    (k : Location) : (t.remove l h).get? k = if k = l then none else t.get? k := by
  rw [remove, get?_restrict]
  by_cases hk : k = l <;> simp [hk]

@[simp] theorem twin_remove {t : FileTree} {l : Location} {h : t.get? l ≠ some .directory}
    {a b : Location} : (t.remove l h).Twin a b ↔ a ≠ l ∧ b ≠ l ∧ t.Twin a b := by
  rw [remove, twin_restrict]
  simp

/-- Takes away an entry other than the root together with everything below it. -/
def prune (t : FileTree) (l : Location) (h : l ≠ []) : FileTree :=
  t.restrict (fun k => ¬ l <:+ k)
    (by simpa using h)
    (by
      intro n d hk _
      have hk' : ¬ l <:+ n :: d := by simpa using hk
      simpa using fun hd => hk' (List.suffix_cons_iff.2 (Or.inr hd)))

@[simp] theorem get?_prune {t : FileTree} {l : Location} {h : l ≠ []} (k : Location) :
    (t.prune l h).get? k = if l <:+ k then none else t.get? k := by
  rw [prune, get?_restrict]
  by_cases hk : l <:+ k <;> simp [hk]

@[simp] theorem twin_prune {t : FileTree} {l : Location} {h : l ≠ []} {a b : Location} :
    (t.prune l h).Twin a b ↔ ¬ l <:+ a ∧ ¬ l <:+ b ∧ t.Twin a b := by
  rw [prune, twin_restrict]
  simp

/-- Takes away everything below a location. -/
def clear (t : FileTree) (l : Location) : FileTree :=
  t.restrict (fun k => ¬ Location.Below l k)
    (by
      have : ¬ Location.Below l [] := by
        rintro ⟨h, h'⟩
        exact h' (List.eq_nil_of_suffix_nil h)
      simpa using this)
    (by
      intro n d hk _
      have hk' : ¬ Location.Below l (n :: d) := by simpa using hk
      have : ¬ Location.Below l d := by
        rintro ⟨h, _⟩
        refine hk' ⟨List.suffix_cons_iff.2 (Or.inr h), ?_⟩
        rintro rfl
        have hle : d.length + 1 ≤ d.length := h.length_le
        omega
      simpa using this)

@[simp] theorem get?_clear {t : FileTree} (l k : Location) :
    (t.clear l).get? k = if Location.Below l k then none else t.get? k := by
  rw [clear, get?_restrict]
  by_cases hk : Location.Below l k <;> simp [hk]

@[simp] theorem twin_clear {t : FileTree} {l a b : Location} :
    (t.clear l).Twin a b ↔ ¬ Location.Below l a ∧ ¬ Location.Below l b ∧ t.Twin a b := by
  rw [clear, twin_restrict]
  simp

/-- The name of an entry of the directory at `d`, if `l` is one. -/
def nameIn? (d : Location) : Location → Option FileName
  | [] => none
  | n :: e => if e = d then some n else none

/-- The entries of the directory at `d`, by name. -/
def children (t : FileTree) (d : Location) : List (FileName × Node) :=
  t.nodes.toList.filterMap fun entry => (nameIn? d entry.1).map (·, entry.2)

end FileTree

end DualModule

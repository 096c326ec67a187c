import DualModule.FileTree.Resolve
import DualModule.Proofs.Path
/-!
# Canonical paths

Every location has one canonical path, and the passes over a tree work with canonical paths only:
a walk begins at one and puts names behind it, and a rename exchanges the last name.  This module
says what the operations on paths make of them.

* `components_path`, `steps_path` — a canonical path is the root and then the names,
* `parent?_path`, `withFileName_path` — cutting off the last name gives the canonical path of the
  directory, byte for byte, so that editing canonical paths does not leave them,
* `check_path` — the system takes the canonical path of an addressable location,
* `length_lt_path` — a location has fewer names than its path has bytes, which bounds the depth of
  a tree.
-/

namespace DualModule

/-! ### Steps -/

namespace Step

@[simp] theorem ofPiece?_nil : ofPiece? [] = none := rfl

@[simp] theorem ofPiece?_bytes (n : FileName) : ofPiece? n.bytes = some (.down n) := by
  rw [ofPiece?, if_neg n.proper.2.2.1, if_neg n.proper.2.2.2, FileName.ofBytes?_bytes]
  rfl

/-- A piece that is no name asks to stay or to go up, if it asks for anything. -/
theorem ofPiece?_of_not_proper {piece : Bytes} (h : ¬ FileName.Proper piece) {step : Step}
    (hstep : ofPiece? piece = some step) : step = .stay ∨ step = .up := by
  have hnone : FileName.ofBytes? piece = none := dif_neg h
  rw [ofPiece?, hnone] at hstep
  split at hstep
  · exact Or.inl (Option.some.inj hstep).symm
  · split at hstep
    · exact Or.inr (Option.some.inj hstep).symm
    · cases hstep

end Step

namespace Path

theorem head?_ne_slash {bytes : Bytes} (h : slash ∉ bytes) : bytes.head? ≠ some slash := by
  intro hhead
  exact h (List.mem_of_head? hhead)

theorem steps_push (p : Path) {bytes : Bytes} (hb : slash ∉ bytes) :
    (p.push bytes).steps = p.steps ++ (Step.ofPiece? bytes).toList := by
  rw [steps, filterMap_pieces_push Step.ofPiece?_nil p (head?_ne_slash hb), pieces_of_notMem hb]
  cases hs : Step.ofPiece? bytes <;> simp [steps, hs]

theorem steps_child (p : Path) (n : FileName) :
    (p.child n).steps = p.steps ++ [.down n] := by
  rw [child, steps_push p n.proper.2.1, Step.ofPiece?_bytes]
  rfl

theorem suffix_bytes_push (p : Path) (bytes : Bytes) : bytes <:+ (p.push bytes).bytes := by
  unfold push
  split
  · exact List.suffix_rfl
  · split
    · exact List.suffix_append _ _
    · exact (List.suffix_cons _ _).trans (List.suffix_append _ _)

theorem prefix_bytes_push (p : Path) {bytes : Bytes} (hb : slash ∉ bytes) :
    p.bytes <+: (p.push bytes).bytes := by
  unfold push
  rw [if_neg (head?_ne_slash hb)]
  split <;> exact List.prefix_append _ _

theorem length_child (p : Path) (n : FileName) :
    p.bytes.length < (p.child n).bytes.length := by
  have hn := List.length_pos_iff.2 n.proper.1
  unfold child push
  rw [if_neg (head?_ne_slash n.proper.2.1)]
  split
  · rw [List.length_append]
    omega
  · rw [List.length_append, List.length_cons]
    omega

/-- A path that ends in a name does not end in a separator. -/
theorem endsInSlash_of_suffix {p : Path} {n : FileName} (h : n.bytes <:+ p.bytes) :
    p.endsInSlash = false := by
  obtain ⟨front, hfront⟩ := h
  have hne : n.bytes.getLast? ≠ some slash := fun h => n.proper.2.1 (List.mem_of_getLast? h)
  rw [endsInSlash, ← hfront, List.getLast?_append]
  cases hlast : n.bytes.getLast? with
  | none => exact absurd (List.getLast?_eq_none_iff.1 hlast) n.proper.1
  | some b => simpa [hlast] using hne

@[simp] theorem endsInSlash_child (p : Path) (n : FileName) : (p.child n).endsInSlash = false :=
  endsInSlash_of_suffix (suffix_bytes_push p n.bytes)

theorem lookupSteps_child (p : Path) (n : FileName) :
    (p.child n).lookupSteps = p.steps ++ [.down n] := by
  rw [lookupSteps, endsInSlash_child, steps_child p]
  simp

theorem start_of_isAbsolute {p : Path} (h : p.isAbsolute = true) (d : Location) :
    p.start d = [] := by
  rw [start, if_pos h]

end Path

/-! ### Canonical paths -/

namespace Location

@[simp] theorem isAbsolute_path (l : Location) : l.path.isAbsolute = true := by
  induction l with
  | nil => rfl
  | cons n d ih => exact Path.isAbsolute_push ih _

/-- **A canonical path is the root and then the names.** -/
theorem components_path (l : Location) : l.path.components = .root :: l.reverse.map .name := by
  induction l with
  | nil => rfl
  | cons n d ih => simp [Path.components_child, ih]

theorem steps_path (l : Location) : l.path.steps = l.reverse.map .down := by
  induction l with
  | nil => rfl
  | cons n d ih => simp [Path.steps_child, ih]

@[simp] theorem location_path (l : Location) : l.path.location = l := by
  rw [Path.location, components_path, List.filterMap_cons_none rfl, List.filterMap_map]
  show (l.reverse.filterMap some).reverse = l
  rw [List.filterMap_some, List.reverse_reverse]

theorem path_injective {l k : Location} (h : l.path = k.path) : l = k := by
  rw [← location_path l, h, location_path]

theorem components_path_injective {l k : Location}
    (h : l.path.components = k.path.components) : l = k := by
  rw [← location_path l, Path.location, h]
  exact location_path k

theorem bytes_path (l : Location) :
    l.path.bytes = slash :: joinPieces slash (l.reverse.map FileName.bytes) := by
  induction l with
  | nil => rfl
  | cons n d ih =>
      have hn := Path.head?_ne_slash n.proper.2.1
      cases d with
      | nil => simp [Path.child, Path.push, hn, joinPieces]
      | cons m e =>
          have hlast : (path (m :: e)).bytes.getLast? ≠ some slash := by
            simpa [Path.endsInSlash] using Path.endsInSlash_child (path e) m
          have hne : (path (m :: e)).bytes ≠ [] := by
            rw [ih]
            exact List.cons_ne_nil _ _
          have hjoin : joinPieces slash ((m :: e).reverse.map FileName.bytes ++ [n.bytes]) =
              joinPieces slash ((m :: e).reverse.map FileName.bytes) ++
                slash :: joinPieces slash [n.bytes] :=
            joinPieces_append (by simp) (by simp)
          rw [path_cons, Path.child, Path.push, if_neg hn, if_neg (not_or.2 ⟨hne, hlast⟩), ih]
          simp only [List.reverse_cons (a := n), List.map_append, List.map_cons, List.map_nil, hjoin]
          simp [joinPieces]

theorem fileName?_path (n : FileName) (d : Location) : (path (n :: d)).fileName? = some n := by
  rw [Path.fileName?_eq_some_iff, components_path, List.reverse_cons, List.map_append,
    ← List.cons_append]
  exact List.getLast?_concat

/-- **The parent of a canonical path** is the canonical path of the directory. -/
theorem parent?_path (n : FileName) (d : Location) : (path (n :: d)).parent? = some d.path := by
  -- the names are the pieces of the path, and none of them is silent
  have hpieces : pieces slash (joinPieces slash ((n :: d).reverse.map FileName.bytes)) =
      (n :: d).reverse.map FileName.bytes := by
    refine pieces_joinPieces (by simp) ?_
    intro p hp
    obtain ⟨m, -, rfl⟩ := List.mem_map.1 hp
    exact m.proper.2.1
  have hkeep : ∀ e : Location, Path.dropSilent (e.map FileName.bytes) = e.map FileName.bytes := by
    intro e
    cases e with
    | nil => rfl
    | cons m e => exact List.dropWhile_cons_of_neg (by simp)
  have hpath : path (n :: d) = ⟨slash :: joinPieces slash ((n :: d).reverse.map FileName.bytes)⟩ :=
    congrArg Path.mk (bytes_path (n :: d))
  have hdrop : Path.dropSilent ((n :: d).reverse.map FileName.bytes).reverse =
      n.bytes :: d.map FileName.bytes := by
    rw [← List.map_reverse, List.reverse_reverse, hkeep, List.map_cons]
  rw [hpath]
  simp only [Path.parent?, Path.body, Path.lead?, if_true, Option.isSome_some, List.tail_cons,
    hpieces, hdrop, hkeep]
  rw [← List.map_reverse]
  exact congrArg (fun b => some (Path.mk b)) (bytes_path d).symm

/-- Exchanging the last name of a canonical path. -/
theorem withFileName_path (n : FileName) (d : Location) (bytes : Bytes) :
    (path (n :: d)).withFileName bytes = d.path.push bytes :=
  Path.withFileName_eq (fileName?_path n d) (parent?_path n d) bytes

/-- A location has fewer names than its path has bytes. -/
theorem length_lt_path (l : Location) : l.length < l.path.bytes.length := by
  induction l with
  | nil => decide
  | cons n d ih =>
      have := Path.length_child (path d) n
      rw [List.length_cons, path_cons]
      omega

/-! ### Addressable locations -/

theorem Addressable.length_name {n : FileName} {d : Location} (h : Addressable (n :: d)) :
    ¬ maxNameLength < n.bytes.length :=
  Nat.not_lt.2 (h.1 n List.mem_cons_self).1

/-- The names above a location are as many as the system can be asked for. -/
theorem Addressable.length_lt {l : Location} (h : Addressable l) : l.length < maxPathLength :=
  Nat.lt_of_lt_of_le (length_lt_path l) h.2

theorem notMem_path {l : Location} (h : ∀ n ∈ l, n.Acceptable) : 0 ∉ l.path.bytes := by
  rw [bytes_path, List.mem_cons]
  rintro (h0 | h0)
  · exact absurd h0 (by decide)
  · rcases mem_joinPieces h0 with h0 | ⟨p, hp, h0⟩
    · exact absurd h0 (by decide)
    · obtain ⟨n, hn, rfl⟩ := List.mem_map.1 hp
      exact (h n (List.mem_reverse.1 hn)).2 h0

theorem path_bytes_ne_nil (l : Location) : l.path.bytes ≠ [] := by
  simp [bytes_path]

/-- **The system takes the canonical path of an addressable location.** -/
theorem check_path {l : Location} (h : Addressable l) : l.path.check = .ok () := by
  rw [Path.check, if_neg (notMem_path h.1), if_neg (path_bytes_ne_nil l), if_neg (Nat.not_lt.2 h.2)]

/-- A canonical path that the system takes, with a last name that it takes. -/
theorem addressable_of_check {n : FileName} {d : Location} (hd : Addressable d)
    (hcheck : (path (n :: d)).check = .ok ()) (hn : ¬ maxNameLength < n.bytes.length) :
    Addressable (n :: d) := by
  rw [Path.check] at hcheck
  split at hcheck
  · cases hcheck
  · rename_i hnul
    split at hcheck
    · cases hcheck
    · split at hcheck
      · cases hcheck
      · rename_i hlength
        refine ⟨?_, Nat.not_lt.1 hlength⟩
        intro m hm
        rcases List.mem_cons.1 hm with rfl | hm
        · refine ⟨Nat.not_lt.1 hn, ?_⟩
          intro h0
          exact hnul ((Path.suffix_bytes_push (path d) m.bytes).subset h0)
        · exact hd.1 m hm

end Location

end DualModule

import DualModule.FileTree.Operations
import DualModule.Proofs.Location
/-!
# Looking up canonical paths

A canonical path leads through directories only, so that resolution follows it without meeting a
link on the way (`advance_canonical`).  What a lookup finds is therefore what is at the location
(`locate_path`), and which directory an entry is made in or taken from is the location's tail
(`locateParent_path`).

**Testing is not looking.**  A test whether something is at a path follows a link at its end.  That
the answer is no leaves two possibilities: nothing is there, or a link is there that leads nowhere
(`vacant_or_link_of_exists?`).
-/

namespace DualModule.FileTree

variable {t : FileTree} {here : Location} {follow : Bool} {n : FileName} {d l : Location}

/-! ### What is above an entry -/

theorem addressable_of_eq_some {node : Node} (h : t.get? l = some node) : l.Addressable :=
  addressable_of_get? (h ▸ Option.some_ne_none node)

theorem parent_of_eq_some {node : Node} (h : t.get? (n :: d) = some node) :
    t.get? d = some .directory :=
  get?_parent (h ▸ Option.some_ne_none node)

theorem get?_tail (h : t.get? l = some .directory) : t.get? l.tail = some .directory := by
  cases l with
  | nil => exact h
  | cons n d => exact parent_of_eq_some h

theorem get?_start (h : t.get? d = some .directory) (p : Path) :
    t.get? (p.start d) = some .directory := by
  rw [Path.start]
  split
  · exact t.get?_nil
  · exact h

/-- Whatever has an entry somewhere inside it is a directory. -/
theorem directory_of_below {node : Node} (h : t.get? l = some node) (hl : Location.Below d l) :
    t.get? d = some .directory := by
  induction l generalizing node with
  | nil => exact absurd (List.eq_nil_of_suffix_nil hl.1) hl.2
  | cons n e ih =>
      have he := parent_of_eq_some h
      rcases List.suffix_cons_iff.1 hl.1 with hd | hd
      · exact absurd hd hl.2
      · by_cases hde : d = e
        · exact hde ▸ he
        · exact ih he ⟨hd, hde⟩

/-- What is above a directory, or is one itself, is a directory. -/
theorem directory_of_suffix (h : t.get? l = some .directory) (hl : d <:+ l) :
    t.get? d = some .directory := by
  by_cases hdl : d = l
  · exact hdl ▸ h
  · exact directory_of_below h ⟨hl, hdl⟩

/-! ### Following names -/

theorem advance_down (hn : ¬ maxNameLength < n.bytes.length) (rest : List Step) :
    t.advance follow d (.down n :: rest) =
      match t.get? (n :: d) with
      | none => if rest.isEmpty then .vacant d n else .refused .noEntry
      | some .directory => t.advance follow (n :: d) rest
      | some (.file _ _) => if rest.isEmpty then .arrived (n :: d) else .refused .notDirectory
      | some (.link target) =>
        if rest.isEmpty && !follow then .arrived (n :: d) else .redirected d target rest := by
  rw [advance]
  exact if_neg hn

/-- **The names of a directory lead to it**, one directory at a time. -/
theorem advance_names {names : List FileName} (h : t.get? (names.reverse ++ d) = some .directory)
    (rest : List Step) :
    t.advance follow d (names.map .down ++ rest) = t.advance follow (names.reverse ++ d) rest := by
  induction names generalizing d with
  | nil => rfl
  | cons n names ih =>
      rw [List.reverse_cons, List.append_assoc, List.singleton_append] at h ⊢
      have hn := directory_of_suffix h (List.suffix_append names.reverse (n :: d))
      rw [List.map_cons, List.cons_append, advance_down (addressable_of_eq_some hn).length_name, hn]
      exact ih h

theorem advance_canonical (h : t.get? l = some .directory) (rest : List Step) :
    t.advance follow [] (l.reverse.map .down ++ rest) = t.advance follow l rest := by
  have hl : t.get? (l.reverse.reverse ++ []) = some .directory := by simpa using h
  simpa using advance_names hl rest

theorem resolve_canonical (h : t.get? l = some .directory) (budget : Nat) (rest : List Step) :
    t.resolve follow budget [] (l.reverse.map .down ++ rest) = t.resolve follow budget l rest := by
  rw [resolve, resolve, advance_canonical h]

/-- Steps that are no names never leave the directories. -/
theorem advance_of_not_down (t : FileTree) (follow : Bool) {steps : List Step}
    (h : ∀ s ∈ steps, s = .stay ∨ s = .up) (d : Location) :
    ∃ l, t.advance follow d steps = .arrived l := by
  induction steps generalizing d with
  | nil => exact ⟨d, rfl⟩
  | cons s steps ih =>
      have hsteps := fun s hs => h s (List.mem_cons_of_mem _ hs)
      rcases h s List.mem_cons_self with rfl | rfl
      · exact ih hsteps d
      · exact ih hsteps d.tail

/-- What leads to an entry does so at once, or through a link. -/
theorem resolve_taken {budget : Nat} {steps : List Step}
    (h : t.resolve follow budget d steps = .ok (.taken l)) :
    t.advance follow d steps = .arrived l ∨
      ∃ budget' e target rest, budget = budget' + 1 ∧
        t.advance follow d steps = .redirected e target rest ∧
        t.resolve follow budget' (target.start e) (target.lookupSteps ++ rest) =
          .ok (.taken l) := by
  rw [resolve] at h
  cases hp : t.advance follow d steps with
  | arrived k =>
      simp only [hp, Except.ok.injEq, Spot.taken.injEq] at h
      exact Or.inl (congrArg _ h)
  | vacant e n => simp [hp] at h
  | redirected e target rest =>
      cases budget with
      | zero => simp [hp] at h
      | succ budget => exact Or.inr ⟨budget, e, target, rest, rfl, rfl, by simpa only [hp] using h⟩
  | refused cause => simp [hp] at h

/-! ### Entries -/

theorem spot_path_directory (h : t.get? l = some .directory) :
    t.spot here l.path follow = .ok (.taken l) := by
  rw [spot, Path.start_of_isAbsolute (Location.isAbsolute_path l), Path.lookupSteps,
    Location.steps_path, resolve_canonical h, resolve]
  cases l.path.endsInSlash <;> rfl

theorem spot_path_cons (hd : t.get? d = some .directory) (hn : ¬ maxNameLength < n.bytes.length) :
    t.spot here (Location.path (n :: d)) follow =
      match t.get? (n :: d) with
      | none => .ok (.vacant d n)
      | some (.link target) =>
        if follow then
          t.resolve follow (maxLinks - 1) (target.start d) (target.lookupSteps ++ [])
        else .ok (.taken (n :: d))
      | some _ => .ok (.taken (n :: d)) := by
  rw [spot, Path.start_of_isAbsolute (Location.isAbsolute_path _), Location.path_cons,
    Path.lookupSteps_child, Location.steps_path, resolve_canonical hd,
    resolve, advance_down hn]
  cases hnode : t.get? (n :: d) with
  | none => rfl
  | some node => cases node <;> cases follow <;> rfl

/-- **A canonical path names what is at its location**, unless it is a link to be followed. -/
theorem locate_path {node : Node} (h : t.get? l = some node)
    (hlink : follow = true → ∀ target, node ≠ .link target) :
    t.locate here l.path follow = .ok l := by
  have haddr := addressable_of_eq_some h
  have hspot : t.spot here l.path follow = .ok (.taken l) := by
    cases l with
    | nil => exact spot_path_directory t.get?_nil
    | cons n d =>
        rw [spot_path_cons (parent_of_eq_some h) haddr.length_name, h]
        cases node with
        | directory => rfl
        | file content executable => rfl
        | link target =>
            cases follow with
            | false => rfl
            | true => exact absurd rfl (hlink rfl target)
  rw [locate, Location.check_path haddr, hspot]
  rfl

theorem locate_directory (h : t.get? l = some .directory) :
    t.locate here l.path follow = .ok l :=
  locate_path h (by simp)

/-- **The directory of a canonical path** is where its last step is taken. -/
theorem locateParent_path (hd : t.get? d = some .directory)
    (hcheck : (Location.path (n :: d)).check = .ok ()) :
    t.locateParent here (Location.path (n :: d)) = .ok (d, some (.down n)) := by
  have hsteps : (Location.path (n :: d)).steps = d.reverse.map .down ++ [.down n] := by
    rw [Location.path_cons, Path.steps_child, Location.steps_path]
  have hresolve : t.resolve true maxLinks [] (d.reverse.map .down) = .ok (.taken d) := by
    have hnil : t.resolve true maxLinks [] (d.reverse.map .down ++ []) =
        t.resolve true maxLinks d [] := resolve_canonical hd maxLinks []
    rwa [List.append_nil] at hnil
  rw [locateParent, hcheck, Path.start_of_isAbsolute (Location.isAbsolute_path _), hsteps,
    List.dropLast_concat, hresolve, List.getLast?_concat]
  show (if t.isDirectory d then _ else _ : Except _ _) = _
  rw [if_pos (isDirectory_iff.2 hd)]
  rfl

/-! ### Tests -/

theorem exists?_eq_false_iff {p : Path} :
    t.exists? here p = .ok false ↔ t.locate here p true = .error .noEntry := by
  rw [exists?]
  split <;> simp_all

/-- If the system takes a path and does not find it, the path leads to no entry. -/
theorem spot_of_locate_noEntry {p : Path} (hp : p.bytes ≠ [])
    (h : t.locate here p follow = .error .noEntry) :
    p.check = .ok () ∧ ∀ l, t.spot here p follow ≠ .ok (.taken l) := by
  -- only the empty path is refused as one that leads to nothing
  have hcheck : p.check = .ok () ∨ ∃ cause, cause ≠ .noEntry ∧ p.check = .error cause := by
    rw [Path.check, if_neg hp]
    split
    · exact Or.inr ⟨_, by decide, rfl⟩
    · split
      · exact Or.inr ⟨_, by decide, rfl⟩
      · exact Or.inl rfl
  rcases hcheck with hcheck | ⟨cause, hcause, hcheck⟩
  · refine ⟨hcheck, ?_⟩
    intro l hl
    rw [locate, hcheck, hl] at h
    cases h
  · rw [locate, hcheck] at h
    cases h
    exact absurd rfl hcause

/-- A name that is too long is refused, which is no answer to a test. -/
theorem length_of_locate_noEntry (hd : t.get? d = some .directory)
    (h : t.locate here (Location.path (n :: d)) follow = .error .noEntry)
    (hcheck : (Location.path (n :: d)).check = .ok ()) : ¬ maxNameLength < n.bytes.length := by
  intro hlength
  rw [locate, hcheck, spot, Path.start_of_isAbsolute (Location.isAbsolute_path _),
    Location.path_cons, Path.lookupSteps_child, Location.steps_path,
    resolve_canonical hd, resolve, advance, if_pos hlength] at h
  cases h

/-- Where no entry is found, there is nothing of that name, or a link. -/
theorem vacant_or_link_of_spot (hd : t.get? d = some .directory)
    (hn : ¬ maxNameLength < n.bytes.length)
    (h : ∀ l, t.spot here (Location.path (n :: d)) true ≠ .ok (.taken l)) :
    t.get? (n :: d) = none ∨ ∃ target, t.get? (n :: d) = some (.link target) := by
  have htaken := h (n :: d)
  rw [spot_path_cons hd hn] at htaken
  cases hnode : t.get? (n :: d) with
  | none => exact Or.inl rfl
  | some node =>
      cases node with
      | link target => exact Or.inr ⟨target, rfl⟩
      | directory => simp [hnode] at htaken
      | file content executable => simp [hnode] at htaken

/-- What is no name leads nowhere but to directories. -/
theorem spot_push_of_not_proper {bytes : Bytes} (hd : t.get? d = some .directory)
    (hb : slash ∉ bytes) (hproper : ¬ FileName.Proper bytes) :
    ∃ l, t.spot here (d.path.push bytes) follow = .ok (.taken l) := by
  have hsteps : ∀ s ∈ (Step.ofPiece? bytes).toList ++
      (if (d.path.push bytes).endsInSlash then [.stay] else []), s = .stay ∨ s = .up := by
    intro s hs
    rcases List.mem_append.1 hs with hs | hs
    · exact Step.ofPiece?_of_not_proper hproper (Option.mem_toList.1 hs)
    · split at hs
      · exact Or.inl (List.mem_singleton.1 hs)
      · cases hs
  obtain ⟨l, hl⟩ := t.advance_of_not_down follow hsteps d
  refine ⟨l, ?_⟩
  rw [spot, Path.start_of_isAbsolute (Path.isAbsolute_push (Location.isAbsolute_path d) bytes),
    Path.lookupSteps, Path.steps_push d.path hb, List.append_assoc,
    Location.steps_path, resolve_canonical hd, resolve, hl]

/-- **Where a test finds nothing**: behind a directory, that takes a name that the system takes, and
there is nothing of that name, or a link. -/
theorem vacant_or_link_of_exists? {bytes : Bytes} (hd : t.get? d = some .directory)
    (hb : slash ∉ bytes) (h : t.exists? here (d.path.push bytes) = .ok false) :
    ∃ n : FileName, n.bytes = bytes ∧ Location.Addressable (n :: d) ∧
      (t.get? (n :: d) = none ∨ ∃ target, t.get? (n :: d) = some (.link target)) := by
  have hne : (d.path.push bytes).bytes ≠ [] := by
    intro hnil
    have hfront := Path.prefix_bytes_push d.path hb
    rw [hnil, List.prefix_nil] at hfront
    exact Location.path_bytes_ne_nil d hfront
  have hlocate := exists?_eq_false_iff.1 h
  obtain ⟨hcheck, hspot⟩ := spot_of_locate_noEntry hne hlocate
  by_cases hproper : FileName.Proper bytes
  · refine ⟨⟨bytes, hproper⟩, rfl, ?_⟩
    generalize hn : (⟨bytes, hproper⟩ : FileName) = n
    have hpath : d.path.push bytes = Location.path (n :: d) := by
      rw [← hn]
      rfl
    rw [hpath] at hlocate hcheck hspot
    have hlength := length_of_locate_noEntry hd hlocate hcheck
    exact ⟨Location.addressable_of_check (addressable_of_eq_some hd) hcheck hlength,
      vacant_or_link_of_spot hd hlength hspot⟩
  · obtain ⟨l, hl⟩ : ∃ l, t.spot here (d.path.push bytes) true = .ok (.taken l) :=
      spot_push_of_not_proper hd hb hproper
    exact absurd hl (hspot l)

/-! ### The same ways -/

/-- The two trees have the same directories and the same links, so that the same ways lead through
them. -/
structure SameWays (t u : FileTree) : Prop where
  directory : ∀ l, t.get? l = some .directory ↔ u.get? l = some .directory
  link : ∀ l target, t.get? l = some (.link target) ↔ u.get? l = some (.link target)

/-- Neither a directory nor a link: nothing leads further from there. -/
def IsEnd (x : Option Node) : Prop := x ≠ some .directory ∧ ∀ target, x ≠ some (.link target)

@[simp] theorem isEnd_none : IsEnd none := by simp [IsEnd]

@[simp] theorem isEnd_file (content : Bytes) (executable : Bool) :
    IsEnd (some (.file content executable)) := by simp [IsEnd]

/-- Trees that differ only where ways end. -/
theorem SameWays.of_isEnd {t u : FileTree}
    (h : ∀ l, u.get? l = t.get? l ∨ IsEnd (t.get? l) ∧ IsEnd (u.get? l)) : SameWays t u := by
  constructor
  · intro l
    rcases h l with heq | ⟨ht, hu⟩
    · rw [heq]
    · exact iff_of_false ht.1 hu.1
  · intro l target
    rcases h l with heq | ⟨ht, hu⟩
    · rw [heq]
    · exact iff_of_false (ht.2 target) (hu.2 target)

theorem SameWays.trans {t u v : FileTree} (h : SameWays t u) (h' : SameWays u v) :
    SameWays t v := by
  constructor
  · intro l
    exact (h.directory l).trans (h'.directory l)
  · intro l target
    exact (h.link l target).trans (h'.link l target)

/-- Reading steps got to a directory or to a link that is to be followed. -/
def OnTheWay (t : FileTree) : Progress → Prop
  | .arrived l => t.get? l = some .directory
  | .redirected _ _ _ => True
  | .vacant _ _ => False
  | .refused _ => False

theorem SameWays.advance_eq {t u : FileTree} (h : SameWays t u) {steps : List Step}
    (hway : t.OnTheWay (t.advance follow d steps)) :
    u.advance follow d steps = t.advance follow d steps := by
  induction steps generalizing d with
  | nil => rfl
  | cons s steps ih =>
      cases s with
      | stay => exact ih hway
      | up => exact ih hway
      | down n =>
          by_cases hn : maxNameLength < n.bytes.length
          · rw [advance, if_pos hn] at hway
            exact hway.elim
          · rw [advance_down hn] at hway ⊢
            rw [advance_down hn]
            cases hnode : t.get? (n :: d) with
            | none =>
                simp only [hnode] at hway
                split at hway <;> exact hway.elim
            | some node =>
                cases node with
                | directory =>
                    simp only [hnode, (h.directory _).1 hnode] at hway ⊢
                    exact ih hway
                | file content executable =>
                    -- a file is arrived at or in the way, and no directory in either case
                    simp only [hnode] at hway
                    split at hway
                    · simp [OnTheWay, hnode] at hway
                    · exact hway.elim
                | link target => simp only [(h.link _ _).1 hnode]

/-- **What leads to a directory** leads there in every tree with the same ways. -/
theorem SameWays.resolve_eq {t u : FileTree} (h : SameWays t u) {budget : Nat} {steps : List Step}
    (hl : t.get? l = some .directory) (hresolve : t.resolve follow budget d steps = .ok (.taken l)) :
    u.resolve follow budget d steps = .ok (.taken l) := by
  -- on how many links may still be followed
  induction budget using Nat.strongRecOn generalizing d steps with
  | ind budget ih =>
      rcases resolve_taken hresolve with hp | ⟨budget, e, target, rest, rfl, hp, hrest⟩
      · rw [resolve, h.advance_eq (by rw [hp]; exact hl), hp]
      · rw [resolve, h.advance_eq (by rw [hp]; trivial), hp]
        exact ih budget (Nat.lt_succ_self budget) hrest

/-! ### Canonical paths of paths -/

/-- Steps that follow links, taken from a directory, lead to an entry that is no link. -/
theorem advance_sound (hd : t.get? d = some .directory) (steps : List Step) :
    match t.advance true d steps with
    | .arrived l => ∃ node, t.get? l = some node ∧ ∀ target, node ≠ .link target
    | .redirected e _ _ => t.get? e = some .directory
    | _ => True := by
  induction steps generalizing d with
  | nil => exact ⟨.directory, hd, by simp⟩
  | cons s steps ih =>
      cases s with
      | stay => exact ih hd
      | up => exact ih (get?_tail hd)
      | down n =>
          by_cases hn : maxNameLength < n.bytes.length
          · rw [advance, if_pos hn]
            trivial
          · rw [advance_down hn]
            cases hnode : t.get? (n :: d) with
            | none => cases steps <;> trivial
            | some node =>
                cases node with
                | directory => exact ih hnode
                | file content executable =>
                    cases steps with
                    | nil => exact ⟨_, hnode, by simp⟩
                    | cons s steps => trivial
                | link target => simpa using hd

theorem resolve_sound {budget : Nat} {steps : List Step} (hd : t.get? d = some .directory)
    (h : t.resolve true budget d steps = .ok (.taken l)) :
    ∃ node, t.get? l = some node ∧ ∀ target, node ≠ .link target := by
  induction budget using Nat.strongRecOn generalizing d steps with
  | ind budget ih =>
      have hstep := advance_sound hd steps
      rcases resolve_taken h with hp | ⟨budget, e, target, rest, rfl, hp, hrest⟩
      · simpa only [hp] using hstep
      · simp only [hp] at hstep
        exact ih budget (Nat.lt_succ_self budget) (get?_start hstep target) hrest

theorem canonical_eq_ok_iff {p q : Path} :
    t.canonical here p = .ok q ↔
      0 ∉ p.bytes ∧ p.bytes ≠ [] ∧ ∃ l, t.spot here p true = .ok (.taken l) ∧ q = l.path := by
  rw [canonical]
  by_cases hnul : 0 ∈ p.bytes
  · rw [if_pos hnul]
    simp [hnul, throw, throwThe, MonadExceptOf.throw, bind, Except.bind]
  · by_cases hne : p.bytes = []
    · simp [hne, throw, throwThe, MonadExceptOf.throw, bind, Except.bind]
    · rw [if_neg hnul, if_neg hne]
      cases hspot : t.spot here p true with
      | error cause => simp [bind, Except.bind, hnul, hne]
      | ok spot =>
          cases spot <;> simp [Spot.entry, bind, Except.bind, pure, Except.pure, hnul, hne, eq_comm]

/-- **A canonical path** is that of an entry that is no link. -/
theorem canonical_sound {p q : Path} (hhere : t.get? here = some .directory)
    (h : t.canonical here p = .ok q) :
    ∃ l node, q = Location.path l ∧ t.get? l = some node ∧ ∀ target, node ≠ .link target := by
  obtain ⟨-, -, l, hspot, hl⟩ := canonical_eq_ok_iff.1 h
  obtain ⟨node, hnode, hlink⟩ := resolve_sound (get?_start hhere p) hspot
  exact ⟨l, node, hl, hnode, hlink⟩

/-- A directory has the same canonical path in every tree with the same ways. -/
theorem SameWays.canonical_eq {t u : FileTree} (h : SameWays t u) {p : Path}
    (hl : t.get? l = some .directory) (hp : t.canonical here p = .ok l.path) :
    u.canonical here p = .ok l.path := by
  obtain ⟨hnul, hne, k, hspot, hk⟩ := canonical_eq_ok_iff.1 hp
  obtain rfl := Location.path_injective hk
  exact canonical_eq_ok_iff.2 ⟨hnul, hne, l, h.resolve_eq hl hspot, rfl⟩

end DualModule.FileTree

import DualModule.Path
/-!
# Components of edited paths

What the operations on paths do to the components of a path.  A path keeps its text, but what the
library proves about paths is about their components, so each operation comes here with the equation
that says what it does to those:

* `components_push` — pushing a relative text to an absolute path appends its components,
* `components_child` — pushing a name to any path appends that name,
* `parent?_of_fileName?` — the parent of a path that ends in a name has all components but that
  name,
* `components_withFileName` — another file name replaces the last component.

What the front of a path says by itself (`Path.lead?`) is the same after each of them.

The pieces of a text are the standard library's `List.splitOn`, which is where the laws of cutting
and joining come from.
-/

namespace DualModule

/-! ### Pieces -/

section Pieces

variable {α : Type} [DecidableEq α] {separator : α}

theorem pieces_eq_splitOn (xs : List α) : pieces separator xs = xs.splitOn separator := by
  induction xs with
  | nil => rfl
  | cons x xs ih =>
      rw [pieces, List.splitOn_cons_eq_if_modifyHead, ← ih]
      by_cases hx : x = separator
      · simp [hx]
      · rw [if_neg hx, if_neg (by simpa using hx)]
        cases hp : pieces separator xs with
        | nil => exact absurd (ih ▸ hp) (List.splitOn_ne_nil _ _)
        | cons p ps => rfl

theorem pieces_ne_nil (xs : List α) : pieces separator xs ≠ [] := by
  rw [pieces_eq_splitOn]
  exact List.splitOn_ne_nil _ _

theorem pieces_append_cons (xs ys : List α) :
    pieces separator (xs ++ separator :: ys) = pieces separator xs ++ pieces separator ys := by
  simp only [pieces_eq_splitOn]
  exact List.splitOn_append_cons_self _ _

theorem pieces_of_notMem {xs : List α} (h : separator ∉ xs) : pieces separator xs = [xs] := by
  rw [pieces_eq_splitOn]
  exact List.splitOn_eq_singleton h

theorem pieces_joinPieces {ps : List (List α)} (hne : ps ≠ []) (h : ∀ p ∈ ps, separator ∉ p) :
    pieces separator (joinPieces separator ps) = ps := by
  rw [pieces_eq_splitOn]
  exact List.splitOn_intercalate separator h hne

theorem joinPieces_pieces (xs : List α) : joinPieces separator (pieces separator xs) = xs := by
  rw [pieces_eq_splitOn]
  exact List.intercalate_splitOn separator

omit [DecidableEq α] in
theorem joinPieces_append {ps qs : List (List α)} (hps : ps ≠ []) (hqs : qs ≠ []) :
    joinPieces separator (ps ++ qs) =
      joinPieces separator ps ++ separator :: joinPieces separator qs := by
  induction ps with
  | nil => contradiction
  | cons p ps ih =>
      cases ps with
      | nil =>
          obtain ⟨q, qs, rfl⟩ := List.exists_cons_of_ne_nil hqs
          simp [joinPieces]
      | cons p' ps =>
          have := ih (List.cons_ne_nil _ _)
          simp only [joinPieces, List.cons_append, List.intercalate_cons_cons] at this ⊢
          rw [this]
          simp

omit [DecidableEq α] in
theorem mem_joinPieces {ps : List (List α)} {x : α} (h : x ∈ joinPieces separator ps) :
    x = separator ∨ ∃ p ∈ ps, x ∈ p := by
  induction ps with
  | nil => cases h
  | cons p ps ih =>
      by_cases hps : ps = []
      · subst hps
        exact Or.inr ⟨p, List.mem_cons_self, by simpa [joinPieces] using h⟩
      · rw [← List.singleton_append, joinPieces_append (List.cons_ne_nil _ _) hps] at h
        rcases List.mem_append.1 h with h | h
        · exact Or.inr ⟨p, List.mem_cons_self, by simpa [joinPieces] using h⟩
        · rcases List.mem_cons.1 h with h | h
          · exact Or.inl h
          · rcases ih h with hx | ⟨q, hq, hx⟩
            · exact Or.inl hx
            · exact Or.inr ⟨q, List.mem_cons_of_mem _ hq, hx⟩

/-- A separator never gets into a piece. -/
theorem notMem_of_mem_pieces {xs p : List α} (h : p ∈ pieces separator xs) : separator ∉ p := by
  induction xs generalizing p with
  | nil =>
      rw [pieces, List.mem_singleton] at h
      exact h ▸ List.not_mem_nil
  | cons x xs ih =>
      rw [pieces] at h
      split at h
      · rcases List.mem_cons.1 h with rfl | h
        · exact List.not_mem_nil
        · exact ih h
      · rename_i hx
        cases hp : pieces separator xs with
        | nil => exact absurd hp (pieces_ne_nil xs)
        | cons q qs =>
            rw [hp] at h ih
            rcases List.mem_cons.1 h with rfl | h
            · simpa [Ne.symm hx] using ih List.mem_cons_self
            · exact ih (List.mem_cons_of_mem _ h)

end Pieces

namespace Component

@[simp] theorem ofPiece?_nil : ofPiece? [] = none := rfl

@[simp] theorem ofPiece?_bytes (n : FileName) : ofPiece? n.bytes = some (.name n) := by
  rw [ofPiece?, if_neg n.proper.2.2.2, FileName.ofBytes?_bytes]
  rfl

/-- The components that a text stands for, apart from what its front says by itself. -/
def ofBytes (bytes : Bytes) : List Component := (pieces slash bytes).filterMap ofPiece?

@[simp] theorem ofBytes_nil : ofBytes [] = [] := rfl

theorem ofBytes_append_cons (a b : Bytes) :
    ofBytes (a ++ slash :: b) = ofBytes a ++ ofBytes b := by
  simp [ofBytes, pieces_append_cons]

@[simp] theorem ofBytes_name (n : FileName) : ofBytes n.bytes = [.name n] := by
  rw [ofBytes, pieces_of_notMem n.proper.2.1]
  simp

theorem ofBytes_joinPieces {ps : List Bytes} (h : ∀ p ∈ ps, slash ∉ p) :
    ofBytes (joinPieces slash ps) = ps.filterMap ofPiece? := by
  by_cases hne : ps = []
  · subst hne
    rfl
  · rw [ofBytes, pieces_joinPieces hne h]

end Component

namespace Path

theorem isAbsolute_iff {p : Path} : p.isAbsolute = true ↔ ∃ rest, p = ⟨slash :: rest⟩ := by
  obtain ⟨bytes⟩ := p
  cases bytes with
  | nil => simp [isAbsolute]
  | cons b rest => simp [isAbsolute]

/-- What the front says by itself is no component of the pieces. -/
theorem ofBytes_body (p : Path) : Component.ofBytes p.body = Component.ofBytes p.bytes := by
  obtain ⟨bytes⟩ := p
  cases bytes with
  | nil => rfl
  | cons b rest =>
      by_cases hb : b = slash
      · subst hb
        exact (Component.ofBytes_append_cons [] rest).symm
      · by_cases hc : b = dot ∧ (rest = [] ∨ rest.head? = some slash)
        · obtain ⟨rfl, rfl | hrest⟩ := hc
          · rfl
          · obtain ⟨rest, rfl⟩ := List.head?_eq_some_iff.1 hrest
            exact (Component.ofBytes_append_cons [] rest).trans
              (Component.ofBytes_append_cons [dot] rest).symm
        · simp [body, lead?, hb, hc]

/-- **A path is what its front says and what its pieces stand for.** -/
theorem components_eq (p : Path) : p.components = p.lead?.toList ++ Component.ofBytes p.bytes := by
  rw [← ofBytes_body]
  rfl

theorem lead?_of_isAbsolute {p : Path} (h : p.isAbsolute = true) : p.lead? = some .root := by
  obtain ⟨rest, rfl⟩ := isAbsolute_iff.1 h
  rfl

/-- **An absolute path is the root and what its pieces stand for.** -/
theorem components_of_isAbsolute {p : Path} (h : p.isAbsolute = true) :
    p.components = .root :: Component.ofBytes p.bytes := by
  rw [components_eq, lead?_of_isAbsolute h]
  rfl

/-- The front of a path does not depend on what comes behind a separator further on. -/
theorem lead?_append_slash {bytes : Bytes} (h : bytes ≠ []) (rest : Bytes) :
    lead? ⟨bytes ++ slash :: rest⟩ = lead? ⟨bytes⟩ := by
  match bytes, h with
  | [b], _ => simp [lead?]
  | b :: c :: cs, _ => simp [lead?]

theorem isAbsolute_of_components {p : Path} {cs : List Component}
    (h : p.components = .root :: cs) : p.isAbsolute = true := by
  -- the root comes from the front of a path and from nowhere else
  have hpiece : ∀ piece, Component.ofPiece? piece ≠ some .root := by
    intro piece hp
    rw [Component.ofPiece?] at hp
    split at hp
    · cases hp
    · obtain ⟨_, _, hn⟩ := Option.map_eq_some_iff.1 hp
      cases hn
  have hroot : Component.root ∉ (pieces slash p.body).filterMap Component.ofPiece? := by
    rw [List.mem_filterMap]
    rintro ⟨piece, -, hp⟩
    exact hpiece piece hp
  obtain ⟨bytes⟩ := p
  cases bytes with
  | nil => cases h
  | cons b rest =>
      by_cases hb : b = slash
      · simp [isAbsolute, hb]
      · rw [components] at h
        by_cases hc : b = dot ∧ (rest = [] ∨ rest.head? = some slash)
        · rw [lead?] at h
          simp only [if_neg hb, if_pos hc, Option.toList_some, List.singleton_append] at h
          cases (List.cons.inj h).1
        · simp only [lead?, hb, hc, if_false, Option.toList_none, List.nil_append] at h
          exact absurd (h ▸ List.mem_cons_self) hroot

theorem isAbsolute_push {p : Path} (h : p.isAbsolute = true) (bytes : Bytes) :
    (p.push bytes).isAbsolute = true := by
  obtain ⟨rest, rfl⟩ := isAbsolute_iff.1 h
  unfold push
  split
  · rename_i hb
    simpa [isAbsolute] using hb
  · split <;> rfl

/-- Pushing a relative text appends what its pieces are read as, if the empty piece is read as
nothing. -/
theorem filterMap_pieces_push {α : Type} {f : Bytes → Option α} (hf : f [] = none) (p : Path)
    {bytes : Bytes} (hb : bytes.head? ≠ some slash) :
    (pieces slash (p.push bytes).bytes).filterMap f =
      (pieces slash p.bytes).filterMap f ++ (pieces slash bytes).filterMap f := by
  unfold push
  rw [if_neg hb]
  split
  · -- without a separator in between, after one that is there already
    rename_i hp
    rcases hp with hp | hp
    · simp [hp, pieces, hf]
    · obtain ⟨front, hfront⟩ := List.getLast?_eq_some_iff.1 hp
      simp only [hfront, List.append_assoc, List.singleton_append, pieces_append_cons]
      simp [pieces, hf]
  · simp [pieces_append_cons]

/-- Pushing a relative text appends its components. -/
theorem components_push {p : Path} (h : p.isAbsolute = true) {bytes : Bytes}
    (hb : bytes.head? ≠ some slash) :
    (p.push bytes).components = p.components ++ Component.ofBytes bytes := by
  rw [components_of_isAbsolute (isAbsolute_push h bytes), components_of_isAbsolute h]
  exact congrArg _ (filterMap_pieces_push Component.ofPiece?_nil p hb)

/-- A name has no front of its own. -/
theorem lead?_name (n : FileName) : lead? ⟨n.bytes⟩ = none := by
  obtain ⟨bytes, hne, hslash, hdot, -⟩ := n
  cases bytes with
  | nil => exact absurd rfl hne
  | cons b rest =>
      have hb : b ≠ slash := by
        rintro rfl
        exact hslash List.mem_cons_self
      have hc : ¬ (b = dot ∧ (rest = [] ∨ rest.head? = some slash)) := by
        rintro ⟨rfl, rfl | hrest⟩
        · exact hdot rfl
        · exact hslash (List.mem_cons_of_mem _ (List.mem_of_head? hrest))
      simp [lead?, hb, hc]

theorem head?_name_ne_slash (n : FileName) : n.bytes.head? ≠ some slash :=
  fun h => n.proper.2.1 (List.mem_of_head? h)

theorem lead?_child (p : Path) (n : FileName) : (p.child n).lead? = p.lead? := by
  unfold child push
  rw [if_neg (head?_name_ne_slash n)]
  split
  · rename_i hp
    rcases hp with hp | hp
    · rw [hp, List.nil_append, lead?_name]
      simp [lead?, hp]
    · obtain ⟨front, hfront⟩ := List.getLast?_eq_some_iff.1 hp
      obtain ⟨bytes⟩ := p
      obtain rfl : bytes = front ++ [slash] := hfront
      rw [List.append_assoc, List.singleton_append]
      by_cases hne : front = []
      · subst hne
        rfl
      · rw [lead?_append_slash hne, lead?_append_slash hne]
  · rename_i hp
    exact lead?_append_slash (not_or.1 hp).1 _

/-- The path to an entry of a directory ends in the entry's name. -/
theorem components_child (p : Path) (n : FileName) :
    (p.child n).components = p.components ++ [.name n] := by
  have hpush := filterMap_pieces_push Component.ofPiece?_nil p (head?_name_ne_slash n)
  rw [components_eq, lead?_child, components_eq p, List.append_assoc, ← Component.ofBytes_name]
  exact congrArg _ hpush

theorem fileName?_eq_some_iff {p : Path} {n : FileName} :
    p.fileName? = some n ↔ p.components.getLast? = some (.name n) := by
  unfold fileName?
  split
  · rename_i m hm
    rw [hm]
    simp
  · rename_i hne
    simp only [reduceCtorEq, false_iff]
    intro h
    exact hne n h

/-! ### The parent of a path -/

theorem dropSilent_filterMap (reversed : List Bytes) :
    (dropSilent reversed).reverse.filterMap Component.ofPiece? =
      reversed.reverse.filterMap Component.ofPiece? := by
  induction reversed with
  | nil => rfl
  | cons piece reversed ih =>
      unfold dropSilent at ih ⊢
      cases hp : Component.ofPiece? piece with
      | none =>
          rw [List.dropWhile_cons_of_pos (by simp [hp]), ih]
          simp [hp]
      | some c => rw [List.dropWhile_cons_of_neg (by simp [hp])]

/-- The first piece that is not dropped stands for the last component. -/
theorem dropSilent_eq_cons {reversed : List Bytes} {c : Component}
    (h : (reversed.reverse.filterMap Component.ofPiece?).getLast? = some c) :
    ∃ piece before, dropSilent reversed = piece :: before ∧ Component.ofPiece? piece = some c := by
  rw [← dropSilent_filterMap] at h
  cases hd : dropSilent reversed with
  | nil => simp [hd] at h
  | cons piece before =>
      have hs : Component.ofPiece? piece ≠ none := by
        have := List.head?_dropWhile_not (fun p => (Component.ofPiece? p).isNone) reversed
        rw [← dropSilent, hd] at this
        simpa [Option.isSome_iff_ne_none] using this
      obtain ⟨d, hd'⟩ := Option.ne_none_iff_exists'.1 hs
      refine ⟨piece, before, rfl, ?_⟩
      simpa [hd, hd'] using h

/-- What the front of a path can say by itself. -/
theorem lead?_cases (p : Path) : p.lead? = none ∨
    ∃ c, (c = .root ∨ c = .current) ∧ p.lead? = some c ∧ c.bytes ++ p.bytes.tail = p.bytes := by
  obtain ⟨bytes⟩ := p
  cases bytes with
  | nil => exact Or.inl rfl
  | cons b rest =>
      by_cases hb : b = slash
      · subst hb
        exact Or.inr ⟨.root, Or.inl rfl, rfl, rfl⟩
      · by_cases hc : b = dot ∧ (rest = [] ∨ rest.head? = some slash)
        · have hlead : lead? ⟨b :: rest⟩ = some .current := by
            simp only [lead?, if_neg hb, if_pos hc]
          obtain ⟨rfl, -⟩ := hc
          exact Or.inr ⟨.current, Or.inr rfl, hlead, rfl⟩
        · exact Or.inl (by simp only [lead?, if_neg hb, if_neg hc])

/-- How the front of a path is written. -/
def front (p : Path) : Bytes := (p.lead?.map Component.bytes).getD []

theorem front_append_body (p : Path) : p.front ++ p.body = p.bytes := by
  rcases p.lead?_cases with hlead | ⟨c, -, hlead, hbytes⟩
  · simp [front, body, hlead]
  · simpa [front, body, hlead] using hbytes

theorem lead?_front (p : Path) : lead? ⟨p.front⟩ = p.lead? := by
  rcases p.lead?_cases with hlead | ⟨c, rfl | rfl, hlead, -⟩ <;>
    · rw [front, hlead]
      rfl

/-- The front of a path does not depend on the pieces further on. -/
theorem lead?_front_append {p : Path} {ps qs : List Bytes} (h : pieces slash p.body = ps ++ qs)
    (hqs : qs ≠ []) : lead? ⟨p.front ++ joinPieces slash ps⟩ = p.lead? := by
  by_cases hps : ps = []
  · subst hps
    exact (congrArg (fun bytes => lead? ⟨bytes⟩) (List.append_nil _)).trans p.lead?_front
  · have hbytes : p.bytes = p.front ++ joinPieces slash ps ++ slash :: joinPieces slash qs := by
      rw [List.append_assoc, ← joinPieces_append hps hqs, ← h, joinPieces_pieces, front_append_body]
    by_cases hnil : p.front ++ joinPieces slash ps = []
    · rw [hnil, ← p.lead?_front, (List.append_eq_nil_iff.1 hnil).1]
    · have hlead := lead?_append_slash hnil (joinPieces slash qs)
      rw [← hbytes] at hlead
      exact hlead.symm

/-- **The parent of a path that ends in a name** has the components before that name. -/
theorem parent?_of_fileName? {p : Path} {n : FileName} (hn : p.fileName? = some n) :
    ∃ q, p.parent? = some q ∧ p.components = q.components ++ [.name n] := by
  rw [fileName?_eq_some_iff] at hn
  have hlast : (Component.ofBytes p.body).getLast? = some (.name n) := by
    cases hr : Component.ofBytes p.body with
    | nil =>
        rw [components, ← Component.ofBytes, hr, List.append_nil] at hn
        rcases p.lead?_cases with hlead | ⟨c, rfl | rfl, hlead, -⟩ <;> simp [hlead] at hn
    | cons c cs =>
        rw [components, ← Component.ofBytes, hr] at hn
        simpa using hn
  have hrev : (pieces slash p.body).reverse.reverse.filterMap Component.ofPiece? =
      Component.ofBytes p.body := by
    rw [List.reverse_reverse]
    rfl
  obtain ⟨piece, before, hd, hpiece⟩ := dropSilent_eq_cons (hrev ▸ hlast)
  -- the pieces of the parent are the first ones, and others come behind them
  obtain ⟨silent, hsilent⟩ : dropSilent before <:+ before := List.dropWhile_suffix _
  obtain ⟨silent', hsilent'⟩ : piece :: before <:+ (pieces slash p.body).reverse :=
    hd ▸ List.dropWhile_suffix _
  have hsplit : pieces slash p.body =
      (dropSilent before).reverse ++ (silent' ++ piece :: silent).reverse := by
    rw [← List.reverse_append, List.append_assoc, List.cons_append, hsilent, hsilent',
      List.reverse_reverse]
  let q : Path := ⟨p.front ++ joinPieces slash (dropSilent before).reverse⟩
  have hlead : q.lead? = p.lead? := lead?_front_append hsplit (by simp)
  have hbody : q.body = joinPieces slash (dropSilent before).reverse := by
    have hfront : q.front = p.front := by
      rw [front, hlead, front]
    have hbytes := q.front_append_body
    rw [hfront] at hbytes
    exact List.append_cancel_left hbytes
  have hsep : ∀ b ∈ (dropSilent before).reverse, slash ∉ b := by
    intro b hb
    exact notMem_of_mem_pieces (hsplit ▸ List.mem_append_left _ hb)
  refine ⟨q, ?_, ?_⟩
  · rw [parent?, hd]
    rfl
  · -- dropping silent pieces on either side of the name loses no component
    rw [components, components, ← Component.ofBytes, ← Component.ofBytes, hlead, hbody,
      Component.ofBytes_joinPieces hsep, dropSilent_filterMap, ← hrev, ← dropSilent_filterMap, hd]
    simp [hpiece]

/-! ### Another file name -/

theorem withFileName_eq {p q : Path} {n : FileName} (hn : p.fileName? = some n)
    (hq : p.parent? = some q) (bytes : Bytes) : p.withFileName bytes = q.push bytes := by
  rw [withFileName, hn, hq]

/-- **Another file name** replaces the last component. -/
theorem components_withFileName {p : Path} {n : FileName} (hn : p.fileName? = some n)
    (m : FileName) :
    (p.withFileName m.bytes).components = p.components.dropLast ++ [.name m] := by
  obtain ⟨q, hq, hc⟩ := parent?_of_fileName? hn
  rw [withFileName_eq hn hq, hc, List.dropLast_concat]
  exact components_child q m

/-- In place of a file name any relative text may be written, and it stands for what it says. -/
theorem components_withFileName_of_isAbsolute {p : Path} {n : FileName} (h : p.isAbsolute = true)
    (hn : p.fileName? = some n) {bytes : Bytes} (hb : bytes.head? ≠ some slash) :
    (p.withFileName bytes).components = p.components.dropLast ++ Component.ofBytes bytes := by
  obtain ⟨q, hq, hc⟩ := parent?_of_fileName? hn
  have hroot : q.isAbsolute = true := by
    have hp := hc.symm.trans (components_of_isAbsolute h)
    cases hcs : q.components with
    | nil => simp [hcs] at hp
    | cons c cs =>
        rw [hcs, List.cons_append] at hp
        exact isAbsolute_of_components ((List.cons.inj hp).1 ▸ hcs)
  rw [withFileName_eq hn hq, hc, List.dropLast_concat, components_push hroot hb]

end Path

end DualModule

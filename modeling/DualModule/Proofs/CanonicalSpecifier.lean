import DualModule.Proofs.Resolution
/-!
# Specifiers are canonical

Of the many ways to write how one gets from a directory to a path, a relative specifier is the one
that goes up no further than it has to and then straight down (`Specifier.relative_canonical`).

**Parts.**  What a specifier asks for are the pieces between its separators, without those that ask
for nothing.  Of a written specifier these are the parts that it was written from
(`askingParts_write`), and reading a specifier is following them (`resolve_eq_foldl`).

**The least number of steps up.**  However far a specifier goes up, what it leaves of the directory
is a front of the target as well if it arrives there; and the two have no longer front in common
than the one from which the specifier was written (`length_le_commonLength`).

## Main Definitions

* `Specifier.askingParts`
* `Specifier.UpThenDown`
-/

namespace DualModule

theorem Component.IsText.display_ne_stay {c : Component} (h : c.IsText) :
    c.display ≠ ".".toList := by
  obtain ⟨n, text, rfl, hn⟩ := h
  rw [display_of_text? hn]
  rintro rfl
  exact n.proper.2.2.1 ((FileName.text?_eq_some_iff.1 hn).trans (by decide))

namespace Specifier

/-- The parts of a specifier that ask for something: neither empty nor `.`. -/
def askingParts (specifier : Text) : List Text :=
  (pieces '/' specifier).filter fun part => part ≠ [] ∧ part ≠ ".".toList

/-- The specifier goes up so many times and then down by names. -/
def UpThenDown (specifier : Text) (ups : Nat) : Prop :=
  ∃ names, "..".toList ∉ names ∧
    askingParts specifier = List.replicate ups "..".toList ++ names

/-! ### Parts of written specifiers -/

/-- **The parts are read back** from what was written of them. -/
theorem askingParts_write {ps : List Text}
    (h : ∀ t ∈ ps, t ≠ [] ∧ t ≠ ".".toList ∧ '/' ∉ t) : askingParts (write ps) = ps := by
  have hjoined : (pieces '/' (joinPieces '/' ps)).filter
      (fun part => part ≠ [] ∧ part ≠ ".".toList) = ps := by
    by_cases hps : ps = []
    · subst hps
      rfl
    · rw [pieces_joinPieces hps fun t ht => (h t ht).2.2, List.filter_eq_self]
      intro t ht
      simpa using ⟨(h t ht).1, (h t ht).2.1⟩
  rw [askingParts, write_eq]
  split
  · exact hjoined
  · -- the piece in front of the first separator is `.`
    have hfront : "./".toList ++ joinPieces '/' ps = ".".toList ++ '/' :: joinPieces '/' ps := rfl
    have hdot : (pieces '/' ".".toList).filter
        (fun part => part ≠ [] ∧ part ≠ ".".toList) = [] := by decide
    rw [hfront, pieces_append_cons, List.filter_append, hdot, hjoined, List.nil_append]

/-- A written specifier begins with `./` or `../`. -/
theorem write_begins (ps : List Text) :
    "./".toList <+: write ps ∨ "../".toList <+: write ps := by
  rw [write_eq]
  split
  · exact Or.inr ‹_›
  · exact Or.inl (List.prefix_append _ _)

/-- **A relative specifier goes up and then down.** -/
theorem upThenDown_relative {directory p : Path} (hd : directory.Plain) (hp : p.Plain) :
    UpThenDown (relative directory p)
      (directory.components.length - commonLength directory.components p.components) := by
  have hroot := Path.components_eq_root_cons hp.isAbsolute
  have hnames : ∀ c ∈ p.components.drop (commonLength directory.components p.components),
      c.IsText := by
    rw [hroot]
    exact isText_of_mem_drop hd.isAbsolute hp.isText
  refine ⟨_, ?_, askingParts_write fun t ht => ?_⟩
  · rw [List.mem_map]
    rintro ⟨c, hc, hup⟩
    exact (hnames c hc).display_ne_up hup
  · have hpart := ht
    rw [hroot] at hpart
    obtain ⟨hne, hslash⟩ := mem_parts hd.isAbsolute hp.isText t hpart
    refine ⟨hne, ?_, hslash⟩
    rcases List.mem_append.1 ht with ht | ht
    · rw [List.eq_of_mem_replicate ht]
      decide
    · obtain ⟨c, hc, rfl⟩ := List.mem_map.1 ht
      exact (hnames c hc).display_ne_stay

/-! ### Reading any specifier -/

/-- **Reading is following the parts that ask for something.** -/
theorem resolve_eq_foldl (l : Location) (specifier : Text) :
    resolve l specifier = ((askingParts specifier).filterMap Step.ofPart?).foldl Step.move l := by
  have hsteps : (Path.ofText specifier).steps =
      (pieces '/' specifier).filterMap Step.ofPart? := by
    have hjoin := Path.steps_ofText_joinPieces fun t (ht : t ∈ pieces '/' specifier) =>
      notMem_of_mem_pieces ht
    rwa [joinPieces_pieces] at hjoin
  rw [resolve, hsteps, askingParts]
  -- a part that asks for nothing leads nowhere
  generalize pieces '/' specifier = ps
  induction ps generalizing l with
  | nil => rfl
  | cons part ps ih =>
      by_cases hnone : part = []
      · subst hnone
        exact ih l
      · by_cases hstay : part = ".".toList
        · subst hstay
          exact ih l
        · rw [List.filter_cons_of_pos (by simpa using ⟨hnone, hstay⟩), List.filterMap_cons,
            List.filterMap_cons]
          split
          · exact ih l
          · exact ih _

/-- Parts that are neither `.` nor `..` lead down. -/
theorem exists_downs {names : List Text} (hup : "..".toList ∉ names)
    (hstay : ∀ part ∈ names, part ≠ ".".toList) :
    ∃ downs : List FileName, names.filterMap Step.ofPart? = downs.map .down := by
  induction names with
  | nil => exact ⟨[], rfl⟩
  | cons part names ih =>
      rw [List.mem_cons, not_or] at hup
      rw [List.forall_mem_cons] at hstay
      obtain ⟨downs, hdowns⟩ := ih hup.2 hstay.2
      have hpart : Step.ofPart? part = (FileName.ofBytes? (Utf8.encode part)).map .down := by
        have hne : Utf8.encode part ≠ [dot] := fun h => hstay.1 (Utf8.encode_injective h)
        have hne' : Utf8.encode part ≠ [dot, dot] := fun h =>
          hup.1 (Utf8.encode_injective (h.symm : Utf8.encode "..".toList = _))
        rw [Step.ofPart?, Step.ofPiece?, if_neg hne, if_neg hne']
      cases hname : FileName.ofBytes? (Utf8.encode part) with
      | none =>
          rw [hname] at hpart
          exact ⟨downs, by rw [List.filterMap_cons_none hpart, hdowns]⟩
      | some n =>
          rw [hname] at hpart
          exact ⟨n :: downs, by rw [List.filterMap_cons_some hpart, hdowns, List.map_cons]⟩

/-- Where a specifier leads that goes up and then down. -/
theorem UpThenDown.exists_resolve {specifier : Text} {ups : Nat} (h : UpThenDown specifier ups)
    (l : Location) : ∃ downs : List FileName, resolve l specifier = downs ++ l.drop ups := by
  obtain ⟨names, hup, hparts⟩ := h
  have hstay : ∀ part ∈ names, part ≠ ".".toList := by
    intro part hpart
    have hmem : part ∈ askingParts specifier := hparts ▸ List.mem_append_right _ hpart
    exact (of_decide_eq_true (List.mem_filter.1 hmem).2).2
  obtain ⟨downs, hdowns⟩ := exists_downs hup hstay
  refine ⟨downs.reverse, ?_⟩
  rw [resolve_eq_foldl, hparts, List.filterMap_append, List.filterMap_replicate, Step.ofPart?_up,
    hdowns, List.foldl_append, Step.foldl_move_up, Step.foldl_move_down]

/-! ### The least number of steps up -/

/-- What is a front of both is no longer than what the two have in common. -/
theorem length_le_commonLength {front as bs : List Component} (ha : front <+: as)
    (hb : front <+: bs) : front.length ≤ commonLength as bs := by
  induction front generalizing as bs with
  | nil => exact Nat.zero_le _
  | cons c front ih =>
      obtain ⟨as, rfl⟩ := ha
      obtain ⟨bs, rfl⟩ := hb
      rw [List.cons_append, List.cons_append, commonLength, if_pos rfl, List.length_cons]
      exact Nat.succ_le_succ (ih (List.prefix_append _ _) (List.prefix_append _ _))

/-- **No specifier goes up less often.** -/
theorem ups_le {directory p : Path} (hd : directory.Plain) (hp : p.Plain) {specifier : Text}
    {ups : Nat} (h : UpThenDown specifier ups)
    (hresolve : resolve directory.location specifier = p.location) :
    directory.components.length - commonLength directory.components p.components ≤ ups := by
  obtain ⟨downs, hdowns⟩ := h.exists_resolve directory.location
  rw [hresolve] at hdowns
  have hfront : ∀ {q : Path}, q.Plain → directory.location.drop ups <:+ q.location →
      (Component.root :: (directory.location.drop ups).reverse.map .name) <+: q.components := by
    intro q hq hsuffix
    rw [hq.components_eq, List.cons_prefix_cons]
    exact ⟨rfl, (List.reverse_prefix.2 hsuffix).map _⟩
  have hle := length_le_commonLength (hfront hd (List.drop_suffix _ _))
    (hfront hp (hdowns ▸ List.suffix_append _ _))
  rw [hd.components_eq] at hle ⊢
  simp only [List.length_cons, List.length_map, List.length_reverse, List.length_drop] at hle ⊢
  omega

/-- **Relative specifiers are canonical.**  A specifier begins with `./` or `../` and goes up before
it goes down; read from its directory it leads to its target; no other specifier that goes up and
then down and leads there goes up less often; and no other path has the same specifier. -/
theorem relative_canonical {directory p : Path} (hd : directory.Plain) (hp : p.Plain) :
    let specifier := relative directory p
    ("./".toList <+: specifier ∨ "../".toList <+: specifier) ∧
    (∃ ups, UpThenDown specifier ups ∧
      (resolve directory.location specifier).path.Same p ∧
      ∀ other k, UpThenDown other k → (resolve directory.location other).path.Same p → ups ≤ k) ∧
    ∀ q : Path, q.Plain → relative directory q = specifier → q.Same p := by
  intro specifier
  have hsame : ∀ l : Location, l.path.Same p ↔ l = p.location := by
    intro l
    rw [Path.Same, Location.components_path, hp.components_eq, ← Location.components_path,
      ← Location.components_path]
    exact ⟨Location.components_path_injective, fun h => h ▸ rfl⟩
  refine ⟨write_begins _, ⟨_, upThenDown_relative hd hp, ?_, ?_⟩, ?_⟩
  · rw [hsame]
    exact resolve_relative hd hp
  · intro other k hother hleads
    exact ups_le hd hp hother ((hsame _).1 hleads)
  · intro q hq h
    exact relative_injective hd.isAbsolute hq hp h

/-- A path in a neighbouring directory, both with names that look like steps up, and the directory
above, whose specifier has no name at all. -/
theorem relative_canonical_of_dotted_names :
    let directory := Path.ofText "/out/..a".toList
    let p := Path.ofText "/out/..b/...".toList
    let specifier := relative directory p
    directory.Plain ∧ p.Plain ∧ specifier = "../..b/...".toList ∧
    relative directory (Path.ofText "/out".toList) = "./..".toList ∧
    ("./".toList <+: specifier ∨ "../".toList <+: specifier) ∧
    (∃ ups, UpThenDown specifier ups ∧
      (resolve directory.location specifier).path.Same p ∧
      ∀ other k, UpThenDown other k → (resolve directory.location other).path.Same p → ups ≤ k) ∧
    ∀ q : Path, q.Plain → relative directory q = specifier → q.Same p :=
  ⟨by decide, by decide, by decide, by decide, relative_canonical (by decide) (by decide)⟩

end Specifier

end DualModule

import DualModule.Proofs.RenamePlan
import DualModule.Specifier
/-!
# Relative specifiers and what they tell apart

A specifier is written from its parts, and the parts from the two component lists.  Three facts
about the writing carry the development.

* **Extensions can be added last** (`write_append`): text without a separator at the end of the
  last part is text at the end of the specifier.
* **A target beside the directory or below it, or elsewhere** (`relative_of_endsIn`): unless the
  target is the directory itself or above it, the last part is the target's name.
* **Nothing is lost** (`relative_injective`): from one absolute directory, two targets whose names
  are text have different specifiers.

A target that is the directory or above it is the odd case.  Its specifier consists of `..` only
(`relative_of_prefix`), so that text put behind it changes the last part from a step up to a name.
-/

namespace DualModule

/-- A name that is text. -/
def Component.IsText (c : Component) : Prop := ∃ n text, c = .name n ∧ n.text? = some text

/-- An absolute path whose names are text and that goes neither up nor nowhere. -/
structure Path.Plain (p : Path) : Prop where
  isAbsolute : p.isAbsolute = true
  isText : ∀ c ∈ p.components.tail, c.IsText

instance : (c : Component) → Decidable c.IsText
  | .name n => decidable_of_iff (n.text?.isSome = true)
      (by simp [Component.IsText, Option.isSome_iff_exists])
  | .root | .current | .parent => isFalse (by rintro ⟨_, _, h, _⟩; cases h)

instance (p : Path) : Decidable p.Plain :=
  decidable_of_iff (p.isAbsolute = true ∧ ∀ c ∈ p.components.tail, c.IsText)
    ⟨fun h => ⟨h.1, h.2⟩, fun h => ⟨h.1, h.2⟩⟩

theorem Path.components_eq_root_cons {p : Path} (h : p.isAbsolute = true) :
    p.components = .root :: p.components.tail := by
  rw [components_of_isAbsolute h]
  rfl

namespace Specifier

/-! ### What two component lists have in common -/

theorem commonLength_le_left (as bs : List Component) : commonLength as bs ≤ as.length := by
  induction as generalizing bs with
  | nil => simp [commonLength]
  | cons a as ih =>
      cases bs with
      | nil => simp [commonLength]
      | cons b bs =>
          rw [commonLength]
          split
          · simpa using ih bs
          · simp

theorem commonLength_comm (as bs : List Component) : commonLength as bs = commonLength bs as := by
  induction as generalizing bs with
  | nil => cases bs <;> rfl
  | cons a as ih =>
      cases bs with
      | nil => rfl
      | cons b bs =>
          rw [commonLength, commonLength, ih bs]
          by_cases hab : a = b
          · rw [if_pos hab, if_pos hab.symm]
          · rw [if_neg hab, if_neg (Ne.symm hab)]

theorem commonLength_le_right (as bs : List Component) : commonLength as bs ≤ bs.length := by
  rw [commonLength_comm]
  exact commonLength_le_left bs as

theorem take_commonLength (as bs : List Component) :
    as.take (commonLength as bs) = bs.take (commonLength as bs) := by
  induction as generalizing bs with
  | nil => simp [commonLength]
  | cons a as ih =>
      cases bs with
      | nil => simp [commonLength]
      | cons b bs =>
          rw [commonLength]
          split
          · rename_i hab
            rw [List.take_succ_cons, List.take_succ_cons, hab, ih bs]
          · rfl

theorem commonLength_of_prefix {source target : List Component} (h : target <+: source) :
    commonLength source target = target.length := by
  obtain ⟨rest, rfl⟩ := h
  induction target with
  | nil => cases rest <;> rfl
  | cons c target ih => simp [commonLength, ih]

/-- One more component is in common only if the whole list is. -/
theorem commonLength_concat {source d : List Component} {c : Component}
    (h : ¬ d ++ [c] <+: source) : commonLength source (d ++ [c]) = commonLength source d := by
  induction d generalizing source with
  | nil =>
      cases source with
      | nil => rfl
      | cons s source =>
          have hs : s ≠ c := by
            rintro rfl
            exact h (by simp)
          simp [commonLength, hs]
  | cons b d ih =>
      cases source with
      | nil => rfl
      | cons s source =>
          by_cases hs : s = b
          · subst hs
            have h' : ¬ d ++ [c] <+: source := by
              intro hp
              exact h (by simpa using hp)
            simp [commonLength, ih h']
          · simp [commonLength, hs]

/-! ### Parts -/

/-- The parts of a target beside or below the directory, or elsewhere, end in its last component. -/
theorem parts_concat {source d : List Component} {c : Component} (h : ¬ d ++ [c] <+: source) :
    parts source (d ++ [c]) = parts source d ++ [c.display] := by
  have hle := commonLength_le_right source d
  simp only [parts, commonLength_concat h, List.append_assoc]
  rw [List.drop_append_of_le_length hle, List.map_append, List.map_singleton]

/-- A target that is the directory or above it is reached by going up. -/
theorem parts_of_prefix {source target : List Component} (h : target <+: source) :
    parts source target = List.replicate (source.length - target.length) "..".toList := by
  simp [parts, commonLength_of_prefix h]

/-! ### Writing -/

theorem joinPieces_concat_append (ps : List Text) (text extension : Text) :
    joinPieces '/' (ps ++ [text ++ extension]) = joinPieces '/' (ps ++ [text]) ++ extension := by
  by_cases hps : ps = []
  · simp [hps, joinPieces]
  · rw [joinPieces_append hps (by simp), joinPieces_append hps (by simp)]
    simp [joinPieces]

theorem goesUp_append_iff {front extension : Text} (h : '/' ∉ extension) :
    "../".toList <+: front ++ extension ↔ "../".toList <+: front := by
  constructor
  · intro hp
    rcases List.prefix_or_prefix_of_prefix hp (List.prefix_append front extension) with hf | hf
    · exact hf
    · -- what is missing of `../` at the end of `front` would begin the extension
      obtain ⟨rest, hrest⟩ := hf
      rw [← hrest, List.prefix_append_right_inj] at hp
      cases hr : rest.getLast? with
      | none =>
          rw [List.getLast?_eq_none_iff.1 hr, List.append_nil] at hrest
          exact hrest ▸ List.prefix_rfl
      | some c =>
          have hc : (front ++ rest).getLast? = some c := by
            rw [List.getLast?_append, hr]
            rfl
          rw [hrest] at hc
          cases hc
          exact absurd (hp.subset (List.mem_of_getLast? hr)) h
  · intro hp
    exact hp.trans (List.prefix_append _ _)

theorem write_eq (ps : List Text) :
    write ps = if "../".toList <+: joinPieces '/' ps then joinPieces '/' ps
      else "./".toList ++ joinPieces '/' ps := by
  unfold write
  by_cases h : "../".toList <+: joinPieces '/' ps
  · rw [if_pos h]
    exact if_pos (List.isPrefixOf_iff_prefix.2 h)
  · rw [if_neg h]
    exact if_neg fun hp => h (List.isPrefixOf_iff_prefix.1 hp)

/-- **Extensions can be added last.** -/
theorem write_append (ps : List Text) (text : Text) {extension : Text} (h : '/' ∉ extension) :
    write (ps ++ [text ++ extension]) = write (ps ++ [text]) ++ extension := by
  simp only [write_eq, joinPieces_concat_append, goesUp_append_iff h]
  split <;> simp

/-- **The specifier of a target that is not the directory or above it** ends in its name. -/
theorem relative_of_endsIn {directory p : Path} {d : List Component} {text : Text}
    (h : p.EndsIn d text) (hp : ¬ p.components <+: directory.components) :
    relative directory p = write (parts directory.components d ++ [text]) := by
  obtain ⟨n, hn, hc⟩ := h
  rw [hc] at hp
  rw [relative, hc, parts_concat hp, Component.display_of_text? hn]

/-- The specifier of a target that is the directory or above it goes up and nowhere else. -/
theorem relative_of_prefix {directory p : Path} (h : p.components <+: directory.components) :
    ∃ k, relative directory p = write (List.replicate k "..".toList) :=
  ⟨_, by rw [relative, parts_of_prefix h]⟩

/-! ### The last character -/

theorem getLast?_joinPieces_concat (ps : List Text) {text : Text} (h : text ≠ []) :
    (joinPieces '/' (ps ++ [text])).getLast? = text.getLast? := by
  have hsplit := joinPieces_concat_append ps [] text
  rw [List.nil_append] at hsplit
  rw [hsplit, List.getLast?_append]
  cases ht : text.getLast? with
  | none => exact absurd (List.getLast?_eq_none_iff.1 ht) h
  | some c => rfl

theorem getLast?_write_concat (ps : List Text) {text : Text} (h : text ≠ []) :
    (write (ps ++ [text])).getLast? = text.getLast? := by
  rw [write_eq]
  split
  · exact getLast?_joinPieces_concat ps h
  · rw [List.getLast?_append, getLast?_joinPieces_concat ps h]
    cases ht : text.getLast? with
    | none => exact absurd (List.getLast?_eq_none_iff.1 ht) h
    | some c => rfl

theorem getLast?_write_replicate (k : Nat) :
    (write (List.replicate k "..".toList)).getLast? = some (if k = 0 then '/' else '.') := by
  cases k with
  | zero => decide
  | succ k =>
      rw [List.replicate_succ', getLast?_write_concat _ (by decide)]
      rfl

/-! ### Telling targets apart -/

theorem joinPieces_injective {ps qs : List Text} (hps : ∀ t ∈ ps, t ≠ [] ∧ '/' ∉ t)
    (hqs : ∀ t ∈ qs, t ≠ [] ∧ '/' ∉ t) (h : joinPieces '/' ps = joinPieces '/' qs) : ps = qs := by
  by_cases hp : ps = []
  · by_cases hq : qs = []
    · rw [hp, hq]
    · -- no text is joined to nothing
      have hpieces := pieces_joinPieces hq fun t ht => (hqs t ht).2
      rw [← h, hp] at hpieces
      exact absurd rfl (hqs [] (hpieces ▸ List.mem_singleton_self _)).1
  · have hpieces := pieces_joinPieces hp fun t ht => (hps t ht).2
    by_cases hq : qs = []
    · rw [h, hq] at hpieces
      exact absurd rfl (hps [] (hpieces ▸ List.mem_singleton_self _)).1
    · rw [← hpieces, h, pieces_joinPieces hq fun t ht => (hqs t ht).2]

theorem write_injective {ps qs : List Text} (hps : ∀ t ∈ ps, t ≠ [] ∧ '/' ∉ t)
    (hqs : ∀ t ∈ qs, t ≠ [] ∧ '/' ∉ t) (h : write ps = write qs) : ps = qs := by
  refine joinPieces_injective hps hqs ?_
  rw [write_eq, write_eq] at h
  -- a text that goes up and a text behind `./` differ in their second characters
  split at h <;> rename_i hp <;> split at h <;> rename_i hq
  · exact h
  · obtain ⟨rest, hrest⟩ := hp
    rw [← hrest] at h
    cases h
  · obtain ⟨rest, hrest⟩ := hq
    rw [← hrest] at h
    cases h
  · exact List.append_cancel_left h

end Specifier

namespace Component.IsText

variable {c : Component}

theorem display_ne_nil (h : c.IsText) : c.display ≠ [] := by
  obtain ⟨n, text, rfl, hn⟩ := h
  rw [display_of_text? hn]
  rintro rfl
  exact n.proper.1 (FileName.text?_eq_some_iff.1 hn)

theorem slash_notMem_display (h : c.IsText) : '/' ∉ c.display := by
  obtain ⟨n, text, rfl, hn⟩ := h
  rw [display_of_text? hn]
  exact FileName.slash_notMem_text hn

theorem display_ne_up (h : c.IsText) : c.display ≠ "..".toList := by
  obtain ⟨n, text, rfl, hn⟩ := h
  rw [display_of_text? hn]
  rintro rfl
  exact n.proper.2.2.2 ((FileName.text?_eq_some_iff.1 hn).trans (by decide))

theorem display_injective {c' : Component} (h : c.IsText) (h' : c'.IsText)
    (heq : c.display = c'.display) : c = c' := by
  obtain ⟨n, text, rfl, hn⟩ := h
  obtain ⟨n', text', rfl, hn'⟩ := h'
  rw [display_of_text? hn, display_of_text? hn'] at heq
  rw [FileName.eq_of_text? hn (heq ▸ hn')]

theorem map_display_injective {cs cs' : List Component} (h : ∀ c ∈ cs, c.IsText)
    (h' : ∀ c ∈ cs', c.IsText) (heq : cs.map display = cs'.map display) : cs = cs' := by
  induction cs generalizing cs' with
  | nil => exact (List.map_eq_nil_iff.1 heq.symm).symm
  | cons c cs ih =>
      obtain ⟨c', cs', rfl, hc, hcs⟩ := List.map_eq_cons_iff.1 heq.symm
      rw [List.forall_mem_cons] at h h'
      rw [display_injective h.1 h'.1 hc.symm, ih h.2 h'.2 hcs.symm]

end Component.IsText

namespace Specifier

/-- The parts of a specifier determine the target: the number of steps up says how much the two
paths have in common, and the names behind it say the rest. -/
theorem parts_injective {source target target' : List Component}
    (h : ∀ c ∈ target.drop (commonLength source target), c.IsText)
    (h' : ∀ c ∈ target'.drop (commonLength source target'), c.IsText)
    (heq : parts source target = parts source target') : target = target' := by
  -- no name is written like a step up
  have hcount : ∀ {k : Nat} {cs : List Component}, (∀ c ∈ cs, c.IsText) →
      (List.replicate k "..".toList ++ cs.map Component.display).count "..".toList = k := by
    intro k cs hcs
    rw [List.count_append, List.count_replicate_self, List.count_eq_zero_of_not_mem, Nat.add_zero]
    rw [List.mem_map]
    rintro ⟨c, hc, hup⟩
    exact (hcs c hc).display_ne_up hup
  have hk : source.length - commonLength source target =
      source.length - commonLength source target' := by
    rw [← hcount (k := source.length - commonLength source target) h,
      ← hcount (k := source.length - commonLength source target') h']
    exact congrArg _ heq
  have hcommon : commonLength source target = commonLength source target' := by
    have := commonLength_le_left source target
    have := commonLength_le_left source target'
    omega
  simp only [parts, hk, List.append_cancel_left_eq] at heq
  rw [← List.take_append_drop (commonLength source target) target,
    ← List.take_append_drop (commonLength source target') target',
    Component.IsText.map_display_injective h h' heq, ← take_commonLength, ← take_commonLength,
    hcommon]

section Absolute

variable {directory : Path} (hd : directory.isAbsolute = true)
include hd

theorem isText_of_mem_drop {cs : List Component} (hcs : ∀ c ∈ cs, c.IsText) :
    ∀ c ∈ (Component.root :: cs).drop (commonLength directory.components (.root :: cs)),
      c.IsText := by
  intro c hc
  rw [Path.components_eq_root_cons hd, commonLength, if_pos rfl, List.drop_succ_cons] at hc
  exact hcs c (List.mem_of_mem_drop hc)

theorem mem_parts {cs : List Component} (hcs : ∀ c ∈ cs, c.IsText) :
    ∀ t ∈ parts directory.components (.root :: cs), t ≠ [] ∧ '/' ∉ t := by
  intro t ht
  rcases List.mem_append.1 ht with ht | ht
  · rw [List.eq_of_mem_replicate ht]
    decide
  · obtain ⟨c, hc, rfl⟩ := List.mem_map.1 ht
    have := isText_of_mem_drop hd hcs c hc
    exact ⟨this.display_ne_nil, this.slash_notMem_display⟩

/-- Parts that lead somewhere and a name behind them are read off what was written. -/
theorem write_parts_concat_injective {cs cs' : List Component} {text text' : Text}
    (hcs : ∀ c ∈ cs, c.IsText) (hcs' : ∀ c ∈ cs', c.IsText) (htext : text ≠ [] ∧ '/' ∉ text)
    (htext' : text' ≠ [] ∧ '/' ∉ text')
    (h : write (parts directory.components (.root :: cs) ++ [text]) =
      write (parts directory.components (.root :: cs') ++ [text'])) :
    cs = cs' ∧ text = text' := by
  have hmem : ∀ {cs text}, (∀ c ∈ cs, c.IsText) → (text ≠ [] ∧ '/' ∉ text) →
      ∀ t ∈ parts directory.components (.root :: cs) ++ [text], t ≠ [] ∧ '/' ∉ t := by
    intro cs text hcs htext t ht
    rcases List.mem_append.1 ht with ht | ht
    · exact mem_parts hd hcs t ht
    · exact List.mem_singleton.1 ht ▸ htext
  obtain ⟨hparts, hlast⟩ :=
    List.append_inj' (write_injective (hmem hcs htext) (hmem hcs' htext') h) rfl
  have hroots := parts_injective (isText_of_mem_drop hd hcs) (isText_of_mem_drop hd hcs') hparts
  exact ⟨(List.cons.inj hroots).2, List.singleton_inj.1 hlast⟩

/-- **From one directory, different targets have different specifiers.** -/
theorem relative_injective {p q : Path} (hp : p.Plain) (hq : q.Plain)
    (h : relative directory p = relative directory q) : p.components = q.components := by
  rw [relative, relative, Path.components_eq_root_cons hp.isAbsolute,
    Path.components_eq_root_cons hq.isAbsolute] at h
  rw [Path.components_eq_root_cons hp.isAbsolute, Path.components_eq_root_cons hq.isAbsolute]
  exact parts_injective (isText_of_mem_drop hd hp.isText) (isText_of_mem_drop hd hq.isText)
    (write_injective (mem_parts hd hp.isText) (mem_parts hd hq.isText) h)

end Absolute

/-- What a specifier is made of. -/
theorem mem_relative {directory p : Path} {ch : Char} (h : ch ∈ relative directory p) :
    ch = '.' ∨ ch = '/' ∨ ∃ c ∈ p.components, ch ∈ c.display := by
  have hjoined : ∀ {ch : Char}, ch ∈ joinPieces '/' (parts directory.components p.components) →
      ch = '.' ∨ ch = '/' ∨ ∃ c ∈ p.components, ch ∈ c.display := by
    intro ch hch
    rcases mem_joinPieces hch with rfl | ⟨t, ht, hch⟩
    · exact Or.inr (Or.inl rfl)
    · rcases List.mem_append.1 ht with ht | ht
      · rw [List.eq_of_mem_replicate ht] at hch
        exact Or.inl (by simpa using hch)
      · obtain ⟨c, hc, rfl⟩ := List.mem_map.1 ht
        exact Or.inr (Or.inr ⟨c, List.mem_of_mem_drop hc, hch⟩)
  rw [relative, write_eq] at h
  split at h
  · exact hjoined h
  · rcases List.mem_append.1 h with h | h
    · have : ch = '.' ∨ ch = '/' := by simpa using h
      exact this.imp_right Or.inl
    · exact hjoined h

end Specifier

end DualModule

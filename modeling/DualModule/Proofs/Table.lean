import DualModule.Proofs.Scan
import DualModule.Proofs.Specifier
/-!
# Tables of dual-module plans

What stands in the table that a dual-module plan gives a directory.  An entry is determined by a
mapping, a quote and the extension that an importer may write or leave out
(`Mapping.replacement`), and its new text is always the stem's specifier with `.cjs`.

**Keeping the first entry for a needle loses nothing.**  No stem's specifier ends in `s`, because it
ends in `_pb` or consists of steps up; so a needle says whether the extension was written, and with
it the new text (`eq_of_needle_eq`).  The table therefore holds every entry of every mapping
(`mem_table_iff`), whatever the order of the mappings.

**No new text is a needle** (`newText_ne_needle`), for the same reason.
-/

namespace DualModule

/-- What an importer may write behind a stem. -/
def specifierExtensions : List Text := [".js".toList, []]

namespace Mapping

/-- The entry of a mapping for one quote and one spelling. -/
def replacement (directory : Path) (m : Mapping) (quote : Char) (extension : Text) : Replacement where
  needle := Replacement.quoted quote (Specifier.relative directory m.oldStem ++ extension)
  newText := Replacement.quoted quote (Specifier.relative directory m.oldStem ++ ".cjs".toList)

variable {m : Mapping} {d : List Component} {base : Text}

/-- Both stems of a dual-module mapping are imported alike. -/
theorem Dual.relative_newStem (h : m.Dual d base) (directory : Path) :
    Specifier.relative directory m.newStem = Specifier.relative directory m.oldStem := by
  rw [Specifier.relative, Specifier.relative, h.newStem_components]

theorem Dual.mem_candidates_iff (h : m.Dual d base) {directory : Path} {r : Replacement} :
    r ∈ Replacement.candidates directory m ↔
      ∃ q ∈ quotes, ∃ e ∈ specifierExtensions, r = m.replacement directory q e := by
  simp only [Replacement.candidates, List.mem_flatMap, h.relative_newStem,
    RenameRule.oldSpecifierExtension_of_mem h.rule, RenameRule.newSpecifierExtension_of_mem h.rule]
  refine exists_congr fun q => and_congr_right fun _ => ?_
  simp [specifierExtensions, replacement]

/-- A stem's specifier ends in `_pb`, or in a step up or nowhere. -/
theorem Dual.getLast?_relative (h : m.Dual d base) (directory : Path) :
    (Specifier.relative directory m.oldStem).getLast? ≠ some 's' := by
  by_cases hp : m.oldStem.components <+: directory.components
  · obtain ⟨k, hk⟩ := Specifier.relative_of_prefix hp
    rw [hk, Specifier.getLast?_write_replicate]
    split <;> decide
  · rw [Specifier.relative_of_endsIn h.oldStem hp, Specifier.getLast?_write_concat _ (by simp)]
    simp

end Mapping

namespace Replacement

theorem quoted_injective {q q' : Char} {text text' : Text}
    (h : quoted q text = quoted q' text') : q = q' ∧ text = text' := by
  simp only [quoted, List.cons_append, List.cons.injEq] at h
  obtain ⟨rfl, h⟩ := h
  exact ⟨rfl, List.append_cancel_right h⟩

end Replacement

namespace Mapping.Dual

variable {directory : Path} {m m' : Mapping} {d d' : List Component} {base base' : Text}
variable {q q' : Char} {e e' : Text}

theorem getLast?_append_extension (h : m.Dual d base) (directory : Path)
    (he : e ∈ specifierExtensions) :
    (Specifier.relative directory m.oldStem ++ e).getLast? = some 's' ↔ e = ".js".toList := by
  simp only [specifierExtensions, List.mem_cons, List.not_mem_nil, or_false] at he
  rcases he with rfl | rfl
  · simp
  · simpa using h.getLast?_relative directory

/-- **A needle determines its entry.** -/
theorem replacement_eq_of_needle_eq (h : m.Dual d base) (h' : m'.Dual d' base')
    (he : e ∈ specifierExtensions) (he' : e' ∈ specifierExtensions)
    (heq : (m.replacement directory q e).needle = (m'.replacement directory q' e').needle) :
    q = q' ∧ e = e' ∧
      Specifier.relative directory m.oldStem = Specifier.relative directory m'.oldStem := by
  obtain ⟨hq, hspec⟩ := Replacement.quoted_injective heq
  have hext : e = ".js".toList ↔ e' = ".js".toList := by
    rw [← h.getLast?_append_extension directory he, hspec,
      h'.getLast?_append_extension directory he']
  have hee : e = e' := by
    simp only [specifierExtensions, List.mem_cons, List.not_mem_nil, or_false] at he he'
    grind
  subst hee
  exact ⟨hq, rfl, List.append_cancel_right hspec⟩

/-- **No new text is a needle.** -/
theorem newText_ne_needle (h' : m'.Dual d' base') (he' : e' ∈ specifierExtensions) :
    (m.replacement directory q e).newText ≠ (m'.replacement directory q' e').needle := by
  intro heq
  obtain ⟨-, hspec⟩ := Replacement.quoted_injective heq
  have hjs : e' = ".js".toList := by
    rw [← h'.getLast?_append_extension directory he', ← hspec]
    simp
  -- then the two specifiers differ in the third character from the end
  rw [hjs, show ".cjs".toList = ['.'] ++ "cjs".toList from rfl, ← List.append_assoc] at hspec
  exact absurd (List.append_inj' hspec rfl).2 (by decide)

end Mapping.Dual

namespace Replacement

/-! ### Keeping the first -/

theorem mem_of_mem_keepFirst {rs : List Replacement} {r : Replacement} (h : r ∈ keepFirst rs) :
    r ∈ rs := by
  induction rs with
  | nil => exact h
  | cons s rs ih =>
      rcases List.mem_cons.1 h with rfl | h
      · exact List.mem_cons_self
      · exact List.mem_cons_of_mem _ (ih (List.mem_filter.1 h).1)

/-- Where the needle determines the replacement, keeping the first loses nothing. -/
theorem mem_keepFirst_iff {rs : List Replacement}
    (h : ∀ r ∈ rs, ∀ s ∈ rs, r.needle = s.needle → r = s) {r : Replacement} :
    r ∈ keepFirst rs ↔ r ∈ rs := by
  refine ⟨mem_of_mem_keepFirst, ?_⟩
  induction rs with
  | nil => exact id
  | cons s rs ih =>
      intro hr
      rw [keepFirst, List.mem_cons]
      by_cases hs : r.needle = s.needle
      · exact Or.inl (h r hr s List.mem_cons_self hs)
      · have hmem : r ∈ rs := by
          refine (List.mem_cons.1 hr).resolve_left ?_
          rintro rfl
          exact hs rfl
        have hrs : ∀ r ∈ rs, ∀ s ∈ rs, r.needle = s.needle → r = s := by
          intro a ha b hb
          exact h a (List.mem_cons_of_mem _ ha) b (List.mem_cons_of_mem _ hb)
        exact Or.inr (List.mem_filter.2 ⟨ih hrs hmem, by simpa using hs⟩)

/-! ### What a table holds -/

section DualTable

variable {directory : Path} {plan : List Mapping}

/-- Every mapping of the list is a dual-module mapping. -/
def AllDual (plan : List Mapping) : Prop := ∀ m ∈ plan, ∃ d base, m.Dual d base

theorem mem_flatMap_candidates_iff (hplan : AllDual plan) {r : Replacement} :
    r ∈ plan.flatMap (candidates directory) ↔
      ∃ m ∈ plan, ∃ q ∈ quotes, ∃ e ∈ specifierExtensions, r = m.replacement directory q e := by
  rw [List.mem_flatMap]
  refine exists_congr fun m => and_congr_right fun hm => ?_
  obtain ⟨d, base, hdual⟩ := hplan m hm
  exact hdual.mem_candidates_iff

/-- **In a table of dual-module mappings the needle determines the replacement.** -/
theorem eq_of_needle_eq (hplan : AllDual plan) {r s : Replacement}
    (hr : r ∈ plan.flatMap (candidates directory)) (hs : s ∈ plan.flatMap (candidates directory))
    (h : r.needle = s.needle) : r = s := by
  obtain ⟨m, hm, q, -, e, he, rfl⟩ := (mem_flatMap_candidates_iff hplan).1 hr
  obtain ⟨m', hm', q', -, e', he', rfl⟩ := (mem_flatMap_candidates_iff hplan).1 hs
  obtain ⟨d, base, hdual⟩ := hplan m hm
  obtain ⟨d', base', hdual'⟩ := hplan m' hm'
  obtain ⟨rfl, rfl, hrel⟩ := hdual.replacement_eq_of_needle_eq hdual' he he' h
  simp only [Mapping.replacement, hrel]

/-- **A table of dual-module mappings holds every entry of each of them.** -/
theorem mem_table_iff (hplan : AllDual plan) {r : Replacement} :
    r ∈ table directory plan ↔
      ∃ m ∈ plan, ∃ q ∈ quotes, ∃ e ∈ specifierExtensions, r = m.replacement directory q e := by
  rw [table_eq, mem_keepFirst_iff fun r hr s hs => eq_of_needle_eq hplan hr hs,
    mem_flatMap_candidates_iff hplan]

theorem table_eq_of_needle_eq (hplan : AllDual plan) {r s : Replacement}
    (hr : r ∈ table directory plan) (hs : s ∈ table directory plan) (h : r.needle = s.needle) :
    r = s := by
  rw [table_eq] at hr hs
  exact eq_of_needle_eq hplan (mem_of_mem_keepFirst hr) (mem_of_mem_keepFirst hs) h

/-- Looking a needle up in the table. -/
theorem find?_needle_eq_some_iff (hplan : AllDual plan) {r : Replacement} {needle : Text} :
    (table directory plan).find? (·.needle = needle) = some r ↔
      r ∈ table directory plan ∧ r.needle = needle := by
  constructor
  · intro h
    exact ⟨List.mem_of_find?_eq_some h, by simpa using List.find?_some h⟩
  · rintro ⟨hr, rfl⟩
    obtain ⟨s, hs⟩ := Option.isSome_iff_exists.1
      (List.find?_isSome (p := (fun s : Replacement => decide (s.needle = r.needle))).2
        ⟨r, hr, by simp⟩)
    have hneedle : s.needle = r.needle := by simpa using List.find?_some hs
    rw [hs, table_eq_of_needle_eq hplan (List.mem_of_find?_eq_some hs) hr hneedle]

end DualTable

end Replacement

/-! ### Clean replacements -/

/-- Text without quotes. -/
def QuoteFree (text : Text) : Prop := ∀ c ∈ text, c ∉ quotes

instance (text : Text) : Decidable (QuoteFree text) :=
  List.decidableBAll _ text

theorem QuoteFree.of_cons {c : Char} {text : Text} (h : QuoteFree (c :: text)) :
    QuoteFree text := by
  intro b hb
  exact h b (List.mem_cons_of_mem _ hb)

/-- Two texts up to their first quotes. -/
theorem eq_of_prefix_of_quoteFree {x y t : Text} {q : Char} (hx : QuoteFree x) (hy : QuoteFree y)
    (hq : q ∈ quotes) (h : x ++ [q] <+: y ++ q :: t) : x = y := by
  induction x generalizing y with
  | nil =>
      cases y with
      | nil => rfl
      | cons b y =>
          have hb : q = b := by simpa using h
          exact absurd (hb ▸ hq) (hy b List.mem_cons_self)
  | cons a x ih =>
      cases y with
      | nil =>
          have ha : a = q := (List.cons_prefix_cons.1 h).1
          exact absurd (ha ▸ hq) (hx a List.mem_cons_self)
      | cons b y =>
          obtain ⟨hab, h⟩ := List.cons_prefix_cons.1 h
          rw [hab, ih hx.of_cons hy.of_cons h]

namespace Replacement

@[simp] theorem getLast?_quoted (q : Char) (text : Text) : (quoted q text).getLast? = some q :=
  List.getLast?_concat

/-- What is quoted keeps to one line, unless a line feed is put into it. -/
theorem withinLine_quoted {q : Char} (hq : q ∈ quotes) {x y : Text} (hxy : '\n' ∉ x → '\n' ∉ y) :
    WithinLine ⟨quoted q x, quoted q y⟩ := by
  have hfeed : '\n' ≠ q := by
    rintro rfl
    exact absurd hq (by decide)
  refine ⟨?_, List.cons_ne_nil _ _, ?_⟩
  · rw [getLast?_quoted]
    exact fun h => hfeed (Option.some.inj h).symm
  · simp only [quoted, List.cons_append, List.mem_cons, List.mem_append, List.not_mem_nil, or_false,
      not_or]
    rintro ⟨-, hx, -⟩
    exact ⟨hfeed, hxy hx, hfeed⟩

/-- One quoted specifier in place of another: in the same quotes, with no quotes inside, and
without a line feed that was not there before. -/
def Clean (r : Replacement) : Prop :=
  ∃ q ∈ quotes, ∃ x y, r = ⟨quoted q x, quoted q y⟩ ∧ QuoteFree x ∧ QuoteFree y ∧
    ('\n' ∉ x → '\n' ∉ y)

theorem Clean.withinLine {r : Replacement} (h : r.Clean) : r.WithinLine := by
  obtain ⟨q, hq, x, y, rfl, -, -, hxy⟩ := h
  exact withinLine_quoted hq hxy

theorem Clean.head?_needle {r : Replacement} (h : r.Clean) :
    ∃ q ∈ quotes, r.needle.head? = some q := by
  obtain ⟨q, hq, _, _, rfl, -⟩ := h
  exact ⟨q, hq, rfl⟩

/-- The needle is the first quoted text behind a quote. -/
theorem Clean.begins_iff {r : Replacement} (h : r.Clean) {c : Char} {cs : Text} :
    r.begins (c :: cs) = true ↔
      ∃ x, QuoteFree x ∧ c ∈ quotes ∧ r.needle = quoted c x ∧ x ++ [c] <+: cs := by
  obtain ⟨q, hq, x, y, rfl, hx, -, -⟩ := h
  rw [Replacement.begins_iff]
  constructor
  · rintro ⟨-, hp⟩
    obtain ⟨rfl, hrest⟩ := List.cons_prefix_cons.1 hp
    exact ⟨x, hx, hq, rfl, hrest⟩
  · rintro ⟨x', -, -, hneedle, hp⟩
    obtain ⟨rfl, rfl⟩ := quoted_injective hneedle
    exact ⟨by simp [quoted], List.cons_prefix_cons.2 ⟨rfl, hp⟩⟩

/-- At most one clean needle begins at a place. -/
theorem Clean.needle_eq_of_begins {r s : Replacement} (hr : r.Clean) (hs : s.Clean) {text : Text}
    (hrt : r.begins text = true) (hst : s.begins text = true) : r.needle = s.needle := by
  cases text with
  | nil =>
      rw [Replacement.begins_iff, List.prefix_nil] at hrt
      exact absurd hrt.2 hrt.1
  | cons c cs =>
      obtain ⟨x, hx, hc, hrx, hpx⟩ := hr.begins_iff.1 hrt
      obtain ⟨y, hy, -, hsy, t, hpy⟩ := hs.begins_iff.1 hst
      rw [← hpy, List.append_assoc, List.singleton_append] at hpx
      rw [hrx, hsy, eq_of_prefix_of_quoteFree hx hy hc hpx]

@[simp] theorem tail_dropLast_quoted (q : Char) (text : Text) :
    (quoted q text).tail.dropLast = text := by
  simp [quoted]

/-- An entry whose specifier has no quotes is clean. -/
theorem clean_replacement {directory : Path} {m : Mapping} {q : Char} (hq : q ∈ quotes) {e : Text}
    (hx : QuoteFree (Specifier.relative directory m.oldStem ++ e)) :
    (m.replacement directory q e).Clean := by
  refine ⟨q, hq, _, _, rfl, hx, ?_, ?_⟩
  · intro c hc
    rcases List.mem_append.1 hc with hc | hc
    · exact hx c (List.mem_append_left _ hc)
    · have hcjs : QuoteFree ".cjs".toList := by decide
      exact hcjs c hc
  · intro hlf hmem
    rcases List.mem_append.1 hmem with hmem | hmem
    · exact hlf (List.mem_append_left _ hmem)
    · exact absurd hmem (by decide)

end Replacement

theorem RenamePlan.allDual (files : List Path) :
    Replacement.AllDual (RenamePlan.of files RenameRule.dualModule) :=
  fun _ hm => Mapping.exists_dual_of_mem hm

end DualModule

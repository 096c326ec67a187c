import DualModule.Proofs.Path
import DualModule.Proofs.Utf8
import DualModule.RenamePlan
/-!
# The mappings of a plan

A plan holds what the first applicable rule makes of each file.  This module says what that is in
terms of components: `Path.EndsIn` splits a path into the components before its last name and the
text of that name, and a rename exchanges the text and keeps the rest.

**The first rule decides.**  A rule applies to a file if the text of its name ends as the rule asks
for (`RenameRule.Fits`), and what becomes of a file is what the first such rule makes of it
(`Mapping.ofFile?_eq_some_iff`); a file to which none applies is passed over, and so is one whose
name is not UTF-8.

For the dual-module rules both stems of a mapping are the same place, one step below the directory
of the file (`Mapping.Dual`), whichever family the file belongs to.  That is why an importer needs
only one new specifier for a module and its declarations.

## Main Definitions

* `Path.EndsIn`
* `RenameRule.Fits`: a rule applies to the name of a file
* `Mapping.ByFirstRule`: what the first such rule makes of a file
* `Mapping.Dual`
-/

namespace DualModule

/-! ### Names as text -/

theorem dropSuffix?_eq_some_iff {suffix text base : Text} :
    dropSuffix? suffix text = some base ↔ text = base ++ suffix := by
  rw [dropSuffix?]
  constructor
  · intro h
    split at h
    · rename_i hs
      obtain ⟨front, rfl⟩ := List.isSuffixOf_iff_suffix.1 hs
      simp only [List.length_append, Nat.add_sub_cancel, List.take_left, Option.some.injEq] at h
      rw [h]
    · cases h
  · rintro rfl
    rw [if_pos (List.isSuffixOf_iff_suffix.2 (List.suffix_append _ _))]
    simp

namespace FileName

theorem text?_eq_some_iff {n : FileName} {text : Text} :
    n.text? = some text ↔ n.bytes = Utf8.encode text := Utf8.decode?_eq_some_iff

theorem eq_of_text? {m n : FileName} {text : Text} (hm : m.text? = some text)
    (hn : n.text? = some text) : m = n :=
  FileName.ext ((text?_eq_some_iff.1 hm).trans (text?_eq_some_iff.1 hn).symm)

theorem slash_notMem_text {n : FileName} {text : Text} (h : n.text? = some text) :
    '/' ∉ text := by
  intro hs
  refine n.proper.2.1 ?_
  rw [text?_eq_some_iff.1 h]
  exact (Utf8.mem_encode_iff (b := slash) (by decide)).2 hs

/-- The text of a name is the text of a name if it is longer than `..` and has no separator. -/
theorem proper_encode {text : Text} (hs : '/' ∉ text) (hl : 2 < text.length) :
    Proper (Utf8.encode text) := by
  refine ⟨?_, ?_, ?_, ?_⟩
  · intro h
    rw [Utf8.encode_eq_nil_iff.1 h] at hl
    simp at hl
  · intro h
    exact hs ((Utf8.mem_encode_iff (b := slash) (by decide)).1 h)
  · intro h
    have : text = ['.'] := Utf8.encode_injective (h.trans (by decide))
    rw [this] at hl
    simp at hl
  · intro h
    have : text = ['.', '.'] := Utf8.encode_injective (h.trans (by decide))
    rw [this] at hl
    simp at hl

end FileName

theorem Component.display_of_text? {n : FileName} {text : Text} (h : n.text? = some text) :
    (Component.name n).display = text := by
  rw [display, bytes, FileName.text?_eq_some_iff.1 h, Utf8.lossy_encode]

/-! ### Paths that end in a name -/

namespace Path

/-- The path has the components `d` and then a name with the text `text`. -/
def EndsIn (p : Path) (d : List Component) (text : Text) : Prop :=
  ∃ n : FileName, n.text? = some text ∧ p.components = d ++ [.name n]

theorem endsIn_of_fileName? {p : Path} {n : FileName} {text : Text} (hn : p.fileName? = some n)
    (ht : n.text? = some text) : p.EndsIn p.components.dropLast text := by
  refine ⟨n, ht, ?_⟩
  obtain ⟨front, hfront⟩ := List.getLast?_eq_some_iff.1 (fileName?_eq_some_iff.1 hn)
  rw [hfront, List.dropLast_concat]

variable {p : Path} {d : List Component} {text : Text}

theorem EndsIn.fileName? (h : p.EndsIn d text) :
    ∃ n, p.fileName? = some n ∧ n.text? = some text := by
  obtain ⟨n, ht, hc⟩ := h
  exact ⟨n, fileName?_eq_some_iff.2 (by simp [hc]), ht⟩

theorem EndsIn.dropLast (h : p.EndsIn d text) : p.components.dropLast = d := by
  obtain ⟨n, -, hc⟩ := h
  simp [hc]

/-- Only the components count. -/
theorem EndsIn.of_same {q : Path} (h : p.EndsIn d text) (hsame : p.Same q) : q.EndsIn d text := by
  obtain ⟨n, ht, hc⟩ := h
  exact ⟨n, ht, hsame.symm.trans hc⟩

theorem EndsIn.text_unique {d' : List Component} {text' : Text} (h : p.EndsIn d text)
    (h' : p.EndsIn d' text') : text = text' := by
  obtain ⟨n, hn, ht⟩ := h.fileName?
  obtain ⟨n', hn', ht'⟩ := h'.fileName?
  obtain rfl := Option.some.inj (hn.symm.trans hn')
  exact Option.some.inj (ht.symm.trans ht')

theorem EndsIn.components_eq {q : Path} (hp : p.EndsIn d text) (hq : q.EndsIn d text) :
    p.components = q.components := by
  obtain ⟨n, hn, hp⟩ := hp
  obtain ⟨m, hm, hq⟩ := hq
  rw [hp, hq, FileName.eq_of_text? hn hm]

/-- Another file name takes the place of the old one. -/
theorem EndsIn.withFileName (h : p.EndsIn d text) {new : Text}
    (hnew : FileName.Proper (Utf8.encode new)) :
    (p.withFileName (Utf8.encode new)).EndsIn d new := by
  obtain ⟨n, hn, -⟩ := h.fileName?
  refine ⟨⟨_, hnew⟩, FileName.text?_eq_some_iff.2 rfl, ?_⟩
  rw [← h.dropLast]
  exact components_withFileName hn ⟨_, hnew⟩

/-- Taking an extension off a file name. -/
theorem EndsIn.dropNameSuffix {extension : Text} (h : p.EndsIn d (text ++ extension))
    (htext : FileName.Proper (Utf8.encode text)) :
    (p.dropNameSuffix extension).EndsIn d text := by
  obtain ⟨n, hn, ht⟩ := h.fileName?
  have hs : (p.fileName?.bind FileName.text?).bind (dropSuffix? extension) = some text := by
    rw [hn, Option.bind_some, ht, Option.bind_some, dropSuffix?_eq_some_iff]
  rw [Path.dropNameSuffix, hs]
  exact h.withFileName htext

end Path

/-! ### What a rule makes of a file -/

namespace RenameRule

theorem renamed?_eq_some_iff {rule : RenameRule} {name new : Text} :
    rule.renamed? name = some new ↔
      ∃ base, name = base ++ rule.matchSuffix ∧ new = base ++ rule.replacementSuffix := by
  rw [renamed?, Option.map_eq_some_iff]
  constructor
  · rintro ⟨base, hb, rfl⟩
    exact ⟨base, dropSuffix?_eq_some_iff.1 hb, rfl⟩
  · rintro ⟨base, hb, rfl⟩
    exact ⟨base, dropSuffix?_eq_some_iff.2 hb, rfl⟩

end RenameRule

section OneFile

variable {rules : List RenameRule} {rule : RenameRule} {file : Path} {m : Mapping}

/-- The name of the file is UTF-8 and ends as the rule asks for. -/
def RenameRule.Fits (rule : RenameRule) (file : Path) : Prop :=
  ∃ d base, file.EndsIn d (base ++ rule.matchSuffix)

namespace Mapping

/-- The mapping exchanges the end of the file's name as the first rule that fits says. -/
structure ByFirstRule (rules : List RenameRule) (m : Mapping) : Prop where
  first : ∃ before after, rules = before ++ m.rule :: after ∧ ∀ rule ∈ before, ¬ rule.Fits m.old
  renamed : ∃ d base, m.old.EndsIn d (base ++ m.rule.matchSuffix) ∧
    m.new = m.old.withFileName (Utf8.encode (base ++ m.rule.replacementSuffix))

theorem ofRule?_eq_some_iff {name : Text} :
    ofRule? file name rule = some m ↔ ∃ base, name = base ++ rule.matchSuffix ∧
      m = ⟨file, file.withFileName (Utf8.encode (base ++ rule.replacementSuffix)), rule⟩ := by
  rw [ofRule?, Option.map_eq_some_iff]
  constructor
  · rintro ⟨new, hnew, rfl⟩
    obtain ⟨base, hname, rfl⟩ := RenameRule.renamed?_eq_some_iff.1 hnew
    exact ⟨base, hname, rfl⟩
  · rintro ⟨base, hname, rfl⟩
    exact ⟨_, RenameRule.renamed?_eq_some_iff.2 ⟨base, hname, rfl⟩, rfl⟩

theorem ofRule?_eq_none_iff {d : List Component} {name : Text} (h : file.EndsIn d name) :
    ofRule? file name rule = none ↔ ¬ rule.Fits file := by
  rw [Option.eq_none_iff_forall_ne_some]
  constructor
  · rintro hnone ⟨d', base, hbase⟩
    exact hnone _ (ofRule?_eq_some_iff.2 ⟨base, h.text_unique hbase, rfl⟩)
  · rintro hfits m hm
    obtain ⟨base, rfl, -⟩ := ofRule?_eq_some_iff.1 hm
    exact hfits ⟨d, base, h⟩

/-- **What becomes of a file** is what the first rule that fits makes of it. -/
theorem ofFile?_eq_some_iff : ofFile? rules file = some m ↔ m.old = file ∧ m.ByFirstRule rules := by
  constructor
  · intro h
    obtain ⟨name, hname, hrule⟩ := Option.bind_eq_some_iff.1 h
    obtain ⟨n, hn, ht⟩ := Option.bind_eq_some_iff.1 hname
    have hends := Path.endsIn_of_fileName? hn ht
    obtain ⟨before, rule, after, rfl, hrule, hbefore⟩ := List.findSome?_eq_some_iff.1 hrule
    obtain ⟨base, rfl, rfl⟩ := ofRule?_eq_some_iff.1 hrule
    exact ⟨rfl, ⟨before, after, rfl, fun r hr => (ofRule?_eq_none_iff hends).1 (hbefore r hr)⟩,
      _, base, hends, rfl⟩
  · rintro ⟨rfl, ⟨before, after, hrules, hbefore⟩, d, base, hends, hnew⟩
    obtain ⟨n, hn, ht⟩ := hends.fileName?
    rw [ofFile?, hn, Option.bind_some, ht, Option.bind_some]
    refine List.findSome?_eq_some_iff.2 ⟨before, m.rule, after, hrules, ?_, fun r hr => ?_⟩
    · exact ofRule?_eq_some_iff.2 ⟨base, rfl, by rw [← hnew]⟩
    · exact (ofRule?_eq_none_iff hends).2 (hbefore r hr)

/-- A file is passed over exactly if no rule fits. -/
theorem ofFile?_isSome_iff : (ofFile? rules file).isSome ↔ ∃ rule ∈ rules, rule.Fits file := by
  constructor
  · intro h
    obtain ⟨m, hm⟩ := Option.isSome_iff_exists.1 h
    obtain ⟨rfl, ⟨before, after, rfl, -⟩, d, base, hends, -⟩ := ofFile?_eq_some_iff.1 hm
    exact ⟨m.rule, by simp, d, base, hends⟩
  · rintro ⟨rule, hrule, d, base, hends⟩
    obtain ⟨n, hn, ht⟩ := hends.fileName?
    rw [ofFile?, hn, Option.bind_some, ht, Option.bind_some, List.findSome?_isSome_iff]
    exact ⟨rule, hrule, Option.isSome_iff_exists.2 ⟨_, ofRule?_eq_some_iff.2 ⟨base, rfl, rfl⟩⟩⟩

theorem ofFile?_eq_none_iff : ofFile? rules file = none ↔ ∀ rule ∈ rules, ¬ rule.Fits file := by
  rw [← Option.not_isSome_iff_eq_none, ofFile?_isSome_iff]
  simp

theorem old_of_ofFile? (h : ofFile? rules file = some m) : m.old = file :=
  (ofFile?_eq_some_iff.1 h).1

/-- **A mapping of a file** comes from a rule that fits the text of its name. -/
theorem exists_rule_of_ofFile? (h : ofFile? rules file = some m) :
    ∃ rule ∈ rules, ∃ n base, file.fileName? = some n ∧
      n.text? = some (base ++ rule.matchSuffix) ∧
      m = ⟨file, file.withFileName (Utf8.encode (base ++ rule.replacementSuffix)), rule⟩ := by
  obtain ⟨rfl, ⟨before, after, hrules, -⟩, d, base, hends, hnew⟩ := ofFile?_eq_some_iff.1 h
  obtain ⟨n, hn, ht⟩ := hends.fileName?
  exact ⟨m.rule, by simp [hrules], n, base, hn, ht, by rw [← hnew]⟩

end Mapping

end OneFile

theorem RenamePlan.mem_of_iff {files : List Path} {rules : List RenameRule} {m : Mapping} :
    m ∈ RenamePlan.of files rules ↔ ∃ f ∈ files, Mapping.ofFile? rules f = some m := by
  simp [RenamePlan.of]

/-! ### Dual-module mappings -/

namespace RenameRule

variable {rule : RenameRule}

theorem mem_dualModule : rule ∈ dualModule ↔ rule = implementation ∨ rule = declaration := by
  simp [dualModule]

theorem matchSuffix_of_mem (h : rule ∈ dualModule) :
    rule.matchSuffix = "_pb".toList ++ rule.oldExtension := by
  rcases mem_dualModule.1 h with rfl | rfl <;> decide

theorem replacementSuffix_of_mem (h : rule ∈ dualModule) :
    rule.replacementSuffix = "_pb".toList ++ rule.newExtension := by
  rcases mem_dualModule.1 h with rfl | rfl <;> decide

theorem oldSpecifierExtension_of_mem (h : rule ∈ dualModule) :
    rule.oldSpecifierExtension = ".js".toList := by
  rcases mem_dualModule.1 h with rfl | rfl <;> rfl

theorem newSpecifierExtension_of_mem (h : rule ∈ dualModule) :
    rule.newSpecifierExtension = ".cjs".toList := by
  rcases mem_dualModule.1 h with rfl | rfl <;> rfl

theorem slash_notMem_newExtension (h : rule ∈ dualModule) : '/' ∉ rule.newExtension := by
  rcases mem_dualModule.1 h with rfl | rfl <;> decide

/-- What a rule makes of a name is a name. -/
theorem proper_renamed (h : rule ∈ dualModule) {name new : Text} (hname : '/' ∉ name)
    (hnew : rule.renamed? name = some new) : FileName.Proper (Utf8.encode new) := by
  obtain ⟨base, rfl, rfl⟩ := renamed?_eq_some_iff.1 hnew
  rw [replacementSuffix_of_mem h]
  refine FileName.proper_encode ?_ (by simp; omega)
  simp only [List.mem_append, not_or] at hname ⊢
  exact ⟨hname.1, by decide, slash_notMem_newExtension h⟩

end RenameRule

/-- **A dual-module mapping**: in one directory, old and new name share a base, and so do the two
stems, which are the same. -/
structure Mapping.Dual (m : Mapping) (d : List Component) (base : Text) : Prop where
  rule : m.rule ∈ RenameRule.dualModule
  old : m.old.EndsIn d (base ++ m.rule.matchSuffix)
  new : m.new.EndsIn d (base ++ m.rule.replacementSuffix)
  oldStem : m.oldStem.EndsIn d (base ++ "_pb".toList)
  newStem : m.newStem.EndsIn d (base ++ "_pb".toList)

theorem Mapping.dual_of_ofFile? {file : Path} {m : Mapping}
    (h : ofFile? RenameRule.dualModule file = some m) :
    ∃ base, m.Dual file.components.dropLast base := by
  obtain ⟨rule, hrule, n, base, hn, ht, rfl⟩ := exists_rule_of_ofFile? h
  have hmatch : base ++ rule.matchSuffix = base ++ "_pb".toList ++ rule.oldExtension := by
    rw [RenameRule.matchSuffix_of_mem hrule, List.append_assoc]
  have hreplace : base ++ rule.replacementSuffix = base ++ "_pb".toList ++ rule.newExtension := by
    rw [RenameRule.replacementSuffix_of_mem hrule, List.append_assoc]
  have hbase : '/' ∉ base ++ "_pb".toList := by
    intro hs
    exact FileName.slash_notMem_text ht (hmatch ▸ List.mem_append_left _ hs)
  have hstem : FileName.Proper (Utf8.encode (base ++ "_pb".toList)) :=
    FileName.proper_encode hbase (by simp)
  have hproper : FileName.Proper (Utf8.encode (base ++ rule.replacementSuffix)) :=
    RenameRule.proper_renamed hrule (FileName.slash_notMem_text ht)
      (RenameRule.renamed?_eq_some_iff.2 ⟨base, rfl, rfl⟩)
  -- the extension comes off the old name and the new one alike, and leaves the same stem
  have hold := Path.endsIn_of_fileName? hn ht
  have hnew := hold.withFileName hproper
  exact ⟨base, hrule, hold, hnew, (hmatch ▸ hold).dropNameSuffix hstem,
    Path.EndsIn.dropNameSuffix (hreplace ▸ hnew) hstem⟩

/-- **Every mapping of a dual-module plan is a dual-module mapping.** -/
theorem Mapping.exists_dual_of_mem {files : List Path} {m : Mapping}
    (hm : m ∈ RenamePlan.of files RenameRule.dualModule) : ∃ d base, m.Dual d base := by
  obtain ⟨f, -, h⟩ := RenamePlan.mem_of_iff.1 hm
  obtain ⟨base, hdual⟩ := dual_of_ofFile? h
  exact ⟨_, base, hdual⟩

namespace Mapping.Dual

variable {m : Mapping} {d : List Component} {base : Text}

/-- The two stems of a dual-module mapping are the same place. -/
theorem newStem_components (h : m.Dual d base) : m.newStem.components = m.oldStem.components :=
  h.newStem.components_eq h.oldStem

end Mapping.Dual

end DualModule

import DualModule.Proofs.ImportTargets
import DualModule.Proofs.Resolution
/-!
# What an edit may change

An edit changes quoted text that leads to a renamed module, and nothing else
(`Replacement.substitutions_lead_to_plan`).  Scanning accounts for every character of the content:
it was kept, or it belongs to a needle that was taken.  A needle is an entry of the table, so a
mapping of the plan comes with it, and what stands in its quotes was written as the specifier of
that mapping's stem.  A specifier leads to what it was written for; so what was taken leads to the
stem of a file of the plan, read from the directory of the importer.

**The spelling.**  Which of the two spellings of a stem was taken, with or without `.js`, can be
told from the text alone: no stem's specifier ends in `.js` itself (`Dual.bareSpecifier_append`).
-/

namespace DualModule

/-- What an importer names by this text: the text without `.js`, if it ends so. -/
def bareSpecifier (text : Text) : Text := (dropSuffix? ".js".toList text).getD text

/-- The file at `p` is a module or its declarations, and would be at `l` without the extension. -/
def Path.HasStem (p : Path) (l : Location) : Prop :=
  ∃ (d : Location) (name stem : FileName), p.location = name :: d ∧ l = stem :: d ∧
    (name.bytes = stem.bytes ++ Utf8.encode ".js".toList ∨
      name.bytes = stem.bytes ++ Utf8.encode ".d.ts".toList)

namespace Path.EndsIn

/-- Two names in one directory. -/
theorem exists_location {p p' : Path} {d : List Component} {text text' : Text}
    (h : p.EndsIn d text) (h' : p'.EndsIn d text') :
    ∃ (l : Location) (n n' : FileName), p.location = n :: l ∧ p'.location = n' :: l ∧
      n.text? = some text ∧ n'.text? = some text' := by
  obtain ⟨n, hn, hc⟩ := h
  obtain ⟨n', hn', hc'⟩ := h'
  refine ⟨p.location.tail, n, n', ?_, ?_, hn, hn'⟩
  · simp [location, hc]
  · simp [location, hc, hc']

end Path.EndsIn

namespace Mapping.Dual

variable {directory : Path} {m : Mapping} {d : List Component} {base : Text}

/-- The stem of a dual-module mapping is that of its file. -/
theorem hasStem (h : m.Dual d base) : m.old.HasStem m.oldStem.location := by
  obtain ⟨l, name, stem, hold, hstem, hname, htext⟩ := h.old.exists_location h.oldStem
  refine ⟨l, name, stem, hold, hstem, ?_⟩
  rw [FileName.text?_eq_some_iff.1 hname, FileName.text?_eq_some_iff.1 htext, ← Utf8.encode_append,
    ← Utf8.encode_append, RenameRule.matchSuffix_of_mem h.rule, ← List.append_assoc]
  rcases RenameRule.mem_dualModule.1 h.rule with hrule | hrule
  · rw [hrule]
    exact Or.inl rfl
  · rw [hrule]
    exact Or.inr rfl

/-- **Both spellings of a stem are read as the stem.** -/
theorem bareSpecifier_append (h : m.Dual d base) (directory : Path) {e : Text}
    (he : e ∈ specifierExtensions) : bareSpecifier (Specifier.relative directory m.oldStem ++ e) =
      Specifier.relative directory m.oldStem := by
  have hlast := h.getLast?_append_extension directory he
  simp only [specifierExtensions, List.mem_cons, List.not_mem_nil, or_false] at he
  rcases he with rfl | rfl
  · rw [bareSpecifier, dropSuffix?_eq_some_iff.2 rfl, Option.getD_some]
  · rw [List.append_nil] at hlast ⊢
    have hnone : dropSuffix? ".js".toList (Specifier.relative directory m.oldStem) = none := by
      rw [Option.eq_none_iff_forall_ne_some]
      intro bare hbare
      rw [dropSuffix?_eq_some_iff.1 hbare] at hlast
      exact absurd (hlast.1 (by simp)) (by decide)
    rw [bareSpecifier, hnone, Option.getD_none]

/-- The specifier of a stem leads to the stem. -/
theorem resolve_relative_oldStem (h : m.Dual d base) (hd : directory.Plain) (hold : m.old.Plain) :
    Specifier.resolve directory.location (Specifier.relative directory m.oldStem) =
      m.oldStem.location :=
  Specifier.resolve_relative hd (h.old.plain hold h.oldStem)

end Mapping.Dual

namespace Replacement

/-- **Edits are sound.**  The content is cut into characters that are kept and quoted texts that are
replaced, and that is what the edit amounts to.  What is replaced leads from the directory to the
stem of a file of the plan, and the new text is the same with `.cjs` in the same quotes. -/
theorem substitutions_lead_to_plan {files : List Path} {directory : Path}
    (hfiles : ∀ f ∈ files, f.Plain) (hd : directory.Plain) (content : Text) :
    let plan := RenamePlan.of files RenameRule.dualModule
    let segs := scan (table directory plan) content
    segs.flatMap Segment.before = content ∧
    apply (table directory plan) content =
      ⟨segs.flatMap Segment.after, segs.countP Segment.isSubstituted⟩ ∧
    ∀ r, .substituted r ∈ segs → ∃ q ∈ quotes, ∃ text,
      r.needle = quoted q text ∧
      r.newText = quoted q (bareSpecifier text ++ ".cjs".toList) ∧
      ∃ m ∈ plan, m.old.HasStem (Specifier.resolve directory.location (bareSpecifier text)) := by
  intro plan segs
  refine ⟨flatMap_before_scan _ content, apply_eq_scan _ content, ?_⟩
  intro r hr
  have hplan : AllDual plan := RenamePlan.allDual files
  obtain ⟨m, hm, q, hq, e, he, rfl⟩ := (mem_table_iff hplan).1 (mem_table_of_mem_scan hr)
  obtain ⟨d, base, hdual⟩ := hplan m hm
  obtain ⟨f, hf, hfm⟩ := RenamePlan.mem_of_iff.1 hm
  have hold : m.old.Plain := Mapping.old_of_ofFile? hfm ▸ hfiles f hf
  have hbare := hdual.bareSpecifier_append directory he
  refine ⟨q, hq, _, rfl, ?_, m, hm, ?_⟩
  · rw [hbare]
    rfl
  · rw [hbare, hdual.resolve_relative_oldStem hd hold]
    exact hdual.hasStem

/-- A module above the directory and declarations in it are found, in either spelling; a module that
is not renamed and text without quotes are not touched. -/
theorem substitutions_in_subdirectory :
    let files := [Path.ofText "/out/a_pb.js".toList, .ofText "/out/b/c_pb.d.ts".toList]
    let directory := Path.ofText "/out/b".toList
    let content := "import '../a_pb.js'; import \"./c_pb\"; import './d_pb'; ./c_pb".toList
    let plan := RenamePlan.of files RenameRule.dualModule
    let segs := scan (table directory plan) content
    (∀ f ∈ files, f.Plain) ∧ directory.Plain ∧
    (apply (table directory plan) content).content =
      "import '../a_pb.cjs'; import \"./c_pb.cjs\"; import './d_pb'; ./c_pb".toList ∧
    (apply (table directory plan) content).count = 2 ∧
    segs.flatMap Segment.before = content ∧
    apply (table directory plan) content =
      ⟨segs.flatMap Segment.after, segs.countP Segment.isSubstituted⟩ ∧
    ∀ r, .substituted r ∈ segs → ∃ q ∈ quotes, ∃ text,
      r.needle = quoted q text ∧
      r.newText = quoted q (bareSpecifier text ++ ".cjs".toList) ∧
      ∃ m ∈ plan, m.old.HasStem (Specifier.resolve directory.location (bareSpecifier text)) :=
  ⟨by decide, by decide, by decide +kernel, by decide +kernel,
    substitutions_lead_to_plan (by decide) (by decide) _⟩

end Replacement

end DualModule

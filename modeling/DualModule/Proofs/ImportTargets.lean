import DualModule.Proofs.Table
/-!
# Where imports lead after renaming

An importer names a module by its relative specifier, with or without `.js`, in either kind of
quote.  This module says when the edit leads such an import to the module's new path
(`Mapping.Followed`): the table of the importer's directory has the specifier of the new path for
it, and every occurrence that the scan meets is replaced by that.

**The exception.**  The table is made from the specifiers of *stems*.  Putting `.js` behind the
specifier of a stem gives the specifier of the file, unless the stem is the importer's directory or
above it: then the specifier of the stem ends in a step up (`./`, `./..`), and what the table has
is `./.js` and the like, which nobody writes (`Dual.needle_ne`).  A directory that is called like a
module next to it is enough for this.  There is no other exception (`Dual.followed`).
-/

namespace DualModule

/-- A path that importers can quote: its names are text without quotes and line feeds. -/
structure Path.Quotable (p : Path) : Prop extends p.Plain where
  quoteFree : ∀ c ∈ p.components, QuoteFree c.display
  lineFree : ∀ c ∈ p.components, '\n' ∉ c.display

instance (p : Path) : Decidable p.Quotable :=
  decidable_of_iff (p.Plain ∧ (∀ c ∈ p.components, QuoteFree c.display) ∧
      ∀ c ∈ p.components, '\n' ∉ c.display)
    ⟨fun h => ⟨h.1, h.2.1, h.2.2⟩, fun h => ⟨h.1, h.2, h.3⟩⟩

/-! ### Paths in the same directory -/

namespace Path.EndsIn

variable {p p' : Path} {d : List Component} {text text' : Text}

/-- In front of the last name of a plain path there is the root, and then names that are text. -/
theorem exists_root_cons (h : p.EndsIn d text) (hp : p.Plain) :
    ∃ cs, d = .root :: cs ∧ ∀ c ∈ cs, c.IsText := by
  obtain ⟨n, -, hc⟩ := h
  have hroot := components_eq_root_cons hp.isAbsolute
  have htext := hp.isText
  rw [hc] at hroot htext
  cases d with
  | nil => cases hroot
  | cons c cs =>
      cases (List.cons.inj hroot).1
      refine ⟨cs, rfl, ?_⟩
      intro c hc
      exact htext c (List.mem_append_left _ hc)

/-- Another name in the directory of a plain path. -/
theorem plain (h : p.EndsIn d text) (hp : p.Plain) (h' : p'.EndsIn d text') : p'.Plain := by
  obtain ⟨cs, rfl, hcs⟩ := h.exists_root_cons hp
  obtain ⟨n, hn, hc⟩ := h'
  have habs : p'.components = .root :: (cs ++ [.name n]) := by simpa using hc
  refine ⟨isAbsolute_of_components habs, ?_⟩
  rw [hc]
  intro c hmem
  rcases List.mem_append.1 hmem with hmem | hmem
  · exact hcs c hmem
  · exact ⟨n, text', List.mem_singleton.1 hmem, hn⟩

/-- Another name in the directory of a path that can be quoted. -/
theorem quotable (h : p.EndsIn d text) (hp : p.Quotable) (h' : p'.EndsIn d text')
    (hquote : QuoteFree text') (hline : '\n' ∉ text') : p'.Quotable := by
  have hmem : ∀ c ∈ p'.components, c ∈ p.components ∨ c.display = text' := by
    obtain ⟨n, -, hc⟩ := h
    obtain ⟨n', hn', hc'⟩ := h'
    intro c hmem
    rw [hc'] at hmem
    rcases List.mem_append.1 hmem with hmem | hmem
    · exact Or.inl (hc ▸ List.mem_append_left _ hmem)
    · rw [List.mem_singleton.1 hmem]
      exact Or.inr (Component.display_of_text? hn')
  refine ⟨h.plain hp.toPlain h', ?_, ?_⟩
  · intro c hc
    rcases hmem c hc with hc | hc
    · exact hp.quoteFree c hc
    · exact hc ▸ hquote
  · intro c hc
    rcases hmem c hc with hc | hc
    · exact hp.lineFree c hc
    · exact hc ▸ hline

/-- The text of the last name of a path that can be quoted. -/
theorem quoteFree_text (h : p.EndsIn d text) (hp : p.Quotable) :
    QuoteFree text ∧ '\n' ∉ text := by
  obtain ⟨n, hn, hc⟩ := h
  have hmem : Component.name n ∈ p.components := hc ▸ List.mem_append_right _ (by simp)
  rw [← Component.display_of_text? hn]
  exact ⟨hp.quoteFree _ hmem, hp.lineFree _ hmem⟩

end Path.EndsIn

namespace Mapping

variable {directory : Path} {m : Mapping} {d : List Component} {base : Text}

theorem Dual.quotable_oldStem (h : m.Dual d base) (hold : m.old.Quotable) :
    m.oldStem.Quotable := by
  obtain ⟨hquote, hline⟩ := h.old.quoteFree_text hold
  rw [RenameRule.matchSuffix_of_mem h.rule, ← List.append_assoc] at hquote hline
  refine h.old.quotable hold h.oldStem ?_ ?_
  · intro c hc
    exact hquote c (List.mem_append_left _ hc)
  · intro hmem
    exact hline (List.mem_append_left _ hmem)

/-- The name of a stem is a part of its own. -/
theorem Dual.stem_text (h : m.Dual d base) :
    base ++ "_pb".toList ≠ [] ∧ '/' ∉ base ++ "_pb".toList := by
  obtain ⟨n, hn, -⟩ := h.oldStem
  exact ⟨by simp, FileName.slash_notMem_text hn⟩

/-- A specifier of a path that can be quoted has neither quotes nor line feeds. -/
theorem notMem_relative (directory : Path) {p : Path} (hp : p.Quotable) :
    QuoteFree (Specifier.relative directory p) ∧ '\n' ∉ Specifier.relative directory p := by
  constructor
  · intro c hc
    rcases Specifier.mem_relative hc with rfl | rfl | ⟨x, hx, hc⟩
    · decide
    · decide
    · exact hp.quoteFree x hx c hc
  · intro hc
    rcases Specifier.mem_relative hc with h | h | ⟨x, hx, hc⟩
    · exact absurd h (by decide)
    · exact absurd h (by decide)
    · exact hp.lineFree x hx hc

theorem Dual.clean_replacement (h : m.Dual d base) (hold : m.old.Quotable) {q : Char}
    (hq : q ∈ quotes) {e : Text} (he : e ∈ specifierExtensions) :
    (m.replacement directory q e).Clean ∧ '\n' ∉ (m.replacement directory q e).needle := by
  obtain ⟨hquote, hline⟩ := notMem_relative directory (h.quotable_oldStem hold)
  have hext : QuoteFree e ∧ '\n' ∉ e := by
    simp only [specifierExtensions, List.mem_cons, List.not_mem_nil, or_false] at he
    rcases he with rfl | rfl
    · exact ⟨by decide, by decide⟩
    · exact ⟨fun c hc => absurd hc List.not_mem_nil, List.not_mem_nil⟩
  refine ⟨Replacement.clean_replacement hq ?_, ?_⟩
  · intro c hc
    rcases List.mem_append.1 hc with hc | hc
    · exact hquote c hc
    · exact hext.1 c hc
  · have hlf : '\n' ≠ q := by
      rintro rfl
      exact absurd hq (by decide)
    simp [replacement, Replacement.quoted, hline, hext.2, hlf]

/-! ### Specifiers of a module and of its stem -/

section Implementation

variable (h : m.Dual d base) (hrule : m.rule = .implementation)
include h hrule

/-- The specifier of a module is that of its stem, spelled out, and `.js`. -/
theorem Dual.relative_old (hold : ¬ m.old.components <+: directory.components) :
    Specifier.relative directory m.old =
      Specifier.write (Specifier.parts directory.components d ++ [base ++ "_pb".toList]) ++
        ".js".toList := by
  rw [Specifier.relative_of_endsIn h.old hold, ← Specifier.write_append _ _ (by decide), hrule,
    List.append_assoc]
  rfl

theorem Dual.relative_new (hnew : ¬ m.new.components <+: directory.components) :
    Specifier.relative directory m.new =
      Specifier.write (Specifier.parts directory.components d ++ [base ++ "_pb".toList]) ++
        ".cjs".toList := by
  rw [Specifier.relative_of_endsIn h.new hnew, ← Specifier.write_append _ _ (by decide), hrule,
    List.append_assoc]
  rfl

end Implementation

end Mapping

/-! ### Occurrences that the scan meets -/

namespace Replacement

/-- **An occurrence whose opening quote was not consumed** is replaced. -/
theorem exists_substituted {table : List Replacement} (hclean : ∀ r ∈ table, r.Clean)
    (hline : ∀ r ∈ table, '\n' ∉ r.needle) {r : Replacement} (hr : r ∈ table)
    (hunique : ∀ s ∈ table, s.needle = r.needle → s = r) {front back : Text}
    (hout : ¬ Segment.Inside (scan table (front ++ (r.needle ++ back))) front.length) :
    ∃ pre post, scan table (front ++ (r.needle ++ back)) = pre ++ .substituted r :: post ∧
      pre.flatMap Segment.before = front ∧ post.flatMap Segment.before = back := by
  -- no needle has a line feed, and so lines play no role
  have hscan : Scan table (front ++ (r.needle ++ back))
      (scan table (front ++ (r.needle ++ back))) := by
    rw [scan_eq_segments fun r hr => (hclean r hr).withinLine.getLast?_needle,
      List.filter_eq_self.2 fun r hr => by simpa using hline r hr]
    exact scan_segments table _
  obtain ⟨pre, post, hsegs, hpre, hpost⟩ := (hscan.at_position rfl).resolve_left hout
  have hbegins : r.begins (r.needle ++ back) = true := by
    rw [begins_iff]
    refine ⟨?_, List.prefix_append _ _⟩
    obtain ⟨_, _, _, _, rfl, -⟩ := hclean r hr
    simp [quoted]
  obtain ⟨s, rest, post', hs, hsbegins, htext, rfl, hrest⟩ :=
    hpost.exists_take hr (hclean r hr).head?_needle hbegins
  obtain rfl : s = r :=
    hunique s hs ((hclean s hs).needle_eq_of_begins (hclean r hr) hsbegins hbegins)
  refine ⟨pre, post', hsegs, hpre, ?_⟩
  rw [hrest.before_eq, List.append_cancel_left htext]

end Replacement

namespace Mapping

/-- **Imports of the file that are spelled `spelling` are led to its new path**: the table has the
specifier of the new path for them, in either kind of quote, and in any text an occurrence whose
opening quote was not consumed by an earlier one is replaced by that. -/
structure Followed (directory : Path) (plan : List Mapping) (m : Mapping) (spelling : Text) :
    Prop where
  lookup : ∀ q ∈ quotes,
    (Replacement.table directory plan).find? (·.needle = Replacement.quoted q spelling) =
      some ⟨Replacement.quoted q spelling, Replacement.quoted q (Specifier.relative directory m.new)⟩
  replaced : ∀ q ∈ quotes, ∀ front back : Text,
    let table := Replacement.table directory plan
    let content := front ++ (Replacement.quoted q spelling ++ back)
    let new := Replacement.quoted q (Specifier.relative directory m.new)
    ¬ Segment.Inside (Replacement.scan table content) front.length →
      ∃ pre post,
        Replacement.scan table content =
          pre ++ .substituted ⟨Replacement.quoted q spelling, new⟩ :: post ∧
        pre.flatMap Segment.before = front ∧ post.flatMap Segment.before = back ∧
        (Replacement.apply table content).content =
          pre.flatMap Segment.after ++ (new ++ post.flatMap Segment.after)

variable {directory : Path} {plan : List Mapping} {m : Mapping} {d : List Component} {base : Text}

/-- Unless its stem is the directory or above it, a module's imports are followed. -/
theorem Dual.followed (h : m.Dual d base) (hrule : m.rule = .implementation)
    (hplan : Replacement.AllDual plan) (hquotable : ∀ m ∈ plan, m.old.Quotable) (hm : m ∈ plan)
    (hnew : ¬ m.new.components <+: directory.components)
    (hstem : ¬ m.oldStem.components <+: directory.components) {e : Text}
    (he : e ∈ specifierExtensions) :
    m.Followed directory plan (Specifier.relative directory m.oldStem ++ e) := by
  have hentry : ∀ q, m.replacement directory q e =
      ⟨Replacement.quoted q (Specifier.relative directory m.oldStem ++ e),
        Replacement.quoted q (Specifier.relative directory m.new)⟩ := by
    intro q
    rw [replacement, h.relative_new hrule hnew, Specifier.relative_of_endsIn h.oldStem hstem]
  have hmem : ∀ q ∈ quotes, m.replacement directory q e ∈ Replacement.table directory plan := by
    intro q hq
    exact (Replacement.mem_table_iff hplan).2 ⟨m, hm, q, hq, e, he, rfl⟩
  have hclean : ∀ r ∈ Replacement.table directory plan, r.Clean ∧ '\n' ∉ r.needle := by
    intro r hr
    obtain ⟨m', hm', q, hq, e', he', rfl⟩ := (Replacement.mem_table_iff hplan).1 hr
    obtain ⟨d', base', hdual'⟩ := hplan m' hm'
    exact hdual'.clean_replacement (hquotable m' hm') hq he'
  constructor
  · intro q hq
    rw [Replacement.find?_needle_eq_some_iff hplan]
    exact ⟨hentry q ▸ hmem q hq, rfl⟩
  · intro q hq front back table content new hout
    obtain ⟨pre, post, hsegs, hpre, hpost⟩ :=
      Replacement.exists_substituted (fun r hr => (hclean r hr).1) (fun r hr => (hclean r hr).2)
        (hentry q ▸ hmem q hq)
        (fun s hs => Replacement.table_eq_of_needle_eq hplan hs (hentry q ▸ hmem q hq)) hout
    refine ⟨pre, post, hsegs, hpre, hpost, ?_⟩
    rw [Replacement.apply_eq_scan, Edited.ofSegments, hsegs]
    simp [Segment.after, new]

/-- If its stem is the directory or above it, the table has nothing for a module's imports. -/
theorem Dual.needle_ne (h : m.Dual d base) (hrule : m.rule = .implementation)
    (hd : directory.isAbsolute = true) (hplan : Replacement.AllDual plan)
    (hplain : ∀ m ∈ plan, m.old.Plain) (hm : m ∈ plan)
    (hold : ¬ m.old.components <+: directory.components)
    (hstem : m.oldStem.components <+: directory.components) (q : Char) :
    ∀ r ∈ Replacement.table directory plan,
      r.needle ≠ Replacement.quoted q (Specifier.relative directory m.old) := by
  intro r hr heq
  obtain ⟨m', hm', q', -, e', he', rfl⟩ := (Replacement.mem_table_iff hplan).1 hr
  obtain ⟨d', base', h'⟩ := hplan m' hm'
  obtain ⟨-, hspec⟩ := Replacement.quoted_injective heq
  rw [h.relative_old hrule hold] at hspec
  have hjs : e' = ".js".toList := by
    rw [← h'.getLast?_append_extension directory he', hspec]
    simp
  rw [hjs, List.append_cancel_right_eq] at hspec
  -- the stem of the other mapping is neither the directory nor above it, as it is written with a name
  have hstem' : ¬ m'.oldStem.components <+: directory.components := by
    intro hp
    obtain ⟨k, hk⟩ := Specifier.relative_of_prefix hp
    have hlast := congrArg List.getLast? (hk ▸ hspec)
    rw [Specifier.getLast?_write_replicate, Specifier.getLast?_write_concat _ (by simp)] at hlast
    split at hlast <;> simp at hlast
  rw [Specifier.relative_of_endsIn h'.oldStem hstem'] at hspec
  obtain ⟨cs, rfl, hcs⟩ := h.old.exists_root_cons (hplain m hm)
  obtain ⟨cs', rfl, hcs'⟩ := h'.old.exists_root_cons (hplain m' hm')
  obtain ⟨rfl, hbase⟩ := Specifier.write_parts_concat_injective hd hcs' hcs
    h'.stem_text h.stem_text hspec
  -- so it is this stem, which is the directory or above it
  refine hstem' ?_
  rw [h'.oldStem.components_eq (hbase ▸ h.oldStem)]
  exact hstem

/-- **Exactly when imports are followed.**  A module's imports are led to its new path, with and
without the extension, unless its stem is the importer's directory or above it. -/
theorem imports_followed_iff {files : List Path} {directory : Path} {m : Mapping}
    (hfiles : ∀ f ∈ files, f.Quotable) (hd : directory.isAbsolute = true)
    (hm : m ∈ RenamePlan.of files RenameRule.dualModule) (hrule : m.rule = .implementation)
    (hold : ¬ m.old.components <+: directory.components)
    (hnew : ¬ m.new.components <+: directory.components) :
    ∃ bare, Specifier.relative directory m.old = bare ++ ".js".toList ∧
      ((∀ spelling ∈ [Specifier.relative directory m.old, bare],
          m.Followed directory (RenamePlan.of files RenameRule.dualModule) spelling) ↔
        ¬ m.oldStem.components <+: directory.components) := by
  have hplan := RenamePlan.allDual files
  have hquotable : ∀ m ∈ RenamePlan.of files RenameRule.dualModule, m.old.Quotable := by
    intro m hm
    obtain ⟨f, hf, hfm⟩ := RenamePlan.mem_of_iff.1 hm
    exact old_of_ofFile? hfm ▸ hfiles f hf
  obtain ⟨d, base, h⟩ := hplan m hm
  have hplain : ∀ m ∈ RenamePlan.of files RenameRule.dualModule, m.old.Plain := by
    intro m hm
    exact (hquotable m hm).toPlain
  refine ⟨_, h.relative_old hrule hold, ?_, ?_⟩
  · intro hfollowed hstem
    have hlookup := (hfollowed _ List.mem_cons_self).lookup '"' (by decide)
    obtain ⟨hr, hneedle⟩ := (Replacement.find?_needle_eq_some_iff hplan).1 hlookup
    exact h.needle_ne hrule hd hplan hplain hm hold hstem '"' _ hr hneedle
  · intro hstem spelling hspelling
    have hall : ∀ e ∈ specifierExtensions,
        m.Followed directory (RenamePlan.of files RenameRule.dualModule)
          (Specifier.relative directory m.oldStem ++ e) := by
      intro e he
      exact h.followed hrule hplan hquotable hm hnew hstem he
    rw [← Specifier.relative_of_endsIn h.oldStem hstem] at hspelling
    simp only [List.mem_cons, List.not_mem_nil, or_false] at hspelling
    rcases hspelling with rfl | rfl
    · rw [h.relative_old hrule hold, ← Specifier.relative_of_endsIn h.oldStem hstem]
      exact hall _ (by decide)
    · simpa using hall [] (by decide)

/-- A directory next to the module: there its imports are followed. -/
theorem imports_followed_next_door :
    let file := Path.ofText "/out/a_pb.js".toList
    let directory := Path.ofText "/out/b".toList
    let m : Mapping := ⟨file, .ofText "/out/a_pb.cjs".toList, .implementation⟩
    (∀ f ∈ [file], f.Quotable) ∧ directory.isAbsolute = true ∧
      m ∈ RenamePlan.of [file] RenameRule.dualModule ∧
      ¬ m.old.components <+: directory.components ∧ ¬ m.new.components <+: directory.components ∧
      ∃ bare, Specifier.relative directory m.old = bare ++ ".js".toList ∧
        ((∀ spelling ∈ [Specifier.relative directory m.old, bare],
            m.Followed directory (RenamePlan.of [file] RenameRule.dualModule) spelling) ↔
          ¬ m.oldStem.components <+: directory.components) :=
  ⟨by decide, by decide, by decide, by decide, by decide,
    imports_followed_iff (by decide) (by decide) (by decide) rfl (by decide) (by decide)⟩

/-- **A directory that is called like the module next to it**: the stem is the directory itself, and
the import of the module keeps its old path. -/
theorem imports_not_followed_from_namesake :
    let file := Path.ofText "/out/a_pb.js".toList
    let directory := Path.ofText "/out/a_pb".toList
    let plan := RenamePlan.of [file] RenameRule.dualModule
    let m : Mapping := ⟨file, .ofText "/out/a_pb.cjs".toList, .implementation⟩
    let content := "import x from '../a_pb.js';\n".toList
    file.Quotable ∧ directory.isAbsolute = true ∧ plan = [m] ∧
      ¬ m.old.components <+: directory.components ∧ ¬ m.new.components <+: directory.components ∧
      Specifier.relative directory m.old = "../a_pb.js".toList ∧
      ¬ m.Followed directory plan "../a_pb.js".toList ∧
      Replacement.apply (Replacement.table directory plan) content = ⟨content, 0⟩ := by
  refine ⟨by decide, by decide, by decide, by decide, by decide, by decide, fun h => ?_, by decide⟩
  have hnone : (Replacement.table (Path.ofText "/out/a_pb".toList)
      (RenamePlan.of [Path.ofText "/out/a_pb.js".toList] RenameRule.dualModule)).find?
        (·.needle = Replacement.quoted '"' "../a_pb.js".toList) = none := by decide
  rw [h.lookup '"' (by decide)] at hnone
  cases hnone

end Mapping

end DualModule

import DualModule.Proofs.Table
/-!
# Editing a second time

Editing an edited text with the same table changes nothing, except in one situation.  A scan goes
on *behind* a needle that it has taken, and with the needle it has consumed the closing quote.  If
that quote is also the opening quote of a needle, this second needle is not seen, and the next run
finds it (`Replacement.Overlapping`).  The main statement is that there is no other way for a
second run to find anything (`apply_apply_iff` says it for tables).

**How the two runs are compared.**  `Quiet` says that a scan takes nothing.  The proof goes along
the first scan and compares what stands behind each quote before and after it: up to the next quote
nothing has changed (`begins_before_eq_after`), and a needle does not reach further.  What remains
are the quotes of the new text.  Its opening quote begins no needle, since no new text is a needle;
its closing quote is where the exception comes from (`begins_after_eq_false_iff`).
-/

namespace DualModule

/-! ### What stands behind a quote, before and after a scan -/

/-- Up to the first quote, a scanned text and its edited form are the same. -/
theorem prefix_before_iff_after {segs : List Segment}
    (h : ∀ r, .substituted r ∈ segs → r.Clean) {x : Text} (hx : QuoteFree x) {q : Char} :
    x ++ [q] <+: segs.flatMap Segment.before ↔ x ++ [q] <+: segs.flatMap Segment.after := by
  induction segs generalizing x with
  | nil => rfl
  | cons seg segs ih =>
      have hrest : ∀ r, .substituted r ∈ segs → r.Clean := by
        intro r hr
        exact h r (List.mem_cons_of_mem _ hr)
      cases seg with
      | kept c =>
          simp only [List.flatMap_cons, Segment.before, Segment.after, List.singleton_append]
          cases x with
          | nil => simp
          | cons a x =>
              rw [List.cons_append, List.cons_prefix_cons, List.cons_prefix_cons,
                ih hrest hx.of_cons]
      | substituted r =>
          obtain ⟨p, hp, y, z, rfl, -, -, -⟩ := h r List.mem_cons_self
          simp only [List.flatMap_cons, Segment.before, Segment.after, Replacement.quoted,
            List.cons_append]
          -- the old text and the new one begin with the same quote, and `x` has none
          cases x with
          | nil => simp
          | cons a x =>
              have hne : a ≠ p := by
                rintro rfl
                exact hx a List.mem_cons_self hp
              simp [hne]

theorem begins_before_eq_after {segs : List Segment} (h : ∀ r, .substituted r ∈ segs → r.Clean)
    {r : Replacement} (hr : r.Clean) (c : Char) :
    r.begins (c :: segs.flatMap Segment.before) = r.begins (c :: segs.flatMap Segment.after) := by
  rw [Bool.eq_iff_iff, hr.begins_iff, hr.begins_iff]
  refine exists_congr fun x => and_congr_right fun hx => and_congr_right fun _ =>
    and_congr_right fun _ => ?_
  exact prefix_before_iff_after h hx

/-! ### Scans that take nothing -/

/-- A scan of the text takes nothing. -/
def Quiet (table : List Replacement) (text : Text) : Prop :=
  (segments table text).countP Segment.isSubstituted = 0

section Quiet

variable {table : List Replacement}

@[simp] theorem quiet_nil : Quiet table [] := rfl

theorem quiet_cons_iff {c : Char} {cs : Text} :
    Quiet table (c :: cs) ↔
      (c ∈ quotes → ∀ r ∈ table, r.begins (c :: cs) = false) ∧ Quiet table cs := by
  by_cases hkeep : c ∈ quotes → ∀ r ∈ table, r.begins (c :: cs) = false
  · rw [Quiet, segments_cons_of_none hkeep, List.countP_cons_of_neg (by simp [Segment.isSubstituted])]
    exact (and_iff_right hkeep).symm
  · refine iff_of_false ?_ fun h => hkeep h.1
    intro hquiet
    have hscan := scan_segments table (c :: cs)
    rw [Quiet] at hquiet
    generalize hsegs : segments table (c :: cs) = segs at hscan hquiet
    generalize htext : c :: cs = text at hscan
    cases hscan with
    | done => cases htext
    | keep hnone _ =>
        cases htext
        exact hkeep hnone
    | take _ _ _ => simp [List.countP_cons, Segment.isSubstituted] at hquiet

theorem quiet_append_iff {text rest : Text} (h : QuoteFree text) :
    Quiet table (text ++ rest) ↔ Quiet table rest := by
  induction text with
  | nil => rfl
  | cons c text ih =>
      rw [List.cons_append, quiet_cons_iff, ih h.of_cons]
      exact and_iff_right fun hc => absurd hc (h c List.mem_cons_self)

end Quiet

namespace Replacement

/-- In this line a needle was taken whose closing quote is the opening quote of a needle of the
table. -/
def Overlapping (table : List Replacement) (line : Text) : Prop :=
  ∃ front r rest, segments table line = front ++ .substituted r :: rest ∧
    ∃ s ∈ table, s.needle <+: r.needle.drop (r.needle.length - 1) ++ rest.flatMap Segment.before

/-- Where a needle was taken: at once or further on. -/
theorem exists_substituted_cons_iff {P : Replacement → List Segment → Prop} {seg : Segment}
    {segs : List Segment} :
    (∃ front r rest, seg :: segs = front ++ .substituted r :: rest ∧ P r rest) ↔
      (∃ r, seg = .substituted r ∧ P r segs) ∨
        ∃ front r rest, segs = front ++ .substituted r :: rest ∧ P r rest := by
  constructor
  · rintro ⟨front, r, rest, hsegs, h⟩
    cases front with
    | nil =>
        obtain ⟨rfl, rfl⟩ := List.cons.inj hsegs
        exact Or.inl ⟨r, rfl, h⟩
    | cons _ front => exact Or.inr ⟨front, r, rest, (List.cons.inj hsegs).2, h⟩
  · rintro (⟨r, rfl, h⟩ | ⟨front, r, rest, rfl, h⟩)
    · exact ⟨[], r, segs, rfl, h⟩
    · exact ⟨seg :: front, r, rest, rfl, h⟩

section Clean

variable {table : List Replacement} (hclean : ∀ r ∈ table, r.Clean)
include hclean

/-- The opening quote of a new text begins no needle. -/
theorem begins_newText_eq_false (hnew : ∀ r ∈ table, ∀ s ∈ table, r.newText ≠ s.needle)
    {r s : Replacement} (hr : r ∈ table) (hs : s ∈ table) (rest : Text) :
    s.begins (r.newText ++ rest) = false := by
  have hne := hnew r hr s hs
  obtain ⟨q, hq, x, y, rfl, hx, hy, -⟩ := hclean r hr
  have htext : quoted q y ++ rest = q :: (y ++ q :: rest) := by simp [quoted]
  show s.begins (quoted q y ++ rest) = false
  rw [htext, Bool.eq_false_iff, ne_eq, (hclean s hs).begins_iff]
  rintro ⟨z, hz, -, hneedle, hp⟩
  rw [eq_of_prefix_of_quoteFree hz hy hq hp] at hneedle
  exact hne hneedle.symm

/-- A quote in front of an edited text begins a needle if and only if it did so before. -/
theorem begins_after_eq_false_iff {segs : List Segment}
    (hsub : ∀ r, .substituted r ∈ segs → r.Clean) {q : Char} (hq : q ∈ quotes) :
    (q ∈ quotes → ∀ s ∈ table, s.begins (q :: segs.flatMap Segment.after) = false) ↔
      ¬ ∃ s ∈ table, s.needle <+: q :: segs.flatMap Segment.before := by
  have hbegins : ∀ s ∈ table, s.begins (q :: segs.flatMap Segment.after) = true ↔
      s.needle <+: q :: segs.flatMap Segment.before := by
    intro s hs
    rw [← begins_before_eq_after hsub (hclean s hs), Replacement.begins_iff]
    obtain ⟨_, _, _, _, rfl, -⟩ := hclean s hs
    exact and_iff_right (by simp [quoted])
  rw [imp_iff_right hq]
  constructor
  · rintro h ⟨s, hs, hp⟩
    rw [← hbegins s hs, h s hs] at hp
    cases hp
  · intro h s hs
    rw [Bool.eq_false_iff, ne_eq, hbegins s hs]
    intro hp
    exact h ⟨s, hs, hp⟩

/-- **One line, scanned twice.**  The induction is on the first scan; at each quote the second scan
sees what the first one saw, but for the closing quotes. -/
theorem quiet_after_iff (hnew : ∀ r ∈ table, ∀ s ∈ table, r.newText ≠ s.needle) {text : Text}
    {segs : List Segment} (hscan : Scan table text segs) :
    Quiet table (segs.flatMap Segment.after) ↔
      ¬ ∃ front r rest, segs = front ++ .substituted r :: rest ∧ ∃ s ∈ table,
        s.needle <+: r.needle.drop (r.needle.length - 1) ++ rest.flatMap Segment.before := by
  induction hscan with
  | done => simp
  | @keep c cs segs hnone hrest ih =>
      have hsub : ∀ r, .substituted r ∈ segs → r.Clean := by
        intro r hr
        exact hclean r (hrest.mem_table hr)
      have hquiet : c ∈ quotes → ∀ r ∈ table, r.begins (c :: segs.flatMap Segment.after) = false := by
        intro hc r hr
        rw [← begins_before_eq_after hsub (hclean r hr), hrest.before_eq]
        exact hnone hc r hr
      rw [List.flatMap_cons, Segment.after, List.singleton_append, quiet_cons_iff,
        and_iff_right hquiet, ih, exists_substituted_cons_iff]
      simp
  | @take r cs segs _ hfirst hrest ih =>
      have hsub : ∀ r, .substituted r ∈ segs → r.Clean := by
        intro r hr
        exact hclean r (hrest.mem_table hr)
      have hr := List.mem_of_find?_eq_some hfirst
      have hopen : ∀ s ∈ table, s.begins (r.newText ++ segs.flatMap Segment.after) = false := by
        intro s hs
        exact begins_newText_eq_false hclean hnew hr hs _
      obtain ⟨q, hq, x, y, rfl, hx, hy, -⟩ := hclean r hr
      have hafter : quoted q y ++ segs.flatMap Segment.after =
          q :: (y ++ q :: segs.flatMap Segment.after) := by simp [quoted]
      have hdrop : (quoted q x).drop ((quoted q x).length - 1) = [q] := by simp [quoted]
      rw [hafter] at hopen
      -- of the new text only the closing quote is left, and that was there before
      rw [List.flatMap_cons, Segment.after, hafter, quiet_cons_iff, and_iff_right fun _ => hopen,
        quiet_append_iff hy, quiet_cons_iff, ih, begins_after_eq_false_iff hclean hsub hq, ← not_or,
        exists_substituted_cons_iff]
      simp [hdrop]

end Clean

theorem quiet_editLine_iff {table : List Replacement} (hclean : ∀ r ∈ table, r.Clean)
    (hnew : ∀ r ∈ table, ∀ s ∈ table, r.newText ≠ s.needle) (line : Text) :
    Quiet table (editLine table line) ↔ ¬ Overlapping table line :=
  quiet_after_iff hclean hnew (scan_segments table line)

/-- Nothing was replaced exactly if every line is quiet. -/
theorem count_eq_zero_iff {table : List Replacement} {content : Text} :
    (apply table content).count = 0 ↔ ∀ line ∈ linesOf content, Quiet table line := by
  simp only [apply_eq_scan, Edited.ofSegments, scan, Quiet, List.countP_eq_zero, List.mem_flatMap]
  constructor
  · intro h line hline s hs
    exact h s ⟨line, hline, hs⟩
  · rintro h s ⟨line, hline, hs⟩
    exact h line hline s hs

theorem content_eq_of_count_eq_zero {table : List Replacement} {content : Text}
    (h : (apply table content).count = 0) : (apply table content).content = content := by
  have hlines : (linesOf content).map (editLine table) = (linesOf content).map id := by
    refine List.map_congr_left fun line hline => ?_
    rw [editLine, flatMap_after_of_countP_eq_zero (count_eq_zero_iff.1 h line hline),
      flatMap_before_segments, id]
  rw [content_apply, hlines, List.map_id, flatten_linesOf]

/-- **Editing twice**, for tables of clean replacements none of whose new texts is a needle. -/
theorem apply_apply_iff {table : List Replacement} (hclean : ∀ r ∈ table, r.Clean)
    (hnew : ∀ r ∈ table, ∀ s ∈ table, r.newText ≠ s.needle) (content : Text) :
    (apply table (apply table content).content).count = 0 ↔
      ∀ line ∈ linesOf content, ¬ Overlapping table line := by
  rw [count_eq_zero_iff, linesOf_apply fun r hr => (hclean r hr).withinLine]
  simp [quiet_editLine_iff hclean hnew]

end Replacement

/-- **A second run over an edited text finds nothing and changes nothing**, unless in some line the
closing quote of a replaced specifier was the opening quote of another needle. -/
theorem second_run_changes_nothing_iff {files : List Path} {directory : Path}
    (hquotes : ∀ r ∈ Replacement.table directory (RenamePlan.of files RenameRule.dualModule),
      QuoteFree r.needle.tail.dropLast)
    (content : Text) :
    let table := Replacement.table directory (RenamePlan.of files RenameRule.dualModule)
    let first := Replacement.apply table content
    let second := Replacement.apply table first.content
    (second.count = 0 ∧ second.content = first.content) ↔
      ∀ line ∈ linesOf content, ¬ Replacement.Overlapping table line := by
  intro table first second
  have hplan := RenamePlan.allDual files
  have hclean : ∀ r ∈ table, r.Clean := by
    intro r hr
    obtain ⟨m, -, q, hq, e, -, rfl⟩ := (Replacement.mem_table_iff hplan).1 hr
    exact Replacement.clean_replacement hq (by simpa [Mapping.replacement] using hquotes _ hr)
  have hnew : ∀ r ∈ table, ∀ s ∈ table, r.newText ≠ s.needle := by
    intro r hr s hs
    obtain ⟨m, -, q, -, e, -, rfl⟩ := (Replacement.mem_table_iff hplan).1 hr
    obtain ⟨m', hm', q', -, e', he', rfl⟩ := (Replacement.mem_table_iff hplan).1 hs
    obtain ⟨d', base', hdual'⟩ := hplan m' hm'
    exact hdual'.newText_ne_needle he'
  have hcount := Replacement.apply_apply_iff hclean hnew content
  constructor
  · rintro ⟨hzero, -⟩
    exact hcount.1 hzero
  · intro h
    exact ⟨hcount.2 h, Replacement.content_eq_of_count_eq_zero (hcount.2 h)⟩

/-- Two specifiers that share a quote: the second run takes the second of them. -/
theorem second_run_finds_shared_quote :
    let files := [Path.ofText "/out/a_pb.js".toList]
    let directory := Path.ofText "/out".toList
    let table := Replacement.table directory (RenamePlan.of files RenameRule.dualModule)
    let first := Replacement.apply table "'./a_pb'./a_pb.js'".toList
    let second := Replacement.apply table first.content
    (∀ r ∈ table, QuoteFree r.needle.tail.dropLast) ∧
      first = ⟨"'./a_pb.cjs'./a_pb.js'".toList, 1⟩ ∧
      ¬ (second.count = 0 ∧ second.content = first.content) := by
  refine ⟨by decide, by decide, fun h => ?_⟩
  refine (second_run_changes_nothing_iff (by decide) _).1 h
    "'./a_pb'./a_pb.js'".toList (by decide) ?_
  exact ⟨[], ⟨"'./a_pb'".toList, "'./a_pb.cjs'".toList⟩, "./a_pb.js'".toList.map .kept, by decide,
    ⟨"'./a_pb.js'".toList, "'./a_pb.cjs'".toList⟩, by decide, by decide⟩

end DualModule

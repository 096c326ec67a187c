import DualModule.Proofs.Table
/-!
# Lines of an edited text

Editing keeps the lines of a text apart (`Replacement.lines_kept`).  The edited text has one line
for each line of the text, namely that line edited by itself, and every line ends as it did: with a
line feed, with a carriage return and a line feed, or, at the end of the text, with neither.

**Names with line breaks in them** make no difference.  A specifier may hold the characters that end
lines, but a needle and its new text both end in the same quote.  So a needle never ends where a
line does, nothing is written behind the last quote, and the last character of a line, and the one
before the line feed, stay what they are (`Replacement.getLast?_editLine`).

## Main Definitions

* `lineEnd`
-/

namespace DualModule

/-- What ends a line: a carriage return and a line feed, a line feed alone, or nothing. -/
def lineEnd (line : Text) : Text :=
  if line.getLast? = some '\n' then
    if line.dropLast.getLast? = some '\r' then ['\r', '\n'] else ['\n']
  else []

@[simp] theorem lineEnd_append_lineFeed (body : Text) :
    lineEnd (body ++ ['\n']) = if body.getLast? = some '\r' then ['\r', '\n'] else ['\n'] := by
  simp [lineEnd]

/-! ### Cutting at a line feed -/

/-- Behind a line feed the lines begin anew. -/
theorem linesOf_append_lineFeed (front back : Text) :
    linesOf (front ++ '\n' :: back) = linesOf (front ++ ['\n']) ++ linesOf back := by
  induction front using line_induction with
  | last body hbody =>
      rw [linesOf_append_cons hbody, linesOf_append_cons hbody]
      rfl
  | line body rest hbody ih =>
      simp only [List.append_assoc, List.cons_append]
      rw [linesOf_append_cons hbody, linesOf_append_cons hbody, ih, List.cons_append]

/-- A line is one line. -/
theorem linesOf_of_mem {content line : Text} (h : line ∈ linesOf content) :
    linesOf line = [line] := by
  induction content using line_induction with
  | last body hbody =>
      by_cases hne : body = []
      · subst hne
        cases h
      · have hlines := linesOf_of_notMem hbody hne
        rw [hlines, List.mem_singleton] at h
        rw [h, hlines]
  | line body rest hbody ih =>
      rw [linesOf_append_cons hbody] at h
      rcases List.mem_cons.1 h with rfl | h
      · exact linesOf_append_cons hbody []
      · exact ih h

namespace Replacement

section Lines

variable {table : List Replacement}

/-- **Text is edited on both sides of a line feed apart.** -/
theorem apply_append_lineFeed (table : List Replacement) (front back : Text) :
    apply table (front ++ '\n' :: back) =
      ⟨(apply table (front ++ ['\n'])).content ++ (apply table back).content,
        (apply table (front ++ ['\n'])).count + (apply table back).count⟩ := by
  simp only [apply, Edited.ofSegments, linesOf_append_lineFeed front back, List.flatMap_append,
    List.countP_append]

/-- A line by itself is edited as it is within a text. -/
theorem content_apply_of_mem {content line : Text} (h : line ∈ linesOf content) :
    (apply table line).content = editLine table line := by
  rw [content_apply, linesOf_of_mem h, List.map_singleton, List.flatten_singleton]

/-! ### How lines end -/

/-- **A line keeps its last character** if every new text ends as its needle does. -/
theorem getLast?_editLine (h : ∀ r ∈ table, r.newText.getLast? = r.needle.getLast?)
    (line : Text) : (editLine table line).getLast? = line.getLast? := by
  have hscan := scan_segments table line
  rw [editLine]
  generalize segments table line = segs at hscan
  induction hscan with
  | done => rfl
  | @keep c cs _ _ _ ih =>
      rw [List.flatMap_cons, List.getLast?_append, ih, ← List.getLast?_append]
      rfl
  | @take r _ _ _ hfirst _ ih =>
      rw [List.flatMap_cons, List.getLast?_append, ih, List.getLast?_append, Segment.after,
        h r (List.mem_of_find?_eq_some hfirst)]

/-- **A line ends as it did.** -/
theorem lineEnd_editLine (hline : ∀ r ∈ table, r.WithinLine)
    (hlast : ∀ r ∈ table, r.newText.getLast? = r.needle.getLast?) (line : Text) :
    lineEnd (editLine table line) = lineEnd line := by
  by_cases hfeed : line.getLast? = some '\n'
  · obtain ⟨body, rfl⟩ := List.getLast?_eq_some_iff.1 hfeed
    rw [editLine_append_lineFeed fun r hr => (hline r hr).getLast?_needle, lineEnd_append_lineFeed,
      lineEnd_append_lineFeed, getLast?_editLine hlast]
  · rw [lineEnd, lineEnd, getLast?_editLine hlast, if_neg hfeed, if_neg hfeed]

end Lines

/-! ### Tables of dual-module plans -/

/-- An entry keeps to one line, whatever its specifier holds. -/
theorem withinLine_replacement {directory : Path} {m : Mapping} {q : Char} (hq : q ∈ quotes)
    (e : Text) : (m.replacement directory q e).WithinLine := by
  refine withinLine_quoted hq fun hspecifier => ?_
  rw [List.mem_append, not_or] at hspecifier ⊢
  exact ⟨hspecifier.1, by decide⟩

/-- **Editing keeps the lines of a text.**  By the table that a dual-module plan gives a directory,
the edited text has a line for each line of the text, which is that line edited by itself and ends
as the line does.  Where a text is cut behind a line feed, the two sides are edited apart and their
counts are added. -/
theorem lines_kept (files : List Path) (directory : Path) :
    let table := table directory (RenamePlan.of files RenameRule.dualModule)
    (∀ content, linesOf (apply table content).content =
      (linesOf content).map fun line => (apply table line).content) ∧
    (∀ content, ∀ line ∈ linesOf content, lineEnd (apply table line).content = lineEnd line) ∧
    ∀ front back, front.getLast? = some '\n' →
      apply table (front ++ back) =
        ⟨(apply table front).content ++ (apply table back).content,
          (apply table front).count + (apply table back).count⟩ := by
  intro table
  have hentry : ∀ r ∈ table, ∃ m : Mapping, ∃ q ∈ quotes, ∃ e, r = m.replacement directory q e := by
    intro r hr
    obtain ⟨m, -, q, hq, e, -, rfl⟩ := (mem_table_iff (RenamePlan.allDual files)).1 hr
    exact ⟨m, q, hq, e, rfl⟩
  have hline : ∀ r ∈ table, r.WithinLine := by
    intro r hr
    obtain ⟨m, q, hq, e, rfl⟩ := hentry r hr
    exact withinLine_replacement hq e
  have hlast : ∀ r ∈ table, r.newText.getLast? = r.needle.getLast? := by
    intro r hr
    obtain ⟨m, q, hq, e, rfl⟩ := hentry r hr
    simp [Mapping.replacement]
  refine ⟨?_, ?_, ?_⟩
  · intro content
    rw [linesOf_apply hline]
    exact (List.map_congr_left fun line hmem => content_apply_of_mem hmem).symm
  · intro content line hmem
    rw [content_apply_of_mem hmem, lineEnd_editLine hline hlast]
  · intro front back hfront
    obtain ⟨front, rfl⟩ := List.getLast?_eq_some_iff.1 hfront
    rw [List.append_assoc, List.singleton_append, apply_append_lineFeed]

/-- Names with a line feed and with a carriage return in them: the needle that holds a line feed is
not found where its characters stand on two lines, and the line that ends in a carriage return alone
ends in neither. -/
theorem lines_kept_with_breaks_in_names :
    let files := [Path.ofText "/o/a\nb_pb.js".toList, .ofText "/o/c\r_pb.d.ts".toList]
    let directory := Path.ofText "/o/d".toList
    let table := table directory (RenamePlan.of files RenameRule.dualModule)
    let front := "x('../c\r_pb.js');\r\n".toList
    let last := "\"../c\r_pb\"\r".toList
    let back := "'../a\nb_pb'\n".toList ++ last
    (∃ r ∈ table, r.needle = "'../a\nb_pb'".toList) ∧ front.getLast? = some '\n' ∧
      last ∈ linesOf (front ++ back) ∧ lineEnd (apply table last).content = lineEnd last ∧
      lineEnd last = [] ∧
      linesOf (apply table (front ++ back)).content = ["x('../c\r_pb.cjs');\r\n".toList,
        "'../a\n".toList, "b_pb'\n".toList, "\"../c\r_pb.cjs\"\r".toList] ∧
      apply table (front ++ back) =
        ⟨(apply table front).content ++ (apply table back).content, 2⟩ := by
  intro files directory table front last back
  have hlast : last ∈ linesOf (front ++ back) := by decide +kernel
  have hcount : (apply table front).count + (apply table back).count = 2 := by decide +kernel
  obtain ⟨hlines, hends, hcut⟩ := lines_kept files directory
  refine ⟨by decide +kernel, by decide +kernel, hlast, hends _ last hlast, by decide +kernel, ?_,
    ?_⟩
  · exact (hlines (front ++ back)).trans (by decide +kernel)
  · rw [← hcount]
    exact hcut front back (by decide +kernel)

end Replacement

end DualModule

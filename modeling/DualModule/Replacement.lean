import DualModule.RenamePlan
import DualModule.Specifier
import Std.Data.TreeSet
/-!
# Replacing quoted specifiers

A replacement exchanges one quoted specifier for another.  Which replacements hold for a directory
follows from the mappings: for every mapping the specifier of the old stem, with and without the
old extension, in either kind of quote.

**Scanning.**  Text is edited line by line.  A line is read once from left to right; wherever a
quote stands, the first replacement of the table whose needle begins there is taken, and reading
goes on behind the needle.  `segments` keeps the outcome of a scan as data: the stretches that
were kept, character by character, and the replacements that were taken.  Reading the segments
back gives the line before, and reading their new texts gives the line after.

## Main Definitions

* `Replacement`, `Replacement.table`
* `Segment`, `segments`, `linesOf`
* `Edited`, `Replacement.apply`
-/

namespace DualModule

/-- The kinds of quote around a specifier. -/
def quotes : List Char := ['"', '\'']

/-- A quoted specifier and what is written in its place, quotes included. -/
structure Replacement where
  needle : Text
  newText : Text
deriving DecidableEq

namespace Replacement

/-- `text` between two quotes. -/
def quoted (quote : Char) (text : Text) : Text := quote :: text ++ [quote]

/-- The replacements that one mapping gives rise to in `directory`. -/
def candidates (directory : Path) (m : Mapping) : List Replacement :=
  let old := Specifier.relative directory m.oldStem
  let new := Specifier.relative directory m.newStem ++ m.rule.newSpecifierExtension
  quotes.flatMap fun quote =>
    [old ++ m.rule.oldSpecifierExtension, old].map fun specifier =>
      ⟨quoted quote specifier, quoted quote new⟩

/-- Keeps the first replacement for each needle. -/
def keepFirst : List Replacement → List Replacement
  | [] => []
  | r :: rs => r :: (keepFirst rs).filter fun s => s.needle ≠ r.needle

/-- Keeps the first replacement for each needle that has not been `seen`. -/
def keepUnseen (seen : Std.TreeSet Text) : List Replacement → List Replacement
  | [] => []
  | r :: rs =>
    if seen.contains r.needle then keepUnseen seen rs
    else r :: keepUnseen (seen.insert r.needle) rs

theorem keepUnseen_eq (seen : Std.TreeSet Text) (rs : List Replacement) :
    keepUnseen seen rs = (keepFirst rs).filter fun r => !seen.contains r.needle := by
  induction rs generalizing seen with
  | nil => rfl
  | cons r rs ih =>
    unfold keepUnseen keepFirst
    by_cases h : seen.contains r.needle = true
    · rw [if_pos h, ih, List.filter_cons_of_neg (by simp [h]), List.filter_filter]
      refine List.filter_congr fun s _ => ?_
      by_cases hs : s.needle = r.needle <;> simp [hs, h]
    · rw [if_neg h, ih, List.filter_cons_of_pos (by simp [h]), List.filter_filter]
      refine congrArg (r :: ·) (List.filter_congr fun s _ => ?_)
      by_cases hs : s.needle = r.needle
      · simp [hs]
      · simp [Std.TreeSet.contains_insert, hs, Ne.symm hs]

/-- Every replacement that holds for files in `directory`; earlier mappings win. -/
def table (directory : Path) (mappings : List Mapping) : List Replacement :=
  keepUnseen ∅ (mappings.flatMap (candidates directory))

/-- **A table holds the first candidate for each needle.** -/
theorem table_eq (directory : Path) (mappings : List Mapping) :
    table directory mappings = keepFirst (mappings.flatMap (candidates directory)) := by
  simp [table, keepUnseen_eq]

end Replacement

/-- A stretch of a scanned line. -/
inductive Segment where
  | kept (c : Char)
  | substituted (replacement : Replacement)
deriving DecidableEq

namespace Segment

/-- What stood there before. -/
def before : Segment → Text
  | kept c => [c]
  | substituted r => r.needle

/-- What stands there afterwards. -/
def after : Segment → Text
  | kept c => [c]
  | substituted r => r.newText

/-- Whether the stretch was replaced. -/
def isSubstituted : Segment → Bool
  | kept _ => false
  | substituted _ => true

end Segment

/-- Whether a replacement applies at the front of `text`: its needle begins there.  An empty needle
never does. -/
def Replacement.begins (r : Replacement) (text : Text) : Bool :=
  !r.needle.isEmpty && r.needle.isPrefixOf text

/-- Scans a line from left to right, `skip` characters of which belong to a needle that has been
taken already. -/
def segmentsFrom (table : List Replacement) : Nat → Text → List Segment
  | _, [] => []
  | skip + 1, _ :: cs => segmentsFrom table skip cs
  | 0, c :: cs =>
    match if c ∈ quotes then table.find? (·.begins (c :: cs)) else none with
    | some r => .substituted r :: segmentsFrom table (r.needle.length - 1) cs
    | none => .kept c :: segmentsFrom table 0 cs

/-- The outcome of scanning one line. -/
def segments (table : List Replacement) (line : Text) : List Segment := segmentsFrom table 0 line

/-- The lines of a text, each with the line feed that ends it. -/
def linesOf : Text → List Text
  | [] => []
  | c :: cs =>
    if c = '\n' then [c] :: linesOf cs
    else match linesOf cs with
      | [] => [[c]]
      | l :: ls => (c :: l) :: ls

/-- Edited text and the number of replacements made in it. -/
structure Edited where
  content : Text
  count : Nat
deriving DecidableEq

namespace Edited

/-- What a scan amounts to. -/
def ofSegments (segs : List Segment) : Edited :=
  ⟨segs.flatMap Segment.after, segs.countP Segment.isSubstituted⟩

end Edited

/-- Applies a table of replacements to text, line by line. -/
def Replacement.apply (table : List Replacement) (content : Text) : Edited :=
  .ofSegments ((linesOf content).flatMap (segments table))

end DualModule

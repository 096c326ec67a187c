import DualModule.Proofs.Table
/-!
# The order of a table

In a table the first replacement that begins somewhere is taken, and of several candidates for one
needle the first is kept.  For dual-module plans neither makes a difference.  A needle determines
its replacement (`Replacement.eq_of_needle_eq`), so that all candidates stay in the table whatever
the order of the mappings is; and where the needles have no quotes inside, at most one of them
begins at a place (`Replacement.Clean.needle_eq_of_begins`), so that it does not matter which is
tried first.

**Tables that hold the same** therefore edit alike (`Replacement.apply_congr`).
-/

namespace DualModule

/-- What is found does not depend on the order if there is one thing at most to be found. -/
theorem find?_congr_of_mem_iff {α : Type} {p : α → Bool} {xs ys : List α}
    (hmem : ∀ x, x ∈ xs ↔ x ∈ ys) (hunique : ∀ x ∈ xs, ∀ y ∈ xs, p x → p y → x = y) :
    xs.find? p = ys.find? p := by
  cases hxs : xs.find? p with
  | none =>
      rw [List.find?_eq_none] at hxs
      exact (List.find?_eq_none.2 fun y hy => hxs y ((hmem y).2 hy)).symm
  | some x =>
      have hx := List.mem_of_find?_eq_some hxs
      have hpx := List.find?_some hxs
      obtain ⟨y, hy⟩ := Option.isSome_iff_exists.1
        (List.find?_isSome.2 ⟨x, (hmem x).1 hx, hpx⟩)
      have hyx := (hmem y).2 (List.mem_of_find?_eq_some hy)
      rw [hy, hunique x hx y hyx hpx (List.find?_some hy)]

/-- A scan only asks for the first replacement that begins. -/
theorem segmentsFrom_congr {table table' : List Replacement}
    (h : ∀ text, table.find? (·.begins text) = table'.find? (·.begins text)) (skip : Nat)
    (line : Text) : segmentsFrom table skip line = segmentsFrom table' skip line := by
  induction line generalizing skip with
  | nil => cases skip <;> rfl
  | cons c cs ih =>
      cases skip with
      | zero => simp only [segmentsFrom, h, ih]
      | succ skip => exact ih skip

namespace Replacement

/-- **Tables that hold the same edit alike**, if at most one replacement begins at a place. -/
theorem apply_congr {table table' : List Replacement} (hmem : ∀ r, r ∈ table ↔ r ∈ table')
    (hunique : ∀ text, ∀ r ∈ table, ∀ s ∈ table, r.begins text → s.begins text → r = s)
    (content : Text) : apply table content = apply table' content := by
  have hsegments : segments table = segments table' :=
    funext (segmentsFrom_congr (fun text => find?_congr_of_mem_iff hmem (hunique text)) 0)
  rw [apply, apply, hsegments]

section DualTable

variable {directory : Path} {plan mappings : List Mapping}

/-- A table of dual-module mappings without quotes in its specifiers is clean. -/
theorem clean_of_mem_table (hplan : AllDual plan)
    (hquotes : ∀ r ∈ table directory plan, QuoteFree r.needle.tail.dropLast) {r : Replacement}
    (hr : r ∈ table directory plan) : r.Clean := by
  have hfree := hquotes r hr
  obtain ⟨m, -, q, hq, e, -, rfl⟩ := (mem_table_iff hplan).1 hr
  exact clean_replacement hq (by simpa [Mapping.replacement] using hfree)

/-- Reordered and repeated mappings have a table with the same replacements. -/
theorem mem_table_congr (hplan : AllDual plan) (hsame : ∀ m, m ∈ mappings ↔ m ∈ plan)
    (r : Replacement) : r ∈ table directory mappings ↔ r ∈ table directory plan := by
  have hmappings : AllDual mappings := fun m hm => hplan m ((hsame m).1 hm)
  rw [mem_table_iff hmappings, mem_table_iff hplan]
  simp only [hsame]

/-- At most one replacement of a clean dual-module table begins at a place. -/
theorem eq_of_begins (hplan : AllDual plan)
    (hquotes : ∀ r ∈ table directory plan, QuoteFree r.needle.tail.dropLast) {r s : Replacement}
    (hr : r ∈ table directory plan) (hs : s ∈ table directory plan) {text : Text}
    (hrt : r.begins text = true) (hst : s.begins text = true) : r = s := by
  have hrc := clean_of_mem_table hplan hquotes hr
  have hsc := clean_of_mem_table hplan hquotes hs
  exact table_eq_of_needle_eq hplan hr hs (hrc.needle_eq_of_begins hsc hrt hst)

end DualTable

/-- **The order of the mappings of a dual-module plan does not matter**, nor does that of the
replacements, if no needle has a quote between its own.  Any list with the mappings of the plan, in
any order and with any repetitions, and any order of its table edit every content alike.  Candidates
with the same needle have the same new text, and all of them are in the table; and at any place at
most one of its needles begins. -/
theorem mapping_order_irrelevant {files : List Path} {directory : Path}
    (hquotes : ∀ r ∈ table directory (RenamePlan.of files RenameRule.dualModule),
      QuoteFree r.needle.tail.dropLast) :
    let plan := RenamePlan.of files RenameRule.dualModule
    (∀ mappings, (∀ m, m ∈ mappings ↔ m ∈ plan) →
      ∀ replacements, replacements.Perm (table directory mappings) →
        ∀ content, apply replacements content = apply (table directory plan) content) ∧
    (∀ m ∈ plan, ∀ m' ∈ plan, ∀ r ∈ candidates directory m, ∀ r' ∈ candidates directory m',
      r.needle = r'.needle → r.newText = r'.newText) ∧
    (∀ m ∈ plan, ∀ r ∈ candidates directory m, r ∈ table directory plan) ∧
    ∀ text, ∀ r ∈ table directory plan, ∀ s ∈ table directory plan,
      r.begins text → s.begins text → r.needle = s.needle := by
  intro plan
  have hplan : AllDual plan := RenamePlan.allDual files
  refine ⟨?_, ?_, ?_, ?_⟩
  · intro mappings hsame replacements hperm content
    have hmem : ∀ r, r ∈ table directory plan ↔ r ∈ replacements := by
      intro r
      rw [hperm.mem_iff, mem_table_congr hplan hsame]
    exact (apply_congr hmem
      (fun _ _ hr _ hs hrt hst => eq_of_begins hplan hquotes hr hs hrt hst) content).symm
  · intro m hm m' hm' r hr r' hr' hneedle
    have hrs := List.mem_flatMap.2 ⟨m, hm, hr⟩
    have hrs' := List.mem_flatMap.2 ⟨m', hm', hr'⟩
    rw [eq_of_needle_eq hplan hrs hrs' hneedle]
  · intro m hm r hr
    rw [mem_table_iff hplan, ← mem_flatMap_candidates_iff hplan]
    exact List.mem_flatMap.2 ⟨m, hm, hr⟩
  · intro text r hr s hs hrt hst
    rw [eq_of_begins hplan hquotes hr hs hrt hst]

/-- A module and its declarations, whose candidates are the same, in the opposite order and repeated,
and their table backwards. -/
theorem declaration_before_module :
    let files := [Path.ofText "/out/a_pb.js".toList, .ofText "/out/a_pb.d.ts".toList,
      .ofText "/out/b/c_pb.js".toList]
    let directory := Path.ofText "/out/b".toList
    let plan := RenamePlan.of files RenameRule.dualModule
    let mappings := plan.reverse ++ plan
    let content := "import '../a_pb'; require(\"./c_pb.js\");".toList
    (∀ r ∈ table directory plan, QuoteFree r.needle.tail.dropLast) ∧
    (∀ m, m ∈ mappings ↔ m ∈ plan) ∧
    apply (table directory plan) content =
      ⟨"import '../a_pb.cjs'; require(\"./c_pb.cjs\");".toList, 2⟩ ∧
    apply (table directory mappings).reverse content = apply (table directory plan) content := by
  intro files directory plan mappings content
  have hsame : ∀ m, m ∈ mappings ↔ m ∈ plan := by
    intro m
    simp [mappings]
  have hquotes : ∀ r ∈ table directory plan, QuoteFree r.needle.tail.dropLast := by
    decide +kernel
  exact ⟨hquotes, hsame, by decide +kernel,
    (mapping_order_irrelevant hquotes).1 mappings hsame _ (List.reverse_perm _) content⟩

end Replacement

end DualModule

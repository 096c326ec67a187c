import DualModule.Replacement
import Mathlib.Data.List.Find
/-!
# Scanning, as a relation

`segments` is defined with a counter of characters to skip, which is how it runs.  What it means is
`Scan`: a text is cut from the left into characters that are kept and needles that are taken, and a
character is kept only where no needle begins.  Everything about a scan is proved by induction on
this relation.

**Lines.**  A text is a line without a line feed, or such a line, a line feed and more text
(`line_induction`).  A needle that does not end in a line feed never reaches over one, so editing
goes line by line and leaves the line feeds where they are (`linesOf_apply`).
-/

namespace DualModule

/-- The table cuts the text into these segments. -/
inductive Scan (table : List Replacement) : Text → List Segment → Prop
  | done : Scan table [] []
  | keep {c : Char} {cs : Text} {segs : List Segment}
      (none : c ∈ quotes → ∀ r ∈ table, r.begins (c :: cs) = false) (rest : Scan table cs segs) :
      Scan table (c :: cs) (.kept c :: segs)
  | take {r : Replacement} {cs : Text} {segs : List Segment}
      (quote : ∃ q ∈ quotes, r.needle.head? = some q)
      (first : table.find? (·.begins (r.needle ++ cs)) = some r) (rest : Scan table cs segs) :
      Scan table (r.needle ++ cs) (.substituted r :: segs)

namespace Replacement

theorem begins_iff {r : Replacement} {text : Text} :
    r.begins text = true ↔ r.needle ≠ [] ∧ r.needle <+: text := by
  simp [begins]

end Replacement

theorem segmentsFrom_drop (table : List Replacement) (k : Nat) (text : Text) :
    segmentsFrom table k text = segments table (text.drop k) := by
  induction text generalizing k with
  | nil => cases k <;> rfl
  | cons c cs ih =>
      cases k with
      | zero => rfl
      | succ k => exact ih k

theorem segments_cons_of_none {table : List Replacement} {c : Char} {cs : Text}
    (h : c ∈ quotes → ∀ r ∈ table, r.begins (c :: cs) = false) :
    segments table (c :: cs) = .kept c :: segments table cs := by
  rw [segments, segmentsFrom]
  split
  · rename_i r hr
    split at hr
    · rename_i hc
      have hbegins := List.find?_some hr
      rw [h hc r (List.mem_of_find?_eq_some hr)] at hbegins
      cases hbegins
    · cases hr
  · rfl

theorem segments_append_of_find? {table : List Replacement} {r : Replacement} {cs : Text}
    (hq : ∃ q ∈ quotes, r.needle.head? = some q)
    (h : table.find? (·.begins (r.needle ++ cs)) = some r) :
    segments table (r.needle ++ cs) = .substituted r :: segments table cs := by
  obtain ⟨q, hq, hhead⟩ := hq
  obtain ⟨needle, hneedle⟩ := List.head?_eq_some_iff.1 hhead
  rw [hneedle] at h ⊢
  rw [List.cons_append] at h ⊢
  rw [segments, segmentsFrom, if_pos hq, h]
  simp only
  rw [hneedle, segmentsFrom_drop]
  simp

/-- **The outcome of a scan is a scan.** -/
theorem scan_segments (table : List Replacement) (text : Text) :
    Scan table text (segments table text) := by
  generalize hn : text.length = n
  induction n using Nat.strongRecOn generalizing text with
  | ind n ih =>
      cases text with
      | nil => exact .done
      | cons c cs =>
          by_cases hkeep : c ∈ quotes → ∀ r ∈ table, r.begins (c :: cs) = false
          · rw [segments_cons_of_none hkeep]
            exact .keep hkeep (ih cs.length (by simp [← hn]) cs rfl)
          · obtain ⟨hc, r₀, hr₀, hbegins₀⟩ :
                c ∈ quotes ∧ ∃ r ∈ table, r.begins (c :: cs) = true := by
              simpa using hkeep
            obtain ⟨r, hr⟩ := Option.isSome_iff_exists.1
              (List.find?_isSome (p := (·.begins (c :: cs))).2 ⟨r₀, hr₀, hbegins₀⟩)
            -- a needle is not empty, so that the rest is shorter
            have hbegins := List.find?_some hr
            obtain ⟨hne, rest, hrest⟩ := Replacement.begins_iff.1 hbegins
            have hhead : r.needle.head? = some c := by
              obtain ⟨q, needle, hneedle⟩ := List.exists_cons_of_ne_nil hne
              rw [hneedle] at hrest ⊢
              exact congrArg some (List.cons.inj hrest).1
            have hlen : rest.length < n := by
              have := congrArg List.length hrest
              have := List.length_pos_iff.2 hne
              simp only [List.length_append] at *
              omega
            rw [← hrest] at hr ⊢
            rw [segments_append_of_find? ⟨c, hc, hhead⟩ hr]
            exact .take ⟨c, hc, hhead⟩ hr (ih rest.length hlen rest rfl)

/-- Position `i` of a scanned text is inside a needle that was taken, behind its first character. -/
def Segment.Inside (segs : List Segment) (i : Nat) : Prop :=
  ∃ pre r post, segs = pre ++ .substituted r :: post ∧
    (pre.flatMap Segment.before).length < i ∧
    i < (pre.flatMap Segment.before).length + r.needle.length

/-- One more segment in front. -/
theorem Segment.Inside.cons {segs : List Segment} {i : Nat} (h : Inside segs i) (seg : Segment) :
    Inside (seg :: segs) (seg.before.length + i) := by
  obtain ⟨pre, r, post, rfl, hlt, hlt'⟩ := h
  refine ⟨seg :: pre, r, post, rfl, ?_, ?_⟩
  · rw [List.flatMap_cons, List.length_append]
    omega
  · rw [List.flatMap_cons, List.length_append]
    omega

namespace Scan

variable {table : List Replacement} {text : Text} {segs : List Segment}

/-- There is one way to scan a text. -/
theorem eq_segments (h : Scan table text segs) : segs = segments table text := by
  induction h with
  | done => rfl
  | keep hnone _ ih => rw [segments_cons_of_none hnone, ih]
  | take hq hfirst _ ih => rw [segments_append_of_find? hq hfirst, ih]

/-- Reading the segments back gives the text. -/
theorem before_eq (h : Scan table text segs) : segs.flatMap Segment.before = text := by
  induction h with
  | done => rfl
  | keep _ _ ih => simp [Segment.before, ih]
  | take _ _ _ ih => simp [Segment.before, ih]

theorem mem_table (h : Scan table text segs) {r : Replacement} (hr : .substituted r ∈ segs) :
    r ∈ table := by
  induction h with
  | done => cases hr
  | keep _ _ ih => exact ih (by simpa using hr)
  | take _ hfirst _ ih =>
      rcases List.mem_cons.1 hr with hr | hr
      · cases hr
        exact List.mem_of_find?_eq_some hfirst
      · exact ih hr

/-- If no needle reaches over a line feed, the scan goes on behind it afresh. -/
theorem append_lineFeed {rest : Text} {segs' : List Segment}
    (hbegins : ∀ r ∈ table, ∀ text, r.begins (text ++ '\n' :: rest) = r.begins text)
    (h : Scan table text segs) (hrest : Scan table rest segs') :
    Scan table (text ++ '\n' :: rest) (segs ++ .kept '\n' :: segs') := by
  induction h with
  | done =>
      refine .keep ?_ hrest
      intro hq
      exact absurd hq (by decide)
  | keep hnone _ ih =>
      refine .keep ?_ ih
      intro hc r hr
      exact (hbegins r hr _).trans (hnone hc r hr)
  | take hq hfirst _ ih =>
      rw [List.append_assoc]
      refine .take hq ?_ ih
      rw [← hfirst, ← List.append_assoc]
      exact List.find?_congr fun s hs => hbegins s hs _

/-- **A position in a scanned text** is inside a needle that was taken, behind its first character,
or it is where the scan stood at some time. -/
theorem at_position (h : Scan table text segs) {front back : Text} (htext : text = front ++ back) :
    Segment.Inside segs front.length ∨
    ∃ pre post, segs = pre ++ post ∧ pre.flatMap Segment.before = front ∧ Scan table back post := by
  induction h generalizing front with
  | done =>
      obtain ⟨rfl, rfl⟩ := List.append_eq_nil_iff.1 htext.symm
      exact Or.inr ⟨[], [], rfl, rfl, .done⟩
  | @keep c cs segs hnone hrest ih =>
      cases front with
      | nil =>
          obtain rfl : back = c :: cs := htext.symm
          exact Or.inr ⟨[], _, rfl, rfl, .keep hnone hrest⟩
      | cons a front =>
          obtain ⟨rfl, hcs⟩ := List.cons.inj htext
          rcases ih hcs with hinside | ⟨pre, post, rfl, rfl, hpost⟩
          · have hlength : (c :: front).length = (Segment.kept c).before.length + front.length :=
              Nat.add_comm front.length 1
            rw [hlength]
            exact Or.inl (hinside.cons _)
          · exact Or.inr ⟨.kept c :: pre, post, rfl, rfl, hpost⟩
  | @take r cs segs hq hfirst hrest ih =>
      by_cases hnil : front = []
      · subst hnil
        obtain rfl : back = r.needle ++ cs := htext.symm
        exact Or.inr ⟨[], _, rfl, rfl, .take hq hfirst hrest⟩
      · have hpos := List.length_pos_iff.2 hnil
        by_cases hlt : front.length < r.needle.length
        · exact Or.inl ⟨[], r, segs, rfl, by simpa using hpos, by simpa using hlt⟩
        · -- past the needle: the rest of the scan is asked
          obtain ⟨front', rfl, hcs⟩ : ∃ front', front = r.needle ++ front' ∧ cs = front' ++ back := by
            rcases List.append_eq_append_iff.1 htext with ⟨a, ha, hb⟩ | ⟨a, ha, hb⟩
            · exact ⟨a, ha, hb⟩
            · obtain rfl : a = [] := by
                rw [ha, List.length_append] at hlt
                exact List.length_eq_zero_iff.1 (by omega)
              exact ⟨[], by simpa using ha.symm, by simpa using hb.symm⟩
          rcases ih hcs with hinside | ⟨pre, post, rfl, rfl, hpost⟩
          · rw [List.length_append]
            exact Or.inl (hinside.cons (.substituted r))
          · exact Or.inr ⟨.substituted r :: pre, post, rfl, rfl, hpost⟩

/-- The scan stands behind the first segments at some time. -/
theorem of_append {pre post : List Segment} (h : Scan table text (pre ++ post)) :
    ∃ back, text = pre.flatMap Segment.before ++ back ∧ Scan table back post := by
  induction pre generalizing text with
  | nil => exact ⟨text, rfl, h⟩
  | cons seg pre ih =>
      rw [List.cons_append] at h
      cases h with
      | keep _ hrest =>
          obtain ⟨back, rfl, hback⟩ := ih hrest
          exact ⟨back, rfl, hback⟩
      | take _ _ hrest =>
          obtain ⟨back, rfl, hback⟩ := ih hrest
          exact ⟨back, by simp [Segment.before], hback⟩

/-- Where a needle begins, a scan takes a needle. -/
theorem exists_take (h : Scan table text segs) {r : Replacement} (hr : r ∈ table)
    (hquote : ∃ q ∈ quotes, r.needle.head? = some q) (hbegins : r.begins text = true) :
    ∃ s rest segs', s ∈ table ∧ s.begins text = true ∧ text = s.needle ++ rest ∧
      segs = .substituted s :: segs' ∧ Scan table rest segs' := by
  cases h with
  | done =>
      rw [Replacement.begins_iff, List.prefix_nil] at hbegins
      exact absurd hbegins.2 hbegins.1
  | @keep c _ _ hnone _ =>
      obtain ⟨q, hq, hhead⟩ := hquote
      obtain rfl : q = c := by
        have hp := (Replacement.begins_iff.1 hbegins).2
        obtain ⟨needle, hneedle⟩ := List.head?_eq_some_iff.1 hhead
        rw [hneedle] at hp
        exact (List.cons_prefix_cons.1 hp).1
      rw [hnone hq r hr] at hbegins
      cases hbegins
  | @take s rest segs' _ hfirst hrest =>
      have hs := List.find?_some hfirst
      exact ⟨s, rest, segs', List.mem_of_find?_eq_some hfirst, hs, rfl, rfl, hrest⟩

end Scan

@[simp] theorem flatMap_before_segments (table : List Replacement) (text : Text) :
    (segments table text).flatMap Segment.before = text := (scan_segments table text).before_eq

/-- A scan that takes nothing changes nothing. -/
theorem flatMap_after_of_countP_eq_zero {segs : List Segment}
    (h : segs.countP Segment.isSubstituted = 0) :
    segs.flatMap Segment.after = segs.flatMap Segment.before := by
  induction segs with
  | nil => rfl
  | cons seg segs ih =>
      cases seg with
      | kept c =>
          rw [List.countP_cons_of_neg (by simp [Segment.isSubstituted])] at h
          simp [Segment.before, Segment.after, ih h]
      | substituted r => simp [List.countP_cons, Segment.isSubstituted] at h

/-! ### Lines -/

theorem linesOf_of_notMem {body : Text} (h : '\n' ∉ body) (hne : body ≠ []) :
    linesOf body = [body] := by
  induction body with
  | nil => contradiction
  | cons c body ih =>
      rw [List.mem_cons, not_or] at h
      rw [linesOf, if_neg (Ne.symm h.1)]
      cases body with
      | nil => rfl
      | cons c' body => rw [ih h.2 (List.cons_ne_nil _ _)]

theorem linesOf_append_cons {body : Text} (h : '\n' ∉ body) (rest : Text) :
    linesOf (body ++ '\n' :: rest) = (body ++ ['\n']) :: linesOf rest := by
  induction body with
  | nil => rw [List.nil_append, linesOf, if_pos rfl, List.nil_append]
  | cons c body ih =>
      rw [List.mem_cons, not_or] at h
      rw [List.cons_append, linesOf, if_neg (Ne.symm h.1), ih h.2]
      rfl

/-- A text is one line without a line feed, or such a line, a line feed, and more text. -/
theorem line_induction {motive : Text → Prop} (last : ∀ body, '\n' ∉ body → motive body)
    (line : ∀ body rest, '\n' ∉ body → motive rest → motive (body ++ '\n' :: rest))
    (text : Text) : motive text := by
  generalize hn : text.length = n
  induction n using Nat.strongRecOn generalizing text with
  | ind n ih =>
      by_cases h : '\n' ∈ text
      · obtain ⟨body, rest, rfl, hbody⟩ := List.eq_append_cons_of_mem h
        refine line body rest hbody (ih rest.length ?_ rest rfl)
        simp only [List.length_append, List.length_cons] at hn
        omega
      · exact last text h

theorem flatten_linesOf (text : Text) : (linesOf text).flatten = text := by
  induction text using line_induction with
  | last body h =>
      by_cases hne : body = []
      · rw [hne]
        rfl
      · rw [linesOf_of_notMem h hne, List.flatten_singleton]
  | line body rest h ih =>
      rw [linesOf_append_cons h, List.flatten_cons, ih]
      simp

/-- Text without a line feed does not reach over one. -/
theorem prefix_append_lineFeed_iff {needle text rest : Text} (h : '\n' ∉ needle) :
    needle <+: text ++ '\n' :: rest ↔ needle <+: text := by
  refine ⟨fun hp => ?_, fun hp => hp.trans (List.prefix_append _ _)⟩
  rcases List.prefix_or_prefix_of_prefix hp (List.prefix_append text ('\n' :: rest)) with
    hpre | ⟨back, hback⟩
  · exact hpre
  · rw [← hback, List.prefix_append_right_inj] at hp
    cases back with
    | nil =>
        rw [List.append_nil] at hback
        exact hback ▸ List.prefix_rfl
    | cons c back =>
        refine absurd ?_ h
        rw [← hback, (List.cons_prefix_cons.1 hp).1]
        simp

/-! ### Editing line by line -/

namespace Replacement

/-- A replacement that keeps to one line: its needle does not end in a line feed, and it puts a
line feed only where there was one. -/
structure WithinLine (r : Replacement) : Prop where
  getLast?_needle : r.needle.getLast? ≠ some '\n'
  newText_ne_nil : r.newText ≠ []
  notMem_newText : '\n' ∉ r.needle → '\n' ∉ r.newText

/-- The scans of all lines of a text, one after another. -/
def scan (table : List Replacement) (content : Text) : List Segment :=
  (linesOf content).flatMap (segments table)

theorem apply_eq_scan (table : List Replacement) (content : Text) :
    apply table content = .ofSegments (scan table content) := rfl

/-- Reading the scans of all lines back gives the text. -/
theorem flatMap_before_scan (table : List Replacement) (content : Text) :
    (scan table content).flatMap Segment.before = content := by
  rw [scan, List.flatMap_assoc]
  simp only [flatMap_before_segments, List.flatMap_id', flatten_linesOf]

theorem mem_table_of_mem_scan {table : List Replacement} {content : Text} {r : Replacement}
    (h : .substituted r ∈ scan table content) : r ∈ table := by
  obtain ⟨line, -, hr⟩ := List.mem_flatMap.1 h
  exact (scan_segments table line).mem_table hr

/-- What becomes of one line. -/
def editLine (table : List Replacement) (line : Text) : Text :=
  (segments table line).flatMap Segment.after

theorem content_apply (table : List Replacement) (content : Text) :
    (apply table content).content = ((linesOf content).map (editLine table)).flatten := by
  simp only [apply, Edited.ofSegments, List.flatMap_def, List.map_flatten, List.flatten_flatten,
    List.map_map]
  rfl

theorem begins_append_lineFeed {r : Replacement} (h : r.needle.getLast? ≠ some '\n')
    (text : Text) : r.begins (text ++ ['\n']) = r.begins text := by
  rw [Bool.eq_iff_iff, begins_iff, begins_iff, List.prefix_concat_iff]
  refine and_congr_right fun _ => or_iff_right fun heq => h ?_
  simp [heq]

theorem begins_append_cons_lineFeed {r : Replacement} (h : '\n' ∉ r.needle) (text rest : Text) :
    r.begins (text ++ '\n' :: rest) = r.begins text := by
  rw [Bool.eq_iff_iff, begins_iff, begins_iff]
  exact and_congr_right fun _ => prefix_append_lineFeed_iff h

variable {table : List Replacement}

/-- **A line feed ends a scan** and is kept. -/
theorem segments_append_lineFeed (h : ∀ r ∈ table, r.needle.getLast? ≠ some '\n') (body : Text) :
    segments table (body ++ ['\n']) = segments table body ++ [.kept '\n'] :=
  ((scan_segments table body).append_lineFeed
    (fun r hr => begins_append_lineFeed (h r hr)) .done).eq_segments.symm

/-- In a line without its end only needles without line feeds can begin. -/
theorem segments_filter_lineFeed (table : List Replacement) {body : Text} (hbody : '\n' ∉ body) :
    segments (table.filter fun r => '\n' ∉ r.needle) body = segments table body := by
  have hbegins : ∀ {r : Replacement} {text : Text}, '\n' ∉ text → '\n' ∈ r.needle →
      r.begins text = false := by
    intro r text htext hr
    rw [Bool.eq_false_iff, ne_eq, begins_iff]
    rintro ⟨-, hfront⟩
    exact htext (hfront.subset hr)
  have hscan := scan_segments (table.filter fun r => '\n' ∉ r.needle) body
  refine Scan.eq_segments ?_
  generalize segments (table.filter fun r => '\n' ∉ r.needle) body = segs at hscan
  induction hscan with
  | done => exact .done
  | keep hnone _ ih =>
      refine .keep ?_ (ih fun hmem => hbody (List.mem_cons_of_mem _ hmem))
      intro hc r hr
      by_cases hlf : '\n' ∈ r.needle
      · exact hbegins hbody hlf
      · exact hnone hc r (List.mem_filter.2 ⟨hr, by simpa using hlf⟩)
  | @take r cs segs hq hfirst _ ih =>
      refine .take hq ?_ (ih fun hmem => hbody (List.mem_append_right _ hmem))
      -- what is filtered out does not begin here, so that the first needle is the same
      rw [← hfirst, List.find?_filter]
      refine List.find?_congr fun s _ => ?_
      by_cases hlf : '\n' ∈ s.needle
      · simp [hlf, hbegins hbody hlf]
      · simp [hlf]

/-- **Lines only keep needles with line feeds out.**  Apart from those, a text may as well be
scanned in one go. -/
theorem scan_eq_segments (h : ∀ r ∈ table, r.needle.getLast? ≠ some '\n') (content : Text) :
    scan table content = segments (table.filter fun r => '\n' ∉ r.needle) content := by
  induction content using line_induction with
  | last body hbody =>
      rw [scan, segments_filter_lineFeed table hbody]
      by_cases hne : body = []
      · subst hne
        rfl
      · rw [linesOf_of_notMem hbody hne, List.flatMap_singleton]
  | line body rest hbody ih =>
      rw [scan] at ih ⊢
      rw [linesOf_append_cons hbody, List.flatMap_cons, segments_append_lineFeed h, ih,
        ← segments_filter_lineFeed table hbody, List.append_assoc, List.singleton_append]
      refine ((scan_segments _ body).append_lineFeed ?_ (scan_segments _ rest)).eq_segments
      intro r hr text
      exact begins_append_cons_lineFeed (by simpa using (List.mem_filter.1 hr).2) text rest

theorem editLine_append_lineFeed (h : ∀ r ∈ table, r.needle.getLast? ≠ some '\n') (body : Text) :
    editLine table (body ++ ['\n']) = editLine table body ++ ['\n'] := by
  rw [editLine, segments_append_lineFeed h, List.flatMap_append]
  rfl

theorem notMem_editLine (h : ∀ r ∈ table, r.WithinLine) {body : Text} (hbody : '\n' ∉ body) :
    '\n' ∉ editLine table body := by
  intro hmem
  obtain ⟨seg, hseg, hin⟩ := List.mem_flatMap.1 hmem
  have hbefore : '\n' ∉ seg.before := by
    intro hb
    refine hbody ?_
    rw [← flatMap_before_segments table body]
    exact List.mem_flatMap.2 ⟨seg, hseg, hb⟩
  cases seg with
  | kept c => exact hbefore hin
  | substituted r =>
      exact (h r ((scan_segments table body).mem_table hseg)).notMem_newText hbefore hin

theorem editLine_ne_nil (h : ∀ r ∈ table, r.WithinLine) {body : Text} (hne : body ≠ []) :
    editLine table body ≠ [] := by
  intro hnil
  rw [editLine, List.flatMap_eq_nil_iff] at hnil
  have hsegs : segments table body ≠ [] := by
    intro hs
    refine hne ?_
    rw [← flatMap_before_segments table body, hs]
    rfl
  obtain ⟨seg, segs, hseg⟩ := List.exists_cons_of_ne_nil hsegs
  have hmem : seg ∈ segments table body := hseg ▸ List.mem_cons_self
  have hafter := hnil seg hmem
  cases seg with
  | kept c => exact List.cons_ne_nil _ _ hafter
  | substituted r =>
      exact (h r ((scan_segments table body).mem_table hmem)).newText_ne_nil hafter

/-- **The lines of an edited text are the edited lines.** -/
theorem linesOf_apply (h : ∀ r ∈ table, r.WithinLine) (content : Text) :
    linesOf (apply table content).content = (linesOf content).map (editLine table) := by
  have hlast : ∀ r ∈ table, r.needle.getLast? ≠ some '\n' := fun r hr => (h r hr).getLast?_needle
  induction content using line_induction with
  | last body hbody =>
      by_cases hne : body = []
      · subst hne
        rfl
      · rw [content_apply, linesOf_of_notMem hbody hne, List.map_singleton,
          List.flatten_singleton,
          linesOf_of_notMem (notMem_editLine h hbody) (editLine_ne_nil h hne)]
  | line body rest hbody ih =>
      rw [content_apply, linesOf_append_cons hbody, List.map_cons, List.flatten_cons,
        ← content_apply, editLine_append_lineFeed hlast, List.append_assoc,
        List.singleton_append, linesOf_append_cons (notMem_editLine h hbody), ih]

end Replacement

end DualModule

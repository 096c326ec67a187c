import DualModule.Proofs.Scan
import DualModule.Proofs.Table
import Mathlib.Data.List.Pairwise
import Mathlib.Data.Set.Basic
/-!
# Which occurrences are replaced

Editing is described here without scanning.  A needle occurs in a text at places, and of all
occurrences in lines a *greedy selection* is made: what is selected does not overlap, whatever is
not selected starts inside of something that is, and where several needles occur at one place the
first of the table is taken.  These conditions leave no choice (`GreedySelection.subset`), and a
scan meets them (`GreedySelection.of_scan`).  So editing substitutes the one greedy selection
(`Replacement.apply_eq_greedy`).

**From scans to selections.**  The segments of a scan, with their places counted, are a list of
occurrences (`occurrences`).  Every place of the text was met by the scan or is inside a needle
that was taken (`Scan.at_position`), which is why nothing is passed over.

**Lines.**  An occurrence lies in one line exactly if its needle has no line feed
(`Occurrence.inOneLine_iff`), because a needle ends in a quote and not in the end of a line.

## Main Definitions

* `Occurrence`, `Occurrence.StandsIn`, `Occurrence.InOneLine`
* `GreedySelection`
* `Occurrence.splice`
-/

namespace DualModule

/-- A replacement at a place of a text. -/
structure Occurrence where
  start : Nat
  replacement : Replacement
deriving DecidableEq

namespace Occurrence

/-- The place behind the needle. -/
def stop (o : Occurrence) : Nat := o.start + o.replacement.needle.length

/-- The needle stands at the place. -/
def StandsIn (o : Occurrence) (text : Text) : Prop := o.replacement.needle <+: text.drop o.start

/-- The needle begins and ends in one line of the text. -/
def InOneLine (o : Occurrence) (text : Text) : Prop :=
  ∃ front line back, linesOf text = front ++ line :: back ∧
    front.flatten.length ≤ o.start ∧ o.stop ≤ front.flatten.length + line.length

/-- The needle stands at the place, in one line. -/
def OccursIn (o : Occurrence) (text : Text) : Prop := o.StandsIn text ∧ o.InOneLine text

/-- Two occurrences have no character in common. -/
def Apart (o p : Occurrence) : Prop := o.stop ≤ p.start ∨ p.stop ≤ o.start

instance : Std.Symm Apart := ⟨fun _ _ => Or.symm⟩

/-- The text from `place` on with new texts for old ones, the first of which comes first. -/
def splice (place : Nat) : List Occurrence → Text → Text
  | [], text => text
  | o :: os, text =>
    text.take (o.start - place) ++ o.replacement.newText ++
      splice o.stop os (text.drop (o.stop - place))

end Occurrence

/-- A replacement whose needle begins with a quote and ends with another one. -/
def Replacement.Delimited (r : Replacement) : Prop :=
  (∃ q ∈ quotes, r.needle.head? = some q) ∧ (∃ q ∈ quotes, r.needle.getLast? = some q) ∧
    2 ≤ r.needle.length

-- there are two quotes to try, not all characters
instance (r : Replacement) : Decidable r.Delimited :=
  @instDecidableAnd _ _ (List.decidableBEx _ quotes)
    (@instDecidableAnd _ _ (List.decidableBEx _ quotes) (Nat.decLe _ _))

/-- What a greedy choice from the left selects of the occurrences in a text. -/
structure GreedySelection (table : List Replacement) (text : Text) (selected : Set Occurrence) :
    Prop where
  occurs : ∀ o ∈ selected, o.replacement ∈ table ∧ o.OccursIn text
  apart : ∀ o ∈ selected, ∀ p ∈ selected, o ≠ p → o.Apart p
  /-- an occurrence starts at or inside a selected one that starts no later -/
  covers : ∀ o : Occurrence, o.replacement ∈ table → o.OccursIn text →
    ∃ p ∈ selected, p.start ≤ o.start ∧ o.start < p.stop
  /-- no earlier replacement of the table occurs at the place -/
  first : ∀ o ∈ selected, ∃ earlier later, table = earlier ++ o.replacement :: later ∧
    ∀ r ∈ earlier, ¬ Occurrence.OccursIn ⟨o.start, r⟩ text

/-! ### Delimited needles -/

namespace Replacement

variable {r : Replacement}

theorem Delimited.needle_ne_nil (h : r.Delimited) : r.needle ≠ [] := by
  intro hnil
  have hlength := h.2.2
  simp [hnil] at hlength

theorem Delimited.getLast?_ne_lineFeed (h : r.Delimited) : r.needle.getLast? ≠ some '\n' := by
  obtain ⟨q, hq, hlast⟩ := h.2.1
  rw [hlast]
  rintro ⟨⟩
  exact absurd hq (by decide)

/-- **Tables are delimited**, whatever the mappings are. -/
theorem delimited_of_mem_table {directory : Path} {mappings : List Mapping}
    (h : r ∈ table directory mappings) : r.Delimited := by
  rw [table_eq] at h
  obtain ⟨m, -, hr⟩ := List.mem_flatMap.1 (mem_of_mem_keepFirst h)
  obtain ⟨q, hq, hr⟩ := List.mem_flatMap.1 hr
  obtain ⟨specifier, -, rfl⟩ := List.mem_map.1 hr
  exact ⟨⟨q, hq, rfl⟩, ⟨q, hq, getLast?_quoted q _⟩, by simp [quoted]⟩

end Replacement

/-! ### Lines -/

/-- A line feed can only be the last character of a line. -/
theorem exists_body_of_mem_linesOf {text line : Text} (h : line ∈ linesOf text) :
    ∃ body, '\n' ∉ body ∧ (line = body ∨ line = body ++ ['\n']) := by
  induction text using line_induction with
  | last body hbody =>
      by_cases hne : body = []
      · subst hne
        cases h
      · rw [linesOf_of_notMem hbody hne, List.mem_singleton] at h
        exact ⟨body, hbody, Or.inl h⟩
  | line body rest hbody ih =>
      rw [linesOf_append_cons hbody] at h
      rcases List.mem_cons.1 h with h | h
      · exact ⟨body, hbody, Or.inr h⟩
      · exact ih h

/-- Text without a line feed stands in one line.  The induction is on the lines up to its place. -/
theorem exists_line_of_prefix {needle text : Text} {start : Nat} (hne : needle ≠ [])
    (hline : '\n' ∉ needle) (h : needle <+: text.drop start) :
    ∃ front line back, linesOf text = front ++ line :: back ∧
      front.flatten.length ≤ start ∧ start + needle.length ≤ front.flatten.length + line.length := by
  have hpos := List.length_pos_iff.2 hne
  induction text using line_induction generalizing start with
  | last body hbody =>
      have hle := h.length_le
      rw [List.length_drop] at hle
      have hbodyne : body ≠ [] := by
        rintro rfl
        rw [List.length_nil] at hle
        omega
      refine ⟨[], body, [], linesOf_of_notMem hbody hbodyne, Nat.zero_le _, ?_⟩
      rw [List.flatten_nil, List.length_nil]
      omega
  | line body rest hbody ih =>
      by_cases hstart : start ≤ body.length
      · rw [List.drop_append_of_le_length hstart] at h
        have hle := ((prefix_append_lineFeed_iff hline).1 h).length_le
        rw [List.length_drop] at hle
        refine ⟨[], body ++ ['\n'], linesOf rest, linesOf_append_cons hbody rest, Nat.zero_le _, ?_⟩
        rw [List.flatten_nil, List.length_nil, List.length_append, List.length_singleton]
        omega
      · -- the place is in a later line
        obtain ⟨k, rfl⟩ := Nat.exists_eq_add_of_lt (Nat.lt_of_not_le hstart)
        have hdrop : (body ++ '\n' :: rest).drop (body.length + k + 1) = rest.drop k := by
          rw [Nat.add_assoc, ← List.drop_drop, List.drop_left, List.drop_succ_cons]
        rw [hdrop] at h
        obtain ⟨front, line, back, hlines, hfront, hstop⟩ := ih h
        refine ⟨(body ++ ['\n']) :: front, line, back, ?_, ?_, ?_⟩
        · rw [linesOf_append_cons hbody, hlines, List.cons_append]
        · simp only [List.flatten_cons, List.length_append, List.length_singleton]
          omega
        · simp only [List.flatten_cons, List.length_append, List.length_singleton]
          omega

namespace Occurrence

variable {o : Occurrence} {text : Text}

theorem start_lt_stop (h : o.replacement.Delimited) : o.start < o.stop := by
  have hlength := h.2.2
  rw [stop]
  omega

theorem standsIn_iff_begins (h : o.replacement.Delimited) :
    o.StandsIn text ↔ o.replacement.begins (text.drop o.start) = true := by
  rw [Replacement.begins_iff]
  exact (and_iff_right h.needle_ne_nil).symm

/-- What stands in one line has no line feed: it does not reach to the end of the line. -/
theorem InOneLine.notMem_needle (h : o.InOneLine text) (hstands : o.StandsIn text)
    (hdelimited : o.replacement.Delimited) : '\n' ∉ o.replacement.needle := by
  obtain ⟨front, line, back, hlines, hstart, hstop⟩ := h
  obtain ⟨k, hk⟩ := Nat.exists_eq_add_of_le hstart
  have hlength : o.replacement.needle.length ≤ (line.drop k).length := by
    rw [List.length_drop]
    rw [stop] at hstop
    omega
  have hkle : k ≤ line.length := by
    rw [stop] at hstop
    omega
  -- the needle stands in what is left of the line
  have hline : o.replacement.needle <+: line.drop k := by
    have hdrop : text.drop o.start = line.drop k ++ back.flatten := by
      rw [← flatten_linesOf text, hlines, List.flatten_append, List.flatten_cons, hk,
        ← List.drop_drop, List.drop_left, List.drop_append_of_le_length hkle]
    rw [StandsIn, hdrop] at hstands
    exact List.prefix_of_prefix_length_le hstands (List.prefix_append _ _) hlength
  obtain ⟨body, hbody, hend⟩ := exists_body_of_mem_linesOf
    (hlines ▸ List.mem_append_right front (List.mem_cons_self (l := back)))
  have hfront : o.replacement.needle <+: body.drop k := by
    rcases hend with rfl | rfl
    · exact hline
    · by_cases hle : k ≤ body.length
      · rw [List.drop_append_of_le_length hle, List.prefix_concat_iff] at hline
        refine hline.resolve_left fun heq => hdelimited.getLast?_ne_lineFeed ?_
        rw [heq, List.getLast?_concat]
      · rw [List.drop_eq_nil_of_le (by rw [List.length_append, List.length_singleton]; omega),
          List.prefix_nil] at hline
        exact absurd hline hdelimited.needle_ne_nil
  exact fun hmem => hbody (List.mem_of_mem_drop (hfront.subset hmem))

/-- What has no line feed stands in one line. -/
theorem inOneLine_of_notMem (hstands : o.StandsIn text) (hdelimited : o.replacement.Delimited)
    (hline : '\n' ∉ o.replacement.needle) : o.InOneLine text :=
  exists_line_of_prefix hdelimited.needle_ne_nil hline hstands

/-- **Lines only rule out needles with line feeds.** -/
theorem inOneLine_iff (hstands : o.StandsIn text) (hdelimited : o.replacement.Delimited) :
    o.InOneLine text ↔ '\n' ∉ o.replacement.needle :=
  ⟨fun h => h.notMem_needle hstands hdelimited, inOneLine_of_notMem hstands hdelimited⟩

/-- Occurrences in lines are what may begin in a scan of the whole text. -/
theorem occursIn_iff (hdelimited : o.replacement.Delimited) :
    o.OccursIn text ↔
      '\n' ∉ o.replacement.needle ∧ o.replacement.begins (text.drop o.start) = true := by
  rw [← standsIn_iff_begins hdelimited, OccursIn, and_comm]
  exact and_congr_left fun hstands => inOneLine_iff hstands hdelimited

end Occurrence

/-! ### The occurrences of a scan -/

/-- The needles that were taken, with places counted from `place`. -/
def occurrences (place : Nat) : List Segment → List Occurrence
  | [] => []
  | .kept _ :: segs => occurrences (place + 1) segs
  | .substituted r :: segs => ⟨place, r⟩ :: occurrences (place + r.needle.length) segs

theorem mem_occurrences_iff {place : Nat} {segs : List Segment} {o : Occurrence} :
    o ∈ occurrences place segs ↔ ∃ pre post, segs = pre ++ .substituted o.replacement :: post ∧
      o.start = place + (pre.flatMap Segment.before).length := by
  induction segs generalizing place with
  | nil => simp [occurrences]
  | cons seg segs ih =>
      have hrest : (∃ pre post, seg :: segs = pre ++ .substituted o.replacement :: post ∧
            o.start = place + (pre.flatMap Segment.before).length) ↔
          seg = .substituted o.replacement ∧ o.start = place ∨
            ∃ pre post, segs = pre ++ .substituted o.replacement :: post ∧
              o.start = place + seg.before.length + (pre.flatMap Segment.before).length := by
        constructor
        · rintro ⟨pre, post, hsegs, hstart⟩
          cases pre with
          | nil => exact Or.inl ⟨(List.cons.inj hsegs).1, hstart⟩
          | cons _ pre =>
              obtain ⟨rfl, htail⟩ := List.cons.inj hsegs
              refine Or.inr ⟨pre, post, htail, ?_⟩
              rw [hstart, List.flatMap_cons, List.length_append, Nat.add_assoc]
        · rintro (⟨rfl, hstart⟩ | ⟨pre, post, rfl, hstart⟩)
          · exact ⟨[], segs, rfl, hstart⟩
          · refine ⟨seg :: pre, post, rfl, ?_⟩
            rw [hstart, List.flatMap_cons, List.length_append, Nat.add_assoc]
      rw [hrest]
      cases seg with
      | kept c => simp [occurrences, ih, Segment.before]
      | substituted r =>
          rw [occurrences, List.mem_cons, ih, Segment.before]
          refine or_congr_left ?_
          obtain ⟨start, s⟩ := o
          simp [and_comm, eq_comm]

theorem le_start_of_mem {place : Nat} {segs : List Segment} {o : Occurrence}
    (h : o ∈ occurrences place segs) : place ≤ o.start := by
  obtain ⟨pre, -, -, hstart⟩ := mem_occurrences_iff.1 h
  exact hstart ▸ Nat.le_add_right _ _

/-- What a scan takes stands one behind the other. -/
theorem occurrences_pairwise (place : Nat) (segs : List Segment) :
    (occurrences place segs).Pairwise fun o p => o.stop ≤ p.start := by
  induction segs generalizing place with
  | nil => exact .nil
  | cons seg segs ih =>
      cases seg with
      | kept c => exact ih _
      | substituted r => exact .cons (fun o ho => le_start_of_mem ho) (ih _)

theorem length_occurrences (place : Nat) (segs : List Segment) :
    (occurrences place segs).length = segs.countP Segment.isSubstituted := by
  induction segs generalizing place with
  | nil => rfl
  | cons seg segs ih =>
      cases seg with
      | kept c => rw [occurrences, ih, List.countP_cons_of_neg (by simp [Segment.isSubstituted])]
      | substituted r =>
          rw [occurrences, List.length_cons, ih, List.countP_cons_of_pos (by rfl)]

namespace Occurrence

/-- A character before all occurrences stays where it is. -/
theorem splice_cons {place : Nat} {os : List Occurrence} (h : ∀ o ∈ os, place + 1 ≤ o.start)
    (c : Char) (text : Text) : splice place os (c :: text) = c :: splice (place + 1) os text := by
  cases os with
  | nil => rfl
  | cons o os =>
      have hstart : o.start - place = o.start - (place + 1) + 1 := by
        have := h o List.mem_cons_self
        omega
      have hstop : o.stop - place = o.stop - (place + 1) + 1 := by
        have := h o List.mem_cons_self
        have : o.start ≤ o.stop := Nat.le_add_right _ _
        omega
      simp [splice, hstart, hstop]

/-- **The new texts of a scan** are those of its occurrences. -/
theorem splice_occurrences (place : Nat) (segs : List Segment) :
    splice place (occurrences place segs) (segs.flatMap Segment.before) =
      segs.flatMap Segment.after := by
  induction segs generalizing place with
  | nil => rfl
  | cons seg segs ih =>
      cases seg with
      | kept c =>
          rw [occurrences, List.flatMap_cons, List.flatMap_cons, Segment.before, Segment.after,
            List.singleton_append, splice_cons fun o ho => le_start_of_mem ho, ih,
            List.singleton_append]
      | substituted r => simp [occurrences, splice, stop, Segment.before, Segment.after, ih]

end Occurrence

/-! ### The one selection -/

namespace GreedySelection

variable {table : List Replacement} {text : Text} {S T : Set Occurrence} {o : Occurrence}

/-- **The occurrences of a scan** are a greedy selection.  Needles with line feeds do not take
part. -/
theorem of_scan (htable : ∀ r ∈ table, r.Delimited) {segs : List Segment}
    (hscan : Scan (table.filter fun r => '\n' ∉ r.needle) text segs) :
    GreedySelection table text {o | o ∈ occurrences 0 segs} := by
  have htaken : ∀ o ∈ occurrences 0 segs,
      (table.filter fun r => '\n' ∉ r.needle).find? (·.begins (text.drop o.start)) =
        some o.replacement := by
    intro o ho
    obtain ⟨pre, post, rfl, hstart⟩ := mem_occurrences_iff.1 ho
    obtain ⟨back, rfl, hback⟩ := hscan.of_append
    rw [hstart, Nat.zero_add, List.drop_left]
    cases hback with
    | take _ hfirst _ => exact hfirst
  constructor
  · intro o ho
    have hfind := htaken o ho
    obtain ⟨hmem, hline⟩ := List.mem_filter.1 (List.mem_of_find?_eq_some hfind)
    refine ⟨hmem, (Occurrence.occursIn_iff (htable _ hmem)).2 ⟨by simpa using hline, ?_⟩⟩
    simpa using List.find?_some hfind
  · intro o ho p hp hne
    have hapart : (occurrences 0 segs).Pairwise Occurrence.Apart :=
      (occurrences_pairwise 0 segs).imp fun h => Or.inl h
    exact hapart.forall ho hp hne
  · intro o hmem hoccurs
    obtain ⟨hline, hbegins⟩ := (Occurrence.occursIn_iff (htable _ hmem)).1 hoccurs
    have hlength : (text.take o.start).length = o.start := by
      have hle := (Replacement.begins_iff.1 hbegins).2.length_le
      have hpos := List.length_pos_iff.2 (htable _ hmem).needle_ne_nil
      rw [List.length_drop] at hle
      rw [List.length_take]
      omega
    rcases hscan.at_position (List.take_append_drop o.start text).symm with
      ⟨pre, r, post, rfl, hlt, hlt'⟩ | ⟨pre, post, rfl, hpre, hpost⟩
    · rw [hlength] at hlt hlt'
      refine ⟨⟨_, r⟩, mem_occurrences_iff.2 ⟨pre, post, rfl, (Nat.zero_add _).symm⟩, ?_, ?_⟩
      · exact Nat.le_of_lt hlt
      · exact hlt'
    · -- the scan stood here, and took a needle
      have hmem' : o.replacement ∈ table.filter fun r => '\n' ∉ r.needle :=
        List.mem_filter.2 ⟨hmem, by simpa using hline⟩
      obtain ⟨s, rest, post', hs, -, -, rfl, -⟩ := hpost.exists_take hmem' (htable _ hmem).1 hbegins
      refine ⟨⟨o.start, s⟩, mem_occurrences_iff.2 ⟨pre, post', rfl, ?_⟩, le_rfl, ?_⟩
      · rw [hpre, hlength, Nat.zero_add]
      · have hdelimited := htable s (List.mem_filter.1 hs).1
        exact Occurrence.start_lt_stop (o := ⟨o.start, s⟩) hdelimited
  · intro o ho
    have hfind := htaken o ho
    rw [List.find?_filter, List.find?_eq_some_iff_append] at hfind
    obtain ⟨-, earlier, later, heq, hearlier⟩ := hfind
    refine ⟨earlier, later, heq, fun r hr hoccurs => ?_⟩
    have hdelimited := htable r (heq ▸ List.mem_append_left _ hr)
    obtain ⟨hline, hbegins⟩ := (Occurrence.occursIn_iff hdelimited).1 hoccurs
    simpa [hline, hbegins] using hearlier r hr

/-- At one place the same replacement is selected. -/
theorem replacement_eq (hS : GreedySelection table text S) (hT : GreedySelection table text T)
    {p : Occurrence} (ho : o ∈ S) (hp : p ∈ T) (hstart : p.start = o.start) : p = o := by
  classical
  have hfind : ∀ {U : Set Occurrence} {u : Occurrence}, GreedySelection table text U → u ∈ U →
      table.find? (fun r => decide (Occurrence.OccursIn ⟨u.start, r⟩ text)) =
        some u.replacement := by
    intro U u hU hu
    obtain ⟨earlier, later, heq, hearlier⟩ := hU.first u hu
    refine List.find?_eq_some_iff_append.2 ⟨by simpa using (hU.occurs u hu).2, earlier, later, heq, ?_⟩
    simpa using hearlier
  have hsame := hfind hT hp
  rw [hstart, hfind hS ho] at hsame
  cases o
  cases p
  simp_all

/-- **The step to the right**: selections that agree before a place agree at the place. -/
theorem mem_of_agree (htable : ∀ r ∈ table, r.Delimited) (hS : GreedySelection table text S)
    (hT : GreedySelection table text T)
    (hagree : ∀ p : Occurrence, p.start < o.start → (p ∈ S ↔ p ∈ T)) (ho : o ∈ S) : o ∈ T := by
  obtain ⟨hmem, hoccurs⟩ := hS.occurs o ho
  obtain ⟨p, hp, hle, hlt⟩ := hT.covers o hmem hoccurs
  rcases Nat.lt_or_eq_of_le hle with hbefore | hstart
  · -- then `p` is selected on both sides, and `o` overlaps it
    have hne : p ≠ o := by
      rintro rfl
      exact Nat.lt_irrefl _ hbefore
    have hstop := Occurrence.start_lt_stop (htable _ hmem)
    rcases hS.apart p ((hagree p hbefore).2 hp) o ho hne with h | h <;> omega
  · exact replacement_eq hS hT ho hp hstart ▸ hp

/-- **There is one greedy selection**: by the step, place by place. -/
theorem unique (htable : ∀ r ∈ table, r.Delimited) (hS : GreedySelection table text S)
    (hT : GreedySelection table text T) : S = T := by
  ext o
  generalize hplace : o.start = place
  induction place using Nat.strongRecOn generalizing o with
  | ind place ih =>
      subst hplace
      have hagree : ∀ p : Occurrence, p.start < o.start → (p ∈ S ↔ p ∈ T) :=
        fun p hp => ih p.start hp p rfl
      exact ⟨mem_of_agree htable hS hT hagree,
        mem_of_agree htable hT hS fun p hp => (hagree p hp).symm⟩

end GreedySelection

namespace Replacement

/-- **Editing substitutes the greedy selection.**  The needles of tables are delimited; and for any
list of replacements with delimited needles and any content, there is exactly one greedy selection
of occurrences in lines, the edited content is the content with these substituted, and the count is
their number.  Lines only keep out needles with line feeds: what is left of the list may as well be
scanned for in the whole content. -/
theorem apply_eq_greedy :
    (∀ directory mappings, ∀ r ∈ table directory mappings, r.Delimited) ∧
    ∀ table : List Replacement, (∀ r ∈ table, r.Delimited) → ∀ content,
      (∃ selected : List Occurrence, selected.Pairwise (fun o p => o.start < p.start) ∧
        (∀ S, GreedySelection table content S ↔ S = {o | o ∈ selected}) ∧
        apply table content = ⟨Occurrence.splice 0 selected content, selected.length⟩) ∧
      (∀ o : Occurrence, o.replacement ∈ table → o.StandsIn content →
        (o.InOneLine content ↔ '\n' ∉ o.replacement.needle)) ∧
      apply table content =
        .ofSegments (segments (table.filter fun r => '\n' ∉ r.needle) content) := by
  refine ⟨fun _ _ _ => delimited_of_mem_table, fun table htable content => ?_⟩
  have happly : apply table content =
      .ofSegments (segments (table.filter fun r => '\n' ∉ r.needle) content) := by
    rw [apply_eq_scan, scan_eq_segments fun r hr => (htable r hr).getLast?_ne_lineFeed]
  obtain ⟨segs, hsegs⟩ : ∃ segs, segments (table.filter fun r => '\n' ∉ r.needle) content = segs :=
    ⟨_, rfl⟩
  have hscan := scan_segments (table.filter fun r => '\n' ∉ r.needle) content
  rw [hsegs] at happly hscan ⊢
  have hgreedy := GreedySelection.of_scan htable hscan
  refine ⟨⟨occurrences 0 segs, ?_, fun S => ⟨fun hS => ?_, ?_⟩, ?_⟩, ?_, happly⟩
  · refine (occurrences_pairwise 0 _).imp_of_mem fun ho _ hle => ?_
    exact Nat.lt_of_lt_of_le (Occurrence.start_lt_stop (htable _ (hgreedy.occurs _ ho).1)) hle
  · exact hS.unique htable hgreedy
  · rintro rfl
    exact hgreedy
  · have hsplice := Occurrence.splice_occurrences 0 segs
    rw [hscan.before_eq] at hsplice
    rw [happly, Edited.ofSegments, hsplice, length_occurrences]
  · exact fun o hmem hstands => Occurrence.inOneLine_iff hstands (htable _ hmem)

/-- Needles that are the front of another one, that share a quote, or that reach over the end of a
line: the earlier in the table is taken first, the quote is used once, and the lines stay apart. -/
theorem overlapping_needles_selected :
    let table : List Replacement := [⟨"'a'\n'".toList, "'0'".toList⟩, ⟨"'a'".toList, "'1'".toList⟩,
      ⟨"'a'b'".toList, "'2'".toList⟩, ⟨"'b'".toList, "'3'".toList⟩]
    let content := "'a'b'\n'a'\n'b'".toList
    (∀ r ∈ table, r.Delimited) ∧
    apply table content = ⟨"'1'b'\n'1'\n'3'".toList, 3⟩ ∧
    (∃ selected : List Occurrence, selected.Pairwise (fun o p => o.start < p.start) ∧
      (∀ S, GreedySelection table content S ↔ S = {o | o ∈ selected}) ∧
      apply table content = ⟨Occurrence.splice 0 selected content, selected.length⟩) ∧
    (∀ o : Occurrence, o.replacement ∈ table → o.StandsIn content →
      (o.InOneLine content ↔ '\n' ∉ o.replacement.needle)) ∧
    apply table content =
      .ofSegments (segments (table.filter fun r => '\n' ∉ r.needle) content) :=
  ⟨by decide, by decide, apply_eq_greedy.2 _ (by decide) _⟩

end Replacement

end DualModule

import DualModule.Proofs.Lookup
/-!
# Paths that go down

A path made of names, with one at its end, goes down only.  It may still lead anywhere, since any
of its names may be that of a link.  What it names is found in two parts: all names but the last
lead to a directory, and the last one is looked for there (`Path.Descends.locate_eq_ok_iff`,
`Path.Descends.exists_spot_eq`).

**Steps behind others.**  If steps lead to a directory, further steps are taken from there, with as
many links as are left (`exists_resolve_append`).  If steps lead somewhere, so do the first of them
(`exists_of_resolve_append`).

**Parts of trees.**  What leads to an entry of a tree leads to the same entry in every tree that it
is a part of (`PartOf.resolve_eq`).  Taking something away leaves a part, and making something where
nothing was makes a tree that the old one is a part of.

## Main Definitions

* `Path.Descends`
* `Progress.Leads`
* `FileTree.PartOf`
-/

namespace DualModule

/-! ### Parents -/

namespace Path

/-- The path is made of names only, and a name ends it. -/
structure Descends (p : Path) : Prop where
  ne_nil : p.bytes ≠ []
  stay_notMem : .stay ∉ p.steps
  up_notMem : .up ∉ p.steps
  ends : p.endsInSlash = false

/-- What stands between separators in such a path. -/
def IsBlankOrName (piece : Bytes) : Prop := piece = [] ∨ ∃ n : FileName, piece = n.bytes

namespace Descends

variable {p : Path}

theorem lead?_ne_current (h : p.Descends) : p.lead? ≠ some .current := by
  intro hlead
  obtain ⟨bytes⟩ := p
  cases bytes with
  | nil => cases hlead
  | cons b rest =>
      by_cases hb : b = slash
      · simp [lead?, hb] at hlead
      · -- a `.` in front is a piece of its own
        obtain ⟨rfl, hrest⟩ : b = dot ∧ (rest = [] ∨ rest.head? = some slash) := by
          by_cases hc : b = dot ∧ (rest = [] ∨ rest.head? = some slash)
          · exact hc
          · simp only [lead?, if_neg hb, if_neg hc] at hlead
            cases hlead
        refine h.stay_notMem ?_
        rcases hrest with rfl | hrest
        · decide
        · obtain ⟨rest, rfl⟩ := List.head?_eq_some_iff.1 hrest
          have hpieces : pieces slash (dot :: slash :: rest) =
              pieces slash [dot] ++ pieces slash rest := pieces_append_cons [dot] rest
          rw [steps, hpieces]
          exact List.mem_filterMap.2 ⟨[dot], List.mem_append_left _ (by decide), rfl⟩

/-- At the front there is a separator or nothing. -/
theorem front_cases (h : p.Descends) : p.front = [] ∨ p.front = [slash] := by
  rcases p.lead?_cases with hlead | ⟨c, rfl | rfl, hlead, -⟩
  · exact Or.inl (by rw [front, hlead]; rfl)
  · exact Or.inr (by rw [front, hlead]; rfl)
  · exact absurd hlead h.lead?_ne_current

end Descends

theorem steps_front_append {front : Bytes} (h : front = [] ∨ front = [slash]) (bytes : Bytes) :
    steps ⟨front ++ bytes⟩ = (pieces slash bytes).filterMap Step.ofPiece? := by
  rcases h with rfl | rfl
  · rfl
  · have hpieces : pieces slash (slash :: bytes) = pieces slash [] ++ pieces slash bytes :=
      pieces_append_cons [] bytes
    rw [steps, List.singleton_append, hpieces]
    rfl

/-- Blank pieces are dropped until there is a name, and ask for nothing. -/
theorem dropSilent_cases {reversed : List Bytes} (h : ∀ piece ∈ reversed, IsBlankOrName piece) :
    (dropSilent reversed = [] ∨ ∃ (n : FileName) (before : List Bytes),
      dropSilent reversed = n.bytes :: before) ∧
      (dropSilent reversed).reverse.filterMap Step.ofPiece? =
        reversed.reverse.filterMap Step.ofPiece? := by
  induction reversed with
  | nil => exact ⟨Or.inl rfl, rfl⟩
  | cons piece reversed ih =>
      obtain ⟨hpiece, hreversed⟩ := List.forall_mem_cons.1 h
      rcases hpiece with rfl | ⟨n, rfl⟩
      · have hdrop : dropSilent ([] :: reversed) = dropSilent reversed :=
          List.dropWhile_cons_of_pos rfl
        rw [hdrop]
        exact ⟨(ih hreversed).1, (ih hreversed).2.trans (by simp)⟩
      · have hdrop : dropSilent (n.bytes :: reversed) = n.bytes :: reversed :=
          List.dropWhile_cons_of_neg (by simp)
        rw [hdrop]
        exact ⟨Or.inr ⟨n, reversed, rfl⟩, rfl⟩

theorem isAbsolute_iff_lead? {p : Path} : p.isAbsolute = true ↔ p.lead? = some .root := by
  constructor
  · exact lead?_of_isAbsolute
  · intro hlead
    rcases p.lead?_cases with hnone | ⟨c, -, hsome, hbytes⟩
    · cases hnone.symm.trans hlead
    · obtain rfl := Option.some.inj (hsome.symm.trans hlead)
      exact isAbsolute_iff.2 ⟨p.bytes.tail, congrArg Path.mk hbytes.symm⟩

theorem suffix_joinPieces (ps : List Bytes) (bytes : Bytes) :
    bytes <:+ joinPieces slash (ps ++ [bytes]) := by
  by_cases hps : ps = []
  · simp [hps, joinPieces]
  · refine ⟨joinPieces slash ps ++ [slash], ?_⟩
    rw [joinPieces_append hps (List.cons_ne_nil _ _), List.append_assoc]
    simp [joinPieces]

namespace Descends

variable {p : Path}

theorem steps_eq (h : p.Descends) : p.steps = (pieces slash p.body).filterMap Step.ofPiece? := by
  rw [← steps_front_append h.front_cases, front_append_body]

theorem isBlankOrName (h : p.Descends) {piece : Bytes} (hpiece : piece ∈ pieces slash p.body) :
    IsBlankOrName piece := by
  have hstep : ∀ step, Step.ofPiece? piece = some step → step ∈ p.steps := by
    intro step hs
    rw [h.steps_eq]
    exact List.mem_filterMap.2 ⟨piece, hpiece, hs⟩
  by_cases hproper : FileName.Proper piece
  · exact Or.inr ⟨⟨piece, hproper⟩, rfl⟩
  · by_cases hnil : piece = []
    · exact Or.inl hnil
    · -- what is neither blank nor a name is `.` or `..`
      by_cases hdot : piece = [dot]
      · exact absurd (hstep _ (hdot ▸ rfl)) h.stay_notMem
      · by_cases hdots : piece = [dot, dot]
        · exact absurd (hstep _ (hdots ▸ rfl)) h.up_notMem
        · exact absurd ⟨hnil, notMem_of_mem_pieces hpiece, hdot, hdots⟩ hproper

/-- The last piece is a name. -/
theorem exists_pieces (h : p.Descends) :
    ∃ (before : List Bytes) (n : FileName), pieces slash p.body = before ++ [n.bytes] := by
  obtain ⟨before, last, hlast⟩ :=
    (List.eq_nil_or_concat (pieces slash p.body)).resolve_left (pieces_ne_nil _)
  rw [List.concat_eq_append] at hlast
  have hmem : last ∈ pieces slash p.body := by simp [hlast]
  rcases h.isBlankOrName hmem with rfl | ⟨n, rfl⟩
  · -- a blank piece at the end is a separator at the end
    exfalso
    have hbytes : p.bytes = p.front ++ joinPieces slash (before ++ [[]]) := by
      rw [← hlast, joinPieces_pieces, front_append_body]
    have hends := h.ends
    by_cases hbefore : before = []
    · have hfront : p.bytes = p.front := by simpa [hbefore, joinPieces] using hbytes
      rcases h.front_cases with hnil | hslash
      · exact h.ne_nil (hfront.trans hnil)
      · simp [endsInSlash, hfront, hslash] at hends
    · have hback : p.bytes = p.front ++ joinPieces slash before ++ [slash] := by
        rw [hbytes, joinPieces_append hbefore (List.cons_ne_nil _ _), List.append_assoc]
        rfl
      simp [endsInSlash, hback] at hends
  · exact ⟨before, n, hlast⟩

/-- What is left of the pieces for the parent: those before the last name, without blank ones at
their end. -/
theorem exists_kept (h : p.Descends) :
    ∃ (kept behind : List Bytes) (n : FileName),
      p.parent? = some ⟨p.front ++ joinPieces slash kept⟩ ∧
      pieces slash p.body = kept ++ behind ∧ behind ≠ [] ∧
      p.steps = kept.filterMap Step.ofPiece? ++ [.down n] ∧
      (kept = [] ∨ ∃ (others : List Bytes) (m : FileName), kept = others ++ [m.bytes]) := by
  obtain ⟨before, n, hpieces⟩ := h.exists_pieces
  have hblank : ∀ piece ∈ before.reverse, IsBlankOrName piece := by
    intro piece hpiece
    refine h.isBlankOrName ?_
    rw [hpieces]
    exact List.mem_append_left _ (List.mem_reverse.1 hpiece)
  obtain ⟨hkept, hsteps⟩ := dropSilent_cases hblank
  obtain ⟨silent, hsilent⟩ : dropSilent before.reverse <:+ before.reverse :=
    List.dropWhile_suffix _
  refine ⟨(dropSilent before.reverse).reverse, silent.reverse ++ [n.bytes], n, ?_, ?_, by simp, ?_,
    ?_⟩
  · have hdrop : dropSilent (pieces slash p.body).reverse = n.bytes :: before.reverse := by
      rw [hpieces, List.reverse_append]
      exact List.dropWhile_cons_of_neg (by simp)
    rw [parent?, hdrop]
    rfl
  · rw [hpieces, ← List.append_assoc, ← List.reverse_append, hsilent, List.reverse_reverse]
  · rw [hsteps, List.reverse_reverse, h.steps_eq, hpieces, List.filterMap_append]
    simp
  · refine hkept.imp (fun hnil => by rw [hnil, List.reverse_nil]) ?_
    rintro ⟨m, others, hcons⟩
    exact ⟨others.reverse, m, by rw [hcons, List.reverse_cons]⟩

/-- **The parent of a path that goes down** has all its steps but the last.  It goes down, too, if
it has any. -/
theorem exists_parent? (h : p.Descends) :
    ∃ (q : Path) (n : FileName), p.parent? = some q ∧ p.steps = q.steps ++ [.down n] ∧
      q.isAbsolute = p.isAbsolute ∧ (q = ⟨[]⟩ ∨ q = ⟨[slash]⟩ ∨ q.Descends) := by
  obtain ⟨kept, behind, n, hparent, hpieces, hbehind, hsteps, hkept⟩ := h.exists_kept
  have hslash : ∀ piece ∈ kept, slash ∉ piece := by
    intro piece hpiece
    exact notMem_of_mem_pieces (hpieces ▸ List.mem_append_left _ hpiece)
  have hqsteps : steps ⟨p.front ++ joinPieces slash kept⟩ = kept.filterMap Step.ofPiece? := by
    rw [steps_front_append h.front_cases]
    by_cases hnil : kept = []
    · rw [hnil]
      rfl
    · rw [pieces_joinPieces hnil hslash]
  have habsolute : isAbsolute ⟨p.front ++ joinPieces slash kept⟩ = p.isAbsolute := by
    rw [Bool.eq_iff_iff, isAbsolute_iff_lead?, isAbsolute_iff_lead?,
      lead?_front_append hpieces hbehind]
  refine ⟨_, n, hparent, by rw [hsteps, hqsteps], habsolute, ?_⟩
  rcases hkept with rfl | ⟨others, m, rfl⟩
  · rcases h.front_cases with hfront | hfront
    · exact Or.inl (by rw [hfront]; rfl)
    · exact Or.inr (Or.inl (by rw [hfront]; rfl))
  · have hsuffix : m.bytes <:+ p.front ++ joinPieces slash (others ++ [m.bytes]) :=
      (suffix_joinPieces others m.bytes).trans (List.suffix_append _ _)
    have hmem : ∀ step ∈ steps ⟨p.front ++ joinPieces slash (others ++ [m.bytes])⟩,
        step ∈ p.steps := by
      intro step hstep
      rw [hsteps, ← hqsteps]
      exact List.mem_append_left _ hstep
    refine Or.inr (Or.inr ⟨?_, ?_, ?_, endsInSlash_of_suffix hsuffix⟩)
    · intro hnil
      exact m.proper.1 (List.eq_nil_of_suffix_nil (hnil ▸ hsuffix))
    · exact fun hstay => h.stay_notMem (hmem _ hstay)
    · exact fun hup => h.up_notMem (hmem _ hup)

end Descends

end Path

/-- Reading steps got to an entry, or to a link to be followed. -/
def Progress.Leads : Progress → Prop
  | .arrived _ => True
  | .redirected _ _ _ => True
  | .vacant _ _ => False
  | .refused _ => False

namespace FileTree

variable {t u : FileTree} {here : Location} {follow : Bool} {n : FileName} {d l k : Location}
variable {p : Path}

/-! ### Parts of trees -/

/-- Every entry of the first tree is an entry of the second. -/
def PartOf (u t : FileTree) : Prop := ∀ l node, u.get? l = some node → t.get? l = some node

theorem PartOf.advance_eq (h : u.PartOf t) {steps : List Step}
    (hleads : Progress.Leads (u.advance follow d steps)) :
    t.advance follow d steps = u.advance follow d steps := by
  induction steps generalizing d with
  | nil => rfl
  | cons s steps ih =>
      cases s with
      | stay => exact ih hleads
      | up => exact ih hleads
      | down n =>
          by_cases hn : maxNameLength < n.bytes.length
          · rw [advance, if_pos hn] at hleads
            exact hleads.elim
          · rw [advance_down hn] at hleads ⊢
            rw [advance_down hn]
            cases hnode : u.get? (n :: d) with
            | none =>
                simp only [hnode] at hleads
                split at hleads <;> exact hleads.elim
            | some node =>
                rw [h _ _ hnode]
                cases node with
                | directory =>
                    simp only [hnode] at hleads
                    exact ih hleads
                | file content executable => rfl
                | link target => rfl

/-- **What leads to an entry** of a part leads to the same entry of the whole. -/
theorem PartOf.resolve_eq (h : u.PartOf t) {budget : Nat} {steps : List Step}
    (hresolve : u.resolve follow budget d steps = .ok (.taken l)) :
    t.resolve follow budget d steps = .ok (.taken l) := by
  -- on how many links may still be followed
  induction budget using Nat.strongRecOn generalizing d steps with
  | ind budget ih =>
      rcases resolve_taken hresolve with hp | ⟨budget, e, target, rest, rfl, hp, hrest⟩
      · rw [resolve, h.advance_eq (by rw [hp]; trivial), hp]
      · rw [resolve, h.advance_eq (by rw [hp]; trivial), hp]
        exact ih budget (Nat.lt_succ_self budget) hrest

/-- Below what is not there, there is nothing. -/
theorem get?_eq_none_of_suffix (h : t.get? d = none) (hl : d <:+ l) : t.get? l = none := by
  cases hnode : t.get? l with
  | none => rfl
  | some node =>
      by_cases hdl : d = l
      · cases (hdl ▸ h).symm.trans hnode
      · cases h.symm.trans (directory_of_below hnode ⟨hl, hdl⟩)

/-! ### Steps behind others -/

/-- Goes on behind steps that lead to a directory or to a link. -/
def goOn (t : FileTree) (follow : Bool) (rest : List Step) : Progress → Progress
  | .arrived d => t.advance follow d rest
  | .redirected e target behind => .redirected e target (behind ++ rest)
  | .vacant _ _ => .refused .noEntry
  | .refused cause => .refused cause

/-- Further steps are taken where the first ones lead; if these lead nowhere, all are refused. -/
theorem advance_append_cases {front rest : List Step} (hrest : rest ≠ []) :
    t.advance follow d (front ++ rest) = t.goOn follow rest (t.advance true d front) ∨
      (∃ cause, t.advance follow d (front ++ rest) = .refused cause) ∧
        ¬ t.OnTheWay (t.advance true d front) := by
  induction front generalizing d with
  | nil => exact Or.inl rfl
  | cons s front ih =>
      cases s with
      | stay => exact ih
      | up => exact ih
      | down n =>
          have hne : (front ++ rest).isEmpty = false := by
            rw [List.isEmpty_eq_false_iff]
            exact fun hnil => hrest (List.append_eq_nil_iff.1 hnil).2
          by_cases hn : maxNameLength < n.bytes.length
          · rw [List.cons_append, advance, if_pos hn, advance, if_pos hn]
            exact Or.inl rfl
          · rw [List.cons_append, advance_down hn, advance_down hn]
            cases hnode : t.get? (n :: d) with
            | none =>
                refine Or.inr ⟨⟨.noEntry, by simp [hne]⟩, ?_⟩
                cases front <;> exact id
            | some node =>
                cases node with
                | directory => exact ih
                | file content executable =>
                    refine Or.inr ⟨⟨.notDirectory, by simp [hne]⟩, ?_⟩
                    cases front with
                    | nil => simp [OnTheWay, hnode]
                    | cons s front => exact id
                | link target => exact Or.inl (by simp [hne, goOn])

theorem advance_append {front rest : List Step} (hrest : rest ≠ [])
    (hway : t.OnTheWay (t.advance true d front)) :
    t.advance follow d (front ++ rest) = t.goOn follow rest (t.advance true d front) :=
  (advance_append_cases hrest).resolve_right fun h => h.2 hway

theorem advance_append_of_leads {front rest : List Step} (hrest : rest ≠ [])
    (hleads : Progress.Leads (t.advance follow d (front ++ rest))) :
    t.advance follow d (front ++ rest) = t.goOn follow rest (t.advance true d front) := by
  refine (advance_append_cases hrest).resolve_right ?_
  rintro ⟨⟨cause, hrefused⟩, -⟩
  rw [hrefused] at hleads
  exact hleads

theorem leads_of_resolve {budget : Nat} {steps : List Step}
    (h : t.resolve follow budget d steps = .ok (.taken l)) :
    Progress.Leads (t.advance follow d steps) := by
  rcases resolve_taken h with hp | ⟨_, _, _, _, _, hp, _⟩ <;>
    · rw [hp]
      trivial

/-- A name with nothing behind it leads nowhere. -/
theorem not_leads_of_none (h : t.get? (n :: d) = none) (rest : List Step) :
    ¬ Progress.Leads (t.advance follow d (.down n :: rest)) := by
  by_cases hn : maxNameLength < n.bytes.length
  · rw [advance, if_pos hn]
    exact id
  · rw [advance_down hn, h]
    cases rest <;> exact id

/-- **Behind a directory**, further steps are taken from there. -/
theorem exists_resolve_append {budget : Nat} {front : List Step}
    (h : t.resolve true budget l front = .ok (.taken d)) (hd : t.get? d = some .directory) :
    ∃ left, ∀ follow (rest : List Step), rest ≠ [] →
      t.resolve follow budget l (front ++ rest) = t.resolve follow left d rest := by
  -- on how many links may still be followed
  induction budget using Nat.strongRecOn generalizing l front with
  | ind budget ih =>
      rcases resolve_taken h with hp | ⟨budget, e, target, behind, rfl, hp, hbehind⟩
      · refine ⟨budget, fun follow rest hrest => ?_⟩
        rw [resolve, resolve, advance_append hrest (by rw [hp]; exact hd), hp]
        rfl
      · obtain ⟨left, hleft⟩ := ih budget (Nat.lt_succ_self budget) hbehind
        refine ⟨left, fun follow rest hrest => ?_⟩
        rw [← hleft follow rest hrest, resolve, advance_append hrest (by rw [hp]; trivial), hp,
          List.append_assoc]
        rfl

/-- **What leads to an entry** leads there through its first steps and the entry of the name behind
them. -/
theorem exists_of_resolve_append {budget : Nat} {front rest : List Step}
    (h : t.resolve follow budget l (front ++ .down n :: rest) = .ok (.taken k)) :
    ∃ d, t.resolve true budget l front = .ok (.taken d) ∧ t.get? (n :: d) ≠ none := by
  induction budget using Nat.strongRecOn generalizing l front with
  | ind budget ih =>
      have hleads := leads_of_resolve h
      have hgo := advance_append_of_leads (List.cons_ne_nil _ _) hleads
      rw [hgo] at hleads
      rw [resolve, hgo] at h
      cases hfront : t.advance true l front with
      | arrived d =>
          rw [hfront] at hleads
          exact ⟨d, by rw [resolve, hfront], fun hnone => not_leads_of_none hnone rest hleads⟩
      | vacant d m =>
          rw [hfront] at hleads
          exact hleads.elim
      | redirected e target behind =>
          rw [hfront] at h
          cases budget with
          | zero => cases h
          | succ budget =>
              simp only [goOn, ← List.append_assoc] at h
              obtain ⟨d, hd, hne⟩ := ih budget (Nat.lt_succ_self budget) h
              exact ⟨d, by rw [resolve, hfront]; exact hd, hne⟩
      | refused cause =>
          rw [hfront] at hleads
          exact hleads.elim

/-! ### What a path that goes down names -/

theorem locate_eq_ok_iff :
    t.locate here p follow = .ok l ↔
      p.check = .ok () ∧ t.spot here p follow = .ok (.taken l) := by
  rw [locate]
  cases p.check with
  | error cause => simp [bind, Except.bind]
  | ok =>
      cases t.spot here p follow with
      | error cause => simp [bind, Except.bind]
      | ok spot => cases spot <;> simp [bind, Except.bind, Spot.entry]

theorem locateParent_eq_ok_iff {step : Option Step} :
    t.locateParent here p = .ok (d, step) ↔
      p.check = .ok () ∧
        t.resolve true maxLinks (p.start here) p.steps.dropLast = .ok (.taken d) ∧
        t.get? d = some .directory ∧ step = p.steps.getLast? := by
  rw [locateParent]
  cases p.check with
  | error cause => simp [bind, Except.bind]
  | ok =>
      cases t.resolve true maxLinks (p.start here) p.steps.dropLast with
      | error cause => simp [bind, Except.bind]
      | ok spot =>
          cases spot with
          | vacant e n => simp [bind, Except.bind, Spot.entry]
          | taken e =>
              by_cases he : t.get? e = some .directory
              · simp only [bind, Except.bind, Spot.entry, isDirectory_iff.2 he, if_true, pure,
                  Except.pure, Except.ok.injEq, Prod.mk.injEq, Spot.taken.injEq, true_and]
                constructor
                · rintro ⟨rfl, rfl⟩
                  exact ⟨rfl, he, rfl⟩
                · rintro ⟨rfl, -, rfl⟩
                  exact ⟨rfl, rfl⟩
              · simp only [bind, Except.bind, Spot.entry, isDirectory, he, decide_false,
                  Bool.false_eq_true, if_false, throw, throwThe, MonadExceptOf.throw, reduceCtorEq,
                  Except.ok.injEq, Spot.taken.injEq, true_and, false_iff]
                rintro ⟨rfl, hd, -⟩
                exact he hd

/-- In a part of a tree a path leads to the same directory, or to none. -/
theorem PartOf.locateParent_eq (h : u.PartOf t) {step : Option Step}
    (hparent : u.locateParent here p = .ok (d, step)) :
    t.locateParent here p = .ok (d, step) := by
  obtain ⟨hcheck, hresolve, hd, hstep⟩ := locateParent_eq_ok_iff.1 hparent
  exact locateParent_eq_ok_iff.2 ⟨hcheck, h.resolve_eq hresolve, h _ _ hd, hstep⟩

theorem resolve_down {node : Node} {budget : Nat} (h : t.get? (n :: d) = some node)
    (hlink : follow = true → ∀ target, node ≠ .link target) :
    t.resolve follow budget d [.down n] = .ok (.taken (n :: d)) := by
  rw [resolve, advance_down (addressable_of_eq_some h).length_name, h]
  cases node with
  | directory => rfl
  | file content executable => rfl
  | link target =>
      cases follow with
      | false => rfl
      | true => exact absurd rfl (hlink rfl target)

end FileTree

namespace Path.Descends

open FileTree

variable {t u : FileTree} {here : Location} {follow : Bool} {n : FileName} {d l k : Location}
variable {p : Path}

theorem spot_eq (hp : p.Descends) (t : FileTree) (here : Location) (follow : Bool) :
    t.spot here p follow = t.resolve follow maxLinks (p.start here) p.steps := by
  rw [spot, lookupSteps, hp.ends]
  exact congrArg _ (List.append_nil _)

/-- **What a path names** is found behind a name in the directory to which the other names lead. -/
theorem exists_locateParent (hp : p.Descends) (h : t.locate here p follow = .ok k) :
    ∃ n d, t.locateParent here p = .ok (d, some (.down n)) ∧ t.get? (n :: d) ≠ none := by
  obtain ⟨q, n, -, hsteps, -⟩ := hp.exists_parent?
  obtain ⟨hcheck, hspot⟩ := locate_eq_ok_iff.1 h
  rw [hp.spot_eq, hsteps] at hspot
  obtain ⟨d, hd, hne⟩ := exists_of_resolve_append hspot
  refine ⟨n, d, locateParent_eq_ok_iff.2 ⟨hcheck, ?_, get?_parent hne, ?_⟩, hne⟩
  · rw [hsteps, List.dropLast_concat, hd]
  · rw [hsteps, List.getLast?_concat]

/-- The name is looked up in that directory, with as many links as are left. -/
theorem exists_spot_eq (hp : p.Descends) (h : t.locateParent here p = .ok (d, some (.down n))) :
    ∃ left, ∀ follow, t.spot here p follow = t.resolve follow left d [.down n] := by
  obtain ⟨-, hresolve, hd, hlast⟩ := locateParent_eq_ok_iff.1 h
  obtain ⟨front, hfront⟩ := List.getLast?_eq_some_iff.1 hlast.symm
  rw [hfront, List.dropLast_concat] at hresolve
  obtain ⟨left, hleft⟩ := exists_resolve_append hresolve hd
  refine ⟨left, fun follow => ?_⟩
  rw [hp.spot_eq, hfront]
  exact hleft follow _ (List.cons_ne_nil _ _)

/-- The entry itself, be it a link or not. -/
theorem locate_eq_ok_iff (hp : p.Descends) :
    t.locate here p false = .ok l ↔
      ∃ n d, l = n :: d ∧ t.locateParent here p = .ok (d, some (.down n)) ∧ t.get? l ≠ none := by
  have hfound : ∀ {n d}, t.locateParent here p = .ok (d, some (.down n)) →
      t.get? (n :: d) ≠ none → t.locate here p false = .ok (n :: d) := by
    intro n d hparent hne
    obtain ⟨left, hleft⟩ := hp.exists_spot_eq hparent
    obtain ⟨node, hnode⟩ := Option.ne_none_iff_exists'.1 hne
    refine FileTree.locate_eq_ok_iff.2 ⟨(locateParent_eq_ok_iff.1 hparent).1, ?_⟩
    rw [hleft]
    exact resolve_down hnode (by simp)
  constructor
  · intro h
    obtain ⟨n, d, hparent, hne⟩ := hp.exists_locateParent h
    obtain rfl := Except.ok.inj (h.symm.trans (hfound hparent hne))
    exact ⟨n, d, rfl, hparent, hne⟩
  · rintro ⟨n, d, rfl, hparent, hne⟩
    exact hfound hparent hne

/-- An entry that is no link is what the path leads to. -/
theorem locate_follow (hp : p.Descends) (h : t.locate here p false = .ok l)
    (hlink : ∀ target, t.get? l ≠ some (.link target)) : t.locate here p true = .ok l := by
  obtain ⟨n, d, rfl, hparent, hne⟩ := hp.locate_eq_ok_iff.1 h
  obtain ⟨left, hleft⟩ := hp.exists_spot_eq hparent
  obtain ⟨node, hnode⟩ := Option.ne_none_iff_exists'.1 hne
  refine FileTree.locate_eq_ok_iff.2 ⟨(locateParent_eq_ok_iff.1 hparent).1, ?_⟩
  rw [hleft]
  refine resolve_down hnode ?_
  rintro - target rfl
  exact hlink target hnode

end Path.Descends

end DualModule

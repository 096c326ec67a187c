import DualModule.Generation
import DualModule.Proofs.Attempt
import DualModule.Proofs.DirectoryChanges
import Mathlib.Data.Prod.Basic
/-!
# A directory made afresh

Whether anything is at the output path is tested with links followed; what is there is taken away
without following the last one; and the new directory is made with links followed again.  The path
may lead through links at any of its names, and these may be inside the directory that is taken
away, so that the three need not mean the same location.

**What is destroyed** is what the path names and what is below it.  Everything outside is spared,
whatever links lead there, and all that is new are directories on the way to the one that was made
(`FileTree.MadeAfresh`).

**What cannot be replaced** is a file, and a link that leads nowhere: then nothing at all is changed
(`FileTree.Blocked`).

## Main Definitions

* `FileTree.Outside`
* `FileTree.MadeAfresh`
* `FileTree.Blocked`
-/

namespace DualModule

open Attempt

variable {host : Host} {t u v : FileTree} {here : Location} {out p : Path} {l k : Location}

namespace FileTree

/-- Neither at what the path names nor below it; if it names nothing, anywhere. -/
def Outside (t : FileTree) (here : Location) (p : Path) (k : Location) : Prop :=
  ∀ l, t.locate here p false = .ok l → ¬ l <:+ k

/-- The second tree is the first one, with an empty directory at `l` in place of what the path
named. -/
structure MadeAfresh (t : FileTree) (here : Location) (p : Path) (l : Location) (u : FileTree) :
    Prop where
  /-- the path leads to the directory, and not by a link at its end -/
  found : ∀ follow, u.locate here p follow = .ok l
  directory : u.get? l = some .directory
  empty : ∀ k, Location.Below l k → u.get? k = none
  /-- only if nothing was there before, directories may be new outside -/
  spared : ∀ k, t.Outside here p k → u.get? k = t.get? k ∨
    (∀ k', t.locate here p false ≠ .ok k') ∧ t.get? k = none ∧
      u.get? k = some .directory ∧ k <:+ l
  /-- nothing else is left where something was taken away -/
  destroyed : ∀ k, ¬ t.Outside here p k → u.get? k = none ∨
    u.get? k = some .directory ∧ k <:+ l
  /-- what a link led to that was taken away, with all that is below -/
  targets : ∀ k target g, ¬ t.Outside here p k → t.get? k = some (.link target) →
    t.locate k.tail target true = .ok g →
      ∀ m, g <:+ m → t.Outside here p m → u.get? m = t.get? m

/-- There is something that no directory can replace: a file, or a link that leads nowhere. -/
def Blocked (t : FileTree) (here : Location) (p : Path) : Prop :=
  ∃ l, t.locate here p false = .ok l ∧
    ((∃ content executable, t.get? l = some (.file content executable)) ∨
      (∃ target, t.get? l = some (.link target)) ∧ ∀ k, t.locate here p true ≠ .ok k)

end FileTree

/-! ### Part by part -/

/-- How a directory is made afresh, case by case. -/
theorem freshDirectory_outcome (host : Host) (t : FileTree) (out : Path) :
    (freshDirectory out).outcome host t =
      match t.exists? host.here out with
      | .error cause => (.error (.directory out cause), t)
      | .ok false =>
        ((t.makeDirectories host.here out).1.mapError (.directory out),
          (t.makeDirectories host.here out).2)
      | .ok true =>
        match t.removeTree host.here out with
        | (.error cause, v) => (.error (.directory out cause), v)
        | (.ok (), v) =>
          ((v.makeDirectories host.here out).1.mapError (.directory out),
            (v.makeDirectories host.here out).2) := by
  have hmake : ∀ v : FileTree, (explained (.request (.makeDirectories out))
      (GenerationError.directory out)).outcome host v =
        ((v.makeDirectories host.here out).1.mapError (.directory out),
          (v.makeDirectories host.here out).2) := fun v =>
    outcome_explained (run_request host (.makeDirectories out) v) _
  have htest : (explained (.request (.test out)) (GenerationError.directory out)).outcome host t =
      ((t.exists? host.here out).mapError (.directory out), t) :=
    outcome_explained (run_request host (.test out) t) _
  have hremove : (explained (.request (.removeTree out))
      (GenerationError.directory out)).outcome host t =
        ((t.removeTree host.here out).1.mapError (.directory out),
          (t.removeTree host.here out).2) :=
    outcome_explained (run_request host (.removeTree out) t) _
  cases hexists : t.exists? host.here out with
  | error cause =>
      rw [hexists] at htest
      exact outcome_bind_error htest _
  | ok found =>
      rw [hexists] at htest
      refine (outcome_bind_ok htest _).trans ?_
      cases found with
      | false => exact hmake t
      | true =>
          show ((explained (.request (.removeTree out)) (GenerationError.directory out)) >>=
            fun _ => _).outcome host t = _
          rcases hv : t.removeTree host.here out with ⟨cause | _, v⟩
          · rw [hv] at hremove
            exact outcome_bind_error hremove _
          · rw [hv] at hremove
            exact (outcome_bind_ok hremove _).trans (hmake v)

/-- What was emptied is above all that is made again. -/
theorem FileTree.Emptied.suffix_of_made {n : FileName} {d : Location} {names : List FileName}
    (h : t.Emptied l v) (hp : p.Descends) (hl : t.locate here p false = .ok l)
    (hmade : v.Made here p n d names u) : l <:+ n :: d := by
  obtain ⟨front, hsteps, hfront⟩ := hmade.leads
  have hspot := (locate_eq_ok_iff.1 hl).2
  rw [hp.spot_eq, hsteps] at hspot
  obtain ⟨d', hd', hne⟩ := exists_of_resolve_append hspot
  cases hd'.symm.trans (h.partOf.resolve_eq hfront)
  exact h.suffix hne hmade.vacant

/-- **What success means**, part by part: what was there has been emptied, and then what was missing
has been made. -/
theorem freshDirectory_ok (hout : out.Descends)
    (h : (freshDirectory out).outcome host t = (.ok (), u)) :
    ∃ v n d names, v.Made host.here out n d names u ∧
      ((∀ l, t.locate host.here out false ≠ .ok l) ∧ v = t ∨
        ∃ l, t.locate host.here out false = .ok l ∧ t.Emptied l v) := by
  have hmade : ∀ v : FileTree, (∀ k, v.locate host.here out true ≠ .ok k) →
      ((v.makeDirectories host.here out).1.mapError (GenerationError.directory out),
        (v.makeDirectories host.here out).2) = (.ok (), u) →
      v.makeDirectories host.here out = (.ok (), u) ∧
        ∃ n d names, v.Made host.here out n d names u := by
    intro v hnone hv
    rcases hmake : v.makeDirectories host.here out with ⟨cause | _, w⟩
    · rw [hmake] at hv
      cases hv
    · rw [hmake] at hv
      obtain rfl := (Prod.mk.inj hv).2
      exact ⟨rfl, FileTree.makeDirectories_ok hout hnone hmake⟩
  rw [freshDirectory_outcome] at h
  split at h
  · cases h
  · rename_i hexists
    have hnone : ∀ k, t.locate host.here out true ≠ .ok k := by
      intro k hk
      cases (FileTree.exists?_eq_false_iff.1 hexists).symm.trans hk
    obtain ⟨hok, n, d, names, hnew⟩ := hmade t hnone h
    refine ⟨t, n, d, names, hnew, Or.inl ⟨fun l hl => ?_, rfl⟩⟩
    cases (FileTree.makeDirectories_of_lost hout hl hnone).symm.trans hok
  · split at h
    · cases h
    · rename_i v hv
      obtain ⟨l, hl, hemptied, hnone⟩ := FileTree.removeTree_ok hout hv
      obtain ⟨-, n, d, names, hnew⟩ := hmade v (hnone true) h
      exact ⟨v, n, d, names, hnew, Or.inr ⟨l, hl, hemptied⟩⟩

/-! ### What comes of it -/

/-- The parts together. -/
theorem FileTree.Made.madeAfresh {n : FileName} {d : Location} {names : List FileName}
    (hp : p.Descends) (h : v.Made here p n d names u)
    (hbefore : (∀ l, t.locate here p false ≠ .ok l) ∧ v = t ∨
      ∃ l, t.locate here p false = .ok l ∧ t.Emptied l v) :
    t.MadeAfresh here p (names.reverse ++ n :: d) u := by
  have hspared : ∀ k, t.Outside here p k → u.get? k = t.get? k ∨
      (∀ k', t.locate here p false ≠ .ok k') ∧ t.get? k = none ∧
        u.get? k = some .directory ∧ k <:+ names.reverse ++ n :: d := by
    intro k hk
    rcases hbefore with ⟨hnone, rfl⟩ | ⟨l, hl, hemptied⟩
    · refine (h.old_or_new k).imp_right ?_
      rintro ⟨hfree, hnew, -, hsuffix⟩
      exact ⟨hnone, hfree, hnew, hsuffix⟩
    · rcases h.old_or_new k with hold | ⟨-, -, hsuffix, -⟩
      · exact Or.inl (hold.trans (hemptied.outside k (hk l hl)))
      · exact absurd ((hemptied.suffix_of_made hp hl h).trans hsuffix) (hk l hl)
  refine ⟨fun _ => h.locate_eq hp, h.get?_self, fun k => h.below, hspared, ?_, ?_⟩
  · intro k hk
    rcases hbefore with ⟨hnone, rfl⟩ | ⟨l, hl, hemptied⟩
    · exact absurd (fun l hl => absurd hl (hnone l)) hk
    · obtain ⟨l', hl', hlk⟩ : ∃ l', t.locate here p false = .ok l' ∧ l' <:+ k := by
        simpa [Outside] using hk
      cases hl.symm.trans hl'
      rcases h.old_or_new k with hold | ⟨-, hnew, -, hsuffix⟩
      · by_cases heq : l = k
        · -- the new directory is in the place of the old one or below it
          have hsuffix := (hemptied.suffix_of_made hp hl h).trans
            (List.suffix_append names.reverse _)
          exact Or.inr (heq ▸ ⟨directory_of_suffix h.get?_self hsuffix, hsuffix⟩)
        · exact Or.inl (hold.trans (hemptied.below k ⟨hlk, heq⟩))
      · exact Or.inr ⟨hnew, hsuffix⟩
  · intro k _ _ hk _ _ m _ hm
    refine (hspared m hm).resolve_right ?_
    rintro ⟨hnone, -⟩
    exact hk fun l hl => absurd hl (hnone l)

theorem madeAfresh_of_freshDirectory (hout : out.Descends)
    (h : (freshDirectory out).outcome host t = (.ok (), u)) :
    ∃ l, t.MadeAfresh host.here out l u := by
  obtain ⟨v, n, d, names, hmade, hbefore⟩ := freshDirectory_ok hout h
  exact ⟨_, hmade.madeAfresh hout hbefore⟩

theorem freshDirectory_of_blocked (hout : out.Descends) (h : t.Blocked host.here out) :
    ∃ cause, (freshDirectory out).outcome host t = (.error (.directory out cause), t) := by
  rw [freshDirectory_outcome]
  obtain ⟨l, hl, ⟨content, executable, hfile⟩ | ⟨-, hnone⟩⟩ := h
  · have hfollow := hout.locate_follow hl (by simp [hfile])
    refine ⟨.notDirectory, ?_⟩
    simp only [FileTree.exists?, hfollow, FileTree.removeTree_file hl hfile]
  · cases hexists : t.exists? host.here out with
    | error cause => exact ⟨cause, rfl⟩
    | ok found =>
        cases found with
        | false =>
            refine ⟨.alreadyExists, ?_⟩
            rw [FileTree.makeDirectories_of_lost hout hl hnone]
            rfl
        | true =>
            exfalso
            rw [FileTree.exists?] at hexists
            split at hexists
            · rename_i k hk
              exact hnone k hk
            · cases hexists
            · cases hexists

/-- **Nothing else is in the way**: in a directory that is there, a directory can be made afresh
under any name that is not blocked. -/
theorem freshDirectory_path {n : FileName} {d : Location} (hd : t.get? d = some .directory)
    (ha : Location.Addressable (n :: d))
    (hfree : ¬ t.Blocked host.here (Location.path (n :: d))) :
    ∃ u, (freshDirectory (Location.path (n :: d))).outcome host t = (.ok (), u) := by
  rw [freshDirectory_outcome]
  cases hnode : t.get? (n :: d) with
  | none =>
      have hnone : t.locate host.here (Location.path (n :: d)) true = .error .noEntry := by
        rw [FileTree.locate, Location.check_path ha, FileTree.spot_path_cons hd ha.length_name,
          hnode]
        rfl
      obtain ⟨u, hu⟩ := FileTree.makeDirectories_path host.here ha hnode hd
      refine ⟨u, ?_⟩
      rw [FileTree.exists?_eq_false_iff.2 hnone, hu]
      rfl
  | some node =>
      have hl : t.locate host.here (Location.path (n :: d)) false = .ok (n :: d) :=
        FileTree.locate_path hnode (by simp)
      have hfile : ∀ content executable, node ≠ .file content executable := by
        rintro content executable rfl
        exact hfree ⟨_, hl, Or.inl ⟨content, executable, hnode⟩⟩
      obtain ⟨k, hk⟩ : ∃ k, t.locate host.here (Location.path (n :: d)) true = .ok k := by
        by_cases hlink : ∃ target, node = .link target
        · obtain ⟨target, rfl⟩ := hlink
          by_cases hlost : ∃ k, t.locate host.here (Location.path (n :: d)) true = .ok k
          · exact hlost
          · exact absurd ⟨_, hl, Or.inr ⟨⟨target, hnode⟩, not_exists.1 hlost⟩⟩ hfree
        · exact ⟨_, FileTree.locate_path hnode fun _ target heq => hlink ⟨target, heq⟩⟩
      obtain ⟨v, hv, hnone, hd'⟩ := FileTree.removeTree_path host.here hnode hfile
      obtain ⟨u, hu⟩ := FileTree.makeDirectories_path host.here ha hnone hd'
      refine ⟨u, ?_⟩
      simp only [FileTree.exists?, hk, hv, hu]
      rfl

/-- **Only what is at the path is destroyed.**  If the attempt succeeds, the path leads to an empty
directory, and everything outside what it named is as it was, also where links led that have been
taken away; if it named nothing, directories on the way to the new one may have been added.  If
there was a file or a link that leads nowhere, the attempt fails and nothing is changed. -/
theorem freshDirectory_spares (host : Host) (t : FileTree) {out : Path} (hout : out.Descends) :
    (∀ u, (freshDirectory out).outcome host t = (.ok (), u) →
      ∃ l, t.MadeAfresh host.here out l u) ∧
    (t.Blocked host.here out →
      ∃ cause, (freshDirectory out).outcome host t = (.error (.directory out cause), t)) := by
  exact ⟨fun u => madeAfresh_of_freshDirectory hout, freshDirectory_of_blocked hout⟩

/-- A directory that can be reached through a link inside it, with another link to a directory
outside, and a link to itself. -/
def windingTree : FileTree :=
  .ofEntries [("/d/hold", .link (.ofText "/keep".toList)), ("/d/old", .file [0x61] false),
    ("/d/up", .link (.ofText "..".toList)), ("/keep/f", .file [0x62] false),
    ("/lost", .link (.ofText "lost".toList))]

/-- The directory has lost its entries, and a new one is inside it; what its link led to is as it
was.  The link to itself stays. -/
theorem freshDirectory_spares_behind_links :
    let out := Path.ofText "/d/up/d".toList
    let lost := Path.ofText "/lost".toList
    let kept := (Path.ofText "/keep/f".toList).location
    (out.Descends ∧ ∃ u, (freshDirectory out).outcome .plain windingTree = (.ok (), u) ∧
        windingTree.MadeAfresh [] out out.location u ∧
        windingTree.get? kept = some (.file [0x62] false) ∧
        u.get? kept = some (.file [0x62] false)) ∧
      lost.Descends ∧ windingTree.Blocked [] lost ∧
      ∃ cause, (freshDirectory lost).outcome .plain windingTree =
        (.error (.directory lost cause), windingTree) := by
  intro out lost kept
  have hout : out.Descends := ⟨by decide, by decide, by decide, by decide⟩
  have hlost : lost.Descends := ⟨by decide, by decide, by decide, by decide⟩
  obtain ⟨hsuccess, -⟩ := freshDirectory_spares .plain windingTree hout
  obtain ⟨-, hfailure⟩ := freshDirectory_spares .plain windingTree hlost
  constructor
  · have hrun : ((freshDirectory out).outcome .plain windingTree).1 = .ok () := by decide +kernel
    have hmade : ((freshDirectory out).outcome .plain windingTree).2.locate [] out false =
        .ok out.location := by decide +kernel
    have hbefore : windingTree.locate [] out false =
        .ok (Path.ofText "/d".toList).location := by decide +kernel
    have hhold : windingTree.get? (Path.ofText "/d/hold".toList).location =
        some (.link (.ofText "/keep".toList)) := by decide +kernel
    have htarget : windingTree.locate (Path.ofText "/d".toList).location
        (.ofText "/keep".toList) true = .ok (Path.ofText "/keep".toList).location := by
      decide +kernel
    have hkept : windingTree.get? kept = some (.file [0x62] false) := by decide +kernel
    obtain ⟨l, hl⟩ := hsuccess _ (Prod.fst_eq_iff.1 hrun)
    obtain rfl := Except.ok.inj ((hl.found false).symm.trans hmade)
    refine ⟨hout, _, Prod.fst_eq_iff.1 hrun, hl, hkept, Eq.trans ?_ hkept⟩
    refine hl.targets _ _ _ (fun houtside => ?_) hhold htarget kept (by decide) ?_
    · exact houtside _ hbefore (by decide)
    · intro l hl
      cases hbefore.symm.trans hl
      decide
  · have hblocked : windingTree.Blocked [] lost := by
      refine ⟨lost.location, by decide +kernel, Or.inr ⟨⟨.ofText "lost".toList, ?_⟩, ?_⟩⟩
      · decide +kernel
      · have hloop : windingTree.locate [] lost true = .error .tooManyLinks := by decide +kernel
        intro k hk
        cases hloop.symm.trans hk
    exact ⟨hlost, hblocked, hfailure hblocked⟩

end DualModule

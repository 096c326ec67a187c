import DualModule.Procedure.Ways
import DualModule.Proofs.Confinement
/-!
# Ways that keep to regions

Something that can be done in many ways keeps to a region if each way does.  If besides all ways
come to the same, nothing shows in which of the ways it was done: they are *alike*.

**Jobs that are done together** are alike if each job is alike in a region of its own and none of
them fails, since what is done with them is an interleaving (`AttemptWays.alike_together`).  The
same holds for procedures next to each other (`Ways.interleaved`).

## Main Definitions

* `Ways.Alike`, `AttemptWays.Alike`
-/

namespace DualModule

variable {ε α β : Type} {host : Host} {tolerance : Tolerance} {region own : Set Location}
variable {t u v : FileTree}

/-! ### Larger regions, later trees -/

theorem FileTree.Seen.trans (h : t.Seen tolerance region u) (h' : u.Seen tolerance region v) :
    t.Seen tolerance region v :=
  ⟨fun l hl => (h'.inside l hl).trans (h.inside l hl),
    fun l hl => tolerance.trans l _ _ _ (h.outside l hl) (h'.outside l hl)⟩

/-- What is seen from a region is seen from a part of it. -/
theorem FileTree.Seen.of_subset (h : t.Seen tolerance region u) (hsub : own ⊆ region) :
    t.Seen tolerance own u := by
  refine ⟨fun l hl => h.inside l (hsub hl), fun l _ => ?_⟩
  by_cases hl : l ∈ region
  · rw [h.get?_eq hl]
    exact tolerance.refl l _
  · exact h.outside l hl

namespace Request.Confined

variable {r : Request}

/-- A request stays confined when others have made tolerated changes. -/
theorem of_seen (h : r.Confined host tolerance region t) (hu : t.Seen tolerance region u) :
    r.Confined host tolerance region u where
  reply v hv := (h.reply v (hu.trans hv)).trans (h.reply u hu).symm
  inside v hv l hl := (h.inside v (hu.trans hv) l hl).trans (h.inside u hu l hl).symm
  outside v hv := h.outside v (hu.trans hv)
  tolerated := by
    intro l hl
    rw [hu.get?_eq hl, FileTree.get?_eq_of_view (h.inside u hu l hl)]
    exact h.tolerated l hl

/-- A request that is confined to a part of a region is confined to the region. -/
theorem mono (h : r.Confined host tolerance own t) (hsub : own ⊆ region) :
    r.Confined host tolerance region t where
  reply v hv := h.reply v (hv.of_subset hsub)
  inside := by
    intro v hv l hl
    by_cases hown : l ∈ own
    · exact h.inside v (hv.of_subset hsub) l hown
    · rw [h.outside v (hv.of_subset hsub) l hown, h.outside t (.refl _ _ t) l hown, hv.inside l hl]
  outside v hv l hl := h.outside v (hv.of_subset hsub) l fun hown => hl (hsub hown)
  tolerated := by
    intro l hl
    by_cases hown : l ∈ own
    · exact h.tolerated l hown
    · rw [FileTree.get?_eq_of_view (h.outside t (.refl _ _ t) l hown)]
      exact tolerance.refl l _

end Request.Confined

/-! ### Jobs together -/

namespace Procedure

/-- **Jobs that are done together**, each confined to a part of a region and none of them failing:
it all keeps to the region, and is one of the interleavings of the jobs. -/
theorem Together.joins {parties : List (Party (Except ε α))} {p : Procedure (Except ε (List α))}
    (h : Together host tolerance t parties u)
    (hendings : ∀ e ∈ parties.map (Party.ending host), e.1 ⊆ region ∧ ∃ x, e.2.1 = .ok x)
    (hjoins : Joins (parties.map Party.rest) p) :
    p.Confined host tolerance region u ∧ ∃ results, (p.run host u).1 = .ok results ∧
      Interleaved host (parties.map Party.rest) u (results.map .ok) (p.run host u).2 := by
  generalize hps : parties.map Party.rest = ps at hjoins
  induction hjoins generalizing parties u with
  | finished results =>
      have hfinished : Interleaved host ((results.map Except.ok).map done) u
          (results.map Except.ok : List (Except ε α)) u := .finished _ u
      rw [List.map_map] at hfinished
      exact ⟨trivial, results, rfl, hfinished⟩
  | failed hfailed =>
      obtain ⟨a, ha, hrest⟩ := List.mem_map.1 (hps ▸ hfailed)
      obtain ⟨-, x, hx⟩ := hendings _ (List.mem_map_of_mem ha)
      rw [Party.ending, hrest] at hx
      cases hx
  | answer before after r next rest _ ih =>
      have hstep : Advances host (parties.map Party.rest) u
          (before ++ next (r.answer host u).1 :: after) (r.answer host u).2 := by
        rw [hps]
        exact .answer before after r next u
      obtain ⟨a, ha, hask⟩ := List.mem_map.1
        (hps ▸ List.mem_append_right before (List.mem_cons_self (l := after)))
      have hconfined := h.confined a ha
      rw [hask] at hconfined
      have hsub : a.region ⊆ region := (hendings _ (List.mem_map_of_mem ha)).1
      obtain ⟨parties', hqs, htogether, hsame⟩ := h.advances hstep
      obtain ⟨hrest, results, hresults, hrun⟩ := ih _ htogether (hsame ▸ hendings) hqs.symm
      refine ⟨⟨(hconfined.1.of_seen (h.seen ha)).mono hsub, hrest⟩, results, hresults, ?_⟩
      exact .step (.answer before after r next u) hrun

end Procedure

/-! ### Ways -/

namespace Ways

/-- Every way is confined to the region, and comes to what the procedure comes to. -/
def Alike (host : Host) (tolerance : Tolerance) (region : Set Location) (t : FileTree) (w : Ways α)
    (p : Procedure α) : Prop :=
  ∀ q ∈ w, q.Confined host tolerance region t ∧ q.run host t = p.run host t

variable {w : Ways α} {p : Procedure α}

theorem alike_only (h : p.Confined host tolerance region t) :
    (only p).Alike host tolerance region t p := by
  rintro q rfl
  exact ⟨h, rfl⟩

theorem Alike.bind {f : α → Ways β} {g : α → Procedure β}
    (h : w.Alike host tolerance region t p)
    (hf : (f (p.run host t).1).Alike host tolerance region (p.run host t).2
      (g (p.run host t).1)) :
    (w >>= f).Alike host tolerance region t (p >>= g) := by
  rintro _ ⟨q, hq, next, hnext, rfl⟩
  obtain ⟨hconfined, hrun⟩ := h q hq
  obtain ⟨hconfined', hrun'⟩ := hf _ (hnext _)
  rw [← hrun] at hconfined' hrun'
  refine ⟨hconfined.bind hconfined', ?_⟩
  rw [Procedure.run_bind, Procedure.run_bind, hrun', hrun]

/-- Procedures that are each one of the ways to do something. -/
theorem exists_together {xs : List β} {ps : List (Procedure α)} {w : β → Ways α}
    {p : β → Procedure α} {region : β → Set Location}
    (hdisjoint : xs.Pairwise fun x y => Disjoint (region x) (region y))
    (halike : ∀ x ∈ xs, (w x).Alike host tolerance (region x) t (p x))
    (hps : List.Forall₂ (fun q x => q ∈ w x) ps xs) :
    ∃ parties : List (Procedure.Party α), parties.map Procedure.Party.rest = ps ∧
      Procedure.Together host tolerance t parties t ∧
      parties.map (Procedure.Party.ending host) = xs.map fun x => (region x, (p x).run host t) := by
  have hparties : ∃ parties : List (Procedure.Party α), parties.map Procedure.Party.rest = ps ∧
      parties.map Procedure.Party.region = xs.map region ∧
      parties.map (Procedure.Party.ending host) = xs.map (fun x => (region x, (p x).run host t)) ∧
      ∀ a ∈ parties, a.tree = t ∧ a.rest.Confined host tolerance a.region t := by
    clear hdisjoint
    induction hps with
    | nil => exact ⟨[], rfl, rfl, rfl, List.forall_mem_nil _⟩
    | cons hq _ ih =>
        obtain ⟨hx, hxs⟩ := List.forall_mem_cons.1 halike
        obtain ⟨parties, hrest, hregion, hending, ha⟩ := ih hxs
        obtain ⟨hconfined, hrun⟩ := hx _ hq
        refine ⟨⟨region _, _, t⟩ :: parties, ?_, ?_, ?_, List.forall_mem_cons.2 ⟨⟨rfl, hconfined⟩, ha⟩⟩
        · rw [List.map_cons, hrest]
        · rw [List.map_cons, hregion, List.map_cons]
        · rw [List.map_cons, hending, List.map_cons, Procedure.Party.ending, hrun]
  obtain ⟨parties, hrest, hregion, hending, ha⟩ := hparties
  have hregions : (parties.map Procedure.Party.region).Pairwise Disjoint := by
    rw [hregion]
    exact List.pairwise_map.2 hdisjoint
  exact ⟨parties, hrest, .start (List.pairwise_map.1 hregions) ha, hending⟩

/-- **Procedures next to each other**, each in one of its ways and alike in a region of its own:
whichever the ways are and however they are interleaved, each comes to what it comes to alone. -/
theorem interleaved {xs : List β} {ps : List (Procedure α)} {results : List α} {w : β → Ways α}
    {p : β → Procedure α} {region : β → Set Location}
    (hdisjoint : xs.Pairwise fun x y => Disjoint (region x) (region y))
    (halike : ∀ x ∈ xs, (w x).Alike host tolerance (region x) t (p x))
    (hps : List.Forall₂ (fun q x => q ∈ w x) ps xs)
    (hrun : Procedure.Interleaved host ps t results v) :
    Procedure.Separately t (xs.map fun x => (region x, (p x).run host t)) results v := by
  obtain ⟨parties, rfl, htogether, hendings⟩ := exists_together hdisjoint halike hps
  rw [← hendings]
  exact htogether.interleaved hrun

end Ways

namespace AttemptWays

/-- Every way is confined to the region, and comes to what the attempt comes to. -/
def Alike (host : Host) (tolerance : Tolerance) (region : Set Location) (t : FileTree)
    (w : AttemptWays ε α) (a : Attempt ε α) : Prop :=
  w.run.Alike host tolerance region t a.run

variable {w : AttemptWays ε α} {a : Attempt ε α} {f : α → AttemptWays ε β} {g : α → Attempt ε β}

theorem alike_pure (x : α) :
    Alike host tolerance region t (pure x : AttemptWays ε α) (pure x) :=
  Ways.alike_only (Attempt.confined_pure x)

theorem alike_only (h : a.Confined host tolerance region t) :
    (only a).Alike host tolerance region t a :=
  Ways.alike_only h

theorem Alike.bind_ok {x : α} (h : w.Alike host tolerance region t a)
    (hrun : a.outcome host t = (.ok x, u)) (hf : (f x).Alike host tolerance region u (g x)) :
    (w >>= f).Alike host tolerance region t (a >>= g) := by
  unfold Alike
  rw [ExceptT.run_bind, ExceptT.run_bind]
  refine Ways.Alike.bind h ?_
  unfold Attempt.outcome at hrun
  rw [hrun]
  exact hf

theorem Alike.bind_error {e : ε} (h : w.Alike host tolerance region t a)
    (hrun : a.outcome host t = (.error e, u)) :
    (w >>= f).Alike host tolerance region t (a >>= g) := by
  unfold Alike
  rw [ExceptT.run_bind, ExceptT.run_bind]
  refine Ways.Alike.bind h ?_
  unfold Attempt.outcome at hrun
  rw [hrun]
  exact Ways.alike_only (Procedure.confined_done _ _)

/-- One attempt after another, the second one alike wherever it begins. -/
theorem Alike.bind (h : w.Alike host tolerance region t a)
    (hf : ∀ x u, (f x).Alike host tolerance region u (g x)) :
    (w >>= f).Alike host tolerance region t (a >>= g) := by
  rcases hrun : a.outcome host t with ⟨result, u⟩
  cases result with
  | ok x => exact h.bind_ok hrun (hf x u)
  | error e => exact h.bind_error hrun

/-- **Attempts together** are alike, and come to what they come to one after another, if each is
alike in a region of its own and succeeds. -/
theorem alike_together {xs : List β} {f : β → AttemptWays ε α} {g : β → Attempt ε α}
    (own : β → Set Location) (hdisjoint : xs.Pairwise fun x y => Disjoint (own x) (own y))
    (hsub : ∀ x ∈ xs, own x ⊆ region) (hhas : ∀ x ∈ xs, (f x).Has (g x))
    (halike : ∀ x ∈ xs, (f x).Alike host tolerance (own x) t (g x))
    (hok : ∀ x ∈ xs, ∃ y u, (g x).outcome host t = (.ok y, u)) :
    (together (xs.map f)).Alike host tolerance region t (xs.mapM g) := by
  have hjoined : ∀ chosen p, List.Forall₂ (fun q x => q ∈ (f x).run) chosen xs →
      Procedure.Joins chosen p → p.Confined host tolerance region t ∧
        ∃ results, (p.run host t).1 = .ok results ∧ Procedure.Separately t
          (xs.map fun x => (own x, (g x).run.run host t)) (results.map .ok) (p.run host t).2 := by
    intro chosen p hchosen hjoins
    obtain ⟨parties, rfl, htogether, hendings⟩ :=
      Ways.exists_together hdisjoint halike hchosen
    have hparties : ∀ e ∈ parties.map (Procedure.Party.ending host),
        e.1 ⊆ region ∧ ∃ y, e.2.1 = .ok y := by
      rw [hendings]
      intro e he
      obtain ⟨x, hx, rfl⟩ := List.mem_map.1 he
      obtain ⟨y, u, hrun⟩ := hok x hx
      exact ⟨hsub x hx, y, congrArg Prod.fst hrun⟩
    obtain ⟨hconfined, results, hresults, hrun⟩ := htogether.joins hparties hjoins
    exact ⟨hconfined, results, hresults, hendings ▸ htogether.interleaved hrun⟩
  rintro p ⟨chosen, hchosen, hjoins⟩
  rw [List.map_map, List.forall₂_map_right_iff] at hchosen
  obtain ⟨hconfined, results, hresults, hseparately⟩ := hjoined chosen p hchosen hjoins
  have hinOrder : List.Forall₂ (fun q x => q ∈ (f x).run) (xs.map fun x => (g x).run) xs := by
    rw [List.forall₂_map_left_iff, List.forall₂_same]
    exact hhas
  obtain ⟨-, results', hresults', hseparately'⟩ :=
    hjoined _ _ hinOrder (Procedure.joins_mapM g xs)
  have hsame : results = results' := by
    have hok_injective : Function.Injective (Except.ok : α → Except ε α) :=
      fun _ _ => Except.ok.inj
    refine List.map_injective_iff.2 hok_injective ?_
    exact hseparately.results_eq.trans hseparately'.results_eq.symm
  refine ⟨hconfined, Prod.ext ?_ (hseparately.tree_unique hseparately' (.refl _))⟩
  rw [hresults, hresults', hsame]

end AttemptWays

end DualModule

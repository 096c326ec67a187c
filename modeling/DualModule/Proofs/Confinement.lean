import DualModule.Procedure.Interleaving
import DualModule.Proofs.Attempt
import Mathlib
/-!
# Procedures that keep to regions of their own

Procedures that are under way at the same time may each keep to a region of the tree: what is in the
region decides what they are answered, and they change nothing outside.  If the regions are
disjoint, each procedure comes to the result that it has alone, and leaves in its region what it
leaves there alone (`Procedure.interleaved_confined`).

What is in a region is what `FileTree.view` shows there: the entries, and for a file also its other
names.  So a file that is in one region only has no name in another.

**What others may do** outside a region is a *tolerance*.  A confined procedure is answered alike as
long as only tolerated changes have been made outside, and makes only tolerated changes inside.

**The invariant** (`Procedure.Together`) holds the tree as it is against the trees that the
procedures would have alone: each is right about its own region, and no tree has been changed
anywhere else.

## Main Definitions

* `FileTree.view`
* `Tolerance`, `FileTree.Seen`
* `Request.Confined`, `Procedure.Confined`
* `Procedure.Party`, `Procedure.Together`
* `Procedure.Separately`
* `Attempt.Confined`
-/

namespace DualModule

/-- What there is at a location, and the other names of the file there. -/
def FileTree.view (t : FileTree) (l : Location) : Option Node × Set Location :=
  (t.get? l, {k | t.Twin l k})

/-- Which changes may be made to what is at a location. -/
structure Tolerance where
  Allows : Location → Option Node → Option Node → Prop
  refl : ∀ l x, Allows l x x
  trans : ∀ l x y z, Allows l x y → Allows l y z → Allows l x z

/-- Every change may be made. -/
def Tolerance.any : Tolerance := ⟨fun _ _ _ => True, fun _ _ => trivial, fun _ _ _ _ _ _ => trivial⟩

variable {α β : Type} {host : Host} {tolerance : Tolerance} {region : Set Location}
variable {t u v : FileTree} {l : Location}

namespace FileTree

theorem get?_eq_of_view (h : u.view l = t.view l) : u.get? l = t.get? l :=
  congrArg Prod.fst h

theorem twin_iff_of_view (h : u.view l = t.view l) (k : Location) : u.Twin l k ↔ t.Twin l k :=
  Set.ext_iff.1 (congrArg Prod.snd h) k

/-- Trees that look alike everywhere are equal. -/
theorem ext_view (h : ∀ l, u.view l = t.view l) : u = t :=
  ext (fun l => get?_eq_of_view (h l)) fun l => twin_iff_of_view (h l)

end FileTree

/-- The second tree is the first one after tolerated changes outside a region. -/
structure FileTree.Seen (tolerance : Tolerance) (region : Set Location) (t u : FileTree) : Prop where
  inside : ∀ l ∈ region, u.view l = t.view l
  outside : ∀ l ∉ region, tolerance.Allows l (t.get? l) (u.get? l)

theorem FileTree.Seen.refl (tolerance : Tolerance) (region : Set Location) (t : FileTree) :
    t.Seen tolerance region t :=
  ⟨fun _ _ => rfl, fun l _ => tolerance.refl l _⟩

theorem FileTree.Seen.get?_eq (h : t.Seen tolerance region u) (hl : l ∈ region) :
    u.get? l = t.get? l :=
  get?_eq_of_view (h.inside l hl)

theorem FileTree.Seen.alone (h : t.Seen tolerance region u) (hl : l ∈ region)
    (halone : t.Alone l) : u.Alone l :=
  fun k hk => halone k ((twin_iff_of_view (h.inside l hl) k).1 hk)

/-- What is in the region decides how the request is answered and what it changes there, it changes
nothing outside, and what it changes may be changed. -/
structure Request.Confined (host : Host) (tolerance : Tolerance) (region : Set Location)
    (t : FileTree) (r : Request) : Prop where
  reply : ∀ u, t.Seen tolerance region u → (r.answer host u).1 = (r.answer host t).1
  inside : ∀ u, t.Seen tolerance region u → ∀ l ∈ region,
    (r.answer host u).2.view l = (r.answer host t).2.view l
  outside : ∀ u, t.Seen tolerance region u → ∀ l ∉ region,
    (r.answer host u).2.view l = u.view l
  tolerated : ∀ l ∈ region, tolerance.Allows l (t.get? l) ((r.answer host t).2.get? l)

/-- A question about what is in the region. -/
theorem Request.Confined.of_unchanged {r : Request} (hunchanged : ∀ u, (r.answer host u).2 = u)
    (hreply : ∀ u, t.Seen tolerance region u → (r.answer host u).1 = (r.answer host t).1) :
    r.Confined host tolerance region t where
  reply := hreply
  inside := by
    intro u hu l hl
    rw [hunchanged, hunchanged, hu.inside l hl]
  outside := by
    intro u hu l hl
    rw [hunchanged]
  tolerated := by
    intro l hl
    rw [hunchanged]
    exact tolerance.refl l _

namespace Procedure

/-- Every request of a run is confined to the region. -/
def Confined (host : Host) (tolerance : Tolerance) (region : Set Location) :
    Procedure α → FileTree → Prop
  | done _, _ => True
  | ask r next, t =>
    r.Confined host tolerance region t ∧
      (next (r.answer host t).1).Confined host tolerance region (r.answer host t).2

theorem confined_done (a : α) (t : FileTree) :
    (done a).Confined host tolerance region t := trivial

theorem confined_request {r : Request} (h : r.Confined host tolerance region t) :
    (request r).Confined host tolerance region t :=
  ⟨h, trivial⟩

/-- **One confined procedure after another** is confined. -/
theorem Confined.bind {p : Procedure α} {f : α → Procedure β}
    (h : p.Confined host tolerance region t)
    (hf : (f (p.run host t).1).Confined host tolerance region (p.run host t).2) :
    (p >>= f).Confined host tolerance region t := by
  induction p generalizing t with
  | done a => exact hf
  | ask r next ih => exact ⟨h.1, ih _ h.2 hf⟩

/-! ### Parties -/

/-- A procedure under way: the region that it keeps to, what is left of it, and the tree that there
would be if it were alone. -/
structure Party (α : Type) where
  region : Set Location
  rest : Procedure α
  tree : FileTree

namespace Party

/-- The region of the party, and how the party ends if it is alone. -/
def ending (host : Host) (a : Party α) : Set Location × α × FileTree :=
  (a.region, a.rest.run host a.tree)

/-- The party after the answer to a request, alone. -/
def answered (host : Host) (a : Party α) (r : Request) (next : r.Reply → Procedure α) : Party α :=
  ⟨a.region, next (r.answer host a.tree).1, (r.answer host a.tree).2⟩

theorem ending_answered {a : Party α} {r : Request} {next : r.Reply → Procedure α}
    (h : a.rest = ask r next) : (a.answered host r next).ending host = a.ending host := by
  rw [ending, ending, h]
  rfl

end Party

/-- Some parties have been under way together since the tree was `t`, and it is `u` now. -/
structure Together (host : Host) (tolerance : Tolerance) (t : FileTree) (parties : List (Party α))
    (u : FileTree) : Prop where
  disjoint : parties.Pairwise fun a b => Disjoint a.region b.region
  confined : ∀ a ∈ parties, a.rest.Confined host tolerance a.region a.tree
  own : ∀ a ∈ parties, ∀ l ∈ a.region, u.view l = a.tree.view l
  others : ∀ a ∈ parties, ∀ l ∉ a.region, a.tree.view l = t.view l
  tolerated : ∀ a ∈ parties, ∀ l ∈ a.region, tolerance.Allows l (t.get? l) (a.tree.get? l)
  elsewhere : ∀ l, (∀ a ∈ parties, l ∉ a.region) → u.view l = t.view l

/-- The results and the tree when each party has ended as it ends alone. -/
structure Separately (t : FileTree) (endings : List (Set Location × α × FileTree))
    (results : List α) (u : FileTree) : Prop where
  results_eq : results = endings.map fun e => e.2.1
  inside : ∀ e ∈ endings, ∀ l ∈ e.1, u.view l = e.2.2.view l
  elsewhere : ∀ l, (∀ e ∈ endings, l ∉ e.1) → u.view l = t.view l

/-- The endings determine the tree, whatever their order. -/
theorem Separately.tree_unique {endings endings' : List (Set Location × α × FileTree)}
    {results results' : List α} (h : Separately t endings results u)
    (h' : Separately t endings' results' v) (hperm : endings.Perm endings') : u = v := by
  refine FileTree.ext_view fun l => ?_
  by_cases hl : ∃ e ∈ endings, l ∈ e.1
  · obtain ⟨e, he, hle⟩ := hl
    rw [h.inside e he l hle, h'.inside e (hperm.mem_iff.1 he) l hle]
  · have helsewhere : ∀ e ∈ endings, l ∉ e.1 := fun e he hle => hl ⟨e, he, hle⟩
    rw [h.elsewhere l helsewhere, h'.elsewhere l fun e he => helsewhere e (hperm.mem_iff.2 he)]

namespace Together

variable {parties parties' : List (Party α)} {a : Party α}

/-- When nobody has been answered yet. -/
theorem start (hdisjoint : parties.Pairwise fun a b => Disjoint a.region b.region)
    (hparties : ∀ a ∈ parties, a.tree = t ∧ a.rest.Confined host tolerance a.region t) :
    Together host tolerance t parties t := by
  refine ⟨hdisjoint, ?_, ?_, ?_, ?_, fun _ _ => rfl⟩
  all_goals
    intro a ha
    obtain ⟨htree, hconfined⟩ := hparties a ha
    rw [htree]
  · exact hconfined
  · exact fun _ _ => rfl
  · exact fun _ _ => rfl
  · exact fun l _ => tolerance.refl l _

/-- **A party sees only tolerated changes** outside its region. -/
theorem seen (h : Together host tolerance t parties u) (ha : a ∈ parties) :
    a.tree.Seen tolerance a.region u := by
  refine ⟨h.own a ha, ?_⟩
  intro l hl
  rw [FileTree.get?_eq_of_view (h.others a ha l hl)]
  by_cases hregion : ∃ b ∈ parties, l ∈ b.region
  · obtain ⟨b, hb, hlb⟩ := hregion
    rw [FileTree.get?_eq_of_view (h.own b hb l hlb)]
    exact h.tolerated b hb l hlb
  · have helsewhere : ∀ b ∈ parties, l ∉ b.region := fun b hb hlb => hregion ⟨b, hb, hlb⟩
    rw [FileTree.get?_eq_of_view (h.elsewhere l helsewhere)]
    exact tolerance.refl l _

theorem perm (h : Together host tolerance t parties u) (hperm : parties.Perm parties') :
    Together host tolerance t parties' u := by
  refine ⟨hperm.pairwise h.disjoint fun hab => hab.symm, ?_, ?_, ?_, ?_, ?_⟩
  · exact fun a ha => h.confined a (hperm.mem_iff.2 ha)
  · exact fun a ha => h.own a (hperm.mem_iff.2 ha)
  · exact fun a ha => h.others a (hperm.mem_iff.2 ha)
  · exact fun a ha => h.tolerated a (hperm.mem_iff.2 ha)
  · exact fun l hl => h.elsewhere l fun a ha => hl a (hperm.mem_iff.1 ha)

/-- **The step**: a party gets an answer, the same as if it was alone. -/
theorem answer {r : Request} {next : r.Reply → Procedure α}
    (h : Together host tolerance t (a :: parties) u) (hask : a.rest = ask r next) :
    (r.answer host u).1 = (r.answer host a.tree).1 ∧
      Together host tolerance t (a.answered host r next :: parties) (r.answer host u).2 := by
  have hseen := h.seen List.mem_cons_self
  obtain ⟨hdisjoint, hothers⟩ := List.pairwise_cons.1 h.disjoint
  obtain ⟨hconfined, hconfined'⟩ := List.forall_mem_cons.1 h.confined
  obtain ⟨-, hown⟩ := List.forall_mem_cons.1 h.own
  obtain ⟨ha, hothers'⟩ := List.forall_mem_cons.1 h.others
  obtain ⟨htolerated, htolerated'⟩ := List.forall_mem_cons.1 h.tolerated
  rw [hask] at hconfined
  obtain ⟨hr, hrest⟩ := hconfined
  refine ⟨hr.reply u hseen, List.pairwise_cons.2 ⟨hdisjoint, hothers⟩, ?_, ?_, ?_, ?_, ?_⟩
  · exact List.forall_mem_cons.2 ⟨hrest, hconfined'⟩
  · -- the regions of the others are outside the region in which something may have changed
    refine List.forall_mem_cons.2 ⟨hr.inside u hseen, fun b hb l hl => ?_⟩
    rw [hr.outside u hseen l (Set.disjoint_right.1 (hdisjoint b hb) hl)]
    exact hown b hb l hl
  · refine List.forall_mem_cons.2 ⟨fun l hl => ?_, hothers'⟩
    exact (hr.outside a.tree (.refl _ _ _) l hl).trans (ha l hl)
  · refine List.forall_mem_cons.2 ⟨fun l hl => ?_, htolerated'⟩
    exact tolerance.trans l _ _ _ (htolerated l hl) (hr.tolerated l hl)
  · intro l hl
    obtain ⟨hla, hl⟩ := List.forall_mem_cons.1 hl
    rw [hr.outside u hseen l hla]
    exact h.elsewhere l (List.forall_mem_cons.2 ⟨hla, hl⟩)

/-- Whichever party gets an answer, each ends alone as it did before. -/
theorem advances {qs : List (Procedure α)} (h : Together host tolerance t parties u)
    (hstep : Advances host (parties.map Party.rest) u qs v) :
    ∃ parties', qs = parties'.map Party.rest ∧ Together host tolerance t parties' v ∧
      parties'.map (Party.ending host) = parties.map (Party.ending host) := by
  generalize hps : parties.map Party.rest = ps at hstep
  cases hstep with
  | answer before after r next =>
      obtain ⟨front, back, rfl, rfl, hback⟩ := List.map_eq_append_iff.1 hps
      obtain ⟨a, back, rfl, hask, rfl⟩ := List.map_eq_cons_iff.1 hback
      obtain ⟨hreply, htogether⟩ := (h.perm List.perm_middle).answer hask
      refine ⟨front ++ a.answered host r next :: back, ?_, htogether.perm List.perm_middle.symm, ?_⟩
      · rw [hreply, List.map_append, List.map_cons]
        rfl
      · simp only [List.map_append, List.map_cons, Party.ending_answered hask]

/-- **The run**: each party ends as it ends alone. -/
theorem interleaved {results : List α} (h : Together host tolerance t parties u)
    (hrun : Interleaved host (parties.map Party.rest) u results v) :
    Separately t (parties.map (Party.ending host)) results v := by
  generalize hps : parties.map Party.rest = ps at hrun
  induction hrun generalizing parties with
  | finished results u =>
      have hdone : ∀ a ∈ parties, ∃ result, a.rest = done result := by
        intro a ha
        have hrest : a.rest ∈ results.map done := hps ▸ List.mem_map_of_mem ha
        obtain ⟨result, -, hresult⟩ := List.mem_map.1 hrest
        exact ⟨result, hresult.symm⟩
      refine ⟨?_, ?_, ?_⟩
      · have hresults := congrArg (List.map fun p => (p.run host u).1) hps
        simp only [List.map_map, Function.comp_def, run_done, List.map_id'] at hresults
        rw [← hresults, List.map_map]
        refine List.map_congr_left fun a ha => ?_
        obtain ⟨result, hresult⟩ := hdone a ha
        simp only [Function.comp_apply, Party.ending, hresult, run_done]
      · intro e he l hl
        obtain ⟨a, ha, rfl⟩ := List.mem_map.1 he
        obtain ⟨result, hresult⟩ := hdone a ha
        rw [h.own a ha l hl, Party.ending, hresult]
        rfl
      · intro l hl
        exact h.elsewhere l fun a ha => hl _ (List.mem_map_of_mem ha)
  | step hstep hrun ih =>
      obtain ⟨parties', hqs, htogether, hendings⟩ := h.advances (hps ▸ hstep)
      rw [← hendings]
      exact ih htogether hqs.symm

end Together

/-- **Procedures confined to disjoint regions** come to the results that they have alone, in every
interleaving, and leave what they leave alone. -/
theorem interleaved_confined {jobs : List (Set Location × Procedure α)} {results : List α}
    (hdisjoint : jobs.Pairwise fun a b => Disjoint a.1 b.1)
    (hconfined : ∀ j ∈ jobs, j.2.Confined host tolerance j.1 t)
    (hrun : Interleaved host (jobs.map Prod.snd) t results v) :
    Separately t (jobs.map fun j => (j.1, j.2.run host t)) results v := by
  let parties : List (Party α) := jobs.map fun j => ⟨j.1, j.2, t⟩
  have hparties : ∀ {P : Party α → Prop}, (∀ j ∈ jobs, P ⟨j.1, j.2, t⟩) → ∀ a ∈ parties, P a := by
    intro P h a ha
    obtain ⟨j, hj, rfl⟩ := List.mem_map.1 ha
    exact h j hj
  have htogether : Together host tolerance t parties t :=
    ⟨List.pairwise_map.2 hdisjoint, hparties hconfined, hparties fun _ _ _ _ => rfl,
      hparties fun _ _ _ _ => rfl, hparties fun _ _ l _ => tolerance.refl l _, fun _ _ => rfl⟩
  have hrest : parties.map Party.rest = jobs.map Prod.snd := by
    simp [parties, Function.comp_def]
  have hseparately := htogether.interleaved (hrest ▸ hrun)
  rwa [List.map_map] at hseparately

end Procedure

/-! ### Attempts -/

namespace Attempt

variable {ε : Type} {a : Attempt ε α} {f : α → Attempt ε β}

/-- Every request of the attempt is confined to the region. -/
def Confined (host : Host) (tolerance : Tolerance) (region : Set Location) (a : Attempt ε α)
    (t : FileTree) : Prop :=
  (ExceptT.run a).Confined host tolerance region t

theorem confined_pure (x : α) : Confined host tolerance region (pure x : Attempt ε α) t := trivial

theorem confined_throw (e : ε) : Confined host tolerance region (throw e : Attempt ε α) t := trivial

theorem Confined.bind_ok {x : α} (h : a.Confined host tolerance region t)
    (hrun : a.outcome host t = (.ok x, u)) (hf : (f x).Confined host tolerance region u) :
    (a >>= f).Confined host tolerance region t := by
  unfold Confined
  rw [ExceptT.run_bind]
  refine Procedure.Confined.bind h ?_
  unfold outcome at hrun
  rw [hrun]
  exact hf

theorem Confined.bind_error {e : ε} (h : a.Confined host tolerance region t)
    (hrun : a.outcome host t = (.error e, u)) : (a >>= f).Confined host tolerance region t := by
  unfold Confined
  rw [ExceptT.run_bind]
  refine Procedure.Confined.bind h ?_
  unfold outcome at hrun
  rw [hrun]
  exact Procedure.confined_done _ _

/-- A confined attempt, and then one that is confined wherever it begins. -/
theorem Confined.bind (h : a.Confined host tolerance region t)
    (hf : ∀ x u, (f x).Confined host tolerance region u) :
    (a >>= f).Confined host tolerance region t := by
  rcases hrun : a.outcome host t with ⟨result, u⟩
  cases result with
  | ok x => exact h.bind_ok hrun (hf x u)
  | error e => exact h.bind_error hrun

theorem confined_explained {p : Procedure (Except SystemError α)}
    (h : p.Confined host tolerance region t) (explain : SystemError → ε) :
    (explained p explain).Confined host tolerance region t := by
  unfold Confined explained
  rw [ExceptT.run_mk, map_eq_pure_bind]
  exact h.bind (Procedure.confined_done _ _)

theorem confined_lift {p : Procedure α} (h : p.Confined host tolerance region t) :
    Confined host tolerance region (liftM p : Attempt ε α) t := by
  show Procedure.Confined host tolerance region (Except.ok <$> p : Procedure (Except ε α)) t
  rw [map_eq_pure_bind]
  exact h.bind (Procedure.confined_done _ _)

end Attempt

end DualModule

import DualModule.Proofs.Location
import DualModule.Proofs.Specifier
import DualModule.Specifier.Resolve
/-!
# Where specifiers lead

A specifier is written to be read again: from the directory that it was written for it leads to its
target (`Specifier.resolve_relative`).  What is read are the steps of a text, and a text that was
joined from parts has the steps of its parts, with or without `./` in front (`resolve_write`).

**Up and down.**  Locations list their names from the inside out.  So the steps up drop names at the
front, until what the directory and the target have in common is left, and the steps down put the
rest of the target's names in front of that.
-/

namespace DualModule

/-! ### The steps of joined text -/

theorem Utf8.encode_joinPieces (ps : List Text) :
    encode (joinPieces '/' ps) = joinPieces slash (ps.map encode) := by
  have hslash : encodeChar '/' = [slash] := by decide
  induction ps with
  | nil => rfl
  | cons p ps ih =>
      by_cases hps : ps = []
      · subst hps
        simp [joinPieces]
      · have hmap : ps.map encode ≠ [] := by simpa using hps
        rw [← List.singleton_append, joinPieces_append (List.cons_ne_nil _ _) hps, List.map_append,
          joinPieces_append (by simp) hmap, ← ih, encode_append, encode_cons, hslash]
        simp [joinPieces]

namespace Step

/-- What a part of a specifier asks for. -/
def ofPart? (part : Text) : Option Step := ofPiece? (Utf8.encode part)

@[simp] theorem ofPart?_up : ofPart? "..".toList = some .up := by decide

theorem ofPart?_text {n : FileName} {text : Text} (h : n.text? = some text) :
    ofPart? text = some (.down n) := by
  rw [ofPart?, ← FileName.text?_eq_some_iff.1 h, ofPiece?_bytes]

/-- Steps up drop names, until none are left. -/
theorem foldl_move_up (l : Location) (k : Nat) :
    (List.replicate k Step.up).foldl Step.move l = l.drop k := by
  induction k generalizing l with
  | zero => rfl
  | succ k ih => rw [List.replicate_succ, List.foldl_cons, ih, move_up, List.drop_tail]

/-- Steps down put names in front. -/
theorem foldl_move_down (l : Location) (names : List FileName) :
    (names.map Step.down).foldl Step.move l = names.reverse ++ l := by
  induction names generalizing l with
  | nil => rfl
  | cons n names ih => simp [ih]

end Step

namespace Path

theorem steps_ofText_joinPieces {ps : List Text} (h : ∀ t ∈ ps, '/' ∉ t) :
    (ofText (joinPieces '/' ps)).steps = ps.filterMap Step.ofPart? := by
  by_cases hps : ps = []
  · subst hps
    rfl
  · have hslash : ∀ piece ∈ ps.map Utf8.encode, slash ∉ piece := by
      intro piece hpiece
      obtain ⟨t, ht, rfl⟩ := List.mem_map.1 hpiece
      exact fun hs => h t ht ((Utf8.mem_encode_iff (b := slash) (by decide)).1 hs)
    rw [steps, ofText, Utf8.encode_joinPieces, pieces_joinPieces (by simpa using hps) hslash,
      List.filterMap_map]
    rfl

/-- `./` in front asks for nothing. -/
theorem steps_ofText_stay (text : Text) :
    (ofText ("./".toList ++ text)).steps = .stay :: (ofText text).steps := by
  have hfront : Utf8.encode ("./".toList ++ text) = [dot] ++ slash :: Utf8.encode text := by
    rw [Utf8.encode_append]
    rfl
  rw [steps, ofText, hfront, pieces_append_cons, List.filterMap_append]
  rfl

/-- The components of a plain path are the root and the names of its location. -/
theorem Plain.components_eq {p : Path} (h : p.Plain) :
    p.components = .root :: p.location.reverse.map .name := by
  have hnames : ∀ {cs : List Component}, (∀ c ∈ cs, c.IsText) →
      ∃ names : List FileName, cs = names.map .name := by
    intro cs hcs
    induction cs with
    | nil => exact ⟨[], rfl⟩
    | cons c cs ih =>
        rw [List.forall_mem_cons] at hcs
        obtain ⟨n, -, rfl, -⟩ := hcs.1
        obtain ⟨names, rfl⟩ := ih hcs.2
        exact ⟨n :: names, rfl⟩
  obtain ⟨names, hcs⟩ := hnames h.isText
  have hc := components_eq_root_cons h.isAbsolute
  rw [hcs] at hc
  have hpath : p.components = (Location.path names.reverse).components := by
    rw [hc, Location.components_path, List.reverse_reverse]
  have hlocation : p.location = names.reverse := by
    rw [← Location.location_path names.reverse, location, hpath]
    rfl
  rw [hlocation, hpath, Location.components_path]

end Path

namespace Specifier

/-- **What was written is read again**, part by part. -/
theorem resolve_write (l : Location) {ps : List Text} (h : ∀ t ∈ ps, '/' ∉ t) :
    resolve l (write ps) = (ps.filterMap Step.ofPart?).foldl Step.move l := by
  rw [resolve, write_eq]
  split
  · rw [Path.steps_ofText_joinPieces h]
  · rw [Path.steps_ofText_stay, List.foldl_cons, Step.move_stay, Path.steps_ofText_joinPieces h]

/-- Names that are text are read as steps down. -/
theorem filterMap_ofPart?_display {names : List FileName}
    (h : ∀ n ∈ names, (Component.name n).IsText) :
    ((names.map Component.name).map Component.display).filterMap Step.ofPart? =
      names.map .down := by
  induction names with
  | nil => rfl
  | cons n names ih =>
      rw [List.forall_mem_cons] at h
      obtain ⟨n', text, hn, htext⟩ := h.1
      cases hn
      rw [List.map_cons, List.map_cons, Component.display_of_text? htext,
        List.filterMap_cons_some (Step.ofPart?_text htext), ih h.2, List.map_cons]

/-- The parts lead from one list of names to the other: up to what the two have in common, and down
from there. -/
theorem foldl_move_parts (ds : List FileName) {ns : List FileName}
    (h : ∀ n ∈ ns, (Component.name n).IsText) :
    ((parts (.root :: ds.map .name) (.root :: ns.map .name)).filterMap Step.ofPart?).foldl Step.move
      ds.reverse = ns.reverse := by
  obtain ⟨k, hk⟩ : ∃ k, commonLength (ds.map Component.name) (ns.map .name) = k := ⟨_, rfl⟩
  have hle : k ≤ ds.length := by
    simpa [hk] using commonLength_le_left (ds.map Component.name) (ns.map .name)
  have hcommon : ds.take k = ns.take k := by
    have htake := take_commonLength (ds.map Component.name) (ns.map .name)
    rw [hk, ← List.map_take, ← List.map_take] at htake
    exact List.map_inj_right (fun _ _ hname => Component.name.inj hname) |>.1 htake
  have hparts : parts (.root :: ds.map .name) (.root :: ns.map .name) =
      List.replicate (ds.length - k) "..".toList ++
        ((ns.drop k).map Component.name).map Component.display := by
    simp [parts, commonLength, hk, List.map_drop]
  have hups : (List.replicate (ds.length - k) "..".toList).filterMap Step.ofPart? =
      List.replicate (ds.length - k) .up := by
    rw [List.filterMap_replicate, Step.ofPart?_up]
  rw [hparts, List.filterMap_append, List.foldl_append, hups, Step.foldl_move_up,
    filterMap_ofPart?_display fun n hn => h n (List.mem_of_mem_drop hn), Step.foldl_move_down]
  calc (ns.drop k).reverse ++ ds.reverse.drop (ds.length - k)
      = (ns.drop k).reverse ++ (ds.take k).reverse := by
        rw [List.drop_reverse, Nat.sub_sub_self hle]
    _ = (ns.take k ++ ns.drop k).reverse := by rw [hcommon, List.reverse_append]
    _ = ns.reverse := by rw [List.take_append_drop]

/-- **A specifier leads to its target**, wherever the target is. -/
theorem resolve_relative {directory p : Path} (hd : directory.Plain) (hp : p.Plain) :
    resolve directory.location (relative directory p) = p.location := by
  have hslash : ∀ t ∈ parts directory.components p.components, '/' ∉ t := by
    intro t ht
    rw [Path.components_eq_root_cons hp.isAbsolute] at ht
    exact (mem_parts hd.isAbsolute hp.isText t ht).2
  have htext : ∀ n ∈ p.location.reverse, (Component.name n).IsText := by
    intro n hn
    refine hp.isText _ ?_
    rw [hp.components_eq]
    exact List.mem_map_of_mem hn
  have hparts := foldl_move_parts directory.location.reverse htext
  rw [List.reverse_reverse, List.reverse_reverse, ← hd.components_eq, ← hp.components_eq] at hparts
  rw [relative, resolve_write _ hslash, hparts]

end Specifier

end DualModule

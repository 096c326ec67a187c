import DualModule.Path
import DualModule.Proofs.Utf8
import DualModule.Template
import Mathlib.Data.List.Forall2
/-!
# Pieces of templates

What a template says can be told without reading it character by character: it is made of pieces,
and which pieces these are is decided by what may stand where (`Template.Splits`).  Every template
is made of pieces in one way only (`Template.existsUnique_splits`), and it is rendered piece by
piece (`Template.render_eq_mapM`), so that the first piece that cannot be rendered decides the
error (`Template.render_by_pieces`).

**Braces are not alike.**  A `}` by itself is a piece like any other character; a `{` by itself
begins a placeholder, and inside a placeholder a `{` is part of the name.

**Writing templates.**  Text in which every brace is doubled stands for itself, and what precedes or
follows it makes no difference (`Template.render_written`): none of the pieces that it is made of
depends on what is behind it.

## Main Definitions

* `Template.Piece`, `Template.Piece.Fits`, `Template.Splits`, `Template.FitTogether`
* `Template.Piece.Offends`, `Template.Piece.value`
* `Template.Segment`, `Template.escape`
-/

namespace DualModule

variable {ε α β : Type}

/-! ### The first error of many -/

/-- Everything succeeds, in order. -/
theorem mapM_eq_ok_iff {f : α → Except ε β} {xs : List α} {ys : List β} :
    xs.mapM f = .ok ys ↔ List.Forall₂ (fun x y => f x = .ok y) xs ys := by
  induction xs generalizing ys with
  | nil =>
      rw [List.mapM_nil, List.forall₂_nil_left_iff]
      exact ⟨fun h => (Except.ok.inj h).symm, fun h => congrArg Except.ok h.symm⟩
  | cons x xs ih =>
      rw [List.mapM_cons]
      constructor
      · intro h
        cases hx : f x with
        | error e => simp [hx, bind, Except.bind] at h
        | ok y =>
            cases hxs : xs.mapM f with
            | error e => simp [hx, hxs, bind, Except.bind] at h
            | ok zs =>
                simp only [hx, hxs, bind, Except.bind, pure, Except.pure, Except.ok.injEq] at h
                exact h ▸ .cons hx (ih.1 hxs)
      · rintro (_ | ⟨hx, hxs⟩)
        rw [hx, ih.2 hxs]
        rfl

/-- **The first failure** is what many things come to, whatever is behind it. -/
theorem mapM_eq_error_iff {f : α → Except ε β} {xs : List α} {e : ε} :
    xs.mapM f = .error e ↔ ∃ before x after, xs = before ++ x :: after ∧
      (∀ b ∈ before, ∃ y, f b = .ok y) ∧ f x = .error e := by
  constructor
  · intro h
    induction xs with
    | nil => cases h
    | cons x xs ih =>
        rw [List.mapM_cons] at h
        cases hx : f x with
        | error e' =>
            rw [hx] at h
            obtain rfl : e' = e := Except.error.inj h
            exact ⟨[], x, xs, rfl, List.forall_mem_nil _, hx⟩
        | ok y =>
            cases hxs : xs.mapM f with
            | ok ys => simp [hx, hxs, bind, Except.bind, pure, Except.pure] at h
            | error e' =>
                simp only [hx, hxs, bind, Except.bind, Except.error.injEq] at h
                obtain ⟨before, x', after, rfl, hbefore, hx'⟩ := ih (h ▸ hxs)
                exact ⟨x :: before, x', after, rfl, List.forall_mem_cons.2 ⟨⟨y, hx⟩, hbefore⟩, hx'⟩
  · rintro ⟨before, x, after, rfl, hbefore, hx⟩
    induction before with
    | nil =>
        rw [List.nil_append, List.mapM_cons, hx]
        rfl
    | cons b before ih =>
        rw [List.forall_mem_cons] at hbefore
        obtain ⟨⟨y, hy⟩, hbefore⟩ := hbefore
        rw [List.cons_append, List.mapM_cons, hy, ih hbefore]
        rfl

/-- Everything succeeds if and only if each thing does. -/
theorem exists_mapM_eq_ok_iff {f : α → Except ε β} {xs : List α} :
    (∃ ys, xs.mapM f = .ok ys) ↔ ∀ x ∈ xs, ∃ y, f x = .ok y := by
  constructor
  · rintro ⟨ys, h⟩
    rw [mapM_eq_ok_iff] at h
    induction h with
    | nil => exact List.forall_mem_nil _
    | cons hx _ ih => exact List.forall_mem_cons.2 ⟨⟨_, hx⟩, ih⟩
  · intro h
    cases hxs : xs.mapM f with
    | ok ys => exact ⟨ys, rfl⟩
    | error e =>
        obtain ⟨before, x, after, rfl, -, hx⟩ := mapM_eq_error_iff.1 hxs
        obtain ⟨y, hy⟩ := h x (List.mem_append_right _ List.mem_cons_self)
        cases hx.symm.trans hy

namespace Template

/-! ### Pieces -/

/-- What a template is made of. -/
inductive Piece where
  /-- `{{` -/
  | doubleOpen
  /-- `}}` -/
  | doubleClose
  /-- `}` by itself -/
  | loneClose
  /-- `{name}` -/
  | placeholder (name : Text)
  /-- `{` that nothing closes -/
  | unterminated
  /-- any other character -/
  | other (c : Char)
deriving DecidableEq

namespace Piece

/-- How a piece is written. -/
def text : Piece → Text
  | doubleOpen => ['{', '{']
  | doubleClose => ['}', '}']
  | loneClose => ['}']
  | placeholder name => '{' :: (name ++ ['}'])
  | unterminated => ['{']
  | other c => [c]

/-- Whether a piece may stand in front of `after`. -/
def Fits (after : Text) : Piece → Prop
  | doubleOpen | doubleClose => True
  | loneClose => after.head? ≠ some '}'
  | placeholder name => name.head? ≠ some '{' ∧ '}' ∉ name
  | unterminated => after.head? ≠ some '{' ∧ '}' ∉ after
  | other c => c ≠ '{' ∧ c ≠ '}'

instance (after : Text) : (piece : Piece) → Decidable (piece.Fits after)
  | doubleOpen | doubleClose => inferInstanceAs (Decidable True)
  | loneClose => inferInstanceAs (Decidable (_ ≠ _))
  | placeholder _ | unterminated | other _ => inferInstanceAs (Decidable (_ ∧ _))

/-- A piece that cannot be rendered. -/
def Offends : Piece → Prop
  | placeholder name => name ≠ "out".toList
  | unterminated => True
  | doubleOpen | doubleClose | loneClose | other _ => False

instance : (piece : Piece) → Decidable piece.Offends
  | placeholder _ => inferInstanceAs (Decidable (_ ≠ _))
  | unterminated => inferInstanceAs (Decidable True)
  | doubleOpen | doubleClose | loneClose | other _ => inferInstanceAs (Decidable False)

/-- The text that a piece stands for, if it does not offend. -/
def value (out : Text) : Piece → Text
  | doubleOpen => ['{']
  | doubleClose | loneClose => ['}']
  | placeholder _ => out
  | unterminated => []
  | other c => [c]

/-- What a piece of `template` is rendered as. -/
def render (template out : Text) : Piece → Except TemplateError Text
  | placeholder name =>
    if name = "out".toList then .ok out else .error (.unknownPlaceholder name template)
  | unterminated => .error (.unterminatedPlaceholder template)
  | piece => .ok (piece.value out)

theorem render_of_not_offends (template out : Text) {piece : Piece} (h : ¬ piece.Offends) :
    piece.render template out = .ok (piece.value out) := by
  cases piece with
  | placeholder name => exact if_pos (not_not.1 h)
  | unterminated => exact absurd trivial h
  | doubleOpen => rfl
  | doubleClose => rfl
  | loneClose => rfl
  | other c => rfl

theorem exists_render_eq_ok_iff (piece : Piece) (template out : Text) :
    (∃ text, piece.render template out = .ok text) ↔ ¬ piece.Offends := by
  refine ⟨?_, fun h => ⟨_, render_of_not_offends template out h⟩⟩
  rintro ⟨text, htext⟩ hoffends
  cases piece with
  | placeholder name => exact nomatch (if_neg hoffends).symm.trans htext
  | unterminated => cases htext
  | doubleOpen => exact hoffends
  | doubleClose => exact hoffends
  | loneClose => exact hoffends
  | other c => exact hoffends

end Piece

/-- A template is made of pieces, each of which may stand where it stands. -/
inductive Splits : Text → List Piece → Prop
  | nil : Splits [] []
  | cons {piece : Piece} {rest : Text} {pieces : List Piece} (hfits : piece.Fits rest)
      (h : Splits rest pieces) : Splits (piece.text ++ rest) (piece :: pieces)

/-- Pieces that may stand one after another, with nothing behind them. -/
def FitTogether : List Piece → Prop
  | [] => True
  | piece :: pieces => piece.Fits (pieces.flatMap Piece.text) ∧ FitTogether pieces

instance decidableFitTogether : (pieces : List Piece) → Decidable (FitTogether pieces)
  | [] => inferInstanceAs (Decidable True)
  | _ :: pieces =>
    have := decidableFitTogether pieces
    inferInstanceAs (Decidable (_ ∧ _))

theorem splits_iff {template : Text} {pieces : List Piece} :
    Splits template pieces ↔ pieces.flatMap Piece.text = template ∧ FitTogether pieces := by
  constructor
  · intro h
    induction h with
    | nil => exact ⟨rfl, trivial⟩
    | cons hfits _ ih =>
        obtain ⟨rfl, htogether⟩ := ih
        exact ⟨rfl, hfits, htogether⟩
  · rintro ⟨rfl, h⟩
    induction pieces with
    | nil => exact .nil
    | cons piece pieces ih => exact .cons h.1 (ih h.2)

instance (template : Text) (pieces : List Piece) : Decidable (Splits template pieces) :=
  decidable_of_iff _ splits_iff.symm

/-- The piece that a token begins with. -/
def Token.piece : Token → Piece
  | .openBrace => .doubleOpen
  | .closeBrace => .doubleClose
  | .placeholder name => .placeholder name
  | .unterminated _ => .unterminated
  | .plain c => if c = '}' then .loneClose else .other c

variable {template rest : Text} {piece : Piece} {pieces : List Piece}

/-! ### Pieces and tokens -/

theorem tokensFrom_placeholder {name : Text} (h : '}' ∉ name) (read rest : Text) :
    tokensFrom (some read) (name ++ '}' :: rest) =
      .placeholder (read.reverse ++ name) :: tokens rest := by
  induction name generalizing read with
  | nil => simp [tokensFrom, tokens]
  | cons c name ih =>
      rw [List.mem_cons, not_or] at h
      rw [List.cons_append, tokensFrom, ih h.2]
      · simp
      · exact fun hc => h.1 hc.symm

theorem tokensFrom_unterminated (h : '}' ∉ rest) (read : Text) :
    tokensFrom (some read) rest = [.unterminated (read.reverse ++ rest)] := by
  induction rest generalizing read with
  | nil => simp [tokensFrom]
  | cons c rest ih =>
      rw [List.mem_cons, not_or] at h
      rw [tokensFrom, ih h.2]
      · simp
      · exact fun hc => h.1 hc.symm

/-- A `{` that is not doubled begins a placeholder. -/
theorem tokens_open (h : rest.head? ≠ some '{') :
    tokens ('{' :: rest) = tokensFrom (some []) rest := by
  rw [tokens, tokensFrom]
  · rintro rest' rfl
    exact h rfl

/-- A `}` that is not doubled is a character like any other. -/
theorem tokens_close (h : rest.head? ≠ some '}') :
    tokens ('}' :: rest) = .plain '}' :: tokens rest := by
  cases rest with
  | nil => rfl
  | cons c rest =>
      have hc : c ≠ '}' := fun hc => h (congrArg some hc)
      simp [tokens, tokensFrom, hc]

theorem tokens_plain {c : Char} (hopen : c ≠ '{') (hclose : c ≠ '}') (rest : Text) :
    tokens (c :: rest) = .plain c :: tokens rest := by
  simp [tokens, tokensFrom, hopen, hclose]

/-- **The piece in front decides the first token**, and what follows is read by itself unless
nothing closes that piece. -/
theorem exists_tokens_eq_cons (h : piece.Fits rest) :
    ∃ token more, tokens (piece.text ++ rest) = token :: more ∧ token.piece = piece ∧
      (∀ template out, renderToken template out token = piece.render template out) ∧
      (piece ≠ .unterminated → more = tokens rest) := by
  cases piece with
  | doubleOpen => exact ⟨.openBrace, tokens rest, rfl, rfl, fun _ _ => rfl, fun _ => rfl⟩
  | doubleClose => exact ⟨.closeBrace, tokens rest, rfl, rfl, fun _ _ => rfl, fun _ => rfl⟩
  | loneClose => exact ⟨.plain '}', tokens rest, tokens_close h, rfl, fun _ _ => rfl, fun _ => rfl⟩
  | placeholder name =>
      refine ⟨.placeholder name, tokens rest, ?_, rfl, fun _ _ => rfl, fun _ => rfl⟩
      have hopen : (name ++ '}' :: rest).head? ≠ some '{' := by
        cases name with
        | nil => simp
        | cons c name => exact h.1
      show tokens ('{' :: ((name ++ ['}']) ++ rest)) = _
      rw [List.append_assoc, List.singleton_append, tokens_open hopen, tokensFrom_placeholder h.2]
      rfl
  | unterminated =>
      refine ⟨.unterminated rest, [], ?_, rfl, fun _ _ => rfl, fun hne => absurd rfl hne⟩
      show tokens ('{' :: rest) = _
      rw [tokens_open h.1, tokensFrom_unterminated h.2]
      rfl
  | other c =>
      exact ⟨.plain c, tokens rest, tokens_plain h.1 h.2 rest, if_neg h.2, fun _ _ => rfl,
        fun _ => rfl⟩

/-! ### One way to split -/

theorem Piece.text_ne_nil (piece : Piece) : piece.text ≠ [] := by
  cases piece <;> exact List.cons_ne_nil _ _

/-- Only one piece may stand in front. -/
theorem Piece.eq_of_text_append {piece' : Piece} {rest' : Text} (h : piece.Fits rest)
    (h' : piece'.Fits rest') (heq : piece.text ++ rest = piece'.text ++ rest') :
    piece = piece' ∧ rest = rest' := by
  obtain ⟨token, more, htokens, rfl, -⟩ := exists_tokens_eq_cons h
  obtain ⟨token', more', htokens', rfl, -⟩ := exists_tokens_eq_cons h'
  obtain ⟨rfl, -⟩ := List.cons.inj ((heq ▸ htokens).symm.trans htokens')
  exact ⟨rfl, List.append_cancel_left heq⟩

/-- Some piece stands in front. -/
theorem Piece.exists_text_append (h : template ≠ []) :
    ∃ piece rest, template = Piece.text piece ++ rest ∧ piece.Fits rest := by
  obtain ⟨c, rest, rfl⟩ := List.exists_cons_of_ne_nil h
  by_cases hopen : c = '{'
  · subst hopen
    by_cases hdouble : rest.head? = some '{'
    · obtain ⟨rest, rfl⟩ := List.head?_eq_some_iff.1 hdouble
      exact ⟨.doubleOpen, rest, rfl, trivial⟩
    · by_cases hclosed : '}' ∈ rest
      · -- the name ends where the first brace closes it
        obtain ⟨name, rest, rfl, hname⟩ := List.eq_append_cons_of_mem hclosed
        refine ⟨.placeholder name, rest, by simp [Piece.text], ?_, hname⟩
        rintro hhead
        exact hdouble (by rw [List.head?_append, hhead]; rfl)
      · exact ⟨.unterminated, rest, rfl, hdouble, hclosed⟩
  · by_cases hclose : c = '}'
    · subst hclose
      by_cases hdouble : rest.head? = some '}'
      · obtain ⟨rest, rfl⟩ := List.head?_eq_some_iff.1 hdouble
        exact ⟨.doubleClose, rest, rfl, trivial⟩
      · exact ⟨.loneClose, rest, rfl, hdouble⟩
    · exact ⟨.other c, rest, rfl, hopen, hclose⟩

theorem Splits.unique {pieces' : List Piece} (h : Splits template pieces)
    (h' : Splits template pieces') : pieces = pieces' := by
  induction h generalizing pieces' with
  | nil =>
      generalize htemplate : ([] : Text) = template at h'
      cases h' with
      | nil => rfl
      | cons hfits h' =>
          exact absurd (List.append_eq_nil_iff.1 htemplate.symm).1 (Piece.text_ne_nil _)
  | cons hfits _ ih =>
      generalize htemplate : Piece.text _ ++ _ = template at h'
      cases h' with
      | nil => exact absurd (List.append_eq_nil_iff.1 htemplate).1 (Piece.text_ne_nil _)
      | cons hfits' h' =>
          obtain ⟨rfl, rfl⟩ := Piece.eq_of_text_append hfits hfits' htemplate
          rw [ih h']

theorem exists_splits (template : Text) : ∃ pieces, Splits template pieces := by
  induction hlength : template.length using Nat.strongRecOn generalizing template with
  | ind length ih =>
      by_cases hnil : template = []
      · exact ⟨[], hnil ▸ .nil⟩
      · obtain ⟨piece, rest, rfl, hfits⟩ := Piece.exists_text_append hnil
        have hpos := List.length_pos_iff.2 piece.text_ne_nil
        rw [List.length_append] at hlength
        obtain ⟨pieces, hpieces⟩ := ih rest.length (by omega) rest rfl
        exact ⟨piece :: pieces, .cons hfits hpieces⟩

/-- **Every template is made of pieces in one way.** -/
theorem existsUnique_splits (template : Text) : ∃! pieces, Splits template pieces := by
  obtain ⟨pieces, h⟩ := exists_splits template
  exact ⟨pieces, h, fun _ h' => h'.unique h⟩

/-! ### Rendering -/

theorem renderTokens_splits (h : Splits rest pieces) (template out : Text) :
    renderTokens template out (tokens rest) =
      (pieces.mapM (Piece.render template out)).map List.flatten := by
  induction h with
  | nil => rfl
  | @cons piece rest pieces hfits _ ih =>
      obtain ⟨token, more, htokens, -, hrender, hmore⟩ := exists_tokens_eq_cons hfits
      rw [htokens, renderTokens, hrender, List.mapM_cons]
      cases hpiece : piece.render template out with
      | error e => rfl
      | ok text =>
          have hne : piece ≠ .unterminated := by
            rintro rfl
            cases hpiece
          rw [hmore hne, ih]
          cases pieces.mapM (Piece.render template out) <;> rfl

/-- **A template is rendered piece by piece.** -/
theorem render_eq_mapM (h : Splits template pieces) (out : Text) :
    render template out = (pieces.mapM (Piece.render template out)).map List.flatten :=
  renderTokens_splits h template out

/-- A template whose pieces do not offend stands for what they stand for. -/
theorem render_of_not_offends (h : Splits template pieces)
    (hpieces : ∀ piece ∈ pieces, ¬ piece.Offends) (out : Text) :
    render template out = .ok (pieces.flatMap (Piece.value out)) := by
  have hvalues : pieces.mapM (Piece.render template out) = .ok (pieces.map (Piece.value out)) := by
    rw [mapM_eq_ok_iff, List.forall₂_map_right_iff, List.forall₂_same]
    exact fun piece hpiece => Piece.render_of_not_offends template out (hpieces piece hpiece)
  rw [render_eq_mapM h, hvalues]
  rfl

/-- A template can be rendered if and only if each of its pieces can. -/
theorem exists_render_eq_ok_iff (h : Splits template pieces) (out : Text) :
    (∃ text, render template out = .ok text) ↔ ∀ piece ∈ pieces, ¬ piece.Offends := by
  have hpieces : (∃ text, render template out = .ok text) ↔
      ∃ values, pieces.mapM (Piece.render template out) = .ok values := by
    rw [render_eq_mapM h]
    cases pieces.mapM (Piece.render template out) with
    | error e => exact ⟨nofun, nofun⟩
    | ok values => exact ⟨fun _ => ⟨values, rfl⟩, fun _ => ⟨values.flatten, rfl⟩⟩
  rw [hpieces, exists_mapM_eq_ok_iff]
  exact forall₂_congr fun piece _ => piece.exists_render_eq_ok_iff template out

/-- The first piece that offends decides the error. -/
theorem render_eq_error {before after : List Piece} {out : Text} {e : TemplateError}
    (h : Splits template (before ++ piece :: after)) (hbefore : ∀ p ∈ before, ¬ p.Offends)
    (hpiece : piece.render template out = .error e) : render template out = .error e := by
  have hfirst : (before ++ piece :: after).mapM (Piece.render template out) = .error e :=
    mapM_eq_error_iff.2 ⟨before, piece, after, rfl,
      fun p hp => ⟨_, Piece.render_of_not_offends template out (hbefore p hp)⟩, hpiece⟩
  rw [render_eq_mapM h, hfirst]
  rfl

/-- **What is accepted, and what an error says.**  A template is made of pieces in one way.  It can
be rendered if and only if none of them offends, and is then what they stand for, one after
another.  Otherwise the first piece that offends decides the error: it names the placeholder, or
says that nothing closes it, and shows the whole template. -/
theorem render_by_pieces (template : Text) (out : Path) :
    (∃! pieces, Splits template pieces) ∧
    ∀ pieces, Splits template pieces →
      ((∃ text, render template out.display = .ok text) ↔ ∀ piece ∈ pieces, ¬ piece.Offends) ∧
      ((∀ piece ∈ pieces, ¬ piece.Offends) →
        render template out.display = .ok (pieces.flatMap (Piece.value out.display))) ∧
      ∀ before after, (∀ piece ∈ before, ¬ piece.Offends) →
        (∀ name, name ≠ "out".toList → pieces = before ++ .placeholder name :: after →
          render template out.display = .error (.unknownPlaceholder name template)) ∧
        (pieces = before ++ .unterminated :: after →
          render template out.display = .error (.unterminatedPlaceholder template)) := by
  refine ⟨existsUnique_splits template, fun pieces h =>
    ⟨exists_render_eq_ok_iff h _, fun hpieces => render_of_not_offends h hpieces _, ?_⟩⟩
  intro before after hbefore
  constructor
  · rintro name hname rfl
    exact render_eq_error h hbefore (if_neg hname)
  · rintro rfl
    exact render_eq_error h hbefore rfl

/-- A brace inside a name belongs to the name, and what is behind it does not matter. -/
theorem render_by_pieces_of_nested_brace :
    let template := ['}', '{', '{', 'a', '{', 'x', '{', 'y', '}', '{']
    let pieces : List Piece :=
      [.loneClose, .doubleOpen, .other 'a', .placeholder ['x', '{', 'y'], .unterminated]
    Splits template pieces ∧
      render template (Path.ofText ['d']).display =
        .error (.unknownPlaceholder ['x', '{', 'y'] template) := by
  intro template pieces
  have hsplits : Splits template pieces := by decide
  have hbefore : ∀ piece ∈ [Piece.loneClose, .doubleOpen, .other 'a'], ¬ piece.Offends := by decide
  obtain ⟨-, hpieces⟩ := render_by_pieces template (.ofText ['d'])
  obtain ⟨-, -, herror⟩ := hpieces pieces hsplits
  exact ⟨hsplits, (herror _ [.unterminated] hbefore).1 _ (by decide) rfl⟩

/-! ### Writing templates -/

/-- What a template is written from: text that is kept, and places for the output directory. -/
inductive Segment where
  | literal (text : Text)
  | out
deriving DecidableEq

/-- Text with every brace doubled. -/
def escape (text : Text) : Text :=
  text.flatMap fun c => if c = '{' ∨ c = '}' then [c, c] else [c]

/-- The piece that a character of kept text is written as. -/
def Piece.ofChar (c : Char) : Piece :=
  if c = '{' then .doubleOpen else if c = '}' then .doubleClose else .other c

namespace Segment

/-- How a segment is written in a template. -/
def written : Segment → Text
  | literal text => escape text
  | out => '{' :: "out".toList ++ ['}']

/-- What a segment stands for. -/
def value (path : Text) : Segment → Text
  | literal text => text
  | out => path

/-- The pieces that a segment is written as. -/
def split : Segment → List Piece
  | literal text => text.map Piece.ofChar
  | out => [.placeholder "out".toList]

theorem written_eq (segment : Segment) : segment.written = segment.split.flatMap Piece.text := by
  cases segment with
  | out => rfl
  | literal text =>
      rw [written, escape, split, List.flatMap_map]
      refine List.flatMap_congr fun c _ => ?_
      unfold Piece.ofChar
      split_ifs <;> simp_all [Piece.text]

theorem value_eq (path : Text) (segment : Segment) :
    segment.split.flatMap (Piece.value path) = segment.value path := by
  cases segment with
  | out => exact List.append_nil path
  | literal text =>
      rw [value, split, List.flatMap_map]
      refine (List.flatMap_congr fun c _ => ?_).trans (List.flatMap_singleton' text)
      unfold Piece.ofChar
      split_ifs <;> simp_all [Piece.value]

/-- The pieces of a segment may stand in front of everything, and none of them offends. -/
theorem of_mem_split {segment : Segment} (h : piece ∈ segment.split) :
    (∀ after, piece.Fits after) ∧ ¬ piece.Offends := by
  cases segment with
  | out =>
      obtain rfl := List.mem_singleton.1 h
      have hname : "out".toList.head? ≠ some '{' ∧ '}' ∉ "out".toList := by decide
      exact ⟨fun _ => hname, by decide⟩
  | literal text =>
      obtain ⟨c, -, rfl⟩ := List.mem_map.1 h
      unfold Piece.ofChar
      split_ifs with hopen hclose
      · exact ⟨fun _ => trivial, id⟩
      · exact ⟨fun _ => trivial, id⟩
      · exact ⟨fun _ => ⟨hopen, hclose⟩, id⟩

end Segment

/-- Pieces that may stand in front of everything may stand one after another. -/
theorem fitTogether_of_forall (h : ∀ piece ∈ pieces, ∀ after, piece.Fits after) :
    FitTogether pieces := by
  induction pieces with
  | nil => trivial
  | cons piece pieces ih =>
      rw [List.forall_mem_cons] at h
      exact ⟨h.1 _, ih h.2⟩

/-- **What is written can be rendered.**  A template that is put together from literal text, with
every brace doubled, and from placeholders stands for that text and the output path, whatever is
next to what.  Braces in the path are no part of the template. -/
theorem render_written (segments : List Segment) {out : Path} {path : Text}
    (h : Utf8.decode? out.bytes = some path) :
    render (segments.flatMap Segment.written) out.display =
      .ok (segments.flatMap (Segment.value path)) := by
  have hpieces : ∀ piece ∈ segments.flatMap Segment.split,
      (∀ after, piece.Fits after) ∧ ¬ piece.Offends := by
    intro piece hpiece
    obtain ⟨segment, -, hsegment⟩ := List.mem_flatMap.1 hpiece
    exact Segment.of_mem_split hsegment
  have hwritten : (segments.flatMap Segment.split).flatMap Piece.text =
      segments.flatMap Segment.written := by
    rw [List.flatMap_assoc]
    exact List.flatMap_congr fun segment _ => segment.written_eq.symm
  have hsplits : Splits (segments.flatMap Segment.written) (segments.flatMap Segment.split) :=
    splits_iff.2 ⟨hwritten, fitTogether_of_forall fun piece hpiece => (hpieces piece hpiece).1⟩
  have hdisplay : out.display = path := by
    rw [Path.display, Utf8.decode?_eq_some_iff.1 h, Utf8.lossy_encode]
  rw [render_of_not_offends hsplits fun piece hpiece => (hpieces piece hpiece).2, hdisplay,
    List.flatMap_assoc]
  exact congrArg _ (List.flatMap_congr fun segment _ => segment.value_eq path)

/-- Braces on both sides of the placeholder, and in the path. -/
theorem render_written_between_braces :
    let out := Path.ofText ['x', '{', '}', 'y']
    let segments : List Segment :=
      [.literal ['}', 'a', '{'], .out, .literal ['}'], .literal ['{', '{'], .out]
    Utf8.decode? out.bytes = some ['x', '{', '}', 'y'] ∧
      segments.flatMap Segment.written =
        "\x7d\x7da\x7b\x7b\x7bout\x7d\x7d\x7d\x7b\x7b\x7b\x7b\x7bout\x7d".toList ∧
      render (segments.flatMap Segment.written) out.display =
        .ok "\x7da\x7bx\x7b\x7dy\x7d\x7b\x7bx\x7b\x7dy".toList := by
  intro out segments
  have hout : Utf8.decode? out.bytes = some ['x', '{', '}', 'y'] := Utf8.decode?_encode _
  refine ⟨hout, by decide, ?_⟩
  rw [render_written segments hout]
  decide

end Template

end DualModule

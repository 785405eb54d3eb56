import Hypertext.Proofs.Barren

set_option autoImplicit false

/-! # Templates behind a tag

A template literal is the same wherever it stands: behind a tag it is read as it is by itself, with
all its places moved on by the size of the tag. `Rule.Shifts` says so for a rule, and is closed
under the ways to put rules together. It is used for one thing here: a text that is a single
template literal, put behind the tag that requires a module, makes a script that is a single
template with that tag (`scan_tagged`).
-/

namespace Hypertext
namespace Script

/-! ## Places moved on -/

/-- The cursor with `d` more bytes before it. -/
def Cursor.shift (d : Nat) (cursor : Cursor) : Cursor := ⟨cursor.offset + d, cursor.rest⟩

def Span.shift (d : Nat) (span : Span) : Span := ⟨span.start + d, span.stop + d⟩

def Piece.shift (d : Nat) (piece : Piece) : Piece := ⟨piece.text, piece.span.shift d⟩

def TemplateLiteral.shift (d : Nat) (literal : TemplateLiteral) : TemplateLiteral :=
  ⟨literal.tag, literal.span.shift d, literal.quasis.map (Piece.shift d),
    literal.substitutions.map (Piece.shift d)⟩

namespace Rule

variable {α β γ δ : Type} {d : Nat} {f : α → β} {g : γ → δ}

/-- The second rule reads with `d` more bytes before it what the first one reads; `f` says what
becomes of it. -/
def Shifts (d : Nat) (f : α → β) (p : Rule α) (q : Rule β) : Prop :=
  ∀ cursor : Cursor,
    (q (cursor.shift d)).result = (p cursor).result.map fun found => (f found.1, found.2.shift d)

namespace Shifts

variable {p : Rule α} {q : Rule β}

theorem reads (h : Shifts d f p q) {cursor next : Cursor} {a : α} (hreads : p.Reads cursor a next) :
    q.Reads (cursor.shift d) (f a) (next.shift d) := by
  rw [Reads] at hreads ⊢
  rw [h cursor, hreads, Option.map_some]

theorem pure {a : α} {b : β} (h : b = f a) :
    Shifts d f (Pure.pure a : Rule α) (Pure.pure b : Rule β) := by
  intro cursor
  rw [h]
  rfl

theorem bind {k : α → Rule γ} {k' : β → Rule δ} (hp : Shifts d f p q)
    (hk : ∀ a, Shifts d g (k a) (k' (f a))) : Shifts d g (p >>= k) (q >>= k') := by
  intro cursor
  have hshifted := hp cursor
  show (Rule.bind q k' (cursor.shift d)).result = (Rule.bind p k cursor).result.map _
  cases hfound : (p cursor).result with
  | none =>
      rw [hfound, Option.map_none] at hshifted
      simp [Rule.bind, hfound, hshifted]
  | some found =>
      rw [hfound, Option.map_some] at hshifted
      simp only [Rule.bind, hfound, hshifted]
      exact hk found.1 found.2

theorem named (expectation : Expectation) (h : Shifts d f p q) :
    Shifts d f (Rule.named expectation p) (Rule.named expectation q) := by
  intro cursor
  have hshifted := h cursor
  cases hfound : (p cursor).result with
  | none =>
      rw [hfound, Option.map_none] at hshifted
      simp [Rule.named, hfound, hshifted]
  | some found =>
      rw [hfound, Option.map_some] at hshifted
      simp [Rule.named, hfound, hshifted]

theorem lexeme (reader : Lexeme.Reader) :
    Shifts d id (Rule.lexeme reader) (Rule.lexeme reader) := by
  intro cursor
  unfold Rule.lexeme Cursor.shift
  cases reader cursor.rest with
  | none => rfl
  | some found => simp [Nat.add_right_comm]

theorem offset : Shifts d (· + d) Rule.offset Rule.offset := fun _ => rfl

theorem upTo (h : Shifts d f p q) (fuel : Nat) :
    Shifts d (List.map f) (Rule.upTo p fuel) (Rule.upTo q fuel) := by
  induction fuel with
  | zero => exact .pure rfl
  | succ fuel ih =>
      intro cursor
      rw [upTo_succ, upTo_succ, h cursor]
      cases (p cursor).result with
      | none => rfl
      | some found =>
          simp only [Option.map_some, ih found.2]
          cases (Rule.upTo p fuel found.2).result with
          | none => rfl
          | some others => rfl

theorem many (h : Shifts d f p q) : Shifts d (List.map f) (Rule.many p) (Rule.many q) :=
  fun cursor => h.upTo (cursor.rest.length + 1) cursor

end Shifts

/-! ## The rules of a template -/

theorem shifts_piece (reader : Lexeme.Reader) :
    Shifts d (Piece.shift d) (piece reader) (piece reader) :=
  Shifts.offset.bind fun _ => (Shifts.lexeme reader).bind fun _ => Shifts.offset.bind fun _ =>
    .pure rfl

theorem shifts_substitution : Shifts d (Piece.shift d) substitution substitution :=
  .named _ <| (Shifts.lexeme _).bind fun _ => (shifts_piece _).bind fun _ =>
    (Shifts.lexeme _).bind fun _ => .pure rfl

/-- **A template is the same at every place.** -/
theorem shifts_template (d : Nat) : Shifts d (TemplateLiteral.shift d) template template := by
  have hpair : Shifts d (Prod.map (Piece.shift d) (Piece.shift d))
      (do
        let expression ← substitution
        let text ← quasi
        return (expression, text))
      (do
        let expression ← substitution
        let text ← quasi
        return (expression, text)) :=
    shifts_substitution.bind fun _ => (shifts_piece _).bind fun _ => .pure rfl
  refine .named _ <| Shifts.offset.bind fun start => (Shifts.lexeme _).bind fun _ =>
    (shifts_piece _).bind fun first => hpair.many.bind fun others => (Shifts.lexeme _).bind fun _ =>
      Shifts.offset.bind fun stop => .pure ?_
  simp [TemplateLiteral.shift, Span.shift, List.map_map, Function.comp_def]

/-! ## A template by itself -/

theorem orElse_result (p q : Rule α) (cursor : Cursor) :
    ((p <|> q) cursor).result = (p cursor).result.or (q cursor).result := by
  show (Rule.orElse p (fun _ => q) cursor).result = _
  unfold Rule.orElse
  cases h : (p cursor).result with
  | none => simp [h]
  | some found => simp [h]

/-- At a backquote there is a template or nothing. -/
theorem item_backquote (offset : Nat) (t : Text) :
    (item ⟨offset, '\x60' :: t⟩).result
      = (template ⟨offset, '\x60' :: t⟩).result.map fun found =>
          (some (.template found.1), found.2) := by
  have htemplate :
      ((do let literal ← template; return some (.template literal) : Rule (Option Item))
        ⟨offset, '\x60' :: t⟩).result
        = (template ⟨offset, '\x60' :: t⟩).result.map fun found =>
            (some (.template found.1), found.2) := by
    show (Rule.bind template _ _).result = _
    unfold Rule.bind
    cases h : (template ⟨offset, '\x60' :: t⟩).result with
    | none => simp [h]
    | some found =>
        simp only [h]
        rfl
  -- every other rule fails at the first character
  unfold item
  simp only [orElse_result, htemplate]
  cases (template ⟨offset, '\x60' :: t⟩).result with
  | none => rfl
  | some found => rfl

theorem upTo_item_nil (fuel offset : Nat) :
    (upTo item fuel).Reads ⟨offset, []⟩ [] ⟨offset, []⟩ := by
  cases fuel with
  | zero => rfl
  | succ fuel => rw [Reads, upTo_succ, item_nil]

end Rule

/-- If a text is a single template literal, the rule for templates reads it to the end. -/
theorem template_reads_of_scan {t : Text} {literal : TemplateLiteral}
    (hscan : scan ('\x60' :: t) = .ok [.template literal])
    (hspan : literal.span = ⟨0, Text.byteSize ('\x60' :: t)⟩) :
    Rule.template.Reads ⟨0, '\x60' :: t⟩ literal ⟨Text.byteSize ('\x60' :: t), []⟩ := by
  obtain ⟨found, next, hfound, -, hitems⟩ := scan_eq_ok_iff.mp hscan
  have hfound : (Rule.upTo Rule.item (t.length + 1 + 1) ⟨0, '\x60' :: t⟩).result
      = some (found, next) := hfound
  rw [Rule.upTo_succ, Rule.item_backquote] at hfound
  cases htemplate : (Rule.template ⟨0, '\x60' :: t⟩).result with
  | none =>
      rw [htemplate] at hfound
      cases hfound
      cases hitems
  | some result =>
      obtain ⟨first, middle⟩ := result
      rw [htemplate] at hfound
      obtain ⟨others, -, heq⟩ := Option.map_eq_some_iff.mp hfound
      cases heq
      obtain ⟨rfl, -⟩ : first = literal ∧ _ := by simpa using hitems
      -- the template ends where its span does, and nothing is left there
      obtain ⟨body, hadvances, -, -, hplace⟩ := Rule.template_spec htemplate
      have hoffset : middle.offset = Text.byteSize ('\x60' :: t) :=
        congrArg Span.stop (hplace.symm.trans hspan)
      have hrest : middle.rest = [] := by
        have hsize := congrArg Text.byteSize hadvances.rest
        have hadvanced := hadvances.offset
        rw [Text.byteSize_append] at hsize
        refine Text.eq_nil_of_byteSize_eq_zero ?_
        dsimp only at hsize hadvanced
        omega
      obtain ⟨offset, rest⟩ := middle
      dsimp only at hoffset hrest
      rw [← hoffset, ← hrest]
      exact htemplate

/-! ## A template behind a tag -/

/-- The tag that requires a module of templates. -/
def belTag : Text := "require('bel')".toList

theorem byteSize_belTag : Text.byteSize belTag = 14 := rfl

theorem requireCall_belTag (t : Text) :
    Rule.requireCall.Reads ⟨0, belTag ++ '\x60' :: t⟩ "bel".toList ⟨14, '\x60' :: t⟩ := rfl

/-- A template literal behind the tag. -/
def TemplateLiteral.tagged (literal : TemplateLiteral) : TemplateLiteral :=
  { literal.shift (Text.byteSize belTag) with
    tag := some (.require "bel".toList), span := ⟨0, literal.span.stop + Text.byteSize belTag⟩ }

theorem taggedTemplate_belTag {t : Text} {literal : TemplateLiteral} {next : Cursor}
    (h : Rule.template.Reads ⟨0, '\x60' :: t⟩ literal next)
    (hspan : literal.span = ⟨0, next.offset⟩) :
    Rule.taggedTemplate.Reads ⟨0, belTag ++ '\x60' :: t⟩ literal.tagged (next.shift 14) := by
  have htemplate := (Rule.shifts_template 14).reads h
  rw [Cursor.shift, Nat.zero_add] at htemplate
  simp only [Rule.taggedTemplate, Rule.reads_named, Rule.reads_bind, Rule.reads_offset,
    Rule.reads_orElse, Rule.reads_pure]
  refine ⟨0, _, ⟨rfl, rfl⟩, _, _, .inl ⟨_, _, requireCall_belTag t, rfl, rfl⟩, [], _, ?_, _, _,
    htemplate, _, _, ⟨rfl, rfl⟩, ?_, rfl⟩
  · rfl
  · rw [TemplateLiteral.tagged, hspan, byteSize_belTag]
    rfl

/-- **A template literal behind the tag** is a script with one item, the template with the tag. -/
theorem scan_tagged {t : Text} {literal : TemplateLiteral}
    (hscan : scan ('\x60' :: t) = .ok [.template literal])
    (hspan : literal.span = ⟨0, Text.byteSize ('\x60' :: t)⟩) :
    scan (belTag ++ '\x60' :: t) = .ok [.template literal.tagged] := by
  have htagged := taggedTemplate_belTag (template_reads_of_scan hscan hspan) hspan
  have hitem : Rule.item.Reads ⟨0, belTag ++ '\x60' :: t⟩ (some (.template literal.tagged))
      ⟨Text.byteSize ('\x60' :: t) + 14, []⟩ := by
    -- no comment and no declaration begins with the tag
    refine Rule.reads_orElse.mpr (.inr ⟨rfl, Rule.reads_orElse.mpr (.inr ⟨rfl,
      Rule.reads_orElse.mpr (.inr ⟨rfl, Rule.reads_orElse.mpr (.inl ?_)⟩)⟩)⟩)
    exact Rule.reads_bind.mpr ⟨_, _, htagged, Rule.reads_pure.mpr ⟨rfl, rfl⟩⟩
  exact scan_eq_ok_iff.mpr ⟨[some (.template literal.tagged)],
    ⟨Text.byteSize ('\x60' :: t) + 14, []⟩,
    Rule.reads_upTo_cons hitem (Rule.upTo_item_nil _ _), rfl, rfl⟩

end Script
end Hypertext

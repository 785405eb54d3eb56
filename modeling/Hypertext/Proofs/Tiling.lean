import Hypertext.Proofs.Spelling

set_option autoImplicit false

/-! # Scripts as tilings

A script that can be scanned is a row of gaps and items. `Tiles` says so for a script and the items
found in it: between two items stand only comments, strings and single characters with which none of
them begins, and every item is spelled exactly as its span says.

The development has two halves that meet at `Tiles`. The first shows that every scan gives a tiling
(`tiles_of_scan`), from what one step of the scanner reads. The second takes a tiling apart: the
order of its items, and for each item the place in the script where it is spelled.
-/

namespace Hypertext
namespace Script

/-! ## Gaps -/

/-- Code in which no template begins, where `after` follows it. -/
inductive Gap (after : Text) : Text → Prop where
  | nil : Gap after []
  | cons {piece rest : Text} (hpiece : Inert (rest ++ after) piece) (hrest : Gap after rest) :
      Gap after (piece ++ rest)

namespace Gap

variable {after s t : Text}

theorem single (h : Inert after t) : Gap after t := by
  have hgap : Gap after (t ++ []) := .cons h .nil
  rwa [List.append_nil] at hgap

theorem append (hs : Gap (t ++ after) s) (ht : Gap after t) : Gap after (s ++ t) := by
  induction hs with
  | nil => exact ht
  | cons hpiece hrest ih =>
      rw [List.append_assoc]
      refine .cons ?_ ih
      rwa [List.append_assoc]

end Gap

/-- Whether neither a comment nor a string nor a template begins with a character. -/
def isQuiet (c : Char) : Bool := isPlain c && c != '/'

theorem ne_of_class {p : Char → Bool} {c d : Char} (hc : p c = true) (hd : p d = false) :
    c ≠ d := by
  rintro rfl
  rw [hd] at hc
  cases hc

theorem isQuiet_of {p : Char → Bool} (hbackquote : p '\x60' = false) (hdouble : p '"' = false)
    (hsingle : p '\x27' = false) (hslash : p '/' = false) {c : Char} (hc : p c = true) :
    isQuiet c = true := by
  simp [isQuiet, isPlain, ne_of_class hc hbackquote, ne_of_class hc hdouble,
    ne_of_class hc hsingle, ne_of_class hc hslash]

theorem isQuiet_of_isSpace {c : Char} (hc : Lexeme.isSpace c = true) : isQuiet c = true :=
  isQuiet_of (by decide) (by decide) (by decide) (by decide) hc

theorem isQuiet_of_isWordStart {c : Char} (hc : Lexeme.isWordStart c = true) : isQuiet c = true :=
  isQuiet_of (by decide) (by decide) (by decide) (by decide) hc

theorem isQuiet_of_isWordPart {c : Char} (hc : Lexeme.isWordPart c = true) : isQuiet c = true :=
  isQuiet_of (by decide) (by decide) (by decide) (by decide) hc

theorem Gap.quiet {after t : Text} (h : ∀ c ∈ t, isQuiet c = true) : Gap after t := by
  induction t with
  | nil => exact .nil
  | cons c t ih =>
      have hc := h c List.mem_cons_self
      rw [isQuiet, Bool.and_eq_true, bne_iff_ne] at hc
      have hpiece : Inert (t ++ after) [c] := .char hc.1 (Lexeme.comment_eq_none hc.2 _)
      exact .cons hpiece (ih fun d hd => h d (List.mem_cons_of_mem c hd))

theorem IsWord.gap {after t : Text} (h : IsWord t) : Gap after t := by
  obtain ⟨hc, ht⟩ := h
  refine .quiet fun d hd => ?_
  rcases List.mem_cons.mp hd with rfl | hd
  · exact isQuiet_of_isWordStart hc
  · exact isQuiet_of_isWordPart (ht d hd)

theorem Rule.IsLead.gap {after t : Text} (h : Rule.IsLead t) : Gap after t := by
  cases h with
  | none => exact .nil
  | keyword hkeyword hs =>
      refine .quiet fun d hd => ?_
      rcases List.mem_append.mp hd with hd | hd
      · have hletters : ("const".toList ++ "let".toList ++ "var".toList).all isQuiet = true := by
          decide
        refine List.all_eq_true.mp hletters d ?_
        simp only [List.mem_append]
        rcases hkeyword with rfl | rfl | rfl
        · exact .inl (.inl hd)
        · exact .inl (.inr hd)
        · exact .inr hd
      · exact isQuiet_of_isSpace (hs d hd)

/-! ## One step of the scanner -/

namespace Rule

variable {cursor next : Cursor}

/-- What the scanner reads at a place: a piece of a gap, or an item after what leads up to it. -/
inductive Step (cursor next : Cursor) : Option Item → Prop where
  | gap {t : Text} (hadvances : cursor.Advances t next) (hgap : Gap next.rest t) :
      Step cursor next none
  | item {found : Item} {lead t : Text} (hadvances : cursor.Advances (lead ++ t) next)
      (hlead : Gap (t ++ next.rest) lead)
      (hspells : found.Spells (cursor.offset + lead.byteSize) t) : Step cursor next (some found)

theorem Step.spelled {found : Item} {t : Text} (hadvances : cursor.Advances t next)
    (hspells : found.Spells cursor.offset t) : Step cursor next (some found) := by
  have hnone : cursor.Advances ([] ++ t) next := hadvances
  exact .item hnone .nil hspells

theorem comment_fails
    (h : ((do let _ ← lexeme Lexeme.comment; return none : Rule (Option Item)) cursor).result
      = none) :
    Lexeme.comment cursor.rest = none := by
  cases hcomment : Lexeme.comment cursor.rest with
  | none => rfl
  | some result =>
      obtain ⟨taken, rest⟩ := result
      have hreads : (do let _ ← lexeme Lexeme.comment; return none : Rule (Option Item)).Reads
          cursor none ⟨cursor.offset + taken.byteSize, rest⟩ :=
        reads_bind.mpr ⟨taken, _, reads_lexeme.mpr ⟨hcomment, rfl⟩, reads_pure.mpr ⟨rfl, rfl⟩⟩
      rw [Reads, h] at hreads
      cases hreads

theorem otherCharacter_spec {t : Text} (hcomment : Lexeme.comment cursor.rest = none)
    (h : (lexeme otherCharacter).Reads cursor t next) :
    cursor.Advances t next ∧ Gap next.rest t := by
  obtain ⟨hread, hoffset⟩ := reads_lexeme.mp h
  unfold otherCharacter at hread
  split at hread
  · next c rest hrest =>
      split at hread
      · cases hread
      · next hc =>
          obtain ⟨rfl, rfl⟩ := Prod.mk.inj (Option.some.inj hread)
          refine ⟨⟨hrest, hoffset⟩, .single (.char ?_ ?_)⟩
          · simpa [isPlain] using hc
          · rwa [← hrest]
  · cases hread

/-- **One step of the scanner.** Whatever it reads is a piece of a gap or a spelled item. -/
theorem item_spec {found : Option Item} (h : item.Reads cursor found next) :
    Step cursor next found := by
  rcases reads_orElse.mp h with h | ⟨hcomment, h⟩
  · simp only [reads_bind, reads_pure] at h
    obtain ⟨t, _, hread, rfl, rfl⟩ := h
    have hinert := Lexeme.inert_comment (reads_lexeme.mp hread).1
    exact .gap (advances_lexeme Lexeme.splits_comment hread) (.single hinert)
  have hcomment := comment_fails hcomment
  simp only [reads_orElse, reads_bind, reads_pure] at h
  rcases h with h | ⟨-, h | ⟨-, h | ⟨-, h | ⟨-, h | ⟨-, h | ⟨-, h⟩⟩⟩⟩⟩⟩
  · obtain ⟨declaration, _, hread, rfl, rfl⟩ := h
    obtain ⟨t, hadvances, hspells⟩ := importDeclaration_spec hread
    exact .spelled hadvances hspells
  · obtain ⟨declaration, _, hread, rfl, rfl⟩ := h
    obtain ⟨lead, t, hadvances, hlead, hspells⟩ := requireDeclaration_spec hread
    exact .item hadvances hlead.gap hspells
  · obtain ⟨literal, _, hread, rfl, rfl⟩ := h
    obtain ⟨t, hadvances, hspells⟩ := taggedTemplate_spec hread
    exact .spelled hadvances hspells
  · obtain ⟨literal, _, hread, rfl, rfl⟩ := h
    obtain ⟨t, hadvances, hspells⟩ := untaggedTemplate_spec hread
    exact .spelled hadvances hspells
  · obtain ⟨t, _, hread, rfl, rfl⟩ := h
    have hinert := Lexeme.inert_string (reads_lexeme.mp hread).1
    exact .gap (advances_lexeme Lexeme.splits_string hread) (.single hinert)
  · obtain ⟨t, _, hread, rfl, rfl⟩ := h
    obtain ⟨hadvances, hword⟩ := identifier_spec hread
    exact .gap hadvances hword.gap
  · obtain ⟨t, _, hread, rfl, rfl⟩ := h
    obtain ⟨hadvances, hgap⟩ := otherCharacter_spec hcomment hread
    exact .gap hadvances hgap

end Rule

/-! ## Tilings -/

/-- A script from an offset on as gaps and items in turn. -/
inductive Tiles : Nat → Text → List Item → Prop where
  | done {offset : Nat} {t : Text} (hgap : Gap [] t) : Tiles offset t []
  | item {offset : Nat} {gap t rest : Text} {found : Item} {items : List Item}
      (hgap : Gap (t ++ rest) gap) (hspells : found.Spells (offset + gap.byteSize) t)
      (hrest : Tiles (offset + gap.byteSize + t.byteSize) rest items) :
      Tiles offset (gap ++ (t ++ rest)) (found :: items)

theorem Tiles.gap {offset : Nat} {lead rest : Text} {items : List Item} (hlead : Gap rest lead)
    (h : Tiles (offset + lead.byteSize) rest items) : Tiles offset (lead ++ rest) items := by
  cases h with
  | done hgap =>
      refine .done (.append ?_ hgap)
      rwa [List.append_nil]
  | @item _ gap t rest found items hgap hspells hrest =>
      have hsize : offset + lead.byteSize + gap.byteSize
          = offset + Text.byteSize (lead ++ gap) := by
        rw [Text.byteSize_append, Nat.add_assoc]
      rw [hsize] at hspells hrest
      rw [← List.append_assoc]
      exact .item (hlead.append hgap) hspells hrest

/-- The steps of the scanner up to the end of a script tile it. -/
theorem tiles_of_readsAll {cursor next : Cursor} {found : List (Option Item)}
    (h : Rule.item.ReadsAll cursor found next) (hend : next.rest = []) :
    Tiles cursor.offset cursor.rest (found.filterMap id) := by
  induction h with
  | nil cursor =>
      rw [hend]
      exact .done .nil
  | cons first others ih =>
      have hrest := ih hend
      cases Rule.item_spec first with
      | gap hadvances hgap =>
          rw [hadvances.offset] at hrest
          rw [hadvances.rest]
          exact hrest.gap hgap
      | item hadvances hlead hspells =>
          rw [hadvances.offset, Text.byteSize_append, ← Nat.add_assoc] at hrest
          rw [hadvances.rest, List.append_assoc]
          exact .item hlead hspells hrest

/-- **A scan gives a tiling.** -/
theorem tiles_of_scan {source : Text} {items : List Item} (h : scan source = .ok items) :
    Tiles 0 source items := by
  obtain ⟨steps, next, hsteps, hend, rfl⟩ := scan_eq_ok_iff.mp h
  exact tiles_of_readsAll (Rule.readsAll_of_many hsteps) hend

/-! ## Items in a tiling -/

theorem Item.Spells.span_eq {offset : Nat} {found : Item} {t : Text} (h : found.Spells offset t) :
    found.span = ⟨offset, offset + t.byteSize⟩ := by
  cases h with
  | binding _ hspan => exact hspan
  | template _ _ hspan => exact hspan

namespace Tiles

variable {offset : Nat} {source : Text} {items : List Item}

/-- Every item is spelled somewhere in the script. -/
theorem place (h : Tiles offset source items) {found : Item} (hmem : found ∈ items) :
    ∃ before t after, source = before ++ (t ++ after) ∧
      found.Spells (offset + Text.byteSize before) t := by
  induction h with
  | done hgap => cases hmem
  | @item offset gap t rest first items hgap hspells hrest ih =>
      rcases List.mem_cons.mp hmem with rfl | hmem
      · exact ⟨gap, t, rest, rfl, hspells⟩
      · obtain ⟨before, u, after, rfl, hu⟩ := ih hmem
        refine ⟨gap ++ (t ++ before), u, after, by simp only [List.append_assoc], ?_⟩
        rwa [Text.byteSize_append, Text.byteSize_append, ← Nat.add_assoc, ← Nat.add_assoc]

theorem le_start (h : Tiles offset source items) {found : Item} (hmem : found ∈ items) :
    offset ≤ found.span.start := by
  obtain ⟨before, t, after, -, hspells⟩ := h.place hmem
  rw [hspells.span_eq]
  exact Nat.le_add_right _ _

/-- Items are in order and apart. -/
theorem pairwise (h : Tiles offset source items) :
    items.Pairwise fun a b => a.span.stop ≤ b.span.start := by
  induction h with
  | done hgap => exact .nil
  | item hgap hspells hrest ih =>
      refine .cons (fun b hb => ?_) ih
      rw [hspells.span_eq]
      exact hrest.le_start hb

end Tiles

/-! ## Slices -/

/-- The text of a span in a script. There is none if the span is not in the script or cuts a
character. -/
def Span.slice? (source : Text) (span : Span) : Option Text :=
  if span.start ≤ span.stop then
    (Text.cut? span.start source).bind fun parts =>
      (Text.cut? (span.stop - span.start) parts.2).map Prod.fst
  else none

theorem Span.slice?_eq_some_iff {source t : Text} {span : Span} :
    Span.slice? source span = some t ↔ ∃ before after, source = before ++ (t ++ after) ∧
      span = ⟨Text.byteSize before, Text.byteSize before + t.byteSize⟩ := by
  obtain ⟨start, stop⟩ := span
  unfold slice?
  constructor
  · intro h
    split at h
    · next hle =>
        dsimp only at h hle
        obtain ⟨⟨before, rest⟩, hstart, h⟩ := Option.bind_eq_some_iff.mp h
        obtain ⟨⟨_, after⟩, hstop, rfl⟩ := Option.map_eq_some_iff.mp h
        obtain ⟨rfl, rfl⟩ := Text.cut?_eq_some_iff.mp hstart
        obtain ⟨rfl, hsize⟩ := Text.cut?_eq_some_iff.mp hstop
        refine ⟨before, after, rfl, ?_⟩
        rw [hsize, Nat.add_sub_cancel' hle]
    · cases h
  · rintro ⟨before, after, hsource, hspan⟩
    obtain ⟨rfl, rfl⟩ := Span.mk.inj hspan
    have hstart : Text.cut? (Text.byteSize before) source = some (before, t ++ after) :=
      Text.cut?_eq_some_iff.mpr ⟨hsource, rfl⟩
    have hstop : Text.cut? t.byteSize (t ++ after) = some (t, after) :=
      Text.cut?_eq_some_iff.mpr ⟨rfl, rfl⟩
    simp only [Nat.le_add_right, if_true, hstart, Option.bind_some, Nat.add_sub_cancel_left, hstop,
      Option.map_some]

/-- The source text between the backquotes of a template. -/
def interleave : List Piece → List Piece → Text
  | quasi :: quasis, expression :: expressions =>
    quasi.text ++ '$' :: '\x7b' :: (expression.text ++ '\x7d' :: interleave quasis expressions)
  | quasi :: _, [] => quasi.text
  | [], _ => []

namespace SpellsParts

variable {offset : Nat} {quasis expressions : List Piece} {t : Text}

theorem length_eq (h : SpellsParts offset quasis expressions t) :
    quasis.length = expressions.length + 1 := by
  induction h with
  | last _ _ => rfl
  | substitution _ _ _ _ ih => rw [List.length_cons, List.length_cons, ih]

theorem eq_interleave (h : SpellsParts offset quasis expressions t) :
    t = interleave quasis expressions := by
  induction h with
  | last _ _ => rfl
  | substitution _ _ _ _ ih => rw [interleave, ← ih]

theorem isQuasi (h : SpellsParts offset quasis expressions t) :
    ∀ quasi ∈ quasis, IsQuasi quasi.text := by
  induction h with
  | last hquasi _ =>
      intro quasi hmem
      rwa [List.mem_singleton.mp hmem]
  | substitution hquasi _ _ _ ih =>
      intro quasi hmem
      rcases List.mem_cons.mp hmem with rfl | hmem
      · exact hquasi
      · exact ih quasi hmem

/-- Every part stands where its span says. -/
theorem place (h : SpellsParts offset quasis expressions t) {part : Piece}
    (hmem : part ∈ quasis ∨ part ∈ expressions) :
    ∃ before after, t = before ++ (part.text ++ after) ∧
      part.At (offset + Text.byteSize before) := by
  induction h with
  | @last offset quasi _ hat =>
      have hpart : part = quasi := by simpa using hmem
      subst hpart
      exact ⟨[], [], (List.append_nil _).symm, hat⟩
  | @substitution offset quasi expression quasis expressions rest _ hat hexpression _ ih =>
      have hcases : part = quasi ∨ part = expression ∨ part ∈ quasis ∨ part ∈ expressions := by
        simp only [List.mem_cons] at hmem
        tauto
      rcases hcases with rfl | rfl | hmem
      · exact ⟨[], _, rfl, hat⟩
      · refine ⟨quasi.text ++ ['$', '\x7b'], '\x7d' :: rest, by simp, ?_⟩
        have hsize : offset + Text.byteSize (quasi.text ++ ['$', '\x7b'])
            = offset + quasi.text.byteSize + 2 := by
          rw [Text.byteSize_append, Nat.add_assoc]
          rfl
        rwa [hsize]
      · obtain ⟨before, after, rfl, hpart⟩ := ih hmem
        refine ⟨quasi.text ++ '$' :: '\x7b' :: (expression.text ++ '\x7d' :: before), after,
          by simp, ?_⟩
        have hsize : offset + Text.byteSize
              (quasi.text ++ '$' :: '\x7b' :: (expression.text ++ '\x7d' :: before))
            = offset + quasi.text.byteSize + 2 + expression.text.byteSize + 1
              + Text.byteSize before := by
          rw [Text.byteSize_append, byteSize_substitution]
          omega
        rwa [hsize]

theorem pairwise (h : SpellsParts offset quasis expressions t) :
    expressions.Pairwise fun a b => a.span.stop ≤ b.span.start := by
  induction h with
  | last _ _ => exact .nil
  | substitution _ _ hexpression others ih =>
      refine .cons (fun part hmem => ?_) ih
      obtain ⟨before, after, -, hpart⟩ := others.place (.inr hmem)
      rw [hexpression, hpart]
      dsimp only
      omega

end SpellsParts

/-! ## Exact tilings -/

/-- A template literal is what its spans cut out of a script. -/
structure TemplateLiteral.Exact (source : Text) (literal : TemplateLiteral) : Prop where
  balanced : literal.quasis.length = literal.substitutions.length + 1
  quasis : ∀ quasi ∈ literal.quasis,
    IsQuasi quasi.text ∧ Span.slice? source quasi.span = some quasi.text
  substitutions : ∀ expression ∈ literal.substitutions,
    Span.slice? source expression.span = some expression.text
  text : ∃ tag blanks, SpellsTag literal.tag tag blanks ∧
    Span.slice? source literal.span = some (tag ++ (blanks ++
      '\x60' :: (interleave literal.quasis literal.substitutions ++ ['\x60'])))
  inside : ∀ expression ∈ literal.substitutions,
    literal.span.start ≤ expression.span.start ∧ expression.span.stop ≤ literal.span.stop
  apart : literal.substitutions.Pairwise fun a b => a.span.stop ≤ b.span.start

/-- The items of a script are in it, in order and apart, its templates are exact, and what is not
part of an item is made of gaps. -/
structure Tiling (source : Text) (items : List Item) : Prop where
  inBounds : ∀ found ∈ items,
    found.span.start ≤ found.span.stop ∧ found.span.stop ≤ source.byteSize
  apart : items.Pairwise fun a b => a.span.stop ≤ b.span.start
  exact : ∀ literal, .template literal ∈ items → literal.Exact source
  gaps : Tiles 0 source items

theorem TemplateLiteral.exact_of_spells {before t after source : Text} {literal : TemplateLiteral}
    (hsource : source = before ++ (t ++ after))
    (h : (Item.template literal).Spells before.byteSize t) : literal.Exact source := by
  cases h with
  | @template _ tag blanks body htag hbody hspan =>
      have hbackquote : '\x60'.utf8Size = 1 := rfl
      -- a part of the body is a slice of the script, behind the tag and the backquote
      have hpart : ∀ part, part ∈ literal.quasis ∨ part ∈ literal.substitutions →
          Span.slice? source part.span = some part.text ∧
            literal.span.start ≤ part.span.start ∧ part.span.stop ≤ literal.span.stop := by
        intro part hmem
        obtain ⟨left, right, rfl, hat⟩ := hbody.place hmem
        have hplace : source = (before ++ (tag ++ (blanks ++ '\x60' :: left)))
            ++ (part.text ++ (right ++ ['\x60'] ++ after)) := by
          rw [hsource]
          simp only [List.append_assoc, List.cons_append]
        have hsize : Text.byteSize before + tag.byteSize + blanks.byteSize + 1 + Text.byteSize left
            = Text.byteSize (before ++ (tag ++ (blanks ++ '\x60' :: left))) := by
          simp only [Text.byteSize_append, Text.byteSize_cons]
          omega
        rw [Piece.At, hsize] at hat
        refine ⟨Span.slice?_eq_some_iff.mpr ⟨_, _, hplace, hat⟩, ?_⟩
        rw [hat, hspan]
        simp only [Text.byteSize_append, Text.byteSize_cons]
        omega
      constructor
      case balanced => exact hbody.length_eq
      case quasis =>
        exact fun quasi hmem => ⟨hbody.isQuasi quasi hmem, (hpart quasi (.inl hmem)).1⟩
      case substitutions => exact fun expression hmem => (hpart expression (.inr hmem)).1
      case inside => exact fun expression hmem => (hpart expression (.inr hmem)).2
      case apart => exact hbody.pairwise
      case text =>
        refine ⟨tag, blanks, htag, ?_⟩
        rw [← hbody.eq_interleave]
        exact Span.slice?_eq_some_iff.mpr ⟨before, after, hsource, hspan⟩

theorem Tiles.tiling {source : Text} {items : List Item} (h : Tiles 0 source items) :
    Tiling source items := by
  refine ⟨?_, h.pairwise, ?_, h⟩
  · intro found hmem
    obtain ⟨before, t, after, rfl, hspells⟩ := h.place hmem
    rw [hspells.span_eq]
    simp only [Text.byteSize_append]
    omega
  · intro literal hmem
    obtain ⟨before, t, after, hsource, hspells⟩ := h.place hmem
    rw [Nat.zero_add] at hspells
    exact TemplateLiteral.exact_of_spells hsource hspells

end Script
end Hypertext

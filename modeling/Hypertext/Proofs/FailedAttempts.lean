import Hypertext.Proofs.Places

set_option autoImplicit false

/-! # Where reading fails

A script that cannot be read is reported at the furthest offset at which a rule was tried in vain.
This file proves that this offset never lies inside of a character or behind the end of the script
(`scan_error_isBoundary`).

A rule is tried where the rules before it left the cursor, and every rule moves the cursor over text
that stands there. `Rule.KeepsPlace` says both for a rule: what it does to the cursor, and where it
or one of its parts fails. It is closed under the ways to put rules together, so that it holds for
each rule of the grammar.
-/

namespace Hypertext

/-! ## Boundaries -/

namespace Text

/-- An offset lies between two characters of a text, or at one of its ends. -/
def IsBoundary (t : Text) (offset : Nat) : Prop :=
  ∃ before after, t = before ++ after ∧ byteSize before = offset

variable {t : Text} {m n : Nat}

theorem isBoundary_iff_cut? : IsBoundary t n ↔ (cut? n t).isSome = true := by
  simp only [IsBoundary, Option.isSome_iff_exists, Prod.exists, cut?_eq_some_iff]

instance : Decidable (IsBoundary t n) := decidable_of_iff _ isBoundary_iff_cut?.symm

theorem isBoundary_zero (t : Text) : IsBoundary t 0 := ⟨[], t, rfl, rfl⟩

theorem isBoundary_max (hm : IsBoundary t m) (hn : IsBoundary t n) : IsBoundary t (max m n) := by
  rcases Nat.le_total m n with h | h
  · rwa [Nat.max_eq_right h]
  · rwa [Nat.max_eq_left h]

end Text

namespace Script

open Lexeme

/-- The cursor stands in a text: the text before it is passed, the rest of it is ahead. -/
def Cursor.In (source : Text) (cursor : Cursor) : Prop :=
  ∃ passed, Cursor.Advances ⟨0, source⟩ passed cursor

namespace Cursor.In

variable {source t : Text} {cursor next : Cursor}

theorem start (source : Text) : Cursor.In source ⟨0, source⟩ := ⟨[], .refl _⟩

theorem advance (h : cursor.In source) (hadvances : cursor.Advances t next) : next.In source := by
  obtain ⟨passed, hpassed⟩ := h
  exact ⟨passed ++ t, hpassed.trans hadvances⟩

theorem isBoundary (h : cursor.In source) : source.IsBoundary cursor.offset := by
  obtain ⟨passed, hpassed⟩ := h
  refine ⟨passed, cursor.rest, hpassed.rest, ?_⟩
  rw [hpassed.offset, Nat.zero_add]

end Cursor.In

theorem Attempt.furthestOf_append (first second : List Attempt) :
    furthestOf (first ++ second) = max (furthestOf first) (furthestOf second) := by
  induction first with
  | nil => exact (Nat.zero_max _).symm
  | cons attempt first ih => rw [List.cons_append, furthestOf, furthestOf, ih, Nat.max_assoc]

/-! ## Rules keep to the text -/

namespace Rule

variable {α β : Type}

/-- A rule moves the cursor over text that stands there, and in a text that the cursor stands in it
fails between two characters. -/
structure KeepsPlace (p : Rule α) : Prop where
  moves : ∀ cursor a next, p.Reads cursor a next → ∃ t, cursor.Advances t next
  fails : ∀ (source : Text) (cursor : Cursor), cursor.In source →
    source.IsBoundary (Attempt.furthestOf (p cursor).attempts)

namespace KeepsPlace

variable {p q : Rule α}

theorem reads (h : KeepsPlace p) {source : Text} {cursor next : Cursor} {a : α}
    (hcursor : cursor.In source) (hreads : p.Reads cursor a next) : next.In source := by
  obtain ⟨t, hadvances⟩ := h.moves cursor a next hreads
  exact hcursor.advance hadvances

theorem pure (a : α) : KeepsPlace (Pure.pure a : Rule α) where
  moves := by
    intro cursor b next h
    obtain ⟨-, rfl⟩ := reads_pure.mp h
    exact ⟨[], .refl _⟩
  fails := fun source _ _ => source.isBoundary_zero

theorem bind {f : α → Rule β} (hp : KeepsPlace p) (hf : ∀ a, KeepsPlace (f a)) :
    KeepsPlace (p >>= f) where
  moves := by
    intro cursor b next h
    obtain ⟨a, middle, hfirst, hsecond⟩ := reads_bind.mp h
    obtain ⟨s, hs⟩ := hp.moves cursor a middle hfirst
    obtain ⟨t, ht⟩ := (hf a).moves middle b next hsecond
    exact ⟨s ++ t, hs.trans ht⟩
  fails := by
    intro source cursor hcursor
    have hfirst := hp.fails source cursor hcursor
    show source.IsBoundary (Attempt.furthestOf (Rule.bind p f cursor).attempts)
    unfold Rule.bind
    cases hresult : (p cursor).result with
    | none => simpa only [hresult] using hfirst
    | some result =>
        simp only [hresult]
        -- the second rule is tried where the first one left the cursor
        have hsecond := (hf result.1).fails source result.2 (hp.reads hcursor hresult)
        rw [Attempt.furthestOf_append]
        exact Text.isBoundary_max hfirst hsecond

theorem orElse (hp : KeepsPlace p) (hq : KeepsPlace q) : KeepsPlace (p <|> q) where
  moves := by
    intro cursor a next h
    rcases reads_orElse.mp h with h | ⟨-, h⟩
    · exact hp.moves cursor a next h
    · exact hq.moves cursor a next h
  fails := by
    intro source cursor hcursor
    have hfirst := hp.fails source cursor hcursor
    show source.IsBoundary (Attempt.furthestOf (Rule.orElse p (fun _ => q) cursor).attempts)
    unfold Rule.orElse
    cases hresult : (p cursor).result with
    | none =>
        simp only [hresult]
        rw [Attempt.furthestOf_append]
        exact Text.isBoundary_max hfirst (hq.fails source cursor hcursor)
    | some result => simpa only [hresult] using hfirst

/-- A rule fails no further than its parts, and itself where it is tried. -/
theorem named (expectation : Expectation) (h : KeepsPlace p) :
    KeepsPlace (Rule.named expectation p) where
  moves := fun cursor a next hreads => h.moves cursor a next (reads_named.mp hreads)
  fails := by
    intro source cursor hcursor
    have hinner := h.fails source cursor hcursor
    unfold Rule.named
    cases hresult : (p cursor).result with
    | none =>
        simp only [hresult, Attempt.furthestOf, Attempt.furthest]
        have hplace := Text.isBoundary_max hcursor.isBoundary hinner
        exact Text.isBoundary_max hplace source.isBoundary_zero
    | some result => simpa only [hresult] using hinner

theorem ahead (h : KeepsPlace p) : KeepsPlace (Rule.ahead p) where
  moves := by
    intro cursor u next hreads
    obtain ⟨rfl, -⟩ := reads_ahead.mp hreads
    exact ⟨[], .refl _⟩
  fails := fun source cursor hcursor => h.fails source cursor hcursor

theorem maybe (h : KeepsPlace p) : KeepsPlace (Rule.maybe p) where
  moves := by
    intro cursor u next hreads
    rcases reads_maybe.mp hreads with ⟨a, hreads⟩ | ⟨-, rfl⟩
    · exact h.moves cursor a next hreads
    · exact ⟨[], .refl _⟩
  fails := by
    intro source cursor hcursor
    have hinner := h.fails source cursor hcursor
    unfold Rule.maybe
    cases hresult : (p cursor).result with
    | none => simpa only [hresult] using hinner
    | some result => simpa only [hresult] using hinner

theorem lexeme {reader : Reader} (h : Splits reader) : KeepsPlace (Rule.lexeme reader) where
  moves := fun _ t _ hreads => ⟨t, advances_lexeme h hreads⟩
  fails := by
    intro source cursor _
    unfold Rule.lexeme
    cases reader cursor.rest with
    | none => exact source.isBoundary_zero
    | some found => exact source.isBoundary_zero

theorem exactly (s : String) : KeepsPlace (Rule.exactly s) := .lexeme (splits_exactly s.toList)

theorem offset : KeepsPlace Rule.offset where
  moves := by
    intro cursor n next h
    obtain ⟨-, rfl⟩ := reads_offset.mp h
    exact ⟨[], .refl _⟩
  fails := fun source _ _ => source.isBoundary_zero

theorem endOfInput : KeepsPlace Rule.endOfInput := by
  refine .named _ ⟨fun cursor u next h => ?_, fun source _ _ => source.isBoundary_zero⟩
  obtain ⟨-, rfl⟩ := reads_endOfInput.mp (reads_named.mpr h)
  exact ⟨[], .refl _⟩

theorem upTo (h : KeepsPlace p) (fuel : Nat) : KeepsPlace (Rule.upTo p fuel) := by
  induction fuel with
  | zero => exact .pure []
  | succ fuel ih =>
      constructor
      · intro cursor results next hreads
        exact (readsAll_of_upTo hreads).advances h.moves
      · intro source cursor hcursor
        have hfirst := h.fails source cursor hcursor
        unfold Rule.upTo
        cases hresult : (p cursor).result with
        | none => simpa only [hresult] using hfirst
        | some result =>
            simp only [hresult]
            rw [Attempt.furthestOf_append]
            exact Text.isBoundary_max hfirst (ih.fails source result.2 (h.reads hcursor hresult))

theorem many (h : KeepsPlace p) : KeepsPlace (Rule.many p) where
  moves := fun cursor results next hreads =>
    (h.upTo (cursor.rest.length + 1)).moves cursor results next hreads
  fails := fun source cursor hcursor =>
    (h.upTo (cursor.rest.length + 1)).fails source cursor hcursor

end KeepsPlace

/-! ## The rules of the grammar -/

theorem keepsPlace_run (p : Char → Bool) : KeepsPlace (lexeme (run p)) := .lexeme (splits_run p)

theorem keepsPlace_spaces1 : KeepsPlace spaces1 := .lexeme (splits_run1 isSpace)

theorem keepsPlace_identifier : KeepsPlace identifier := .named _ (.lexeme splits_word)

theorem keepsPlace_moduleName : KeepsPlace moduleName := by
  have hquoted (q : String) (quote : Char) : KeepsPlace (do
      let _ ← exactly q
      let name ← lexeme (moduleText quote)
      let _ ← exactly q
      return name) :=
    (KeepsPlace.exactly q).bind fun _ => (keepsPlace_run _).bind fun _ =>
      (KeepsPlace.exactly q).bind fun _ => .pure _
  exact (hquoted "\"" '"').orElse (hquoted "'" '\x27')

theorem keepsPlace_statementEnd : KeepsPlace statementEnd :=
  .maybe <| (keepsPlace_run _).bind fun _ => .exactly ";"

theorem keepsPlace_importDeclaration : KeepsPlace importDeclaration :=
  .named _ <| KeepsPlace.offset.bind fun _ => (KeepsPlace.exactly _).bind fun _ =>
    keepsPlace_spaces1.bind fun _ => keepsPlace_identifier.bind fun _ =>
      keepsPlace_spaces1.bind fun _ => (KeepsPlace.exactly _).bind fun _ =>
        (keepsPlace_run _).bind fun _ => keepsPlace_moduleName.bind fun _ =>
          keepsPlace_statementEnd.bind fun _ => KeepsPlace.offset.bind fun _ => .pure _

theorem keepsPlace_requireCall : KeepsPlace requireCall :=
  .named _ <| (KeepsPlace.exactly _).bind fun _ => (keepsPlace_run _).bind fun _ =>
    (KeepsPlace.exactly _).bind fun _ => (keepsPlace_run _).bind fun _ =>
      keepsPlace_moduleName.bind fun _ => (keepsPlace_run _).bind fun _ =>
        (KeepsPlace.exactly _).bind fun _ => .pure _

theorem keepsPlace_moreDeclarators : KeepsPlace moreDeclarators :=
  .named _ <| (keepsPlace_run _).bind fun _ => (KeepsPlace.exactly _).bind fun _ =>
    (keepsPlace_run _).bind fun _ => .pure _

theorem keepsPlace_lineEnd : KeepsPlace lineEnd :=
  (keepsPlace_run _).bind fun _ => ((KeepsPlace.exactly _).bind fun _ => .pure _).orElse <|
    ((KeepsPlace.lexeme splits_lineBreak).bind fun _ => .pure _).orElse .endOfInput

theorem keepsPlace_requireDeclaration : KeepsPlace requireDeclaration := by
  have hkeyword : KeepsPlace (exactly "const" <|> exactly "let" <|> exactly "var") :=
    (KeepsPlace.exactly _).orElse ((KeepsPlace.exactly _).orElse (.exactly _))
  have hstop (start nameStart : Nat) : KeepsPlace
      ((do moreDeclarators; return nameStart) <|> (do ahead lineEnd; statementEnd; return start)) :=
    (keepsPlace_moreDeclarators.bind fun _ => .pure _).orElse <|
      keepsPlace_lineEnd.ahead.bind fun _ => keepsPlace_statementEnd.bind fun _ => .pure _
  exact .named _ <| KeepsPlace.offset.bind fun start => hkeyword.bind fun _ =>
    keepsPlace_spaces1.bind fun _ => KeepsPlace.offset.bind fun nameStart =>
      keepsPlace_identifier.bind fun _ => (keepsPlace_run _).bind fun _ =>
        (KeepsPlace.exactly _).bind fun _ => (keepsPlace_run _).bind fun _ =>
          keepsPlace_requireCall.bind fun _ => (hstop start nameStart).bind fun _ =>
            KeepsPlace.offset.bind fun _ => .pure _

theorem keepsPlace_piece {reader : Reader} (h : Splits reader) : KeepsPlace (piece reader) :=
  KeepsPlace.offset.bind fun _ => (KeepsPlace.lexeme h).bind fun _ =>
    KeepsPlace.offset.bind fun _ => .pure _

theorem keepsPlace_substitution : KeepsPlace substitution :=
  .named _ <| (KeepsPlace.exactly _).bind fun _ =>
    (keepsPlace_piece splits_expression).bind fun _ => (KeepsPlace.exactly _).bind fun _ => .pure _

theorem keepsPlace_template : KeepsPlace template := by
  have hquasi : KeepsPlace quasi := keepsPlace_piece splits_templateChars
  have hpair : KeepsPlace (do
      let expression ← substitution
      let text ← quasi
      return (expression, text)) :=
    keepsPlace_substitution.bind fun _ => hquasi.bind fun _ => .pure _
  exact .named _ <| KeepsPlace.offset.bind fun _ => (KeepsPlace.exactly _).bind fun _ =>
    hquasi.bind fun _ => hpair.many.bind fun _ => (KeepsPlace.exactly _).bind fun _ =>
      KeepsPlace.offset.bind fun _ => .pure _

theorem keepsPlace_memberPath : KeepsPlace memberPath := by
  have hname : KeepsPlace furtherName :=
    (keepsPlace_run _).bind fun _ => (KeepsPlace.exactly _).bind fun _ =>
      (keepsPlace_run _).bind fun _ => keepsPlace_identifier
  rw [memberPath_eq]
  exact .named _ <| keepsPlace_identifier.bind fun _ => hname.many.bind fun _ => .pure _

theorem keepsPlace_taggedTemplate : KeepsPlace taggedTemplate := by
  have htag : KeepsPlace
      ((do let source ← requireCall; return TemplateTag.require source) <|> memberPath) :=
    (keepsPlace_requireCall.bind fun _ => .pure _).orElse keepsPlace_memberPath
  exact .named _ <| KeepsPlace.offset.bind fun _ => htag.bind fun _ =>
    (keepsPlace_run _).bind fun _ => keepsPlace_template.bind fun _ =>
      KeepsPlace.offset.bind fun _ => .pure _

/-- **Every piece of a script is read, or tried in vain, between two characters.** -/
theorem keepsPlace_item : KeepsPlace item :=
  ((KeepsPlace.lexeme splits_comment).bind fun _ => .pure _).orElse <|
    (keepsPlace_importDeclaration.bind fun _ => .pure _).orElse <|
    (keepsPlace_requireDeclaration.bind fun _ => .pure _).orElse <|
    (keepsPlace_taggedTemplate.bind fun _ => .pure _).orElse <|
    (keepsPlace_template.bind fun _ => .pure _).orElse <|
    ((KeepsPlace.lexeme splits_string).bind fun _ => .pure _).orElse <|
    (keepsPlace_identifier.bind fun _ => .pure _).orElse <|
    (KeepsPlace.lexeme splits_otherCharacter).bind fun _ => .pure _

theorem keepsPlace_file : KeepsPlace file :=
  .named _ <| keepsPlace_item.many.bind fun _ => KeepsPlace.endOfInput.bind fun _ => .pure _

end Rule

/-- **A script that cannot be read** is reported between two of its characters or at its end. -/
theorem scan_error_isBoundary {source : Text} {e : ScanError} (h : scan source = .error e) :
    source.IsBoundary e.offset := by
  have hfails := Rule.keepsPlace_file.fails source ⟨0, source⟩ (.start source)
  unfold scan at h
  dsimp only at h
  split at h
  · cases h
  · cases h
    exact hfails

end Script
end Hypertext

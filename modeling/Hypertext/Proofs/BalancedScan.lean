import Hypertext.Proofs.Balanced
import Hypertext.Proofs.Shifted

set_option autoImplicit false

/-! # Scanning balanced code

A script in which all quotes and backquotes have their partners can be scanned to the end, whatever
else it is made of. Every step of the scanner leaves a balanced script behind it, and in every
template that it finds the substitutions are balanced, too (`item_balanced`, `scan_of_balanced`).
-/

namespace Hypertext
namespace Script

open Lexeme

/-- The piece stands in the text, which begins at an offset, as a balanced substitution. -/
def Piece.PairedIn (piece : Piece) (offset : Nat) (text : Text) : Prop :=
  ∃ before rest, text = before ++ (piece.text ++ '\x7d' :: rest) ∧
    piece.span.start = offset + Text.byteSize before ∧
    Balanced (.code true) piece.text ('\x7d' :: rest)

theorem Piece.PairedIn.append {piece : Piece} {offset : Nat} {text : Text} (s : Text)
    (h : piece.PairedIn (offset + s.byteSize) text) : piece.PairedIn offset (s ++ text) := by
  obtain ⟨before, rest, rfl, hstart, hbalanced⟩ := h
  refine ⟨s ++ before, rest, by rw [List.append_assoc], ?_, hbalanced⟩
  rw [hstart, Text.byteSize_append, Nat.add_assoc]

/-! ## Templates -/

namespace Rule

variable {offset : Nat} {rest : Text}

theorem piece_reads {reader : Lexeme.Reader} {t text : Text} (h : reader text = some (t, rest)) :
    (piece reader).Reads ⟨offset, text⟩ ⟨t, ⟨offset, offset + t.byteSize⟩⟩
      ⟨offset + t.byteSize, rest⟩ := by
  simp only [piece, reads_bind, reads_offset, reads_pure]
  exact ⟨_, _, ⟨rfl, rfl⟩, t, _, lexeme_reads h, _, _, ⟨rfl, rfl⟩, rfl, rfl⟩

theorem quasi_reads {t : Text} (ht : IsQuasi t) (hrest : EndsQuasi rest) :
    quasi.Reads ⟨offset, t ++ rest⟩ ⟨t, ⟨offset, offset + t.byteSize⟩⟩
      ⟨offset + t.byteSize, rest⟩ :=
  piece_reads (by rw [templateChars_append_of_isQuasi ht hrest])

theorem substitution_reads {t : Text} (h : Balanced (.code true) t ('\x7d' :: rest)) :
    substitution.Reads ⟨offset, '$' :: '\x7b' :: (t ++ '\x7d' :: rest)⟩
      ⟨t, ⟨offset + 2, offset + 2 + t.byteSize⟩⟩ ⟨offset + 2 + t.byteSize + 1, rest⟩ := by
  have hexpression : Lexeme.expression (t ++ '\x7d' :: rest) = some (t, '\x7d' :: rest) := by
    rw [Lexeme.expression, h.reads rest _ rfl (Nat.le_refl _)]
  simp only [substitution, reads_named, reads_bind, reads_pure]
  exact ⟨_, ⟨offset + 2, t ++ '\x7d' :: rest⟩, rfl, _, _, piece_reads hexpression, _, _, rfl, rfl,
    rfl⟩

/-- A substitution and the static part behind it. -/
def substitutionPart : Rule (Piece × Piece) := do
  let expression ← substitution
  let text ← quasi
  return (expression, text)

theorem template_eq : template = named .template (do
    let start ← Rule.offset
    let _ ← exactly "\x60"
    let first ← quasi
    let others ← many substitutionPart
    let _ ← exactly "\x60"
    let stop ← Rule.offset
    return ⟨none, ⟨start, stop⟩, first :: others.map Prod.snd, others.map Prod.fst⟩) :=
  rfl

theorem takes_substitutionPart : Takes substitutionPart := by
  intro cursor found next h
  simp only [substitutionPart, reads_bind, reads_pure] at h
  obtain ⟨expression, c₁, hexpression, text, _, htext, rfl, rfl⟩ := h
  obtain ⟨hadvances, -⟩ := substitution_spec hexpression
  exact ⟨_, hadvances.trans (piece_spec Lexeme.splits_templateChars htext).1, by simp⟩

theorem substitutionPart_backquote (offset : Nat) (t : Text) :
    (substitutionPart ⟨offset, '\x60' :: t⟩).result = none := by
  refine result_eq_none fun found next hreads => ?_
  obtain ⟨expression, c₁, hexpression, -⟩ := reads_bind.mp hreads
  exact absurd (List.cons.inj (substitution_spec hexpression).1.rest).1 (by decide)

/-- The parts of a balanced template are the same whatever follows it. -/
theorem parts_reads {context : Context} {t after u : Text} (h : Balanced context t after)
    (hcontext : context = .template) (hafter : after = '\x60' :: u) (offset : Nat) :
    ∃ first others, ∀ v, Replaces ('\x60' :: u) ('\x60' :: v) →
      (∃ middle, quasi.Reads ⟨offset, t ++ '\x60' :: v⟩ first middle ∧
        substitutionPart.ReadsAll middle others ⟨offset + t.byteSize, '\x60' :: v⟩) ∧
      ∀ part ∈ others, part.1.PairedIn offset (t ++ '\x60' :: v) := by
  induction h generalizing offset with
  | nil => cases hcontext
  | inert _ _ _ _ => cases hcontext
  | braces _ _ _ _ => cases hcontext
  | template _ _ _ _ => cases hcontext
  | @quasi t after ht =>
      refine ⟨⟨t, ⟨offset, offset + t.byteSize⟩⟩, [], fun v _ => ⟨⟨_, ?_, .nil _⟩, ?_⟩⟩
      · exact quasi_reads ht (.inl ⟨v, rfl⟩)
      · exact fun _ hpart => absurd hpart List.not_mem_nil
  | @substitution t expression rest after ht hexpression _ _ ih =>
      subst hafter
      obtain ⟨first, others, hothers⟩ :=
        ih rfl rfl (offset + t.byteSize + 2 + expression.byteSize + 1)
      refine ⟨⟨t, ⟨offset, offset + t.byteSize⟩⟩, (⟨expression, ⟨offset + t.byteSize + 2,
        offset + t.byteSize + 2 + expression.byteSize⟩⟩, first) :: others, fun v hv => ?_⟩
      obtain ⟨⟨middle, hfirst, hrest⟩, hpaired⟩ := hothers v hv
      have hbalanced := hexpression.replace ((hv.append rest).cons '\x7d')
      have htext : t ++ '$' :: '\x7b' :: (expression ++ '\x7d' :: rest) ++ '\x60' :: v
          = t ++ '$' :: '\x7b' :: (expression ++ '\x7d' :: (rest ++ '\x60' :: v)) := by
        simp
      rw [htext]
      have hpart : substitutionPart.Reads _ _ middle :=
        reads_bind.mpr ⟨_, _, substitution_reads hbalanced,
          reads_bind.mpr ⟨_, _, hfirst, reads_pure.mpr ⟨rfl, rfl⟩⟩⟩
      refine ⟨⟨_, quasi_reads ht (.inr ⟨_, rfl⟩), .cons hpart ?_⟩, ?_⟩
      · have hsize : offset + Text.byteSize (t ++ '$' :: '\x7b' :: (expression ++ '\x7d' :: rest))
            = offset + t.byteSize + 2 + expression.byteSize + 1 + rest.byteSize := by
          rw [Text.byteSize_append, byteSize_substitution]
          omega
        rwa [hsize]
      · intro part hpart
        rcases List.mem_cons.mp hpart with rfl | hpart
        · refine ⟨t ++ ['$', '\x7b'], rest ++ '\x60' :: v, by simp, ?_, hbalanced⟩
          rw [Text.byteSize_append, ← Nat.add_assoc]
          rfl
        · have hsize : offset + t.byteSize + 2 + expression.byteSize + 1
              = offset + Text.byteSize (t ++ '$' :: '\x7b' :: (expression ++ ['\x7d'])) := by
            rw [Text.byteSize_append, byteSize_substitution, Text.byteSize_nil]
            omega
          have hmoved := hpaired part hpart
          rw [hsize] at hmoved
          have happend := hmoved.append (t ++ '$' :: '\x7b' :: (expression ++ ['\x7d']))
          simpa using happend

/-- **A balanced template is read,** and whatever follows it, the same is read. -/
theorem template_reads {body u : Text} (h : Balanced .template body ('\x60' :: u)) (offset : Nat) :
    ∃ literal, ∀ v, Replaces ('\x60' :: u) ('\x60' :: v) →
      template.Reads ⟨offset, '\x60' :: (body ++ '\x60' :: v)⟩ literal
        ⟨offset + Text.byteSize ('\x60' :: (body ++ ['\x60'])), v⟩ ∧
      ∀ piece ∈ literal.substitutions,
        piece.PairedIn offset ('\x60' :: (body ++ '\x60' :: v)) := by
  obtain ⟨first, others, hparts⟩ := parts_reads h rfl rfl (offset + 1)
  have hbackquote : '\x60'.utf8Size = 1 := rfl
  have hsize : offset + Text.byteSize ('\x60' :: (body ++ ['\x60']))
      = offset + 1 + Text.byteSize body + 1 := by
    simp only [Text.byteSize_cons, Text.byteSize_append, Text.byteSize_nil]
    omega
  rw [hsize]
  refine ⟨⟨none, ⟨offset, offset + 1 + Text.byteSize body + 1⟩, first :: others.map Prod.snd,
    others.map Prod.fst⟩, fun v hv => ?_⟩
  obtain ⟨⟨middle, hfirst, hothers⟩, hpaired⟩ := hparts v hv
  constructor
  · rw [template_eq, reads_named]
    simp only [reads_bind, reads_offset, reads_pure]
    have hothers := (reads_many_iff takes_substitutionPart).mpr
      ⟨hothers, substitutionPart_backquote _ _⟩
    exact ⟨_, _, ⟨rfl, rfl⟩, _, ⟨offset + 1, body ++ '\x60' :: v⟩, rfl, first, middle, hfirst,
      others, _, hothers, _, ⟨offset + 1 + Text.byteSize body + 1, v⟩, rfl, _, _, ⟨rfl, rfl⟩, rfl,
      rfl⟩
  · intro piece hpiece
    obtain ⟨part, hpart, rfl⟩ := List.mem_map.mp hpiece
    exact (hpaired part hpart).append ['\x60']

end Rule

/-! ## The first piece of a balanced script -/

/-- How a script that is not empty begins, with what is balanced behind it. -/
inductive Head (t : Text) : Prop where
  | comment {piece rest : Text} (h : Lexeme.comment t = some (piece, rest))
      (hrest : Balanced (.code false) rest [])
  | string {piece rest : Text} (hcomment : Lexeme.comment t = none)
      (h : Lexeme.string t = some (piece, rest)) (hrest : Balanced (.code false) rest [])
  | char {c : Char} {rest : Text} (heq : t = c :: rest) (hc : isPlain c = true)
      (hcomment : Lexeme.comment t = none) (hrest : Balanced (.code false) rest [])
  | template {body rest : Text} (heq : t = '\x60' :: (body ++ '\x60' :: rest))
      (hbody : Balanced .template body ('\x60' :: rest)) (hrest : Balanced (.code false) rest [])

namespace Balanced

variable {t piece rest : Text} {c : Char}

theorem head (h : Balanced (.code false) t []) (hne : t ≠ []) : Head t := by
  cases h with
  | nil => exact absurd rfl hne
  | inert hpiece _ hrest =>
      rw [List.append_nil] at hpiece
      cases hpiece.kind with
      | comment h => exact .comment h hrest
      | string hcomment h => exact .string hcomment h hrest
      | char heq hc hcomment =>
          subst heq
          exact .char rfl hc hcomment hrest
  | template hbody hrest =>
      rw [List.append_nil] at hbody
      exact .template rfl hbody hrest

theorem of_comment (h : Balanced (.code false) t [])
    (hread : Lexeme.comment t = some (piece, rest)) : Balanced (.code false) rest [] := by
  have hne : t ≠ [] := by
    rintro rfl
    cases hread
  cases h.head hne with
  | comment h hrest =>
      rw [h] at hread
      cases hread
      exact hrest
  | string hcomment _ _ =>
      rw [hcomment] at hread
      cases hread
  | char _ _ hcomment _ =>
      rw [hcomment] at hread
      cases hread
  | template heq _ _ =>
      rw [heq, comment_eq_none (by decide)] at hread
      cases hread

theorem of_string (h : Balanced (.code false) t []) (hnone : Lexeme.comment t = none)
    (hread : Lexeme.string t = some (piece, rest)) : Balanced (.code false) rest [] := by
  have hne : t ≠ [] := by
    rintro rfl
    cases hread
  cases h.head hne with
  | comment h _ =>
      rw [hnone] at h
      cases h
  | string _ h hrest =>
      rw [h] at hread
      cases hread
      exact hrest
  | char heq hc _ _ =>
      rw [heq, string_eq_none_of_isPlain hc] at hread
      cases hread
  | template heq _ _ =>
      rw [heq, string_eq_none (by decide) (by decide)] at hread
      cases hread

theorem of_char (h : Balanced (.code false) (c :: rest) []) (hc : isPlain c = true)
    (hnone : Lexeme.comment (c :: rest) = none) : Balanced (.code false) rest [] := by
  cases h.head (List.cons_ne_nil _ _) with
  | comment h _ =>
      rw [hnone] at h
      cases h
  | string _ h _ =>
      rw [string_eq_none_of_isPlain hc] at h
      cases h
  | char heq _ _ hrest =>
      obtain ⟨-, rfl⟩ := List.cons.inj heq
      exact hrest
  | template heq _ _ =>
      rw [(List.cons.inj heq).1] at hc
      exact absurd hc (by decide)

theorem of_backquote (h : Balanced (.code false) ('\x60' :: t) []) :
    ∃ body rest, t = body ++ '\x60' :: rest ∧ Balanced .template body ('\x60' :: rest) ∧
      Balanced (.code false) rest [] := by
  cases h.head (List.cons_ne_nil _ _) with
  | comment h _ =>
      rw [comment_eq_none (by decide)] at h
      cases h
  | string _ h _ =>
      rw [string_eq_none (by decide) (by decide)] at h
      cases h
  | char heq hc _ _ =>
      rw [← (List.cons.inj heq).1] at hc
      exact absurd hc (by decide)
  | template heq hbody hrest => exact ⟨_, _, (List.cons.inj heq).2, hbody, hrest⟩

end Balanced

/-! ## Texts of whole pieces -/

/-- A text of whole pieces: it is balanced wherever it stands, and what it is taken off from stays
balanced. -/
structure Whole (s : Text) : Prop where
  balanced : ∀ after, Balanced (.code false) s after
  skips : ∀ rest, Balanced (.code false) (s ++ rest) [] → Balanced (.code false) rest []

namespace Whole

theorem nil : Whole [] := ⟨fun _ => .nil, fun _ h => h⟩

theorem append {s t : Text} (hs : Whole s) (ht : Whole t) : Whole (s ++ t) where
  balanced := fun after => (hs.balanced (t ++ after)).append (ht.balanced after)
  skips := by
    intro rest h
    rw [List.append_assoc] at h
    exact ht.skips rest (hs.skips _ h)

theorem char {c : Char} (hc : isQuiet c = true) : Whole [c] := by
  rw [isQuiet, Bool.and_eq_true, bne_iff_ne] at hc
  refine ⟨fun after => ?_, fun rest h => h.of_char hc.1 (comment_eq_none hc.2 _)⟩
  exact .inert (.char hc.1 (comment_eq_none hc.2 _)) (fun hfalse => by cases hfalse) .nil

theorem quiet {s : Text} (hs : ∀ c ∈ s, isQuiet c = true) : Whole s := by
  induction s with
  | nil => exact .nil
  | cons c s ih =>
      have hrest := ih fun d hd => hs d (List.mem_cons_of_mem c hd)
      exact (char (hs c List.mem_cons_self)).append hrest

end Whole

theorem IsSpaces.whole {s : Text} (hs : IsSpaces s) : Whole s :=
  .quiet fun c hc => isQuiet_of_isSpace (hs c hc)

theorem IsWord.whole {w : Text} (hw : IsWord w) : Whole w := by
  obtain ⟨hc, hparts⟩ := hw
  refine .quiet fun d hd => ?_
  rcases List.mem_cons.mp hd with rfl | hd
  · exact isQuiet_of_isWordStart hc
  · exact isQuiet_of_isWordPart (hparts d hd)

theorem IsQuoted.whole {s : Text} (h : IsQuoted s) : Whole s := by
  refine ⟨fun after => ?_, fun rest hbalanced => hbalanced.of_string (h.comment rest) (h.read rest)⟩
  rw [← List.append_nil s]
  exact .inert (inert_string (h.read _)) (fun hfalse => by cases hfalse) .nil

theorem SpellsModule.whole {name quoted : Text} (h : SpellsModule name quoted) : Whole quoted :=
  h.isQuoted.whole

theorem IsStatementEnd.whole {t : Text} (h : IsStatementEnd t) : Whole t := by
  cases h with
  | none => exact .nil
  | semicolon hblanks =>
      refine Whole.append (.quiet fun c hc => isQuiet_of_isSpace ?_) (.char (by decide))
      rw [isSpace, hblanks c hc, Bool.true_or]

theorem SpellsRequire.whole {name t : Text} (h : SpellsRequire name t) : Whole t := by
  obtain ⟨h₁, h₂, hquoted, h₃⟩ := h
  have hkeyword : Whole "require".toList := .quiet (List.all_eq_true.mp (by decide))
  have hopen : Whole ['('] := .char (by decide)
  have hclose : Whole [')'] := .char (by decide)
  exact hkeyword.append <| h₁.whole.append <| hopen.append <| h₂.whole.append <|
    hquoted.whole.append <| h₃.whole.append hclose

theorem whole_keyword {keyword : Text}
    (h : keyword = "const".toList ∨ keyword = "let".toList ∨ keyword = "var".toList) :
    Whole keyword := by
  rcases h with rfl | rfl | rfl <;> exact .quiet (List.all_eq_true.mp (by decide))

theorem ModuleBinding.Spells.whole {name moduleName t : Text} {kind : BindingKind}
    (h : ModuleBinding.Spells name moduleName kind t) : Whole t := by
  have hequals : Whole ['='] := .char (by decide)
  have hcomma : Whole [','] := .char (by decide)
  cases h with
  | importDeclaration h₁ _ hname h₂ _ h₃ hquoted hstop =>
      have hkeyword : Whole "import".toList := .quiet (List.all_eq_true.mp (by decide))
      have hfrom : Whole "from".toList := .quiet (List.all_eq_true.mp (by decide))
      exact hkeyword.append <| h₁.whole.append <| hname.whole.append <| h₂.whole.append <|
        hfrom.append <| h₃.whole.append <| hquoted.whole.append hstop.whole
  | declaration hkeyword h₁ _ hname h₂ h₃ hcall hstop =>
      exact (whole_keyword hkeyword).append <| h₁.whole.append <| hname.whole.append <|
        h₂.whole.append <| hequals.append <| h₃.whole.append <| hcall.whole.append hstop.whole
  | declarator hname h₁ h₂ hcall h₃ h₄ =>
      exact hname.whole.append <| h₁.whole.append <| hequals.append <| h₂.whole.append <|
        hcall.whole.append <| h₃.whole.append <| hcomma.append h₄.whole

theorem Rule.IsLead.whole {t : Text} (h : Rule.IsLead t) : Whole t := by
  cases h with
  | none => exact .nil
  | keyword hkeyword hs => exact (whole_keyword hkeyword).append (IsSpaces.whole hs)

theorem SpellsPath.whole {names : List Text} {t : Text} (h : SpellsPath names t) : Whole t := by
  have hdot : Whole ['.'] := .char (by decide)
  induction h with
  | last hname => exact hname.whole
  | dot hname h₁ h₂ _ ih =>
      exact hname.whole.append <| h₁.whole.append <| hdot.append <| h₂.whole.append ih

theorem SpellsTag.whole {tag : Option TemplateTag} {t blanks : Text} (h : SpellsTag tag t blanks) :
    Whole (t ++ blanks) := by
  cases h with
  | untagged => exact .nil
  | path h hblanks => exact h.whole.append hblanks.whole
  | require h hblanks => exact h.whole.append hblanks.whole

/-! ## Steps of the scanner -/

namespace Rule

variable {cursor next : Cursor}

theorem template_balanced {literal : TemplateLiteral} (h : template.Reads cursor literal next)
    (hbalanced : Balanced (.code false) cursor.rest []) :
    Balanced (.code false) next.rest [] ∧
      ∀ piece ∈ literal.substitutions, piece.PairedIn cursor.offset cursor.rest := by
  obtain ⟨offset, _⟩ := cursor
  obtain ⟨more, rfl⟩ := template_ticks h
  obtain ⟨body, rest, rfl, hbody, hrest⟩ := hbalanced.of_backquote
  obtain ⟨literal', hreads⟩ := template_reads hbody offset
  obtain ⟨hreads, hpaired⟩ := hreads rest .refl
  obtain ⟨rfl, rfl⟩ := hreads.unique h
  exact ⟨hrest, hpaired⟩

/-- **One step over a balanced script.** What it leaves is balanced, and if it finds a template, its
substitutions are. -/
theorem item_balanced {found : Option Item} (h : item.Reads cursor found next)
    (hbalanced : Balanced (.code false) cursor.rest []) :
    Balanced (.code false) next.rest [] ∧ ∀ literal, found = some (.template literal) →
      ∀ piece ∈ literal.substitutions, piece.PairedIn cursor.offset cursor.rest := by
  rcases reads_orElse.mp h with h | ⟨hcomment, h⟩
  · simp only [reads_bind, reads_pure] at h
    obtain ⟨t, _, hread, rfl, rfl⟩ := h
    exact ⟨hbalanced.of_comment (reads_lexeme.mp hread).1, fun _ heq => nomatch heq⟩
  have hcomment := comment_fails hcomment
  simp only [reads_orElse, reads_bind, reads_pure] at h
  rcases h with h | ⟨-, h | ⟨-, h | ⟨-, h | ⟨-, h | ⟨-, h | ⟨-, h⟩⟩⟩⟩⟩⟩
  all_goals obtain ⟨a, _, hread, rfl, rfl⟩ := h
  · obtain ⟨t, hadvances, hspells⟩ := importDeclaration_spec hread
    rw [hadvances.rest] at hbalanced
    cases hspells with
    | binding h _ => exact ⟨h.whole.skips _ hbalanced, fun _ heq => nomatch heq⟩
  · obtain ⟨lead, t, hadvances, hlead, hspells⟩ := requireDeclaration_spec hread
    rw [hadvances.rest] at hbalanced
    cases hspells with
    | binding h _ =>
        exact ⟨(hlead.whole.append h.whole).skips _ hbalanced, fun _ heq => nomatch heq⟩
  · simp only [taggedTemplate, reads_named, reads_bind, reads_offset, reads_pure] at hread
    obtain ⟨_, _, ⟨rfl, rfl⟩, tag, c₁, htag, blanks, c₂, hblanks, untagged, c₃, htemplate, _, _,
      ⟨rfl, rfl⟩, rfl, rfl⟩ := hread
    obtain ⟨tagText, htag, hspells⟩ := tag_spec htag
    obtain ⟨hblanks, hspaces⟩ := run_spec hblanks
    have hadvances := htag.trans hblanks
    rw [hadvances.rest] at hbalanced
    obtain ⟨hrest, hpaired⟩ :=
      template_balanced htemplate ((hspells blanks hspaces).whole.skips _ hbalanced)
    refine ⟨hrest, fun literal heq piece hpiece => ?_⟩
    cases heq
    have hpaired := hpaired piece hpiece
    rw [hadvances.offset] at hpaired
    rw [hadvances.rest]
    exact hpaired.append _
  · obtain ⟨hrest, hpaired⟩ := template_balanced hread hbalanced
    refine ⟨hrest, fun literal heq piece hpiece => ?_⟩
    cases heq
    exact hpaired piece hpiece
  · exact ⟨hbalanced.of_string hcomment (reads_lexeme.mp hread).1, fun _ heq => nomatch heq⟩
  · obtain ⟨hadvances, hword⟩ := identifier_spec hread
    rw [hadvances.rest] at hbalanced
    exact ⟨hword.whole.skips _ hbalanced, fun _ heq => nomatch heq⟩
  · obtain ⟨c, hc, hrest, -⟩ := otherCharacter_eq_some (reads_lexeme.mp hread).1
    rw [hrest] at hbalanced hcomment
    exact ⟨hbalanced.of_char hc hcomment, fun _ heq => nomatch heq⟩

/-- At every place of a balanced script something is read. -/
theorem item_reads_of_balanced (hbalanced : Balanced (.code false) cursor.rest [])
    (hne : cursor.rest ≠ []) : ∃ found next, item.Reads cursor found next := by
  by_contra hnone
  have hfails : (item cursor).result = none :=
    result_eq_none fun found next hreads => hnone ⟨found, next, hreads⟩
  simp only [item, orElse_result, Option.or_eq_none_iff] at hfails
  obtain ⟨hcomment, -, -, -, htemplate, hstring, -, hother⟩ := hfails
  have hlexeme {reader : Lexeme.Reader} {piece rest : Text}
      (hread : reader cursor.rest = some (piece, rest)) :
      ((do let _ ← lexeme reader; return none : Rule (Option Item)) cursor).result ≠ none := by
    rw [reads_skip hread]
    exact Option.some_ne_none _
  cases hbalanced.head hne with
  | comment h _ => exact hlexeme h hcomment
  | string _ h _ => exact hlexeme h hstring
  | @char c rest heq hc _ _ =>
      have hread : otherCharacter cursor.rest = some ([c], rest) := by
        rw [heq, otherCharacter_cons, if_pos hc]
      exact hlexeme hread hother
  | @template body rest heq hbody _ =>
      obtain ⟨offset, _⟩ := cursor
      dsimp only at heq
      subst heq
      obtain ⟨literal, hreads⟩ := template_reads hbody offset
      have hreads := (hreads rest .refl).1
      have hbind : (do let literal ← template; return some (.template literal) :
          Rule (Option Item)).Reads _ _ _ :=
        reads_bind.mpr ⟨_, _, hreads, reads_pure.mpr ⟨rfl, rfl⟩⟩
      rw [Reads, htemplate] at hbind
      cases hbind

end Rule

/-- **Balanced scripts can be scanned,** and what is found in them is balanced. -/
theorem scan_of_balanced {source : Text} (h : Balanced (.code false) source []) :
    ∃ items, scan source = .ok items ∧ ∀ literal, .template literal ∈ items →
      ∀ piece ∈ literal.substitutions, piece.PairedIn 0 source := by
  have hsteps : ∀ n offset t, t.length ≤ n → Balanced (.code false) t [] →
      ∃ found last, Rule.item.ReadsAll ⟨offset, t⟩ found last ∧ last.rest = [] ∧
        ∀ literal, some (.template literal) ∈ found →
          ∀ piece ∈ literal.substitutions, piece.PairedIn offset t := by
    intro n
    induction n with
    | zero =>
        intro offset t hlength h
        have ht := List.eq_nil_of_length_eq_zero (Nat.le_zero.mp hlength)
        subst ht
        exact ⟨[], _, .nil _, rfl, fun _ hmem => absurd hmem List.not_mem_nil⟩
    | succ n ih =>
        intro offset t hlength h
        by_cases hne : t = []
        · subst hne
          exact ⟨[], _, .nil _, rfl, fun _ hmem => absurd hmem List.not_mem_nil⟩
        obtain ⟨first, middle, hfirst⟩ := @Rule.item_reads_of_balanced ⟨offset, t⟩ h hne
        obtain ⟨hrest, hpaired⟩ := Rule.item_balanced hfirst h
        have hshorter := Rule.takes_item.shorter hfirst
        obtain ⟨taken, hadvances, -⟩ := Rule.takes_item _ _ _ hfirst
        obtain ⟨others, last, hothers, hend, hmore⟩ :=
          ih middle.offset middle.rest (by dsimp only at hshorter; omega) hrest
        refine ⟨first :: others, last, .cons hfirst hothers, hend, ?_⟩
        intro literal hmem piece hpiece
        rcases List.mem_cons.mp hmem with heq | hmem
        · exact hpaired literal heq.symm piece hpiece
        · have hmoved := hmore literal hmem piece hpiece
          rw [hadvances.offset] at hmoved
          have htext : t = taken ++ middle.rest := hadvances.rest
          rw [htext]
          exact hmoved.append _
  obtain ⟨found, last, hfound, hend, hpaired⟩ := hsteps source.length 0 source (Nat.le_refl _) h
  refine ⟨_, scan_eq_ok_iff_readsAll.mpr ⟨found, last, hfound, hend, rfl⟩, fun literal hmem => ?_⟩
  obtain ⟨_, hmem, rfl⟩ := List.mem_filterMap.mp hmem
  exact hpaired literal hmem

/-! ## Scripts that can be scanned -/

theorem Gap.balanced {after t : Text} (h : Gap after t) : Balanced (.code false) t after := by
  induction h with
  | nil => exact .nil
  | cons hpiece _ ih => exact .inert hpiece (fun hfalse => by cases hfalse) ih

section

variable {source : Text}

/-- A substitution that stands at its place is balanced there. -/
theorem Piece.PairedIn.place {piece : Piece} (h : piece.PairedIn 0 source) {before rest : Text}
    (hsource : source = before ++ (piece.text ++ '\x7d' :: rest))
    (hstart : piece.span.start = Text.byteSize before) :
    Balanced (.code true) piece.text ('\x7d' :: rest) := by
  obtain ⟨before', rest', hsource', hstart', hbalanced⟩ := h
  rw [Nat.zero_add, hstart] at hstart'
  obtain ⟨-, htext⟩ := Text.append_inj_of_byteSize (hsource'.symm.trans hsource) hstart'.symm
  rwa [List.append_cancel_left htext] at hbalanced

theorem SpellsParts.balanced {offset : Nat} {quasis expressions : List Piece} {t : Text}
    (h : SpellsParts offset quasis expressions t)
    (hpaired : ∀ piece ∈ expressions, piece.PairedIn 0 source) {before after : Text}
    (hsource : source = before ++ (t ++ after)) (hoffset : offset = Text.byteSize before) :
    Balanced .template t after := by
  induction h generalizing before with
  | last hquasi _ => exact .quasi hquasi
  | @substitution offset quasi expression quasis expressions rest hquasi _ hexpression _ ih =>
      have hplace : source = (before ++ (quasi.text ++ ['$', '\x7b']))
          ++ (expression.text ++ '\x7d' :: (rest ++ after)) := by
        rw [hsource]
        simp
      have hstart : expression.span.start
          = Text.byteSize (before ++ (quasi.text ++ ['$', '\x7b'])) := by
        rw [hexpression, hoffset, Text.byteSize_append, Text.byteSize_append, ← Nat.add_assoc]
        rfl
      have hbalanced := (hpaired expression List.mem_cons_self).place hplace hstart
      have hrest : source
          = (before ++ (quasi.text ++ '$' :: '\x7b' :: (expression.text ++ ['\x7d'])))
            ++ (rest ++ after) := by
        rw [hsource]
        simp
      refine .substitution hquasi hbalanced (ih (fun piece hpiece =>
        hpaired piece (List.mem_cons_of_mem _ hpiece)) hrest ?_)
      rw [hoffset, Text.byteSize_append, Text.byteSize_append, byteSize_substitution,
        Text.byteSize_nil]
      omega

theorem Tiles.balanced {offset : Nat} {t : Text} {items : List Item} (h : Tiles offset t items)
    (hpaired : ∀ literal, .template literal ∈ items →
      ∀ piece ∈ literal.substitutions, piece.PairedIn 0 source)
    {before : Text} (hsource : source = before ++ t) (hoffset : offset = Text.byteSize before) :
    Balanced (.code false) t [] := by
  induction h generalizing before with
  | done hgap => exact hgap.balanced
  | @item offset gap t rest found items hgap hspells _ ih =>
      have hrest : Balanced (.code false) rest [] := by
        have hplace : source = (before ++ (gap ++ t)) ++ rest := by
          rw [hsource]
          simp
        refine ih (fun literal hmem => hpaired literal (List.mem_cons_of_mem _ hmem)) hplace ?_
        rw [hoffset, Text.byteSize_append, Text.byteSize_append]
        omega
      have hitem : Balanced (.code false) (t ++ rest) [] := by
        cases hspells with
        | binding h _ => exact (h.whole.balanced _).append hrest
        | @template literal tag blanks body htag hbody _ =>
            have hbackquote : '\x60'.utf8Size = 1 := rfl
            have hplace : source = (before ++ (gap ++ (tag ++ (blanks ++ ['\x60']))))
                ++ (body ++ '\x60' :: rest) := by
              rw [hsource]
              simp
            have hinner : Balanced .template body ('\x60' :: rest) := by
              refine hbody.balanced (hpaired literal List.mem_cons_self) hplace ?_
              rw [hoffset]
              simp only [Text.byteSize_append, Text.byteSize_cons, Text.byteSize_nil]
              omega
            have htemplate : Balanced (.code false) ('\x60' :: (body ++ '\x60' :: rest)) [] :=
              .template (by rwa [List.append_nil]) hrest
            have hall := (htag.whole.balanced _).append htemplate
            simpa using hall
      have hlead : Balanced (.code false) gap (t ++ rest ++ []) := by
        rw [List.append_nil]
        exact hgap.balanced
      exact hlead.append hitem

end

/-- **What balanced scripts are.** They can be scanned, and the substitutions of all templates found
are balanced. -/
theorem balanced_iff_scan {source : Text} :
    Balanced (.code false) source [] ↔ ∃ items, scan source = .ok items ∧
      ∀ literal, .template literal ∈ items →
        ∀ piece ∈ literal.substitutions, piece.PairedIn 0 source := by
  constructor
  · exact scan_of_balanced
  · rintro ⟨items, hscan, hpaired⟩
    have hnothing : source = [] ++ source := rfl
    exact (tiles_of_scan hscan).balanced hpaired hnothing rfl

end Script
end Hypertext

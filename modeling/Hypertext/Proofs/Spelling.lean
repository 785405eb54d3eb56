import Hypertext.Proofs.Lexemes
import Hypertext.Proofs.Reading

set_option autoImplicit false

/-! # How items are spelled

The items of a script are what the grammar makes of some text. This file says which texts an item
can be made of, character by character and without the grammar (`Item.Spells`), and proves that the
rules of the grammar read nothing else: if a rule reads an item, its cursor moves over a spelling of
that item, and the spans in the item are those of the parts of the spelling.

Spans count from the offset at which the spelling begins.
-/

namespace Hypertext
namespace Script

/-! ## Words and blanks -/

/-- Blanks and line breaks, possibly none. -/
def IsSpaces (t : Text) : Prop := ∀ c ∈ t, Lexeme.isSpace c = true

/-- A name or keyword. -/
inductive IsWord : Text → Prop where
  | intro {c : Char} {t : Text} (hc : Lexeme.isWordStart c = true)
      (ht : ∀ d ∈ t, Lexeme.isWordPart d = true) : IsWord (c :: t)

/-- The name of a module between quotes. -/
inductive SpellsModule (name : Text) : Text → Prop where
  | intro {quote : Char} (hquote : quote = '"' ∨ quote = '\x27')
      (hname : ∀ c ∈ name, c ≠ quote ∧ c ≠ '\\' ∧ Lexeme.isLineBreak c = false) :
      SpellsModule name (quote :: (name ++ [quote]))

/-- The end of a statement: nothing, or blanks and a semicolon. -/
inductive IsStatementEnd : Text → Prop where
  | none : IsStatementEnd []
  | semicolon {blanks : Text} (hblanks : ∀ c ∈ blanks, Lexeme.isInlineBlank c = true) :
      IsStatementEnd (blanks ++ [';'])

/-- A call of `require`. -/
inductive SpellsRequire (name : Text) : Text → Prop where
  | intro {s₁ s₂ s₃ quoted : Text} (h₁ : IsSpaces s₁) (h₂ : IsSpaces s₂)
      (hquoted : SpellsModule name quoted) (h₃ : IsSpaces s₃) :
      SpellsRequire name ("require".toList ++ (s₁ ++ '(' :: (s₂ ++ (quoted ++ (s₃ ++ [')'])))))

/-! ## Bindings -/

/-- The texts that bind a module. Of several declarators after one keyword, only the first is taken,
with the comma after it. -/
inductive ModuleBinding.Spells (name moduleName : Text) : BindingKind → Text → Prop where
  | importDeclaration {s₁ s₂ s₃ quoted stop : Text} (h₁ : IsSpaces s₁) (hs₁ : s₁ ≠ [])
      (hname : IsWord name) (h₂ : IsSpaces s₂) (hs₂ : s₂ ≠ []) (h₃ : IsSpaces s₃)
      (hquoted : SpellsModule moduleName quoted) (hstop : IsStatementEnd stop) :
      Spells name moduleName .importDeclaration ("import".toList ++
        (s₁ ++ (name ++ (s₂ ++ ("from".toList ++ (s₃ ++ (quoted ++ stop)))))))
  | declaration {keyword s₁ s₂ s₃ call stop : Text}
      (hkeyword : keyword = "const".toList ∨ keyword = "let".toList ∨ keyword = "var".toList)
      (h₁ : IsSpaces s₁) (hs₁ : s₁ ≠ []) (hname : IsWord name) (h₂ : IsSpaces s₂)
      (h₃ : IsSpaces s₃) (hcall : SpellsRequire moduleName call) (hstop : IsStatementEnd stop) :
      Spells name moduleName .requireCall
        (keyword ++ (s₁ ++ (name ++ (s₂ ++ '=' :: (s₃ ++ (call ++ stop))))))
  | declarator {s₁ s₂ s₃ s₄ call : Text} (hname : IsWord name) (h₁ : IsSpaces s₁)
      (h₂ : IsSpaces s₂) (hcall : SpellsRequire moduleName call) (h₃ : IsSpaces s₃)
      (h₄ : IsSpaces s₄) :
      Spells name moduleName .requireCall
        (name ++ (s₁ ++ '=' :: (s₂ ++ (call ++ (s₃ ++ ',' :: s₄)))))

/-! ## Templates -/

/-- Names with dots between them. -/
inductive SpellsPath : List Text → Text → Prop where
  | last {name : Text} (hname : IsWord name) : SpellsPath [name] name
  | dot {name t s₁ s₂ : Text} {names : List Text} (hname : IsWord name) (h₁ : IsSpaces s₁)
      (h₂ : IsSpaces s₂) (others : SpellsPath names t) :
      SpellsPath (name :: names) (name ++ (s₁ ++ '.' :: (s₂ ++ t)))

/-- A tag and the blanks after it. Without a tag there is neither. -/
inductive SpellsTag : Option TemplateTag → Text → Text → Prop where
  | untagged : SpellsTag none [] []
  | path {names : List Text} {t blanks : Text} (h : SpellsPath names t)
      (hblanks : IsSpaces blanks) : SpellsTag (some (.path names)) t blanks
  | require {name t blanks : Text} (h : SpellsRequire name t) (hblanks : IsSpaces blanks) :
      SpellsTag (some (.require name)) t blanks

/-- The part of a script from an offset on. -/
def Piece.At (piece : Piece) (offset : Nat) : Prop :=
  piece.span = ⟨offset, offset + piece.text.byteSize⟩

/-- The static parts and the substitutions of a template in turn, from an offset on. -/
inductive SpellsParts : Nat → List Piece → List Piece → Text → Prop where
  | last {offset : Nat} {quasi : Piece} (hquasi : IsQuasi quasi.text) (hat : quasi.At offset) :
      SpellsParts offset [quasi] [] quasi.text
  | substitution {offset : Nat} {quasi expression : Piece} {quasis expressions : List Piece}
      {rest : Text} (hquasi : IsQuasi quasi.text) (hat : quasi.At offset)
      (hexpression : expression.At (offset + quasi.text.byteSize + 2))
      (others : SpellsParts (offset + quasi.text.byteSize + 2 + expression.text.byteSize + 1)
        quasis expressions rest) :
      SpellsParts offset (quasi :: quasis) (expression :: expressions)
        (quasi.text ++ '$' :: '\x7b' :: (expression.text ++ '\x7d' :: rest))

theorem byteSize_substitution (expression rest : Text) :
    Text.byteSize ('$' :: '\x7b' :: (expression ++ '\x7d' :: rest))
      = 2 + expression.byteSize + 1 + rest.byteSize := by
  have hdollar : '$'.utf8Size = 1 := rfl
  have hopen : '\x7b'.utf8Size = 1 := rfl
  have hclose : '\x7d'.utf8Size = 1 := rfl
  simp only [Text.byteSize_cons, Text.byteSize_append]
  omega

/-- Where an item stands in a script. -/
def Item.span : Item → Span
  | .binding declaration => declaration.span
  | .template literal => literal.span

/-- The texts of an item that begins at an offset. -/
inductive Item.Spells (offset : Nat) : Item → Text → Prop where
  | binding {declaration : ModuleBinding} {t : Text}
      (h : ModuleBinding.Spells declaration.name declaration.moduleName declaration.kind t)
      (hspan : declaration.span = ⟨offset, offset + t.byteSize⟩) :
      Spells offset (.binding declaration) t
  | template {literal : TemplateLiteral} {tag blanks body : Text}
      (htag : SpellsTag literal.tag tag blanks)
      (hbody : SpellsParts (offset + tag.byteSize + blanks.byteSize + 1) literal.quasis
        literal.substitutions body)
      (hspan : literal.span =
        ⟨offset, offset + (tag ++ (blanks ++ '\x60' :: (body ++ ['\x60']))).byteSize⟩) :
      Spells offset (.template literal) (tag ++ (blanks ++ '\x60' :: (body ++ ['\x60'])))

/-! ## Rules for words and blanks -/

namespace Rule

variable {cursor next : Cursor} {t : Text}

theorem advances_lexeme {reader : Lexeme.Reader} (hreader : Lexeme.Splits reader)
    (h : (lexeme reader).Reads cursor t next) : cursor.Advances t next := by
  obtain ⟨hread, hoffset⟩ := reads_lexeme.mp h
  exact ⟨hreader _ _ _ hread, hoffset⟩

theorem exactly_spec {s : String} (h : (exactly s).Reads cursor t next) :
    t = s.toList ∧ cursor.Advances s.toList next := by
  have hadvances := advances_lexeme (Lexeme.splits_exactly s.toList) h
  obtain ⟨rfl, -⟩ := Lexeme.exactly_eq_some_iff.mp (reads_lexeme.mp h).1
  exact ⟨rfl, hadvances⟩

theorem run_spec {p : Char → Bool} (h : (lexeme (Lexeme.run p)).Reads cursor t next) :
    cursor.Advances t next ∧ ∀ c ∈ t, p c = true := by
  refine ⟨advances_lexeme (Lexeme.splits_run p) h, fun c hc => ?_⟩
  have htaken : t = cursor.rest.takeWhile p := by
    have := (reads_lexeme.mp h).1
    exact (Prod.mk.inj (Option.some.inj this)).1.symm
  rw [htaken] at hc
  exact List.mem_takeWhile_imp hc

theorem spaces1_spec (h : spaces1.Reads cursor t next) :
    cursor.Advances t next ∧ IsSpaces t ∧ t ≠ [] := by
  obtain ⟨hread, hoffset⟩ := reads_lexeme.mp h
  unfold Lexeme.run1 at hread
  split at hread
  · cases hread
  · next hne =>
      obtain ⟨hadvances, hspaces⟩ := run_spec (reads_lexeme.mpr ⟨hread, hoffset⟩)
      refine ⟨hadvances, hspaces, ?_⟩
      rintro rfl
      have htaken := (Prod.mk.inj (Option.some.inj hread)).1
      exact hne (List.isEmpty_iff.mpr htaken)

theorem identifier_spec (h : identifier.Reads cursor t next) :
    cursor.Advances t next ∧ IsWord t := by
  have h := reads_named.mp h
  refine ⟨advances_lexeme Lexeme.splits_word h, ?_⟩
  obtain ⟨c, u, hc, -, rfl, -⟩ := Lexeme.word_eq_some (reads_lexeme.mp h).1
  exact .intro hc fun d hd => List.mem_takeWhile_imp hd

theorem quoted_spec {q : String} {quote : Char} (hq : q.toList = [quote])
    (hquote : quote = '"' ∨ quote = '\x27') {c₁ c₂ : Cursor} {left name right : Text}
    (hleft : (exactly q).Reads cursor left c₁)
    (hname : (lexeme (Lexeme.moduleText quote)).Reads c₁ name c₂)
    (hright : (exactly q).Reads c₂ right next) :
    ∃ t, cursor.Advances t next ∧ SpellsModule name t := by
  have hopen := (exactly_spec hleft).2
  have hclose := (exactly_spec hright).2
  obtain ⟨hbody, hchars⟩ := run_spec hname
  rw [hq] at hopen hclose
  refine ⟨_, hopen.trans (hbody.trans hclose), .intro hquote fun c hc => ?_⟩
  simpa [and_assoc] using hchars c hc

theorem moduleName_spec {name : Text} (h : moduleName.Reads cursor name next) :
    ∃ t, cursor.Advances t next ∧ SpellsModule name t := by
  simp only [moduleName, reads_orElse, reads_bind, reads_pure] at h
  rcases h with h | ⟨-, h⟩
  · obtain ⟨left, c₁, hleft, _, c₂, hname, right, _, hright, rfl, rfl⟩ := h
    exact quoted_spec rfl (.inl rfl) hleft hname hright
  · obtain ⟨left, c₁, hleft, _, c₂, hname, right, _, hright, rfl, rfl⟩ := h
    exact quoted_spec rfl (.inr rfl) hleft hname hright

theorem statementEnd_spec {u : Unit} (h : statementEnd.Reads cursor u next) :
    ∃ t, cursor.Advances t next ∧ IsStatementEnd t := by
  simp only [statementEnd, reads_maybe, reads_bind] at h
  rcases h with ⟨_, blanks, c₁, hblanks, hsemicolon⟩ | ⟨-, rfl⟩
  · obtain ⟨hadvances, hall⟩ := run_spec hblanks
    exact ⟨_, hadvances.trans (exactly_spec hsemicolon).2, .semicolon hall⟩
  · exact ⟨[], .refl _, .none⟩

/-! ## Rules for bindings -/

theorem importDeclaration_spec {declaration : ModuleBinding}
    (h : importDeclaration.Reads cursor declaration next) :
    ∃ t, cursor.Advances t next ∧ (Item.binding declaration).Spells cursor.offset t := by
  simp only [importDeclaration, reads_named, reads_bind, reads_offset, reads_pure] at h
  obtain ⟨_, _, ⟨rfl, rfl⟩, _, c₁, hkeyword, s₁, c₂, hs₁, name, c₃, hname, s₂, c₄, hs₂, _, c₅,
    hfrom, s₃, c₆, hs₃, source, c₇, hsource, _, c₈, hstop, _, _, ⟨rfl, rfl⟩, rfl, rfl⟩ := h
  obtain ⟨hs₁, hspaces₁, hne₁⟩ := spaces1_spec hs₁
  obtain ⟨hname, hword⟩ := identifier_spec hname
  obtain ⟨hs₂, hspaces₂, hne₂⟩ := spaces1_spec hs₂
  obtain ⟨hs₃, hspaces₃⟩ := run_spec hs₃
  obtain ⟨quoted, hsource, hquoted⟩ := moduleName_spec hsource
  obtain ⟨stop, hstop, hend⟩ := statementEnd_spec hstop
  have hadvances := (exactly_spec hkeyword).2.trans <| hs₁.trans <| hname.trans <| hs₂.trans <|
    (exactly_spec hfrom).2.trans <| hs₃.trans <| hsource.trans hstop
  refine ⟨_, hadvances, .binding ?_ ?_⟩
  · exact .importDeclaration hspaces₁ hne₁ hword hspaces₂ hne₂ hspaces₃ hquoted hend
  · show Span.mk _ _ = _
    rw [hadvances.offset]

theorem requireCall_spec {name : Text} (h : requireCall.Reads cursor name next) :
    ∃ t, cursor.Advances t next ∧ SpellsRequire name t := by
  simp only [requireCall, reads_named, reads_bind, reads_pure] at h
  obtain ⟨_, c₁, hkeyword, s₁, c₂, hs₁, _, c₃, hopen, s₂, c₄, hs₂, source, c₅, hsource, s₃, c₆, hs₃,
    _, _, hclose, rfl, rfl⟩ := h
  obtain ⟨hs₁, hspaces₁⟩ := run_spec hs₁
  obtain ⟨hs₂, hspaces₂⟩ := run_spec hs₂
  obtain ⟨quoted, hsource, hquoted⟩ := moduleName_spec hsource
  obtain ⟨hs₃, hspaces₃⟩ := run_spec hs₃
  have hadvances := (exactly_spec hkeyword).2.trans <| hs₁.trans <| .cons (exactly_spec hopen).2 <|
    hs₂.trans <| hsource.trans <| hs₃.trans (exactly_spec hclose).2
  exact ⟨_, hadvances, .intro hspaces₁ hspaces₂ hquoted hspaces₃⟩

theorem keyword_spec
    (h : (exactly "const" <|> exactly "let" <|> exactly "var").Reads cursor t next) :
    cursor.Advances t next ∧ (t = "const".toList ∨ t = "let".toList ∨ t = "var".toList) := by
  simp only [reads_orElse] at h
  rcases h with h | ⟨-, h | ⟨-, h⟩⟩
  · obtain ⟨rfl, hadvances⟩ := exactly_spec h
    exact ⟨hadvances, .inl rfl⟩
  · obtain ⟨rfl, hadvances⟩ := exactly_spec h
    exact ⟨hadvances, .inr (.inl rfl)⟩
  · obtain ⟨rfl, hadvances⟩ := exactly_spec h
    exact ⟨hadvances, .inr (.inr rfl)⟩

theorem moreDeclarators_spec {u : Unit} (h : moreDeclarators.Reads cursor u next) :
    ∃ s₁ s₂, cursor.Advances (s₁ ++ ',' :: s₂) next ∧ IsSpaces s₁ ∧ IsSpaces s₂ := by
  simp only [moreDeclarators, reads_named, reads_bind, reads_pure] at h
  obtain ⟨s₁, c₁, hs₁, _, c₂, hcomma, s₂, _, hs₂, -, rfl⟩ := h
  obtain ⟨hs₁, hspaces₁⟩ := run_spec hs₁
  obtain ⟨hs₂, hspaces₂⟩ := run_spec hs₂
  exact ⟨s₁, s₂, hs₁.trans (.cons (exactly_spec hcomma).2 hs₂), hspaces₁, hspaces₂⟩

/-- What stands before a declarator that is taken alone: its keyword and blanks. -/
inductive IsLead : Text → Prop where
  | none : IsLead []
  | keyword {keyword s : Text}
      (hkeyword : keyword = "const".toList ∨ keyword = "let".toList ∨ keyword = "var".toList)
      (hs : IsSpaces s) : IsLead (keyword ++ s)

theorem requireDeclaration_spec {declaration : ModuleBinding}
    (h : requireDeclaration.Reads cursor declaration next) :
    ∃ lead t, cursor.Advances (lead ++ t) next ∧ IsLead lead ∧
      (Item.binding declaration).Spells (cursor.offset + lead.byteSize) t := by
  simp only [requireDeclaration, reads_named, reads_bind, reads_offset, reads_pure] at h
  obtain ⟨_, _, ⟨rfl, rfl⟩, keyword, c₁, hkeyword, s₁, c₂, hs₁, _, _, ⟨rfl, rfl⟩, name, c₃, hname,
    s₂, c₄, hs₂, _, c₅, hequals, s₃, c₆, hs₃, source, c₇, hsource, first, c₈, hfirst, _, _,
    ⟨rfl, rfl⟩, rfl, rfl⟩ := h
  obtain ⟨hkeyword, hkeywords⟩ := keyword_spec hkeyword
  obtain ⟨hs₁, hspaces₁, hne₁⟩ := spaces1_spec hs₁
  obtain ⟨hname, hword⟩ := identifier_spec hname
  obtain ⟨hs₂, hspaces₂⟩ := run_spec hs₂
  obtain ⟨hs₃, hspaces₃⟩ := run_spec hs₃
  obtain ⟨call, hsource, hcall⟩ := requireCall_spec hsource
  simp only [reads_orElse, reads_bind, reads_pure, reads_ahead] at hfirst
  rcases hfirst with ⟨_, c₉, hmore, rfl, rfl⟩ | ⟨-, _, _, ⟨rfl, -⟩, _, c₉, hstop, rfl, rfl⟩
  · -- the keyword stays for the declarators that follow
    obtain ⟨s₄, s₅, hmore, hspaces₄, hspaces₅⟩ := moreDeclarators_spec hmore
    have hlead := hkeyword.trans hs₁
    have hrest := hname.trans <| hs₂.trans <| .cons (exactly_spec hequals).2 <| hs₃.trans <|
      hsource.trans hmore
    refine ⟨_, _, hlead.trans hrest, .keyword hkeywords hspaces₁, .binding ?_ ?_⟩
    · exact .declarator hword hspaces₂ hspaces₃ hcall hspaces₄ hspaces₅
    · show Span.mk _ _ = _
      rw [hrest.offset, hlead.offset]
  · obtain ⟨stop, hstop, hend⟩ := statementEnd_spec hstop
    have hadvances := hkeyword.trans <| hs₁.trans <| hname.trans <| hs₂.trans <|
      .cons (exactly_spec hequals).2 <| hs₃.trans <| hsource.trans hstop
    refine ⟨[], _, hadvances, .none, .binding ?_ ?_⟩
    · exact .declaration hkeywords hspaces₁ hne₁ hword hspaces₂ hspaces₃ hcall hend
    · show Span.mk _ _ = _
      rw [hadvances.offset]
      rfl

/-! ## Rules for templates -/

theorem piece_spec {reader : Lexeme.Reader} (hreader : Lexeme.Splits reader) {part : Piece}
    (h : (piece reader).Reads cursor part next) :
    cursor.Advances part.text next ∧ part.At cursor.offset := by
  simp only [piece, reads_bind, reads_offset, reads_pure] at h
  obtain ⟨_, _, ⟨rfl, rfl⟩, text, _, htext, _, _, ⟨rfl, rfl⟩, rfl, rfl⟩ := h
  have hadvances := advances_lexeme hreader htext
  refine ⟨hadvances, ?_⟩
  show Span.mk _ _ = _
  rw [hadvances.offset]

theorem quasi_spec {part : Piece} (h : quasi.Reads cursor part next) (hnext : next.rest ≠ []) :
    cursor.Advances part.text next ∧ part.At cursor.offset ∧ IsQuasi part.text := by
  obtain ⟨hadvances, hat⟩ := piece_spec Lexeme.splits_templateChars h
  refine ⟨hadvances, hat, ?_⟩
  simp only [quasi, piece, reads_bind, reads_offset, reads_pure, reads_lexeme] at h
  obtain ⟨_, c, ⟨rfl, rfl⟩, text, _, ⟨htext, -⟩, _, _, ⟨rfl, rfl⟩, rfl, rfl⟩ := h
  have htext := Option.some.inj htext
  have hquasi : IsQuasi (Lexeme.templateChars c.rest).1 := by
    refine Lexeme.isQuasi_templateChars ?_
    rw [htext]
    exact hnext
  rw [htext] at hquasi
  exact hquasi

theorem substitution_spec {part : Piece} (h : substitution.Reads cursor part next) :
    cursor.Advances ('$' :: '\x7b' :: (part.text ++ ['\x7d'])) next ∧
      part.At (cursor.offset + 2) := by
  simp only [substitution, reads_named, reads_bind, reads_pure] at h
  obtain ⟨_, c₁, hopen, part, c₂, hpart, _, _, hclose, rfl, rfl⟩ := h
  have hopen := (exactly_spec hopen).2
  obtain ⟨hadvances, hat⟩ := piece_spec Lexeme.splits_expression hpart
  refine ⟨hopen.trans (hadvances.trans (exactly_spec hclose).2), ?_⟩
  rw [hopen.offset] at hat
  exact hat

/-- The parts of a template after its first static part. Each substitution is followed by a static
part, so what is read so far always ends in one; the induction carries it along. -/
theorem parts_spec {start : Cursor} {first : Piece} {others : List (Piece × Piece)}
    (hfirst : quasi.Reads start first cursor)
    (hothers : ReadsAll (do
      let expression ← substitution
      let text ← quasi
      return (expression, text)) cursor others next)
    (hnext : next.rest ≠ []) :
    ∃ t, start.Advances t next ∧
      SpellsParts start.offset (first :: others.map Prod.snd) (others.map Prod.fst) t := by
  induction hothers generalizing start first with
  | nil cursor =>
      obtain ⟨hadvances, hat, hquasi⟩ := quasi_spec hfirst hnext
      exact ⟨_, hadvances, .last hquasi hat⟩
  | @cons cursor middle next part rest hpart hrest ih =>
      simp only [reads_bind, reads_pure] at hpart
      obtain ⟨expression, c₁, hexpression, text, _, htext, rfl, rfl⟩ := hpart
      obtain ⟨t, hadvances, hparts⟩ := ih htext hnext
      obtain ⟨hsubstitution, hplace⟩ := substitution_spec hexpression
      have hcursor : cursor.rest ≠ [] := by
        rw [hsubstitution.rest]
        exact List.cons_ne_nil _ _
      obtain ⟨hstart, hat, hquasi⟩ := quasi_spec hfirst hcursor
      have hsize : Text.byteSize ('$' :: '\x7b' :: (expression.text ++ ['\x7d']))
          = 2 + expression.text.byteSize + 1 := byteSize_substitution expression.text []
      refine ⟨first.text ++ '$' :: '\x7b' :: (expression.text ++ '\x7d' :: t), ?_, ?_⟩
      · have hall := hstart.trans (hsubstitution.trans hadvances)
        simpa only [List.cons_append, List.append_assoc, List.nil_append] using hall
      · rw [hstart.offset] at hplace
        rw [hsubstitution.offset, hstart.offset, hsize, ← Nat.add_assoc, ← Nat.add_assoc] at hparts
        exact .substitution hquasi hat hplace hparts

theorem template_spec {literal : TemplateLiteral} (h : template.Reads cursor literal next) :
    ∃ body, cursor.Advances ('\x60' :: (body ++ ['\x60'])) next ∧ literal.tag = none ∧
      SpellsParts (cursor.offset + 1) literal.quasis literal.substitutions body ∧
      literal.span = ⟨cursor.offset, next.offset⟩ := by
  simp only [template, reads_named, reads_bind, reads_offset, reads_pure] at h
  obtain ⟨_, _, ⟨rfl, rfl⟩, _, c₁, hopen, first, c₂, hfirst, others, c₃, hothers, _, _, hclose, _,
    _, ⟨rfl, rfl⟩, rfl, rfl⟩ := h
  have hopen := (exactly_spec hopen).2
  have hclose := (exactly_spec hclose).2
  have hrest : c₃.rest ≠ [] := by
    rw [hclose.rest]
    exact List.cons_ne_nil _ _
  obtain ⟨body, hbody, hparts⟩ := parts_spec hfirst (readsAll_of_many hothers) hrest
  refine ⟨body, .cons hopen (hbody.trans hclose), rfl, ?_, rfl⟩
  rw [hopen.offset] at hparts
  exact hparts

theorem path_spec {name : Text} {others : List Text} {start : Cursor}
    (hname : identifier.Reads start name cursor)
    (hothers : ReadsAll (do
      let _ ← spaces
      let _ ← exactly "."
      let _ ← spaces
      identifier) cursor others next) :
    ∃ t, start.Advances t next ∧ SpellsPath (name :: others) t := by
  induction hothers generalizing start name with
  | nil cursor =>
      obtain ⟨hadvances, hword⟩ := identifier_spec hname
      exact ⟨_, hadvances, .last hword⟩
  | cons hpart hrest ih =>
      simp only [reads_bind] at hpart
      obtain ⟨s₁, c₁, hs₁, _, c₂, hdot, s₂, c₃, hs₂, hnext⟩ := hpart
      obtain ⟨hadvances, hword⟩ := identifier_spec hname
      obtain ⟨hs₁, hspaces₁⟩ := run_spec hs₁
      obtain ⟨hs₂, hspaces₂⟩ := run_spec hs₂
      obtain ⟨t, ht, hpath⟩ := ih hnext
      have hall := hadvances.trans <| hs₁.trans <| .cons (exactly_spec hdot).2 <| hs₂.trans ht
      exact ⟨_, hall, .dot hword hspaces₁ hspaces₂ hpath⟩

/-- A tag is spelled as such, whatever blanks follow it. -/
theorem tag_spec {tag : TemplateTag}
    (h : ((do let source ← requireCall; return .require source) <|> memberPath).Reads cursor tag
      next) :
    ∃ t, cursor.Advances t next ∧ ∀ blanks, IsSpaces blanks → SpellsTag (some tag) t blanks := by
  simp only [reads_orElse, reads_bind, reads_pure, memberPath, reads_named] at h
  rcases h with ⟨source, _, hcall, rfl, rfl⟩ | ⟨-, first, c₁, hfirst, others, _, hothers, rfl, rfl⟩
  · obtain ⟨t, hadvances, hcall⟩ := requireCall_spec hcall
    exact ⟨t, hadvances, fun _ hblanks => .require hcall hblanks⟩
  · obtain ⟨t, hadvances, hpath⟩ := path_spec hfirst (readsAll_of_many hothers)
    exact ⟨t, hadvances, fun _ hblanks => .path hpath hblanks⟩

theorem taggedTemplate_spec {literal : TemplateLiteral}
    (h : taggedTemplate.Reads cursor literal next) :
    ∃ t, cursor.Advances t next ∧ (Item.template literal).Spells cursor.offset t := by
  simp only [taggedTemplate, reads_named, reads_bind, reads_offset, reads_pure] at h
  obtain ⟨_, _, ⟨rfl, rfl⟩, tag, c₁, htag, blanks, c₂, hblanks, untagged, c₃, htemplate, _, _,
    ⟨rfl, rfl⟩, rfl, rfl⟩ := h
  obtain ⟨tagText, htag, hspells⟩ := tag_spec htag
  obtain ⟨hblanks, hspaces⟩ := run_spec hblanks
  obtain ⟨body, hbody, -, hparts, -⟩ := template_spec htemplate
  have hadvances := htag.trans (hblanks.trans hbody)
  refine ⟨_, hadvances, .template (hspells blanks hspaces) ?_ ?_⟩
  · rw [hblanks.offset, htag.offset] at hparts
    exact hparts
  · show Span.mk _ _ = _
    rw [hadvances.offset]

theorem untaggedTemplate_spec {literal : TemplateLiteral} (h : template.Reads cursor literal next) :
    ∃ t, cursor.Advances t next ∧ (Item.template literal).Spells cursor.offset t := by
  obtain ⟨body, hadvances, htag, hparts, hspan⟩ := template_spec h
  refine ⟨[] ++ ([] ++ '\x60' :: (body ++ ['\x60'])), hadvances, .template ?_ hparts ?_⟩
  · rw [htag]
    exact .untagged
  · rw [hspan, hadvances.offset]
    rfl

end Rule
end Script
end Hypertext

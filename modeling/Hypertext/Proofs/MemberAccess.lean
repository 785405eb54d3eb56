import Hypertext.Proofs.Places
import Hypertext.Proofs.Shifted

set_option autoImplicit false

/-! # Tags behind a dot

A tag is a name or a chain of names. Where a chain of names begins, the scanner reads all of it, so
a name behind another name and a dot is never a tag by itself. But what is accessed need not be a
name: it can be a call, or anything else that ends in front of the dot. Then the scanner passes over
the dot as over any other character, and comes to the name as if there were no dot.
`bareTag_iff_reached` says when one or the other happens.
-/

namespace Hypertext
namespace Script

open Lexeme

namespace Rule

variable {offset : Nat} {rest : Text} {next : Cursor}

/-! ## Chains of names are read back -/

theorem furtherName_reads {s₁ s₂ name : Text} (h₁ : IsSpaces s₁) (h₂ : IsSpaces s₂)
    (hrest : ∀ c ∈ rest.head?, isSpace c = false)
    (hname : identifier.Reads ⟨offset + Text.byteSize (s₁ ++ '.' :: s₂), rest⟩ name next) :
    furtherName.Reads ⟨offset, s₁ ++ '.' :: (s₂ ++ rest)⟩ name next := by
  have hdot : ∀ c ∈ ('.' :: (s₂ ++ rest)).head?, isSpace c = false := by
    rintro c ⟨⟩
    decide
  rw [Text.byteSize_append, Text.byteSize_cons, ← Nat.add_assoc, ← Nat.add_assoc] at hname
  simp only [furtherName, reads_bind]
  exact ⟨s₁, _, run_reads h₁ hdot, ['.'], ⟨_, s₂ ++ rest⟩, rfl, s₂, _, run_reads h₂ hrest,
    hname⟩

theorem furtherName_fails {s : Text} {d : Char} (hs : IsSpaces s) (hspace : isSpace d = false)
    (hd : d ≠ '.') : (furtherName ⟨offset, s ++ d :: rest⟩).result = none := by
  refine result_eq_none fun name next h => ?_
  simp only [furtherName, reads_bind] at h
  obtain ⟨s', c₁, hs', _, c₂, hdot, -⟩ := h
  have hmark : ∀ c ∈ (d :: rest).head?, isSpace c = false := by
    rintro c ⟨⟩
    exact hspace
  obtain ⟨-, rfl⟩ := (run_reads hs hmark).unique hs'
  exact hd (List.cons.inj (exactly_spec hdot).2.rest).1

/-- The start of a chain of names is its first name, and then the further names are read. -/
theorem path_reads {names : List Text} {t : Text} (h : SpellsPath names t) (hrest : WordEnds rest) :
    ∃ first others middle, names = first :: others ∧
      identifier.Reads ⟨offset, t ++ rest⟩ first middle ∧
      furtherName.ReadsAll middle others ⟨offset + t.byteSize, rest⟩ := by
  induction h generalizing offset with
  | last hname => exact ⟨_, [], _, rfl, identifier_reads hname hrest, .nil _⟩
  | @dot name t s₁ s₂ names hname h₁ h₂ others ih =>
      obtain ⟨first, further, middle, rfl, hfirst, hfurther⟩ :=
        @ih (offset + name.byteSize + Text.byteSize (s₁ ++ '.' :: s₂))
      have hstart : ∀ c ∈ (t ++ rest).head?, isSpace c = false := by
        cases others with
        | last hname => exact hname.head_not_space _
        | dot hname _ _ _ =>
            rw [List.append_assoc]
            exact hname.head_not_space _
      have hend : WordEnds (s₁ ++ '.' :: (s₂ ++ (t ++ rest))) := .spaces h₁ (.cons (by decide) _)
      refine ⟨name, first :: further, _, rfl, ?_, .cons (furtherName_reads h₁ h₂ hstart hfirst) ?_⟩
      · simpa only [List.append_assoc, List.cons_append] using identifier_reads hname hend
      · have hsize : Text.byteSize (name ++ (s₁ ++ '.' :: (s₂ ++ t)))
            = name.byteSize + Text.byteSize (s₁ ++ '.' :: s₂) + t.byteSize := by
          simp only [Text.byteSize_append, Text.byteSize_cons]
          omega
        rw [hsize]
        simpa only [Nat.add_assoc] using hfurther

/-! ## What a tag and its template look like to the scanner -/

section

variable {names : List Text} {t blanks more : Text} {literal : TemplateLiteral}

/-- A text that begins with a tag and a backquote. -/
theorem path_leadless (h : SpellsPath names t) (hblanks : IsSpaces blanks) {w after : Text}
    (heq : t ++ (blanks ++ '\x60' :: more) = w ++ after) : ¬Leads w after := by
  intro hleads
  cases h with
  | last hname =>
      have hend : WordEnds (blanks ++ '\x60' :: more) := .spaces hblanks (.cons (by decide) _)
      obtain ⟨rfl, rfl⟩ := word_unique hname hleads.isWord hend hleads.wordEnds heq
      exact not_leads_mark hblanks (by decide) (by decide) (by decide) _ _ hleads
  | @dot name t s₁ s₂ names hname h₁ h₂ others =>
      simp only [List.append_assoc, List.cons_append] at heq
      have hend : WordEnds (s₁ ++ '.' :: (s₂ ++ (t ++ (blanks ++ '\x60' :: more)))) :=
        .spaces h₁ (.cons (by decide) _)
      obtain ⟨rfl, rfl⟩ := word_unique hname hleads.isWord hend hleads.wordEnds heq
      exact not_leads_mark h₁ (by decide) (by decide) (by decide) _ _ hleads

theorem path_comment (h : SpellsPath names t) (after : Text) : comment (t ++ after) = none := by
  have hstart {name : Text} (hname : IsWord name) (after : Text) :
      comment (name ++ after) = none := by
    obtain ⟨hc, -⟩ := hname
    exact comment_eq_none (isQuiet_iff.mp (isQuiet_of_isWordStart hc)).2 _
  cases h with
  | last hname => exact hstart hname after
  | dot hname _ _ _ =>
      rw [List.append_assoc]
      exact hstart hname _

theorem taggedTemplate_reads (h : SpellsPath names t) (hblanks : IsSpaces blanks)
    (htemplate : template.Reads ⟨offset + t.byteSize + blanks.byteSize, '\x60' :: more⟩ literal
      next) :
    taggedTemplate.Reads ⟨offset, t ++ (blanks ++ '\x60' :: more)⟩
      { literal with tag := some (.path names), span := ⟨offset, next.offset⟩ } next := by
  have hend : WordEnds (blanks ++ '\x60' :: more) := .spaces hblanks (.cons (by decide) _)
  have hbackquote : ∀ c ∈ ('\x60' :: more).head?, isSpace c = false := by
    rintro c ⟨⟩
    decide
  obtain ⟨first, others, middle, rfl, hfirst, hothers⟩ := @path_reads offset _ _ _ h hend
  have hstop : (furtherName ⟨offset + t.byteSize, blanks ++ '\x60' :: more⟩).result = none :=
    furtherName_fails hblanks (by decide) (by decide)
  have hpath : memberPath.Reads ⟨offset, t ++ (blanks ++ '\x60' :: more)⟩ (.path (first :: others))
      ⟨offset + t.byteSize, blanks ++ '\x60' :: more⟩ := by
    rw [memberPath_eq, reads_named]
    simp only [reads_bind, reads_pure]
    exact ⟨first, middle, hfirst, others, _,
      (reads_many_iff takes_furtherName).mpr ⟨hothers, hstop⟩, rfl, rfl⟩
  have hcall : ((do let source ← requireCall; return .require source : Rule TemplateTag)
      ⟨offset, t ++ (blanks ++ '\x60' :: more)⟩).result = none := by
    refine result_eq_none fun tag after hreads => ?_
    obtain ⟨source, _, hcall, -⟩ := reads_bind.mp hreads
    obtain ⟨rest, heq, hleads⟩ := requireCall_leads hcall
    exact path_leadless h hblanks heq hleads
  simp only [taggedTemplate, reads_named, reads_bind, reads_offset, reads_pure]
  exact ⟨_, _, ⟨rfl, rfl⟩, _, _, reads_orElse.mpr (.inr ⟨hcall, hpath⟩), blanks, _,
    run_reads hblanks hbackquote, literal, next, htemplate, _, _, ⟨rfl, rfl⟩, rfl, rfl⟩

/-- **A chain of names is one tag.** -/
theorem item_reads_tagged (h : SpellsPath names t) (hblanks : IsSpaces blanks)
    (htemplate : template.Reads ⟨offset + t.byteSize + blanks.byteSize, '\x60' :: more⟩ literal
      next) :
    item.Reads ⟨offset, t ++ (blanks ++ '\x60' :: more)⟩
      (some (.template { literal with tag := some (.path names), span := ⟨offset, next.offset⟩ }))
      next := by
  refine reads_orElse.mpr (.inr ⟨?_, reads_orElse.mpr (.inr ⟨?_, reads_orElse.mpr (.inr ⟨?_,
    reads_orElse.mpr (.inl ?_)⟩)⟩)⟩)
  · exact skip_fails (path_comment h _)
  · refine result_eq_none fun found after hreads => ?_
    obtain ⟨a, middle, hreads, -⟩ := reads_bind.mp hreads
    obtain ⟨w, rest, heq, hleads⟩ := importDeclaration_leads hreads
    exact path_leadless h hblanks heq hleads
  · refine result_eq_none fun found after hreads => ?_
    obtain ⟨a, middle, hreads, -⟩ := reads_bind.mp hreads
    obtain ⟨w, rest, heq, hleads⟩ := requireDeclaration_leads hreads
    exact path_leadless h hblanks heq hleads
  · exact reads_bind.mpr ⟨_, _, taggedTemplate_reads h hblanks htemplate, reads_pure.mpr ⟨rfl, rfl⟩⟩

/-- A name in front of a template is no tag only if there is no template. -/
theorem template_of_tagged {name : Text} (hname : IsWord name) (hblanks : IsSpaces blanks)
    (h : taggedTemplate.Reads ⟨offset, name ++ (blanks ++ '\x60' :: more)⟩ literal next) :
    ∃ untagged after, template.Reads ⟨offset + name.byteSize + blanks.byteSize, '\x60' :: more⟩
      untagged after := by
  have hend : WordEnds (blanks ++ '\x60' :: more) := .spaces hblanks (.cons (by decide) _)
  have hbackquote : ∀ c ∈ ('\x60' :: more).head?, isSpace c = false := by
    rintro c ⟨⟩
    decide
  simp only [taggedTemplate, reads_named, reads_bind, reads_offset, reads_orElse, reads_pure,
    memberPath_eq] at h
  obtain ⟨_, _, ⟨-, rfl⟩, tag, c₁, htag, s, c₂, hs, untagged, c₃, htemplate, -⟩ := h
  refine ⟨untagged, c₃, ?_⟩
  rcases htag with ⟨source, _, hcall, -⟩ | ⟨-, first, c₄, hfirst, others, _, hothers, rfl, rfl⟩
  · obtain ⟨rest, heq, hleads⟩ := requireCall_leads hcall
    exact absurd hleads (path_leadless (.last hname) hblanks heq)
  · obtain ⟨rfl, rfl⟩ := (identifier_reads hname hend).unique hfirst
    cases readsAll_of_many hothers with
    | nil =>
        obtain ⟨rfl, rfl⟩ := (run_reads hblanks hbackquote).unique hs
        exact htemplate
    | cons first _ =>
        rw [Reads, furtherName_fails hblanks (by decide) (by decide)] at first
        cases first

theorem item_reads_mark {c : Char} (hc : isQuiet c = true) (hstart : isWordStart c = false)
    (t : Text) : item.Reads ⟨offset, c :: t⟩ none ⟨offset + Text.byteSize [c], t⟩ := by
  obtain ⟨⟨⟨hbackquote, hdouble⟩, hsingle⟩, hslash⟩ := isQuiet_iff.mp hc
  have hword : ∀ name after, ¬identifier.Reads ⟨offset, c :: t⟩ name after := by
    intro name after hreads
    have hread := (reads_lexeme.mp (reads_named.mp hreads)).1
    rw [word_eq_none hstart] at hread
    cases hread
  have hother : otherCharacter (c :: t) = some ([c], t) := by
    simp [otherCharacter, hbackquote, hdouble, hsingle]
  refine item_reads_of_fails (comment_eq_none hslash _)
    (fun _ _ heq => Barren.leadless_of_first hstart heq) ?_ ?_ ?_
  · intro literal after hreads
    simp only [taggedTemplate, reads_named, reads_bind, reads_offset, reads_orElse, reads_pure,
      memberPath] at hreads
    obtain ⟨_, _, ⟨-, rfl⟩, tag, c₁, htag, -⟩ := hreads
    rcases htag with ⟨source, _, hcall, -⟩ | ⟨-, first, c₄, hfirst, -⟩
    · obtain ⟨rest, heq, hleads⟩ := requireCall_leads hcall
      exact Barren.leadless_of_first hstart heq hleads
    · exact hword _ _ hfirst
  · intro literal after hreads
    obtain ⟨more, heq⟩ := template_ticks hreads
    exact hbackquote (List.cons.inj heq).1
  · refine reads_orElse.mpr (.inr ⟨skip_fails (string_eq_none hdouble hsingle _), ?_⟩)
    exact reads_orElse.mpr (.inr ⟨identifier_fails (word_eq_none hstart _), reads_skip hother⟩)

end

theorem item_reads_template {cursor : Cursor} {literal : TemplateLiteral}
    (h : item.Reads cursor (some (.template literal)) next) :
    ∃ t, cursor.Advances t next ∧ (Item.template literal).Spells cursor.offset t := by
  simp only [item, reads_orElse, reads_bind, reads_pure] at h
  rcases h with h | ⟨-, h | ⟨-, h | ⟨-, h | ⟨-, h | ⟨-, h | ⟨-, h | ⟨-, h⟩⟩⟩⟩⟩⟩⟩
  all_goals
    obtain ⟨_, _, hread, heq, rfl⟩ := h
    cases heq
  · exact taggedTemplate_spec hread
  · exact untaggedTemplate_spec hread

end Rule

namespace Reaches

variable {source : Text} {items : List Item} {offset : Nat} {s rest : Text}

/-- The scanner goes over blanks one by one. -/
theorem spaces (h : Reaches source ⟨offset, s ++ rest⟩) (hs : IsSpaces s) :
    Reaches source ⟨offset + s.byteSize, rest⟩ := by
  induction s generalizing offset with
  | nil => exact h
  | cons c s ih =>
      have hc := hs c List.mem_cons_self
      have hstart : isWordStart c = false := by
        by_contra hstart
        rw [Bool.not_eq_false] at hstart
        rw [isSpace_of_isWordStart hstart] at hc
        cases hc
      have hstep := h.step (Rule.item_reads_mark (isQuiet_of_isSpace hc) hstart (s ++ rest))
      have hrest := ih hstep fun d hd => hs d (List.mem_cons_of_mem c hd)
      rwa [Nat.add_assoc, ← Text.byteSize_append] at hrest

/-- Behind a name, a backquote begins a template if the script can be scanned at all. -/
theorem template {name blanks more : Text}
    (h : Reaches source ⟨offset, name ++ (blanks ++ '\x60' :: more)⟩)
    (hscan : scan source = .ok items) (hname : IsWord name) (hblanks : IsSpaces blanks) :
    ∃ literal next, Rule.template.Reads ⟨offset + name.byteSize + blanks.byteSize, '\x60' :: more⟩
      literal next := by
  by_contra hnone
  have hfails : ∀ literal next, ¬Rule.template.Reads
      ⟨offset + name.byteSize + blanks.byteSize, '\x60' :: more⟩ literal next :=
    fun literal next hreads => hnone ⟨literal, next, hreads⟩
  have hend : WordEnds (blanks ++ '\x60' :: more) := .spaces hblanks (.cons (by decide) _)
  -- without a template the name is a word by itself
  have hitem : Rule.item.Reads ⟨offset, name ++ (blanks ++ '\x60' :: more)⟩ none
      ⟨offset + name.byteSize, blanks ++ '\x60' :: more⟩ := by
    refine Rule.item_reads_of_fails (Rule.path_comment (.last hname) _)
      (fun w after heq => Rule.path_leadless (.last hname) hblanks heq) ?_ ?_ ?_
    · intro literal next hreads
      obtain ⟨untagged, after, htemplate⟩ := Rule.template_of_tagged hname hblanks hreads
      exact hfails untagged after htemplate
    · intro literal next hreads
      obtain ⟨after, heq⟩ := Rule.template_ticks hreads
      obtain ⟨hc, -⟩ := hname
      rw [(List.cons.inj heq).1] at hc
      exact absurd hc (by decide)
    · have hread := word_append hname hend
      have hstring : Lexeme.string (name ++ (blanks ++ '\x60' :: more)) = none := by
        obtain ⟨hc, -⟩ := hname
        obtain ⟨⟨⟨-, hdouble⟩, hsingle⟩, -⟩ := isQuiet_iff.mp (isQuiet_of_isWordStart hc)
        exact string_eq_none hdouble hsingle _
      exact Rule.reads_orElse.mpr (.inr ⟨Rule.skip_fails hstring,
        Rule.reads_orElse.mpr (.inl (Rule.identifier_skips hread))⟩)
  -- and then the backquote cannot be read
  obtain ⟨found, next, hreads⟩ :=
    ((h.step hitem).spaces hblanks).reads hscan (List.cons_ne_nil _ _)
  rw [Rule.Reads, Rule.item_backquote] at hreads
  obtain ⟨⟨literal, after⟩, htemplate, -⟩ := Option.map_eq_some_iff.mp hreads
  exact hfails literal after htemplate

end Reaches

/-! ## Dots -/

/-- The scanner passes over a piece of code in which it finds nothing. -/
structure Passes (source t : Text) (cursor next : Cursor) : Prop where
  reached : Reaches source cursor
  reads : Rule.item.Reads cursor none next
  advances : cursor.Advances t next

/-- Among the items is a template at an offset whose tag is the name by itself. -/
def TaggedAt (items : List Item) (offset : Nat) (name : Text) : Prop :=
  ∃ literal, .template literal ∈ items ∧
    literal.tag.bind TemplateTag.identifier? = some name ∧ literal.span.start = offset

theorem identifier?_eq_some {tag : Option TemplateTag} {name : Text}
    (h : tag.bind TemplateTag.identifier? = some name) : tag = some (.path [name]) := by
  obtain ⟨tag, rfl, htag⟩ := Option.bind_eq_some_iff.mp h
  unfold TemplateTag.identifier? at htag
  split at htag
  · cases htag
    rfl
  · cases htag

/-- Where a name is a tag by itself, the scanner comes to it and to the backquote behind it. -/
theorem TaggedAt.reached {source name : Text} {items : List Item} {offset : Nat}
    (h : TaggedAt items offset name) (hscan : scan source = .ok items) :
    IsWord name ∧ ∃ blanks more, IsSpaces blanks ∧
      Reaches source ⟨offset, name ++ (blanks ++ '\x60' :: more)⟩ := by
  obtain ⟨literal, hmem, htag, rfl⟩ := h
  obtain ⟨⟨offset, rest⟩, next, hreached, hreads⟩ := exists_reaches_of_mem hscan hmem
  obtain ⟨t, hadvances, hspells⟩ := Rule.item_reads_template hreads
  have hstart : literal.span.start = offset := congrArg Span.start hspells.span_eq
  have hrest : rest = t ++ next.rest := hadvances.rest
  rw [hstart]
  cases hspells with
  | @template _ tag blanks body hspelled _ _ =>
      rw [identifier?_eq_some htag] at hspelled
      cases hspelled with
      | path hpath hblanks =>
          cases hpath with
          | last hname =>
              refine ⟨hname, blanks, body ++ '\x60' :: next.rest, hblanks, ?_⟩
              simpa [hrest] using hreached
          | dot _ _ _ others => cases others

/-- **When a name is a tag by itself.** It is one wherever the scanner comes to it and a template
follows, whatever stands in front of it, a dot included. Only behind another name, with a dot and at
most blanks between them, it never is. -/
theorem bareTag_iff_reached {source : Text} {items : List Item} (hscan : scan source = .ok items)
    (name : Text) (offset : Nat) :
    (TaggedAt items offset name ↔ IsWord name ∧ ∃ blanks more, IsSpaces blanks ∧
      Reaches source ⟨offset, name ++ (blanks ++ '\x60' :: more)⟩) ∧
    ∀ w start stop s t rest, Passes source w start stop → IsWord w → IsSpaces s → IsSpaces t →
      stop.rest = s ++ '.' :: (t ++ rest) → TaggedAt items offset name →
        offset ≠ stop.offset + Text.byteSize (s ++ '.' :: t) := by
  refine ⟨⟨fun h => h.reached hscan, ?_⟩, ?_⟩
  · rintro ⟨hname, blanks, more, hblanks, hreached⟩
    obtain ⟨literal, last, htemplate⟩ := hreached.template hscan hname hblanks
    exact ⟨_, hreached.mem hscan (Rule.item_reads_tagged (.last hname) hblanks htemplate), rfl, rfl⟩
  · intro w start stop s t rest hpasses hw hs ht hstop htagged hoffset
    obtain ⟨hname, blanks, more, hblanks, hreached⟩ := htagged.reached hscan
    obtain ⟨literal, last, htemplate⟩ := hreached.template hscan hname hblanks
    -- the name stands where the dot and the blanks end
    have hrest : rest = name ++ (blanks ++ '\x60' :: more) := by
      obtain ⟨before, hbefore, hsize⟩ := (hpasses.reached.step hpasses.reads).advances
      obtain ⟨before', hbefore', hsize'⟩ := hreached.advances
      have hsplit : source = (before ++ (s ++ '.' :: t)) ++ rest := by
        rw [hbefore, hstop]
        simp
      refine (Text.append_inj_of_byteSize (hsplit.symm.trans hbefore') ?_).2
      rw [Text.byteSize_append, ← hsize, ← hoffset]
      exact hsize'
    -- so the word begins a chain of names, which would have been read as the tag
    have hpath : SpellsPath [w, name] (w ++ (s ++ '.' :: (t ++ name))) :=
      .dot hw hs ht (.last hname)
    have hstart : start.rest = (w ++ (s ++ '.' :: (t ++ name))) ++ (blanks ++ '\x60' :: more) := by
      rw [hpasses.advances.rest, hstop, hrest]
      simp
    have hplace : start.offset + Text.byteSize (w ++ (s ++ '.' :: (t ++ name)))
        = offset + name.byteSize := by
      rw [hoffset, hpasses.advances.offset]
      simp only [Text.byteSize_append, Text.byteSize_cons]
      omega
    obtain ⟨first, _⟩ := start
    dsimp only at hstart hplace
    subst hstart
    rw [← hplace] at htemplate
    have htag := (Rule.item_reads_tagged hpath hblanks htemplate).unique hpasses.reads
    exact absurd htag.1 (Option.some_ne_none _)

/-- A call whose result has a tag as a property. -/
def calledMember : Text := "f().html\x60x\x60".toList

theorem scan_calledMember : scan calledMember = .ok
    [.template ⟨some (.path ["html".toList]), ⟨4, 11⟩, [⟨"x".toList, ⟨9, 10⟩⟩], []⟩] :=
  toOption_eq_some_iff.mp (by decide +kernel)

theorem passes_calledMember :
    Passes calledMember ['.'] ⟨3, ".html\x60x\x60".toList⟩ ⟨4, "html\x60x\x60".toList⟩ where
  reached := by
    have h₁ : Rule.item.Reads ⟨0, calledMember⟩ none ⟨1, "().html\x60x\x60".toList⟩ := by
      decide +kernel
    have h₂ :
        Rule.item.Reads ⟨1, "().html\x60x\x60".toList⟩ none ⟨2, ").html\x60x\x60".toList⟩ := by
      decide +kernel
    have h₃ : Rule.item.Reads ⟨2, ").html\x60x\x60".toList⟩ none ⟨3, ".html\x60x\x60".toList⟩ := by
      decide +kernel
    exact ⟨_, .cons h₁ (.cons h₂ (.cons h₃ (.nil _)))⟩
  reads := by decide +kernel
  advances := ⟨rfl, rfl⟩

theorem bareTag_iff_reached_called :
    TaggedAt [.template ⟨some (.path ["html".toList]), ⟨4, 11⟩, [⟨"x".toList, ⟨9, 10⟩⟩], []⟩] 4
      "html".toList := by
  have hname : IsWord "html".toList := .intro (by decide) (List.all_eq_true.mp (by decide))
  refine (bareTag_iff_reached scan_calledMember _ _).1.mpr ⟨hname, [], "x\x60".toList, ?_, ?_⟩
  · exact fun _ hc => absurd hc List.not_mem_nil
  · exact passes_calledMember.reached.step passes_calledMember.reads

/-- A member of the result of a call is taken for the tag of the same name. -/
theorem called_member_taken_for_tag : ∃ items dot next,
    scan calledMember = .ok items ∧ Passes calledMember ['.'] dot next ∧
      TaggedAt items next.offset "html".toList :=
  ⟨_, _, _, scan_calledMember, passes_calledMember, _, List.mem_singleton_self _, rfl, rfl⟩

end Script
end Hypertext

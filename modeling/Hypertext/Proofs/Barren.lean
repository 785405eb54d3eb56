import Hypertext.Proofs.Tiling
import Hypertext.Script.Literal

set_option autoImplicit false

/-! # Code in which nothing is found

A script can always be scanned to the end, and nothing is found in it, if it is made of string
literals, words and single characters such that no item begins at any of them. This file describes
such code (`Barren`) and proves that the scanner passes over all of it (`scan_of_barren`).

An item begins in one of two ways. Either a keyword stands there with what makes it one (`Leads`),
or a chain of names is followed by a backquote. The second way is excluded for all places of a text
at once: behind the characters that can stand in a chain of names comes something else than a
backquote (`Tickless`).
-/

namespace Hypertext
namespace Script

open Lexeme

/-! ## Words have one end -/

/-- A word that stands before the text ends there. -/
def WordEnds (rest : Text) : Prop := ∀ c ∈ rest.head?, isWordPart c = false

theorem WordEnds.cons {c : Char} (hc : isWordPart c = false) (rest : Text) :
    WordEnds (c :: rest) := by
  rintro d ⟨⟩
  exact hc

/-- A row of characters of one kind ends where another kind begins. -/
theorem span_append {p : Char → Bool} {s u : Text} (hs : ∀ c ∈ s, p c = true)
    (hu : ∀ c ∈ u.head?, p c = false) :
    (s ++ u).takeWhile p = s ∧ (s ++ u).dropWhile p = u := by
  rw [List.takeWhile_append_of_pos hs, List.dropWhile_append_of_pos hs]
  cases u with
  | nil => exact ⟨List.append_nil s, rfl⟩
  | cons c u =>
      have hc : ¬p c = true := by simp [hu c rfl]
      rw [List.takeWhile_cons_of_neg hc, List.dropWhile_cons_of_neg hc]
      exact ⟨List.append_nil s, rfl⟩

theorem span_unique {p : Char → Bool} {s t u v : Text} (hs : ∀ c ∈ s, p c = true)
    (ht : ∀ c ∈ t, p c = true) (hu : ∀ c ∈ u.head?, p c = false)
    (hv : ∀ c ∈ v.head?, p c = false) (heq : s ++ u = t ++ v) : s = t ∧ u = v := by
  obtain ⟨htake, hdrop⟩ := span_append hs hu
  rw [heq, (span_append ht hv).1] at htake
  rw [heq, (span_append ht hv).2] at hdrop
  exact ⟨htake.symm, hdrop.symm⟩

theorem word_unique {w w' rest rest' : Text} (hw : IsWord w) (hw' : IsWord w')
    (hrest : WordEnds rest) (hrest' : WordEnds rest') (heq : w ++ rest = w' ++ rest') :
    w = w' ∧ rest = rest' := by
  obtain ⟨-, hparts⟩ := hw
  obtain ⟨-, hparts'⟩ := hw'
  -- the first characters are compared by themselves: they need not be able to go on a word
  obtain ⟨rfl, htails⟩ := List.cons.inj heq
  obtain ⟨rfl, rfl⟩ := span_unique hparts hparts' hrest hrest' htails
  exact ⟨rfl, rfl⟩

theorem isWordPart_of_isSpace {c : Char} (hc : isSpace c = true) : isWordPart c = false := by
  simp only [isSpace, isInlineBlank, isLineBreak, Bool.or_eq_true, beq_iff_eq] at hc
  rcases hc with (rfl | rfl) | (rfl | rfl) <;> decide

theorem WordEnds.spaces {s rest : Text} (hs : IsSpaces s) (hrest : WordEnds rest) :
    WordEnds (s ++ rest) := by
  cases s with
  | nil => exact hrest
  | cons c s => exact .cons (isWordPart_of_isSpace (hs c List.mem_cons_self)) _

theorem WordEnds.spaces1 {s : Text} (hs : IsSpaces s) (hne : s ≠ []) (rest : Text) :
    WordEnds (s ++ rest) := by
  cases s with
  | nil => exact absurd rfl hne
  | cons c s => exact .cons (isWordPart_of_isSpace (hs c List.mem_cons_self)) _

theorem isSpace_of {p : Char → Bool} (hblank : p ' ' = false) (htab : p '\t' = false)
    (hfeed : p '\n' = false) (hreturn : p '\r' = false) {c : Char} (hc : p c = true) :
    isSpace c = false := by
  simp [isSpace, isInlineBlank, isLineBreak, ne_of_class hc hblank, ne_of_class hc htab,
    ne_of_class hc hfeed, ne_of_class hc hreturn]

theorem isSpace_of_isWordStart {c : Char} (hc : isWordStart c = true) : isSpace c = false :=
  isSpace_of (by decide) (by decide) (by decide) (by decide) hc

theorem IsWord.head_not_space {w : Text} (hw : IsWord w) (rest : Text) :
    ∀ c ∈ (w ++ rest).head?, isSpace c = false := by
  obtain ⟨hc, -⟩ := hw
  rintro d ⟨⟩
  exact isSpace_of_isWordStart hc

/-! ## How items begin -/

/-- The keywords that declare a variable. -/
def IsKeyword (w : Text) : Prop := w = "const".toList ∨ w = "let".toList ∨ w = "var".toList

/-- A word leads an item, by what follows it: an import, a declaration of a module, or a call of
`require`. -/
inductive Leads : Text → Text → Prop where
  | importing {s more : Text} {c : Char} (hs : IsSpaces s) (hne : s ≠ [])
      (hc : isWordStart c = true) : Leads "import".toList (s ++ c :: more)
  | declaring {keyword s₁ name s₂ s₃ more : Text} (hkeyword : IsKeyword keyword)
      (h₁ : IsSpaces s₁) (hne : s₁ ≠ []) (hname : IsWord name) (h₂ : IsSpaces s₂)
      (h₃ : IsSpaces s₃) :
      Leads keyword (s₁ ++ (name ++ (s₂ ++ '=' :: (s₃ ++ ("require".toList ++ more)))))
  | requiring {s more : Text} (hs : IsSpaces s) : Leads "require".toList (s ++ '(' :: more)

/-- The words that can lead an item. -/
def leadingWords : List Text := ["import", "const", "let", "var", "require"].map String.toList

namespace Leads

variable {w rest : Text}

theorem mem (h : Leads w rest) : w ∈ leadingWords := by
  cases h with
  | importing => decide
  | declaring hkeyword => rcases hkeyword with rfl | rfl | rfl <;> decide
  | requiring => decide

theorem isWord (h : Leads w rest) : IsWord w := by
  have hall : ∀ w ∈ leadingWords, IsWord w := by
    intro w hw
    simp only [leadingWords, List.map_cons, List.map_nil, List.mem_cons, List.not_mem_nil,
      or_false] at hw
    rcases hw with rfl | rfl | rfl | rfl | rfl
    all_goals exact .intro (by decide) (List.all_eq_true.mp (by decide))
  exact hall w h.mem

theorem wordEnds (h : Leads w rest) : WordEnds rest := by
  cases h with
  | importing hs hne _ => exact .spaces1 hs hne _
  | declaring _ h₁ hne _ _ _ => exact .spaces1 h₁ hne _
  | requiring hs => exact .spaces hs (.cons (by decide) _)

end Leads

/-- What comes first after a word that leads an item, and after blanks: a word, or an opening
parenthesis. -/
theorem Leads.next {w rest : Text} (h : Leads w rest) :
    ∃ s c more, IsSpaces s ∧ rest = s ++ c :: more ∧
      ((isWordStart c = true ∧ s ≠ []) ∨ c = '(') := by
  cases h with
  | importing hs hne hc => exact ⟨_, _, _, hs, rfl, .inl ⟨hc, hne⟩⟩
  | declaring _ h₁ hne hname _ _ =>
      obtain ⟨hc, -⟩ := hname
      exact ⟨_, _, _, h₁, rfl, .inl ⟨hc, hne⟩⟩
  | requiring hs => exact ⟨_, _, _, hs, rfl, .inr rfl⟩

theorem isSpace_of_leads {c : Char} {s : Text} (h : (isWordStart c = true ∧ s ≠ []) ∨ c = '(') :
    isSpace c = false := by
  rcases h with ⟨hc, -⟩ | rfl
  · exact isSpace_of_isWordStart hc
  · decide

/-- No word leads an item if the first character behind it that is no blank begins no word and is no
opening parenthesis. -/
theorem not_leads_mark {s : Text} {d : Char} (hs : IsSpaces s) (hspace : isSpace d = false)
    (hword : isWordStart d = false) (hne : d ≠ '(') (w t : Text) : ¬Leads w (s ++ d :: t) := by
  intro hleads
  obtain ⟨s', c, more, hs', heq, hc⟩ := hleads.next
  have hmark : ∀ e ∈ (d :: t).head?, isSpace e = false := by
    rintro e ⟨⟩
    exact hspace
  have hnext : ∀ e ∈ (c :: more).head?, isSpace e = false := by
    rintro e ⟨⟩
    exact isSpace_of_leads hc
  obtain ⟨-, htail⟩ := span_unique hs hs' hmark hnext heq
  obtain ⟨rfl, -⟩ := List.cons.inj htail
  rcases hc with ⟨hc, -⟩ | hc
  · rw [hword] at hc
    cases hc
  · exact hne hc

/-- The characters of a chain of names. -/
def isPathChar (c : Char) : Bool := isWordStart c || isWordPart c || isSpace c || c == '.'

/-- What comes after the characters of a chain of names is no backquote. -/
def Tickless (t : Text) : Prop := (t.dropWhile isPathChar).head? ≠ some '\x60'

namespace Tickless

theorem of_path {t : Text} (h : ∀ c ∈ t, isPathChar c = true) (more : Text) :
    ¬Tickless (t ++ '\x60' :: more) := by
  intro htickless
  rw [Tickless, List.dropWhile_append_of_pos h] at htickless
  exact htickless rfl

theorem append {t rest : Text} (h : ∀ c ∈ t, isPathChar c = true) (hrest : Tickless rest) :
    Tickless (t ++ rest) := by
  rw [Tickless, List.dropWhile_append_of_pos h]
  exact hrest

theorem cons {c : Char} (hc : c ≠ '\x60') {rest : Text} (hrest : Tickless rest) :
    Tickless (c :: rest) := by
  by_cases hpath : isPathChar c = true
  · rw [Tickless, List.dropWhile_cons_of_pos hpath]
    exact hrest
  · rw [Tickless, List.dropWhile_cons_of_neg hpath]
    exact fun h => hc (Option.some.inj h)

end Tickless

theorem IsSpaces.isPathChar {s : Text} (hs : IsSpaces s) : ∀ c ∈ s, isPathChar c = true := by
  intro c hc
  simp [Script.isPathChar, hs c hc]

theorem IsWord.isPathChar {w : Text} (hw : IsWord w) : ∀ c ∈ w, isPathChar c = true := by
  obtain ⟨hstart, hparts⟩ := hw
  intro c hc
  rcases List.mem_cons.mp hc with rfl | hc
  · simp [Script.isPathChar, hstart]
  · simp [Script.isPathChar, hparts c hc]

theorem SpellsPath.isPathChar {names : List Text} {t : Text} (h : SpellsPath names t) :
    ∀ c ∈ t, isPathChar c = true := by
  induction h with
  | last hname => exact hname.isPathChar
  | dot hname h₁ h₂ _ ih =>
      intro c hc
      simp only [List.mem_append, List.mem_cons] at hc
      rcases hc with hc | hc | rfl | hc | hc
      · exact hname.isPathChar c hc
      · exact h₁.isPathChar c hc
      · decide
      · exact h₂.isPathChar c hc
      · exact ih c hc

/-- No item begins with a text. -/
structure Idle (t : Text) : Prop where
  tickless : Tickless t
  leadless : ∀ w rest, t = w ++ rest → ¬Leads w rest

/-! ## Rules that fail -/

namespace Rule

variable {α : Type} {cursor next : Cursor}

theorem result_eq_none {p : Rule α} (h : ∀ a next, ¬p.Reads cursor a next) :
    (p cursor).result = none := by
  cases hresult : (p cursor).result with
  | none => rfl
  | some result => exact absurd hresult (h result.1 result.2)

theorem return_fails_iff {β : Type} {p : Rule α} {f : α → β} :
    ((do let a ← p; return f a : Rule β) cursor).result = none ↔ (p cursor).result = none := by
  constructor
  · intro h
    refine result_eq_none fun a next hreads => ?_
    have hbind : (do let a ← p; return f a : Rule β).Reads cursor (f a) next :=
      reads_bind.mpr ⟨a, next, hreads, reads_pure.mpr ⟨rfl, rfl⟩⟩
    rw [Reads, h] at hbind
    cases hbind
  · intro h
    refine result_eq_none fun b next hreads => ?_
    obtain ⟨a, _, hreads, -⟩ := reads_bind.mp hreads
    rw [Reads, h] at hreads
    cases hreads

theorem lexeme_fails {reader : Lexeme.Reader} (h : reader cursor.rest = none) :
    (lexeme reader cursor).result = none := by
  refine result_eq_none fun t next hreads => ?_
  rw [reads_lexeme, h] at hreads
  cases hreads.1

theorem importDeclaration_leads {declaration : ModuleBinding}
    (h : importDeclaration.Reads cursor declaration next) :
    ∃ w rest, cursor.rest = w ++ rest ∧ Leads w rest := by
  simp only [importDeclaration, reads_named, reads_bind, reads_offset] at h
  obtain ⟨_, _, ⟨-, rfl⟩, _, c₁, hkeyword, s₁, c₂, hs₁, name, c₃, hname, -⟩ := h
  obtain ⟨hs₁, hspaces₁, hne₁⟩ := spaces1_spec hs₁
  obtain ⟨hname, hword⟩ := identifier_spec hname
  refine ⟨_, _, (exactly_spec hkeyword).2.rest, ?_⟩
  rw [hs₁.rest, hname.rest]
  obtain ⟨hstart, -⟩ := hword
  exact .importing hspaces₁ hne₁ hstart

theorem requireCall_leads {name : Text} (h : requireCall.Reads cursor name next) :
    ∃ rest, cursor.rest = "require".toList ++ rest ∧ Leads "require".toList rest := by
  simp only [requireCall, reads_named, reads_bind] at h
  obtain ⟨_, c₁, hkeyword, s₁, c₂, hs₁, _, c₃, hopen, -⟩ := h
  obtain ⟨hs₁, hspaces₁⟩ := run_spec hs₁
  refine ⟨_, (exactly_spec hkeyword).2.rest, ?_⟩
  rw [hs₁.rest, (exactly_spec hopen).2.rest]
  exact .requiring hspaces₁

theorem requireDeclaration_leads {declaration : ModuleBinding}
    (h : requireDeclaration.Reads cursor declaration next) :
    ∃ w rest, cursor.rest = w ++ rest ∧ Leads w rest := by
  simp only [requireDeclaration, reads_named, reads_bind, reads_offset] at h
  obtain ⟨_, _, ⟨-, rfl⟩, keyword, c₁, hkeyword, s₁, c₂, hs₁, _, _, ⟨-, rfl⟩, name, c₃, hname, s₂,
    c₄, hs₂, _, c₅, hequals, s₃, c₆, hs₃, source, c₇, hsource, -⟩ := h
  obtain ⟨hkeyword, hkeywords⟩ := keyword_spec hkeyword
  obtain ⟨hs₁, hspaces₁, hne₁⟩ := spaces1_spec hs₁
  obtain ⟨hname, hword⟩ := identifier_spec hname
  obtain ⟨hs₂, hspaces₂⟩ := run_spec hs₂
  obtain ⟨hs₃, hspaces₃⟩ := run_spec hs₃
  obtain ⟨more, hmore, -⟩ := requireCall_leads hsource
  refine ⟨_, _, hkeyword.rest, ?_⟩
  rw [hs₁.rest, hname.rest, hs₂.rest, (exactly_spec hequals).2.rest, hs₃.rest, hmore]
  exact .declaring hkeywords hspaces₁ hne₁ hword hspaces₂ hspaces₃

theorem template_ticks {literal : TemplateLiteral} (h : template.Reads cursor literal next) :
    ∃ more, cursor.rest = '\x60' :: more := by
  obtain ⟨body, hadvances, -⟩ := template_spec h
  exact ⟨_, hadvances.rest⟩

theorem taggedTemplate_leads {literal : TemplateLiteral}
    (h : taggedTemplate.Reads cursor literal next) :
    (∃ w rest, cursor.rest = w ++ rest ∧ Leads w rest) ∨ ¬Tickless cursor.rest := by
  simp only [taggedTemplate, reads_named, reads_bind, reads_offset, reads_orElse, reads_pure,
    memberPath] at h
  obtain ⟨_, _, ⟨-, rfl⟩, tag, c₁, htag, blanks, c₂, hblanks, untagged, c₃, htemplate, -⟩ := h
  rcases htag with ⟨source, _, hcall, -⟩ | ⟨-, first, c₄, hfirst, others, _, hothers, rfl, rfl⟩
  · obtain ⟨rest, hrest, hleads⟩ := requireCall_leads hcall
    exact .inl ⟨_, rest, hrest, hleads⟩
  · right
    obtain ⟨t, hadvances, hpath⟩ := path_spec hfirst (readsAll_of_many hothers)
    obtain ⟨hblanks, hspaces⟩ := run_spec hblanks
    obtain ⟨more, hmore⟩ := template_ticks htemplate
    rw [hadvances.rest, hblanks.rest, hmore, ← List.append_assoc]
    refine Tickless.of_path (fun c hc => ?_) more
    rcases List.mem_append.mp hc with hc | hc
    · exact hpath.isPathChar c hc
    · exact IsSpaces.isPathChar hspaces c hc

/-- Where no comment, no keyword and no template is read, what is left to the scanner are strings,
words and single characters. -/
theorem item_reads_of_fails (hcomment : comment cursor.rest = none)
    (hleads : ∀ w rest, cursor.rest = w ++ rest → ¬Leads w rest)
    (htagged : ∀ literal next, ¬taggedTemplate.Reads cursor literal next)
    (htemplate : ∀ literal next, ¬template.Reads cursor literal next)
    (h : ((do let _ ← lexeme string; return none)
      <|> (do let _ ← identifier; return none)
      <|> (do let _ ← lexeme otherCharacter; return none) : Rule (Option Item)).Reads
        cursor none next) :
    item.Reads cursor none next := by
  refine reads_orElse.mpr (.inr ⟨?_, reads_orElse.mpr (.inr ⟨?_, reads_orElse.mpr (.inr ⟨?_,
    reads_orElse.mpr (.inr ⟨?_, reads_orElse.mpr (.inr ⟨?_, h⟩)⟩)⟩)⟩)⟩)
  all_goals
    refine result_eq_none fun found after hreads => ?_
    obtain ⟨a, middle, hreads, -⟩ := reads_bind.mp hreads
  · rw [reads_lexeme, hcomment] at hreads
    cases hreads.1
  · obtain ⟨w, rest, heq, hword⟩ := importDeclaration_leads hreads
    exact hleads w rest heq hword
  · obtain ⟨w, rest, heq, hword⟩ := requireDeclaration_leads hreads
    exact hleads w rest heq hword
  · exact htagged a middle hreads
  · exact htemplate a middle hreads

/-- **Where no item begins, none is read.** -/
theorem item_reads_of_idle (hidle : Idle cursor.rest) (hcomment : comment cursor.rest = none)
    (h : ((do let _ ← lexeme string; return none)
      <|> (do let _ ← identifier; return none)
      <|> (do let _ ← lexeme otherCharacter; return none) : Rule (Option Item)).Reads
        cursor none next) :
    item.Reads cursor none next := by
  refine item_reads_of_fails hcomment hidle.leadless ?_ ?_ h
  · intro literal after hreads
    rcases taggedTemplate_leads hreads with ⟨w, rest, heq, hleads⟩ | hticks
    · exact hidle.leadless w rest heq hleads
    · exact hticks hidle.tickless
  · intro literal after hreads
    obtain ⟨more, hmore⟩ := template_ticks hreads
    have htickless := hidle.tickless
    rw [hmore] at htickless
    exact Tickless.of_path (fun _ hc => absurd hc List.not_mem_nil) more htickless

end Rule

/-! ## String literals are read back -/

/-- A text that holds no end of a string is the body of one. -/
theorem stringBody_of_escapes {quote : Char} (hquote : quote ≠ '\\') {body : Text}
    (h : Escapes (fun c _ => c ≠ quote ∧ isLineBreak c = false) body) (rest : Text) :
    stringBody quote (body ++ quote :: rest) = (body, quote :: rest) := by
  have hcons {c : Char} (hc : c ≠ '\\') (t : Text) : stringBody quote (c :: t)
      = if c == quote || isLineBreak c then ([], c :: t)
        else (c :: (stringBody quote t).1, (stringBody quote t).2) := by
    rw [stringBody]
    exact fun _ _ heq _ => hc heq
  induction h with
  | nil => simp [hcons hquote]
  | pair c _ ih => simp [stringBody, ih]
  | single hc hplain _ ih => simp [hcons hc, hplain.1, hplain.2, ih]

theorem mem_toDigits {base n : Nat} {c : Char} (h : c ∈ Nat.toDigits base n) :
    ∃ d, c = Nat.digitChar d := by
  have hcore : ∀ fuel n digits, (∀ c ∈ digits, ∃ d, c = Nat.digitChar d) →
      ∀ c ∈ Nat.toDigitsCore base fuel n digits, ∃ d, c = Nat.digitChar d := by
    intro fuel
    induction fuel with
    | zero => exact fun _ _ hdigits => hdigits
    | succ fuel ih =>
        intro n digits hdigits
        have hmore : ∀ c ∈ (n % base).digitChar :: digits, ∃ d, c = Nat.digitChar d := by
          intro c hc
          rcases List.mem_cons.mp hc with rfl | hc
          · exact ⟨_, rfl⟩
          · exact hdigits c hc
        rw [Nat.toDigitsCore]
        split
        · exact hmore
        · exact ih _ _ hmore
  exact hcore _ n [] (fun _ hc => absurd hc List.not_mem_nil) c h

/-- Digits have no meaning of their own in a string. -/
theorem digitChar_plain (d : Nat) :
    Nat.digitChar d ≠ '\\' ∧ Nat.digitChar d ≠ '"' ∧ isLineBreak (Nat.digitChar d) = false := by
  by_cases hd : d < 16
  · have hall : ∀ d < 16, Nat.digitChar d ≠ '\\' ∧ Nat.digitChar d ≠ '"' ∧
        isLineBreak (Nat.digitChar d) = false := by
      decide
    exact hall d hd
  · have hstar : Nat.digitChar d = '*' := by
      unfold Nat.digitChar
      repeat rw [if_neg (by omega)]
    rw [hstar]
    decide

theorem escapes_append {plain : Char → Text → Prop} {s t : Text}
    (hs : ∀ c ∈ s, c ≠ '\\' ∧ ∀ u, plain c u) (ht : Escapes plain t) : Escapes plain (s ++ t) := by
  induction s with
  | nil => exact ht
  | cons c s ih =>
      obtain ⟨hc, hplain⟩ := hs c List.mem_cons_self
      exact .single hc (hplain _) (ih fun d hd => hs d (List.mem_cons_of_mem c hd))

theorem escapes_escapeLiteral (c : Char) {t : Text}
    (ht : Escapes (fun c _ => c ≠ '"' ∧ isLineBreak c = false) t) :
    Escapes (fun c _ => c ≠ '"' ∧ isLineBreak c = false) (escapeLiteral c ++ t) := by
  unfold escapeLiteral
  repeat' split
  · exact .pair _ ht
  · exact .pair _ ht
  · exact .pair _ ht
  · exact .pair _ ht
  · exact .pair _ ht
  · refine .pair _ (escapes_append (fun d hd => ?_) ht)
    have hdigit : ∃ n, d = Nat.digitChar n := by
      rcases List.mem_append.mp hd with hd | hd
      · exact ⟨0, (List.mem_replicate.mp hd).2⟩
      · exact mem_toDigits hd
    obtain ⟨n, rfl⟩ := hdigit
    exact ⟨(digitChar_plain n).1, fun _ => (digitChar_plain n).2⟩
  · next hbackslash hquote hfeed hreturn _ _ =>
      refine .single (by simpa using hbackslash) ⟨by simpa using hquote, ?_⟩ ht
      simp only [beq_iff_eq] at hfeed hreturn
      simp [isLineBreak, hfeed, hreturn]

/-- **Text cannot leave its literal.** Whatever the text is and whatever follows, the literal is
read as one string. -/
theorem string_stringLiteral (s rest : Text) :
    Lexeme.string (stringLiteral s ++ rest) = some (stringLiteral s, rest) := by
  have hescapes : Escapes (fun c _ => c ≠ '"' ∧ isLineBreak c = false)
      (s.flatMap escapeLiteral) := by
    induction s with
    | nil => exact .nil
    | cons c s ih => exact escapes_escapeLiteral c ih
  have hbody := stringBody_of_escapes (by decide) hescapes rest
  have hstring : stringIn '"' (stringLiteral s ++ rest) = some (stringLiteral s, rest) := by
    rw [stringLiteral, List.cons_append, List.append_assoc, List.singleton_append]
    simp [stringIn, hbody]
  rw [Lexeme.string, hstring]
  rfl

theorem Tickless.literal (s rest : Text) : Tickless (stringLiteral s ++ rest) := by
  rw [Tickless, stringLiteral, List.cons_append, List.dropWhile_cons_of_neg (by decide)]
  exact fun h => absurd (Option.some.inj h) (by decide)

/-! ## Barren code -/

/-- Code of string literals, words and single characters in which no item begins. -/
inductive Barren : Text → Prop where
  | nil : Barren []
  | literal (s : Text) {rest : Text} (hrest : Barren rest) : Barren (stringLiteral s ++ rest)
  | mark {c : Char} {rest : Text} (hc : isQuiet c = true) (hstart : isWordStart c = false)
      (hrest : Barren rest) : Barren (c :: rest)
  | word {w rest : Text} (hw : IsWord w) (hend : WordEnds rest) (hleads : ¬Leads w rest)
      (hrest : Barren rest) : Barren (w ++ rest)

namespace Barren

theorem tickless {t : Text} (h : Barren t) : Tickless t := by
  induction h with
  | nil => exact fun h => nomatch h
  | literal s _ _ => exact .literal s _
  | mark hc _ _ ih =>
      refine .cons ?_ ih
      rintro rfl
      exact absurd hc (by decide)
  | word hw _ _ _ ih => exact .append hw.isPathChar ih

/-- No word leads anything at a character with which no word begins. -/
theorem leadless_of_first {c : Char} (hc : isWordStart c = false) {t w rest : Text}
    (heq : c :: t = w ++ rest) : ¬Leads w rest := by
  intro hleads
  obtain ⟨hstart, -⟩ := hleads.isWord
  obtain ⟨rfl, -⟩ := List.cons.inj heq
  rw [hc] at hstart
  cases hstart

theorem idle_literal (s rest : Text) : Idle (stringLiteral s ++ rest) := by
  refine ⟨.literal s rest, fun w more heq => ?_⟩
  rw [stringLiteral, List.cons_append] at heq
  exact leadless_of_first (by decide) heq

theorem idle {t : Text} (h : Barren t) : Idle t := by
  refine ⟨h.tickless, fun w rest heq => ?_⟩
  cases h with
  | nil =>
      intro hleads
      obtain ⟨-, -⟩ := hleads.isWord
      cases heq
  | literal s _ => exact (idle_literal s _).leadless w rest heq
  | mark _ hstart _ => exact leadless_of_first hstart heq
  | word hw hend hleads _ =>
      intro hleads'
      obtain ⟨rfl, rfl⟩ := word_unique hw hleads'.isWord hend hleads'.wordEnds heq
      exact hleads hleads'

end Barren

/-! ## The scanner passes over barren code -/

namespace Rule

theorem reads_upTo_cons {α : Type} {p : Rule α} {fuel : Nat} {cursor middle next : Cursor} {a : α}
    {others : List α} (hfirst : p.Reads cursor a middle)
    (hothers : (upTo p fuel).Reads middle others next) :
    (upTo p (fuel + 1)).Reads cursor (a :: others) next := by
  rw [Reads] at hfirst hothers ⊢
  rw [upTo_succ, hfirst]
  simp only [hothers, Option.map_some]

theorem item_nil (offset : Nat) : (item ⟨offset, []⟩).result = none := rfl

variable {reader : Lexeme.Reader} {cursor : Cursor}

theorem reads_skip {taken rest : Text} (h : reader cursor.rest = some (taken, rest)) :
    (do let _ ← lexeme reader; return none : Rule (Option Item)).Reads cursor none
      ⟨cursor.offset + taken.byteSize, rest⟩ :=
  reads_bind.mpr ⟨_, _, reads_lexeme.mpr ⟨h, rfl⟩, reads_pure.mpr ⟨rfl, rfl⟩⟩

theorem skip_fails (h : reader cursor.rest = none) :
    ((do let _ ← lexeme reader; return none : Rule (Option Item)) cursor).result = none :=
  return_fails_iff.mpr (lexeme_fails h)

theorem identifier_skips {w rest : Text} (h : Lexeme.word cursor.rest = some (w, rest)) :
    (do let _ ← identifier; return none : Rule (Option Item)).Reads cursor none
      ⟨cursor.offset + w.byteSize, rest⟩ :=
  reads_bind.mpr
    ⟨_, _, reads_named.mpr (reads_lexeme.mpr ⟨h, rfl⟩), reads_pure.mpr ⟨rfl, rfl⟩⟩

theorem identifier_fails (h : Lexeme.word cursor.rest = none) :
    ((do let _ ← identifier; return none : Rule (Option Item)) cursor).result = none := by
  refine return_fails_iff.mpr (result_eq_none fun t next hreads => ?_)
  rw [identifier, reads_named, Reads, lexeme_fails h] at hreads
  cases hreads

end Rule

theorem isQuiet_iff {c : Char} :
    isQuiet c = true ↔ ((c ≠ '\x60' ∧ c ≠ '"') ∧ c ≠ '\x27') ∧ c ≠ '/' := by
  simp [isQuiet, isPlain]

theorem string_eq_none {c : Char} (hdouble : c ≠ '"') (hsingle : c ≠ '\x27') (t : Text) :
    Lexeme.string (c :: t) = none := by
  simp [Lexeme.string, stringIn, hdouble, hsingle]

theorem word_eq_none {c : Char} (hc : isWordStart c = false) (t : Text) :
    Lexeme.word (c :: t) = none := by
  unfold isWordStart at hc
  rw [Lexeme.word, hc]
  rfl

theorem word_append {w rest : Text} (hw : IsWord w) (hend : WordEnds rest) :
    Lexeme.word (w ++ rest) = some (w, rest) := by
  obtain ⟨hc, hparts⟩ := hw
  unfold isWordStart at hc
  obtain ⟨htake, hdrop⟩ := span_append hparts hend
  unfold isWordPart at htake hdrop
  rw [List.cons_append, Lexeme.word, hc, if_pos rfl, htake, hdrop]

/-- A literal is read as one piece, whatever follows. -/
theorem item_reads_literal (s rest : Text) (offset : Nat) :
    Rule.item.Reads ⟨offset, stringLiteral s ++ rest⟩ none
      ⟨offset + (stringLiteral s).byteSize, rest⟩ := by
  refine Rule.item_reads_of_idle (Barren.idle_literal s rest) (comment_eq_none (by decide) _) ?_
  exact Rule.reads_orElse.mpr (.inl (Rule.reads_skip (string_stringLiteral s rest)))

/-- **One step over barren code.** The scanner reads a literal, a character or a word, and finds
nothing. -/
theorem Barren.step {t : Text} (h : Barren t) (hne : t ≠ []) (offset : Nat) :
    ∃ next, Rule.item.Reads ⟨offset, t⟩ none next ∧ Barren next.rest ∧
      next.rest.length < t.length := by
  have hidle := h.idle
  cases h with
  | nil => exact absurd rfl hne
  | @literal s rest hrest =>
      refine ⟨_, item_reads_literal s rest offset, hrest, ?_⟩
      show rest.length < (stringLiteral s ++ rest).length
      rw [stringLiteral, List.length_append, List.length_cons]
      omega
  | @mark c rest hc hstart hrest =>
      refine ⟨⟨offset + Text.byteSize [c], rest⟩, ?_, hrest, Nat.lt_succ_self _⟩
      obtain ⟨⟨⟨hbackquote, hdouble⟩, hsingle⟩, hslash⟩ := isQuiet_iff.mp hc
      have hother : Rule.otherCharacter (c :: rest) = some ([c], rest) := by
        simp [Rule.otherCharacter, hbackquote, hdouble, hsingle]
      refine Rule.item_reads_of_idle hidle (comment_eq_none hslash _) ?_
      refine Rule.reads_orElse.mpr (.inr ⟨Rule.skip_fails (string_eq_none hdouble hsingle _), ?_⟩)
      refine Rule.reads_orElse.mpr (.inr ⟨Rule.identifier_fails (word_eq_none hstart _), ?_⟩)
      exact Rule.reads_skip hother
  | @word w rest hw hend hleads hrest =>
      have hread := word_append hw hend
      cases hw with
      | @intro c parts hc hparts =>
      obtain ⟨⟨⟨-, hdouble⟩, hsingle⟩, hslash⟩ := isQuiet_iff.mp (isQuiet_of_isWordStart hc)
      refine ⟨⟨offset + Text.byteSize (c :: parts), rest⟩, ?_, hrest, ?_⟩
      · refine Rule.item_reads_of_idle hidle (comment_eq_none hslash _) ?_
        refine Rule.reads_orElse.mpr (.inr ⟨Rule.skip_fails (string_eq_none hdouble hsingle _), ?_⟩)
        exact Rule.reads_orElse.mpr (.inl (Rule.identifier_skips hread))
      · show rest.length < (c :: parts ++ rest).length
        rw [List.cons_append, List.length_cons, List.length_append]
        omega

/-- **Nothing is found in barren code,** and it can be read to the end. -/
theorem scan_of_barren {t : Text} (h : Barren t) : scan t = .ok [] := by
  -- as long as there is fuel for all characters, every step reads at least one of them
  have hsteps : ∀ fuel offset t, Barren t → t.length < fuel →
      ∃ found next, (Rule.upTo Rule.item fuel).Reads ⟨offset, t⟩ found next ∧ next.rest = [] ∧
        found.filterMap id = [] := by
    intro fuel
    induction fuel with
    | zero => exact fun _ _ _ hlt => absurd hlt (Nat.not_lt_zero _)
    | succ fuel ih =>
        intro offset t h hlt
        by_cases hne : t = []
        · subst hne
          refine ⟨[], ⟨offset, []⟩, ?_, rfl, rfl⟩
          rw [Rule.Reads, Rule.upTo_succ, Rule.item_nil]
        · obtain ⟨middle, hitem, hrest, hlength⟩ := h.step hne offset
          obtain ⟨found, next, hreads, hend, hnone⟩ :=
            ih middle.offset middle.rest hrest (by omega)
          exact ⟨none :: found, next, Rule.reads_upTo_cons hitem hreads, hend, hnone⟩
  obtain ⟨found, next, hreads, hend, hnone⟩ := hsteps (t.length + 1) 0 t h (Nat.lt_succ_self _)
  exact scan_eq_ok_iff.mpr ⟨found, next, hreads, hend, hnone⟩

end Script
end Hypertext

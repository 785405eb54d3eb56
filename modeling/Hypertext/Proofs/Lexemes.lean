import Hypertext.Script.Grammar
import Mathlib.Data.List.Induction
import Mathlib.Data.List.TakeWhile

set_option autoImplicit false

/-! # What lexemes look like

Every reader of a lexeme takes a piece off the start of a text and leaves the rest of it. This file
gives the form of the pieces in terms of their characters alone: comments end at the first place
where they can, and strings and the static parts of templates hold a delimiter only where a
backslash takes away its meaning.

A character has no meaning of its own if the number of backslashes directly before it is odd
(`isEscaped`). The readers instead go through a text from the left, pair by pair; `Escapes` is this
view, and `Escapes.of_append` says that both agree.
-/

namespace Hypertext

/-- A place in two lists that follow each other is a place in one of them. -/
theorem append_eq_append_cons {α : Type} {first second before after : List α} {a : α}
    (h : first ++ second = before ++ a :: after) :
    (∃ start, first = before ++ a :: start ∧ after = start ++ second) ∨
      ∃ start, second = start ++ a :: after ∧ before = first ++ start := by
  rcases List.append_eq_append_iff.mp h with ⟨start, hbefore, hsecond⟩ | ⟨start, hfirst, hafter⟩
  · exact .inr ⟨start, hsecond, hbefore⟩
  · cases start with
    | nil =>
        rw [List.append_nil] at hfirst
        exact .inr ⟨[], hafter.symm, by rw [hfirst, List.append_nil]⟩
    | cons head start =>
        obtain ⟨rfl, rfl⟩ := List.cons.inj hafter
        exact .inl ⟨start, hfirst, rfl⟩

namespace Script

/-! ## Escaped characters -/

/-- Whether a character that follows the given text is escaped: the number of backslashes directly
before it is odd. -/
def isEscaped (before : Text) : Bool := (before.reverse.takeWhile (· == '\\')).length % 2 == 1

@[simp] theorem isEscaped_nil : isEscaped [] = false := rfl

theorem isEscaped_concat (before : Text) (c : Char) :
    isEscaped (before ++ [c]) = (c == '\\' && !isEscaped before) := by
  unfold isEscaped
  rw [List.reverse_append, List.reverse_singleton, List.singleton_append, List.takeWhile_cons]
  by_cases hc : c = '\\'
  · subst hc
    simp only [beq_self_eq_true, if_true, List.length_cons, Bool.true_and]
    generalize (before.reverse.takeWhile (· == '\\')).length = n
    rcases Nat.mod_two_eq_zero_or_one n with h | h
    · simp [Nat.add_mod, h]
    · simp [Nat.add_mod, h]
  · simp [hc]

/-- Escape pairs and other characters do not change what follows them. -/
theorem isEscaped_append (start before : Text) (h : isEscaped start = false) :
    isEscaped (start ++ before) = isEscaped before := by
  induction before using List.reverseRecOn with
  | nil => rw [List.append_nil, h, isEscaped_nil]
  | append_singleton before c ih =>
      rw [← List.append_assoc, isEscaped_concat, isEscaped_concat, ih]

theorem isEscaped_pair (c : Char) (before : Text) :
    isEscaped ('\\' :: c :: before) = isEscaped before := by
  refine isEscaped_append ['\\', c] before ?_
  rw [show ['\\', c] = ['\\'] ++ [c] from rfl, isEscaped_concat]
  simp [isEscaped]

theorem isEscaped_cons {c : Char} (hc : c ≠ '\\') (before : Text) :
    isEscaped (c :: before) = isEscaped before := by
  refine isEscaped_append [c] before ?_
  simp [isEscaped, hc]

/-- A text read from the left: a backslash takes the next character with it, and every other
character satisfies `plain` together with what follows it. -/
inductive Escapes (plain : Char → Text → Prop) : Text → Prop where
  | nil : Escapes plain []
  | pair (c : Char) {t : Text} (rest : Escapes plain t) : Escapes plain ('\\' :: c :: t)
  | single {c : Char} {t : Text} (hc : c ≠ '\\') (hplain : plain c t) (rest : Escapes plain t) :
      Escapes plain (c :: t)

namespace Escapes

variable {plain : Char → Text → Prop}

/-- What begins with a character that is not escaped is read on its own. -/
theorem of_append {before after : Text} (h : Escapes plain (before ++ after))
    (hbefore : isEscaped before = false) : Escapes plain after := by
  generalize ht : before ++ after = t at h
  induction h generalizing before with
  | nil =>
      obtain ⟨-, rfl⟩ := List.append_eq_nil_iff.mp ht
      exact .nil
  | pair c rest ih =>
      match before with
      | [] =>
          rw [List.nil_append] at ht
          exact ht ▸ .pair c rest
      | [d] =>
          simp only [List.cons_append, List.nil_append, List.cons.injEq] at ht
          simp [ht.1, isEscaped] at hbefore
      | d :: e :: before =>
          simp only [List.cons_append, List.cons.injEq] at ht
          rw [ht.1, isEscaped_pair] at hbefore
          exact ih hbefore ht.2.2
  | single hc hplain rest ih =>
      match before with
      | [] =>
          rw [List.nil_append] at ht
          exact ht ▸ .single hc hplain rest
      | d :: before =>
          simp only [List.cons_append, List.cons.injEq] at ht
          rw [ht.1, isEscaped_cons hc] at hbefore
          exact ih hbefore ht.2

/-- A character that is not plain is escaped. -/
theorem isEscaped_of_not_plain {before after : Text} {c : Char}
    (h : Escapes plain (before ++ c :: after)) (hc : c ≠ '\\') (hplain : ¬plain c after) :
    isEscaped before = true := by
  by_contra hbefore
  have hafter := h.of_append (Bool.eq_false_iff.mpr hbefore)
  cases hafter with
  | pair d rest => exact hc rfl
  | single _ h _ => exact hplain h

/-- No such text ends in a backslash that is not escaped itself. -/
theorem isEscaped_of_last {before : Text} (h : Escapes plain (before ++ ['\\'])) :
    isEscaped before = true := by
  by_contra hbefore
  have hlast := h.of_append (Bool.eq_false_iff.mpr hbefore)
  cases hlast with
  | single hc _ _ => exact hc rfl

end Escapes

/-! ## Readers take text apart -/

namespace Lexeme

/-- What a reader takes and what it leaves is the text it was given. -/
def Splits (reader : Reader) : Prop :=
  ∀ t taken rest, reader t = some (taken, rest) → t = taken ++ rest

theorem splits_or {first second : Reader} (h₁ : Splits first) (h₂ : Splits second) :
    Splits fun t => (first t).or (second t) := by
  intro t taken rest h
  rcases Option.or_eq_some_iff.mp h with h | ⟨-, h⟩
  · exact h₁ t taken rest h
  · exact h₂ t taken rest h

theorem splits_run (p : Char → Bool) : Splits (run p) := by
  intro t taken rest h
  cases h
  exact List.takeWhile_append_dropWhile.symm

theorem splits_run1 (p : Char → Bool) : Splits (run1 p) := by
  intro t taken rest h
  unfold run1 at h
  split at h
  · cases h
  · exact splits_run p t taken rest h

theorem splits_lineBreak : Splits lineBreak := by
  intro t taken rest h
  unfold lineBreak at h
  split at h
  · cases h
    rfl
  · split at h
    · cases h
      rfl
    · cases h
  · cases h

theorem exactly_eq_some_iff {s t taken rest : Text} :
    exactly s t = some (taken, rest) ↔ taken = s ∧ t = s ++ rest := by
  unfold exactly
  rw [Option.map_eq_some_iff]
  constructor
  · rintro ⟨after, hafter, heq⟩
    cases heq
    exact ⟨rfl, Text.after?_eq_some_iff.mp hafter⟩
  · rintro ⟨rfl, rfl⟩
    exact ⟨rest, Text.after?_eq_some_iff.mpr rfl, rfl⟩

theorem splits_exactly (s : Text) : Splits (exactly s) := by
  intro t taken rest h
  obtain ⟨rfl, rfl⟩ := exactly_eq_some_iff.mp h
  rfl

/-- Whether a word can begin with a character. -/
def isWordStart (c : Char) : Bool := isIdentifierStart c || c == '_' || c == '$'

/-- Whether a word can go on with a character. -/
def isWordPart (c : Char) : Bool := isIdentifierPart c || c == '$'

theorem word_eq_some {t taken rest : Text} (h : word t = some (taken, rest)) :
    ∃ c u, isWordStart c = true ∧ t = c :: u ∧ taken = c :: u.takeWhile isWordPart ∧
      rest = u.dropWhile isWordPart := by
  unfold word at h
  split at h
  · next c u =>
      split at h
      · next hc =>
          cases h
          exact ⟨c, u, hc, rfl, rfl, rfl⟩
      · cases h
  · cases h

theorem splits_word : Splits word := by
  intro t taken rest h
  obtain ⟨c, u, -, rfl, rfl, rfl⟩ := word_eq_some h
  rw [List.cons_append, List.takeWhile_append_dropWhile]

theorem lineComment_eq_some {t taken rest : Text} (h : lineComment t = some (taken, rest)) :
    ∃ u, t = '/' :: '/' :: u ∧ taken = '/' :: '/' :: u.takeWhile (!isLineBreak ·) ∧
      rest = u.dropWhile (!isLineBreak ·) := by
  unfold lineComment at h
  split at h
  · next u =>
      cases h
      exact ⟨u, rfl, rfl, rfl⟩
  · cases h

/-- The body of a block comment goes up to the first `*/`. -/
theorem blockComment_eq_some {t taken rest : Text} (h : blockComment t = some (taken, rest)) :
    ∃ u, t = '/' :: '*' :: u ∧
      (Text.breakAt (Text.startsWith ['*', '/']) u).2 = '*' :: '/' :: rest ∧
      taken = '/' :: '*' :: ((Text.breakAt (Text.startsWith ['*', '/']) u).1 ++ ['*', '/']) := by
  unfold blockComment at h
  split at h
  · next u =>
      obtain ⟨after, hafter, heq⟩ := Option.map_eq_some_iff.mp h
      cases heq
      exact ⟨u, rfl, Text.after?_eq_some_iff.mp hafter, rfl⟩
  · cases h

theorem splits_comment : Splits comment := by
  refine splits_or ?_ ?_
  · intro t taken rest h
    obtain ⟨u, rfl, rfl, rfl⟩ := lineComment_eq_some h
    rw [List.cons_append, List.cons_append, List.takeWhile_append_dropWhile]
  · intro t taken rest h
    obtain ⟨u, rfl, hend, rfl⟩ := blockComment_eq_some h
    have happend := Text.breakAt_append (Text.startsWith ['*', '/']) u
    rw [hend] at happend
    simp only [List.cons_append, List.append_assoc, List.nil_append, happend]

theorem stringBody_append (quote : Char) (t : Text) :
    (stringBody quote t).1 ++ (stringBody quote t).2 = t := by
  fun_induction stringBody quote t <;> simp_all

theorem stringIn_eq_some {quote : Char} {t taken rest : Text}
    (h : stringIn quote t = some (taken, rest)) :
    ∃ u, t = quote :: u ∧ (stringBody quote u).2 = quote :: rest ∧
      taken = quote :: ((stringBody quote u).1 ++ [quote]) := by
  cases t with
  | nil => cases h
  | cons c u =>
      simp only [stringIn, bne_iff_ne, ne_eq, ite_not] at h
      split at h
      · next hc =>
          subst hc
          cases hrest : (stringBody c u).2 with
          | nil => simp [hrest] at h
          | cons d after =>
              simp only [hrest, beq_iff_eq, Option.ite_none_right_eq_some, Option.some.injEq,
                Prod.mk.injEq] at h
              obtain ⟨rfl, rfl, rfl⟩ := h
              exact ⟨u, rfl, hrest, rfl⟩
      · cases h

theorem splits_string : Splits string := by
  have hquote (quote : Char) : Splits (stringIn quote) := by
    intro t taken rest h
    obtain ⟨u, rfl, hend, rfl⟩ := stringIn_eq_some h
    have happend := stringBody_append quote u
    rw [hend] at happend
    simp only [List.cons_append, List.append_assoc, List.nil_append, happend]
  exact splits_or (hquote '"') (hquote '\x27')

theorem templateChars_append (t : Text) : (templateChars t).1 ++ (templateChars t).2 = t := by
  fun_induction templateChars t <;> simp_all

theorem splits_templateChars : Splits fun t => some (templateChars t) := by
  intro t taken rest h
  have happend := templateChars_append t
  rw [Option.some.inj h] at happend
  exact happend.symm

section

variable {inner : Text → Text × Text} (hinner : ∀ t, (inner t).1 ++ (inner t).2 = t)

include hinner

theorem templatePieces_append (fuel : Nat) (t : Text) :
    (templatePieces inner fuel t).1 ++ (templatePieces inner fuel t).2 = t := by
  induction fuel generalizing t with
  | zero => rfl
  | succ fuel ih =>
      unfold templatePieces
      split
      · rfl
      · next body hbody =>
          split
          · next rest hrest =>
              have hopen := Text.after?_eq_some_iff.mp hbody
              calc
                _ = "$\x7b".toList ++ ((inner body).1 ++ '\x7d' :: ((templateChars rest).1 ++
                      ((templatePieces inner fuel (templateChars rest).2).1 ++
                        (templatePieces inner fuel (templateChars rest).2).2))) := by simp
                _ = "$\x7b".toList ++ ((inner body).1 ++ (inner body).2) := by
                      rw [ih, templateChars_append, hrest]
                _ = t := by rw [hinner, hopen]
          · rfl

theorem splits_templateText : Splits (templateText inner) := by
  intro t taken rest h
  unfold templateText at h
  split at h
  · next t =>
      dsimp only at h
      split at h
      · next after hafter =>
          cases h
          have hpieces :=
            templatePieces_append hinner (templateChars t).2.length (templateChars t).2
          rw [hafter] at hpieces
          have hchars := templateChars_append t
          rw [← hpieces] at hchars
          simp only [List.cons_append, List.append_assoc, List.nil_append, hchars]
      · cases h
  · cases h

theorem splits_braces : Splits (braces inner) := by
  intro t taken rest h
  unfold braces at h
  split at h
  · next t =>
      split at h
      · next after hafter =>
          cases h
          have happend := hinner t
          rw [hafter] at happend
          simp only [List.cons_append, List.append_assoc, List.nil_append, happend]
      · cases h
  · cases h

theorem splits_expressionPart : Splits (expressionPart inner) := by
  have hclosing : Splits notClosing := by
    intro t taken rest h
    unfold notClosing at h
    split at h
    · split at h
      · cases h
      · cases h
        rfl
    · cases h
  exact splits_or splits_comment <| splits_or (splits_templateText hinner) <|
    splits_or splits_string <| splits_or (splits_braces hinner) hclosing

end

/-- Nothing is lost of an expression, however deep its braces and templates nest. -/
theorem expressionParts_append (fuel : Nat) (t : Text) :
    (expressionParts fuel t).1 ++ (expressionParts fuel t).2 = t := by
  induction fuel generalizing t with
  | zero => rfl
  | succ fuel ih =>
      unfold expressionParts
      split
      · rfl
      · next part rest hpart =>
          have hsplit := splits_expressionPart ih t part rest hpart
          rw [List.append_assoc, ih, hsplit]

theorem splits_expression : Splits expression := by
  intro t taken rest h
  have happend := expressionParts_append t.length t
  rw [Option.some.inj h] at happend
  exact happend.symm

end Lexeme

/-! ## Static parts of templates -/

/-- The text of a static part of a template: a backquote, or a dollar sign with a brace after it,
stands only where it is escaped, and the part does not end in the middle of an escape. -/
structure IsQuasi (t : Text) : Prop where
  backquote : ∀ before after, t = before ++ '\x60' :: after → isEscaped before = true
  substitution : ∀ before after, t = before ++ '$' :: '\x7b' :: after → isEscaped before = true
  backslash : ∀ before, t = before ++ ['\\'] → isEscaped before = true

namespace Lexeme

/-- If something follows the characters of a template, every one of them that would end them is
taken by a backslash. -/
theorem escapes_templateChars {t : Text} (h : (templateChars t).2 ≠ []) :
    Escapes (fun c after => c ≠ '\x60' ∧ ¬(c = '$' ∧ after.head? = some '\x7b'))
      (templateChars t).1 := by
  fun_induction templateChars t with
  | case1 => exact .nil
  | case2 c t ih => exact .pair c (ih h)
  | case3 t => exact .nil
  | case4 c t hpair hopen hc => exact .nil
  | case5 c t hpair hopen hc ih =>
      have happend := templateChars_append t
      refine .single ?_ ⟨by simpa using hc, ?_⟩ (ih h)
      · -- a backslash would have a partner, or be the last character of the text
        rintro rfl
        cases t with
        | nil => exact h rfl
        | cons d t => exact hpair d t rfl rfl
      · rintro ⟨rfl, hhead⟩
        cases hchars : (templateChars t).1 with
        | nil => simp [hchars] at hhead
        | cons d more =>
            rw [hchars, List.head?_cons, Option.some.injEq] at hhead
            rw [hchars, hhead, List.cons_append] at happend
            exact hopen _ rfl happend.symm

theorem isQuasi_templateChars {t : Text} (h : (templateChars t).2 ≠ []) :
    IsQuasi (templateChars t).1 := by
  have hescapes := escapes_templateChars h
  refine ⟨?_, ?_, ?_⟩
  · intro before after heq
    rw [heq] at hescapes
    exact hescapes.isEscaped_of_not_plain (by decide) fun hplain => hplain.1 rfl
  · intro before after heq
    rw [heq] at hescapes
    exact hescapes.isEscaped_of_not_plain (by decide) fun hplain => hplain.2 ⟨rfl, rfl⟩
  · intro before heq
    rw [heq] at hescapes
    exact hescapes.isEscaped_of_last

end Lexeme

/-! ## Pieces without templates -/

/-- Whether a character begins neither a string nor a template. -/
def isPlain (c : Char) : Bool := !(c == '\x60' || c == '"' || c == '\x27')

/-- A piece of code that is no part of a template, where `after` follows it: a comment up to the
first place where it can end, a string from quote to quote, or a single character at which neither
of them begins. -/
inductive Inert (after : Text) : Text → Prop where
  | lineComment {body : Text} (hbody : ∀ c ∈ body, Lexeme.isLineBreak c = false)
      (hend : ∀ c ∈ after.head?, Lexeme.isLineBreak c = true) : Inert after ('/' :: '/' :: body)
  | blockComment {body : Text}
      (hend : ∀ before rest, body ++ ['*', '/'] = before ++ '*' :: '/' :: rest → rest = []) :
      Inert after ('/' :: '*' :: (body ++ ['*', '/']))
  | string {quote : Char} {body : Text} (hquote : quote = '"' ∨ quote = '\x27')
      (hbody : ∀ before c rest, body = before ++ c :: rest →
        c = quote ∨ Lexeme.isLineBreak c = true → isEscaped before = true)
      (hlast : ∀ before, body = before ++ ['\\'] → isEscaped before = true) :
      Inert after (quote :: (body ++ [quote]))
  | char {c : Char} (hc : isPlain c = true) (hcomment : Lexeme.comment (c :: after) = none) :
      Inert after [c]

namespace Lexeme

theorem inert_lineComment {t taken rest : Text} (h : lineComment t = some (taken, rest)) :
    Inert rest taken := by
  obtain ⟨u, rfl, rfl, rfl⟩ := lineComment_eq_some h
  refine .lineComment ?_ ?_
  · intro c hc
    simpa using List.mem_takeWhile_imp hc
  · intro c hc
    have hnot := List.head?_dropWhile_not (!isLineBreak ·) u
    rw [Option.mem_def.mp hc] at hnot
    simpa using hnot

theorem inert_blockComment {t taken rest : Text} (h : blockComment t = some (taken, rest)) :
    Inert rest taken := by
  obtain ⟨u, rfl, hend, rfl⟩ := blockComment_eq_some h
  refine .blockComment fun before more heq => ?_
  rcases List.append_eq_append_iff.mp heq with ⟨start, hbefore, hstart⟩ | ⟨start, hbody, hstart⟩
  · -- the body is not shorter than what stands before the end
    have hlength := congrArg List.length hstart
    simp only [List.length_cons, List.length_append, List.length_nil] at hlength
    exact List.eq_nil_of_length_eq_zero (by omega)
  · cases start with
    | nil =>
        rw [List.nil_append] at hstart
        exact (List.cons.inj (List.cons.inj hstart).2).2
    | cons c start =>
        -- the reader would have stopped there
        have hstop := Text.breakAt_not_stop _ u before c start hbody
        rw [hend] at hstop
        have hearly : c :: (start ++ '*' :: '/' :: rest) = ['*', '/'] ++ (more ++ rest) := by
          have := congrArg (· ++ rest) hstart
          simpa using this.symm
        rw [hearly, Text.startsWith, Text.after?_eq_some_iff.mpr rfl] at hstop
        cases hstop

theorem inert_comment {t taken rest : Text} (h : comment t = some (taken, rest)) :
    Inert rest taken := by
  rcases Option.or_eq_some_iff.mp h with h | ⟨-, h⟩
  · exact inert_lineComment h
  · exact inert_blockComment h

/-- If something follows the body of a string, every quote and line break in it is taken by a
backslash. -/
theorem escapes_stringBody {quote : Char} {t : Text} (h : (stringBody quote t).2 ≠ []) :
    Escapes (fun c _ => c ≠ quote ∧ isLineBreak c = false) (stringBody quote t).1 := by
  fun_induction stringBody quote t with
  | case1 => exact .nil
  | case2 c t ih => exact .pair c (ih h)
  | case3 c t hpair hc => exact .nil
  | case4 c t hpair hc ih =>
      refine .single ?_ (by simpa using hc) (ih h)
      rintro rfl
      cases t with
      | nil => exact h rfl
      | cons d t => exact hpair d t rfl rfl

theorem inert_stringIn {quote : Char} {t taken rest : Text} (hquote : quote = '"' ∨ quote = '\x27')
    (h : stringIn quote t = some (taken, rest)) : Inert rest taken := by
  obtain ⟨u, rfl, hend, rfl⟩ := stringIn_eq_some h
  have hrest : (stringBody quote u).2 ≠ [] := by
    rw [hend]
    exact List.cons_ne_nil _ _
  have hescapes := escapes_stringBody hrest
  refine .string hquote ?_ ?_
  · intro before c more heq hc
    rw [heq] at hescapes
    refine hescapes.isEscaped_of_not_plain ?_ ?_
    · rintro rfl
      rcases hc with rfl | hc
      · rcases hquote with hquote | hquote <;> exact absurd hquote (by decide)
      · exact absurd hc (by decide)
    · rintro ⟨hne, hbreak⟩
      rcases hc with hc | hc
      · exact hne hc
      · exact absurd hc (by rw [hbreak]; decide)
  · intro before heq
    rw [heq] at hescapes
    exact hescapes.isEscaped_of_last

theorem inert_string {t taken rest : Text} (h : string t = some (taken, rest)) :
    Inert rest taken := by
  rcases Option.or_eq_some_iff.mp h with h | ⟨-, h⟩
  · exact inert_stringIn (.inl rfl) h
  · exact inert_stringIn (.inr rfl) h

/-- No comment begins with a character other than a slash. -/
theorem comment_eq_none {c : Char} (hc : c ≠ '/') (t : Text) : comment (c :: t) = none := by
  unfold comment lineComment blockComment
  split
  · next heq => exact absurd (List.cons.inj heq).1 hc
  · split
    · next heq => exact absurd (List.cons.inj heq).1 hc
    · rfl

end Lexeme

end Script
end Hypertext

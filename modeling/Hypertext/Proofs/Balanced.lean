import Hypertext.Proofs.Places

set_option autoImplicit false

/-! # Balanced code

Code is balanced if every quote and every backquote in it has its partner, and in braces every
brace (`Balanced`). What is balanced stays so when another text follows it (`Balanced.replace`), and
inside of braces or backquotes it is read back up to the end that closes it (`Balanced.reads`).
-/

namespace Hypertext
namespace Script

open Lexeme

/-! ## Lexemes are read back -/

/-- A text is read pair by pair if everything in it that is not plain is escaped. -/
theorem Escapes.of_isEscaped {plain : Char → Text → Prop} {t : Text}
    (hplain : ∀ before c after, t = before ++ c :: after → c ≠ '\\' → ¬plain c after →
      isEscaped before = true)
    (hlast : ∀ before, t = before ++ ['\\'] → isEscaped before = true) : Escapes plain t := by
  match t with
  | [] => exact .nil
  | [c] =>
      by_cases hc : c = '\\'
      · exact absurd (hlast [] (by rw [hc]; rfl)) (by decide)
      · refine .single hc ?_ .nil
        by_contra hnot
        exact absurd (hplain [] c [] rfl hc hnot) (by decide)
  | c :: d :: t =>
      by_cases hc : c = '\\'
      · subst hc
        refine .pair d (of_isEscaped ?_ ?_)
        · intro before e after heq he hnot
          rw [← isEscaped_pair d]
          exact hplain ('\\' :: d :: before) e after (by rw [heq]; rfl) he hnot
        · intro before heq
          rw [← isEscaped_pair d]
          exact hlast ('\\' :: d :: before) (by rw [heq]; rfl)
      · refine .single hc ?_ (of_isEscaped ?_ ?_)
        · by_contra hnot
          exact absurd (hplain [] c (d :: t) rfl hc hnot) (by decide)
        · intro before e after heq he hnot
          rw [← isEscaped_cons hc]
          exact hplain (c :: before) e after (by rw [heq]; rfl) he hnot
        · intro before heq
          rw [← isEscaped_cons hc]
          exact hlast (c :: before) (by rw [heq]; rfl)

namespace Lexeme

theorem lineComment_append {body rest : Text} (hbody : ∀ c ∈ body, isLineBreak c = false)
    (hrest : ∀ c ∈ rest.head?, isLineBreak c = true) :
    lineComment ('/' :: '/' :: (body ++ rest)) = some ('/' :: '/' :: body, rest) := by
  have hspan := span_append (p := fun c => !isLineBreak c) (s := body) (u := rest)
    (fun c hc => by simp [hbody c hc]) (fun c hc => by simp [hrest c hc])
  rw [lineComment, hspan.1, hspan.2]

theorem blockComment_eq (u : Text) :
    blockComment ('/' :: '*' :: u)
      = (Text.after? ['*', '/'] (Text.breakAt (Text.startsWith ['*', '/']) u).2).map fun rest =>
          ('/' :: '*' :: ((Text.breakAt (Text.startsWith ['*', '/']) u).1 ++ ['*', '/']), rest) :=
  rfl

theorem blockComment_append {body : Text}
    (hend : ∀ before rest, body ++ ['*', '/'] = before ++ '*' :: '/' :: rest → rest = [])
    (rest : Text) :
    blockComment ('/' :: '*' :: (body ++ '*' :: '/' :: rest))
      = some ('/' :: '*' :: (body ++ ['*', '/']), rest) := by
  have hbreak : Text.breakAt (Text.startsWith ['*', '/']) (body ++ '*' :: '/' :: rest)
      = (body, '*' :: '/' :: rest) := by
    refine Text.breakAt_eq (Text.startsWith_iff.mpr ⟨rest, rfl⟩) fun start c more hbody => ?_
    by_contra hstop
    rw [Bool.not_eq_false, Text.startsWith_iff] at hstop
    obtain ⟨after, heq⟩ := hstop
    obtain ⟨rfl, hmore⟩ := List.cons.inj heq
    cases more with
    | nil => exact absurd (List.cons.inj hmore).1 (by decide)
    | cons d more =>
        obtain ⟨rfl, -⟩ := List.cons.inj hmore
        have hnone := hend start (more ++ ['*', '/']) (by rw [hbody]; simp)
        exact absurd hnone (by simp)
  have hafter : Text.after? ['*', '/'] ('*' :: '/' :: rest) = some rest :=
    Text.after?_eq_some_iff.mpr rfl
  rw [blockComment_eq, hbreak, hafter, Option.map_some]

/-- A comment begins with two slashes, or it is closed somewhere. -/
theorem comment_eq_none_iff {t : Text} :
    comment t = none ↔ (∀ u, t ≠ '/' :: '/' :: u) ∧
      ∀ before after, t ≠ '/' :: '*' :: (before ++ '*' :: '/' :: after) := by
  constructor
  · intro h
    obtain ⟨hline, hblock⟩ := Option.or_eq_none_iff.mp h
    refine ⟨?_, ?_⟩
    · rintro u rfl
      cases hline
    · rintro before after rfl
      rcases Text.breakAt_stop (Text.startsWith ['*', '/']) (before ++ '*' :: '/' :: after) with
        hnil | hstop
      · -- the search does not pass by the end
        have happend := Text.breakAt_append (Text.startsWith ['*', '/'])
          (before ++ '*' :: '/' :: after)
        rw [hnil, List.append_nil] at happend
        have hnot := Text.breakAt_not_stop _ _ _ _ _ happend
        have hstarts : Text.startsWith ['*', '/'] ('*' :: '/' :: after) = true :=
          Text.startsWith_iff.mpr ⟨after, rfl⟩
        rw [hnil, List.append_nil, hstarts] at hnot
        cases hnot
      · obtain ⟨rest, hrest⟩ := Text.startsWith_iff.mp hstop
        rw [blockComment_eq, hrest, Text.after?_eq_some_iff.mpr rfl] at hblock
        cases hblock
  · rintro ⟨hline, hblock⟩
    refine Option.or_eq_none_iff.mpr ⟨?_, ?_⟩
    · cases h : lineComment t with
      | none => rfl
      | some found =>
          obtain ⟨u, rfl, -⟩ := lineComment_eq_some h
          exact absurd rfl (hline u)
    · cases h : blockComment t with
      | none => rfl
      | some found =>
          obtain ⟨u, rfl, hend, -⟩ := blockComment_eq_some h
          have happend := Text.breakAt_append (Text.startsWith ['*', '/']) u
          rw [hend] at happend
          exact absurd (by rw [happend]) (hblock _ _)

/-- How a piece without templates is read: as a comment, as a string, or as one character. -/
inductive Inert.Kind (after t : Text) : Prop where
  | comment (h : Lexeme.comment (t ++ after) = some (t, after))
  | string (hcomment : Lexeme.comment (t ++ after) = none)
      (h : Lexeme.string (t ++ after) = some (t, after))
  | char {c : Char} (heq : t = [c]) (hc : isPlain c = true)
      (hcomment : Lexeme.comment (c :: after) = none)

theorem stringIn_append {quote : Char} (hquote : quote = '"' ∨ quote = '\x27') {body : Text}
    (h : Escapes (fun c _ => c ≠ quote ∧ isLineBreak c = false) body) (rest : Text) :
    stringIn quote (quote :: (body ++ quote :: rest))
      = some (quote :: (body ++ [quote]), rest) := by
  have hbackslash : quote ≠ '\\' := by
    rcases hquote with rfl | rfl <;> decide
  simp [stringIn, stringBody_of_escapes hbackslash h]

theorem string_append {quote : Char} (hquote : quote = '"' ∨ quote = '\x27') {body : Text}
    (h : Escapes (fun c _ => c ≠ quote ∧ isLineBreak c = false) body) (rest : Text) :
    string (quote :: (body ++ quote :: rest)) = some (quote :: (body ++ [quote]), rest) := by
  have hread := stringIn_append hquote h rest
  rcases hquote with rfl | rfl
  · rw [string, hread]
    rfl
  · have hother : stringIn '"' ('\x27' :: (body ++ '\x27' :: rest)) = none := by simp [stringIn]
    rw [string, hread, hother]
    rfl

end Lexeme

/-- A string with its quotes. -/
inductive IsQuoted : Text → Prop where
  | intro {quote : Char} {body : Text} (hquote : quote = '"' ∨ quote = '\x27')
      (hbody : Escapes (fun c _ => c ≠ quote ∧ isLineBreak c = false) body) :
      IsQuoted (quote :: (body ++ [quote]))

theorem IsQuoted.read {s : Text} (h : IsQuoted s) (rest : Text) :
    Lexeme.string (s ++ rest) = some (s, rest) := by
  obtain ⟨hquote, hbody⟩ := h
  rw [List.cons_append, List.append_assoc, List.singleton_append]
  exact string_append hquote hbody rest

theorem isQuoted_of_string {t s rest : Text} (h : Lexeme.string t = some (s, rest)) :
    IsQuoted s := by
  have hquoted {quote : Char} (hquote : quote = '"' ∨ quote = '\x27')
      (h : stringIn quote t = some (s, rest)) : IsQuoted s := by
    obtain ⟨u, -, hend, rfl⟩ := stringIn_eq_some h
    refine .intro hquote (escapes_stringBody ?_)
    rw [hend]
    exact List.cons_ne_nil _ _
  rcases Option.or_eq_some_iff.mp h with h | ⟨-, h⟩
  · exact hquoted (.inl rfl) h
  · exact hquoted (.inr rfl) h

theorem IsQuoted.comment {s : Text} (h : IsQuoted s) (rest : Text) :
    Lexeme.comment (s ++ rest) = none := by
  obtain ⟨hquote, -⟩ := h
  refine comment_eq_none ?_ _
  rcases hquote with rfl | rfl <;> decide

theorem SpellsModule.isQuoted {name s : Text} (h : SpellsModule name s) : IsQuoted s := by
  obtain ⟨hquote, hname⟩ := h
  refine .intro hquote ?_
  rw [← List.append_nil name]
  refine escapes_append (fun c hc => ?_) .nil
  exact ⟨(hname c hc).2.1, fun _ => ⟨(hname c hc).1, (hname c hc).2.2⟩⟩

/-- The two kinds of comments. -/
inductive Lexeme.IsComment (rest : Text) : Text → Prop where
  | line {body : Text} (hbody : ∀ c ∈ body, isLineBreak c = false)
      (hend : ∀ c ∈ rest.head?, isLineBreak c = true) : IsComment rest ('/' :: '/' :: body)
  | block {body : Text}
      (hclose : ∀ before more, body ++ ['*', '/'] = before ++ '*' :: '/' :: more → more = []) :
      IsComment rest ('/' :: '*' :: (body ++ ['*', '/']))

theorem Lexeme.comment_eq_some_iff {t taken rest : Text} :
    comment t = some (taken, rest) ↔ t = taken ++ rest ∧ IsComment rest taken := by
  constructor
  · intro h
    have hsplits := splits_comment _ _ _ h
    rw [hsplits] at h
    refine ⟨hsplits, ?_⟩
    cases inert_comment h with
    | lineComment hbody hend => exact .line hbody hend
    | blockComment hclose => exact .block hclose
    | @string quote body hquote _ _ =>
        have hslash : quote ≠ '/' := by
          rcases hquote with rfl | rfl <;> decide
        rw [List.cons_append, comment_eq_none hslash] at h
        cases h
    | char _ hcomment =>
        rw [List.singleton_append, hcomment] at h
        cases h
  · rintro ⟨rfl, h⟩
    cases h with
    | line hbody hend =>
        rw [List.cons_append, List.cons_append, comment, lineComment_append hbody hend]
        rfl
    | block hclose =>
        have hread := blockComment_append hclose rest
        simp only [List.cons_append, List.append_assoc, List.nil_append]
        rw [comment, hread]
        rfl

theorem Inert.kind {after t : Text} (h : Inert after t) : Inert.Kind after t := by
  cases h with
  | lineComment hbody hend => exact .comment (comment_eq_some_iff.mpr ⟨rfl, .line hbody hend⟩)
  | blockComment hend => exact .comment (comment_eq_some_iff.mpr ⟨rfl, .block hend⟩)
  | @string quote body hquote hbody hlast =>
      have hescapes : Escapes (fun c _ => c ≠ quote ∧ isLineBreak c = false) body := by
        refine .of_isEscaped (fun before c rest heq _ hnot => hbody before c rest heq ?_) hlast
        by_contra hc
        rw [not_or] at hc
        exact hnot ⟨hc.1, Bool.eq_false_iff.mpr hc.2⟩
      have hquoted : IsQuoted (quote :: (body ++ [quote])) := .intro hquote hescapes
      exact .string (hquoted.comment after) (hquoted.read after)
  | char hc hcomment => exact .char rfl hc hcomment

/-- What ends a static part of a template: a backquote or a substitution. -/
def EndsQuasi (rest : Text) : Prop := (∃ t, rest = '\x60' :: t) ∨ ∃ t, rest = '$' :: '\x7b' :: t

/-- A static part is read up to what ends it. -/
theorem templateChars_append_of_isQuasi {t rest : Text} (ht : IsQuasi t) (hrest : EndsQuasi rest) :
    templateChars (t ++ rest) = (t, rest) := by
  have hcons {c : Char} {u : Text} (hc : c ≠ '\\') (hopen : ¬(c = '$' ∧ u.head? = some '\x7b')) :
      templateChars (c :: u) = if c == '\x60' then ([], c :: u)
        else (c :: (templateChars u).1, (templateChars u).2) := by
    rw [templateChars]
    · exact fun _ _ heq _ => hc heq
    · rintro v rfl rfl
      exact hopen ⟨rfl, rfl⟩
  have hescapes :
      Escapes (fun c after => c ≠ '\x60' ∧ ¬(c = '$' ∧ after.head? = some '\x7b')) t := by
    refine .of_isEscaped (fun before c after heq _ hnot => ?_) ht.backslash
    by_cases hc : c = '\x60'
    · exact ht.backquote before after (by rw [heq, hc])
    · obtain ⟨rfl, hhead⟩ : c = '$' ∧ after.head? = some '\x7b' := by
        by_contra hopen
        exact hnot ⟨hc, hopen⟩
      obtain ⟨more, rfl⟩ := List.head?_eq_some_iff.mp hhead
      exact ht.substitution before more heq
  clear ht
  induction hescapes with
  | nil =>
      rcases hrest with ⟨u, rfl⟩ | ⟨u, rfl⟩
      · rfl
      · rfl
  | pair c _ ih => simp [templateChars, ih]
  | @single c t hc hplain _ ih =>
      have hopen : ¬(c = '$' ∧ (t ++ rest).head? = some '\x7b') := by
        rintro ⟨rfl, hhead⟩
        cases t with
        | nil =>
            rcases hrest with ⟨u, rfl⟩ | ⟨u, rfl⟩
            all_goals exact absurd (Option.some.inj hhead) (by decide)
        | cons d t => exact hplain.2 ⟨rfl, hhead⟩
      rw [List.cons_append, hcons hc hopen, ih]
      simp [hplain.1]

/-! ## Balanced code -/

/-- Where a text stands: it is code, possibly in braces, or it is between the backquotes of a
template. -/
inductive Context where
  | code (inBraces : Bool)
  | template

/-- All quotes and backquotes of a text have their partners, and in braces all braces do, where
`after` follows the text. -/
inductive Balanced : Context → Text → Text → Prop where
  | nil {inBraces : Bool} {after : Text} : Balanced (.code inBraces) [] after
  | inert {inBraces : Bool} {piece rest after : Text} (hpiece : Inert (rest ++ after) piece)
      (hbraces : inBraces = true → piece ≠ ['\x7b'] ∧ piece ≠ ['\x7d'])
      (hrest : Balanced (.code inBraces) rest after) :
      Balanced (.code inBraces) (piece ++ rest) after
  | braces {block rest after : Text}
      (hblock : Balanced (.code true) block ('\x7d' :: (rest ++ after)))
      (hrest : Balanced (.code true) rest after) :
      Balanced (.code true) ('\x7b' :: (block ++ '\x7d' :: rest)) after
  | template {inBraces : Bool} {body rest after : Text}
      (hbody : Balanced .template body ('\x60' :: (rest ++ after)))
      (hrest : Balanced (.code inBraces) rest after) :
      Balanced (.code inBraces) ('\x60' :: (body ++ '\x60' :: rest)) after
  | quasi {t after : Text} (ht : IsQuasi t) : Balanced .template t after
  | substitution {t expression rest after : Text} (ht : IsQuasi t)
      (hexpression : Balanced (.code true) expression ('\x7d' :: (rest ++ after)))
      (hrest : Balanced .template rest after) :
      Balanced .template (t ++ '$' :: '\x7b' :: (expression ++ '\x7d' :: rest)) after

/-! ## What follows -/

/-- The second text can stand behind code in place of the first: comments end and begin there as
before. -/
structure Replaces (after after' : Text) : Prop where
  lineEnd : (∀ c ∈ after.head?, isLineBreak c = true) → ∀ c ∈ after'.head?, isLineBreak c = true
  comment : ∀ c t, Lexeme.comment (c :: (t ++ after)) = none →
    Lexeme.comment (c :: (t ++ after')) = none

namespace Replaces

variable {after after' : Text}

theorem refl : Replaces after after := ⟨fun h => h, fun _ _ h => h⟩

theorem append (h : Replaces after after') (s : Text) : Replaces (s ++ after) (s ++ after') where
  lineEnd := by
    cases s with
    | nil => exact h.lineEnd
    | cons c s => exact fun hend => hend
  comment := by
    intro c t hnone
    rw [← List.append_assoc] at hnone ⊢
    exact h.comment c (t ++ s) hnone

theorem cons (h : Replaces after after') (c : Char) : Replaces (c :: after) (c :: after') :=
  h.append [c]

/-- Nothing is lost if the code ends in front of a brace. -/
theorem nil (rest : Text) : Replaces ('\x7d' :: rest) [] where
  lineEnd := fun _ _ hc => absurd hc (by simp)
  comment := by
    intro c t hnone
    rw [comment_eq_none_iff] at hnone ⊢
    rw [List.append_nil]
    refine ⟨fun u heq => hnone.1 (u ++ '\x7d' :: rest) ?_, fun before more heq => ?_⟩
    · rw [← List.cons_append, heq]
      rfl
    · refine hnone.2 before (more ++ '\x7d' :: rest) ?_
      rw [← List.cons_append, heq]
      simp

end Replaces

theorem Inert.replace {after after' t : Text} (h : Inert after t)
    (hreplaces : Replaces after after') : Inert after' t := by
  cases h with
  | lineComment hbody hend => exact .lineComment hbody (hreplaces.lineEnd hend)
  | blockComment hend => exact .blockComment hend
  | string hquote hbody hlast => exact .string hquote hbody hlast
  | char hc hcomment => exact .char hc (hreplaces.comment _ [] hcomment)

namespace Balanced

variable {context : Context} {inBraces : Bool} {s t after after' : Text}

theorem replace (h : Balanced context t after) (hreplaces : Replaces after after') :
    Balanced context t after' := by
  induction h generalizing after' with
  | nil => exact .nil
  | inert hpiece hbraces _ ih =>
      exact .inert (hpiece.replace (hreplaces.append _)) hbraces (ih hreplaces)
  | braces _ _ ihblock ihrest =>
      exact .braces (ihblock ((hreplaces.append _).cons _)) (ihrest hreplaces)
  | template _ _ ihbody ihrest =>
      exact .template (ihbody ((hreplaces.append _).cons _)) (ihrest hreplaces)
  | quasi ht => exact .quasi ht
  | substitution ht _ _ ihexpression ihrest =>
      exact .substitution ht (ihexpression ((hreplaces.append _).cons _)) (ihrest hreplaces)

theorem append (hs : Balanced (.code inBraces) s (t ++ after))
    (ht : Balanced (.code inBraces) t after) : Balanced (.code inBraces) (s ++ t) after := by
  generalize hcontext : Context.code inBraces = context at hs
  generalize hafter : t ++ after = u at hs
  induction hs with
  | nil =>
      cases hcontext
      exact ht
  | inert hpiece hbraces _ ih =>
      cases hcontext
      subst hafter
      rw [List.append_assoc]
      exact .inert (by rwa [List.append_assoc]) hbraces (ih rfl rfl)
  | braces hblock _ _ ih =>
      cases hcontext
      subst hafter
      rw [List.cons_append, List.append_assoc, List.cons_append]
      exact .braces (by rwa [List.append_assoc]) (ih rfl rfl)
  | template hbody _ _ ih =>
      cases hcontext
      subst hafter
      rw [List.cons_append, List.append_assoc, List.cons_append]
      exact .template (by rwa [List.append_assoc]) (ih rfl rfl)
  | quasi _ => cases hcontext
  | substitution _ _ _ _ _ => cases hcontext

/-- Braces are characters like others outside of braces. -/
theorem outside (h : Balanced (.code true) t after) : Balanced (.code false) t after := by
  generalize hcontext : Context.code true = context at h
  induction h with
  | nil => exact .nil
  | inert hpiece _ _ ih => exact .inert hpiece (fun hfalse => by cases hfalse) (ih hcontext)
  | @braces block rest after _ _ ihblock ihrest =>
      have hopen : Inert (block ++ '\x7d' :: rest ++ after) ['\x7b'] :=
        .char (by decide) (comment_eq_none (by decide) _)
      have hclose : Inert (rest ++ after) ['\x7d'] :=
        .char (by decide) (comment_eq_none (by decide) _)
      refine .inert hopen (fun hfalse => by cases hfalse) (append (by simpa using ihblock rfl) ?_)
      exact .inert hclose (fun hfalse => by cases hfalse) (ihrest rfl)
  | template hbody _ _ ih => exact .template hbody (ih (by cases hcontext; rfl))
  | quasi _ => cases hcontext
  | substitution _ _ _ _ _ => cases hcontext

end Balanced

/-! ## Balanced code is read back -/

namespace Lexeme

theorem string_eq_none_of_isPlain {c : Char} (hc : isPlain c = true) (t : Text) :
    string (c :: t) = none := by
  have hquotes : (c ≠ '\x60' ∧ c ≠ '"') ∧ c ≠ '\x27' := by simpa [isPlain] using hc
  exact string_eq_none hquotes.1.2 hquotes.2 t

theorem templateText_eq_none {inner : Text → Text × Text} {c : Char} (hc : c ≠ '\x60') (t : Text) :
    templateText inner (c :: t) = none := by
  unfold templateText
  split
  · next heq => exact absurd (List.cons.inj heq).1 hc
  · rfl

theorem braces_eq_none {inner : Text → Text × Text} {c : Char} (hc : c ≠ '\x7b') (t : Text) :
    braces inner (c :: t) = none := by
  unfold braces
  split
  · next heq => exact absurd (List.cons.inj heq).1 hc
  · rfl

theorem expressionPart_closing (inner : Text → Text × Text) (t : Text) :
    expressionPart inner ('\x7d' :: t) = none := by
  rw [expressionPart, comment_eq_none (by decide), templateText_eq_none (by decide),
    string_eq_none (by decide) (by decide), braces_eq_none (by decide)]
  rfl

theorem expressionPart_inert {inner : Text → Text × Text} {piece rest : Text} (h : Inert rest piece)
    (hbraces : piece ≠ ['\x7b'] ∧ piece ≠ ['\x7d']) :
    expressionPart inner (piece ++ rest) = some (piece, rest) := by
  cases h.kind with
  | comment h =>
      rw [expressionPart, h]
      rfl
  | string hcomment hstring =>
      obtain ⟨c, t, rfl, hc⟩ : ∃ c t, piece = c :: t ∧ c ≠ '\x60' := by
        cases h with
        | lineComment _ _ => exact ⟨_, _, rfl, by decide⟩
        | blockComment _ => exact ⟨_, _, rfl, by decide⟩
        | string hquote _ _ =>
            refine ⟨_, _, rfl, ?_⟩
            rcases hquote with rfl | rfl <;> decide
        | char hc _ =>
            refine ⟨_, _, rfl, ?_⟩
            rintro rfl
            exact absurd hc (by decide)
      rw [expressionPart, hcomment, List.cons_append, templateText_eq_none hc, ← List.cons_append,
        hstring]
      rfl
  | @char c heq hc hcomment =>
      subst heq
      have hbackquote : c ≠ '\x60' := by
        rintro rfl
        exact absurd hc (by decide)
      have hopen : c ≠ '\x7b' := fun heq => hbraces.1 (by rw [heq])
      have hclose : c ≠ '\x7d' := fun heq => hbraces.2 (by rw [heq])
      rw [List.cons_append, List.nil_append, expressionPart, hcomment,
        templateText_eq_none hbackquote, string_eq_none_of_isPlain hc, braces_eq_none hopen]
      simp [notClosing, hclose]

theorem expressionPart_braces {inner : Text → Text × Text} {block rest : Text}
    (hinner : inner (block ++ '\x7d' :: rest) = (block, '\x7d' :: rest)) :
    expressionPart inner ('\x7b' :: (block ++ '\x7d' :: rest))
      = some ('\x7b' :: (block ++ ['\x7d']), rest) := by
  have hbraces : braces inner ('\x7b' :: (block ++ '\x7d' :: rest))
      = some ('\x7b' :: (block ++ ['\x7d']), rest) := by
    simp [braces, hinner]
  rw [expressionPart, comment_eq_none (by decide), templateText_eq_none (by decide),
    string_eq_none (by decide) (by decide), hbraces]
  rfl

theorem expressionPart_template {inner : Text → Text × Text} {t body rest : Text}
    (hbody : (templateChars t).1 ++ (templatePieces inner (templateChars t).2.length
      (templateChars t).2).1 = body)
    (hrest : (templatePieces inner (templateChars t).2.length (templateChars t).2).2
      = '\x60' :: rest) :
    expressionPart inner ('\x60' :: t) = some ('\x60' :: (body ++ ['\x60']), rest) := by
  have htext : templateText inner ('\x60' :: t) = some ('\x60' :: (body ++ ['\x60']), rest) := by
    simp only [templateText, hrest, hbody]
  rw [expressionPart, comment_eq_none (by decide), htext]
  rfl

theorem expressionParts_succ {fuel : Nat} {t part rest : Text}
    (h : expressionPart (expressionParts fuel) t = some (part, rest)) :
    expressionParts (fuel + 1) t
      = (part ++ (expressionParts fuel rest).1, (expressionParts fuel rest).2) := by
  rw [expressionParts, h]

theorem templatePieces_backquote (inner : Text → Text × Text) (n : Nat) (t : Text) :
    templatePieces inner n ('\x60' :: t) = ([], '\x60' :: t) := by
  cases n with
  | zero => rfl
  | succ n => rfl

theorem templatePieces_substitution {inner : Text → Text × Text} {expression rest : Text}
    (hinner : inner (expression ++ '\x7d' :: rest) = (expression, '\x7d' :: rest)) (n : Nat) :
    templatePieces inner (n + 1) ('$' :: '\x7b' :: (expression ++ '\x7d' :: rest))
      = ('$' :: '\x7b' :: (expression ++ '\x7d' :: ((templateChars rest).1 ++
          (templatePieces inner n (templateChars rest).2).1)),
        (templatePieces inner n (templateChars rest).2).2) := by
  have hopen : Text.after? "$\x7b".toList ('$' :: '\x7b' :: (expression ++ '\x7d' :: rest))
      = some (expression ++ '\x7d' :: rest) := Text.after?_eq_some_iff.mpr rfl
  rw [templatePieces, hopen]
  simp [hinner]

end Lexeme

/-- What the readers of lexemes make of a text in its place. -/
def Context.Reads : Context → Text → Text → Prop
  | .code false, _, _ => True
  | .code true, t, after => ∀ u fuel, after = '\x7d' :: u → (t ++ after).length ≤ fuel →
      expressionParts fuel (t ++ after) = (t, after)
  | .template, t, after => ∀ u fuel n, after = '\x60' :: u → (t ++ after).length ≤ fuel →
      (templateChars (t ++ after)).2.length ≤ n →
        (templateChars (t ++ after)).1 ++
            (templatePieces (expressionParts fuel) n (templateChars (t ++ after)).2).1 = t ∧
          (templatePieces (expressionParts fuel) n (templateChars (t ++ after)).2).2 = after

theorem Balanced.reads {context : Context} {t after : Text} (h : Balanced context t after) :
    context.Reads t after := by
  induction h with
  | @nil inBraces after =>
      cases inBraces with
      | false => trivial
      | true =>
          rintro u fuel rfl hfuel
          cases fuel with
          | zero => rfl
          | succ fuel => rw [List.nil_append, expressionParts, expressionPart_closing]
  | @inert inBraces piece rest after hpiece hbraces _ ih =>
      cases inBraces with
      | false => trivial
      | true =>
          rintro u fuel rfl hfuel
          have hpos := List.length_pos_iff.mpr hpiece.ne_nil
          obtain ⟨fuel, rfl⟩ : ∃ k, fuel = k + 1 := ⟨fuel - 1, by simp at hfuel; omega⟩
          have hrest := ih u fuel rfl (by simp at hfuel ⊢; omega)
          rw [List.append_assoc, expressionParts_succ (expressionPart_inert hpiece (hbraces rfl)),
            hrest]
  | @braces block rest after _ _ ihblock ihrest =>
      rintro u fuel rfl hfuel
      obtain ⟨fuel, rfl⟩ : ∃ k, fuel = k + 1 := ⟨fuel - 1, by simp at hfuel; omega⟩
      have hblock := ihblock _ fuel rfl (by simp at hfuel ⊢; omega)
      have hrest := ihrest u fuel rfl (by simp at hfuel ⊢; omega)
      rw [List.cons_append, List.append_assoc, List.cons_append,
        expressionParts_succ (expressionPart_braces hblock), hrest]
      simp
  | @template inBraces body rest after _ _ ihbody ihrest =>
      cases inBraces with
      | false => trivial
      | true =>
          rintro u fuel rfl hfuel
          obtain ⟨fuel, rfl⟩ : ∃ k, fuel = k + 1 := ⟨fuel - 1, by simp at hfuel; omega⟩
          obtain ⟨hbody, hend⟩ :=
            ihbody _ fuel _ rfl (by simp at hfuel ⊢; omega) (Nat.le_refl _)
          have hrest := ihrest u fuel rfl (by simp at hfuel ⊢; omega)
          rw [List.cons_append, List.append_assoc, List.cons_append,
            expressionParts_succ (expressionPart_template hbody hend), hrest]
          simp
  | @quasi t after ht =>
      rintro u fuel n rfl hfuel hn
      have hchars := templateChars_append_of_isQuasi ht (.inl ⟨u, rfl⟩)
      rw [hchars, templatePieces_backquote, List.append_nil]
      exact ⟨rfl, rfl⟩
  | @substitution t expression rest after ht _ _ ihexpression ihrest =>
      rintro u fuel n rfl hfuel hn
      have hchars := templateChars_append_of_isQuasi ht
        (.inr ⟨expression ++ '\x7d' :: (rest ++ '\x60' :: u), rfl⟩)
      have htext : t ++ '$' :: '\x7b' :: (expression ++ '\x7d' :: rest) ++ '\x60' :: u
          = t ++ '$' :: '\x7b' :: (expression ++ '\x7d' :: (rest ++ '\x60' :: u)) := by
        simp
      rw [htext] at hfuel hn ⊢
      rw [hchars] at hn ⊢
      obtain ⟨n, rfl⟩ : ∃ k, n = k + 1 := ⟨n - 1, by simp at hn; omega⟩
      have hexpression := ihexpression _ fuel rfl (by simp at hfuel ⊢; omega)
      have hsuffix := congrArg List.length (templateChars_append (rest ++ '\x60' :: u))
      obtain ⟨hbody, hend⟩ := ihrest u fuel n rfl (by simp at hfuel ⊢; omega)
        (by simp at hn hsuffix; omega)
      rw [templatePieces_substitution hexpression]
      refine ⟨?_, hend⟩
      rw [hbody]

end Script
end Hypertext

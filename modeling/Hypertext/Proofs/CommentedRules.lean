import Hypertext.Proofs.Agreement
import Hypertext.Proofs.Remarks

set_option autoImplicit false

/-! # Rules in front of a comment

Every rule of the scanner reads the same in front of a line break and in front of a comment and a
line break, where `Meets` says which places of the two scripts belong together. The one exception is
a declaration with `require`: it looks ahead for the end of its line and does not find it behind a
comment (`Rule.agreesAt_requireDeclaration`).
-/

namespace Hypertext
namespace Script

open Lexeme

variable {c : Text}

/-! ## Places in both scripts -/

/-- A place in a script that ends with a line break, and the same place with a comment in front of
the line break. Behind the text that both have in common, the one script is at its end and the other
in front of the comment. -/
inductive Meets (c : Text) : Cursor → Cursor → Prop where
  | before {offset : Nat} {x : Text} (h : Fits c x) :
      Meets c ⟨offset, x ++ ['\n']⟩ ⟨offset, x ++ ' ' :: remark c⟩
  | behind {offset : Nat} : Meets c ⟨offset, []⟩ ⟨offset, remark c⟩

namespace Rule

theorem agrees_offset : Agrees (Meets c) Eq Rule.offset Rule.offset := by
  refine .offset fun left right hplace => ?_
  cases hplace <;> rfl

/-! ## Words and blanks -/

/-- Characters that are neither blanks nor begin anything. -/
def isSolid (d : Char) : Bool := isQuiet d && !isSpace d

/-- A text without blanks in it ends in front of a blank. -/
theorem within_of_not_space {s rest x t : Text} {b : Char} (hs : ∀ d ∈ s, isSpace d = false)
    (hb : isSpace b = true) (h : x ++ b :: t = s ++ rest) : ∃ y, x = s ++ y := by
  rcases List.append_eq_append_iff.mp h with ⟨y, hy, htail⟩ | ⟨y, hy, -⟩
  · cases y with
    | nil => exact ⟨[], by rw [hy, List.append_nil, List.append_nil]⟩
    | cons d y =>
        obtain ⟨rfl, -⟩ := List.cons.inj htail
        have hnot := hs b (hy ▸ List.mem_append_right _ List.mem_cons_self)
        rw [hb] at hnot
        cases hnot
  · exact ⟨y, hy⟩

theorem agrees_exactly {s : String} (hs : s.toList.all isSolid = true) (hne : s.toList ≠ []) :
    Agrees (Meets c) (fun _ _ => True) (exactly s) (exactly s) := by
  have hquiet : ∀ d ∈ s.toList, isQuiet d = true := fun d hd =>
    (Bool.and_eq_true_iff.mp (List.all_eq_true.mp hs d hd)).1
  have hspace : ∀ d ∈ s.toList, isSpace d = false := fun d hd => by
    simpa using (Bool.and_eq_true_iff.mp (List.all_eq_true.mp hs d hd)).2
  have hreads (offset : Nat) (y t : Text) : (exactly s).Reads ⟨offset, s.toList ++ y ++ t⟩ s.toList
      ⟨offset + Text.byteSize s.toList, y ++ t⟩ :=
    lexeme_reads (exactly_eq_some_iff.mpr ⟨rfl, List.append_assoc _ _ _⟩)
  rintro _ _ (⟨h⟩ | _)
  · rename_i offset x
    by_cases hstart : ∃ y, x = s.toList ++ y
    · obtain ⟨y, rfl⟩ := hstart
      exact .of_reads (hreads _ _ _) (hreads _ _ _) trivial (.before (h.skips (Whole.quiet hquiet)))
    · -- the word has no blanks, so it does not go on in either of the ends
      refine .of_fails (result_eq_none fun t next hread => hstart ?_)
        (result_eq_none fun t next hread => hstart ?_)
      · have hbreak : isSpace '\n' = true := by decide
        exact within_of_not_space hspace hbreak (exactly_spec hread).2.rest
      · have hblank : isSpace ' ' = true := by decide
        exact within_of_not_space hspace hblank (exactly_spec hread).2.rest
  · refine .of_fails (result_eq_none fun t next hread => ?_) (result_eq_none fun t next hread => ?_)
    · have hrest : [] = s.toList ++ next.rest := (exactly_spec hread).2.rest
      exact hne (List.append_eq_nil_iff.mp hrest.symm).1
    · have hrest : remark c = s.toList ++ next.rest := (exactly_spec hread).2.rest
      cases htext : s.toList with
      | nil => exact hne htext
      | cons d t =>
          rw [htext] at hrest hquiet
          obtain ⟨rfl, -⟩ := List.cons.inj hrest
          exact absurd (hquiet '/' List.mem_cons_self) (by decide)

/-- The longest start of a text with characters of a kind. -/
theorem exists_span (p : Char → Bool) (x : Text) :
    ∃ s y, x = s ++ y ∧ (∀ d ∈ s, p d = true) ∧ ∀ d ∈ y.head?, p d = false := by
  refine ⟨x.takeWhile p, x.dropWhile p, List.takeWhile_append_dropWhile.symm,
    fun d hd => List.mem_takeWhile_imp hd, fun d hd => ?_⟩
  have hnot := List.head?_dropWhile_not p x
  rw [Option.mem_def.mp hd] at hnot
  simpa using hnot

/-- Blanks go on with the line break in the one script, and with the blank before the comment in the
other. -/
theorem agrees_spaces : Agrees (Meets c) (fun s t => s = [] ↔ t = []) spaces spaces := by
  rintro _ _ (⟨h⟩ | _)
  · rename_i offset x
    obtain ⟨s, y, rfl, hs, hhead⟩ := exists_span isSpace x
    cases y with
    | nil =>
        -- the line break and the blank have the same size
        have hleft : spaces.Reads ⟨offset, s ++ ['\n'] ++ []⟩ (s ++ ['\n'])
            ⟨offset + Text.byteSize (s ++ ['\n']), []⟩ := by
          refine run_reads (List.forall_mem_append.mpr ⟨hs, List.forall_mem_singleton.mpr rfl⟩) ?_
          exact fun d hd => nomatch hd
        have hright : spaces.Reads ⟨offset, s ++ [' '] ++ remark c⟩ (s ++ [' '])
            ⟨offset + Text.byteSize (s ++ [' ']), remark c⟩ := by
          refine run_reads (List.forall_mem_append.mpr ⟨hs, List.forall_mem_singleton.mpr rfl⟩) ?_
          rintro d ⟨⟩
          decide
        have hsize : Text.byteSize (s ++ [' ']) = Text.byteSize (s ++ ['\n']) := by
          rw [Text.byteSize_append, Text.byteSize_append]
          rfl
        rw [List.append_nil] at hleft ⊢
        rw [hsize, List.append_assoc, List.singleton_append] at hright
        exact .of_reads hleft hright (by simp) .behind
    | cons d y =>
        rw [List.append_assoc, List.append_assoc]
        exact .of_reads (run_reads hs hhead) (run_reads hs hhead) Iff.rfl
          (.before (h.skips (IsSpaces.whole hs)))
  · exact .of_reads (lexeme_reads rfl) (lexeme_reads rfl) Iff.rfl .behind

theorem reads_spaces1 {cursor next : Cursor} {t : Text} :
    spaces1.Reads cursor t next ↔ spaces.Reads cursor t next ∧ t ≠ [] := by
  rw [spaces1, spaces, reads_lexeme, reads_lexeme, run1]
  constructor
  · rintro ⟨h, hoffset⟩
    split at h
    · cases h
    · next hne =>
        refine ⟨⟨h, hoffset⟩, ?_⟩
        rintro rfl
        exact hne (List.isEmpty_iff.mpr (Prod.mk.inj (Option.some.inj h)).1)
  · rintro ⟨⟨h, hoffset⟩, hne⟩
    refine ⟨?_, hoffset⟩
    rw [if_neg, h]
    rw [(Prod.mk.inj (Option.some.inj h)).1, List.isEmpty_iff]
    exact hne

theorem agrees_spaces1 : Agrees (Meets c) (fun _ _ => True) spaces1 spaces1 := by
  intro left right hplace
  have hspaces := agrees_spaces left right hplace
  refine .of_forall (fun s next hreads => ?_) fun t next' hreads => ?_
  · obtain ⟨hleft, hne⟩ := reads_spaces1.mp hreads
    obtain ⟨t, next', hright, hiff, hplace⟩ := hspaces.reads hleft
    exact ⟨t, next', reads_spaces1.mpr ⟨hright, hne ∘ hiff.mpr⟩, trivial, hplace⟩
  · obtain ⟨hright, hne⟩ := reads_spaces1.mp hreads
    have hleft : spaces.Reads left _ _ := lexeme_reads rfl
    obtain ⟨t', _, hright', hiff, -⟩ := hspaces.reads hleft
    obtain ⟨rfl, -⟩ := hright.unique hright'
    exact ⟨_, _, reads_spaces1.mpr ⟨hleft, hne ∘ hiff.mp⟩⟩

theorem agrees_identifier : Agrees (Meets c) Eq identifier identifier := by
  refine .named _ ?_
  rintro _ _ (⟨h⟩ | _)
  · rename_i offset x
    cases x with
    | nil => exact .of_fails rfl rfl
    | cons d x =>
        by_cases hd : isWordStart d = true
        · obtain ⟨s, y, rfl, hs, hhead⟩ := exists_span isWordPart x
          have hword : IsWord (d :: s) := .intro hd hs
          have hend {b : Char} (hb : isWordPart b = false) (t : Text) : WordEnds (y ++ b :: t) := by
            cases y with
            | nil => exact .cons hb t
            | cons e y => exact .cons (hhead e rfl) _
          rw [← List.cons_append] at h ⊢
          rw [List.append_assoc, List.append_assoc]
          exact .of_reads (lexeme_reads (word_append hword (hend (by decide) _)))
            (lexeme_reads (word_append hword (hend (by decide) _))) rfl
            (.before (h.skips hword.whole))
        · rw [Bool.not_eq_true] at hd
          exact .of_fails (lexeme_fails (word_eq_none hd _)) (lexeme_fails (word_eq_none hd _))
  · exact .of_fails rfl rfl

/-! ## Strings and names of modules -/

/-- A rule for strings reads the same in both scripts. -/
theorem agrees_quoted {α : Type} {p : Rule α} (hc : IsRemark c)
    (hp : ∀ cursor a next, p.Reads cursor a next → ∃ s, IsQuoted s ∧ cursor.Advances s next ∧
      ∀ offset rest, p.Reads ⟨offset, s ++ rest⟩ a ⟨offset + s.byteSize, rest⟩) :
    Agrees (Meets c) Eq p p := by
  have hfails {offset : Nat} {t : Text} (ht : Lexeme.string t = none) :
      (p ⟨offset, t⟩).result = none := by
    refine result_eq_none fun a next hreads => ?_
    obtain ⟨s, hs, hadvances, -⟩ := hp _ _ _ hreads
    have hrest : t = s ++ next.rest := hadvances.rest
    rw [hrest, hs.read] at ht
    cases ht
  rintro _ _ (⟨h⟩ | _)
  · rename_i offset x
    refine .of_forall (fun a next hreads => ?_) fun a next hreads => ?_
    · obtain ⟨s, hs, hadvances, hagain⟩ := hp _ _ _ hreads
      obtain ⟨y, rfl, -⟩ := hs.within isTail_lineBreak hadvances.rest
      rw [List.append_assoc] at hreads ⊢
      obtain ⟨-, rfl⟩ := hreads.unique (hagain _ _)
      exact ⟨a, _, hagain _ _, rfl, .before (h.skips hs.whole)⟩
    · obtain ⟨s, hs, hadvances, hagain⟩ := hp _ _ _ hreads
      obtain ⟨y, rfl⟩ := h.within hc hs hadvances.rest
      rw [List.append_assoc]
      exact ⟨a, _, hagain _ _⟩
  · exact .of_fails (hfails rfl) (hfails (string_eq_none (by decide) (by decide) _))

theorem agrees_string (hc : IsRemark c) :
    Agrees (Meets c) Eq (lexeme Lexeme.string) (lexeme Lexeme.string) := by
  refine agrees_quoted hc fun cursor s next hreads => ?_
  have hs := isQuoted_of_string (reads_lexeme.mp hreads).1
  exact ⟨s, hs, advances_lexeme splits_string hreads, fun _ _ => lexeme_reads (hs.read _)⟩

theorem moduleName_reads {name quoted rest : Text} {offset : Nat} (h : SpellsModule name quoted) :
    moduleName.Reads ⟨offset, quoted ++ rest⟩ name ⟨offset + quoted.byteSize, rest⟩ := by
  obtain ⟨hquote, hname⟩ := h
  rename_i quote
  have hbody : (lexeme (moduleText quote)).Reads ⟨offset + 1, name ++ quote :: rest⟩ name
      ⟨offset + 1 + name.byteSize, quote :: rest⟩ := by
    refine run_reads (fun d hd => ?_) ?_
    · simp [hname d hd]
    · rintro d ⟨⟩
      simp
  have hsize : Text.byteSize (quote :: (name ++ [quote])) = 1 + name.byteSize + 1 := by
    have hone : quote.utf8Size = 1 := by
      rcases hquote with rfl | rfl <;> rfl
    simp only [Text.byteSize_cons, Text.byteSize_append, Text.byteSize_nil, hone]
    omega
  rw [List.cons_append, List.append_assoc, List.singleton_append, hsize, ← Nat.add_assoc,
    ← Nat.add_assoc]
  simp only [moduleName, reads_orElse, reads_bind, reads_pure]
  rcases hquote with rfl | rfl
  · exact .inl ⟨_, ⟨offset + 1, _⟩, rfl, _, _, hbody, _, _, rfl, rfl, rfl⟩
  · exact .inr ⟨rfl, _, ⟨offset + 1, _⟩, rfl, _, _, hbody, _, _, rfl, rfl, rfl⟩

theorem agrees_moduleName (hc : IsRemark c) : Agrees (Meets c) Eq moduleName moduleName := by
  refine agrees_quoted hc fun cursor name next hreads => ?_
  obtain ⟨quoted, hadvances, hquoted⟩ := moduleName_spec hreads
  exact ⟨quoted, hquoted.isQuoted, hadvances, fun _ _ => moduleName_reads hquoted⟩

/-! ## Declarations with `import` -/

theorem isInlineBlank_concat {blanks : Text} (h : ∀ d ∈ blanks, isInlineBlank d = true) :
    ∀ d ∈ blanks ++ [' '], isInlineBlank d = true :=
  List.forall_mem_append.mpr ⟨h, List.forall_mem_singleton.mpr rfl⟩

/-- Blanks within the line and a semicolon. -/
def semicolon : Rule Text := do
  let _ ← inlineBlanks
  exactly ";"

theorem semicolon_reads {blanks t : Text} {offset : Nat}
    (hblanks : ∀ d ∈ blanks, isInlineBlank d = true) :
    semicolon.Reads ⟨offset, blanks ++ ';' :: t⟩ [';'] ⟨offset + blanks.byteSize + 1, t⟩ := by
  refine reads_bind.mpr ⟨blanks, _, run_reads hblanks ?_, rfl⟩
  rintro d ⟨⟩
  decide

theorem semicolon_fails {blanks rest : Text} {offset : Nat}
    (hblanks : ∀ d ∈ blanks, isInlineBlank d = true)
    (hrest : ∀ d ∈ rest.head?, isInlineBlank d = false ∧ d ≠ ';') :
    (semicolon ⟨offset, blanks ++ rest⟩).result = none := by
  refine result_eq_none fun u next hreads => ?_
  obtain ⟨s, middle, hs, hsemicolon⟩ := reads_bind.mp hreads
  obtain ⟨rfl, rfl⟩ := hs.unique (run_reads hblanks fun d hd => (hrest d hd).1)
  have hsplits : rest = ';' :: next.rest := (exactly_spec hsemicolon).2.rest
  rw [hsplits] at hrest
  exact (hrest ';' rfl).2 rfl

theorem agrees_statementEnd : Agrees (Meets c) Eq statementEnd statementEnd := by
  intro left right hplace
  refine .maybe (p := semicolon) (q := semicolon) (S := fun _ _ => True) ?_ hplace
  obtain ⟨h⟩ | _ := hplace
  · rename_i offset x
    obtain ⟨blanks, y, rfl, hblanks, hhead⟩ := exists_span isInlineBlank x
    cases y with
    | nil =>
        -- behind the blanks stands the line break or the comment
        rw [List.append_nil]
        refine .of_fails (semicolon_fails hblanks ?_) ?_
        · rintro d ⟨⟩
          decide
        · rw [← List.singleton_append, ← List.append_assoc]
          refine semicolon_fails (isInlineBlank_concat hblanks) ?_
          rintro d ⟨⟩
          decide
    | cons d y =>
        by_cases hd : d = ';'
        · subst hd
          rw [List.append_assoc, List.append_assoc, List.cons_append, List.cons_append]
          refine .of_reads (semicolon_reads hblanks) (semicolon_reads hblanks) trivial (.before ?_)
          have hsplit : blanks ++ ';' :: y = blanks ++ [';'] ++ y := by simp
          rw [hsplit] at h
          exact h.skips (IsStatementEnd.semicolon hblanks).whole
        · rw [List.append_assoc, List.append_assoc]
          refine .of_fails (semicolon_fails hblanks ?_) (semicolon_fails hblanks ?_)
          all_goals
            rintro e ⟨⟩
            exact ⟨hhead d rfl, hd⟩
  · have hnone : ∀ d ∈ ([] : Text), isInlineBlank d = true := fun _ hd => nomatch hd
    refine .of_fails rfl (semicolon_fails hnone ?_)
    rintro d ⟨⟩
    decide

theorem agrees_importDeclaration (hc : IsRemark c) :
    Agrees (Meets c) Eq importDeclaration importDeclaration := by
  refine .named _ <| .bind agrees_offset ?_
  rintro start _ rfl
  refine .bind (agrees_exactly (by decide) (by decide)) fun _ _ _ =>
    .bind agrees_spaces1 fun _ _ _ => .bind agrees_identifier ?_
  rintro name _ rfl
  refine .bind agrees_spaces1 fun _ _ _ =>
    .bind (agrees_exactly (by decide) (by decide)) fun _ _ _ =>
    .bind agrees_spaces fun _ _ _ => .bind (agrees_moduleName hc) ?_
  rintro source _ rfl
  refine .bind agrees_statementEnd fun _ _ _ => .bind agrees_offset ?_
  rintro stop _ rfl
  exact .pure rfl

theorem agrees_requireCall (hc : IsRemark c) : Agrees (Meets c) Eq requireCall requireCall := by
  refine .named _ <| .bind (agrees_exactly (by decide) (by decide)) fun _ _ _ =>
    .bind agrees_spaces fun _ _ _ =>
    .bind (agrees_exactly (by decide) (by decide)) fun _ _ _ =>
    .bind agrees_spaces fun _ _ _ => .bind (agrees_moduleName hc) ?_
  rintro source _ rfl
  exact .bind agrees_spaces fun _ _ _ =>
    .bind (agrees_exactly (by decide) (by decide)) fun _ _ _ => .pure rfl

theorem agrees_moreDeclarators : Agrees (Meets c) Eq moreDeclarators moreDeclarators :=
  .named _ <| .bind agrees_spaces fun _ _ _ =>
    .bind (agrees_exactly (by decide) (by decide)) fun _ _ _ =>
    .bind agrees_spaces fun _ _ _ => .pure rfl

/-! ## Templates -/

theorem template_fails {offset : Nat} {t : Text} (ht : ∀ u, t ≠ '\x60' :: u) :
    (template ⟨offset, t⟩).result = none := by
  refine result_eq_none fun literal next hreads => ?_
  obtain ⟨u, hu⟩ := template_ticks hreads
  exact ht u hu

/-- If all quotes have their partners, a backquote begins the same template in both scripts. -/
theorem agreesAt_template_of_balanced (hc : IsRemark c) {offset : Nat} {t : Text}
    (h : Balanced (.code false) ('\x60' :: (t ++ ['\n'])) []) :
    AgreesAt (Meets c) Eq template template ⟨offset, '\x60' :: t ++ ['\n']⟩
      ⟨offset, '\x60' :: t ++ ' ' :: remark c⟩ := by
  obtain ⟨body, rest, htext, hbody, hrest⟩ := h.of_backquote
  have hsplit : '\x60' :: body ++ ['\x60'] ++ rest = '\x60' :: t ++ ['\n'] := by
    simp [htext]
  obtain ⟨y, rfl, hx⟩ := split_last hsplit (ne_concat_of_last (by decide))
  obtain ⟨literal, hreads⟩ := template_reads hbody offset
  -- what is read depends on the text behind it only by the comments that can begin in it
  have hreplaces : Replaces ('\x60' :: (y ++ ['\n'])) ('\x60' :: (y ++ ' ' :: remark c)) := by
    refine ⟨fun hend => hend, fun d t hnone => ?_⟩
    have hsplit (u : Text) : d :: (t ++ '\x60' :: (y ++ u)) = d :: (t ++ '\x60' :: y) ++ u := by
      simp
    rw [hsplit] at hnone ⊢
    exact comment_commented hc hnone
  have hleft := (hreads _ .refl).1
  have hright := (hreads _ hreplaces).1
  have htexts (u : Text) : '\x60' :: (body ++ '\x60' :: (y ++ u)) = '\x60' :: t ++ u := by
    rw [hx]
    simp
  rw [htexts] at hleft hright
  exact .of_reads hleft hright rfl (.before (.inr hrest))

theorem agrees_template (hc : IsRemark c) : Agrees (Meets c) Eq template template := by
  rintro _ _ (⟨hplain | h⟩ | _)
  · have htwins := twins_remark hc hplain
    refine .of_forall (fun literal next hreads => ?_) fun literal next hreads => ?_
    · obtain ⟨s, y, n, -, rfl, hright⟩ := template_twin htwins hreads
      exact ⟨literal, _, hright, rfl, .before (.inl hplain)⟩
    · obtain ⟨s, y, n, -, -, hleft⟩ := template_twin htwins.symm hreads
      exact ⟨literal, _, hleft⟩
  · rename_i offset x
    by_cases hticks : ∃ t, x = '\x60' :: t
    · obtain ⟨t, rfl⟩ := hticks
      exact agreesAt_template_of_balanced hc h
    · have hother (d : Char) (t u : Text) (hd : d ≠ '\x60') : x ++ d :: t ≠ '\x60' :: u := by
        cases x with
        | nil => exact fun heq => hd (List.cons.inj heq).1
        | cons e x =>
            intro heq
            obtain ⟨rfl, -⟩ := List.cons.inj heq
            exact hticks ⟨x, rfl⟩
      exact .of_fails (template_fails fun u => hother '\n' [] u (by decide))
        (template_fails fun u => hother ' ' _ u (by decide))
  · refine .of_fails (template_fails fun u heq => nomatch heq) (template_fails fun u heq => ?_)
    exact absurd (List.cons.inj heq).1 (by decide)

theorem agrees_memberPath : Agrees (Meets c) Eq memberPath memberPath := by
  rw [memberPath_eq]
  refine .named _ <| .bind agrees_identifier ?_
  rintro name _ rfl
  have hfurther : Agrees (Meets c) Eq furtherName furtherName :=
    .bind agrees_spaces fun _ _ _ =>
      .bind (agrees_exactly (by decide) (by decide)) fun _ _ _ =>
      .bind agrees_spaces fun _ _ _ => agrees_identifier
  refine .bind (hfurther.many takes_furtherName takes_furtherName) ?_
  rintro names _ rfl
  exact .pure rfl

theorem agrees_taggedTemplate (hc : IsRemark c) :
    Agrees (Meets c) Eq taggedTemplate taggedTemplate := by
  refine .named _ <| .bind agrees_offset ?_
  rintro start _ rfl
  have htag : Agrees (Meets c) Eq
      ((do let source ← requireCall; return .require source) <|> memberPath)
      ((do let source ← requireCall; return .require source) <|> memberPath) := by
    refine .orElse (.bind (agrees_requireCall hc) ?_) agrees_memberPath
    rintro source _ rfl
    exact .pure rfl
  refine .bind htag ?_
  rintro tag _ rfl
  refine .bind agrees_spaces fun _ _ _ => .bind (agrees_template hc) ?_
  rintro literal _ rfl
  refine .bind agrees_offset ?_
  rintro stop _ rfl
  exact .pure rfl

/-! ## Declarations with `require` -/

theorem lineBreak_isSome (d : Char) (t : Text) : (lineBreak (d :: t)).isSome = isLineBreak d := by
  unfold lineBreak
  split
  · next heq =>
      rw [(List.cons.inj heq).1]
      rfl
  · next heq =>
      obtain ⟨rfl, rfl⟩ := List.cons.inj heq
      split
      · next hbreak => rw [hbreak, Option.isSome_some]
      · next hbreak => rw [Bool.eq_false_iff.mpr hbreak, Option.isSome_none]
  · next heq => cases heq

/-- A line ends with a semicolon, with a line break or with the script. -/
theorem lineEnd_reads_iff {blanks rest : Text} {offset : Nat}
    (hblanks : ∀ d ∈ blanks, isInlineBlank d = true)
    (hrest : ∀ d ∈ rest.head?, isInlineBlank d = false) :
    (∃ u next, lineEnd.Reads ⟨offset, blanks ++ rest⟩ u next) ↔
      ∀ d ∈ rest.head?, d = ';' ∨ isLineBreak d = true := by
  have hskip :
      inlineBlanks.Reads ⟨offset, blanks ++ rest⟩ blanks ⟨offset + blanks.byteSize, rest⟩ :=
    run_reads hblanks hrest
  simp only [lineEnd, reads_bind, reads_orElse, reads_pure, reads_endOfInput]
  constructor
  · rintro ⟨u, next, s, middle, hs, hend⟩ d hd
    obtain ⟨rfl, rfl⟩ := hs.unique hskip
    obtain ⟨t, rfl⟩ := List.head?_eq_some_iff.mp hd
    rcases hend with ⟨_, _, hsemicolon, -⟩ | ⟨-, ⟨_, _, hbreak, -⟩ | ⟨-, hnil, -⟩⟩
    · exact .inl (List.cons.inj (exactly_spec hsemicolon).2.rest).1
    · refine .inr ?_
      rw [← lineBreak_isSome d t, (reads_lexeme.mp hbreak).1]
      rfl
    · cases hnil
  · intro hend
    cases rest with
    | nil => exact ⟨(), _, _, _, hskip, .inr ⟨rfl, .inr ⟨rfl, rfl, rfl⟩⟩⟩
    | cons d t =>
        by_cases hd : d = ';'
        · subst hd
          exact ⟨(), _, _, _, hskip, .inl ⟨_, _, lexeme_reads rfl, trivial, rfl⟩⟩
        · have hbreak := (hend d rfl).resolve_left hd
          rw [← lineBreak_isSome d t, Option.isSome_iff_exists] at hbreak
          obtain ⟨found, hfound⟩ := hbreak
          refine ⟨(), _, _, _, hskip,
            .inr ⟨?_, .inl ⟨found.1, _, lexeme_reads hfound, trivial, rfl⟩⟩⟩
          refine result_eq_none fun _ _ hreads => ?_
          obtain ⟨_, _, hsemicolon, -⟩ := reads_bind.mp hreads
          exact hd (List.cons.inj (exactly_spec hsemicolon).2.rest).1

/-- A declarator with its call of `require`, and where it begins. -/
structure Declarator where
  start : Nat
  nameStart : Nat
  name : Text
  moduleName : Text

/-- A declaration up to the end of the call. -/
def declarator : Rule Declarator := do
  let start ← offset
  let _ ← exactly "const" <|> exactly "let" <|> exactly "var"
  let _ ← spaces1
  let nameStart ← offset
  let name ← identifier
  let _ ← spaces
  let _ ← exactly "="
  let _ ← spaces
  let source ← requireCall
  return ⟨start, nameStart, name, source⟩

/-- The declaration once its call is read. -/
def Declarator.finish (head : Declarator) : Rule ModuleBinding := do
  let first ←
    (do moreDeclarators; return head.nameStart)
    <|> (do ahead lineEnd; statementEnd; return head.start)
  let stop ← offset
  return ⟨head.name, head.moduleName, .requireCall, ⟨first, stop⟩⟩

theorem reads_requireDeclaration {cursor next : Cursor} {declaration : ModuleBinding} :
    requireDeclaration.Reads cursor declaration next ↔
      ∃ head middle, declarator.Reads cursor head middle ∧
        head.finish.Reads middle declaration next := by
  simp only [requireDeclaration, reads_named, declarator, Declarator.finish, reads_bind, reads_pure]
  constructor
  · rintro ⟨start, c₁, hstart, keyword, c₂, hkeyword, s₁, c₃, hs₁, nameStart, c₄, hnameStart, name,
      c₅, hname, s₂, c₆, hs₂, equals, c₇, hequals, s₃, c₈, hs₃, source, c₉, hsource, hfinish⟩
    exact ⟨_, c₉, ⟨start, c₁, hstart, keyword, c₂, hkeyword, s₁, c₃, hs₁, nameStart, c₄, hnameStart,
      name, c₅, hname, s₂, c₆, hs₂, equals, c₇, hequals, s₃, c₈, hs₃, source, c₉, hsource, rfl,
      rfl⟩, hfinish⟩
  · rintro ⟨_, _, ⟨start, c₁, hstart, keyword, c₂, hkeyword, s₁, c₃, hs₁, nameStart, c₄, hnameStart,
      name, c₅, hname, s₂, c₆, hs₂, equals, c₇, hequals, s₃, c₈, hs₃, source, c₉, hsource, rfl,
      rfl⟩, hfinish⟩
    exact ⟨start, c₁, hstart, keyword, c₂, hkeyword, s₁, c₃, hs₁, nameStart, c₄, hnameStart, name,
      c₅, hname, s₂, c₆, hs₂, equals, c₇, hequals, s₃, c₈, hs₃, source, _, hsource, hfinish⟩

theorem declarator_spec {cursor next : Cursor} {head : Declarator}
    (h : declarator.Reads cursor head next) : ∃ t, cursor.Advances (t ++ [')']) next := by
  simp only [declarator, reads_bind, reads_offset, reads_pure] at h
  obtain ⟨_, _, ⟨rfl, rfl⟩, keyword, c₁, hkeyword, s₁, c₂, hs₁, _, _, ⟨rfl, rfl⟩, name, c₃, hname,
    s₂, c₄, hs₂, _, c₅, hequals, s₃, c₆, hs₃, source, c₇, hsource, rfl, rfl⟩ := h
  obtain ⟨call, hsource, hcall⟩ := requireCall_spec hsource
  have hadvances := (keyword_spec hkeyword).1.trans <| (spaces1_spec hs₁).1.trans <|
    (identifier_spec hname).1.trans <| (run_spec hs₂).1.trans <| (exactly_spec hequals).2.trans <|
    (run_spec hs₃).1.trans hsource
  obtain ⟨-, -, -, -⟩ := hcall
  simp only [← List.append_assoc, ← List.cons_append] at hadvances
  exact ⟨_, hadvances⟩

theorem agrees_declarator (hc : IsRemark c) : Agrees (Meets c) Eq declarator declarator := by
  refine .bind agrees_offset ?_
  rintro start _ rfl
  have hkeyword : Agrees (Meets c) (fun _ _ => True)
      (exactly "const" <|> exactly "let" <|> exactly "var")
      (exactly "const" <|> exactly "let" <|> exactly "var") :=
    .orElse (agrees_exactly (by decide) (by decide)) <|
      .orElse (agrees_exactly (by decide) (by decide))
        (agrees_exactly (by decide) (by decide))
  refine .bind hkeyword fun _ _ _ => .bind agrees_spaces1 fun _ _ _ =>
    .bind agrees_offset ?_
  rintro nameStart _ rfl
  refine .bind agrees_identifier ?_
  rintro name _ rfl
  refine .bind agrees_spaces fun _ _ _ =>
    .bind (agrees_exactly (by decide) (by decide)) fun _ _ _ =>
    .bind agrees_spaces fun _ _ _ => .bind (agrees_requireCall hc) ?_
  rintro source _ rfl
  exact .pure rfl

/-- Only blanks are left on the last line. -/
def EndsLine (rest : Text) : Prop :=
  ∃ blanks stop, rest = blanks ++ stop ∧ (∀ d ∈ blanks, isInlineBlank d = true) ∧
    (stop = [] ∨ stop = ['\n'])

/-- The look-ahead behind a declaration agrees if something else than blanks is left on the last
line. -/
theorem agreesAt_finish (head : Declarator) {left right : Cursor} (hplace : Meets c left right)
    (hmore : ¬EndsLine left.rest) :
    AgreesAt (Meets c) Eq head.finish head.finish left right := by
  have hahead : AgreesAt (Meets c) Eq (ahead lineEnd) (ahead lineEnd) left right := by
    refine .ahead ?_ hplace
    obtain ⟨_⟩ | _ := hplace
    · rename_i offset x _
      obtain ⟨blanks, y, rfl, hblanks, hhead⟩ := exists_span isInlineBlank x
      cases y with
      | nil => exact absurd ⟨blanks, ['\n'], by rw [List.append_nil], hblanks, .inr rfl⟩ hmore
      | cons d y =>
          have hend (t : Text) :
              (∃ u next, lineEnd.Reads ⟨offset, blanks ++ (d :: y ++ t)⟩ u next) ↔
                ∀ e ∈ some d, e = ';' ∨ isLineBreak e = true :=
            lineEnd_reads_iff hblanks hhead
          rw [List.append_assoc, List.append_assoc]
          exact (hend _).trans (hend _).symm
    · exact absurd ⟨[], [], rfl, fun _ hd => absurd hd List.not_mem_nil, .inl rfl⟩ hmore
  have hfirst : AgreesAt (Meets c) Eq
      ((do moreDeclarators; return head.nameStart)
        <|> (do ahead lineEnd; statementEnd; return head.start) : Rule Nat)
      ((do moreDeclarators; return head.nameStart)
        <|> (do ahead lineEnd; statementEnd; return head.start) : Rule Nat) left right := by
    refine .orElse (Agrees.bind agrees_moreDeclarators (fun _ _ _ => .pure rfl) _ _ hplace)
      fun _ => ?_
    exact hahead.bind fun _ _ _ _ _ _ => agrees_statementEnd.bind (fun _ _ _ => .pure rfl) _ _
  refine hfirst.bind ?_
  rintro first _ next next' - rfl hplace
  refine (agrees_offset _ _ hplace).bind ?_
  rintro stop _ _ _ - rfl hplace
  exact Agrees.pure rfl _ _ hplace

theorem agreesAt_requireDeclaration (hc : IsRemark c) {left right : Cursor}
    (hplace : Meets c left right)
    (hmore : ∀ head middle, declarator.Reads left head middle → ¬EndsLine middle.rest) :
    AgreesAt (Meets c) Eq requireDeclaration requireDeclaration left right := by
  -- agreement is about results alone, so the rule can be cut in two
  have hresult (cursor : Cursor) :
      (requireDeclaration cursor).result = ((declarator >>= Declarator.finish) cursor).result :=
    Option.ext fun _ => reads_requireDeclaration.trans reads_bind.symm
  rw [AgreesAt, hresult, hresult]
  refine (agrees_declarator hc left right hplace).bind ?_
  rintro head _ next next' hreads rfl hplace
  exact agreesAt_finish head hplace (hmore head next hreads)

/-- Behind the call nothing is read at the end of a line. Else the last that is read is a semicolon,
or a comma with blanks. -/
theorem finish_spec {head : Declarator} {cursor next : Cursor} {declaration : ModuleBinding}
    (h : head.finish.Reads cursor declaration next) :
    declaration.span.stop = next.offset ∧
      ((next = cursor ∧ ∃ u after, lineEnd.Reads cursor u after) ∨
        ∃ s t, cursor.Advances (s ++ t) next ∧ t ≠ [] ∧ ∀ d ∈ t, d ≠ ')') := by
  simp only [Declarator.finish, reads_bind, reads_orElse, reads_pure, reads_ahead,
    reads_offset] at h
  obtain ⟨first, _, hfirst, _, _, ⟨rfl, rfl⟩, rfl, rfl⟩ := h
  refine ⟨rfl, ?_⟩
  rcases hfirst with ⟨_, _, hmore, -, rfl⟩ | ⟨-, _, _, ⟨rfl, hline⟩, _, _, hend, -, rfl⟩
  · obtain ⟨s₁, s₂, hmore, -, hs₂⟩ := moreDeclarators_spec hmore
    refine .inr ⟨s₁, ',' :: s₂, hmore, List.cons_ne_nil _ _, ?_⟩
    rintro d hd rfl
    rcases List.mem_cons.mp hd with hd | hd
    · exact absurd hd (by decide)
    · exact absurd (hs₂ _ hd) (by decide)
  · simp only [statementEnd, reads_maybe, reads_bind] at hend
    rcases hend with ⟨_, blanks, middle, hblanks, hsemicolon⟩ | ⟨-, rfl⟩
    · refine .inr ⟨blanks, [';'], (run_spec hblanks).1.trans (exactly_spec hsemicolon).2,
        List.cons_ne_nil _ _, ?_⟩
      intro d hd
      rw [List.mem_singleton.mp hd]
      decide
    · exact .inl ⟨rfl, hline⟩

/-- At the end of a line the declaration ends with its call. -/
theorem finish_reads_of_endsLine (head : Declarator) {cursor : Cursor} (h : EndsLine cursor.rest) :
    head.finish.Reads cursor
      ⟨head.name, head.moduleName, .requireCall, ⟨head.start, cursor.offset⟩⟩ cursor := by
  obtain ⟨offset, _⟩ := cursor
  obtain ⟨blanks, stop, rfl, hblanks, hstop⟩ := h
  have hbreak : ∀ d ∈ stop, d = '\n' := by
    rcases hstop with rfl | rfl
    · exact fun d hd => nomatch hd
    · exact fun d hd => List.mem_singleton.mp hd
  have hhead : ∀ d ∈ stop.head?, d = '\n' := fun d hd => hbreak d (List.mem_of_mem_head? hd)
  have hmore : ((do moreDeclarators; return head.nameStart : Rule Nat)
      ⟨offset, blanks ++ stop⟩).result = none := by
    refine result_eq_none fun n next hreads => ?_
    obtain ⟨_, _, hmore, -⟩ := reads_bind.mp hreads
    obtain ⟨s₁, s₂, hadvances, -, -⟩ := moreDeclarators_spec hmore
    have hcomma : ',' ∈ blanks ++ stop := by
      have hrest : blanks ++ stop = s₁ ++ ',' :: s₂ ++ _ := hadvances.rest
      rw [hrest]
      simp
    rcases List.mem_append.mp hcomma with hd | hd
    · exact absurd (hblanks _ hd) (by decide)
    · exact absurd (hbreak _ hd) (by decide)
  have hline : ∃ u next, lineEnd.Reads ⟨offset, blanks ++ stop⟩ u next := by
    refine (lineEnd_reads_iff hblanks fun d hd => ?_).mpr fun d hd => .inr ?_
    · rw [hhead d hd]
      decide
    · rw [hhead d hd]
      decide
  have hnone : (semicolon ⟨offset, blanks ++ stop⟩).result = none := by
    refine semicolon_fails hblanks fun d hd => ?_
    rw [hhead d hd]
    decide
  simp only [Declarator.finish, reads_bind, reads_orElse, reads_pure, reads_ahead, reads_offset]
  exact ⟨_, _, .inr ⟨hmore, (), _, ⟨rfl, hline⟩, (), _, reads_maybe.mpr (.inr ⟨hnone, rfl⟩), rfl,
    rfl⟩, _, _, ⟨rfl, rfl⟩, rfl, rfl⟩

end Rule
end Script
end Hypertext

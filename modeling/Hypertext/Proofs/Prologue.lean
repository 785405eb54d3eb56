import Hypertext.Proofs.Splicing
import Hypertext.Script.Prologue

set_option autoImplicit false

/-! # Where items can begin

The prologue of a script is found without the scanner. This file proves that nevertheless no item
begins in it: an item begins with a backquote, with `import`, or with a word after which the first
character that belongs neither to a word nor to blanks is one of four (`Begins`). The blanks, the
directive and its semicolon contain nothing of this kind (`Silent`).

What remains is a first line that names an interpreter, which the scanner reads like any other. So
an item begins after the prologue or else on that line (`item_begins`).
-/

namespace Hypertext
namespace Script

/-! ## How items begin -/

/-- The characters of words and of the blanks between them. -/
def isWordOrSpace (c : Char) : Bool :=
  Lexeme.isWordStart c || Lexeme.isWordPart c || Lexeme.isSpace c

/-- The characters that show what a word is, if they come first after it and blanks. -/
def wordMarks : List Char := ['.', '\x60', '=', '(']

/-- The text from where an item begins. -/
inductive Begins : Text → Prop where
  | backquote (t : Text) : Begins ('\x60' :: t)
  | importing (t : Text) : Begins ('i' :: 'm' :: t)
  | word {c mark : Char} {w t : Text} (hc : Lexeme.isWordStart c = true)
      (hw : ∀ d ∈ w, isWordOrSpace d = true) (hmark : mark ∈ wordMarks) :
      Begins (c :: (w ++ mark :: t))

theorem Begins.append {t : Text} (h : Begins t) (after : Text) : Begins (t ++ after) := by
  cases h with
  | backquote t => exact .backquote _
  | importing t => exact .importing _
  | word hc hw hmark =>
      rw [List.cons_append, List.append_assoc, List.cons_append]
      exact .word hc hw hmark

theorem Begins.first {c : Char} {t : Text} (h : Begins (c :: t)) :
    c = '\x60' ∨ Lexeme.isWordStart c = true := by
  cases h with
  | backquote => exact .inl rfl
  | importing => exact .inr (by decide)
  | word hc _ _ => exact .inr hc

theorem IsSpaces.isWordOrSpace {s : Text} (hs : IsSpaces s) : ∀ d ∈ s, isWordOrSpace d = true := by
  intro d hd
  rw [Script.isWordOrSpace, hs d hd, Bool.or_true]

theorem IsWord.isWordOrSpace {w : Text} (hw : IsWord w) : ∀ d ∈ w, isWordOrSpace d = true := by
  obtain ⟨hc, hparts⟩ := hw
  intro d hd
  rcases List.mem_cons.mp hd with rfl | hd
  · rw [Script.isWordOrSpace, hc, Bool.true_or, Bool.true_or]
  · rw [Script.isWordOrSpace, hparts d hd, Bool.or_true, Bool.true_or]

/-- A word, and a mark after words and blanks. -/
theorem IsWord.begins {w s t : Text} {mark : Char} (hw : IsWord w)
    (hs : ∀ d ∈ s, Script.isWordOrSpace d = true) (hmark : mark ∈ wordMarks) :
    Begins (w ++ (s ++ mark :: t)) := by
  have hparts := hw.isWordOrSpace
  obtain ⟨hc, -⟩ := hw
  rw [List.cons_append, ← List.append_assoc]
  refine .word hc (fun d hd => ?_) hmark
  rcases List.mem_append.mp hd with hd | hd
  · exact hparts d (List.mem_cons_of_mem _ hd)
  · exact hs d hd

theorem SpellsRequire.begins {name t : Text} (h : SpellsRequire name t) : Begins t := by
  obtain ⟨hs₁, -, -, -⟩ := h
  have hword : IsWord "require".toList := .intro (by decide) (List.all_eq_true.mp (by decide))
  exact hword.begins hs₁.isWordOrSpace (by decide)

theorem ModuleBinding.Spells.begins {name moduleName t : Text} {kind : BindingKind}
    (h : ModuleBinding.Spells name moduleName kind t) : Begins t := by
  cases h with
  | importDeclaration => exact .importing _
  | declarator hname hs₁ => exact hname.begins hs₁.isWordOrSpace (by decide)
  | @declaration keyword s₁ s₂ s₃ call stop hkeyword hs₁ _ hname hs₂ =>
      have hword : IsWord keyword := by
        rcases hkeyword with rfl | rfl | rfl
        all_goals exact .intro (by decide) (List.all_eq_true.mp (by decide))
      -- between the keyword and the equals sign are a name and blanks
      have hbetween : ∀ d ∈ s₁ ++ (name ++ s₂), Script.isWordOrSpace d = true := by
        intro d hd
        rcases List.mem_append.mp hd with hd | hd
        · exact hs₁.isWordOrSpace d hd
        · rcases List.mem_append.mp hd with hd | hd
          · exact hname.isWordOrSpace d hd
          · exact hs₂.isWordOrSpace d hd
      have hbegins : Begins (keyword ++ ((s₁ ++ (name ++ s₂)) ++ '=' :: (s₃ ++ (call ++ stop)))) :=
        hword.begins hbetween (by decide)
      simpa only [List.append_assoc] using hbegins

theorem SpellsPath.begins {names : List Text} {t blanks after : Text} (h : SpellsPath names t)
    (hblanks : IsSpaces blanks) : Begins (t ++ (blanks ++ '\x60' :: after)) := by
  cases h with
  | last hname => exact hname.begins hblanks.isWordOrSpace (by decide)
  | dot hname hs₁ _ _ =>
      rw [List.append_assoc, List.append_assoc, List.cons_append]
      exact hname.begins hs₁.isWordOrSpace (by decide)

/-- **Items begin in few ways.** -/
theorem Item.Spells.begins {offset : Nat} {found : Item} {t : Text} (h : found.Spells offset t) :
    Begins t := by
  cases h with
  | binding hspells _ => exact hspells.begins
  | @template literal _ _ _ htag _ _ =>
      generalize literal.tag = tag at htag
      cases htag with
      | untagged => exact .backquote _
      | path hpath hblanks => exact hpath.begins hblanks
      | require hrequire _ => exact hrequire.begins.append _

/-! ## Text in which no item begins -/

/-- No item begins anywhere in a text before `after`. -/
def Silent (after t : Text) : Prop :=
  ∀ left right, t = left ++ right → right ≠ [] → ¬Begins (right ++ after)

namespace Silent

variable {after s t : Text}

theorem append (hs : Silent (t ++ after) s) (ht : Silent after t) : Silent after (s ++ t) := by
  intro left right heq hright
  rcases List.append_eq_append_iff.mp heq with ⟨middle, hleft, htail⟩ | ⟨middle, hstart, hrest⟩
  · exact ht middle right htail hright
  · cases middle with
    | nil =>
        rw [List.nil_append] at hrest
        exact ht [] right (by rw [← hrest, List.nil_append]) hright
    | cons c middle =>
        rw [hrest, List.append_assoc]
        exact hs left (c :: middle) hstart (List.cons_ne_nil _ _)

/-- What begins an item behind a place begins behind the silent text there. -/
theorem le_of_begins {line before u : Text} (h : Silent after t)
    (heq : before ++ u = line ++ (t ++ after)) (hbegins : Begins u)
    (hle : Text.byteSize line ≤ Text.byteSize before) :
    Text.byteSize (line ++ t) ≤ Text.byteSize before := by
  obtain ⟨left, rfl, hleft⟩ := Text.append_eq_append_of_le heq.symm hle
  simp only [Text.byteSize_append]
  by_contra hlt
  obtain ⟨right, rfl, rfl⟩ := Text.append_eq_append_of_le hleft.symm (by omega)
  refine h left right rfl ?_ hbegins
  rintro rfl
  rw [List.append_nil] at hlt
  exact hlt (Nat.le_refl _)

theorem of_first (h : ∀ c ∈ t, c ≠ '\x60' ∧ Lexeme.isWordStart c = false) : Silent after t := by
  intro left right heq hright hbegins
  cases right with
  | nil => exact hright rfl
  | cons c right =>
      have hc := h c (by rw [heq]; simp)
      rcases hbegins.first with hfirst | hfirst
      · exact hc.1 hfirst
      · rw [hc.2] at hfirst
        cases hfirst

/-- Up to a quote, no item begins in a text without marks. A word would have to be followed by a
mark before the quote; and `import` has an `m`. -/
theorem of_marks {quote : Char} (hquote : quote = '"' ∨ quote = '\x27')
    (h : ∀ c ∈ t, c ∉ wordMarks ∧ c ≠ 'm') : Silent (quote :: after) t := by
  have hmarks : quote ∉ wordMarks ∧ quote ≠ 'm' ∧ isWordOrSpace quote = false := by
    rcases hquote with rfl | rfl
    all_goals decide
  intro left right heq hright hbegins
  have hharmless : ∀ c ∈ right, c ∉ wordMarks ∧ c ≠ 'm' := by
    intro c hc
    exact h c (by rw [heq]; exact List.mem_append_right _ hc)
  cases right with
  | nil => exact hright rfl
  | cons c right =>
      generalize hu : c :: right ++ quote :: after = u at hbegins
      cases hbegins with
      | backquote u =>
          have hc : c = '\x60' := (List.cons.inj hu).1
          exact (hharmless c List.mem_cons_self).1 (by rw [hc]; decide)
      | importing u =>
          have hm := (List.cons.inj hu).2
          cases right with
          | nil => exact hmarks.2.1 (List.cons.inj hm).1
          | cons d right =>
              have hd : d = 'm' := (List.cons.inj hm).1
              exact (hharmless d (by simp)).2 hd
      | @word _ mark w u _ hw hmark =>
          have hrest : right ++ quote :: after = w ++ mark :: u := (List.cons.inj hu).2
          rcases List.append_eq_append_iff.mp hrest with ⟨m, hm, hq⟩ | ⟨m, hm, hq⟩
          · -- the word goes up to the quote, which is no part of it
            cases m with
            | nil => exact hmarks.1 (by rw [(List.cons.inj hq).1]; exact hmark)
            | cons d m =>
                have hd : quote = d := (List.cons.inj hq).1
                have hquoted := hw quote (by rw [hm, hd]; simp)
                rw [hmarks.2.2] at hquoted
                cases hquoted
          · cases m with
            | nil => exact hmarks.1 (by rw [← (List.cons.inj hq).1]; exact hmark)
            | cons d m =>
                have hd : mark = d := (List.cons.inj hq).1
                exact (hharmless mark (by rw [hm, hd]; simp)).1 hmark

end Silent

theorem IsSpaces.silent {s : Text} (hs : IsSpaces s) (after : Text) : Silent after s := by
  refine .of_first fun c hc => ?_
  have hcases : (c = ' ' ∨ c = '\t') ∨ c = '\n' ∨ c = '\r' := by
    simpa [Lexeme.isSpace, Lexeme.isInlineBlank, Lexeme.isLineBreak] using hs c hc
  rcases hcases with (rfl | rfl) | rfl | rfl
  all_goals decide

/-! ## The prologue -/

/-- The first line of a script, without its line break. -/
def firstLine (source : Text) : Text := source.takeWhile (· != '\n')

/-- Whether a script begins with a line that names an interpreter. -/
def namesInterpreter (source : Text) : Bool := Text.startsWith "#!".toList source

/-- The interpreter line is the first line, if there is one. -/
theorem afterInterpreter_spec (source : Text) : afterInterpreter source = source ∨
    (namesInterpreter source = true ∧
      source = firstLine source ++ '\n' :: afterInterpreter source) := by
  unfold afterInterpreter
  split
  · next rest =>
      split
      · next c after hdrop =>
          have hnewline : c = '\n' := by
            have hnot := List.head?_dropWhile_not (· != '\n') rest
            rw [hdrop] at hnot
            simpa using hnot
          subst hnewline
          refine .inr ⟨rfl, ?_⟩
          have hline : firstLine ('#' :: '!' :: rest)
              = '#' :: '!' :: rest.takeWhile (· != '\n') := by
            simp [firstLine]
          rw [hline, ← hdrop, List.cons_append, List.cons_append, List.takeWhile_append_dropWhile]
      · exact .inl rfl
  · exact .inl rfl

theorem skipOne_spec (c : Char) (t : Text) :
    ∃ taken, t = taken ++ skipOne c t ∧ ∀ d ∈ taken, d = c := by
  cases t with
  | nil => exact ⟨[], rfl, fun _ h => absurd h List.not_mem_nil⟩
  | cons d t =>
      by_cases hd : d = c
      · refine ⟨[d], by simp [skipOne, hd], fun e he => ?_⟩
        rw [List.mem_singleton.mp he, hd]
      · exact ⟨[], by simp [skipOne, hd], fun _ h => absurd h List.not_mem_nil⟩

/-- What follows a directive in its prologue: a semicolon, blanks and a line break. -/
theorem silent_afterDirective (after : Text) :
    ∃ zone, after = zone
        ++ skipOne '\n' ((skipOne ';' after).dropWhile fun c => c == ' ' || c == '\t') ∧
      ∀ rest, Silent rest zone := by
  obtain ⟨semicolon, hsemicolon, hfirst⟩ := skipOne_spec ';' after
  generalize skipOne ';' after = t at hsemicolon ⊢
  set blank : Char → Bool := fun c => c == ' ' || c == '\t' with hblank
  obtain ⟨newline, hnewline, hlast⟩ := skipOne_spec '\n' (t.dropWhile blank)
  refine ⟨semicolon ++ (t.takeWhile blank ++ newline), ?_, fun rest => ?_⟩
  · rw [List.append_assoc, List.append_assoc, ← hnewline, List.takeWhile_append_dropWhile]
    exact hsemicolon
  · refine .of_first fun c hc => ?_
    have hcases : c = ';' ∨ (c = ' ' ∨ c = '\t') ∨ c = '\n' := by
      rcases List.mem_append.mp hc with hc | hc
      · exact .inl (hfirst c hc)
      · rcases List.mem_append.mp hc with hc | hc
        · exact .inr (.inl (by simpa [hblank] using List.mem_takeWhile_imp hc))
        · exact .inr (.inr (hlast c hc))
    rcases hcases with rfl | (rfl | rfl) | rfl
    all_goals decide

theorem afterDirective?_eq_some {t after : Text} (h : afterDirective? t = some after) :
    ∃ quote, (quote = '"' ∨ quote = '\x27') ∧
      t = quote :: ("use strict".toList ++ quote :: after) := by
  rcases Option.or_eq_some_iff.mp h with h | ⟨-, h⟩
  · exact ⟨'\x27', .inr rfl, Text.after?_eq_some_iff.mp h⟩
  · exact ⟨'"', .inl rfl, Text.after?_eq_some_iff.mp h⟩

/-- No item begins before or inside of a directive. -/
theorem silent_directive {blanks : Text} (hblanks : ∀ c ∈ blanks, isBlank c = true) {quote : Char}
    (hquote : quote = '"' ∨ quote = '\x27') (after : Text) :
    Silent (quote :: after) (blanks ++ quote :: "use strict".toList) := by
  have hmarks : wordMarks.all (fun d => !isBlank d) = true := by decide
  have hletters : "use strict".toList.all (fun d => d ∉ wordMarks ∧ d ≠ 'm') = true := by decide
  refine .of_marks hquote fun c hc => ?_
  rcases List.mem_append.mp hc with hc | hc
  · have hblank := hblanks c hc
    constructor
    · intro hmark
      have hnot := List.all_eq_true.mp hmarks c hmark
      rw [hblank] at hnot
      cases hnot
    · rintro rfl
      exact absurd hblank (by decide)
  · rcases List.mem_cons.mp hc with rfl | hc
    · rcases hquote with rfl | rfl
      all_goals decide
    · exact of_decide_eq_true (List.all_eq_true.mp hletters c hc)

/-- **No item begins in the prologue.** -/
theorem silent_prologue (source : Text) :
    ∃ zone, afterInterpreter source = zone ++ afterPrologue source ∧
      Silent (afterPrologue source) zone := by
  unfold afterPrologue
  generalize afterInterpreter source = rest
  dsimp only
  split
  · exact ⟨[], rfl, .of_first fun _ h => absurd h List.not_mem_nil⟩
  · next after hdirective =>
      obtain ⟨quote, hquote, htrim⟩ := afterDirective?_eq_some hdirective
      obtain ⟨zone, hzone, hsilent⟩ := silent_afterDirective after
      have hrest : rest = rest.takeWhile isBlank ++ rest.trimStart :=
        List.takeWhile_append_dropWhile.symm
      have hclose : ∀ c ∈ [quote], c ≠ '\x60' ∧ Lexeme.isWordStart c = false := by
        intro c hc
        rw [List.mem_singleton.mp hc]
        rcases hquote with rfl | rfl
        all_goals decide
      -- the closing quote is apart: a word could go on behind it, but not begin there
      refine ⟨(rest.takeWhile isBlank ++ quote :: "use strict".toList) ++ (quote :: zone), ?_, ?_⟩
      · calc
          rest = rest.takeWhile isBlank ++ quote :: ("use strict".toList ++ quote :: after) := by
            rw [← htrim]
            exact hrest
          _ = _ := by
            rw [List.append_assoc, List.append_assoc, List.cons_append, List.cons_append, ← hzone]
      · exact .append (silent_directive (fun _ => List.mem_takeWhile_imp) hquote _)
          (.append (.of_first hclose) (hsilent _))

/-- Whether or not there is an interpreter line, the prologue is a start of the script. -/
theorem exists_append_afterPrologue (source : Text) :
    ∃ start, source = start ++ afterPrologue source := by
  obtain ⟨zone, hzone, -⟩ := silent_prologue source
  rcases afterInterpreter_spec source with hnone | ⟨-, hline⟩
  · exact ⟨zone, hnone.symm.trans hzone⟩
  · refine ⟨firstLine source ++ '\n' :: zone, ?_⟩
    rw [List.append_assoc, List.cons_append, ← hzone]
    exact hline

theorem prologueEnd_eq {source start : Text} (h : source = start ++ afterPrologue source) :
    prologueEnd source = Text.byteSize start := by
  have hsize := congrArg Text.byteSize h
  rw [Text.byteSize_append] at hsize
  rw [prologueEnd]
  omega

/-- **Items begin after the prologue, or else on the interpreter line.** -/
theorem item_begins {source : Text} {items : List Item} (hscan : scan source = .ok items)
    {found : Item} (hmem : found ∈ items) :
    (namesInterpreter source = true ∧ found.span.start < Text.byteSize (firstLine source)) ∨
      prologueEnd source ≤ found.span.start := by
  obtain ⟨before, t, after, hsource, hspells⟩ := (tiles_of_scan hscan).place hmem
  have hbegins : Begins (t ++ after) := hspells.begins.append after
  have hstart : found.span.start = Text.byteSize before := by
    rw [hspells.span_eq, Nat.zero_add]
  rw [hstart]
  obtain ⟨zone, hzone, hsilent⟩ := silent_prologue source
  -- behind a line in front of the prologue, an item is not in the prologue either
  have hbehind : ∀ line, source = line ++ afterInterpreter source →
      Text.byteSize line ≤ Text.byteSize before → prologueEnd source ≤ Text.byteSize before := by
    intro line hline hle
    rw [hzone] at hline
    have hstart : source = (line ++ zone) ++ afterPrologue source := by
      rw [List.append_assoc]
      exact hline
    rw [prologueEnd_eq hstart]
    exact hsilent.le_of_begins (hsource.symm.trans hline) hbegins hle
  rcases afterInterpreter_spec source with hnone | ⟨hnames, hline⟩
  · exact .inr (hbehind [] hnone.symm (Nat.zero_le _))
  · by_cases hfirst : Text.byteSize before < Text.byteSize (firstLine source)
    · exact .inl ⟨hnames, hfirst⟩
    · have hnewline : IsSpaces ['\n'] := List.all_eq_true.mp (by decide)
      have hle := (hnewline.silent _).le_of_begins (hsource.symm.trans hline) hbegins
        (Nat.le_of_not_lt hfirst)
      refine .inr (hbehind (firstLine source ++ ['\n']) ?_ hle)
      rw [List.append_assoc]
      exact hline

end Script
end Hypertext

import Hypertext.Proofs.Insertion
import Hypertext.Proofs.Places
import Hypertext.Proofs.Wiring
import Mathlib.Data.List.DropRight

set_option autoImplicit false

/-! # Whether declarations begin a statement

Declarations are inserted after the prologue of a script. They begin a statement of their own if
nothing stands before them on their line, or if that ends in a semicolon (`endsStatement`).

An interpreter line always ends in a line feed. A directive takes a semicolon, blanks and a line
feed with it, but each of them only if it is there and directly follows what came before. So the
prologue ends a statement unless it has a directive that is not terminated in one of these ways
(`endsStatement_prologue_iff`). A carriage return or a comment after the directive is enough for
that, and the declarations then stand on the line of the directive
(`declarations_begin_statement_iff`).
-/

namespace Hypertext
namespace Script

/-! ## The text before the declarations -/

/-- The text in front of the declarations. -/
def prologue (source : Text) : Text := Text.takeBytes (prologueEnd source) source

theorem prologue_eq {source start : Text} (h : source = start ++ afterPrologue source) :
    prologue source = start := by
  have hcut : Text.cut? (prologueEnd source) source = some (start, afterPrologue source) :=
    Text.cut?_eq_some_iff.mpr ⟨h, (prologueEnd_eq h).symm⟩
  rw [prologue, Text.takeBytes, hcut]
  rfl

/-- Whether a text is empty or ends in a line break or a semicolon, if the spaces and tabs at its
end are not counted. -/
def endsStatement (before : Text) : Bool :=
  before.isEmpty || (before.rdropWhile Lexeme.isInlineBlank).getLast?.any
    fun c => Lexeme.isLineBreak c || c == ';'

/-- The last character that is no blank decides. -/
theorem endsStatement_append (start : Text) {c : Char} {blanks : Text}
    (hc : Lexeme.isInlineBlank c = false) (hblanks : ∀ d ∈ blanks, Lexeme.isInlineBlank d = true) :
    endsStatement (start ++ c :: blanks) = (Lexeme.isLineBreak c || c == ';') := by
  have hdrop : (start ++ [c] ++ blanks).rdropWhile Lexeme.isInlineBlank = start ++ [c] := by
    induction blanks using List.reverseRecOn with
    | nil =>
        rw [List.append_nil]
        exact List.rdropWhile_concat_neg _ _ _ (by rw [hc]; exact Bool.false_ne_true)
    | append_singleton blanks d ih =>
        rw [← List.append_assoc, List.rdropWhile_concat_pos _ _ _ (hblanks d (by simp))]
        exact ih fun e he => hblanks e (List.mem_append_left _ he)
  rw [List.append_cons, endsStatement, hdrop, List.getLast?_concat, Option.any_some]
  simp

/-! ## Directives -/

/-- Nothing, or a first line that names an interpreter. -/
inductive InterpreterLine : Text → Prop where
  | none : InterpreterLine []
  | named {name : Text} (hname : '\n' ∉ name) : InterpreterLine ('#' :: '!' :: (name ++ ['\n']))

theorem exists_interpreterLine (source : Text) :
    ∃ line, InterpreterLine line ∧ source = line ++ afterInterpreter source := by
  rcases afterInterpreter_spec source with hnone | ⟨hnames, hline⟩
  · exact ⟨[], .none, hnone.symm⟩
  · obtain ⟨rest, hrest⟩ := Text.startsWith_iff.mp hnames
    have hfirst : firstLine source = '#' :: '!' :: firstLine rest := by
      rw [hrest]
      rfl
    have hname : '\n' ∉ firstLine rest := by
      intro hmem
      have hne := List.mem_takeWhile_imp hmem
      cases hne
    refine ⟨_, .named hname, hline.trans ?_⟩
    rw [hfirst]
    simp

theorem InterpreterLine.afterInterpreter_append {line rest : Text} (h : InterpreterLine line)
    (hrest : rest.head? ≠ some '#') : afterInterpreter (line ++ rest) = rest := by
  cases h with
  | none =>
      rw [List.nil_append]
      unfold afterInterpreter
      split
      · exact absurd rfl hrest
      · rfl
  | @named name hname =>
      have hdrop : (name ++ '\n' :: rest).dropWhile (· != '\n') = '\n' :: rest := by
        rw [List.dropWhile_append_of_pos fun c hc => ?_]
        · rfl
        · exact bne_iff_ne.mpr fun heq => hname (heq ▸ hc)
      simp [afterInterpreter, hdrop]

/-- A script that begins with a directive, after an interpreter line and blanks, and goes on with a
given text. -/
inductive Directed (after : Text) : Text → Prop where
  | intro {line blanks : Text} {quote : Char} (hline : InterpreterLine line)
      (hblanks : ∀ c ∈ blanks, isBlank c = true) (hquote : quote = '"' ∨ quote = '\x27') :
      Directed after (line ++ (blanks ++ quote :: ("use strict".toList ++ quote :: after)))

/-- The prologue has a directive exactly if the script begins with one. -/
theorem directed_iff {source after : Text} :
    Directed after source ↔ afterDirective? (afterInterpreter source).trimStart = some after := by
  constructor
  · rintro (@⟨line, blanks, quote, hline, hblanks, hquote⟩)
    have hfirst :
        (blanks ++ quote :: ("use strict".toList ++ quote :: after)).head? ≠ some '#' := by
      cases blanks with
      | nil => rcases hquote with rfl | rfl <;> simp
      | cons c blanks =>
          rintro ⟨⟩
          exact absurd (hblanks '#' List.mem_cons_self) (by decide)
    rw [hline.afterInterpreter_append hfirst, Text.trimStart, List.dropWhile_append_of_pos hblanks]
    rcases hquote with rfl | rfl <;> rfl
  · intro h
    obtain ⟨line, hline, hsource⟩ := exists_interpreterLine source
    obtain ⟨quote, hquote, htrim⟩ := afterDirective?_eq_some h
    generalize afterInterpreter source = rest at hsource htrim
    have hrest : rest = rest.takeWhile isBlank ++ rest.trimStart :=
      List.takeWhile_append_dropWhile.symm
    rw [hsource, hrest, htrim]
    exact .intro hline (fun _ => List.mem_takeWhile_imp) hquote

theorem Directed.exists_start {source after : Text} (h : Directed after source) :
    ∃ start quote, (quote = '"' ∨ quote = '\x27') ∧ source = start ++ quote :: after := by
  obtain @⟨line, blanks, quote, -, -, hquote⟩ := h
  refine ⟨line ++ (blanks ++ quote :: "use strict".toList), quote, hquote, ?_⟩
  simp only [List.append_assoc, List.cons_append]

/-- What can follow a directive so that it is terminated: a semicolon, or blanks and a line feed. -/
def Terminated (after : Text) : Prop :=
  after.head? = some ';' ∨ (after.dropWhile Lexeme.isInlineBlank).head? = some '\n'

/-- A script with a directive that is not terminated. -/
def OpenDirective (source : Text) : Prop := ∃ after, Directed after source ∧ ¬Terminated after

theorem skipOne_cases (c : Char) (t : Text) :
    (∃ u, t = c :: u ∧ skipOne c t = u) ∨ (t.head? ≠ some c ∧ skipOne c t = t) := by
  cases t with
  | nil => exact .inr ⟨nofun, rfl⟩
  | cons d t =>
      by_cases hd : d = c
      · exact .inl ⟨t, by rw [hd], if_pos hd⟩
      · exact .inr ⟨fun h => hd (Option.some.inj h), if_neg hd⟩

/-- Blanks are taken away, with a line feed if there is one behind them. -/
theorem blanks_taken (line : Text) {t ending : Text}
    (h : line ++ t = ending ++ skipOne '\n' (t.dropWhile Lexeme.isInlineBlank)) :
    ((t.dropWhile Lexeme.isInlineBlank).head? = some '\n' ∧ ∃ before, ending = before ++ ['\n']) ∨
    ((t.dropWhile Lexeme.isInlineBlank).head? ≠ some '\n' ∧
      ending = line ++ t.takeWhile Lexeme.isInlineBlank) := by
  have hsplit : line ++ t
      = line ++ t.takeWhile Lexeme.isInlineBlank ++ t.dropWhile Lexeme.isInlineBlank := by
    rw [List.append_assoc, List.takeWhile_append_dropWhile]
  rcases skipOne_cases '\n' (t.dropWhile Lexeme.isInlineBlank) with
    ⟨rest, hdrop, hskip⟩ | ⟨hdrop, hskip⟩
  all_goals rw [hskip, hsplit] at h
  · rw [hdrop, List.append_cons] at h
    exact .inl ⟨by rw [hdrop]; rfl, _, (List.append_cancel_right h).symm⟩
  · exact .inr ⟨hdrop, (List.append_cancel_right h).symm⟩

/-- Behind its closing quote, a directive ends a statement exactly if it is terminated. -/
theorem endsStatement_directive (start : Text) {quote : Char}
    (hquote : quote = '"' ∨ quote = '\x27') {after ending : Text}
    (h : after = ending ++ skipOne '\n' ((skipOne ';' after).dropWhile Lexeme.isInlineBlank)) :
    endsStatement (start ++ quote :: ending) = true ↔ Terminated after := by
  have hblanks : ∀ t : Text, ∀ d ∈ t.takeWhile Lexeme.isInlineBlank,
      Lexeme.isInlineBlank d = true := fun _ _ => List.mem_takeWhile_imp
  have hfeed : ∀ before : Text, endsStatement (start ++ quote :: (before ++ ['\n'])) = true := by
    intro before
    rw [← List.cons_append, ← List.append_assoc]
    exact endsStatement_append _ rfl fun _ h => absurd h List.not_mem_nil
  rcases skipOne_cases ';' after with ⟨t, rfl, hskip⟩ | ⟨hhead, hskip⟩
  all_goals rw [hskip] at h
  · refine iff_of_true ?_ (.inl rfl)
    rcases blanks_taken [';'] h with ⟨-, before, rfl⟩ | ⟨-, rfl⟩
    · exact hfeed before
    · rw [List.append_cons]
      exact endsStatement_append _ rfl (hblanks t)
  · rcases blanks_taken [] h with ⟨hdrop, before, rfl⟩ | ⟨hdrop, rfl⟩
    · exact iff_of_true (hfeed before) (.inr hdrop)
    · refine iff_of_false ?_ (not_or.mpr ⟨hhead, hdrop⟩)
      have hquoted : Lexeme.isInlineBlank quote = false ∧
          (Lexeme.isLineBreak quote || quote == ';') = false := by
        rcases hquote with rfl | rfl
        all_goals decide
      rw [List.nil_append, endsStatement_append start hquoted.1 (hblanks after), hquoted.2]
      exact Bool.false_ne_true

/-- **The prologue ends a statement unless its directive is open.** -/
theorem endsStatement_prologue_iff (source : Text) :
    endsStatement (prologue source) = true ↔ ¬OpenDirective source := by
  cases hdirective : afterDirective? (afterInterpreter source).trimStart with
  | none =>
      refine iff_of_true ?_ fun ⟨after, hdirected, _⟩ => ?_
      · obtain ⟨line, hline, hsource⟩ := exists_interpreterLine source
        have hrest : afterPrologue source = afterInterpreter source := by
          simp only [afterPrologue, hdirective]
        rw [prologue_eq (hrest ▸ hsource)]
        cases hline with
        | none => rfl
        | @named name _ =>
            exact endsStatement_append ('#' :: '!' :: name) rfl fun _ h => absurd h List.not_mem_nil
      · rw [directed_iff.mp hdirected] at hdirective
        cases hdirective
  | some after =>
      have hopen : OpenDirective source ↔ ¬Terminated after := by
        constructor
        · rintro ⟨after', hdirected, hopen⟩
          rw [directed_iff.mp hdirected] at hdirective
          cases hdirective
          exact hopen
        · exact fun hopen => ⟨after, directed_iff.mpr hdirective, hopen⟩
      rw [hopen, not_not]
      have hrest : afterPrologue source
          = skipOne '\n' ((skipOne ';' after).dropWhile Lexeme.isInlineBlank) := by
        simp only [afterPrologue, hdirective]
        rfl
      obtain ⟨ending, hending, -⟩ := silent_afterDirective after
      obtain ⟨start, quote, hquote, hsource⟩ := (directed_iff.mpr hdirective).exists_start
      have hprologue : prologue source = start ++ quote :: ending := by
        refine prologue_eq ?_
        rw [List.append_assoc, List.cons_append, hrest]
        exact hsource.trans (congrArg (start ++ quote :: ·) hending)
      rw [hprologue]
      exact endsStatement_directive start hquote hending

/-! ## Where the declarations stand -/

/-- An edit for a template replaces it or one of its substitutions. -/
theorem Compiler.span_of_mem_templates {compiler : Compiler} {inner : Compiler.Inner} {text : Text}
    {base : Nat} {items : List Item} {progress after : Progress} {edits : List Edit}
    (h : compiler.templates inner text base items progress = .ok (edits, after)) {edit : Edit}
    (hmem : edit ∈ edits) :
    ∃ literal, .template literal ∈ items ∧ (edit.span = literal.span ∨
      ∃ part ∈ literal.substitutions, edit.span = part.span) := by
  induction items generalizing progress edits with
  | nil =>
      cases h
      cases hmem
  | cons item items ih =>
      cases item with
      | binding declaration =>
          obtain ⟨literal, hliteral, hspan⟩ := ih h hmem
          exact ⟨literal, List.mem_cons_of_mem _ hliteral, hspan⟩
      | template literal =>
          unfold templates at h
          obtain ⟨first, htemplate, h⟩ := bind_eq_ok_iff.mp h
          obtain ⟨others, hothers, h⟩ := bind_eq_ok_iff.mp h
          cases h
          rcases List.mem_append.mp hmem with hmem | hmem
          · refine ⟨literal, List.mem_cons_self, ?_⟩
            have houtcome := template_outcome compiler inner text base literal progress
            rw [htemplate] at houtcome
            cases houtcome with
            | kept _ => exact .inr (mem_changedEdits hmem)
            | compiled _ _ _ => exact .inl (by rw [List.mem_singleton.mp hmem])
          · obtain ⟨literal', hliteral, hspan⟩ := ih hothers hmem
            exact ⟨literal', List.mem_cons_of_mem _ hliteral, hspan⟩

/-- A substitution ends behind the place where its template begins, even if it is empty. -/
theorem Item.Spells.lt_substitution {offset : Nat} {literal : TemplateLiteral} {t : Text}
    (h : (Item.template literal).Spells offset t) {part : Piece}
    (hmem : part ∈ literal.substitutions) : offset < part.span.stop := by
  cases h with
  | template _ hbody _ =>
      obtain ⟨left, right, -, hat⟩ := hbody.place (.inr hmem)
      rw [hat]
      dsimp only
      omega

section

variable {options : Options} {source : Text} {items : List Item}

theorem Tiles.start_lt_stop (h : Tiles 0 source items) {found : Item} (hmem : found ∈ items) :
    found.span.start < found.span.stop := by
  obtain ⟨before, t, after, -, hspells⟩ := h.place hmem
  have hsize : Text.byteSize t ≠ 0 := mt Text.eq_nil_of_byteSize_eq_zero hspells.ne_nil
  rw [hspells.span_eq]
  dsimp only
  omega

theorem le_stop_withLineBreak (source : Text) (span : Span) :
    span.stop ≤ (withLineBreak source span).stop := by
  rw [withLineBreak]
  dsimp only
  omega

/-- No edit for the items of a script ends where the first item begins. -/
theorem exists_lt_stop_of_mem_itemEdits (h : Tiles 0 source items) {compiler : Compiler}
    {inner : Compiler.Inner} {base : Nat} {progress after : Progress} {edits : List Edit}
    (hedits : compiler.templates inner source base items progress = .ok (edits, after))
    {edit : Edit} (hmem : edit ∈ removals options source items ++ edits) :
    ∃ found ∈ items, found.span.start < edit.span.stop := by
  rcases List.mem_append.mp hmem with hmem | hmem
  · obtain ⟨declaration, hdeclaration, rfl⟩ := List.mem_map.mp hmem
    have hitem := mem_bindings.mp (List.mem_filter.mp hdeclaration).1
    exact ⟨_, hitem, Nat.lt_of_lt_of_le (h.start_lt_stop hitem) (le_stop_withLineBreak _ _)⟩
  · obtain ⟨literal, hliteral, hspan⟩ := Compiler.span_of_mem_templates hedits hmem
    refine ⟨_, hliteral, ?_⟩
    rcases hspan with hspan | ⟨part, hpart, hspan⟩
    · rw [hspan]
      exact h.start_lt_stop hliteral
    · obtain ⟨before, t, after, -, hspells⟩ := h.place hliteral
      rw [hspan, hspells.span_eq]
      exact hspells.lt_substitution hpart

end

/-- What is inserted at a place comes directly behind the text in front of it, if all other edits
begin at that place or later and take something away behind it. -/
theorem Edit.applyAll_insertion_first {kept rest text code : Text} {edits : List Edit}
    (hbehind : ∀ edit ∈ edits, Text.byteSize kept ≤ edit.span.start ∧
      Text.byteSize kept < edit.span.stop)
    (h : applyAll (kept ++ rest) (edits ++ [⟨⟨Text.byteSize kept, Text.byteSize kept⟩, text⟩])
      = some code) :
    ∃ after, code = kept ++ (text ++ after) := by
  obtain ⟨earlier, later, hsorted, hinserted⟩ :=
    sorted_split edits ⟨Text.byteSize kept, Text.byteSize kept⟩
  have hordered := sorted_le (edits ++ [⟨⟨Text.byteSize kept, Text.byteSize kept⟩, text⟩])
  rw [hinserted] at hordered
  -- an edit in front of the insertion would have to end at its place
  have hnone : earlier = [] := by
    refine List.eq_nil_iff_forall_not_mem.mpr fun edit hmem => ?_
    have hle := (List.pairwise_append.mp hordered).2.2 edit hmem _ List.mem_cons_self
    rw [le_iff] at hle
    have hedit : edit ∈ sorted le edits := by
      rw [hsorted]
      exact List.mem_append_left _ hmem
    obtain ⟨hstart, hstop⟩ := hbehind edit ((sorted_perm le edits).mem_iff.mp hedit)
    dsimp only at hle
    omega
  rw [applyAll, hinserted, hnone, List.nil_append] at h
  change applyFrom (Text.byteSize []) _ _ = _ at h
  obtain ⟨kept', t, after, tail, hsource, hspan, -, rfl⟩ := applyFrom_cons_eq_some_iff.mp h
  obtain ⟨rfl, -⟩ := Text.append_inj_of_byteSize hsource (Span.mk.inj hspan).1
  exact ⟨tail, List.append_assoc _ _ _⟩

/-- **The declarations come directly behind the prologue**, if there are any and no item begins on
an interpreter line. -/
theorem transform_code_prologue {options : Options} {source : Text} {result : Transformed}
    {items : List Item} {edits : List Edit} {progress : Progress}
    (h : transform options source = .ok result)
    (hcompile : compileTemplates options source = .ok (items, edits, progress))
    (hshared : progress.scope.shared ≠ [])
    (hline : namesInterpreter source = true → ∀ found ∈ items,
      Text.byteSize (firstLine source) ≤ found.span.start) :
    ∃ after, result.code
      = prologue source ++ (declarations options progress.scope.shared ++ after) := by
  obtain ⟨_, _, _, hcompile', hcode, -⟩ := transform_eq_ok_iff.mp h
  rw [hcompile] at hcompile'
  cases hcompile'
  unfold compileTemplates at hcompile
  obtain ⟨found, hscan, hcompile⟩ := bind_eq_ok_iff.mp hcompile
  obtain ⟨compiled, htemplates, hcompile⟩ := bind_eq_ok_iff.mp hcompile
  cases hcompile
  rw [mapError_eq_ok_iff] at hscan
  have htiles := tiles_of_scan hscan
  have hbehind : ∀ found ∈ items, prologueEnd source ≤ found.span.start := by
    intro found hmem
    rcases item_begins hscan hmem with ⟨hnames, hlt⟩ | hle
    · exact absurd hlt (Nat.not_lt.mpr (hline hnames found hmem))
    · exact hle
  obtain ⟨start, hsource⟩ := exists_append_afterPrologue source
  rw [fileEdits, if_neg (mt declarations_isEmpty_iff.mp hshared), prologueEnd_eq hsource,
    hsource] at hcode
  rw [prologue_eq hsource]
  refine Edit.applyAll_insertion_first (fun edit hedit => ?_) hcode
  rw [← hsource] at hedit
  rw [← prologueEnd_eq hsource]
  obtain ⟨-, first, hfirst, hstart, -⟩ := mem_itemEdits htiles htemplates hedit
  obtain ⟨second, hsecond, hstop⟩ := exists_lt_stop_of_mem_itemEdits htiles htemplates hedit
  exact ⟨Nat.le_trans (hbehind first hfirst) hstart,
    Nat.lt_of_le_of_lt (hbehind second hsecond) hstop⟩

/-- **When declarations begin a statement.** The text in front of the place where declarations are
inserted ends a statement if and only if the script has no directive that is left open: one
followed by neither a semicolon nor blanks and a line feed. The declarations come directly behind
that text, unless an item begins on an interpreter line; so behind a directive that is left open
they stand on its line. -/
theorem declarations_begin_statement_iff (source : Text) :
    (endsStatement (prologue source) = true ↔ ¬OpenDirective source) ∧
    ∀ (options : Options) (result : Transformed) (items : List Item) (edits : List Edit)
      (progress : Progress),
      transform options source = .ok result →
      compileTemplates options source = .ok (items, edits, progress) →
      progress.scope.shared ≠ [] →
      (namesInterpreter source = true → ∀ found ∈ items,
        Text.byteSize (firstLine source) ≤ found.span.start) →
      ∃ after, result.code
        = prologue source ++ (declarations options progress.scope.shared ++ after) :=
  ⟨endsStatement_prologue_iff source, fun _ _ _ _ _ => transform_code_prologue⟩

/-- A carriage return after the directive leaves it open, and so does a comment. The declarations
are then put between the directive and the end of its line. -/
theorem declarations_before_line_break :
    let source := ("'use strict'\r\nvar html = require('bel')\r\n" ++
      "html\x60<p>$\x7bx\x7d</p>\x60").toList
    let declared := "var _appendChild = require(\"yo-yoify/lib/appendChild\");\n".toList
    let rest := ("\r\n;(() => \x7b\n  var _p = document.createElement(\"p\");\n" ++
      "  _appendChild(_p, [x]);\n  return _p;\n\x7d)()").toList
    endsStatement (prologue source) = false ∧
      (transform {} source).toOption = some ⟨"'use strict'".toList ++ declared ++ rest, 1⟩ ∧
      endsStatement (prologue "'use strict' // c\nf()".toList) = false := by
  decide +kernel

end Script
end Hypertext

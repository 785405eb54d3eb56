import Hypertext.Proofs.Compiling
import Hypertext.Proofs.Prologue
import Mathlib.Data.List.Pairwise

set_option autoImplicit false

/-! # Where declarations are inserted

The edits of a script come from three sides: declarations that are deleted with the line break after
them, templates, and the declarations that are inserted after the prologue. An edit for an item
stays within the reach of that item (`Item.Owns`), and the reaches of different items are
disjoint, since no item begins in the blanks after another. The insertion is apart from all of them
unless an item on the interpreter line reaches past it (`fileEdits_separate`).
-/

namespace Hypertext
namespace Script

/-! ## Deleted declarations -/

/-- A deleted declaration takes blanks and a line break with it. -/
theorem withLineBreak_spec {source before t after : Text}
    (hsource : source = before ++ (t ++ after)) :
    ∃ extra rest, after = extra ++ rest ∧ IsSpaces extra ∧
      withLineBreak source ⟨Text.byteSize before, Text.byteSize before + Text.byteSize t⟩
        = ⟨Text.byteSize before, Text.byteSize before + Text.byteSize (t ++ extra)⟩ := by
  have hdrop : Text.dropBytes (Text.byteSize before + Text.byteSize t) source = after := by
    have hcut : Text.cut? (Text.byteSize before + Text.byteSize t) source
        = some (before ++ t, after) := by
      rw [Text.cut?_eq_some_iff, Text.byteSize_append, List.append_assoc]
      exact ⟨hsource, rfl⟩
    rw [Text.dropBytes, hcut]
    rfl
  have hspaces : IsSpaces (after.takeWhile Lexeme.isInlineBlank) := by
    intro c hc
    rw [Lexeme.isSpace, List.mem_takeWhile_imp hc, Bool.true_or]
  have hreturn : IsSpaces ['\r', '\n'] := List.all_eq_true.mp (by decide)
  -- whatever line break follows the blanks, it is taken with them
  have htaken : ∀ newline rest, after.dropWhile Lexeme.isInlineBlank = newline ++ rest →
      IsSpaces newline → ∃ extra rest, after = extra ++ rest ∧ IsSpaces extra ∧
        Span.mk (Text.byteSize before) (Text.byteSize before + Text.byteSize t
          + Text.byteSize (after.takeWhile Lexeme.isInlineBlank) + Text.byteSize newline)
        = ⟨Text.byteSize before, Text.byteSize before + Text.byteSize (t ++ extra)⟩ := by
    intro newline rest hrest hnewline
    refine ⟨after.takeWhile Lexeme.isInlineBlank ++ newline, rest, ?_, fun c hc => ?_, ?_⟩
    · rw [List.append_assoc, ← hrest, List.takeWhile_append_dropWhile]
    · rcases List.mem_append.mp hc with hc | hc
      · exact hspaces c hc
      · exact hnewline c hc
    · simp only [Text.byteSize_append, Nat.add_assoc]
  unfold withLineBreak
  dsimp only
  rw [hdrop]
  split
  · next rest hrest => exact htaken ['\r', '\n'] rest hrest hreturn
  · next rest hrest =>
      exact htaken ['\n'] rest hrest fun c hc => hreturn c (List.mem_cons_of_mem _ hc)
  · exact htaken [] _ rfl fun c hc => absurd hc List.not_mem_nil

/-- How far the edits for an item can reach: a declaration that is deleted takes blanks and a line
break with it. -/
def Item.reach (options : Options) (source : Text) : Item → Span
  | .binding declaration =>
    if options.removesImport declaration.moduleName then withLineBreak source declaration.span
    else declaration.span
  | .template literal => literal.span

/-- The reach of an item is its text, with nothing but blanks behind it. -/
theorem Item.Spells.reach (options : Options) {source before t after : Text} {found : Item}
    (h : found.Spells (Text.byteSize before) t) (hsource : source = before ++ (t ++ after)) :
    ∃ extra rest, after = extra ++ rest ∧ IsSpaces extra ∧
      found.reach options source
        = ⟨Text.byteSize before, Text.byteSize before + Text.byteSize (t ++ extra)⟩ := by
  have hspan := h.span_eq
  have hplain : ∃ extra rest, after = extra ++ rest ∧ IsSpaces extra ∧ found.span
      = ⟨Text.byteSize before, Text.byteSize before + Text.byteSize (t ++ extra)⟩ := by
    refine ⟨[], after, rfl, fun c hc => absurd hc List.not_mem_nil, ?_⟩
    rw [List.append_nil]
    exact hspan
  cases found with
  | template literal => exact hplain
  | binding declaration =>
      have hspan : declaration.span = _ := hspan
      by_cases hremoves : options.removesImport declaration.moduleName = true
      · rw [Item.reach, if_pos hremoves, hspan]
        exact withLineBreak_spec hsource
      · rw [Item.reach, if_neg hremoves]
        exact hplain

/-- Not even the reach of an item overlaps with a later item. -/
theorem reach_pairwise (options : Options) {source : Text} {items : List Item}
    (h : Tiles 0 source items) :
    items.Pairwise fun a b => (a.reach options source).stop ≤ b.span.start := by
  refine h.pairwise.imp_of_mem fun {a b} ha hb hle => ?_
  obtain ⟨before, t, after, hsource, hspells⟩ := h.place ha
  obtain ⟨before', t', after', hsource', hspells'⟩ := h.place hb
  rw [Nat.zero_add] at hspells hspells'
  rw [hspells.span_eq, hspells'.span_eq] at hle
  obtain ⟨extra, rest, rfl, hextra, hreach⟩ := hspells.reach options hsource
  rw [hreach, hspells'.span_eq]
  -- the later item does not begin in the blanks
  have hsilent : Silent rest extra := hextra.silent rest
  have hbegins := hspells'.begins.append after'
  have hplace : before' ++ (t' ++ after') = (before ++ t) ++ (extra ++ rest) := by
    rw [← hsource', hsource]
    simp only [List.append_assoc]
  have hbehind := hsilent.le_of_begins hplace hbegins (by rwa [Text.byteSize_append])
  simp only [Text.byteSize_append] at hbehind ⊢
  omega

/-! ## All edits of a script -/

/-- An edit that changes nothing beyond the reach of an item. -/
def Item.Owns (options : Options) (source : Text) (found : Item) (edit : Edit) : Prop :=
  found.span.start ≤ edit.span.start ∧ edit.span.stop ≤ (found.reach options source).stop

/-- Two items, neither of which reaches into the other. -/
def Item.Clear (options : Options) (source : Text) (a b : Item) : Prop :=
  (a.reach options source).stop ≤ b.span.start ∨ (b.reach options source).stop ≤ a.span.start

instance (options : Options) (source : Text) : Std.Symm (Item.Clear options source) :=
  ⟨fun _ _ => Or.symm⟩

section

variable {options : Options} {source : Text} {items : List Item}

/-- Edits that belong to different items are apart. -/
theorem apart_of_owns (h : Tiles 0 source items) {a b : Item} (ha : a ∈ items) (hb : b ∈ items)
    (hne : a ≠ b) {e f : Edit} (he : a.Owns options source e) (hf : b.Owns options source f) :
    Edit.Apart e f := by
  have hclear : items.Pairwise (Item.Clear options source) := (reach_pairwise options h).imp .inl
  have hapart : Item.Clear options source a b := hclear.forall ha hb hne
  obtain ⟨hstart, hstop⟩ := he
  obtain ⟨hstart', hstop'⟩ := hf
  rcases hapart with hle | hle
  · left
    omega
  · right
    omega

theorem mem_bindings {declaration : ModuleBinding} :
    declaration ∈ bindings items ↔ .binding declaration ∈ items := by
  unfold bindings
  rw [List.mem_filterMap]
  constructor
  · rintro ⟨found, hmem, heq⟩
    cases found with
    | binding other =>
        cases heq
        exact hmem
    | template literal => cases heq
  · exact fun hmem => ⟨_, hmem, rfl⟩

/-- A deleted declaration is a slice of the script and belongs to its item. -/
theorem mem_removals (h : Tiles 0 source items) {edit : Edit}
    (hmem : edit ∈ removals options source items) :
    (Span.slice? source edit.span).isSome = true ∧
      ∃ declaration, .binding declaration ∈ items ∧
        (Item.binding declaration).Owns options source edit := by
  obtain ⟨declaration, hdeclaration, rfl⟩ := List.mem_map.mp hmem
  obtain ⟨hbinding, hremoves⟩ := List.mem_filter.mp hdeclaration
  have hitem := mem_bindings.mp hbinding
  obtain ⟨before, t, after, hsource, hspells⟩ := h.place hitem
  rw [Nat.zero_add] at hspells
  obtain ⟨extra, rest, rfl, -, hreach⟩ := hspells.reach options hsource
  have hspan : (Item.binding declaration).reach options source
      = withLineBreak source declaration.span := by
    rw [Item.reach, if_pos hremoves]
  rw [hspan] at hreach
  refine ⟨?_, declaration, hitem, ?_, ?_⟩
  · rw [← List.append_assoc t] at hsource
    rw [Option.isSome_iff_exists]
    exact ⟨_, Span.slice?_eq_some_iff.mpr ⟨before, rest, hsource, hreach⟩⟩
  · rw [hspells.span_eq]
    show _ ≤ (withLineBreak source declaration.span).start
    rw [hreach]
  · rw [hspan]

theorem removals_pairwise (h : Tiles 0 source items) :
    (removals options source items).Pairwise Edit.Apart := by
  have hbindings : (bindings items).Pairwise fun a b =>
      ((Item.binding a).reach options source).stop ≤ b.span.start := by
    refine List.Pairwise.filterMap _ (fun a b hab x hx y hy => ?_) (reach_pairwise options h)
    cases a with
    | template literal => cases hx
    | binding a =>
        cases b with
        | template literal => cases hy
        | binding b =>
            cases hx
            cases hy
            exact hab
  refine List.pairwise_map.mpr ((hbindings.filter _).imp_of_mem fun {a b} ha _ hab => ?_)
  rw [Item.reach, if_pos (List.mem_filter.mp ha).2] at hab
  exact .inl hab

theorem slice_prologueEnd (source : Text) :
    (Span.slice? source ⟨prologueEnd source, prologueEnd source⟩).isSome = true := by
  obtain ⟨start, hsource⟩ := exists_append_afterPrologue source
  rw [prologueEnd_eq hsource, Option.isSome_iff_exists]
  exact ⟨[], Span.slice?_eq_some_iff.mpr ⟨start, _, hsource, rfl⟩⟩

/-- Every edit for the items of a script is a slice of it and belongs to an item. -/
theorem mem_itemEdits (h : Tiles 0 source items) {compiler : Compiler} {inner : Compiler.Inner}
    {base : Nat} {progress after : Progress} {edits : List Edit}
    (hedits : compiler.templates inner source base items progress = .ok (edits, after))
    {edit : Edit} (hmem : edit ∈ removals options source items ++ edits) :
    (Span.slice? source edit.span).isSome = true ∧
      ∃ found ∈ items, found.Owns options source edit := by
  rcases List.mem_append.mp hmem with hmem | hmem
  · obtain ⟨hslice, declaration, hdeclaration, howned⟩ := mem_removals h hmem
    exact ⟨hslice, _, hdeclaration, howned⟩
  · obtain ⟨hslice, literal, hliteral, howned⟩ :=
      (Compiler.templates_edits h.tiling.exact h.tiling.apart hedits).2 edit hmem
    exact ⟨hslice, _, hliteral, howned⟩

/-- The edits for the items of a script are apart, those for declarations also from those for
templates. -/
theorem itemEdits_pairwise (h : Tiles 0 source items) {compiler : Compiler}
    {inner : Compiler.Inner} {base : Nat} {progress after : Progress} {edits : List Edit}
    (hedits : compiler.templates inner source base items progress = .ok (edits, after)) :
    (removals options source items ++ edits).Pairwise Edit.Apart := by
  obtain ⟨hinOrder, hinside⟩ := Compiler.templates_edits h.tiling.exact h.tiling.apart hedits
  refine List.pairwise_append.mpr ⟨removals_pairwise h, hinOrder.imp .inl, ?_⟩
  intro removal hremoval edit hedit
  obtain ⟨-, declaration, hdeclaration, howned⟩ := mem_removals h hremoval
  obtain ⟨-, literal, hliteral, howned'⟩ := hinside edit hedit
  exact apart_of_owns h hdeclaration hliteral nofun howned howned'

/-- **The edits of a script are separate** if no item that begins on an interpreter line reaches
past the place where declarations are inserted. -/
theorem fileEdits_separate {compiler : Compiler} {inner : Compiler.Inner} {base : Nat}
    {progress after : Progress} {edits : List Edit} (hscan : scan source = .ok items)
    (hedits : compiler.templates inner source base items progress = .ok (edits, after))
    (hline : namesInterpreter source = true → ∀ found ∈ items,
      found.span.start < Text.byteSize (firstLine source) →
        (found.reach options source).stop ≤ prologueEnd source) (declared : Text) :
    Edit.Separate source (fileEdits options source items edits declared) := by
  have htiles := tiles_of_scan hscan
  have hpairwise : (removals options source items ++ edits).Pairwise Edit.Apart :=
    itemEdits_pairwise htiles hedits
  have hbounds : ∀ edit ∈ removals options source items ++ edits,
      (Span.slice? source edit.span).isSome = true :=
    fun edit hedit => (mem_itemEdits htiles hedits hedit).1
  -- an edit comes before the insertion if its item begins on the interpreter line, else after it
  have hinsertion : ∀ edit ∈ removals options source items ++ edits,
      Edit.Apart edit ⟨⟨prologueEnd source, prologueEnd source⟩, declared⟩ := by
    intro edit hedit
    obtain ⟨-, found, hmem, hstart, hstop⟩ := mem_itemEdits htiles hedits hedit
    rcases item_begins hscan hmem with ⟨hnames, hfirst⟩ | hle
    · left
      calc
        edit.span.stop ≤ (found.reach options source).stop := hstop
        _ ≤ prologueEnd source := hline hnames found hmem hfirst
    · right
      calc
        prologueEnd source ≤ found.span.start := hle
        _ ≤ edit.span.start := hstart
  unfold fileEdits
  split
  · rw [List.append_nil]
    exact Edit.separate_of_apart hbounds hpairwise
  · refine Edit.separate_of_apart (fun edit hedit => ?_) ?_
    · rcases List.mem_append.mp hedit with hedit | hedit
      · exact hbounds edit hedit
      · rw [List.mem_singleton.mp hedit]
        exact slice_prologueEnd source
    · refine List.pairwise_append.mpr ⟨hpairwise, List.pairwise_singleton _ _, ?_⟩
      intro edit hedit insertion hmem
      rw [List.mem_singleton.mp hmem]
      exact hinsertion edit hedit

end

/-- **Edits never overlap, but for items on an interpreter line.** The edits for the templates of
any text are separate, also in nested substitutions. In a script without an interpreter line, so are
the edits of the whole script, and it is never refused because changes overlap. If a script is
refused for that, some item begins on its interpreter line and reaches past the place where
declarations are inserted. -/
theorem transform_edits_separate (options : Options) (source : Text) :
    (∀ (compiler : Compiler) inner text base items progress edits after,
      scan text = .ok items →
      compiler.templates inner text base items progress = .ok (edits, after) →
      Edit.Separate text edits) ∧
    (namesInterpreter source = false →
      transform options source ≠ .error .overlap ∧
      ∀ (compiler : Compiler) inner base items progress edits after declared,
        scan source = .ok items →
        compiler.templates inner source base items progress = .ok (edits, after) →
        Edit.Separate source (fileEdits options source items edits declared)) ∧
    (transform options source = .error .overlap →
      ∃ items found, scan source = .ok items ∧ found ∈ items ∧
        found.span.start < Text.byteSize (firstLine source) ∧
        prologueEnd source < (found.reach options source).stop) := by
  refine ⟨fun _ _ _ _ _ _ _ _ => Compiler.templates_separate, fun hnone => ?_, fun h => ?_⟩
  · have hline : namesInterpreter source ≠ true := by
      rw [hnone]
      exact Bool.false_ne_true
    have hseparate : ∀ (compiler : Compiler) inner base items progress edits after declared,
        scan source = .ok items →
        compiler.templates inner source base items progress = .ok (edits, after) →
        Edit.Separate source (fileEdits options source items edits declared) := by
      intro compiler inner base items progress edits after declared hscan hedits
      exact fileEdits_separate hscan hedits (fun hnames => absurd hnames hline) declared
    refine ⟨fun h => ?_, hseparate⟩
    rcases transform_error h with hordinary | ⟨-, _, _, _, _, _, _, _, hscan, hedits, hnot⟩
    · exact hordinary
    · exact hnot (hseparate _ _ _ _ _ _ _ _ hscan hedits)
  · rcases transform_error h with hordinary | ⟨-, items, _, _, _, _, _, _, hscan, hedits, hnot⟩
    · exact absurd hordinary id
    · by_contra hnone
      refine hnot (fileEdits_separate hscan hedits (fun _ found hmem hfirst => ?_) _)
      by_contra hreach
      exact hnone ⟨items, found, hscan, hmem, hfirst, Nat.lt_of_not_le hreach⟩

/-- The reach of an item cannot be replaced by its span. Here the directive is the module name of a
declaration that begins on the interpreter line. The declaration ends where the prologue does,
but it is deleted together with the line break after it, which the prologue leaves alone. -/
theorem overlap_with_no_span_past_prologue :
    ¬∀ (options : Options) (source : Text), transform options source = .error .overlap →
      ∃ items found, scan source = .ok items ∧ found ∈ items ∧
        found.span.start < Text.byteSize (firstLine source) ∧
        prologueEnd source < found.span.stop := by
  intro h
  let options : Options :=
    { templateModules := ["use strict".toList], removeImports := ["use strict".toList] }
  let source : Text :=
    "#!import a from\n'use strict'\r\na\x60<p>$\x7bx\x7d</p>\x60".toList
  have hoverlap : (match transform options source with
      | .error e => decide (e = .overlap)
      | .ok _ => false) = true := by
    decide +kernel
  have hspans : (match scan source with
      | .ok items => items.all fun found =>
          decide (Text.byteSize (firstLine source) ≤ found.span.start ∨
            found.span.stop ≤ prologueEnd source)
      | .error _ => true) = true := by
    decide +kernel
  have htransform : transform options source = .error .overlap := by
    split at hoverlap
    · next heq => rw [heq, of_decide_eq_true hoverlap]
    · cases hoverlap
  obtain ⟨items, found, hscan, hmem, hstart, hstop⟩ := h options source htransform
  rw [hscan] at hspans
  have hfound := of_decide_eq_true (List.all_eq_true.mp hspans found hmem)
  omega

end Script
end Hypertext

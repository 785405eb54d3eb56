import Hypertext.Lowering
import Hypertext.Proofs.TokenErrors

set_option autoImplicit false

/-! # Errors in markup

A template can be refused because its parts do not match in number, or because of its markup. The
first is found when the template is put together; all that is done to it afterwards only ever
reports the second (`Template.lower_error`).

An error in markup names the place of its cause by a byte offset. This file says for each error what
stands there (`TemplateError.PointsAt`) and proves that it does, whatever markup is refused
(`Node.parse_error_points_at_cause`). A token that cannot be read is at fault where it begins, or
where a value in it begins (`Token.read_error_located`). For the errors of the parser it counts
which elements are open. A row of tokens is `Token.Complete` if it closes all that it opens and
nothing else; an element is open as long as all that follows its tag is complete. A step of the
parser keeps account of this (`PartialTree.accounts_step`), and so does a run.
-/

namespace Hypertext

/-! ## Complete rows of tokens -/

namespace Token

/-- Every element that is opened by the tokens is closed by them, and no other one. -/
inductive Complete : List Token → Prop where
  | nil : Complete []
  | leaf {token : Token} {node : Node} {row : List Token} (hleaf : token.leaf? = some node)
      (hrow : Complete row) : Complete (token :: row)
  | element (tag : Text) (given : List (Text × Text)) {inside row : List Token}
      (hinside : Complete inside) (hrow : Complete row) :
      Complete (.opening tag given false :: (inside ++ .closing tag :: row))

theorem Complete.append {row row' : List Token} (h : Complete row) (h' : Complete row') :
    Complete (row ++ row') := by
  induction h with
  | nil => exact h'
  | leaf hleaf _ ih => exact ih.leaf hleaf
  | element tag given hinside _ _ ih =>
      rw [List.cons_append, List.append_assoc, List.cons_append]
      exact .element tag given hinside ih

end Token

/-! ## What stands at the place of an error -/

namespace TemplateError

open Token

/-- The offset that an error names. -/
def offset? : TemplateError → Option Nat
  | .quasiCount _ _ | .rootCount _ => none
  | .missingTagName offset | .dynamicTagName offset | .placeholderInComment offset
  | .unterminated _ offset | .unexpectedClosingTag _ offset | .mismatchedClosingTag _ _ offset
  | .unclosedElement _ offset | .strayText offset => some offset

/-- What an error is about stands at a place in the markup, behind `before`. It is
* for a tag without a name, a `<` with nothing behind it that could be one;
* for a name or a comment with a placeholder, the `<` of the tag or comment;
* for a construct that does not end, its `<`, or the quote that begins the value;
* for a closing tag that closes nothing, or not the innermost open element, its `<`;
* for an element that is never closed, the `<` of its opening tag;
* for text outside of the root, the first character of that text. -/
def PointsAt (before after : Text) : TemplateError → Prop
  | .quasiCount _ _ | .rootCount _ => False
  | .missingTagName _ => ∃ row rest, Passes (before ++ after) row after ∧ after = '<' :: rest ∧
      (rest = [] ∨ atBlank rest = true ∨ rest.head? = some '>')
  | .dynamicTagName _ => ∃ row name rest, Passes (before ++ after) row after ∧
      after = '<' :: (name ++ rest) ∧ IsWholeName name rest ∧ Placeholder.contained name = true
  | .placeholderInComment _ => ∃ row content rest, Passes (before ++ after) row after ∧
      after = "<!--".toList ++ (content ++ ("-->".toList ++ rest)) ∧
      Text.includes "-->".toList content = false ∧ Placeholder.contained content = true
  | .unterminated .comment _ => ∃ row body, Passes (before ++ after) row after ∧
      after = "<!--".toList ++ body ∧ Text.includes "-->".toList body = false
  | .unterminated .closingTag _ => ∃ row name blanks rest, Passes (before ++ after) row after ∧
      after = '<' :: '/' :: (name ++ (blanks ++ rest)) ∧ IsWholeName name (blanks ++ rest) ∧
      (∀ c ∈ blanks, isTagBlank c = true) ∧ atBlank rest = false ∧ rest.head? ≠ some '>'
  | .unterminated .tag _ => ∃ row tag inside given blanks, Passes (before ++ after) row after ∧
      after = '<' :: (tag ++ inside) ∧ IsTagName tag ∧ IsWholeName tag inside ∧
      Gives inside given blanks ∧ ∀ c ∈ blanks, isTagBlank c = true
  | .unterminated .attributeValue _ => ∃ start row tag inside quote body,
      before = start ++ '<' :: (tag ++ inside) ∧ after = quote :: body ∧
      (quote = '"' ∨ quote = '\x27') ∧ quote ∉ body ∧
      Passes (before ++ after) row ('<' :: (tag ++ (inside ++ after))) ∧
      IsTagName tag ∧ IsWholeName tag (inside ++ after) ∧ OpensValue (inside ++ after) after
  | .unexpectedClosingTag tag _ => ∃ row blanks rest, Passes (before ++ after) row after ∧
      after = '<' :: '/' :: (tag ++ (blanks ++ '>' :: rest)) ∧
      (∀ c ∈ blanks, isTagBlank c = true) ∧ Complete row
  | .mismatchedClosingTag expected found _ => ∃ row given inside blanks rest,
      Passes (before ++ after) (row ++ .opening expected given false :: inside) after ∧
      after = '<' :: '/' :: (found ++ (blanks ++ '>' :: rest)) ∧
      (∀ c ∈ blanks, isTagBlank c = true) ∧ Complete inside ∧ expected ≠ found
  | .unclosedElement tag _ => ∃ row given inside rest, Passes (before ++ after) row after ∧
      after = '<' :: (tag ++ rest) ∧ IsWholeName tag rest ∧
      Passes after (.opening tag given false :: inside) [] ∧ Complete inside
  | .strayText _ => ∃ row run rest, Passes (before ++ after) row after ∧ Complete row ∧
      after = run ++ rest ∧ '<' ∉ run ∧ (rest = [] ∨ rest.head? = some '<') ∧
      run.isAllBlank = false ∧ (before = [] ∨ before.getLast? = some '>')

end TemplateError

/-- An error names a place in the markup, before its end, and what it is about stands there. -/
def TemplateError.LocatedIn (markup : Text) (e : TemplateError) : Prop :=
  ∃ before c after, markup = before ++ c :: after ∧ e.offset? = some (Text.byteSize before) ∧
    e.PointsAt before (c :: after)

namespace Token

/-- **A token that cannot be read** is at fault where it begins, or where a value in it begins. -/
theorem read_error_located {before after : Text} {row : List Token} {e : TemplateError}
    (hpasses : Passes (before ++ after) row after)
    (h : read (Text.byteSize (before ++ after)) after = .error e) :
    e.LocatedIn (before ++ after) := by
  have hstart : Text.byteSize (before ++ after) - Text.byteSize after = Text.byteSize before := by
    rw [Text.byteSize_append, Nat.add_sub_cancel]
  unfold read at h
  dsimp only at h
  rw [hstart] at h
  split at h
  · next body =>
      refine ⟨before, '<', _, rfl, ?_⟩
      rcases readComment_fault h with ⟨rfl, hopen⟩ | ⟨rfl, content, rest, rfl, hclosed, hcontained⟩
      · exact ⟨rfl, row, body, hpasses, rfl, hopen⟩
      · exact ⟨rfl, row, content, rest, hpasses, rfl, hclosed, hcontained⟩
  · next t =>
      obtain ⟨rfl, name, blanks, rest, rfl, hname, hblanks, hrest, hopen⟩ := readClosing_fault h
      exact ⟨before, '<', _, rfl, rfl, row, name, blanks, rest, hpasses, rfl, hname, hblanks, hrest,
        hopen⟩
  · next t hcomment hclosing =>
      rcases readOpening_fault hcomment h with ⟨rfl, hnone⟩ | ⟨tag, inside, rfl, hname, hfault⟩
      · refine ⟨before, '<', t, rfl, rfl, row, t, hpasses, rfl, ?_⟩
        cases t with
        | nil => exact .inl rfl
        | cons c u =>
            -- a slash would have begun a closing tag
            have hslash : c ≠ '/' := fun hc => hclosing u (by rw [hc])
            have hends : isTagBlank c = true ∨ c = '>' := by
              simpa [isTagNameChar, hslash, or_iff_not_imp_left] using hnone
            exact .inr (hends.imp_right fun hc => by rw [hc]; rfl)
      rcases hfault with ⟨rfl, hcontained⟩ | ⟨htag, hfault⟩
      · exact ⟨before, '<', _, rfl, rfl, row, tag, inside, hpasses, rfl, hname, hcontained⟩
      rcases hfault with ⟨rfl, given, blanks, hgives, hblanks⟩ | ⟨value, rfl, hvalue⟩
      · exact ⟨before, '<', _, rfl, rfl, row, tag, inside, given, blanks, hpasses, rfl, htag, hname,
          hgives, hblanks⟩
      · obtain ⟨quote, body, inside, rfl, rfl, hquote, hopen⟩ := hvalue.split
        refine ⟨before ++ '<' :: (tag ++ inside), quote, body, by simp, ?_, before, row, tag,
          inside, quote, body, rfl, rfl, hquote, hopen, ?_, htag, hname, hvalue⟩
        · simp [TemplateError.offset?]
          omega
        · simpa using hpasses
  · cases h

end Token

/-! ## Which elements are open -/

namespace PartialTree

open Token

/-- The tags of the elements that are open, the innermost first, with their offsets. -/
def openTags (tree : PartialTree) : List (Text × Nat) :=
  tree.opened.map fun element => (element.tag, element.offset)

/-- Tokens leave elements open: what stands behind each of their opening tags is complete, up to the
opening tag of the next. -/
inductive LeaveOpen : List (Nat × Token) → List (Text × Nat) → Prop where
  | none {row : List (Nat × Token)} (hrow : Complete (row.map Prod.snd)) : LeaveOpen row []
  | element {row inside : List (Nat × Token)} {others : List (Text × Nat)} (tag : Text)
      (given : List (Text × Text)) (offset : Nat) (hrow : LeaveOpen row others)
      (hinside : Complete (inside.map Prod.snd)) :
      LeaveOpen (row ++ (offset, .opening tag given false) :: inside) ((tag, offset) :: others)

theorem LeaveOpen.append {row more : List (Nat × Token)} {tags : List (Text × Nat)}
    (h : LeaveOpen row tags) (hmore : Complete (more.map Prod.snd)) :
    LeaveOpen (row ++ more) tags := by
  cases h with
  | none hrow =>
      refine .none ?_
      rw [List.map_append]
      exact hrow.append hmore
  | element tag given offset hrow hinside =>
      rw [List.append_assoc, List.cons_append]
      refine hrow.element tag given offset ?_
      rw [List.map_append]
      exact hinside.append hmore

/-- What is known of a tree by the tokens that were read: they leave its open elements open, and a
text among its roots stands behind complete tokens. -/
structure Accounts (row : List (Nat × Token)) (tree : PartialTree) : Prop where
  opened : LeaveOpen row tree.openTags
  texts : ∀ offset content, (offset, .text content) ∈ tree.roots →
    ∃ first later, row = first ++ (offset, .text content) :: later ∧ Complete (first.map Prod.snd)

theorem openTags_add (tree : PartialTree) (offset : Nat) (node : Node) :
    (tree.add offset node).openTags = tree.openTags := by
  obtain ⟨opened, roots⟩ := tree
  cases opened with
  | nil => rfl
  | cons parent others => rfl

/-- Where no element is open, the tokens so far are complete. -/
theorem Accounts.complete {row : List (Nat × Token)} {tree : PartialTree} (h : Accounts row tree)
    (hopened : tree.opened = []) : Complete (row.map Prod.snd) := by
  have hleave := h.opened
  rw [openTags, hopened, List.map_nil] at hleave
  cases hleave with
  | none hrow => exact hrow

/-- A text among the roots after a node was added was there before, or is that node and no element
is open. -/
theorem mem_roots_add_text {tree : PartialTree} {offset o : Nat} {node : Node} {content : Text}
    (h : (o, .text content) ∈ (tree.add offset node).roots) :
    (o, .text content) ∈ tree.roots ∨
      (tree.opened = [] ∧ o = offset ∧ node = .text content) := by
  unfold add at h
  split at h
  · next hopened =>
      rcases List.mem_cons.mp h with heq | h
      · cases heq
        exact .inr ⟨hopened, rfl, rfl⟩
      · exact .inl h
  · exact .inl h

theorem eq_text_of_leaf? {token : Token} {content : Text} (h : token.leaf? = some (.text content)) :
    token = .text content := by
  cases token with
  | text other =>
      cases h
      rfl
  | comment other => cases h
  | opening tag given empty =>
      cases empty with
      | true => cases h
      | false => cases h
  | closing tag => cases h

/-- **One step** keeps account of the open elements and of the texts among the roots. -/
theorem accounts_step {row : List (Nat × Token)} {tree next : PartialTree} {offset : Nat}
    {token : Token} (hstep : tree.step (offset, token) = .ok next) (h : Accounts row tree) :
    Accounts (row ++ [(offset, token)]) next := by
  have hold : ∀ {o content}, (o, .text content) ∈ tree.roots → ∃ first later,
      row ++ [(offset, token)] = first ++ (o, .text content) :: later ∧
        Complete (first.map Prod.snd) := by
    intro o content hroot
    obtain ⟨first, later, rfl, hfirst⟩ := h.texts o content hroot
    exact ⟨first, later ++ [(offset, token)], by simp, hfirst⟩
  rcases step_cases hstep with ⟨node, hleaf, rfl⟩ | ⟨tag, given, rfl, rfl⟩ |
    ⟨element, others, rfl, hopened, rfl⟩
  · refine ⟨?_, fun o content hroot => ?_⟩
    · rw [openTags_add]
      exact h.opened.append (Complete.nil.leaf hleaf)
    · rcases mem_roots_add_text hroot with hroot | ⟨hopened, rfl, rfl⟩
      · exact hold hroot
      · exact ⟨row, [], by rw [eq_text_of_leaf? hleaf], h.complete hopened⟩
  · exact ⟨h.opened.element tag given offset .nil, fun o content => hold⟩
  · refine ⟨?_, fun o content hroot => ?_⟩
    · -- the innermost element is complete now, and stands inside of the next one
      have hleave := h.opened
      rw [openTags, hopened, List.map_cons] at hleave
      rw [openTags_add]
      cases hleave with
      | element tag given place hrow hinside =>
          rw [List.append_assoc]
          refine hrow.append ?_
          rw [List.cons_append, List.map_cons, List.map_append]
          exact .element element.tag given hinside .nil
    · rcases mem_roots_add_text hroot with hroot | ⟨-, -, hclose⟩
      · exact hold hroot
      · cases hclose

/-- **A run** keeps account of them, too. -/
theorem accounts_steps {tokens row : List (Nat × Token)} {tree later : PartialTree}
    (hsteps : tree.steps tokens = .ok later) (h : Accounts row tree) :
    Accounts (row ++ tokens) later := by
  induction tokens generalizing tree row with
  | nil =>
      cases hsteps
      rwa [List.append_nil]
  | cons token tokens ih =>
      unfold steps at hsteps
      split at hsteps
      · cases hsteps
      next next hstep =>
      have hrest := ih hsteps (accounts_step hstep h)
      rwa [List.append_assoc] at hrest

theorem accounts_empty : Accounts [] .empty := ⟨.none .nil, fun _ _ h => absurd h List.not_mem_nil⟩

/-- A run that fails does so at one of its tokens. -/
theorem steps_error_cases {tokens : List (Nat × Token)} {tree : PartialTree} {e : TemplateError}
    (h : tree.steps tokens = .error e) :
    ∃ first token later next, tokens = first ++ token :: later ∧ tree.steps first = .ok next ∧
      next.step token = .error e := by
  induction tokens generalizing tree with
  | nil => cases h
  | cons token tokens ih =>
      unfold steps at h
      split at h
      · next hstep =>
          cases h
          exact ⟨[], token, tokens, tree, rfl, rfl, hstep⟩
      · next next hstep =>
          obtain ⟨first, other, later, last, rfl, hfirst, herror⟩ := ih h
          exact ⟨token :: first, other, later, last, rfl, by rw [steps, hstep]; exact hfirst,
            herror⟩

/-- Only a closing tag can be refused: no element is open, or the innermost one has another tag. -/
theorem step_error_cases {tree : PartialTree} {offset : Nat} {token : Token} {e : TemplateError}
    (h : tree.step (offset, token) = .error e) :
    ∃ tag, token = .closing tag ∧
      ((tree.opened = [] ∧ e = .unexpectedClosingTag tag offset) ∨
        ∃ element others, tree.opened = element :: others ∧ element.tag ≠ tag ∧
          e = .mismatchedClosingTag element.tag tag offset) := by
  unfold step at h
  split at h
  · cases h
  · cases h
  · cases h
  · cases h
  · next tag heq =>
      cases heq
      refine ⟨tag, rfl, ?_⟩
      split at h
      · next hopened =>
          cases h
          exact .inl ⟨hopened, rfl⟩
      · next element others hopened =>
          split at h
          · cases h
          · next htag =>
              cases h
              exact .inr ⟨element, others, hopened, htag, rfl⟩

/-- Roots are refused at a text that is not blank. -/
theorem rootNodes_error_cases {roots : List (Nat × Node)} {e : TemplateError}
    (h : rootNodes roots = .error e) :
    ∃ offset content, (offset, .text content) ∈ roots ∧ content.isAllBlank = false ∧
      e = .strayText offset := by
  fun_induction rootNodes roots with
  | case1 => cases h
  | case2 _ _ _ _ ih =>
      obtain ⟨offset, content, hmem, hrest⟩ := ih h
      exact ⟨offset, content, List.mem_cons_of_mem _ hmem, hrest⟩
  | case3 offset content _ hblank =>
      cases h
      exact ⟨offset, content, List.mem_cons_self, Bool.eq_false_iff.mpr hblank, rfl⟩
  | case4 _ _ _ _ ih =>
      obtain ⟨offset, content, hmem, hrest⟩ := ih (map_eq_error_iff.mp h)
      exact ⟨offset, content, List.mem_cons_of_mem _ hmem, hrest⟩

theorem finish_error_cases {tree : PartialTree} {e : TemplateError} (h : tree.finish = .error e) :
    (∃ element others, tree.opened = element :: others ∧
      e = .unclosedElement element.tag element.offset) ∨
    (∃ offset content, (offset, .text content) ∈ tree.roots ∧ content.isAllBlank = false ∧
      e = .strayText offset) ∨ ∃ count, e = .rootCount count := by
  unfold finish at h
  split at h
  · next element others hopened =>
      cases h
      exact .inl ⟨element, others, hopened, rfl⟩
  · split at h
    · next hroots =>
        cases h
        obtain ⟨offset, content, hmem, hrest⟩ := rootNodes_error_cases hroots
        exact .inr (.inl ⟨offset, content, List.mem_reverse.mp hmem, hrest⟩)
    · cases h
    · cases h
    · cases h
      exact .inr (.inr ⟨_, rfl⟩)

end PartialTree

/-! ## Errors of the parser -/

namespace Node

open Token PartialTree TemplateError

/-- A closing tag that is refused closes nothing, or not the innermost open element. -/
theorem step_error_located {markup : Text} {first later : List (Nat × Token)} {token : Nat × Token}
    {tree : PartialTree} {e : TemplateError}
    (htokens : (readAll (Text.byteSize markup) markup).1 = first ++ token :: later)
    (haccounts : Accounts first tree) (h : tree.step token = .error e) : e.LocatedIn markup := by
  obtain ⟨offset, token⟩ := token
  obtain ⟨tag, rfl, hrefused⟩ := step_error_cases h
  obtain ⟨before, c, after, rest, rfl, rfl, hpasses, hread, -⟩ := exists_place htokens
  obtain ⟨blanks, hafter, hblanks⟩ := read_spelled hread
  rcases hrefused with ⟨hopened, rfl⟩ | ⟨element, others, hopened, htag, rfl⟩
  · exact ⟨before, c, after, rfl, rfl, _, blanks, rest, hpasses, hafter, hblanks,
      haccounts.complete hopened⟩
  · have hleave := haccounts.opened
    rw [openTags, hopened, List.map_cons] at hleave
    cases hleave with
    | element tag' given place hrow hinside =>
        rw [List.map_append, List.map_cons] at hpasses
        exact ⟨before, c, after, rfl, rfl, _, given, _, blanks, rest, hpasses, hafter, hblanks,
          hinside, htag⟩

/-- An element that is open at the end was opened and never closed. -/
theorem unclosedElement_located {markup : Text} {tree : PartialTree} {element : OpenElement}
    {others : List OpenElement} (hnone : (readAll (Text.byteSize markup) markup).2 = none)
    (haccounts : Accounts (readAll (Text.byteSize markup) markup).1 tree)
    (hopened : tree.opened = element :: others) :
    (unclosedElement element.tag element.offset).LocatedIn markup := by
  have hleave := haccounts.opened
  rw [openTags, hopened, List.map_cons] at hleave
  generalize htokens : (readAll (Text.byteSize markup) markup).1 = tokens at hleave
  cases hleave with
  | @element row inside _ tag given place hrow hinside =>
      obtain ⟨before, c, after, rest, hmarkup, hoffset, hpasses, hread, hlater⟩ :=
        exists_place htokens
      obtain ⟨inner, hafter, hname⟩ := read_spelled hread
      -- all tokens behind the opening tag are read up to the end of the markup
      rw [hnone] at hlater
      have hend := (passes_nil_iff (Text.byteSize markup)).mpr
        ⟨congrArg (fun result => result.1.map Prod.snd) hlater, congrArg Prod.snd hlater⟩
      refine ⟨before, c, after, hmarkup, congrArg some hoffset.symm, row.map Prod.snd, given,
        inside.map Prod.snd, _, ?_, hafter, hname, hend.token (List.cons_ne_nil c after) hread,
        hinside⟩
      rw [← hmarkup]
      exact hpasses

/-- A text among the roots begins where a tag or comment has ended, or the markup begins. -/
theorem strayText_located {markup content : Text} {tree : PartialTree} {offset : Nat}
    (haccounts : Accounts (readAll (Text.byteSize markup) markup).1 tree)
    (hroot : (offset, .text content) ∈ tree.roots) (hblank : content.isAllBlank = false) :
    (strayText offset).LocatedIn markup := by
  obtain ⟨first, later, htokens, hcomplete⟩ := haccounts.texts offset content hroot
  obtain ⟨before, c, after, rest, rfl, rfl, hpasses, hread, -⟩ := exists_place htokens
  obtain ⟨hform, hhead, hrest⟩ := read_spec (List.cons_ne_nil c after) hread
  refine ⟨before, c, after, rfl, rfl, _, content, rest, hpasses, hcomplete, read_spelled hread,
    hform.2, hrest rfl, hblank, ?_⟩
  -- two texts do not follow each other
  rcases hpasses.ends (List.cons_ne_nil c after) (hhead rfl) with hwhole | ⟨taken, hwhole⟩
  · exact .inl (List.append_left_eq_self.mp hwhole)
  · have hbefore : before ++ c :: after = (taken ++ ['>']) ++ c :: after := by simpa using hwhole
    rw [List.append_cancel_right hbefore]
    exact .inr List.getLast?_concat

/-- An error of the parser is about a place in the markup, or about the number of roots. -/
theorem parse_error_located {markup : Text} {e : TemplateError} (h : parse markup = .error e) :
    e.LocatedIn markup ∨ ∃ count, e = .rootCount count := by
  -- a tag that is refused comes first, since it stands before the token that cannot be read
  unfold parse at h
  dsimp only at h
  split at h
  · next hsteps =>
      cases h
      obtain ⟨first, token, later, tree, htokens, hfirst, hstep⟩ := steps_error_cases hsteps
      exact .inl (step_error_located htokens (accounts_steps hfirst accounts_empty) hstep)
  next tree hsteps =>
  split at h
  · next hfails =>
      cases h
      obtain ⟨before, after, hmarkup, hpasses, hread⟩ := readAll_fails hfails
      rw [hmarkup] at hpasses hread ⊢
      exact .inl (read_error_located hpasses hread)
  next hnone =>
  have haccounts := accounts_steps hsteps accounts_empty
  rw [List.nil_append] at haccounts
  rcases finish_error_cases h with ⟨element, others, hopened, rfl⟩ |
    ⟨offset, content, hroot, hblank, rfl⟩ | hcount
  · exact .inl (unclosedElement_located hnone haccounts hopened)
  · exact .inl (strayText_located haccounts hroot hblank)
  · exact .inr hcount

/-- **Errors point at their cause.** Whatever markup is refused, if the error names an offset, then
that is the size of what stands before some character of the markup, and what the error is about
begins with this character. -/
theorem parse_error_points_at_cause {markup : Text} {e : TemplateError} {offset : Nat}
    (h : parse markup = .error e) (hoffset : e.offset? = some offset) :
    ∃ before c after, markup = before ++ c :: after ∧ Text.byteSize before = offset ∧
      e.PointsAt before (c :: after) := by
  rcases parse_error_located h with ⟨before, c, after, hmarkup, hplace, hpoints⟩ | ⟨count, rfl⟩
  · rw [hplace] at hoffset
    exact ⟨before, c, after, hmarkup, Option.some.inj hoffset, hpoints⟩
  · cases hoffset

/-- Behind characters of two bytes: a closing tag inside of another element, and a value that does
not end, with the other quote in it. -/
theorem parse_error_points_at_cause_wide :
    let crossed := "ä<p><b title='ß'>x</p>".toList
    let endless := "<p é = \"ü'></p>".toList
    parse crossed = .error (mismatchedClosingTag "b".toList "p".toList 20) ∧
    (∃ before c after, crossed = before ++ c :: after ∧ Text.byteSize before = 20 ∧
      (mismatchedClosingTag "b".toList "p".toList 20).PointsAt before (c :: after)) ∧
    parse endless = .error (unterminated .attributeValue 8) ∧
    ∃ before c after, endless = before ++ c :: after ∧ Text.byteSize before = 8 ∧
      (unterminated .attributeValue 8).PointsAt before (c :: after) := by
  intro crossed endless
  have herror : ∀ {markup : Text} {e : TemplateError},
      (match parse markup with | .error e => some e | .ok _ => none) = some e →
        parse markup = .error e := by
    intro markup e h
    cases hparse : parse markup with
    | error e' =>
        rw [hparse] at h
        exact congrArg Except.error (Option.some.inj h)
    | ok root =>
        rw [hparse] at h
        cases h
  have hcrossed : parse crossed = .error (mismatchedClosingTag "b".toList "p".toList 20) :=
    herror (by decide +kernel)
  have hendless : parse endless = .error (unterminated .attributeValue 8) :=
    herror (by decide +kernel)
  exact ⟨hcrossed, parse_error_points_at_cause hcrossed rfl, hendless,
    parse_error_points_at_cause hendless rfl⟩

end Node

/-! ## Errors of templates -/

/-- The errors that are found in the markup of a template, not in the number of its parts. -/
def TemplateError.ConcernsMarkup : TemplateError → Prop
  | .quasiCount _ _ => False
  | _ => True

theorem Node.parse_error {markup : Text} {e : TemplateError} (h : Node.parse markup = .error e) :
    e.ConcernsMarkup := by
  rcases Node.parse_error_located h with ⟨before, c, after, -, -, hpoints⟩ | ⟨count, rfl⟩
  · cases e with
    | quasiCount quasis expressions => exact hpoints
    | _ => trivial
  · trivial

theorem Template.lower_error {options : LoweringOptions} {template : Template} {scope : Scope}
    {e : TemplateError} (h : (template.lower options scope).1 = .error (.invalidTemplate e)) :
    e.ConcernsMarkup := by
  unfold Template.lower at h
  split at h
  · cases h
  · split at h
    · next hparse =>
        cases h
        exact Node.parse_error hparse
    · cases h
    · cases h

end Hypertext

import Hypertext.Proofs.Lowering
import Hypertext.Proofs.WellFormed

set_option autoImplicit false

/-! # Markup that describes nothing

Reading markup gives no tree in one case only: all of it is blank. This file proves that, and that a
template is therefore lowered to nothing exactly if it is blank, with every other template that can
be lowered creating its root first.

Once a token that is no text has been read, an element is open or there is a root that is no text
(`PartialTree.Occupied`), and this stays so to the end (`PartialTree.occupied_steps`). If all tokens
are texts, they are the whole markup (`Token.readAll_texts`), and all of them become roots
(`PartialTree.steps_texts`), where only blanks pass.
-/

namespace Hypertext

/-! ## Tokens that are texts -/

namespace Token

theorem eq_text_of_isText {token : Token} (h : token.isText = true) :
    ∃ content, token = .text content := by
  cases token with
  | text content => exact ⟨content, rfl⟩
  | comment _ | opening _ _ _ | closing _ => cases h

/-- Where no tag begins, text is read up to the next tag. -/
theorem read_of_head (size : Nat) {t : Text} (h : t.head? ≠ some '<') :
    read size t = .ok (.text (t.takeWhile (· != '<')), t.dropWhile (· != '<')) := by
  unfold read
  dsimp only
  split
  · exact absurd rfl h
  · exact absurd rfl h
  · exact absurd rfl h
  · rfl

theorem append_of_read_text {size : Nat} {t content rest : Text} (hne : t ≠ [])
    (h : read size t = .ok (.text content, rest)) : t = content ++ rest := by
  rw [read_of_head size ((read_spec hne h).2.1 rfl)] at h
  cases h
  exact List.takeWhile_append_dropWhile.symm

/-- Every character of a markup without tags is part of a text. -/
theorem readAll_texts {size : Nat} {t : Text} (hend : (readAll size t).2 = none)
    (htexts : ∀ token ∈ (readAll size t).1, token.2.isText = true) :
    ∀ c ∈ t, ∃ offset content, (offset, .text content) ∈ (readAll size t).1 ∧ c ∈ content := by
  fun_induction readAll size t with
  | case1 t hempty =>
      rw [List.isEmpty_iff.mp hempty]
      exact fun c hc => absurd hc List.not_mem_nil
  | case2 t hne e hread => cases hend
  | case3 t hne token rest hread hshorter ih =>
      obtain ⟨content, rfl⟩ := eq_text_of_isText (htexts _ List.mem_cons_self)
      have hsplit := append_of_read_text (by simpa using hne) hread
      intro c hc
      rw [hsplit] at hc
      rcases List.mem_append.mp hc with hc | hc
      · exact ⟨_, content, List.mem_cons_self, hc⟩
      · obtain ⟨offset, other, hmem, hother⟩ :=
          ih hend (fun token htoken => htexts token (List.mem_cons_of_mem _ htoken)) c hc
        exact ⟨offset, other, List.mem_cons_of_mem _ hmem, hother⟩
  | case4 t hne token rest hread hnot =>
      exact absurd (read_length (by simpa using hne) hread) hnot

end Token

/-! ## Trees that hold more than text -/

namespace PartialTree

/-- An element is open, or there is a root that is no text. -/
def Occupied (tree : PartialTree) : Prop :=
  tree.opened ≠ [] ∨ ∃ root ∈ tree.roots, root.2.isText = false

theorem occupied_add {tree : PartialTree} {offset : Nat} {node : Node}
    (h : node.isText = false ∨ tree.Occupied) : (tree.add offset node).Occupied := by
  unfold add
  split
  · next hopened =>
      rcases h with hnode | hopen | ⟨root, hroot, htext⟩
      · exact .inr ⟨(offset, node), List.mem_cons_self, hnode⟩
      · exact absurd hopened hopen
      · exact .inr ⟨root, List.mem_cons_of_mem _ hroot, htext⟩
  · exact .inl (List.cons_ne_nil _ _)

theorem isText_of_leaf? {token : Token} {node : Node} (h : token.leaf? = some node) :
    node.isText = token.isText := by
  cases token with
  | text content | comment content =>
      cases h
      rfl
  | opening tag given empty =>
      cases empty with
      | false => cases h
      | true =>
          cases h
          rfl
  | closing tag => cases h

/-- **One step.** A token that is no text shows in the tree, and nothing that follows can hide it.
-/
theorem occupied_step {tree next : PartialTree} {offset : Nat} {token : Token}
    (hstep : tree.step (offset, token) = .ok next)
    (h : token.isText = false ∨ tree.Occupied) : next.Occupied := by
  rcases step_cases hstep with ⟨node, hleaf, rfl⟩ | ⟨tag, given, -, rfl⟩ |
    ⟨element, others, -, -, rfl⟩
  · rw [← isText_of_leaf? hleaf] at h
    exact occupied_add h
  · exact .inl (List.cons_ne_nil _ _)
  · exact occupied_add (.inl rfl)

theorem steps_cons {tree later : PartialTree} {token : Nat × Token} {tokens : List (Nat × Token)}
    (h : tree.steps (token :: tokens) = .ok later) :
    ∃ next, tree.step token = .ok next ∧ next.steps tokens = .ok later := by
  unfold steps at h
  split at h
  · cases h
  · next next hstep => exact ⟨next, hstep, h⟩

/-- **A run.** -/
theorem occupied_steps {tokens : List (Nat × Token)} {tree later : PartialTree}
    (hsteps : tree.steps tokens = .ok later)
    (h : (∃ token ∈ tokens, token.2.isText = false) ∨ tree.Occupied) : later.Occupied := by
  induction tokens generalizing tree with
  | nil =>
      cases hsteps
      exact h.resolve_left (by simp)
  | cons token tokens ih =>
      obtain ⟨next, hstep, hrest⟩ := steps_cons hsteps
      refine ih hrest ?_
      rcases h with ⟨other, hother, htext⟩ | htree
      · rcases List.mem_cons.mp hother with rfl | hother
        · exact .inr (occupied_step hstep (.inl htext))
        · exact .inl ⟨other, hother, htext⟩
      · exact .inr (occupied_step hstep (.inr htree))

/-- Where no element is open, texts become roots. -/
theorem steps_texts {tokens : List (Nat × Token)} {tree later : PartialTree}
    (htexts : ∀ token ∈ tokens, token.2.isText = true) (hopened : tree.opened = [])
    (hsteps : tree.steps tokens = .ok later) :
    (∀ root ∈ tree.roots, root ∈ later.roots) ∧
      ∀ offset content, (offset, .text content) ∈ tokens →
        (offset, .text content) ∈ later.roots := by
  induction tokens generalizing tree with
  | nil =>
      cases hsteps
      exact ⟨fun _ hroot => hroot, fun _ _ h => absurd h List.not_mem_nil⟩
  | cons token tokens ih =>
      obtain ⟨next, hstep, hrest⟩ := steps_cons hsteps
      obtain ⟨offset, token⟩ := token
      obtain ⟨content, rfl⟩ := Token.eq_text_of_isText (htexts _ List.mem_cons_self)
      have hnext : next.opened = [] ∧ next.roots = (offset, .text content) :: tree.roots := by
        have hadd : tree.add offset (.text content) = next := Except.ok.inj hstep
        rw [← hadd, add, hopened]
        exact ⟨rfl, rfl⟩
      obtain ⟨hroots, hothers⟩ :=
        ih (fun other hother => htexts other (List.mem_cons_of_mem _ hother)) hnext.1 hrest
      rw [hnext.2] at hroots
      refine ⟨fun root hroot => hroots root (List.mem_cons_of_mem _ hroot), fun o t hmem => ?_⟩
      rcases List.mem_cons.mp hmem with heq | hmem
      · cases heq
        exact hroots _ List.mem_cons_self
      · exact hothers o t hmem

/-- Only blank texts do not count as roots. -/
theorem rootNodes_eq_nil {roots : List (Nat × Node)} (h : rootNodes roots = .ok []) :
    ∀ root ∈ roots, ∃ content, root.2 = .text content ∧ content.isAllBlank = true := by
  fun_induction rootNodes roots with
  | case1 => exact fun _ hroot => absurd hroot List.not_mem_nil
  | case2 offset content rest hblank ih =>
      intro root hroot
      rcases List.mem_cons.mp hroot with rfl | hroot
      · exact ⟨content, rfl, hblank⟩
      · exact ih h root hroot
  | case3 => cases h
  | case4 offset node rest _ _ =>
      obtain ⟨others, -, hcons⟩ := map_eq_ok_iff.mp h
      cases hcons

theorem finish_eq_none {tree : PartialTree} (h : tree.finish = .ok none) :
    tree.opened = [] ∧ rootNodes tree.roots.reverse = .ok [] := by
  unfold finish at h
  split at h
  · cases h
  next hopened =>
  split at h
  · cases h
  · next hroots => exact ⟨hopened, hroots⟩
  · cases h
  · cases h

end PartialTree

theorem Scope.createElement_creates (scope : Scope) (binding : Binding) (tag : Text) :
    (scope.createElement binding tag).1.isCreate = true ∧
      (scope.createElement binding tag).1.binding = binding := by
  unfold createElement
  split
  · exact ⟨rfl, rfl⟩
  · exact ⟨rfl, rfl⟩

/-! ## Markup without a tree -/

namespace Node

/-- Markup that describes no tree holds no character but blanks. -/
theorem blank_of_parse_eq_none {markup : Text} (h : parse markup = .ok none) :
    markup.isAllBlank = true := by
  unfold parse at h
  dsimp only at h
  split at h
  · cases h
  next tree hsteps =>
  split at h
  · cases h
  next hend =>
  obtain ⟨hopened, hroots⟩ := PartialTree.finish_eq_none h
  have hblank : ∀ root ∈ tree.roots, ∃ content, root.2 = .text content ∧
      content.isAllBlank = true :=
    fun root hroot => PartialTree.rootNodes_eq_nil hroots root (List.mem_reverse.mpr hroot)
  have hfree : ¬tree.Occupied := by
    rintro (hopen | ⟨root, hroot, htext⟩)
    · exact hopen hopened
    · obtain ⟨content, heq, -⟩ := hblank root hroot
      rw [heq] at htext
      cases htext
  have htexts : ∀ token ∈ (Token.readAll markup.byteSize markup).1, token.2.isText = true := by
    intro token htoken
    by_contra htext
    exact hfree (PartialTree.occupied_steps hsteps
      (.inl ⟨token, htoken, Bool.eq_false_iff.mpr htext⟩))
  refine List.all_eq_true.mpr fun c hc => ?_
  obtain ⟨offset, content, hmem, hcontent⟩ := Token.readAll_texts hend htexts c hc
  obtain ⟨-, hroot⟩ := PartialTree.steps_texts htexts rfl hsteps
  obtain ⟨other, heq, hall⟩ := hblank _ (hroot offset content hmem)
  cases heq
  exact List.all_eq_true.mp hall c hcontent

theorem parse_of_blank {markup : Text} (h : markup.isAllBlank = true) :
    parse markup = .ok none := by
  by_cases hne : markup = []
  · subst hne
    rw [parse, Token.readAll]
    rfl
  · have hplain : ∀ c ∈ markup, (c != '<') = true := by
      intro c hc
      rw [bne_iff_ne]
      rintro rfl
      exact absurd (List.all_eq_true.mp h _ hc) (by decide)
    have hread : Token.read markup.byteSize markup = .ok (.text markup, []) := by
      rw [Token.read_of_head]
      · rw [List.takeWhile_eq_self_iff.mpr hplain, List.dropWhile_eq_nil_iff.mpr hplain]
      · intro hhead
        have := hplain _ (List.mem_of_mem_head? hhead)
        cases this
    have hend : Token.readAll markup.byteSize [] = ([], none) := by rw [Token.readAll]; rfl
    rw [parse, Token.readAll_of_read hne hread, hend]
    show PartialTree.finish ⟨[], [(_, .text markup)]⟩ = .ok none
    simp [PartialTree.finish, PartialTree.rootNodes, h]

/-- **Only blank markup describes no tree.** -/
theorem parse_eq_none_iff {markup : Text} : parse markup = .ok none ↔ markup.isAllBlank = true :=
  ⟨blank_of_parse_eq_none, parse_of_blank⟩

/-- The root of a tree is no text. -/
theorem root_isText {markup : Text} {root : Node} (h : parse markup = .ok (some root)) :
    root.isText = false := by
  obtain ⟨tree, -, -, hfinish⟩ := parse_eq_some h
  obtain ⟨-, hroots⟩ := PartialTree.finish_eq_some hfinish
  exact (PartialTree.mem_rootNodes hroots List.mem_cons_self).1

/-- The operations of a node that is no text begin with its creation. -/
theorem lower_creates (options : LoweringOptions) (scope : Scope) {node : Node}
    (h : node.isText = false) :
    ∃ first rest, (node.lower options scope).1 = first :: rest ∧ first.isCreate = true ∧
      (node.lower options scope).2.1.binding? = some first.binding := by
  cases node with
  | text content => cases h
  | comment children =>
      rw [lower]
      exact ⟨_, _, rfl, rfl, rfl⟩
  | element tag attributes children =>
      obtain ⟨space, hoperations⟩ := scope.openElement_operations options tag attributes
      obtain ⟨hcreate, hbinding⟩ :=
        space.createElement_creates (scope.openElement options tag attributes).binding tag
      rw [lower_element]
      dsimp only
      rw [hoperations]
      exact ⟨_, _, rfl, hcreate, congrArg some hbinding.symm⟩

end Node

/-! ## Templates without a root -/

namespace Template

/-- A template is blank exactly if its markup is: the token of an expression is not. -/
theorem isBlank_iff (template : Template) :
    template.isBlank = true ↔ template.source.isAllBlank = true := by
  obtain ⟨quasis, expressions, hbalanced⟩ := template
  match quasis, expressions, hbalanced with
  | [quasi], [], _ => simp [isBlank, source, Placeholder.join, Placeholder.joinFrom]
  | first :: second :: others, expression :: expressions, _ =>
      have htoken : Hypertext.isBlank '\x00' = false := by decide
      simp [isBlank, source, Placeholder.join, Placeholder.joinFrom, Placeholder.encode,
        Text.isAllBlank, htoken]

/-- What a template is lowered to. -/
theorem lower_cases {options : LoweringOptions} {template : Template} {scope : Scope}
    {lowered : Lowered} (h : (template.lower options scope).1 = .ok lowered) :
    (template.isBlank = true ∧ lowered = .empty) ∨
      (template.isBlank = false ∧ ∃ first rest, lowered.operations = first :: rest ∧
        first.isCreate = true ∧ lowered.root = some first.binding) := by
  unfold lower at h
  by_cases hblank : template.isBlank = true
  · rw [if_pos hblank] at h
    cases h
    exact .inl ⟨hblank, rfl⟩
  · refine .inr ⟨Bool.eq_false_iff.mpr hblank, ?_⟩
    rw [if_neg hblank] at h
    cases hparse : Node.parse template.source with
    | error e =>
        rw [hparse] at h
        cases h
    | ok parsed =>
        rw [hparse] at h
        cases parsed with
        | none =>
            -- this branch is never reached: blank markup comes from blank templates only
            exact absurd (template.isBlank_iff.mpr (Node.parse_eq_none_iff.mp hparse)) hblank
        | some root =>
            cases h
            exact Node.lower_creates options scope (Node.root_isText hparse)

/-- **Only blank templates are lowered to nothing.** Markup describes no tree if and only if all its
characters are blanks. So a template is lowered to something without a root if and only if it is
blank, and there are no operations then; and in every other case in which it can be lowered, the
first operation creates the root. -/
theorem lower_empty_iff_blank :
    (∀ markup : Text, Node.parse markup = .ok none ↔ ∀ c ∈ markup, Hypertext.isBlank c = true) ∧
    ∀ (options : LoweringOptions) (template : Template) (scope : Scope),
      ((∃ lowered, (template.lower options scope).1 = .ok lowered ∧ lowered.root = none) ↔
        template.isBlank = true) ∧
      (∀ lowered, (template.lower options scope).1 = .ok lowered → template.isBlank = true →
        lowered.operations = []) ∧
      ∀ lowered, (template.lower options scope).1 = .ok lowered → template.isBlank = false →
        ∃ first rest, lowered.operations = first :: rest ∧ first.isCreate = true ∧
          lowered.root = some first.binding := by
  refine ⟨fun markup => ?_, fun options template scope => ⟨⟨?_, fun hblank => ?_⟩, ?_, ?_⟩⟩
  · rw [Node.parse_eq_none_iff, Text.isAllBlank, List.all_eq_true]
  · rintro ⟨lowered, h, hroot⟩
    rcases lower_cases h with ⟨hblank, -⟩ | ⟨-, first, rest, -, -, hfirst⟩
    · exact hblank
    · rw [hroot] at hfirst
      cases hfirst
  · refine ⟨.empty, ?_, rfl⟩
    rw [lower, if_pos hblank]
  · intro lowered h hblank
    rcases lower_cases h with ⟨-, rfl⟩ | ⟨hvisible, -⟩
    · rfl
    · rw [hblank] at hvisible
      cases hvisible
  · intro lowered h hvisible
    rcases lower_cases h with ⟨hblank, -⟩ | ⟨-, hfirst⟩
    · rw [hblank] at hvisible
      cases hvisible
    · exact hfirst

/-- A template of blanks beyond ASCII, and one in which an element stands between such blanks. -/
theorem lower_empty_iff_blank_wide :
    let options : LoweringOptions := ⟨true, true⟩
    let blank : Template := ⟨[" \u0085\n".toList], [], rfl⟩
    let visible : Template := ⟨["　<p>".toList, "</p> ".toList], ["x".toList], rfl⟩
    (∃ lowered, (blank.lower options .empty).1 = .ok lowered ∧ lowered.root = none) ∧
    ∃ lowered, (visible.lower options .empty).1 = .ok lowered ∧
      ∃ first rest, lowered.operations = first :: rest ∧ first.isCreate = true ∧
        lowered.root = some first.binding := by
  intro options blank visible
  have hlaws := lower_empty_iff_blank.2 options
  refine ⟨(hlaws blank .empty).1.mpr (by decide), ?_⟩
  cases hlower : (visible.lower options .empty).1 with
  | error e =>
      have hok : (visible.lower options .empty).1.isOk = true := by decide +kernel
      rw [hlower] at hok
      cases hok
  | ok lowered => exact ⟨lowered, rfl, (hlaws visible .empty).2.2 lowered hlower (by decide)⟩

end Template
end Hypertext

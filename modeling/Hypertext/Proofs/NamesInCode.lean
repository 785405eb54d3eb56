import Hypertext.Proofs.RenderedCode

set_option autoImplicit false

/-! # Names that can be read off the code

Every name that compiling introduces is declared in the code, and a declaration shows its name: it
stands behind a keyword, and a blank ends it. So two runs that print the same code have introduced
the same names (`Compiler.compile_eq_of_code`).

The code is compared from the left. Declarations of shared values come first. Each of them shows
which value it declares, because names for different keys are different
(`Shared.Proper.eq_of_name`). The statements follow in the order in which a tree is lowered, so they
are compared by induction on the tree: once the names of the nodes agree that are created so far,
the next statement is the same in both runs, or it creates a node and shows its name.
-/

namespace Hypertext

/-! ## Names for different keys -/

theorem candidate_take {base : Text} (hbase : 2 ≤ base.length) (i : Nat) :
    (candidate base i).take 3 = '_' :: base.take 2 := by
  unfold candidate
  split
  · rfl
  · rw [List.take_succ_cons, List.take_append_of_le_length hbase]

/-- The keys of all shared values. -/
def sharedKeys : List Text :=
  "svgNamespace".toList :: [Helper.setAttribute, .appendChild, .onLoad].map Helper.key

namespace Shared.Proper

variable {value other : Shared}

theorem mem_sharedKeys (h : value.Proper) : value.key ∈ sharedKeys := by
  rcases h.init with ⟨hkey, -⟩ | ⟨helper, hkey, -⟩
  · rw [hkey]
    exact List.mem_cons_self
  · rw [hkey]
    cases helper <;> decide

theorem init_of_key (h : value.Proper) (hother : other.Proper) (hkey : value.key = other.key) :
    value.init = other.init := by
  rcases hother.init with ⟨hspace, hinit⟩ | ⟨helper, hhelper, hinit⟩
  · rcases h.init with ⟨-, hinit'⟩ | ⟨helper, hhelper, -⟩
    · rw [hinit, hinit']
    · exact absurd (hhelper.symm.trans (hkey.trans hspace)) helper.key_ne_svgNamespace
  · rw [hinit, h.init_eq (hkey.trans hhelper)]

/-- A shared value is known by its name. -/
theorem eq_of_name (h : value.Proper) (hother : other.Proper)
    (hname : value.binding = other.binding) : value = other := by
  have hdistinct : ∀ key ∈ sharedKeys, 2 ≤ (stem key).length ∧
      ∀ key' ∈ sharedKeys, (stem key).take 2 = (stem key').take 2 → key = key' := by
    decide
  -- the stem shows in the name, whatever the number after it
  obtain ⟨i, hi⟩ := h.name
  obtain ⟨k, hk⟩ := hother.name
  obtain ⟨hlong, hkeys⟩ := hdistinct _ h.mem_sharedKeys
  have hlong' := (hdistinct _ hother.mem_sharedKeys).1
  have hstems : (candidate (stem value.key) i).take 3 = (candidate (stem other.key) k).take 3 := by
    rw [← hi, ← hk, hname]
  rw [candidate_take hlong, candidate_take hlong'] at hstems
  have hkey := hkeys _ hother.mem_sharedKeys (List.cons.inj hstems).2
  have hinit := h.init_of_key hother hkey
  cases value
  cases other
  cases hname
  cases hkey
  cases hinit
  rfl

end Shared.Proper

namespace Script

theorem Generated.fresh (hint : Text) (scope : Scope) : Generated (scope.fresh hint).1 := by
  obtain ⟨i, -, hname, -, -⟩ := scope.freeName_spec (stem hint)
  exact ⟨hint, i, hname⟩

theorem Generated.of_proper {value : Shared} (h : value.Proper) : Generated value.binding :=
  ⟨value.key, h.name⟩

/-! ## Declarations -/

theorem name_append_inj {b b' : Binding} (hb : Generated b) (hb' : Generated b')
    {rest rest' : Text} (h : b.name ++ ' ' :: rest = b'.name ++ ' ' :: rest') : b = b' := by
  have hblank : ∀ t, WordEnds (' ' :: t) := by
    rintro t c ⟨⟩
    decide
  obtain ⟨hname, -⟩ := word_unique hb.isWord hb'.isWord (hblank _) (hblank _) h
  cases b
  cases b'
  exact congrArg Binding.mk hname

theorem declaration_append_inj {b b' : Binding} (hb : Generated b) (hb' : Generated b')
    {init init' rest rest' : Text}
    (h : declaration b init ++ rest = declaration b' init' ++ rest') : b = b' := by
  simp only [declaration_eq, List.append_assoc] at h
  exact name_append_inj hb hb' (List.append_cancel_left h)

/-- How the declaration of a shared value begins. -/
theorem sharedDeclaration_eq (options : Options) (value : Shared) :
    ∃ keyword rest, (keyword = "var ".toList ∨ keyword = "import ".toList) ∧
      sharedDeclaration options value = keyword ++ (value.binding.name ++ ' ' :: rest) := by
  have hvar : ∀ init, ∃ rest,
      declaration value.binding init = "var ".toList ++ (value.binding.name ++ ' ' :: rest) := by
    intro init
    exact ⟨"= ".toList ++ (init ++ [';']), declaration_eq value.binding init⟩
  unfold sharedDeclaration
  split
  · obtain ⟨rest, hrest⟩ := hvar (stringLiteral _)
    exact ⟨_, rest, .inl rfl, hrest⟩
  · split
    · obtain ⟨rest, hrest⟩ := hvar _
      exact ⟨_, rest, .inl rfl, hrest⟩
    · split
      · next name _ _ =>
          refine ⟨_, "from ".toList ++ (stringLiteral name ++ [';']), .inr rfl, ?_⟩
          simp only [List.append_assoc]
          rfl
      · obtain ⟨rest, hrest⟩ := hvar _
        exact ⟨_, rest, .inl rfl, hrest⟩

theorem sharedDeclaration_append_inj {options : Options} {value other : Shared}
    (hvalue : value.Proper) (hother : other.Proper) {rest rest' : Text}
    (h : sharedDeclaration options value ++ rest = sharedDeclaration options other ++ rest') :
    value = other := by
  obtain ⟨keyword, more, hkeyword, hspelled⟩ := sharedDeclaration_eq options value
  obtain ⟨keyword', more', hkeyword', hspelled'⟩ := sharedDeclaration_eq options other
  rw [hspelled, hspelled'] at h
  have hsame : keyword = keyword' := by
    have hfirst := congrArg List.head? h
    rcases hkeyword with rfl | rfl <;> rcases hkeyword' with rfl | rfl
    · rfl
    · exact absurd (Option.some.inj hfirst) (by decide)
    · exact absurd (Option.some.inj hfirst) (by decide)
    · rfl
  subst hsame
  simp only [List.append_assoc, List.cons_append] at h
  exact hvalue.eq_of_name hother (name_append_inj (Generated.of_proper hvalue)
    (Generated.of_proper hother) (List.append_cancel_left h))

/-- Code that does not begin with a declaration. -/
def NotDeclared (code : Text) : Prop := code.head? ≠ some 'v' ∧ code.head? ≠ some 'i'

theorem NotDeclared.not_sharedDeclaration {code : Text} (h : NotDeclared code) (options : Options)
    (value : Shared) (rest : Text) : code ≠ sharedDeclaration options value ++ rest := by
  rintro rfl
  obtain ⟨keyword, more, hkeyword, hspelled⟩ := sharedDeclaration_eq options value
  rw [NotDeclared, hspelled] at h
  rcases hkeyword with rfl | rfl
  · exact h.1 rfl
  · exact h.2 rfl

/-- **Declarations of shared values** can be told apart, and from the code after them. -/
theorem declarations_append_inj {options : Options} {first second : List Shared}
    (hfirst : ∀ value ∈ first, value.Proper) (hsecond : ∀ value ∈ second, value.Proper)
    {code code' : Text} (hcode : NotDeclared code) (hcode' : NotDeclared code')
    (h : declarations options first ++ code = declarations options second ++ code') :
    first = second ∧ code = code' := by
  induction first generalizing second with
  | nil =>
      cases second with
      | nil => exact ⟨rfl, h⟩
      | cons value second =>
          simp only [declarations, List.flatMap_nil, List.nil_append, List.flatMap_cons,
            List.append_assoc] at h
          exact absurd h (hcode.not_sharedDeclaration options value _)
  | cons value first ih =>
      cases second with
      | nil =>
          simp only [declarations, List.flatMap_nil, List.nil_append, List.flatMap_cons,
            List.append_assoc] at h
          exact absurd h.symm (hcode'.not_sharedDeclaration options value _)
      | cons other second =>
          simp only [declarations, List.flatMap_cons, List.append_assoc] at h
          obtain rfl := sharedDeclaration_append_inj (hfirst _ List.mem_cons_self)
            (hsecond _ List.mem_cons_self) h
          have hrest := List.append_cancel_left (List.append_cancel_left h)
          obtain ⟨rfl, hcodes⟩ := ih (fun v hv => hfirst v (List.mem_cons_of_mem _ hv))
            (fun v hv => hsecond v (List.mem_cons_of_mem _ hv)) hrest
          exact ⟨rfl, hcodes⟩

/-! ## Statements -/

theorem lines_append (expressions : List Text) (first second : List Operation) (scope : Scope) :
    lines expressions (first ++ second) scope
      = lines expressions first scope ++ lines expressions second scope :=
  List.flatMap_append

theorem lines_cons (expressions : List Text) (operation : Operation) (rest : List Operation)
    (scope : Scope) :
    lines expressions (operation :: rest) scope
      = "  ".toList ++ (statement expressions (scope.helperBinding? operation) operation
          ++ ('\n' :: lines expressions rest scope)) := by
  simp only [lines, List.flatMap_cons, List.append_assoc, List.singleton_append]

/-- The statement that creates a node is a declaration. -/
theorem statement_createElement (expressions : List Text) (helper : Option Binding) (scope : Scope)
    (b : Binding) (tag : Text) :
    ∃ init, statement expressions helper (scope.createElement b tag).1 = declaration b init := by
  unfold Scope.createElement
  split <;> exact ⟨_, rfl⟩

end Script

theorem Scope.createElement_eq {s t : Scope} {b : Binding} {tag : Text}
    (h : ∀ space ∈ (s.createElement b tag).1.space?, ∀ space' ∈ (t.createElement b tag).1.space?,
      space = space') : (s.createElement b tag).1 = (t.createElement b tag).1 := by
  unfold createElement at h ⊢
  by_cases hsvg : isSvgTag tag = true
  · rw [if_pos hsvg, if_pos hsvg] at h ⊢
    exact congrArg (Operation.createNamespacedElement b · tag) (h _ rfl _ rfl)
  · rw [if_neg hsvg, if_neg hsvg]

open Script

/-- The statements that open an element show its name, and are determined by it. -/
theorem Scope.openElement_eq_of_lines {s t : Scope} {options : LoweringOptions} {tag : Text}
    {attributes : Attributes} {expressions : List Text} {scope : Scope} {rest rest' : Text}
    (hgeneration : s.generation = t.generation)
    (hspaces : ∀ space ∈ spacesOf (s.openElement options tag attributes).operations,
      ∀ space' ∈ spacesOf (t.openElement options tag attributes).operations, space = space')
    (h : lines expressions (s.openElement options tag attributes).operations scope ++ rest
      = lines expressions (t.openElement options tag attributes).operations scope ++ rest') :
    (s.openElement options tag attributes).binding
        = (t.openElement options tag attributes).binding ∧
      (s.openElement options tag attributes).operations
        = (t.openElement options tag attributes).operations := by
  obtain ⟨first, hfirst⟩ := s.openElement_operations options tag attributes
  obtain ⟨second, hsecond⟩ := t.openElement_operations options tag attributes
  have hgenerated : ∀ u : Scope, Generated (u.openElement options tag attributes).binding :=
    Generated.fresh (elementHint attributes tag)
  have hbinding : (s.openElement options tag attributes).binding
      = (t.openElement options tag attributes).binding := by
    rw [hfirst, hsecond, lines_cons, lines_cons, List.append_assoc, List.append_assoc,
      List.append_assoc, List.append_assoc] at h
    obtain ⟨init, hinit⟩ := statement_createElement expressions _ first _ tag
    obtain ⟨init', hinit'⟩ := statement_createElement expressions _ second _ tag
    have hstatements := List.append_cancel_left h
    rw [hinit, hinit'] at hstatements
    exact declaration_append_inj (hgenerated s) (hgenerated t) hstatements
  refine ⟨hbinding, ?_⟩
  rw [hfirst, hsecond] at hspaces ⊢
  rw [hbinding] at hspaces ⊢
  rw [hgeneration, Scope.createElement_eq fun space hspace space' hspace' => ?_]
  exact hspaces space (List.mem_filterMap.mpr ⟨_, List.mem_cons_self, hspace⟩) space'
    (List.mem_filterMap.mpr ⟨_, List.mem_cons_self, hspace'⟩)

namespace Node

mutual

/-- **One tree.** Two runs whose statements read the same have the same operations. -/
theorem lower_eq_of_lines (options : LoweringOptions) (node : Node) {s t : Scope}
    (expressions : List Text) (scope : Scope) {rest rest' : Text}
    (hgeneration : s.generation = t.generation)
    (hspaces : ∀ space ∈ spacesOf (node.lower options s).1,
      ∀ space' ∈ spacesOf (node.lower options t).1, space = space')
    (h : lines expressions (node.lower options s).1 scope ++ rest
      = lines expressions (node.lower options t).1 scope ++ rest') :
    (node.lower options s).1 = (node.lower options t).1 ∧
      (node.lower options s).2.1 = (node.lower options t).2.1 := by
  match node with
  | .text content =>
      rw [lower, lower]
      exact ⟨rfl, rfl⟩
  | .comment children =>
      rw [lower, lower] at h
      rw [lower, lower]
      dsimp only at h ⊢
      rw [lines_cons, lines_cons, List.append_assoc, List.append_assoc, List.append_assoc,
        List.append_assoc] at h
      have hname : (s.fresh "comment".toList).1 = (t.fresh "comment".toList).1 :=
        declaration_append_inj (Generated.fresh _ s) (Generated.fresh _ t)
          (List.append_cancel_left h)
      rw [hname]
      exact ⟨rfl, rfl⟩
  | .element tag attributes children =>
      rw [lower_element, lower_element] at hspaces h
      rw [lower_element, lower_element]
      dsimp only at hspaces h ⊢
      simp only [spacesOf_append, lines_append, List.append_assoc] at hspaces h
      -- from left to right: opening, children, and what appends them
      obtain ⟨hbinding, hopening⟩ := Scope.openElement_eq_of_lines hgeneration
        (fun space hspace space' hspace' => hspaces space (List.mem_append_left _ hspace) space'
          (List.mem_append_left _ hspace')) h
      rw [hopening] at h
      have hnext : (s.openElement options tag attributes).scope.generation
          = (t.openElement options tag attributes).scope.generation := by
        rw [Scope.openElement_generation, Scope.openElement_generation, hgeneration]
      obtain ⟨hoperations, hgiven⟩ := lowerAll_eq_of_lines options children expressions scope hnext
        (fun space hspace space' hspace' => hspaces space
          (List.mem_append_right _ (List.mem_append_left _ hspace)) space'
          (List.mem_append_right _ (List.mem_append_left _ hspace'))) (List.append_cancel_left h)
      rw [hbinding, hopening, hoperations, hgiven]
      exact ⟨rfl, rfl⟩

theorem lowerAll_eq_of_lines (options : LoweringOptions) (nodes : List Node) {s t : Scope}
    (expressions : List Text) (scope : Scope) {rest rest' : Text}
    (hgeneration : s.generation = t.generation)
    (hspaces : ∀ space ∈ spacesOf (lowerAll options s nodes).1,
      ∀ space' ∈ spacesOf (lowerAll options t nodes).1, space = space')
    (h : lines expressions (lowerAll options s nodes).1 scope ++ rest
      = lines expressions (lowerAll options t nodes).1 scope ++ rest') :
    (lowerAll options s nodes).1 = (lowerAll options t nodes).1 ∧
      (lowerAll options s nodes).2.1 = (lowerAll options t nodes).2.1 := by
  match nodes with
  | [] =>
      rw [lowerAll, lowerAll]
      exact ⟨rfl, rfl⟩
  | node :: nodes =>
      rw [lowerAll_cons, lowerAll_cons] at hspaces h
      rw [lowerAll_cons, lowerAll_cons]
      dsimp only at hspaces h ⊢
      simp only [spacesOf_append, lines_append, List.append_assoc] at hspaces h
      obtain ⟨hoperations, hgiven⟩ := lower_eq_of_lines options node expressions scope hgeneration
        (fun space hspace space' hspace' => hspaces space (List.mem_append_left _ hspace) space'
          (List.mem_append_left _ hspace')) h
      rw [hoperations] at h
      have hnext : (node.lower options s).2.2.generation
          = (node.lower options t).2.2.generation := by
        have hnone : t.generation = s.generation + 0 := by rw [hgeneration, UInt32.add_zero]
        rw [(lower_lengths options hnone node).2, UInt32.add_zero]
      obtain ⟨hoperations', hgiven'⟩ := lowerAll_eq_of_lines options nodes expressions scope hnext
        (fun space hspace space' hspace' => hspaces space (List.mem_append_right _ hspace) space'
          (List.mem_append_right _ hspace')) (List.append_cancel_left h)
      rw [hoperations, hgiven, hoperations', hgiven']
      exact ⟨rfl, rfl⟩

end

end Node

/-! ## Templates -/

namespace Script

theorem render_of_root {lowered : Lowered} {b : Binding} (hroot : lowered.root = some b)
    {scope : Scope} (hdeclared : HelpersDeclared lowered.operations scope)
    (expressions : List Text) :
    (render expressions lowered scope).1
      = "(() => \x7b\n".toList ++ (lines expressions lowered.operations scope
          ++ ("  return ".toList ++ (b.name ++ ";\n\x7d)()".toList))) := by
  unfold render
  simp only [hroot, statements_eq hdeclared, List.append_assoc]

theorem notDeclared_render (expressions : List Text) (lowered : Lowered) (scope : Scope) :
    NotDeclared (render expressions lowered scope).1 := by
  unfold render
  split
  · constructor <;> rintro ⟨⟩
  · constructor <;> rintro ⟨⟩

end Script

/-- **One template.** Two runs whose code is the same have the same operations. -/
theorem Template.lower_eq_of_code {options : LoweringOptions} {template : Template} {s t : Scope}
    (hgeneration : s.generation = t.generation) {lowered lowered' : Lowered}
    (h : (template.lower options s).1 = .ok lowered)
    (h' : (template.lower options t).1 = .ok lowered')
    (hspaces : ∀ space ∈ spacesOf lowered.operations, ∀ space' ∈ spacesOf lowered'.operations,
      space = space')
    {scope : Scope} (hdeclared : HelpersDeclared lowered.operations scope)
    (hdeclared' : HelpersDeclared lowered'.operations scope) {expressions : List Text}
    (hcode : (render expressions lowered scope).1 = (render expressions lowered' scope).1) :
    lowered = lowered' := by
  unfold Template.lower at h h'
  by_cases hblank : template.isBlank = true
  · rw [if_pos hblank] at h h'
    cases h
    cases h'
    rfl
  · rw [if_neg hblank] at h h'
    cases hparse : Node.parse template.source with
    | error e =>
        rw [hparse] at h
        cases h
    | ok parsed =>
        rw [hparse] at h h'
        cases parsed with
        | none =>
            cases h
            cases h'
            rfl
        | some root =>
            cases h
            cases h'
            -- only a text has no node to return, and it has no operations either
            cases hcontent : root.content? with
            | some content =>
                cases root <;> cases hcontent
                rw [Node.lower, Node.lower]
            | none =>
                obtain ⟨⟨b, hb⟩, -⟩ := Node.lower_root options s 0 hcontent
                obtain ⟨⟨b', hb'⟩, -⟩ := Node.lower_root options t 0 hcontent
                rw [render_of_root (congrArg Contribution.binding? hb) hdeclared,
                  render_of_root (congrArg Contribution.binding? hb') hdeclared'] at hcode
                obtain ⟨hoperations, hgiven⟩ := root.lower_eq_of_lines options expressions scope
                  hgeneration hspaces (List.append_cancel_left hcode)
                rw [hoperations, hgiven]

namespace Script.Compiler

/-- **The code tells the names.** Two runs that print the same code with the same declarations have
introduced the same names. -/
theorem compile_eq_of_code {options : Options} {quasis expressions : List Text} {s t : Scope}
    (hs : s.shared = []) (ht : t.shared = []) (hgeneration : s.generation = t.generation)
    {lowered lowered' : Lowered} {code code' : Text} {later later' : Scope}
    (h : compile options quasis expressions s = (.ok (lowered, code), later))
    (h' : compile options quasis expressions t = (.ok (lowered', code'), later'))
    (heq : declarations options later.shared ++ code
      = declarations options later'.shared ++ code') :
    lowered = lowered' ∧ later.shared = later'.shared := by
  obtain ⟨hshares, hcode⟩ := compile_shares options quasis expressions s
  obtain ⟨hshares', hcode'⟩ := compile_shares options quasis expressions t
  rw [h] at hshares hcode
  rw [h'] at hshares' hcode'
  have hused := hshares.declaresUsed hs
  have hused' := hshares'.declaresUsed ht
  have hrender := hcode lowered code later rfl List.prefix_rfl
  have hrender' := hcode' lowered' code' later' rfl List.prefix_rfl
  -- the declarations agree, so that helpers and the namespace have the same names in both runs
  obtain ⟨hshared, hcodes⟩ := declarations_append_inj hused.proper hused'.proper
    (hrender ▸ notDeclared_render expressions lowered later)
    (hrender' ▸ notDeclared_render expressions lowered' later') heq
  have hdeclared : HelpersDeclared lowered.operations later := helpersDeclared_of_shares hshares
  have hdeclared' : HelpersDeclared lowered'.operations later' := helpersDeclared_of_shares hshares'
  have hkept : later'.shared <+: later.shared := hshared ▸ List.prefix_rfl
  refine ⟨?_, hshared⟩
  obtain ⟨template, _, htemplate, hlower, -⟩ := compile_eq_ok_iff.mp h
  obtain ⟨template', _, htemplate', hlower', -⟩ := compile_eq_ok_iff.mp h'
  rw [htemplate] at htemplate'
  cases htemplate'
  have hsame : (render expressions lowered later).1 = (render expressions lowered' later).1 := by
    rw [← hrender, hcodes, hrender', render_of_kept hdeclared' hkept]
  refine Template.lower_eq_of_code hgeneration (congrArg Prod.fst hlower)
    (congrArg Prod.fst hlower') ?_ hdeclared (hdeclared'.mono hkept) hsame
  intro space hspace space' hspace'
  obtain ⟨operation, hoperation, hfound⟩ := List.mem_filterMap.mp hspace
  obtain ⟨operation', hoperation', hfound'⟩ := List.mem_filterMap.mp hspace'
  have hname := hused.spaces operation hoperation space hfound
  have hname' := Scope.binding?_of_kept hkept (hused'.spaces operation' hoperation' space' hfound')
  exact Option.some.inj (hname.symm.trans hname')

end Script.Compiler
end Hypertext

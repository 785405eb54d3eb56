import Hypertext.Proofs.Lowering

set_option autoImplicit false

/-! # The tree that lowered operations build

The operations of a lowered tree are a flat list in which the nodes of all levels are mixed. This
file proves that carrying them out builds the tree again: `Node.trees` says directly, by recursion
on the markup, which tree that is, and `lower_builds_tree` that a run on the empty document meets no
fault and leaves exactly this tree under the binding returned.

The induction is over the markup, for any document in which the names of the nodes are
still free. What carries it is `Builds`: a run touches only the nodes that it creates, and its
tree can be read off every document that agrees with the result on these nodes. So what is
done later, to other nodes, does not matter.
-/

namespace Hypertext

/-! ## The tree of a node -/

/-- The tree of a fragment of text. Literals are normalized, and may vanish. -/
def Fragment.tree? (collapse : Bool) : Fragment → Option Tree
  | .literal text => (Children.literal? collapse text).map fun kept => .leaf (.str kept)
  | .placeholder index => some (.leaf (.expr index))

namespace Node

mutual

/-- The trees of a node, several only for a text with placeholders, and the generation after it.
Elements with lifecycle handlers are numbered in document order. -/
def trees (options : LoweringOptions) (generation : UInt32) : Node → List Tree × UInt32
  | .text content =>
    ((Placeholder.split content).filterMap (Fragment.tree? options.collapse), generation)
  | .comment children =>
    ([.node (.comment ((Node.comment children).commentText?.getD [])) [] []], generation)
  | .element tag attributes children =>
    let lifecycle := attributes.lifecycle? options generation
    let inner := treesAll options (generation + .ofNat lifecycle.toList.length) children
    ([.node (.element tag (isSvgTag tag)) (attributes.allActions options generation) inner.1],
      inner.2)

/-- The trees of nodes one after the other. -/
def treesAll (options : LoweringOptions) (generation : UInt32) : List Node → List Tree × UInt32
  | [] => ([], generation)
  | node :: nodes =>
    let first := trees options generation node
    let others := treesAll options first.2 nodes
    (first.1 ++ others.1, others.2)

end

mutual

/-- The generations that a scope gives to elements are those of their trees. -/
theorem lower_generation (options : LoweringOptions) (scope : Scope) (node : Node) :
    (node.lower options scope).2.2.generation = (node.trees options scope.generation).2 := by
  match node with
  | .text content =>
      rw [lower, trees]
  | .comment children =>
      rw [lower, trees]
      rfl
  | .element tag attributes children =>
      rw [lower_element, trees]
      simp only [Scope.declareHelpers_generation]
      rw [lowerAll_generation, Scope.openElement_generation]

theorem lowerAll_generation (options : LoweringOptions) (scope : Scope) (nodes : List Node) :
    (lowerAll options scope nodes).2.2.generation
      = (treesAll options scope.generation nodes).2 := by
  match nodes with
  | [] => rw [lowerAll, treesAll]
  | node :: nodes =>
      rw [lowerAll_cons, treesAll]
      simp only
      rw [lowerAll_generation, lower_generation]

end

end Node

/-! ## Runs of parts of the operations -/

namespace Document

/-- Setting the attributes of a node adds their actions to its log. -/
theorem run_actions (document : Document) (b : Binding) (kind : NodeKind)
    (done actions : List Action) (children : List Value) :
    (document.put b ⟨kind, done, children⟩).run (actions.map (Action.operation b))
      = .ok (document.put b ⟨kind, done ++ actions, children⟩) := by
  induction actions generalizing done with
  | nil => simp
  | cons action rest ih =>
      rw [List.map_cons, run_cons, step_operation, act, put_cells_self]
      simp only [put_put, Except.bind]
      rw [ih, List.append_assoc, List.singleton_append]

/-- The opening of an element creates it with all its actions. -/
theorem run_openElement (document : Document) (options : LoweringOptions) (tag : Text)
    (attributes : Attributes) (scope : Scope)
    (hfree : document.cells (scope.openElement options tag attributes).binding = none) :
    document.run (scope.openElement options tag attributes).operations
      = .ok (document.put (scope.openElement options tag attributes).binding
          ⟨.element tag (isSvgTag tag), attributes.allActions options scope.generation, []⟩) := by
  obtain ⟨space, hoperations⟩ := scope.openElement_operations options tag attributes
  rw [hoperations, run_cons, Scope.step_createElement, create, hfree]
  exact run_actions document _ _ [] _ []

/-- Whatever operation appends the children, a node without children has them afterwards. -/
theorem run_operation? (document : Document) (b : Binding) (kind : NodeKind)
    (actions : List Action) (values : List Value)
    (hcell : document.cells b = some ⟨kind, actions, []⟩)
    (hdefined : ∀ c ∈ values.filterMap Value.binding?, document.cells c ≠ none)
    (hfree : ∀ c ∈ values.filterMap Value.binding?, document.attached c = false)
    (hnodup : (values.filterMap Value.binding?).Nodup) :
    ∃ later, document.run (Children.operation? b values).toList = .ok later ∧
      later.cells = (document.put b ⟨kind, actions, values⟩).cells ∧
      ∀ c ∉ values.filterMap Value.binding?, later.attached c = document.attached c := by
  unfold Children.operation?
  split
  · refine ⟨document, rfl, ?_, fun _ _ => rfl⟩
    simp [put, ← hcell]
  · next text =>
      -- the text replaces no children, as there are none yet
      refine ⟨_, ?_, rfl, fun c _ => rfl⟩
      simp [run_cons, step, setText, hcell, put, Except.bind]
  · obtain ⟨later, hattach, hcells, hattached⟩ :=
      attach_spec values document hdefined hfree hnodup
    refine ⟨later.put b ⟨kind, actions, values⟩, ?_, ?_, hattached⟩
    · simp [run_cons, step, append, hcell, hattach, Except.map, Except.bind]
    · simp [put, hcells]

end Document

/-! ## Building -/

/-- The names of nodes are free in a document. -/
def Document.Free (document : Document) (nodes : List Binding) : Prop :=
  ∀ b ∈ nodes, document.cells b = none ∧ document.attached b = false

/-- `later` is `document` after the given nodes were built, where the contributions are
left to be appended to a parent. -/
structure Builds (collapse : Bool) (document later : Document) (nodes : List Binding)
    (contributions : List Contribution) (trees : List Tree) : Prop where
  cells : ∀ b ∉ nodes, later.cells b = document.cells b
  attached : ∀ b ∉ nodes, later.attached b = document.attached b
  roots : ∀ b ∈ contributions.filterMap Contribution.binding?,
    b ∈ nodes ∧ later.cells b ≠ none ∧ later.attached b = false
  /-- The trees can be read off every document that has the same nodes. -/
  trees : ∃ height, ∀ final : Document, (∀ b ∈ nodes, final.cells b = later.cells b) →
    ∀ depth ≥ height,
      (Children.normalize collapse contributions).mapM (final.tree? depth) = some trees

namespace Builds

variable {collapse : Bool}

theorem nil (document : Document) : Builds collapse document document [] [] [] where
  cells := fun _ _ => rfl
  attached := fun _ _ => rfl
  roots := fun _ h => absurd h List.not_mem_nil
  trees := ⟨0, fun _ _ _ _ => rfl⟩

/-- What is still free stays free while other nodes are built. -/
theorem free {document later : Document} {nodes others : List Binding}
    {contributions : List Contribution} {trees : List Tree}
    (h : Builds collapse document later nodes contributions trees)
    (hdisjoint : nodes.Disjoint others) (hfree : document.Free others) : later.Free others := by
  intro b hb
  have hne : b ∉ nodes := fun hb' => hdisjoint hb' hb
  rw [h.cells b hne, h.attached b hne]
  exact hfree b hb

/-- Nodes built one after the other. -/
theorem append {document middle later : Document} {nodes₁ nodes₂ : List Binding}
    {contributions₁ contributions₂ : List Contribution} {trees₁ trees₂ : List Tree}
    (h₁ : Builds collapse document middle nodes₁ contributions₁ trees₁)
    (h₂ : Builds collapse middle later nodes₂ contributions₂ trees₂)
    (hdisjoint : nodes₁.Disjoint nodes₂) :
    Builds collapse document later (nodes₁ ++ nodes₂) (contributions₁ ++ contributions₂)
      (trees₁ ++ trees₂) where
  cells := by
    intro b hb
    rw [List.mem_append, not_or] at hb
    rw [h₂.cells b hb.2, h₁.cells b hb.1]
  attached := by
    intro b hb
    rw [List.mem_append, not_or] at hb
    rw [h₂.attached b hb.2, h₁.attached b hb.1]
  roots := by
    intro b hb
    rw [List.filterMap_append, List.mem_append] at hb
    rcases hb with hb | hb
    · obtain ⟨hmem, hdefined, hfree⟩ := h₁.roots b hb
      have hne : b ∉ nodes₂ := fun hb' => hdisjoint hmem hb'
      rw [h₂.cells b hne, h₂.attached b hne]
      exact ⟨List.mem_append_left _ hmem, hdefined, hfree⟩
    · obtain ⟨hmem, hdefined, hfree⟩ := h₂.roots b hb
      exact ⟨List.mem_append_right _ hmem, hdefined, hfree⟩
  trees := by
    obtain ⟨height₁, htrees₁⟩ := h₁.trees
    obtain ⟨height₂, htrees₂⟩ := h₂.trees
    refine ⟨max height₁ height₂, fun final hfinal depth hdepth => ?_⟩
    have hfirst : ∀ b ∈ nodes₁, final.cells b = middle.cells b := by
      intro b hb
      rw [hfinal b (List.mem_append_left _ hb), h₂.cells b fun hb' => hdisjoint hb hb']
    have hsecond : ∀ b ∈ nodes₂, final.cells b = later.cells b :=
      fun b hb => hfinal b (List.mem_append_right _ hb)
    rw [Children.normalize_append, List.mapM_append,
      htrees₁ final hfirst depth (by omega),
      htrees₂ final hsecond depth (by omega)]
    rfl

/-- A text builds nothing; its parent is given its fragments. -/
theorem text (document : Document) (content : Text) :
    Builds collapse document document [] [.text content]
      ((Placeholder.split content).filterMap (Fragment.tree? collapse)) where
  cells := fun _ _ => rfl
  attached := fun _ _ => rfl
  roots := fun _ h => absurd h List.not_mem_nil
  trees := by
    refine ⟨1, fun final _ depth hdepth => ?_⟩
    obtain ⟨depth, rfl⟩ := Nat.exists_eq_add_of_le' hdepth
    simp only [Children.normalize, List.flatMap_singleton, Children.values, List.filterMap_map]
    -- a fragment is kept by the parent exactly if it has a tree
    induction Placeholder.split content with
    | nil => rfl
    | cons fragment rest ih =>
        cases fragment with
        | literal text =>
            cases htext : Children.literal? collapse text with
            | none =>
                simpa [Value.ofFragment, Children.keep?, Fragment.tree?, htext] using ih
            | some kept =>
                simp [Value.ofFragment, Children.keep?, Fragment.tree?, htext,
                  Document.tree?, ih]
        | placeholder index =>
            simp [Value.ofFragment, Children.keep?, Fragment.tree?, Document.tree?, ih]

/-- A comment. -/
theorem comment (document : Document) (b : Binding) (text : Text) (hfree : document.Free [b]) :
    Builds collapse document (document.put b ⟨.comment text, [], []⟩) [b] [.value (.ref b)]
      [.node (.comment text) [] []] where
  cells := by
    intro c hc
    exact document.put_cells_ne _ (List.ne_of_not_mem_cons hc)
  attached := fun _ _ => rfl
  roots := by
    intro c hc
    obtain rfl : c = b := List.mem_singleton.mp hc
    exact ⟨List.mem_singleton_self c, by simp, (hfree c (List.mem_singleton_self c)).2⟩
  trees := by
    refine ⟨1, fun final hfinal depth hdepth => ?_⟩
    obtain ⟨depth, rfl⟩ := Nat.exists_eq_add_of_le' hdepth
    have hcell := hfinal b (List.mem_singleton_self b)
    rw [Document.put_cells_self] at hcell
    show [Value.ref b].mapM (final.tree? (depth + 1)) = _
    simp [Document.tree?, hcell]

/-- **An element around its children.** It is created with its actions, then the children are built,
and last they are appended to it. -/
theorem element {document middle later : Document} {b : Binding} {kind : NodeKind}
    {actions : List Action} {nodes : List Binding} {contributions : List Contribution}
    {trees : List Tree}
    (hb : b ∉ nodes) (hfree : document.Free [b])
    (hchildren : Builds collapse (document.put b ⟨kind, actions, []⟩) middle nodes
      contributions trees)
    (hcells : later.cells
      = (middle.put b ⟨kind, actions, Children.normalize collapse contributions⟩).cells)
    (hattached : ∀ c ∉ contributions.filterMap Contribution.binding?,
      later.attached c = middle.attached c) :
    Builds collapse document later (b :: nodes) [.value (.ref b)]
      [.node kind actions trees] where
  cells := by
    intro c hc
    rw [List.mem_cons, not_or] at hc
    rw [hcells, Document.put_cells_ne _ _ hc.1, hchildren.cells c hc.2,
      Document.put_cells_ne _ _ hc.1]
  attached := by
    intro c hc
    rw [List.mem_cons, not_or] at hc
    rw [hattached c fun hroot => hc.2 (hchildren.roots c hroot).1, hchildren.attached c hc.2,
      Document.put_attached]
  roots := by
    intro c hc
    obtain rfl : c = b := List.mem_singleton.mp hc
    refine ⟨List.mem_cons_self, ?_, ?_⟩
    · rw [hcells, Document.put_cells_self]
      exact Option.some_ne_none _
    · rw [hattached c fun hroot => hb (hchildren.roots c hroot).1, hchildren.attached c hb,
        Document.put_attached]
      exact (hfree c (List.mem_singleton_self c)).2
  trees := by
    obtain ⟨height, htrees⟩ := hchildren.trees
    refine ⟨height + 1, fun final hfinal depth hdepth => ?_⟩
    obtain ⟨depth, rfl⟩ := Nat.exists_eq_add_of_le' (show 1 ≤ depth by omega)
    have hcell : final.cells b
        = some ⟨kind, actions, Children.normalize collapse contributions⟩ := by
      rw [hfinal b List.mem_cons_self, hcells, Document.put_cells_self]
    -- appending the children changes none of their cells
    have hinner : ∀ c ∈ nodes, final.cells c = middle.cells c := by
      intro c hc
      have hne : c ≠ b := fun h => hb (h ▸ hc)
      rw [hfinal c (List.mem_cons_of_mem b hc), hcells, Document.put_cells_ne _ _ hne]
    show [Value.ref b].mapM (final.tree? (depth + 1)) = _
    simp [Document.tree?, hcell, htrees final hinner depth (by omega)]

end Builds

/-! ## Lowered trees -/

namespace Node

/-- An element builds its tree if its children build theirs. -/
theorem run_lower_element (options : LoweringOptions) (scope : Scope) (tag : Text)
    (attributes : Attributes) (children : List Node) (document : Document)
    (hfree : document.Free
      (createdBy ((Node.element tag attributes children).lower options scope).1))
    (hchildren : ∀ start : Document,
      let built := lowerAll options (scope.openElement options tag attributes).scope children
      start.Free (createdBy built.1) → ∃ later, start.run built.1 = .ok later ∧
        Builds options.collapse start later (createdBy built.1) built.2.1
          (treesAll options (scope.openElement options tag attributes).scope.generation
            children).1) :
    ∃ later, document.run ((Node.element tag attributes children).lower options scope).1
        = .ok later ∧
      Builds options.collapse document later
        (createdBy ((Node.element tag attributes children).lower options scope).1)
        [((Node.element tag attributes children).lower options scope).2.1]
        ((Node.element tag attributes children).trees options scope.generation).1 := by
  have hnodup := (lower_allocates options scope (.element tag attributes children)).nodup
  have hperm := lowerAll_created_perm options
    (scope.openElement options tag attributes).scope children
  have hgeneration := scope.openElement_generation options tag attributes
  have hopen := fun h => document.run_openElement options tag attributes scope h
  rw [lower_element] at hnodup hfree ⊢
  rw [trees, ← hgeneration]
  simp only [createdBy_append, Scope.createdBy_openElement, Children.createdBy_operation?,
    List.append_nil, List.singleton_append] at hnodup hfree ⊢
  -- from here on only the binding and the scope of the opening matter
  generalize scope.openElement options tag attributes = opening at *
  generalize hbuilt : lowerAll options opening.scope children = built at *
  obtain ⟨hb, hnodup⟩ := List.nodup_cons.mp hnodup
  have hfreeSelf : document.Free [opening.binding] := by
    intro b hb'
    exact hfree b (List.mem_singleton.mp hb' ▸ List.mem_cons_self)
  -- the element is there before its children are built
  set started := document.put opening.binding
    ⟨.element tag (isSvgTag tag), attributes.allActions options scope.generation, []⟩ with hstarted
  have hstart : started.Free (createdBy built.1) := by
    intro b hb'
    have hne : b ≠ opening.binding := fun h => hb (h ▸ hb')
    rw [hstarted, Document.put_cells_ne _ _ hne, Document.put_attached]
    exact hfree b (List.mem_cons_of_mem _ hb')
  obtain ⟨middle, hrun, hbuilds⟩ := hchildren started hstart
  have hcell : middle.cells opening.binding = some
      ⟨.element tag (isSvgTag tag), attributes.allActions options scope.generation, []⟩ := by
    rw [hbuilds.cells _ hb, hstarted, Document.put_cells_self]
  -- the roots of the children are among the nodes that the children create, each once
  have hroots : (built.2.1.filterMap Contribution.binding?).Nodup :=
    (List.nodup_append.mp (hperm.nodup_iff.mp hnodup)).1
  obtain ⟨later, happend, hcells, hattached⟩ := middle.run_operation? opening.binding _ _
    (Children.normalize options.collapse built.2.1) hcell
    (by
      rw [Children.binding?_normalize]
      exact fun c hc => (hbuilds.roots c hc).2.1)
    (by
      rw [Children.binding?_normalize]
      exact fun c hc => (hbuilds.roots c hc).2.2)
    (by
      rw [Children.binding?_normalize]
      exact hroots)
  rw [Children.binding?_normalize] at hattached
  refine ⟨later, ?_, Builds.element hb hfreeSelf hbuilds hcells hattached⟩
  rw [List.append_assoc,
    Document.run_append (hopen (hfreeSelf _ (List.mem_singleton_self _)).1),
    Document.run_append hrun]
  exact happend

mutual

/-- Where the names of its nodes are free, the operations of a node can be carried out and build its
trees. -/
theorem run_lower (options : LoweringOptions) (scope : Scope) (node : Node)
    (document : Document)
    (hfree : document.Free (createdBy (node.lower options scope).1)) :
    ∃ later, document.run (node.lower options scope).1 = .ok later ∧
      Builds options.collapse document later (createdBy (node.lower options scope).1)
        [(node.lower options scope).2.1] (node.trees options scope.generation).1 := by
  match node with
  | .text content =>
      rw [lower, trees]
      exact ⟨document, rfl, Builds.text document content⟩
  | .comment children =>
      rw [lower, trees] at *
      have hfree' : document.Free [(scope.fresh "comment".toList).1] := hfree
      refine ⟨_, ?_, Builds.comment document _ _ hfree'⟩
      rw [Document.run_cons, Document.step, Document.create,
        (hfree' _ (List.mem_singleton_self _)).1]
      rfl
  | .element tag attributes children =>
      exact run_lower_element options scope tag attributes children document hfree
        fun start hstart => run_lowerAll options _ children start hstart

theorem run_lowerAll (options : LoweringOptions) (scope : Scope) (nodes : List Node)
    (document : Document)
    (hfree : document.Free (createdBy (lowerAll options scope nodes).1)) :
    ∃ later, document.run (lowerAll options scope nodes).1 = .ok later ∧
      Builds options.collapse document later (createdBy (lowerAll options scope nodes).1)
        (lowerAll options scope nodes).2.1 (treesAll options scope.generation nodes).1 := by
  match nodes with
  | [] =>
      rw [lowerAll, treesAll]
      exact ⟨document, rfl, Builds.nil document⟩
  | node :: nodes =>
      have hnodup := (lowerAll_allocates options scope (node :: nodes)).nodup
      rw [lowerAll_cons] at hnodup hfree ⊢
      rw [treesAll, ← lower_generation]
      simp only [createdBy_append] at hnodup hfree ⊢
      have hdisjoint := List.disjoint_of_nodup_append hnodup
      obtain ⟨middle, hfirst, hbuilds⟩ := run_lower options scope node document
        fun b hb => hfree b (List.mem_append_left _ hb)
      obtain ⟨later, hothers, hbuilds'⟩ :=
        run_lowerAll options (node.lower options scope).2.2 nodes middle
          (hbuilds.free hdisjoint fun b hb => hfree b (List.mem_append_right _ hb))
      refine ⟨later, ?_, hbuilds.append hbuilds' hdisjoint⟩
      rw [Document.run_append hfirst, hothers]

end

/-- An element or a comment gives itself to its parent, and has a single tree. -/
theorem lower_root (options : LoweringOptions) (scope : Scope) (generation : UInt32) {node : Node}
    (hnode : node.content? = none) :
    (∃ root, (node.lower options scope).2.1 = .value (.ref root)) ∧
      ∃ tree, (node.trees options generation).1 = [tree] := by
  match node with
  | .text content => cases hnode
  | .comment children =>
      rw [lower, trees]
      exact ⟨⟨_, rfl⟩, ⟨_, rfl⟩⟩
  | .element tag attributes children =>
      rw [lower_element, trees]
      exact ⟨⟨_, rfl⟩, ⟨_, rfl⟩⟩

/-- **Lowering builds the tree.** In every scope, the operations of an element or a comment can be
carried out on the empty document: none of them names a node that is not there or creates one that
is. Afterwards the binding returned stands for the tree of the node. -/
theorem lower_builds_tree (options : LoweringOptions) (scope : Scope) (node : Node)
    (hnode : node.content? = none) :
    ∃ root document tree,
      (node.lower options scope).2.1.binding? = some root ∧
      Document.empty.run (node.lower options scope).1 = .ok document ∧
      (node.trees options scope.generation).1 = [tree] ∧
      ∃ height, ∀ depth ≥ height, document.tree? depth (.ref root) = some tree := by
  obtain ⟨⟨root, hroot⟩, ⟨tree, htree⟩⟩ := lower_root options scope scope.generation hnode
  obtain ⟨document, hrun, hbuilds⟩ :=
    run_lower options scope node Document.empty fun _ _ => ⟨rfl, rfl⟩
  obtain ⟨height, htrees⟩ := hbuilds.trees
  refine ⟨root, document, tree, by rw [hroot]; rfl, hrun, htree, height, ?_⟩
  intro depth hdepth
  have hread := htrees document (fun _ _ => rfl) depth hdepth
  rw [hroot, htree] at hread
  change [Value.ref root].mapM (document.tree? depth) = some [tree] at hread
  cases hvalue : document.tree? depth (.ref root) with
  | none => simp [hvalue] at hread
  | some other => simpa [hvalue] using hread

/-- An element with a handler, an SVG child, a comment, texts and an expression, in a scope where
the first candidates are taken. -/
theorem lower_builds_tree_mixed :
    let node := Node.element "div".toList [("onload".toList, Placeholder.encode 1)]
      [.text ("a ".toList ++ Placeholder.encode 0),
        .element "svg".toList [("id".toList, "div".toList)] [.text "b".toList],
        .comment [.text "c".toList]]
    let scope := Scope.empty.reserve ["_div".toList, "_svgNamespace".toList]
    node.content? = none ∧ ∃ root document tree,
      (node.lower ⟨true, true⟩ scope).2.1.binding? = some root ∧
      Document.empty.run (node.lower ⟨true, true⟩ scope).1 = .ok document ∧
      (node.trees ⟨true, true⟩ scope.generation).1 = [tree] ∧
      ∃ height, ∀ depth ≥ height, document.tree? depth (.ref root) = some tree :=
  ⟨rfl, lower_builds_tree _ _ _ rfl⟩

end Node

end Hypertext

import Hypertext.Proofs.BuiltTree

set_option autoImplicit false

/-! # The discipline of bindings

Templates are lowered one after the other in one scope. This file proves what holds of the bindings
in all their operations together, `lowerAll_binding_discipline`: nothing is bound twice, nothing is
used before it is created, every node but the root is appended exactly once, and a template that
cannot be read leaves no trace.

That nothing is used before it is created follows from the fact that the operations can be carried
out: a run that meets no fault has found every node it names (`run_ok_created`).
-/

namespace Hypertext

/-! ## Operations that can be carried out -/

namespace Document

theorem attach_ok {values : List Value} {document later : Document}
    (h : document.attach values = .ok later) :
    later.cells = document.cells ∧
      ∀ b ∈ values.filterMap Value.binding?, document.cells b ≠ none := by
  induction values generalizing document with
  | nil =>
      cases h
      exact ⟨rfl, fun _ hb => absurd hb List.not_mem_nil⟩
  | cons value rest ih =>
      cases hvalue : value.binding? with
      | none =>
          rw [attach_of_binding?_eq_none hvalue] at h
          rw [List.filterMap_cons_none hvalue]
          exact ih h
      | some b =>
          rw [Value.binding?_eq_some hvalue, attach] at h
          rw [List.filterMap_cons_some hvalue]
          split at h
          · cases h
          · next hdefined =>
              split at h
              · cases h
              · obtain ⟨hcells, hrest⟩ := ih h
                refine ⟨hcells, ?_⟩
                intro c hc
                rcases List.mem_cons.mp hc with rfl | hc
                · simpa using hdefined
                · exact hrest c hc

theorem put_cells_ne_none {document : Document} {b c : Binding} {cell : Cell}
    (h : (document.put b cell).cells c ≠ none) : c = b ∨ document.cells c ≠ none := by
  by_cases hc : c = b
  · exact Or.inl hc
  · rw [put_cells_ne _ _ hc] at h
    exact Or.inr h

theorem create_ok {document later : Document} {b : Binding} {kind : NodeKind}
    (h : document.create b kind = .ok later) :
    ∀ c, later.cells c ≠ none → document.cells c ≠ none ∨ c = b := by
  unfold create at h
  split at h
  · cases h
  · cases h
    exact fun c hc => (put_cells_ne_none hc).symm

/-- A node whose cell is replaced was there before. -/
theorem put_ok {document : Document} {b : Binding} {cell : Cell}
    (hcell : document.cells b = some cell) (cell' : Cell) :
    document.cells b ≠ none ∧
      ∀ c, (document.put b cell').cells c ≠ none → document.cells c ≠ none := by
  have hb : document.cells b ≠ none := by rw [hcell]; exact Option.some_ne_none cell
  refine ⟨hb, fun c hc => ?_⟩
  rcases put_cells_ne_none hc with rfl | hc
  · exact hb
  · exact hc

theorem act_ok {document later : Document} {b : Binding} {action : Action}
    (h : document.act b action = .ok later) :
    document.cells b ≠ none ∧ ∀ c, later.cells c ≠ none → document.cells c ≠ none := by
  unfold act at h
  split at h
  · cases h
  · next hcell =>
      cases h
      exact put_ok hcell _

theorem setText_ok {document later : Document} {b : Binding} {text : Text}
    (h : document.setText b text = .ok later) :
    document.cells b ≠ none ∧ ∀ c, later.cells c ≠ none → document.cells c ≠ none := by
  unfold setText at h
  split at h
  · cases h
  · next hcell =>
      cases h
      exact put_ok hcell _

theorem append_ok {document later : Document} {b : Binding} {values : List Value}
    (h : document.append b values = .ok later) :
    document.cells b ≠ none ∧ (∀ c ∈ values.filterMap Value.binding?, document.cells c ≠ none) ∧
      ∀ c, later.cells c ≠ none → document.cells c ≠ none := by
  unfold append at h
  split at h
  · cases h
  · next cell hcell =>
      cases hattach : document.attach values with
      | error fault => rw [hattach] at h; cases h
      | ok middle =>
          rw [hattach] at h
          cases h
          obtain ⟨hcells, hreferences⟩ := attach_ok hattach
          have hput := put_ok (hcells ▸ hcell) { cell with children := cell.children ++ values }
          rw [hcells] at hput
          exact ⟨hput.1, hreferences, hput.2⟩

/-- **What an operation needs and does.** One that succeeds creates its node or finds it there,
finds the nodes it refers to, and adds no node but the one it creates. -/
theorem step_ok {document later : Document} {operation : Operation}
    (h : document.step operation = .ok later) :
    (operation.isCreate = true ∨ document.cells operation.binding ≠ none) ∧
      (∀ b ∈ operation.references, document.cells b ≠ none) ∧
      ∀ b, later.cells b ≠ none →
        document.cells b ≠ none ∨ (operation.isCreate = true ∧ b = operation.binding) := by
  cases operation with
  | createElement b _ | createNamespacedElement b _ _ | createComment b _ =>
      refine ⟨Or.inl rfl, by simp [Operation.references], fun c hc => ?_⟩
      exact (create_ok h c hc).imp_right fun hc => ⟨rfl, hc⟩
  | setProperty b _ _ | setAttribute b _ _ | setBooleanAttribute b _ _
  | setDynamicAttribute b _ _ | setLifecycleHandler b _ _ _ =>
      obtain ⟨hb, hcells⟩ := act_ok h
      exact ⟨Or.inr hb, by simp [Operation.references], fun c hc => Or.inl (hcells c hc)⟩
  | appendTextNode b text =>
      obtain ⟨hb, hcells⟩ := setText_ok h
      exact ⟨Or.inr hb, by simp [Operation.references], fun c hc => Or.inl (hcells c hc)⟩
  | appendChildren b values =>
      obtain ⟨hb, hreferences, hcells⟩ := append_ok h
      exact ⟨Or.inr hb, hreferences, fun c hc => Or.inl (hcells c hc)⟩

/-- **Created before use.** In operations that can be carried out, each acts on a node that was
known at the start or that it or an earlier one creates, and refers only to nodes of earlier
ones. -/
theorem run_ok_created {operations : List Operation} {document later : Document}
    (h : document.run operations = .ok later) (known : List Binding)
    (hknown : ∀ b, document.cells b ≠ none → b ∈ known) :
    ∀ before operation after, operations = before ++ operation :: after →
      operation.binding ∈ known ++ createdBy (before ++ [operation]) ∧
        ∀ b ∈ operation.references, b ∈ known ++ createdBy before := by
  -- a step adds to the document at most what it adds to the nodes known
  induction operations generalizing document known with
  | nil =>
      intro before operation after heq
      simp at heq
  | cons first rest ih =>
      rw [run_cons] at h
      cases hstep : document.step first with
      | error fault => rw [hstep] at h; cases h
      | ok middle =>
          rw [hstep] at h
          obtain ⟨hown, hreferences, hcells⟩ := step_ok hstep
          have hmiddle : ∀ b, middle.cells b ≠ none → b ∈ known ++ createdBy [first] := by
            intro b hb
            rcases hcells b hb with hb | ⟨hcreate, rfl⟩
            · exact List.mem_append_left _ (hknown b hb)
            · exact List.mem_append_right _ (by simp [createdBy, hcreate])
          intro before operation after heq
          cases before with
          | nil =>
              obtain ⟨rfl, rfl⟩ := List.cons.inj heq
              refine ⟨?_, fun b hb => ?_⟩
              · rcases hown with hcreate | hb
                · exact List.mem_append_right _ (by simp [createdBy, hcreate])
                · exact List.mem_append_left _ (hknown _ hb)
              · exact List.mem_append_left _ (hknown b (hreferences b hb))
          | cons head before =>
              obtain ⟨rfl, rfl⟩ := List.cons.inj heq
              have hrest := ih h _ hmiddle before operation after rfl
              simpa only [List.append_assoc, ← createdBy_append, List.singleton_append,
                List.cons_append, List.nil_append] using hrest

end Document

/-! ## One template -/

/-- The discipline of the bindings in one lowered template. -/
structure Lowered.Disciplined (lowered : Lowered) : Prop where
  /-- An operation acts on a node that it or an earlier one creates. -/
  own : ∀ before operation after, lowered.operations = before ++ operation :: after →
    operation.binding ∈ createdBy (before ++ [operation])
  /-- The nodes that are appended were created earlier. -/
  references : ∀ before operation after, lowered.operations = before ++ operation :: after →
    ∀ b ∈ operation.references, b ∈ createdBy before
  /-- The root is one of the nodes created. -/
  root : ∀ b, lowered.root = some b → b ∈ lowered.created
  /-- The root is appended to no node, and every other node to exactly one, once. -/
  once : ∀ b ∈ lowered.created,
    (attachedBy lowered.operations).count b = if lowered.root = some b then 0 else 1

theorem Lowered.disciplined_empty : Lowered.empty.Disciplined where
  own := by
    intro before operation after heq
    simp [Lowered.empty] at heq
  references := by
    intro before operation after heq
    simp [Lowered.empty] at heq
  root := fun _ h => nomatch h
  once := by
    intro b hb
    simp [Lowered.empty, Lowered.created] at hb

theorem Node.lower_disciplined (options : LoweringOptions) (scope : Scope) (node : Node) :
    Lowered.Disciplined
      ⟨(node.lower options scope).1, (node.lower options scope).2.1.binding?⟩ := by
  obtain ⟨document, hrun, -⟩ :=
    run_lower options scope node Document.empty fun _ _ => ⟨rfl, rfl⟩
  have hcreated := Document.run_ok_created hrun [] fun b hb => absurd rfl hb
  refine ⟨fun before operation after heq => (hcreated before operation after heq).1,
    fun before operation after heq => (hcreated before operation after heq).2, ?_, ?_⟩
  · intro b hb
    refine (lower_created_perm options scope node).mem_iff.mpr (List.mem_append_left _ ?_)
    exact Option.mem_toList.mpr hb
  intro b hb
  -- each node counts once among all created ones, as the root or as an appended one
  have hcount := (lower_created_perm options scope node).count_eq b
  rw [List.count_eq_one_of_mem (lower_allocates options scope node).nodup hb,
    List.count_append] at hcount
  cases hroot : (node.lower options scope).2.1.binding? with
  | none =>
      rw [hroot] at hcount
      simpa using hcount.symm
  | some root =>
      rw [hroot, Option.toList_some, List.count_singleton] at hcount
      by_cases h : root = b
      · subst h
        simp at hcount ⊢
        exact hcount
      · simp [h] at hcount ⊢
        omega

namespace Template

/-- The nodes that the lowering of a template creates. -/
def createdIn : Except LoweringError Lowered → List Binding
  | .ok lowered => lowered.created
  | .error _ => []

/-- **One template.** Its nodes get fresh names and keep the discipline. A template that cannot be
lowered leaves the scope as it was. -/
theorem lower_spec (options : LoweringOptions) (template : Template) (scope : Scope) :
    scope.Allocates (createdIn (template.lower options scope).1) (template.lower options scope).2 ∧
      (∀ lowered, (template.lower options scope).1 = .ok lowered → lowered.Disciplined) ∧
      ((template.lower options scope).1.isOk = false →
        (template.lower options scope).2 = scope) := by
  unfold Template.lower
  split
  · refine ⟨Scope.Allocates.refl scope, ?_, fun _ => rfl⟩
    rintro lowered ⟨⟩
    exact Lowered.disciplined_empty
  · split
    · exact ⟨Scope.Allocates.refl scope, fun _ h => (nomatch h), fun _ => rfl⟩
    · refine ⟨Scope.Allocates.refl scope, ?_, fun _ => rfl⟩
      rintro lowered ⟨⟩
      exact Lowered.disciplined_empty
    · next root _ =>
        refine ⟨Node.lower_allocates options scope root, ?_, fun h => nomatch h⟩
        rintro lowered ⟨⟩
        exact Node.lower_disciplined options scope root

/-! ## Templates one after the other -/

/-- Lowers templates one after the other in one scope. -/
def lowerAll (options : LoweringOptions) :
    List Template → Scope → List (Except LoweringError Lowered) × Scope
  | [], scope => ([], scope)
  | template :: templates, scope =>
    let first := template.lower options scope
    let others := lowerAll options templates first.2
    (first.1 :: others.1, others.2)

theorem lowerAll_allocates (options : LoweringOptions) (templates : List Template)
    (scope : Scope) :
    scope.Allocates ((lowerAll options templates scope).1.flatMap createdIn)
      (lowerAll options templates scope).2 := by
  induction templates generalizing scope with
  | nil => exact Scope.Allocates.refl scope
  | cons template rest ih =>
      rw [lowerAll, List.flatMap_cons]
      exact (lower_spec options template scope).1.trans (ih _)

theorem lowerAll_disciplined (options : LoweringOptions) (templates : List Template)
    (scope : Scope) :
    ∀ lowered, .ok lowered ∈ (lowerAll options templates scope).1 → lowered.Disciplined := by
  induction templates generalizing scope with
  | nil => exact fun _ h => absurd h List.not_mem_nil
  | cons template rest ih =>
      intro lowered hmem
      rw [lowerAll] at hmem
      rcases List.mem_cons.mp hmem with h | h
      · exact (lower_spec options template scope).2.1 lowered h.symm
      · exact ih _ lowered h

/-- The templates of a run that were lowered. -/
def succeeding (options : LoweringOptions) (templates : List Template) (scope : Scope) :
    List Template :=
  ((templates.zip (lowerAll options templates scope).1).filter fun pair => pair.2.isOk).map Prod.fst

/-- Templates that cannot be lowered can be left out of a run. -/
theorem lowerAll_succeeding (options : LoweringOptions) (templates : List Template)
    (scope : Scope) :
    lowerAll options (succeeding options templates scope) scope
      = ((lowerAll options templates scope).1.filter Except.isOk,
          (lowerAll options templates scope).2) := by
  induction templates generalizing scope with
  | nil => rfl
  | cons template rest ih =>
      have hsucceeding : succeeding options (template :: rest) scope
          = (if (template.lower options scope).1.isOk then [template] else [])
            ++ succeeding options rest (template.lower options scope).2 := by
        simp only [succeeding, lowerAll, List.zip_cons_cons, List.filter_cons]
        split <;> simp
      rw [hsucceeding]
      cases hok : (template.lower options scope).1.isOk with
      | true =>
          simp only [if_true, List.singleton_append, lowerAll, ih, List.filter_cons, hok]
      | false =>
          -- the others are lowered in the same scope as without it
          have hscope := (lower_spec options template scope).2.2 hok
          simp only [Bool.false_eq_true, if_false, List.nil_append, lowerAll, List.filter_cons, hok]
          rw [hscope]
          exact ih scope

/-- **The discipline of bindings over a whole run.** Lower any templates in a scope where the
names `reserved` are taken. The nodes created by all of them have different names, none of
them reserved or that of a shared value; in each lowered template nothing is used before it is
created, and every node but the root is appended exactly once. A template that cannot be lowered
changes nothing, so that the run without such templates gives the same. -/
theorem lowerAll_binding_discipline (options : LoweringOptions) (reserved : List Text)
    (templates : List Template) :
    let start := Scope.empty.reserve reserved
    let run := lowerAll options templates start
    (run.1.flatMap createdIn).Nodup ∧
      (∀ b ∈ run.1.flatMap createdIn,
        b.name ∉ reserved ∧ ∀ value ∈ run.2.shared, b ≠ value.binding) ∧
      (∀ lowered, .ok lowered ∈ run.1 → lowered.Disciplined) ∧
      (∀ (template : Template) (scope : Scope),
        (template.lower options scope).1.isOk = false →
          (template.lower options scope).2 = scope) ∧
      lowerAll options (succeeding options templates start) start
        = (run.1.filter Except.isOk, run.2) := by
  intro start run
  have hallocates := lowerAll_allocates options templates start
  refine ⟨hallocates.nodup, fun b hb => ⟨?_, ?_⟩, lowerAll_disciplined options templates start,
    fun template scope => (lower_spec options template scope).2.2,
    lowerAll_succeeding options templates start⟩
  · -- reserved names are taken from the start
    intro hreserved
    exact hallocates.fresh b hb (Scope.mem_reserve.mpr (Or.inl hreserved))
  · rintro value hvalue rfl
    rcases hallocates.shared value hvalue with hold | ⟨-, -, hne⟩
    · -- nothing is shared yet when only names were reserved
      rw [Scope.reserve_shared] at hold
      exact absurd hold List.not_mem_nil
    · exact hne hb

end Template

end Hypertext

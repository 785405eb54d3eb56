import Hypertext.Lowering
import Mathlib.Logic.Function.Basic

set_option autoImplicit false

/-! # Documents

What operations mean. They are carried out one after the other on a document under construction: a
store that holds a cell for each node created so far, under its binding. An operation that names a
node that is not there, creates one that is there already, or attaches one that has a parent
already, is a fault and ends the run.

`Document.tree?` reads the finished tree off a document by following the references from a value.
-/

namespace Hypertext

/-! ## Nodes of a document -/

/-- What is done to a node apart from giving it children. -/
inductive Action where
  | property (name : Text) (value : Value)
  | attribute (name : Text) (value : Value)
  | boolean (name : Text) (value : Value)
  | dynamic (name value : Value)
  | lifecycle (onload onunload : Option Value) (generation : UInt32)
  deriving DecidableEq, Repr

/-- What a node is. -/
inductive NodeKind where
  | element (tag : Text) (svg : Bool)
  | comment (text : Text)
  deriving DecidableEq, Repr

/-- A node as it is stored: the log of its actions, and its children as values. The child `ref b` is
the node with the binding `b`; any other value is a text or whatever an expression gives. -/
structure Cell where
  kind : NodeKind
  actions : List Action
  children : List Value
  deriving DecidableEq, Repr

/-- A document under construction: the nodes there are, and which of them have a parent. -/
structure Document where
  cells : Binding → Option Cell
  attached : Binding → Bool

/-- Why an operation cannot be carried out. -/
inductive Fault where
  | undefined (binding : Binding)
  | redefined (binding : Binding)
  | attachedTwice (binding : Binding)
  deriving DecidableEq, Repr

/-! ## Carrying out operations -/

namespace Document

/-- The document without nodes. -/
def empty : Document := ⟨fun _ => none, fun _ => false⟩

/-- Stores a cell. -/
def put (document : Document) (binding : Binding) (cell : Cell) : Document :=
  { document with cells := Function.update document.cells binding (some cell) }

/-- Adds a node without children. -/
def create (document : Document) (binding : Binding) (kind : NodeKind) : Except Fault Document :=
  match document.cells binding with
  | some _ => .error (.redefined binding)
  | none => .ok (document.put binding ⟨kind, [], []⟩)

/-- Adds an action to the log of a node. -/
def act (document : Document) (binding : Binding) (action : Action) : Except Fault Document :=
  match document.cells binding with
  | none => .error (.undefined binding)
  | some cell => .ok (document.put binding { cell with actions := cell.actions ++ [action] })

/-- Replaces the children of a node by one text. The nodes among them have no parent then. -/
def setText (document : Document) (binding : Binding) (text : Text) : Except Fault Document :=
  match document.cells binding with
  | none => .error (.undefined binding)
  | some cell =>
    let released := fun b => document.attached b && !cell.children.contains (.ref b)
    .ok ({ document with attached := released }.put binding { cell with children := [.str text] })

/-- Attaches the nodes among values, one after the other. -/
def attach (document : Document) : List Value → Except Fault Document
  | [] => .ok document
  | .ref b :: values =>
    if (document.cells b).isNone then .error (.undefined b)
    else if document.attached b then .error (.attachedTwice b)
    else attach { document with attached := Function.update document.attached b true } values
  | _ :: values => document.attach values

/-- Appends values to the children of a node. -/
def append (document : Document) (binding : Binding) (values : List Value) :
    Except Fault Document :=
  match document.cells binding with
  | none => .error (.undefined binding)
  | some cell =>
    (document.attach values).map fun later =>
      later.put binding { cell with children := cell.children ++ values }

/-- Carries out one operation. -/
def step (document : Document) : Operation → Except Fault Document
  | .createElement b tag => document.create b (.element tag false)
  | .createNamespacedElement b _ tag => document.create b (.element tag true)
  | .createComment b text => document.create b (.comment text)
  | .setProperty b name value => document.act b (.property name value)
  | .setAttribute b name value => document.act b (.attribute name value)
  | .setBooleanAttribute b name value => document.act b (.boolean name value)
  | .setDynamicAttribute b name value => document.act b (.dynamic name value)
  | .setLifecycleHandler b onload onunload generation =>
    document.act b (.lifecycle onload onunload generation)
  | .appendTextNode b text => document.setText b text
  | .appendChildren b values => document.append b values

/-- Carries out operations in order. -/
def run (document : Document) : List Operation → Except Fault Document
  | [] => .ok document
  | operation :: operations => (document.step operation).bind fun later => later.run operations

end Document

/-! ## Reading trees -/

/-- A finished tree. A leaf is a text or the value of an expression. -/
inductive Tree where
  | node (kind : NodeKind) (actions : List Action) (children : List Tree)
  | leaf (value : Value)
  deriving Repr

/-- The tree that a value stands for in a document, if it is at most `depth` levels high. -/
def Document.tree? (document : Document) : Nat → Value → Option Tree
  | 0, _ => none
  | depth + 1, .ref b => do
    let cell ← document.cells b
    let children ← cell.children.mapM (document.tree? depth)
    return .node cell.kind cell.actions children
  | _ + 1, value => some (.leaf value)

/-! ## Laws of running -/

/-- The node that a value refers to. -/
def Value.binding? : Value → Option Binding
  | .ref b => some b
  | _ => none

theorem Value.binding?_eq_some {value : Value} {b : Binding} (h : value.binding? = some b) :
    value = .ref b := by
  cases value with
  | ref c => simpa [Value.binding?] using h
  | str _ => cases h
  | expr _ => cases h
  | toText _ => cases h
  | concat _ _ => cases h

theorem Operation.references_appendChildren (b : Binding) (values : List Value) :
    (Operation.appendChildren b values).references = values.filterMap Value.binding? := rfl

namespace Document

@[simp] theorem run_nil (document : Document) : document.run [] = .ok document := rfl

theorem run_cons (document : Document) (operation : Operation) (operations : List Operation) :
    document.run (operation :: operations)
      = (document.step operation).bind fun later => later.run operations := rfl

theorem run_append {document later : Document} {operations : List Operation}
    (h : document.run operations = .ok later) (others : List Operation) :
    document.run (operations ++ others) = later.run others := by
  induction operations generalizing document with
  | nil =>
      cases h
      rfl
  | cons operation rest ih =>
      rw [run_cons] at h
      rw [List.cons_append, run_cons]
      cases hstep : document.step operation with
      | error fault => rw [hstep] at h; cases h
      | ok middle =>
          rw [hstep] at h
          exact ih h

@[simp] theorem put_attached (document : Document) (binding : Binding) (cell : Cell) :
    (document.put binding cell).attached = document.attached := rfl

@[simp] theorem put_cells_self (document : Document) (binding : Binding) (cell : Cell) :
    (document.put binding cell).cells binding = some cell := by
  simp [put]

theorem put_cells_ne (document : Document) {binding other : Binding} (cell : Cell)
    (h : other ≠ binding) : (document.put binding cell).cells other = document.cells other := by
  simp [put, Function.update_of_ne h]

@[simp] theorem put_put (document : Document) (binding : Binding) (cell cell' : Cell) :
    (document.put binding cell).put binding cell' = document.put binding cell' := by
  simp [put, Function.update_idem]

theorem attach_of_binding?_eq_none {value : Value} (h : value.binding? = none)
    (document : Document) (values : List Value) :
    document.attach (value :: values) = document.attach values := by
  cases value with
  | ref b => cases h
  | str _ => rfl
  | expr _ => rfl
  | toText _ => rfl
  | concat _ _ => rfl

/-- Attaching nodes that are there, have no parent and differ from each other succeeds. It changes
no cell, and nothing about other nodes. -/
theorem attach_spec (values : List Value) (document : Document)
    (hdefined : ∀ b ∈ values.filterMap Value.binding?, document.cells b ≠ none)
    (hfree : ∀ b ∈ values.filterMap Value.binding?, document.attached b = false)
    (hnodup : (values.filterMap Value.binding?).Nodup) :
    ∃ later, document.attach values = .ok later ∧ later.cells = document.cells ∧
      ∀ b ∉ values.filterMap Value.binding?, later.attached b = document.attached b := by
  induction values generalizing document with
  | nil => exact ⟨document, rfl, rfl, fun _ _ => rfl⟩
  | cons value rest ih =>
      cases hvalue : value.binding? with
      | none =>
          rw [List.filterMap_cons_none hvalue] at hdefined hfree hnodup ⊢
          rw [attach_of_binding?_eq_none hvalue]
          exact ih document hdefined hfree hnodup
      | some b =>
          rw [List.filterMap_cons_some hvalue] at hdefined hfree hnodup ⊢
          obtain ⟨hb, hrest⟩ := List.nodup_cons.mp hnodup
          -- marking `b` leaves the other nodes among the values free
          obtain ⟨later, hrun, hcells, hattached⟩ :=
            ih { document with attached := Function.update document.attached b true }
              (fun c hc => hdefined c (List.mem_cons_of_mem b hc))
              (fun c hc => by
                have hne : c ≠ b := fun h => hb (h ▸ hc)
                simpa [Function.update_of_ne hne] using hfree c (List.mem_cons_of_mem b hc))
              hrest
          refine ⟨later, ?_, hcells, ?_⟩
          · have hcell := hdefined b List.mem_cons_self
            rw [Value.binding?_eq_some hvalue, attach, if_neg (by simpa using hcell),
              if_neg (by simp [hfree b List.mem_cons_self])]
            exact hrun
          · intro c hc
            have hne : c ≠ b := fun h => hc (h ▸ List.mem_cons_self)
            have hrest' := hattached c fun h => hc (List.mem_cons_of_mem b h)
            rw [hrest']
            exact Function.update_of_ne hne _ _

end Document
end Hypertext

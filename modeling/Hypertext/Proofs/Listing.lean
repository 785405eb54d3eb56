import Hypertext.Command.Run
import Hypertext.Proofs.Compiling
import Hypertext.Proofs.ShownValues

set_option autoImplicit false

/-! # Operations can be read off their lines

An operation is shown as a call with its binding as the first argument. This file proves that
operations which are shown alike are the same up to the order in which the sums in them are put
together (`Operation.Reassociated`).

Nothing that is shown contains a line break, so a listing has one line for each operation and one
for the root (`Command.splitOn_listing`), and what a template is lowered to can be told from what
the program prints for it (`Command.listing_faithful`).
-/

namespace Hypertext

/-! ## Equality up to re-association -/

/-- The operations differ at most in the order in which sums in their values are put together. -/
inductive Operation.Reassociated : Operation → Operation → Prop
  | refl (operation : Operation) : Reassociated operation operation
  | setProperty (b : Binding) (name : Text) {v w : Value} :
    v.Reassociated w → Reassociated (.setProperty b name v) (.setProperty b name w)
  | setAttribute (b : Binding) (name : Text) {v w : Value} :
    v.Reassociated w → Reassociated (.setAttribute b name v) (.setAttribute b name w)
  | setBooleanAttribute (b : Binding) (name : Text) {v w : Value} :
    v.Reassociated w → Reassociated (.setBooleanAttribute b name v) (.setBooleanAttribute b name w)
  | setDynamicAttribute (b : Binding) {name name' v w : Value} :
    name.Reassociated name' → v.Reassociated w →
      Reassociated (.setDynamicAttribute b name v) (.setDynamicAttribute b name' w)
  | setLifecycleHandler (b : Binding) {onload onunload onload' onunload' : Option Value}
    (generation : UInt32) :
    Option.Rel Value.Reassociated onload onload' →
      Option.Rel Value.Reassociated onunload onunload' →
        Reassociated (.setLifecycleHandler b onload onunload generation)
          (.setLifecycleHandler b onload' onunload' generation)
  | appendChildren (b : Binding) {children children' : List Value} :
    List.Forall₂ Value.Reassociated children children' →
      Reassociated (.appendChildren b children) (.appendChildren b children')

/-- The operations are the same up to re-association, one by one, and the root is the same. -/
structure Lowered.Reassociated (lowered lowered' : Lowered) : Prop where
  operations : List.Forall₂ Operation.Reassociated lowered.operations lowered'.operations
  root : lowered.root = lowered'.root

/-! ## Names -/

namespace Operation

/-- The values in an operation. -/
def values : Operation → List Value
  | .setProperty _ _ value => [value]
  | .setAttribute _ _ value => [value]
  | .setBooleanAttribute _ _ value => [value]
  | .setDynamicAttribute _ name value => [name, value]
  | .setLifecycleHandler _ onload onunload _ => onload.toList ++ onunload.toList
  | .appendChildren _ children => children
  | _ => []

/-- The bindings in an operation. -/
def bindings (operation : Operation) : List Binding :=
  operation.binding :: (spaces operation ++ operation.values.flatMap Value.bindings)
where
  /-- The binding of the namespace. -/
  spaces : Operation → List Binding
    | .createNamespacedElement _ space _ => [space]
    | _ => []

/-- All names in an operation are generated ones. -/
def WellNamed (operation : Operation) : Prop := ∀ b ∈ operation.bindings, IsGeneratedName b.name

theorem WellNamed.binding {operation : Operation} (h : operation.WellNamed) :
    IsGeneratedName operation.binding.name :=
  h _ List.mem_cons_self

theorem WellNamed.value {operation : Operation} (h : operation.WellNamed) {v : Value}
    (hv : v ∈ operation.values) : v.WellNamed := fun b hb =>
  h b (List.mem_cons_of_mem _ (List.mem_append_right _ (List.mem_flatMap.mpr ⟨v, hv, hb⟩)))

end Operation

/-- All names in what a template is lowered to are generated ones. -/
structure Lowered.WellNamed (lowered : Lowered) : Prop where
  operations : ∀ operation ∈ lowered.operations, operation.WellNamed
  root : ∀ b ∈ lowered.root, IsGeneratedName b.name

/-! ## Reading operations off their lines -/

namespace Operation

/-- The name under which an operation is shown. -/
def head : Operation → String
  | .createElement .. => "CreateElement"
  | .createNamespacedElement .. => "CreateNamespacedElement"
  | .createComment .. => "CreateComment"
  | .setProperty .. => "SetProperty"
  | .setAttribute .. => "SetAttribute"
  | .setBooleanAttribute .. => "SetBooleanAttribute"
  | .setDynamicAttribute .. => "SetDynamicAttribute"
  | .setLifecycleHandler .. => "SetLifecycleHandler"
  | .appendTextNode .. => "AppendTextNode"
  | .appendChildren .. => "AppendChildren"

/-- The children of an element as they are shown. -/
def childList (children : List Value) : Text :=
  '[' :: (Text.joinWith ", ".toList (children.map Value.display) ++ [']'])

/-- The arguments behind the binding. -/
def details : Operation → Text
  | .createElement _ tag => tag.quoted
  | .createNamespacedElement _ space tag => space.name ++ (", ".toList ++ tag.quoted)
  | .createComment _ text => text.quoted
  | .setProperty _ name value => name.quoted ++ (", ".toList ++ value.display)
  | .setAttribute _ name value => name.quoted ++ (", ".toList ++ value.display)
  | .setBooleanAttribute _ name value => name.quoted ++ (", ".toList ++ value.display)
  | .setDynamicAttribute _ name value => name.display ++ (", ".toList ++ value.display)
  | .setLifecycleHandler _ onload onunload generation =>
    displayOptional onload ++ (", ".toList
      ++ (displayOptional onunload ++ (", ".toList ++ Text.ofNat generation.toNat)))
  | .appendTextNode _ text => text.quoted
  | .appendChildren _ children => childList children

theorem call_cons (name : String) (first second : Text) (others : List Text) :
    call name (first :: second :: others) = name.toList ++ '(' :: (first ++ (", ".toList
      ++ (Text.joinWith ", ".toList (second :: others) ++ [')']))) := by
  simp only [call, Text.joinWith_cons, List.append_assoc, List.cons_append, List.nil_append]

/-- Every operation is shown with its binding as the first argument. -/
theorem display_eq_details (operation : Operation) :
    operation.display = operation.head.toList
      ++ '(' :: (operation.binding.name ++ (", ".toList ++ (operation.details ++ [')']))) := by
  cases operation with
  | createElement _ _ | createComment _ _ | appendTextNode _ _ | appendChildren _ _ =>
      exact call_cons _ _ _ _
  | createNamespacedElement _ _ _ | setProperty _ _ _ | setAttribute _ _ _
  | setBooleanAttribute _ _ _ | setDynamicAttribute _ _ _ =>
      refine (call_cons _ _ _ _).trans ?_
      rw [Text.joinWith_cons]
      rfl
  | setLifecycleHandler _ _ _ _ =>
      refine (call_cons _ _ _ _).trans ?_
      rw [Text.joinWith_cons, Text.joinWith_cons]
      rfl

theorem isStemChar_head (operation : Operation) :
    ∀ c ∈ operation.head.toList, isStemChar c = true := by
  cases operation <;> dsimp only [head] <;> exact List.all_eq_true.mp (by decide)

/-- A name ends at the comma behind it. -/
theorem name_comma_inj {x y : Binding} (hx : IsGeneratedName x.name) (hy : IsGeneratedName y.name)
    {r s : Text} (h : x.name ++ (", ".toList ++ r) = y.name ++ (", ".toList ++ s)) :
    x = y ∧ r = s := by
  have hcomma (t : Text) : StemEnds (", ".toList ++ t) := .cons (by decide) _
  obtain ⟨hname, hrest⟩ := Script.span_unique (isStemChar_of_isGeneratedName hx)
    (isStemChar_of_isGeneratedName hy) (hcomma r) (hcomma s) h
  obtain ⟨name⟩ := x
  obtain ⟨name'⟩ := y
  exact ⟨congrArg Binding.mk hname, List.append_cancel_left hrest⟩

/-- What kind of operation a line shows, which node it is about and the other arguments. -/
theorem head_eq_of_display {a b : Operation} (ha : a.WellNamed) (hb : b.WellNamed)
    (h : a.display = b.display) :
    a.head = b.head ∧ a.binding = b.binding ∧ a.details = b.details := by
  rw [display_eq_details, display_eq_details] at h
  obtain ⟨hhead, harguments⟩ := Script.span_unique a.isStemChar_head b.isStemChar_head
    (StemEnds.cons (by decide) _) (StemEnds.cons (by decide) _) h
  obtain ⟨hbinding, hdetails⟩ := name_comma_inj ha.binding hb.binding (List.cons.inj harguments).2
  exact ⟨String.toList_inj.mp hhead, hbinding, List.append_cancel_right hdetails⟩

/-- A missing value is not taken for one that is there. -/
theorem displayOptional_append_inj {v w : Option Value} (hv : ∀ x ∈ v.toList, x.WellNamed)
    (hw : ∀ x ∈ w.toList, x.WellNamed) {r s : Text} (hr : Value.Ends r) (hs : Value.Ends s)
    (h : displayOptional v ++ r = displayOptional w ++ s) :
    Option.Rel Value.Reassociated v w ∧ r = s := by
  have hnull {x : Value} (hx : x.WellNamed) (t u : Text) : x.display ++ t ≠ "null".toList ++ u :=
    Value.display_append_ne hx (by decide) t _
  cases v with
  | none =>
      cases w with
      | none => exact ⟨.none, List.append_cancel_left h⟩
      | some y => exact absurd h.symm (hnull (hw y List.mem_cons_self) s r)
  | some x =>
      cases w with
      | none => exact absurd h (hnull (hv x List.mem_cons_self) r s)
      | some y =>
          obtain ⟨hsame, hrest⟩ := Value.display_append_inj (hv x List.mem_cons_self)
            (hw y List.mem_cons_self) hr hs h
          exact ⟨.some hsame, hrest⟩

/-- A list without children is told from others by the bracket that follows. -/
theorem childList_inj {vs ws : List Value} (hvs : ∀ v ∈ vs, v.WellNamed)
    (hws : ∀ w ∈ ws, w.WellNamed) (h : childList vs = childList ws) :
    List.Forall₂ Value.Reassociated vs ws := by
  have hbracket {x : Value} (hx : x.WellNamed) (xs : List Value) :
      Text.joinWith ", ".toList ((x :: xs).map Value.display) ++ [']'] ≠ [']'] := by
    obtain ⟨rest, hrest⟩ :=
      Text.exists_joinWith_eq ", ".toList x.display (xs.map Value.display)
    rw [List.map_cons, hrest, List.append_assoc]
    exact Value.display_append_ne hx (by decide) _ []
  replace h := (List.cons.inj h).2
  cases vs with
  | nil =>
      cases ws with
      | nil => exact .nil
      | cons w ws => exact absurd h.symm (hbracket (hws w List.mem_cons_self) ws)
  | cons v vs =>
      cases ws with
      | nil => exact absurd h (hbracket (hvs v List.mem_cons_self) vs)
      | cons w ws =>
          have hends : ∀ t, Text.Follows ", ".toList (· = [']']) t → Value.Ends t := by
            rintro t (rfl | ⟨rest, rfl⟩)
            · exact Value.ends_bracket []
            · exact Value.ends_comma rest
          have hread : ∀ a ∈ v :: vs, ∀ b ∈ w :: ws, ∀ r s,
              Text.Follows ", ".toList (· = [']']) r → Text.Follows ", ".toList (· = [']']) s →
                a.display ++ r = b.display ++ s → a.Reassociated b ∧ r = s :=
            fun a ha b hb r s hr hs =>
              Value.display_append_inj (hvs a ha) (hws b hb) (hends r hr) (hends s hs)
          refine (Text.joinWith_append_inj ?_ hread rfl rfl h).1
          rintro t rest rfl hseparator
          cases hseparator

/-- A name in quotes and the value behind it. -/
theorem named_value_inj {name name' : Text} {v w : Value} (hv : v.WellNamed) (hw : w.WellNamed)
    (h : name.quoted ++ (", ".toList ++ v.display) = name'.quoted ++ (", ".toList ++ w.display)) :
    name = name' ∧ v.Reassociated w := by
  obtain ⟨hname, hrest⟩ := Text.quoted_append_inj h
  exact ⟨hname, Value.display_inj hv hw (List.append_cancel_left hrest)⟩

/-- A value that stands for a name and the value behind it. -/
theorem value_pair_inj {name name' v w : Value} (hname : name.WellNamed) (hname' : name'.WellNamed)
    (hv : v.WellNamed) (hw : w.WellNamed)
    (h : name.display ++ (", ".toList ++ v.display) = name'.display ++ (", ".toList ++ w.display)) :
    name.Reassociated name' ∧ v.Reassociated w := by
  obtain ⟨hsame, hrest⟩ := Value.display_append_inj hname hname' (Value.ends_comma _)
    (Value.ends_comma _) h
  exact ⟨hsame, Value.display_inj hv hw (List.append_cancel_left hrest)⟩

/-- **An operation can be read off its line** up to re-association. -/
theorem reassociated_of_display {a b : Operation} (ha : a.WellNamed) (hb : b.WellNamed)
    (h : a.display = b.display) : a.Reassociated b := by
  obtain ⟨hhead, hbinding, hdetails⟩ := head_eq_of_display ha hb h
  -- operations of different kinds have different names
  cases a with
  | createElement x tag =>
      cases b with
      | createElement y tag' =>
          obtain rfl : x = y := hbinding
          rw [Text.quoted_injective hdetails]
          exact .refl _
      | _ => simp [head] at hhead
  | createNamespacedElement x space tag =>
      cases b with
      | createNamespacedElement y space' tag' =>
          obtain rfl : x = y := hbinding
          obtain ⟨rfl, htag⟩ := name_comma_inj (ha space (by simp [bindings, bindings.spaces]))
            (hb space' (by simp [bindings, bindings.spaces])) hdetails
          rw [Text.quoted_injective htag]
          exact .refl _
      | _ => simp [head] at hhead
  | createComment x text =>
      cases b with
      | createComment y text' =>
          obtain rfl : x = y := hbinding
          rw [Text.quoted_injective hdetails]
          exact .refl _
      | _ => simp [head] at hhead
  | setProperty x name v =>
      cases b with
      | setProperty y name' w =>
          obtain rfl : x = y := hbinding
          obtain ⟨rfl, hsame⟩ := named_value_inj (ha.value List.mem_cons_self)
            (hb.value List.mem_cons_self) hdetails
          exact .setProperty x name hsame
      | _ => simp [head] at hhead
  | setAttribute x name v =>
      cases b with
      | setAttribute y name' w =>
          obtain rfl : x = y := hbinding
          obtain ⟨rfl, hsame⟩ := named_value_inj (ha.value List.mem_cons_self)
            (hb.value List.mem_cons_self) hdetails
          exact .setAttribute x name hsame
      | _ => simp [head] at hhead
  | setBooleanAttribute x name v =>
      cases b with
      | setBooleanAttribute y name' w =>
          obtain rfl : x = y := hbinding
          obtain ⟨rfl, hsame⟩ := named_value_inj (ha.value List.mem_cons_self)
            (hb.value List.mem_cons_self) hdetails
          exact .setBooleanAttribute x name hsame
      | _ => simp [head] at hhead
  | setDynamicAttribute x name v =>
      cases b with
      | setDynamicAttribute y name' w =>
          obtain rfl : x = y := hbinding
          obtain ⟨hname, hsame⟩ := value_pair_inj (ha.value List.mem_cons_self)
            (hb.value List.mem_cons_self) (ha.value (by simp [values]))
            (hb.value (by simp [values])) hdetails
          exact .setDynamicAttribute x hname hsame
      | _ => simp [head] at hhead
  | setLifecycleHandler x onload onunload generation =>
      cases b with
      | setLifecycleHandler y onload' onunload' generation' =>
          obtain rfl : x = y := hbinding
          obtain ⟨hload, hrest⟩ := displayOptional_append_inj
            (fun _ hv => ha.value (List.mem_append_left _ hv))
            (fun _ hv => hb.value (List.mem_append_left _ hv)) (Value.ends_comma _)
            (Value.ends_comma _) hdetails
          obtain ⟨hunload, hnumber⟩ := displayOptional_append_inj
            (fun _ hv => ha.value (List.mem_append_right _ hv))
            (fun _ hv => hb.value (List.mem_append_right _ hv)) (Value.ends_comma _)
            (Value.ends_comma _) (List.append_cancel_left hrest)
          rw [UInt32.toNat_inj.mp (Text.ofNat_injective (List.append_cancel_left hnumber))]
          exact .setLifecycleHandler x generation' hload hunload
      | _ => simp [head] at hhead
  | appendTextNode x text =>
      cases b with
      | appendTextNode y text' =>
          obtain rfl : x = y := hbinding
          rw [Text.quoted_injective hdetails]
          exact .refl _
      | _ => simp [head] at hhead
  | appendChildren x children =>
      cases b with
      | appendChildren y children' =>
          obtain rfl : x = y := hbinding
          exact .appendChildren x (childList_inj (fun _ => ha.value) (fun _ => hb.value) hdetails)
      | _ => simp [head] at hhead

theorem display_congr {a b : Operation} (hhead : a.head = b.head) (hbinding : a.binding = b.binding)
    (hdetails : a.details = b.details) : a.display = b.display := by
  rw [display_eq_details, display_eq_details, hhead, hbinding, hdetails]

/-- Operations that differ only in the order of their sums are shown alike. -/
theorem Reassociated.display_eq {a b : Operation} (h : a.Reassociated b) :
    a.display = b.display := by
  have hoptional {v w : Option Value} (hvw : Option.Rel Value.Reassociated v w) :
      displayOptional v = displayOptional w := by
    cases hvw with
    | none => rfl
    | some hsame => exact hsame.display_eq
  have hchildren {vs ws : List Value} (hvws : List.Forall₂ Value.Reassociated vs ws) :
      vs.map Value.display = ws.map Value.display := by
    induction hvws with
    | nil => rfl
    | cons hsame _ ih => rw [List.map_cons, List.map_cons, hsame.display_eq, ih]
  cases h with
  | refl => rfl
  | setProperty b name hv | setAttribute b name hv | setBooleanAttribute b name hv =>
      exact display_congr rfl rfl
        (congrArg (fun shown => name.quoted ++ (", ".toList ++ shown)) hv.display_eq)
  | setDynamicAttribute b hname hv =>
      exact display_congr rfl rfl
        (congrArg₂ (fun shown shown' => shown ++ (", ".toList ++ shown')) hname.display_eq
          hv.display_eq)
  | setLifecycleHandler b generation hload hunload =>
      exact display_congr rfl rfl
        (congrArg₂ (fun shown shown' => shown ++ (", ".toList
          ++ (shown' ++ (", ".toList ++ Text.ofNat generation.toNat)))) (hoptional hload)
          (hoptional hunload))
  | appendChildren b hvws =>
      exact display_congr rfl rfl
        (congrArg (fun shown => '[' :: (Text.joinWith ", ".toList shown ++ [']'])) (hchildren hvws))

/-- **Operations are shown alike exactly if** they are the same up to re-association. -/
theorem display_eq_iff {a b : Operation} (ha : a.WellNamed) (hb : b.WellNamed) :
    a.display = b.display ↔ a.Reassociated b :=
  ⟨reassociated_of_display ha hb, Reassociated.display_eq⟩

theorem map_display_eq_iff {as bs : List Operation} (has : ∀ a ∈ as, a.WellNamed)
    (hbs : ∀ b ∈ bs, b.WellNamed) :
    as.map display = bs.map display ↔ List.Forall₂ Reassociated as bs := by
  induction as generalizing bs with
  | nil =>
      cases bs with
      | nil => simp
      | cons b bs => simp
  | cons a as ih =>
      cases bs with
      | nil => simp
      | cons b bs =>
          rw [List.map_cons, List.map_cons, List.cons.injEq, List.forall₂_cons,
            display_eq_iff (has a List.mem_cons_self) (hbs b List.mem_cons_self),
            ih (fun c hc => has c (List.mem_cons_of_mem _ hc))
              (fun c hc => hbs c (List.mem_cons_of_mem _ hc))]

theorem oneLine_details {operation : Operation} (h : operation.WellNamed) :
    operation.details.OneLine := by
  have hcomma : Text.OneLine ", ".toList := Text.oneLine_of_all (by decide)
  have hvalue {v : Value} (hv : v ∈ operation.values) : Text.OneLine v.display :=
    Value.oneLine_display (h.value hv)
  have hoptional {v : Option Value} (hv : ∀ x ∈ v.toList, x ∈ operation.values) :
      Text.OneLine (displayOptional v) := by
    cases v with
    | none => exact Text.oneLine_of_all (by decide)
    | some x => exact hvalue (hv x List.mem_cons_self)
  cases operation with
  | createElement _ tag => exact Text.oneLine_quoted tag
  | createNamespacedElement _ space tag =>
      have hspace := oneLine_name (h space (by simp [bindings, bindings.spaces]))
      exact hspace.append (hcomma.append (Text.oneLine_quoted tag))
  | createComment _ text => exact Text.oneLine_quoted text
  | setProperty _ name v | setAttribute _ name v | setBooleanAttribute _ name v =>
      exact (Text.oneLine_quoted name).append (hcomma.append (hvalue List.mem_cons_self))
  | setDynamicAttribute _ name v =>
      exact (hvalue List.mem_cons_self).append (hcomma.append (hvalue (by simp [values])))
  | setLifecycleHandler _ onload onunload generation =>
      have hload := hoptional (v := onload) fun _ hx => List.mem_append_left _ hx
      have hunload := hoptional (v := onunload) fun _ hx => List.mem_append_right _ hx
      exact hload.append (hcomma.append (hunload.append (hcomma.append
        (oneLine_ofNat generation.toNat))))
  | appendTextNode _ text => exact Text.oneLine_quoted text
  | appendChildren _ children =>
      have hopen : Text.OneLine ['['] := Text.oneLine_of_all (by decide)
      have hclose : Text.OneLine [']'] := Text.oneLine_of_all (by decide)
      refine hopen.append ((Text.oneLine_joinWith hcomma fun t ht => ?_).append hclose)
      obtain ⟨v, hv, rfl⟩ := List.mem_map.mp ht
      exact hvalue hv

/-- **No line break is shown.** -/
theorem oneLine_display {operation : Operation} (h : operation.WellNamed) :
    operation.display.OneLine := by
  have hcomma : Text.OneLine ", ".toList := Text.oneLine_of_all (by decide)
  have hopen : Text.OneLine ['('] := Text.oneLine_of_all (by decide)
  have hclose : Text.OneLine [')'] := Text.oneLine_of_all (by decide)
  have hhead : Text.OneLine operation.head.toList :=
    Text.oneLine_of_class (by decide) operation.isStemChar_head
  rw [display_eq_details]
  exact hhead.append (hopen.append ((oneLine_name h.binding).append
    (hcomma.append ((oneLine_details h).append hclose))))

end Operation

/-! ## Lines -/

/-- A text without line breaks and a line break behind it are the first line. -/
theorem Text.splitOn_line {line : Text} (h : line.OneLine) {c : Char} (hc : breaksLine c = true)
    (rest : Text) :
    splitOn breaksLine (line ++ c :: rest) = line :: splitOn breaksLine rest := by
  rw [splitOn_append hc, splitOn_of_forall h]
  rfl

namespace Command

open Text

/-- The last line of a listing. -/
def rootLine (root : Option Binding) : Text :=
  "root: ".toList ++ (root.map Binding.name).getD "null".toList

theorem oneLine_rootLine {root : Option Binding} (h : ∀ b ∈ root, IsGeneratedName b.name) :
    OneLine (rootLine root) := by
  have hlabel : OneLine "root: ".toList := oneLine_of_all (by decide)
  cases root with
  | none => exact oneLine_of_all (by decide)
  | some b => exact hlabel.append (oneLine_name (h b rfl))

theorem rootLine_inj {root root' : Option Binding} (h : ∀ b ∈ root, IsGeneratedName b.name)
    (h' : ∀ b ∈ root', IsGeneratedName b.name) (heq : rootLine root = rootLine root') :
    root = root' := by
  have hnull {b : Binding} (hb : IsGeneratedName b.name) : b.name ≠ "null".toList := by
    intro hname
    obtain ⟨c, rest, hrest, -⟩ := hb
    rw [hrest] at hname
    cases (List.cons.inj hname).1
  have hname := List.append_cancel_left heq
  cases root with
  | none =>
      cases root' with
      | none => rfl
      | some b => exact absurd hname.symm (hnull (h' b rfl))
  | some b =>
      cases root' with
      | none => exact absurd hname (hnull (h b rfl))
      | some b' =>
          obtain ⟨name⟩ := b
          obtain ⟨name'⟩ := b'
          exact congrArg (fun name => some (Binding.mk name)) hname

theorem listing_eq (operations : List Operation) (root : Option Binding) :
    listing ⟨operations, root⟩
      = operations.flatMap (fun operation => operation.display ++ ['\n'])
        ++ (rootLine root ++ ['\n']) := by
  unfold listing rootLine
  simp only [List.append_assoc]

/-- **A listing has one line for each operation** and one for the root. -/
theorem splitOn_listing {lowered : Lowered} (h : lowered.WellNamed) :
    splitOn breaksLine (listing lowered)
      = lowered.operations.map Operation.display ++ [rootLine lowered.root, []] := by
  obtain ⟨operations, root⟩ := lowered
  obtain ⟨hoperations, hroot⟩ := h
  have hbreak : breaksLine '\n' = true := by decide
  rw [listing_eq]
  dsimp only at hoperations hroot ⊢
  induction operations with
  | nil => exact splitOn_line (oneLine_rootLine hroot) hbreak []
  | cons operation operations ih =>
      have hline := Operation.oneLine_display (hoperations operation List.mem_cons_self)
      simp only [List.flatMap_cons, List.append_assoc, List.cons_append, List.nil_append] at ih ⊢
      rw [splitOn_line hline hbreak, ih fun other hother =>
        hoperations other (List.mem_cons_of_mem _ hother)]
      rfl

/-- **Lines determine operations** up to re-association. -/
theorem lines_eq_iff {lowered lowered' : Lowered} (h : lowered.WellNamed)
    (h' : lowered'.WellNamed) :
    splitOn breaksLine (listing lowered) = splitOn breaksLine (listing lowered')
      ↔ lowered.Reassociated lowered' := by
  obtain ⟨operations, root⟩ := lowered
  obtain ⟨operations', root'⟩ := lowered'
  have hdisplays := Operation.map_display_eq_iff h.operations h'.operations
  rw [splitOn_listing h, splitOn_listing h']
  constructor
  · intro heq
    obtain ⟨hoperations, hends⟩ := List.append_inj' heq rfl
    exact ⟨hdisplays.mp hoperations, rootLine_inj h.root h'.root (List.cons.inj hends).1⟩
  · rintro ⟨hoperations, hroot⟩
    dsimp only at hoperations hroot ⊢
    rw [hdisplays.mpr hoperations, hroot]

end Command

/-! ## What templates are lowered to -/

theorem Value.bindings_rename (f : Binding → Binding) (v : Value) :
    (v.rename f).bindings = v.bindings.map f := by
  induction v with
  | concat left right ihleft ihright =>
      rw [rename, bindings, bindings, ihleft, ihright, List.map_append]
  | toText v ih => exact ih
  | str _ | expr _ | ref _ => rfl

namespace Operation

theorem values_rename (f : Binding → Binding) (number : UInt32 → UInt32) (operation : Operation) :
    (operation.rename f number).values = operation.values.map (Value.rename f) := by
  cases operation with
  | setLifecycleHandler b onload onunload generation =>
      cases onload <;> cases onunload <;> rfl
  | _ => rfl

theorem bindings_rename (f : Binding → Binding) (number : UInt32 → UInt32) (operation : Operation) :
    (operation.rename f number).bindings = operation.bindings.map f := by
  have hvalues : (operation.rename f number).values.flatMap Value.bindings
      = (operation.values.flatMap Value.bindings).map f := by
    rw [values_rename, List.flatMap_map, List.map_flatMap]
    exact List.flatMap_congr fun v _ => v.bindings_rename f
  have hspaces : bindings.spaces (operation.rename f number)
      = (bindings.spaces operation).map f := by
    cases operation <;> rfl
  have hbinding : (operation.rename f number).binding = f operation.binding := by
    cases operation <;> rfl
  rw [bindings, bindings, hvalues, hspaces, hbinding, List.map_cons, List.map_append]

end Operation

theorem Lowered.Spelled.wellNamed {lowered : Lowered} (h : lowered.Spelled) :
    lowered.WellNamed := by
  obtain ⟨f, number, hf, hoperations, hroot⟩ := h
  have hgenerated {b : Binding} (hb : f b = b) : IsGeneratedName b.name := by
    obtain ⟨hint, i, hname⟩ := hf b hb
    rw [hname]
    exact isGeneratedName_candidate (isStem_stem hint) i
  refine ⟨fun operation hoperation b hb => ?_, fun b hb => hgenerated (hroot b hb)⟩
  have hsame := operation.bindings_rename f number
  rw [hoperations operation hoperation] at hsame
  exact hgenerated (List.map_inj_left.mp (hsame.symm.trans (List.map_id _).symm) b hb)

namespace Command

open Text

/-- What the body of a template is lowered to, before it is printed. -/
def loweredBody (options : Options) (body : Text) : Except Failure Lowered := do
  let literal ← soleTemplate body
  let quasis ← cookPieces literal.quasis
  let expressions := literal.substitutions.map fun piece => piece.text.trim
  let template ← (Template.ofParts quasis expressions).mapError fun e => ⟨e.message, []⟩
  (template.lower options.lowering .empty).1.mapError loweringFailure

theorem lowerBody_listing (options : Options) (body : Text) :
    lowerBody options false body = (loweredBody options body).map listing := by
  show _ = listing <$> _
  simp [lowerBody, loweredBody, map_bind]

theorem wellNamed_loweredBody {options : Options} {body : Text} {lowered : Lowered}
    (h : loweredBody options body = .ok lowered) : lowered.WellNamed := by
  obtain ⟨literal, -, h⟩ := bind_eq_ok_iff.mp h
  obtain ⟨quasis, -, h⟩ := bind_eq_ok_iff.mp h
  obtain ⟨template, -, h⟩ := bind_eq_ok_iff.mp h
  exact (template.lower_spelled options.lowering Scope.Reachable.empty.spelled
    (mapError_eq_ok_iff.mp h)).wellNamed

/-- **Listings are faithful.** Operations whose names are generated ones are shown alike exactly if
they are the same up to re-association of the sums in their values, and no line break is shown for
them. So the lines that are printed for the body of a template are one for each operation and one
for the root, with nothing behind the last line break, and two bodies with the same lines are
lowered to the same operations up to re-association. -/
theorem listing_faithful :
    (∀ a b : Operation, a.WellNamed → b.WellNamed →
      (a.display = b.display ↔ a.Reassociated b)) ∧
    (∀ a : Operation, a.WellNamed → ∀ c ∈ a.display, breaksLine c = false) ∧
    (∀ (options : Options) (body : Text),
      lowerBody options false body = (loweredBody options body).map listing) ∧
    (∀ (options : Options) (body : Text) (lowered : Lowered),
      loweredBody options body = .ok lowered →
        splitOn breaksLine (listing lowered)
          = lowered.operations.map Operation.display ++ [rootLine lowered.root, []]) ∧
    ∀ (options options' : Options) (body body' : Text) (lowered lowered' : Lowered),
      loweredBody options body = .ok lowered → loweredBody options' body' = .ok lowered' →
        (splitOn breaksLine (listing lowered) = splitOn breaksLine (listing lowered') ↔
          lowered.Reassociated lowered') := by
  refine ⟨fun a b => Operation.display_eq_iff, fun a => Operation.oneLine_display,
    lowerBody_listing, fun options body lowered h => ?_, ?_⟩
  · exact splitOn_listing (wellNamed_loweredBody h)
  · intro options options' body body' lowered lowered' h h'
    exact lines_eq_iff (wellNamed_loweredBody h) (wellNamed_loweredBody h')

/-- A quote, a comma and a space in a string, a sum that is put together in two ways, and a template
that is written in two ways. -/
theorem listing_faithful_sums :
    let a : Binding := ⟨['_', 'a']⟩
    let title : Value → Operation := .setAttribute a "title".toList
    let quote : Value := .str ['"', ',', ' ']
    let x : Value := .toText (.expr 0)
    let left := title (.concat (.concat quote x) (.str []))
    let right := title (.concat quote (.concat x (.str [])))
    let lowered : Lowered := ⟨[.createElement a ['a'], left, .appendTextNode a [' ']], some a⟩
    let body := "<a title='\", $\x7bx\x7d'> </a>".toList
    let body' := "<a\ttitle='\", $\x7b x \x7d'> </a>".toList
    left.WellNamed ∧ right.WellNamed ∧ left ≠ right ∧ left.display = right.display ∧
      (∀ c ∈ left.display, breaksLine c = false) ∧
      loweredBody {} body = .ok lowered ∧ loweredBody {} body' = .ok lowered ∧
      splitOn breaksLine (listing lowered)
        = lowered.operations.map Operation.display ++ [rootLine lowered.root, []] ∧
      (splitOn breaksLine (listing lowered) = splitOn breaksLine (listing lowered) ↔
        lowered.Reassociated lowered) := by
  intro a title quote x left right lowered body body'
  obtain ⟨hdisplay, hbreaks, -, hlines, hfaithful⟩ := listing_faithful
  have hnames : ∀ b ∈ [a], IsGeneratedName b.name := by
    intro b hb
    rw [List.mem_singleton.mp hb]
    exact ⟨'a', [], rfl, .inl (by decide), fun _ hd => absurd hd List.not_mem_nil⟩
  have hleft : left.WellNamed := hnames
  have hright : right.WellNamed := hnames
  have hsame : left.display = right.display :=
    (hdisplay left right hleft hright).mpr (.setAttribute a _ (.assoc _ _ _))
  have hbodies : (loweredBody {} body).toOption = some lowered ∧
      (loweredBody {} body').toOption = some lowered := by
    decide +kernel
  have hlowered : loweredBody {} body = .ok lowered := Script.toOption_eq_some_iff.mp hbodies.1
  have hlowered' : loweredBody {} body' = .ok lowered := Script.toOption_eq_some_iff.mp hbodies.2
  exact ⟨hleft, hright, by simp [left, right, title], hsame, hbreaks left hleft, hlowered,
    hlowered', hlines {} body lowered hlowered,
    hfaithful {} {} body body' lowered lowered hlowered hlowered'⟩

end Command
end Hypertext

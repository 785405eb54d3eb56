import Hypertext.Markup.Parser
import Mathlib.Data.List.Chain
import Mathlib.Data.List.Nodup
import Mathlib.Data.List.TakeWhile

set_option autoImplicit false

/-! # Trees that come from markup

Whatever markup is read, the tree that comes of it is well formed (`Node.WellFormed`): tags and
attribute names hold no character that would end them, void elements are empty, no text is next to
another, and a comment is one text that does not end it.

A token is well formed by itself, and no text follows a text (`Token.readAll_spec`). A step of the
parser adds a node, opens an element or closes one (`PartialTree.step_cases`); in each case the tree
stays well formed if no text is added next to a text (`PartialTree.step_wellFormed`).
-/

namespace Hypertext

section

variable {ε α β : Type} {x : Except ε α} {f : α → β}

theorem map_eq_ok_iff {b : β} : x.map f = .ok b ↔ ∃ a, x = .ok a ∧ f a = b := by
  cases x with
  | error e => simp [Except.map]
  | ok a => simp [Except.map]

theorem map_eq_error_iff {e : ε} : x.map f = .error e ↔ x = .error e := by
  cases x with
  | error e' => simp [Except.map]
  | ok a => simp [Except.map]

end

/-! ## Names and attributes -/

/-- The names that a tag can give to an element. -/
structure IsTagName (tag : Text) : Prop where
  nonempty : tag ≠ []
  chars : ∀ c ∈ tag, isTagBlank c = false ∧ c ≠ '>' ∧ c ≠ '/'
  static : Placeholder.contained tag = false
  noComment : Text.startsWith "!--".toList tag = false

/-- The names that a tag can give to an attribute. -/
structure IsGivenName (name : Text) : Prop where
  nonempty : name ≠ []
  chars : ∀ c ∈ name, isTagBlank c = false ∧ c ≠ '=' ∧ c ≠ '>'

/-- The names under which attributes are kept. -/
structure IsAttributeName (name : Text) : Prop extends IsGivenName name where
  renamed : name ≠ "class".toList ∧ name ≠ "for".toList

instance : DecidablePred IsTagName := fun tag =>
  decidable_of_iff (tag ≠ [] ∧ (tag.all fun c => !isTagBlank c && c != '>' && c != '/') = true ∧
    Placeholder.contained tag = false ∧ Text.startsWith "!--".toList tag = false)
    ⟨fun ⟨hnonempty, hchars, hstatic, hcomment⟩ =>
      ⟨hnonempty, by simpa [and_assoc] using hchars, hstatic, hcomment⟩,
    fun h => ⟨h.nonempty, by simpa [and_assoc] using h.chars, h.static, h.noComment⟩⟩

instance : DecidablePred IsGivenName := fun name =>
  decidable_of_iff (name ≠ [] ∧ (name.all fun c => !isTagBlank c && c != '=' && c != '>') = true)
    ⟨fun ⟨hnonempty, hchars⟩ => ⟨hnonempty, by simpa [and_assoc] using hchars⟩,
    fun h => ⟨h.nonempty, by simpa [and_assoc] using h.chars⟩⟩

instance : DecidablePred IsAttributeName := fun name =>
  decidable_of_iff (IsGivenName name ∧ name ≠ "class".toList ∧ name ≠ "for".toList)
    ⟨fun ⟨hgiven, hrenamed⟩ => ⟨hgiven, hrenamed⟩, fun h => ⟨h.toIsGivenName, h.renamed⟩⟩

/-- Attributes with different names, all of which a tag can give. -/
structure Attributes.WellFormed (attributes : Attributes) : Prop where
  distinct : (attributes.map Prod.fst).Nodup
  names : ∀ pair ∈ attributes, IsAttributeName pair.1

namespace Attributes

theorem mem_insert {name value : Text} {attributes : Attributes} {pair : Text × Text}
    (h : pair ∈ attributes.insert name value) : pair = (name, value) ∨ pair ∈ attributes := by
  induction attributes with
  | nil => exact .inl (List.mem_singleton.mp h)
  | cons first rest ih =>
      obtain ⟨n, v⟩ := first
      rw [insert] at h
      split at h
      · next hname =>
          rcases List.mem_cons.mp h with rfl | h
          · exact .inl (by rw [hname])
          · exact .inr (List.mem_cons_of_mem _ h)
      · rcases List.mem_cons.mp h with rfl | h
        · exact .inr List.mem_cons_self
        · exact (ih h).imp_right (List.mem_cons_of_mem _)

theorem insert_distinct {name value : Text} {attributes : Attributes}
    (h : (attributes.map Prod.fst).Nodup) :
    ((attributes.insert name value).map Prod.fst).Nodup := by
  induction attributes with
  | nil => exact List.nodup_singleton _
  | cons first rest ih =>
      obtain ⟨n, v⟩ := first
      obtain ⟨hnot, hrest⟩ := List.nodup_cons.mp h
      rw [insert]
      split
      · exact h
      · next hname =>
          refine List.nodup_cons.mpr ⟨fun hmem => ?_, ih hrest⟩
          obtain ⟨pair, hpair, hfst⟩ := List.mem_map.mp hmem
          rcases mem_insert hpair with rfl | hpair
          · exact hname hfst.symm
          · exact hnot (List.mem_map.mpr ⟨pair, hpair, hfst⟩)

theorem insert_of_not_mem {name value : Text} {attributes : Attributes}
    (h : name ∉ attributes.map Prod.fst) :
    attributes.insert name value = attributes ++ [(name, value)] := by
  induction attributes with
  | nil => rfl
  | cons first rest ih =>
      obtain ⟨n, v⟩ := first
      obtain ⟨hne, hrest⟩ := not_or.mp (mt List.mem_cons.mpr h)
      rw [insert, if_neg (Ne.symm hne), ih hrest, List.cons_append]

section

variable {pairs : List (Text × Text)}

theorem mem_ofList {pair : Text × Text} (h : pair ∈ ofList pairs) : pair ∈ pairs := by
  have hgeneral : ∀ (pairs : List (Text × Text)) (attributes : Attributes),
      pair ∈ pairs.foldl (fun attributes pair => insert pair.1 pair.2 attributes) attributes →
        pair ∈ attributes ∨ pair ∈ pairs := by
    intro pairs
    induction pairs with
    | nil => exact fun _ h => .inl h
    | cons first rest ih =>
        intro attributes h
        rcases ih _ h with h | h
        · rcases mem_insert h with rfl | h
          · exact .inr List.mem_cons_self
          · exact .inl h
        · exact .inr (List.mem_cons_of_mem _ h)
  exact (hgeneral pairs [] h).resolve_left List.not_mem_nil

theorem ofList_distinct : ((ofList pairs).map Prod.fst).Nodup := by
  have hgeneral : ∀ (pairs : List (Text × Text)) (attributes : Attributes),
      (attributes.map Prod.fst).Nodup →
        ((pairs.foldl (fun attributes pair => insert pair.1 pair.2 attributes)
          attributes).map Prod.fst).Nodup := by
    intro pairs
    induction pairs with
    | nil => exact fun _ h => h
    | cons first rest ih => exact fun _ h => ih _ (insert_distinct h)
  exact hgeneral pairs [] List.nodup_nil

/-- Attributes that are all different are kept as they are given. -/
theorem ofList_of_distinct (h : (pairs.map Prod.fst).Nodup) : ofList pairs = pairs := by
  have hgeneral : ∀ (pairs : List (Text × Text)) (attributes : Attributes),
      ((attributes ++ pairs).map Prod.fst).Nodup →
        pairs.foldl (fun attributes pair => insert pair.1 pair.2 attributes) attributes
          = attributes ++ pairs := by
    intro pairs
    induction pairs with
    | nil => exact fun attributes _ => (List.append_nil attributes).symm
    | cons first rest ih =>
        intro attributes hdistinct
        have hnew : first.1 ∉ attributes.map Prod.fst := by
          rw [List.map_append, List.map_cons] at hdistinct
          exact fun hold => (List.nodup_append.mp hdistinct).2.2 _ hold _ List.mem_cons_self rfl
        rw [List.foldl_cons, insert_of_not_mem hnew, ih]
        · rw [List.append_assoc, List.singleton_append]
        · rwa [List.append_assoc, List.singleton_append]
  exact hgeneral pairs [] h

end

end Attributes

/-! ## Tokens -/

/-- What stands before the first place where a text begins does not hold it. -/
theorem Text.includes_breakAt (c : Char) (part t : Text) :
    includes (c :: part) (breakAt (startsWith (c :: part)) t).1 = false := by
  by_contra hincludes
  obtain ⟨before, more, hfirst⟩ := includes_iff.mp ((Bool.not_eq_false _).mp hincludes)
  have hearlier := breakAt_not_stop _ t before c (part ++ more) hfirst
  rw [List.append_assoc, Bool.eq_false_iff] at hearlier
  exact hearlier (startsWith_iff.mpr ⟨_, rfl⟩)

namespace Token

/-- Whether a token is text. -/
def isText : Token → Bool
  | .text _ => true
  | _ => false

/-- The tokens that markup can hold. A closing tag is compared with an opening one later. -/
def WellFormed : Token → Prop
  | .text content => content ≠ [] ∧ '<' ∉ content
  | .comment content =>
    Text.includes "-->".toList content = false ∧ Placeholder.contained content = false
  | .opening tag given empty =>
    IsTagName tag ∧ (∀ pair ∈ given, IsGivenName pair.1) ∧ (isVoid tag = true → empty = true)
  | .closing _ => True

theorem isTagNameChar_iff {c : Char} :
    isTagNameChar c = true ↔ isTagBlank c = false ∧ c ≠ '>' ∧ c ≠ '/' := by
  simp [isTagNameChar, and_assoc]

/-- A place where a name of an attribute does not end. -/
theorem of_endsName_eq_false {c : Char} {t : Text} (h : endsName (c :: t) = false) :
    isTagBlank c = false ∧ c ≠ '=' ∧ c ≠ '>' := by
  simp only [endsName, endsValue, atBlank, Bool.or_eq_false_iff] at h
  obtain ⟨hequals, hblank, hend⟩ := h
  refine ⟨hblank, ?_, ?_⟩
  · rintro rfl
    simp [Text.startsWith, Text.after?] at hequals
  · rintro rfl
    simp [atTagEnd] at hend

theorem endsName_eq_false {c : Char} {t : Text} (hblank : isTagBlank c = false) (hequals : c ≠ '=')
    (hend : c ≠ '>') (hempty : ∀ rest, c = '/' → t = '>' :: rest → False) :
    endsName (c :: t) = false := by
  have htagEnd : atTagEnd (c :: t) = false := by
    unfold atTagEnd
    split
    · next heq => exact absurd (List.cons.inj heq).1 hend
    · next rest heq => exact (hempty rest (List.cons.inj heq).1 (List.cons.inj heq).2).elim
    · rfl
  have hstart : Text.startsWith ['='] (c :: t) = false := by
    simp [Text.startsWith, Text.after?, Ne.symm hequals]
  rw [endsName, endsValue, atBlank, hstart, hblank, htagEnd]
  rfl

theorem isGivenName_breakAt {c : Char} (rest : Text) (hblank : isTagBlank c = false)
    (hequals : c ≠ '=') (hend : c ≠ '>') : IsGivenName (c :: (Text.breakAt endsName rest).1) := by
  refine ⟨List.cons_ne_nil _ _, fun d hd => ?_⟩
  rcases List.mem_cons.mp hd with rfl | hd
  · exact ⟨hblank, hequals, hend⟩
  · obtain ⟨before, more, hsplit⟩ := List.append_of_mem hd
    exact of_endsName_eq_false (Text.breakAt_not_stop endsName rest before d more hsplit)

theorem isTagBlank_of_dropWhile {t rest : Text} {c : Char}
    (h : t.dropWhile isTagBlank = c :: rest) : isTagBlank c = false := by
  have hhead := List.head?_dropWhile_not isTagBlank t
  rw [h] at hhead
  exact hhead

/-- **The names in a tag.** Every attribute that a tag gives has a name. -/
theorem readAttributes_names {size start : Nat} {t : Text} {given : List (Text × Text)}
    {selfClosing : Bool} {rest : Text}
    (h : readAttributes size start t = .ok (given, selfClosing, rest)) :
    ∀ pair ∈ given, IsGivenName pair.1 := by
  fun_induction readAttributes size start t generalizing given
  case case1 => cases h
  case case2 | case3 =>
    cases h
    exact fun _ hpair => absurd hpair List.not_mem_nil
  case case4 ih => exact ih h
  case case5 => cases h
  case case6 c u hend _ hdrop _ _ hequals value after _ _ _ ih =>
    obtain ⟨⟨others, flag, rest'⟩, hothers, heq⟩ := map_eq_ok_iff.mp h
    cases heq
    intro pair hpair
    rcases List.mem_cons.mp hpair with rfl | hpair
    · exact isGivenName_breakAt u (isTagBlank_of_dropWhile hdrop) hequals hend
    · exact ih hothers pair hpair

theorem readComment_wellFormed {start : Nat} {body : Text} {token : Token} {rest : Text}
    (h : readComment start body = .ok (token, rest)) :
    token.WellFormed ∧ token.isText = false := by
  unfold readComment at h
  split at h
  · cases h
  next after hafter =>
  dsimp only at h
  split at h
  · cases h
  next hstatic =>
  cases h
  exact ⟨⟨Text.includes_breakAt '-' ['-', '>'] body, Bool.eq_false_iff.mpr hstatic⟩, rfl⟩

theorem isTagName_takeWhile {t : Text} (hcomment : ∀ body, t ≠ '!' :: '-' :: '-' :: body)
    (hnonempty : (t.takeWhile isTagNameChar).isEmpty = false)
    (hstatic : Placeholder.contained (t.takeWhile isTagNameChar) = false) :
    IsTagName (t.takeWhile isTagNameChar) := by
  refine ⟨by simpa using hnonempty, ?_, hstatic, ?_⟩
  · exact fun c hc => isTagNameChar_iff.mp (List.mem_takeWhile_imp hc)
  · by_contra hstarts
    obtain ⟨more, htag⟩ := Text.startsWith_iff.mp ((Bool.not_eq_false _).mp hstarts)
    refine hcomment (more ++ t.dropWhile isTagNameChar) ?_
    have hwhole := List.takeWhile_append_dropWhile (p := isTagNameChar) (l := t)
    rw [htag] at hwhole
    exact hwhole.symm

theorem readOpening_wellFormed {size start : Nat} {t : Text} {token : Token} {rest : Text}
    (hcomment : ∀ body, t ≠ '!' :: '-' :: '-' :: body)
    (h : readOpening size start t = .ok (token, rest)) :
    token.WellFormed ∧ token.isText = false := by
  unfold readOpening at h
  dsimp only at h
  split at h
  · cases h
  next hnonempty =>
  split at h
  · cases h
  next hstatic =>
  split at h
  · cases h
  next given selfClosing after hattributes =>
  cases h
  have htag := isTagName_takeWhile hcomment (Bool.eq_false_iff.mpr hnonempty)
    (Bool.eq_false_iff.mpr hstatic)
  refine ⟨⟨htag, readAttributes_names hattributes, ?_⟩, rfl⟩
  exact fun hvoid => by rw [hvoid, Bool.or_true]

/-- **One token.** It is well formed; text goes up to the next tag, and where a tag begins there is
no text. -/
theorem read_spec {size : Nat} {t : Text} {token : Token} {rest : Text} (hne : t ≠ [])
    (h : read size t = .ok (token, rest)) :
    token.WellFormed ∧ (token.isText = true → t.head? ≠ some '<') ∧
      (token.isText = true → rest = [] ∨ rest.head? = some '<') := by
  have htag : ∀ {token : Token}, token.WellFormed ∧ token.isText = false →
      token.WellFormed ∧ (token.isText = true → t.head? ≠ some '<') ∧
        (token.isText = true → rest = [] ∨ rest.head? = some '<') := by
    rintro token ⟨hform, htext⟩
    simp [hform, htext]
  unfold read at h
  dsimp only at h
  split at h
  · exact htag (readComment_wellFormed h)
  · unfold readClosing at h
    split at h
    · cases h
      exact htag ⟨trivial, rfl⟩
    · cases h
  · next u hcomment _ =>
      exact htag (readOpening_wellFormed (fun body hbody => hcomment body hbody) h)
  · next htext =>
      cases h
      have hhead : t.head? ≠ some '<' := by
        cases t with
        | nil => simp
        | cons c u =>
            rintro ⟨⟩
            exact htext u rfl
      refine ⟨⟨?_, ?_⟩, fun _ => hhead, fun _ => ?_⟩
      · cases t with
        | nil => exact absurd rfl hne
        | cons c u =>
            have hc : c ≠ '<' := by simpa using hhead
            simp [hc]
      · intro hmem
        simpa using List.mem_takeWhile_imp hmem
      · have hnot := List.head?_dropWhile_not (· != '<') t
        cases hdrop : t.dropWhile (· != '<') with
        | nil => exact .inl rfl
        | cons c u =>
            rw [hdrop] at hnot
            right
            simpa using hnot

/-- A row of tokens in which no text follows a text. -/
def TextsApart (tokens : List (Nat × Token)) : Prop :=
  tokens.IsChain fun a b => a.2.isText = false ∨ b.2.isText = false

/-- **All tokens.** They are well formed, and no text follows a text. -/
theorem readAll_spec (size : Nat) (t : Text) :
    (∀ token ∈ (readAll size t).1, token.2.WellFormed) ∧ TextsApart (readAll size t).1 ∧
      ∀ token, (readAll size t).1.head? = some token → token.2.isText = true →
        t.head? ≠ some '<' := by
  fun_induction readAll size t with
  | case1 | case2 | case4 => simp [TextsApart]
  | case3 t hne token rest hread _ ih =>
      obtain ⟨hforms, hapart, hfirst⟩ := ih
      obtain ⟨hform, hbegins, hends⟩ := read_spec (by simpa using hne) hread
      refine ⟨?_, ?_, ?_⟩
      · intro other hother
        rcases List.mem_cons.mp hother with rfl | hother
        · exact hform
        · exact hforms other hother
      · refine List.isChain_cons.mpr ⟨fun next hnext => ?_, hapart⟩
        -- a text ends at a tag, or nothing follows it
        by_contra htexts
        simp only [not_or, Bool.not_eq_false] at htexts
        rcases hends htexts.1 with hnil | htag
        · subst hnil
          simp [readAll] at hnext
        · exact hfirst next hnext htexts.2 htag
      · rintro first ⟨⟩ htext
        exact hbegins htext

end Token

/-! ## Trees -/

namespace Node

/-- Whether a node is text. -/
def isText : Node → Bool
  | .text _ => true
  | _ => false

/-- Siblings of which no two texts are next to each other. -/
def TextsApart (nodes : List Node) : Prop :=
  nodes.IsChain fun a b => a.isText = false ∨ b.isText = false

theorem textsApart_reverse {nodes : List Node} : TextsApart nodes.reverse ↔ TextsApart nodes := by
  unfold TextsApart
  rw [List.isChain_reverse]
  simp only [or_comm]

/-- The trees that markup can describe. -/
inductive WellFormed : Node → Prop where
  | text {content : Text} (hnonempty : content ≠ []) (hplain : '<' ∉ content) :
      WellFormed (.text content)
  | comment {content : Text} (hopen : Text.includes "-->".toList content = false)
      (hstatic : Placeholder.contained content = false) : WellFormed (.comment [.text content])
  | element {tag : Text} {attributes : Attributes} {children : List Node} (hname : IsTagName tag)
      (hattributes : attributes.WellFormed) (hvoid : isVoid tag = true → children = [])
      (hapart : TextsApart children) (hchildren : ∀ child ∈ children, child.WellFormed) :
      WellFormed (.element tag attributes children)

end Node

theorem isAttributeName_propertyName {name : Text} (h : IsGivenName name) :
    IsAttributeName (Token.propertyName name) := by
  unfold Token.propertyName
  split
  · decide
  next hclass =>
  split
  · decide
  · next hfor => exact ⟨h, hclass, hfor⟩

theorem properties_wellFormed {given : List (Text × Text)}
    (h : ∀ pair ∈ given, IsGivenName pair.1) : (Token.properties given).WellFormed := by
  refine ⟨Attributes.ofList_distinct, fun pair hpair => ?_⟩
  obtain ⟨written, hwritten, rfl⟩ := List.mem_map.mp (Attributes.mem_ofList hpair)
  exact isAttributeName_propertyName (h written hwritten)

/-- The node that a token makes by itself. -/
def Token.leaf? : Token → Option Node
  | .text content => some (.text content)
  | .comment content => some (.comment [.text content])
  | .opening tag given true => some (.element tag (Token.properties given) [])
  | _ => none

/-- The element with the children it has so far. -/
def OpenElement.close (element : OpenElement) : Node :=
  .element element.tag element.attributes element.children.reverse

namespace PartialTree

/-- **What a step does.** It adds a node, opens an element, or closes the innermost one. -/
theorem step_cases {tree next : PartialTree} {offset : Nat} {token : Token}
    (h : tree.step (offset, token) = .ok next) :
    (∃ node, token.leaf? = some node ∧ next = tree.add offset node) ∨
      (∃ tag given, token = .opening tag given false ∧
        next = { tree with opened := ⟨tag, Token.properties given, [], offset⟩ :: tree.opened }) ∨
      (∃ element others, token = .closing element.tag ∧ tree.opened = element :: others ∧
        next = add offset element.close { tree with opened := others }) := by
  unfold step at h
  split at h
  · next heq =>
      cases heq
      cases h
      exact .inl ⟨_, rfl, rfl⟩
  · next heq =>
      cases heq
      cases h
      exact .inl ⟨_, rfl, rfl⟩
  · next heq =>
      cases heq
      cases h
      exact .inl ⟨_, rfl, rfl⟩
  · next heq =>
      cases heq
      cases h
      exact .inr (.inl ⟨_, _, rfl, rfl⟩)
  · next tag heq =>
      cases heq
      split at h
      · cases h
      · next element others hopened =>
          split at h
          · next htag =>
              cases h
              exact .inr (.inr ⟨element, others, by rw [htag], hopened, rfl⟩)
          · cases h

/-- An element that is open after a node was added was so before, or is the innermost one, with one
child more. -/
theorem mem_opened_add {tree : PartialTree} {offset : Nat} {node : Node} {element : OpenElement}
    (h : element ∈ (tree.add offset node).opened) :
    (∃ parent others, tree.opened = parent :: others ∧
      element = { parent with children := node :: parent.children }) ∨ element ∈ tree.opened := by
  unfold add at h
  split at h
  · exact .inr h
  · next parent others hopened =>
      rcases List.mem_cons.mp h with rfl | h
      · exact .inl ⟨parent, others, hopened, rfl⟩
      · exact .inr (hopened ▸ List.mem_cons_of_mem _ h)

theorem mem_roots_add {tree : PartialTree} {offset : Nat} {node : Node} {root : Nat × Node}
    (h : root ∈ (tree.add offset node).roots) : root = (offset, node) ∨ root ∈ tree.roots := by
  unfold add at h
  split at h
  · exact List.mem_cons.mp h
  · exact .inr h

theorem forall_mem_children_add {p : Node → Prop} {children : List Node} {node : Node}
    (h : ∀ child ∈ children.reverse, p child) (hnode : p node) :
    ∀ child ∈ (node :: children).reverse, p child := by
  intro child hchild
  rw [List.reverse_cons] at hchild
  rcases List.mem_append.mp hchild with hchild | hchild
  · exact h child hchild
  · rwa [List.mem_singleton.mp hchild]

/-- Every element that is open can be closed, and every root is complete. -/
structure WellFormed (tree : PartialTree) : Prop where
  opened : ∀ element ∈ tree.opened, element.close.WellFormed ∧ isVoid element.tag = false
  roots : ∀ root ∈ tree.roots, root.2.WellFormed

/-- Whether the last child of the innermost open element is text. -/
def endsInText (tree : PartialTree) : Bool :=
  match tree.opened with
  | [] => false
  | element :: _ => element.children.head?.any Node.isText

/-- A node can be added unless it is text and follows text. -/
theorem add_wellFormed {tree : PartialTree} {offset : Nat} {node : Node} (htree : tree.WellFormed)
    (hnode : node.WellFormed) (htext : tree.endsInText = true → node.isText = false) :
    (tree.add offset node).WellFormed := by
  refine ⟨fun element helement => ?_, fun root hroot => ?_⟩
  · rcases mem_opened_add helement with ⟨parent, others, hopened, rfl⟩ | helement
    · obtain ⟨hclose, hvoid⟩ := htree.opened parent (by simp [hopened])
      refine ⟨?_, hvoid⟩
      cases hclose with
      | element hname hattributes _ hapart hchildren =>
          refine .element hname hattributes (fun h => ?_) ?_
            (forall_mem_children_add hchildren hnode)
          · exact absurd h (Bool.eq_false_iff.mp hvoid)
          · -- only the last child so far and the new one are new neighbours
            rw [Node.textsApart_reverse] at hapart ⊢
            refine hapart.cons fun last hlast => ?_
            simp only [endsInText, hopened] at htext
            rw [Option.mem_def.mp hlast, Option.any_some] at htext
            by_cases hlastText : last.isText = true
            · exact .inl (htext hlastText)
            · exact .inr (Bool.eq_false_iff.mpr hlastText)
    · exact htree.opened element helement
  · rcases mem_roots_add hroot with rfl | hroot
    · exact hnode
    · exact htree.roots root hroot

theorem endsInText_add {tree : PartialTree} {offset : Nat} {node : Node}
    (h : (tree.add offset node).endsInText = true) : node.isText = true := by
  unfold add at h
  split at h
  · next hopened => simp [endsInText, hopened] at h
  · simpa [endsInText] using h

theorem leaf_wellFormed {token : Token} {node : Node} (htoken : token.WellFormed)
    (h : token.leaf? = some node) : node.WellFormed ∧ node.isText = token.isText := by
  cases token with
  | text content =>
      cases h
      exact ⟨.text htoken.1 htoken.2, rfl⟩
  | comment content =>
      cases h
      exact ⟨.comment htoken.1 htoken.2, rfl⟩
  | opening tag given empty =>
      cases empty with
      | false => cases h
      | true =>
          cases h
          refine ⟨.element htoken.1 (properties_wellFormed htoken.2.1) (fun _ => rfl) ?_ ?_, rfl⟩
          · exact .nil
          · exact fun _ hchild => absurd hchild List.not_mem_nil
  | closing tag => cases h

/-- **One step** keeps a tree well formed, and it ends in text only after a text. -/
theorem step_wellFormed {tree next : PartialTree} {offset : Nat} {token : Token}
    (htree : tree.WellFormed) (htoken : token.WellFormed)
    (htext : tree.endsInText = true → token.isText = false)
    (h : tree.step (offset, token) = .ok next) :
    next.WellFormed ∧ (next.endsInText = true → token.isText = true) := by
  rcases step_cases h with ⟨node, hleaf, rfl⟩ | ⟨tag, given, rfl, rfl⟩ |
    ⟨element, others, rfl, hopened, rfl⟩
  · obtain ⟨hnode, hsame⟩ := leaf_wellFormed htoken hleaf
    rw [← hsame] at htext ⊢
    exact ⟨add_wellFormed htree hnode htext, endsInText_add⟩
  · obtain ⟨hname, hgiven, hvoid⟩ := htoken
    refine ⟨⟨fun element helement => ?_, htree.roots⟩, fun hends => ?_⟩
    · rcases List.mem_cons.mp helement with rfl | helement
      · refine ⟨.element hname (properties_wellFormed hgiven) (fun _ => rfl) .nil ?_, ?_⟩
        · exact fun _ hchild => absurd hchild List.not_mem_nil
        · exact Bool.eq_false_iff.mpr fun h => Bool.false_ne_true (hvoid h)
      · exact htree.opened element helement
    · simp [endsInText] at hends
  · have hopen := htree.opened
    rw [hopened] at hopen
    have hothers : PartialTree.WellFormed { tree with opened := others } :=
      ⟨fun other hother => hopen other (List.mem_cons_of_mem _ hother), htree.roots⟩
    refine ⟨add_wellFormed hothers (hopen element List.mem_cons_self).1 fun _ => rfl,
      fun hends => ?_⟩
    exact absurd (endsInText_add hends) Bool.false_ne_true

/-- **A run** over tokens in which no text follows a text keeps a tree well formed. -/
theorem steps_wellFormed {tokens : List (Nat × Token)} {tree later : PartialTree}
    (htree : tree.WellFormed) (htokens : ∀ token ∈ tokens, token.2.WellFormed)
    (hapart : Token.TextsApart tokens)
    (hfirst : tree.endsInText = true → ∀ token ∈ tokens.head?, token.2.isText = false)
    (h : tree.steps tokens = .ok later) : later.WellFormed := by
  induction tokens generalizing tree with
  | nil =>
      cases h
      exact htree
  | cons token rest ih =>
      unfold steps at h
      split at h
      · cases h
      next next hstep =>
      obtain ⟨hnext, hrest⟩ := List.isChain_cons.mp hapart
      obtain ⟨hform, hends⟩ := step_wellFormed htree (htokens token List.mem_cons_self)
        (fun hends => hfirst hends token rfl) hstep
      refine ih hform (fun other hother => htokens other (List.mem_cons_of_mem _ hother)) hrest ?_ h
      intro hendsInText other hother
      exact (hnext other hother).resolve_left (by simp [hends hendsInText])

/-- What counts as a root is one of the roots, and not text. -/
theorem mem_rootNodes {roots : List (Nat × Node)} {nodes : List Node}
    (h : rootNodes roots = .ok nodes) {node : Node} (hnode : node ∈ nodes) :
    node.isText = false ∧ ∃ offset, (offset, node) ∈ roots := by
  fun_induction rootNodes roots generalizing nodes with
  | case1 =>
      cases h
      exact absurd hnode List.not_mem_nil
  | case2 _ _ _ _ ih =>
      obtain ⟨htext, offset, hmem⟩ := ih h hnode
      exact ⟨htext, offset, List.mem_cons_of_mem _ hmem⟩
  | case3 => cases h
  | case4 offset root rest hroot ih =>
      obtain ⟨others, hothers, rfl⟩ := map_eq_ok_iff.mp h
      rcases List.mem_cons.mp hnode with rfl | hnode
      · refine ⟨?_, offset, List.mem_cons_self⟩
        cases node with
        | text content => exact (hroot content rfl).elim
        | element _ _ _ => rfl
        | comment _ => rfl
      · obtain ⟨htext, offset, hmem⟩ := ih hothers hnode
        exact ⟨htext, offset, List.mem_cons_of_mem _ hmem⟩

theorem finish_eq_some {tree : PartialTree} {root : Node} (h : tree.finish = .ok (some root)) :
    tree.opened = [] ∧ rootNodes tree.roots.reverse = .ok [root] := by
  unfold finish at h
  split at h
  · cases h
  next hopened =>
  split at h
  · cases h
  · cases h
  · next hroots =>
      cases h
      exact ⟨hopened, hroots⟩
  · cases h

end PartialTree

/-! ## Reading markup -/

namespace Node

/-- Markup that describes a tree is a row of tokens without errors that builds it. -/
theorem parse_eq_some {markup : Text} {root : Node} (h : parse markup = .ok (some root)) :
    ∃ tree, (Token.readAll (Text.byteSize markup) markup).2 = none ∧
      PartialTree.empty.steps (Token.readAll (Text.byteSize markup) markup).1 = .ok tree ∧
      tree.finish = .ok (some root) := by
  unfold parse at h
  dsimp only at h
  split at h
  · cases h
  next tree hsteps =>
  split at h
  · cases h
  next hnone => exact ⟨tree, hnone, hsteps, h⟩

/-- **Trees that come from markup are well formed.** -/
theorem parse_wellFormed {markup : Text} {root : Node} (h : parse markup = .ok (some root)) :
    root.isText = false ∧ root.WellFormed := by
  obtain ⟨tree, -, hsteps, hfinish⟩ := parse_eq_some h
  obtain ⟨htokens, hapart, -⟩ := Token.readAll_spec (Text.byteSize markup) markup
  have hempty : PartialTree.empty.WellFormed :=
    ⟨fun _ h => absurd h List.not_mem_nil, fun _ h => absurd h List.not_mem_nil⟩
  have htree := PartialTree.steps_wellFormed hempty htokens hapart nofun hsteps
  obtain ⟨-, hroots⟩ := PartialTree.finish_eq_some hfinish
  obtain ⟨htext, offset, hmem⟩ := PartialTree.mem_rootNodes hroots List.mem_cons_self
  exact ⟨htext, htree.roots _ (List.mem_reverse.mp hmem)⟩

/-- A void element between two texts, a comment, and an attribute that is renamed and given again.
-/
theorem parse_wellFormed_mixed :
    let markup := "<p class=a className='b'>x<BR>y<!-----></p>".toList
    ∃ children, parse markup
        = .ok (some (.element "p".toList [("className".toList, "b".toList)] children)) ∧
      children.map isText = [true, false, true, false] ∧
      (Node.element "p".toList [("className".toList, "b".toList)] children).WellFormed := by
  intro markup
  have hshape : (match parse markup with
      | .ok (some (.element tag attributes children)) =>
        decide (tag = "p".toList ∧ attributes = [("className".toList, "b".toList)] ∧
          children.map isText = [true, false, true, false])
      | _ => false) = true := by
    decide +kernel
  split at hshape
  · next tag attributes children hparse =>
      obtain ⟨rfl, rfl, htexts⟩ := of_decide_eq_true hshape
      exact ⟨children, hparse, htexts, (parse_wellFormed hparse).2⟩
  · cases hshape

end Node

end Hypertext

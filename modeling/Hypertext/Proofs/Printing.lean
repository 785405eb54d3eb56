import Hypertext.Proofs.WellFormed

set_option autoImplicit false

/-! # Printing trees

A tree can be printed as markup (`Node.print`), and a well formed tree whose values can be quoted is
what the printed markup describes (`Node.parse_print`).

The proof goes through the tokens of a tree (`Node.tokens`). The markup of a tree is read as its
tokens, whatever follows it (`Node.reads_print`). And the tokens of a tree add it to any tree that
is being built, however many elements are open (`Node.steps_tokens`).
-/

namespace Hypertext

/-! ## The printer -/

/-- A choice of a quotation mark for each value, one that the value does not hold if it does not
hold both of them. -/
structure Quoting where
  mark : Text → Char
  isMark : ∀ value, mark value = '"' ∨ mark value = '\x27'
  avoids : ∀ value, ¬('"' ∈ value ∧ '\x27' ∈ value) → mark value ∉ value

/-- Double marks where they are possible. -/
def Quoting.double : Quoting where
  mark value := if '"' ∈ value then '\x27' else '"'
  isMark value := by
    split
    · exact .inr rfl
    · exact .inl rfl
  avoids value h := by
    split
    · next hdouble => exact fun hsingle => h ⟨hdouble, hsingle⟩
    · next hdouble => exact hdouble

/-- An attribute with its value in quotation marks. -/
def Quoting.attribute (quoting : Quoting) (pair : Text × Text) : Text :=
  ' ' :: (pair.1 ++ '=' :: quoting.mark pair.2 :: (pair.2 ++ [quoting.mark pair.2]))

namespace Node

mutual

/-- A tree as markup. A void element has neither children nor a closing tag. -/
def print (quoting : Quoting) : Node → Text
  | .text content => content
  | .comment children => "<!--".toList ++ (printAll quoting children ++ "-->".toList)
  | .element tag attributes children =>
    '<' :: (tag ++ (attributes.flatMap quoting.attribute ++ '>' ::
      if isVoid tag then [] else printAll quoting children ++ '<' :: '/' :: (tag ++ ['>'])))

/-- Trees as markup, one after the other. -/
def printAll (quoting : Quoting) : List Node → Text
  | [] => []
  | node :: nodes => node.print quoting ++ printAll quoting nodes

end

mutual

/-- The tokens of the markup of a tree. -/
def tokens : Node → List Token
  | .text content => [.text content]
  | .comment children => [.comment ((Node.comment children).commentText?.getD [])]
  | .element tag attributes children =>
    .opening tag attributes (isVoid tag) ::
      if isVoid tag then [] else tokensAll children ++ [.closing tag]

/-- The tokens of the markup of trees, one after the other. -/
def tokensAll : List Node → List Token
  | [] => []
  | node :: nodes => node.tokens ++ tokensAll nodes

end

/-- A tree in which every value of an attribute has a property. -/
inductive EveryValue (property : Text → Prop) : Node → Prop where
  | text (content : Text) : EveryValue property (.text content)
  | comment (children : List Node) : EveryValue property (.comment children)
  | element {tag : Text} {attributes : Attributes} {children : List Node}
      (hvalues : ∀ pair ∈ attributes, property pair.2)
      (hchildren : ∀ child ∈ children, EveryValue property child) :
      EveryValue property (.element tag attributes children)

end Node

/-! ## Reading one token -/

namespace Token

/-- The tag ends, or the blank before an attribute stands, behind a name. -/
theorem span_tagName {tag : Text} {c : Char} (after : Text)
    (htag : ∀ c ∈ tag, isTagNameChar c = true) (hc : isTagNameChar c = false) :
    (tag ++ c :: after).takeWhile isTagNameChar = tag ∧
      (tag ++ c :: after).dropWhile isTagNameChar = c :: after := by
  rw [List.takeWhile_append_of_pos htag, List.dropWhile_append_of_pos htag,
    List.takeWhile_cons_of_neg (by simp [hc]), List.dropWhile_cons_of_neg (by simp [hc])]
  exact ⟨List.append_nil _, rfl⟩

theorem read_text (size : Nat) {content rest : Text} (hnonempty : content ≠ [])
    (hplain : '<' ∉ content) (hrest : rest = [] ∨ rest.head? = some '<') :
    read size (content ++ rest) = .ok (.text content, rest) := by
  have hcontent : ∀ c ∈ content, (c != '<') = true := by
    intro c hc
    simpa using fun h : c = '<' => hplain (h ▸ hc)
  have hstop : rest.takeWhile (· != '<') = [] ∧ rest.dropWhile (· != '<') = rest := by
    rcases hrest with rfl | hhead
    · exact ⟨rfl, rfl⟩
    · cases rest with
      | nil => cases hhead
      | cons c u =>
          cases hhead
          exact ⟨rfl, rfl⟩
  obtain ⟨c, u, rfl⟩ := List.exists_cons_of_ne_nil hnonempty
  have hc : c ≠ '<' := fun h => hplain (h ▸ List.mem_cons_self)
  unfold read
  dsimp only
  split
  · next h => exact absurd (List.cons.inj h).1 hc
  · next h => exact absurd (List.cons.inj h).1 hc
  · next h => exact absurd (List.cons.inj h).1 hc
  · rw [List.takeWhile_append_of_pos hcontent, List.dropWhile_append_of_pos hcontent, hstop.1,
      hstop.2, List.append_nil]

/-- A comment ends behind its text: the end of a comment cannot begin inside of the text and reach
beyond it. -/
theorem breakAt_comment {content : Text} (rest : Text)
    (h : Text.includes "-->".toList content = false) :
    Text.breakAt (Text.startsWith "-->".toList) (content ++ '-' :: '-' :: '>' :: rest)
      = (content, '-' :: '-' :: '>' :: rest) := by
  refine Text.breakAt_eq (Text.startsWith_iff.mpr ⟨rest, rfl⟩) fun start c more hcontent => ?_
  rw [Bool.eq_false_iff] at h ⊢
  intro hearlier
  obtain ⟨after, hafter⟩ := Text.startsWith_iff.mp hearlier
  have hafter : c :: (more ++ '-' :: '-' :: '>' :: rest) = '-' :: '-' :: '>' :: after := hafter
  match more with
  | [] => simp at hafter
  | [d] => simp at hafter
  | d :: e :: more =>
      simp only [List.cons_append, List.cons.injEq] at hafter
      obtain ⟨rfl, rfl, rfl, -⟩ := hafter
      exact h (Text.includes_iff.mpr ⟨start, more, hcontent⟩)

theorem read_comment (size : Nat) {content : Text} (rest : Text)
    (hopen : Text.includes "-->".toList content = false)
    (hstatic : Placeholder.contained content = false) :
    read size ('<' :: '!' :: '-' :: '-' :: (content ++ '-' :: '-' :: '>' :: rest))
      = .ok (.comment content, rest) := by
  have hafter : Text.after? "-->".toList ('-' :: '-' :: '>' :: rest) = some rest := rfl
  unfold read
  simp only [readComment, breakAt_comment rest hopen, hafter, hstatic, Bool.false_eq_true, if_false]

theorem read_closing (size : Nat) {tag blanks : Text} (rest : Text)
    (htag : ∀ c ∈ tag, isTagNameChar c = true) (hblanks : ∀ c ∈ blanks, isTagBlank c = true) :
    read size ('<' :: '/' :: (tag ++ (blanks ++ '>' :: rest))) = .ok (.closing tag, rest) := by
  have hend : (blanks ++ '>' :: rest).dropWhile isTagBlank = '>' :: rest := by
    rw [List.dropWhile_append_of_pos hblanks]
    rfl
  have hspan : (tag ++ (blanks ++ '>' :: rest)).takeWhile isTagNameChar = tag ∧
      (tag ++ (blanks ++ '>' :: rest)).dropWhile isTagNameChar = blanks ++ '>' :: rest := by
    cases blanks with
    | nil => exact span_tagName rest htag rfl
    | cons c blanks =>
        have hc : isTagNameChar c = false := by simp [isTagNameChar, hblanks c List.mem_cons_self]
        exact span_tagName _ htag hc
  unfold read
  simp only [readClosing, hspan.1, hspan.2, hend]

/-! ### Attributes -/

theorem readAttributes_close {size start : Nat} {t rest : Text}
    (hdrop : t.dropWhile isTagBlank = '>' :: rest) :
    readAttributes size start t = .ok ([], false, rest) := by
  unfold readAttributes
  split
  · next h => rw [hdrop] at h; cases h
  · next h => rw [hdrop] at h; cases h; rfl
  · next h => rw [hdrop] at h; cases h
  · next hend _ h => rw [hdrop] at h; cases h; exact absurd rfl hend

/-- An attribute with a name and a value is read before those that follow it. -/
theorem readAttributes_cons {size start : Nat} {t u name after value rest : Text} {c : Char}
    (hdrop : t.dropWhile isTagBlank = c :: u) (hend : c ≠ '>')
    (hslash : c = '/' → u.head? ≠ some '>') (hequals : c ≠ '=')
    (hbreak : Text.breakAt endsName u = (name, after))
    (hvalue : readAssigned (c :: name) after = .ok (value, rest)) :
    readAttributes size start t = (readAttributes size start rest).map fun others =>
      ((c :: name, value) :: others.1, others.2) := by
  rw [readAttributes]
  split
  · next h => rw [hdrop] at h; cases h
  · next h => rw [hdrop] at h; cases h; exact absurd rfl hend
  · next h => rw [hdrop] at h; cases h; exact absurd rfl (hslash rfl)
  · next h =>
      rw [hdrop] at h
      cases h
      rw [if_neg hequals]
      split
      · next herror =>
          rw [hbreak, hvalue] at herror
          cases herror
      · next hok =>
          simp only [hbreak, hvalue] at hok
          cases hok
          simp only [hbreak]

theorem readQuoted_append {quote : Char} {value : Text} (rest : Text) (h : quote ∉ value) :
    readQuoted quote (value ++ quote :: rest) = some (value, rest) := by
  have hvalue : ∀ c ∈ value, (c != quote) = true := by
    intro c hc
    simpa using fun heq : c = quote => h (heq ▸ hc)
  unfold readQuoted
  rw [List.dropWhile_append_of_pos hvalue, List.takeWhile_append_of_pos hvalue]
  simp

theorem readAssigned_quoted (name rest : Text) {mark : Char} {value : Text}
    (hmark : mark = '"' ∨ mark = '\x27') (h : mark ∉ value) :
    readAssigned name ('=' :: mark :: (value ++ mark :: rest)) = .ok (value, rest) := by
  have hequals : ('=' :: mark :: (value ++ mark :: rest)).dropWhile isTagBlank
      = '=' :: mark :: (value ++ mark :: rest) := rfl
  have hquote : (mark :: (value ++ mark :: rest)).dropWhile isTagBlank
      = mark :: (value ++ mark :: rest) := by
    rcases hmark with rfl | rfl
    · rfl
    · rfl
  have hread : readValue (mark :: (value ++ mark :: rest)) = some (value, rest) := by
    rcases hmark with rfl | rfl
    · exact readQuoted_append rest h
    · exact readQuoted_append rest h
  unfold readAssigned
  rw [hequals]
  simp only [hquote, hread]

/-- A name goes up to the `=` behind it. A slash in it ends no tag, since no `>` follows. -/
theorem breakAt_name {name : Text} (rest : Text)
    (hname : ∀ c ∈ name, isTagBlank c = false ∧ c ≠ '=' ∧ c ≠ '>') :
    Text.breakAt endsName (name ++ '=' :: rest) = (name, '=' :: rest) := by
  refine Text.breakAt_eq rfl fun start c more hsplit => ?_
  obtain ⟨hblank, hequals, hend⟩ := hname c (by simp [hsplit])
  refine endsName_eq_false hblank hequals hend fun after _ hnext => ?_
  cases more with
  | nil => exact absurd (List.cons.inj hnext).1 (by decide)
  | cons d more =>
      have hd := (hname d (by simp [hsplit])).2.2
      exact hd (List.cons.inj hnext).1

/-- **Printed attributes** are read as they are. -/
theorem readAttributes_print (quoting : Quoting) (size start : Nat) (rest : Text)
    {attributes : List (Text × Text)} (hnames : ∀ pair ∈ attributes, IsGivenName pair.1)
    (hvalues : ∀ pair ∈ attributes, ¬('"' ∈ pair.2 ∧ '\x27' ∈ pair.2)) :
    readAttributes size start (attributes.flatMap quoting.attribute ++ '>' :: rest)
      = .ok (attributes, false, rest) := by
  induction attributes with
  | nil => exact readAttributes_close rfl
  | cons pair attributes ih =>
      obtain ⟨name, value⟩ := pair
      have hname := hnames (name, value) List.mem_cons_self
      have hothers := ih (fun pair h => hnames pair (List.mem_cons_of_mem _ h))
        fun pair h => hvalues pair (List.mem_cons_of_mem _ h)
      obtain ⟨c, name, rfl⟩ := List.exists_cons_of_ne_nil hname.nonempty
      obtain ⟨hblank, hequals, hend⟩ := hname.chars c List.mem_cons_self
      have hchars := fun d hd => hname.chars d (List.mem_cons_of_mem c hd)
      have hassigned := readAssigned_quoted (c :: name)
        (attributes.flatMap quoting.attribute ++ '>' :: rest) (quoting.isMark value)
        (quoting.avoids value (hvalues _ List.mem_cons_self))
      have hslash : ∀ t : Text, (name ++ '=' :: t).head? ≠ some '>' := by
        intro t
        cases name with
        | nil => simp
        | cons d name => simpa using (hchars d List.mem_cons_self).2.2
      have hdrop : ∀ t : Text, (' ' :: c :: t).dropWhile isTagBlank = c :: t := by
        intro t
        rw [List.dropWhile_cons_of_pos rfl, List.dropWhile_cons_of_neg (by simp [hblank])]
      rw [List.flatMap_cons, Quoting.attribute]
      simp only [List.cons_append, List.append_assoc, List.nil_append] at hassigned ⊢
      rw [readAttributes_cons (hdrop _) hend (fun _ => hslash _) hequals (breakAt_name _ hchars)
        hassigned, hothers]
      rfl

/-- **An opening tag** is read as its name, and then as its attributes. -/
theorem read_tag (size : Nat) {tag t : Text} (htag : IsTagName tag)
    (hstop : t.head?.any isTagNameChar = false) :
    read size ('<' :: (tag ++ t))
      = (readAttributes size (size - Text.byteSize ('<' :: (tag ++ t))) t).map fun result =>
          (.opening tag result.1 (result.2.1 || isVoid tag), result.2.2) := by
  have hchars : ∀ c ∈ tag, isTagNameChar c = true :=
    fun c hc => isTagNameChar_iff.mpr (htag.chars c hc)
  -- whatever follows the name, it does not belong to it
  have hspan : (tag ++ t).takeWhile isTagNameChar = tag ∧
      (tag ++ t).dropWhile isTagNameChar = t := by
    cases t with
    | nil =>
        rw [List.append_nil]
        exact ⟨List.takeWhile_eq_self_iff.mpr hchars, List.dropWhile_eq_nil_iff.mpr hchars⟩
    | cons c t => exact span_tagName t hchars hstop
  have hopening : ∀ start, readOpening size start (tag ++ t)
      = (readAttributes size start t).map fun result =>
          (.opening tag result.1 (result.2.1 || isVoid tag), result.2.2) := by
    intro start
    have hnonempty : tag.isEmpty = false := by simpa using htag.nonempty
    simp only [readOpening, hspan.1, hspan.2, hnonempty, htag.static, Bool.false_eq_true, if_false]
    cases readAttributes size start t with
    | error e => rfl
    | ok result => rfl
  generalize tag ++ t = u at hspan hopening
  unfold read
  dsimp only
  split
  · next body h =>
      -- the name would begin like a comment
      cases h
      refine absurd (Text.startsWith_iff.mpr ⟨body.takeWhile isTagNameChar, ?_⟩)
        (Bool.eq_false_iff.mp htag.noComment)
      exact hspan.1.symm
  · next v h =>
      cases h
      exact absurd hspan.1.symm htag.nonempty
  · next h =>
      cases h
      exact hopening _
  · next h => exact absurd rfl (h u)

theorem read_opening (quoting : Quoting) (size : Nat) (rest : Text) {tag : Text}
    {attributes : List (Text × Text)} (htag : IsTagName tag)
    (hnames : ∀ pair ∈ attributes, IsGivenName pair.1)
    (hvalues : ∀ pair ∈ attributes, ¬('"' ∈ pair.2 ∧ '\x27' ∈ pair.2)) :
    read size ('<' :: (tag ++ (attributes.flatMap quoting.attribute ++ '>' :: rest)))
      = .ok (.opening tag attributes (isVoid tag), rest) := by
  have hstop : (attributes.flatMap quoting.attribute ++ '>' :: rest).head?.any isTagNameChar
      = false := by
    cases attributes with
    | nil => rfl
    | cons pair attributes => rfl
  rw [read_tag size htag hstop, readAttributes_print quoting size _ rest hnames hvalues]
  rfl

/-! ## Reading a row of tokens -/

/-- A text is read as the given tokens, and then as what is left of it. -/
structure Reads (size : Nat) (t : Text) (tokens : List Token) (rest : Text) : Prop where
  tokens : (readAll size t).1.map Prod.snd = tokens ++ (readAll size rest).1.map Prod.snd
  error : (readAll size t).2 = (readAll size rest).2

theorem Reads.nil (size : Nat) (t : Text) : Reads size t [] t := ⟨rfl, rfl⟩

theorem Reads.append {size : Nat} {t u v : Text} {first second : List Token}
    (h₁ : Reads size t first u) (h₂ : Reads size u second v) : Reads size t (first ++ second) v :=
  ⟨by rw [h₁.tokens, h₂.tokens, List.append_assoc], h₁.error.trans h₂.error⟩

theorem reads_of_read {size : Nat} {t rest : Text} {token : Token} (hne : t ≠ [])
    (h : read size t = .ok (token, rest)) : Reads size t [token] rest := by
  have hall := readAll_of_read hne h
  exact ⟨by rw [hall]; rfl, by rw [hall]⟩

end Token

namespace Node

/-! ## The markup of a tree is read as its tokens -/

theorem head?_print (quoting : Quoting) {node : Node} (h : node.isText = false) :
    (node.print quoting).head? = some '<' := by
  cases node with
  | text content => cases h
  | comment children => rw [print]; rfl
  | element tag attributes children => rw [print]; rfl

/-- **The markup of a tree** is read as its tokens. Behind a text there must be a tag or nothing. -/
theorem reads_print (quoting : Quoting) (size : Nat) {node : Node} (hform : node.WellFormed)
    (hvalues : node.EveryValue fun value => ¬('"' ∈ value ∧ '\x27' ∈ value)) (rest : Text)
    (hrest : node.isText = true → rest = [] ∨ rest.head? = some '<') :
    Token.Reads size (node.print quoting ++ rest) node.tokens rest := by
  induction hform generalizing rest with
  | @text content hnonempty hplain =>
      rw [print, tokens]
      exact Token.reads_of_read (List.append_ne_nil_of_left_ne_nil hnonempty rest)
        (Token.read_text size hnonempty hplain (hrest rfl))
  | @comment content hopen hstatic =>
      have hread := Token.read_comment size rest hopen hstatic
      have htext : (Node.comment [.text content]).print quoting ++ rest
          = '<' :: '!' :: '-' :: '-' :: (content ++ '-' :: '-' :: '>' :: rest) := by
        simp [print, printAll]
      rw [htext, tokens]
      exact Token.reads_of_read (List.cons_ne_nil _ _) hread
  | @element tag attributes children hname hattributes hvoid hapart hchildren ih =>
      cases hvalues with
      | element hown hinner =>
      have hopening := fun rest => Token.read_opening quoting size rest hname
        (fun pair h => (hattributes.names pair h).toIsGivenName) hown
      -- the children are read one after the other, up to the closing tag
      have hall : ∀ (nodes : List Node) (rest : Text), nodes ⊆ children → TextsApart nodes →
          rest.head? = some '<' →
          Token.Reads size (printAll quoting nodes ++ rest) (tokensAll nodes) rest := by
        intro nodes
        induction nodes with
        | nil =>
            intro rest _ _ _
            rw [printAll, tokensAll]
            exact .nil size rest
        | cons node nodes ihnodes =>
            intro rest hsubset hapart hhead
            obtain ⟨hnode, hnodes⟩ := List.cons_subset.mp hsubset
            obtain ⟨hnext, hapart⟩ := List.isChain_cons.mp hapart
            rw [printAll, tokensAll, List.append_assoc]
            refine (ih node hnode (hinner node hnode) _ fun htext => .inr ?_).append
              (ihnodes rest hnodes hapart hhead)
            cases nodes with
            | nil =>
                rw [printAll]
                exact hhead
            | cons other nodes =>
                have hother := (hnext other rfl).resolve_left (by simp [htext])
                rw [printAll, List.append_assoc, List.head?_append, head?_print quoting hother]
                rfl
      rw [print, tokens]
      by_cases hempty : isVoid tag = true
      · rw [if_pos hempty, if_pos hempty, List.cons_append, List.append_assoc, List.append_assoc]
        exact Token.reads_of_read (List.cons_ne_nil _ _) (hopening _)
      · rw [if_neg hempty, if_neg hempty]
        have hclosing : Token.read size ('<' :: '/' :: (tag ++ '>' :: rest))
            = .ok (.closing tag, rest) :=
          Token.read_closing size rest (fun c hc => Token.isTagNameChar_iff.mpr (hname.chars c hc))
            fun _ hc => absurd hc List.not_mem_nil
        have hinside := hall children ('<' :: '/' :: (tag ++ '>' :: rest)) (List.Subset.refl _)
          hapart rfl
        have hrow := (Token.reads_of_read (List.cons_ne_nil _ _) (hopening _)).append
          (hinside.append (Token.reads_of_read (List.cons_ne_nil _ _) hclosing))
        simpa only [List.cons_append, List.append_assoc, List.nil_append] using hrow

/-! ## The tokens of a tree build it -/

theorem steps_cons {tree next : PartialTree} {token : Nat × Token} (h : tree.step token = .ok next)
    (tokens : List (Nat × Token)) : tree.steps (token :: tokens) = next.steps tokens := by
  rw [PartialTree.steps, h]

theorem steps_append {tree next : PartialTree} {first : List (Nat × Token)}
    (h : tree.steps first = .ok next) (second : List (Nat × Token)) :
    tree.steps (first ++ second) = next.steps second := by
  induction first generalizing tree with
  | nil =>
      cases h
      rfl
  | cons token first ih =>
      cases hstep : tree.step token with
      | error e =>
          rw [PartialTree.steps, hstep] at h
          cases h
      | ok middle =>
          rw [steps_cons hstep] at h
          rw [List.cons_append, steps_cons hstep, ih h]

theorem properties_eq {attributes : Attributes} (h : attributes.WellFormed) :
    Token.properties attributes = attributes := by
  have hsame : attributes.map (fun pair => (Token.propertyName pair.1, pair.2))
      = attributes.map id := by
    refine List.map_congr_left fun pair hpair => ?_
    obtain ⟨hclass, hfor⟩ := (h.names pair hpair).renamed
    rw [Token.propertyName, if_neg hclass, if_neg hfor]
    rfl
  rw [Token.properties, hsame, List.map_id, Attributes.ofList_of_distinct h.distinct]

/-- **The tokens of a tree** add it to any tree that is being built. -/
theorem steps_tokens {node : Node} (hform : node.WellFormed) (tree : PartialTree)
    {row : List (Nat × Token)} (hrow : row.map Prod.snd = node.tokens) :
    ∃ offset, tree.steps row = .ok (tree.add offset node) := by
  induction hform generalizing tree row with
  | text hnonempty hplain =>
      rw [tokens] at hrow
      obtain ⟨⟨offset, token⟩, rfl, rfl⟩ := List.map_eq_singleton_iff.mp hrow
      exact ⟨offset, steps_cons rfl []⟩
  | comment hopen hstatic =>
      rw [tokens] at hrow
      obtain ⟨⟨offset, token⟩, rfl, rfl⟩ := List.map_eq_singleton_iff.mp hrow
      exact ⟨offset, steps_cons rfl []⟩
  | @element tag attributes children hname hattributes hvoid hapart hchildren ih =>
      rw [tokens] at hrow
      obtain ⟨⟨offset, token⟩, inside, rfl, rfl, hinside⟩ := List.map_eq_cons_iff.mp hrow
      have hproperties := properties_eq hattributes
      by_cases hempty : isVoid tag = true
      · rw [if_pos hempty, List.map_eq_nil_iff] at hinside
        subst hinside
        refine ⟨offset, ?_⟩
        rw [hvoid hempty, hempty, steps_cons rfl, hproperties]
        rfl
      · -- the innermost open element collects the children, the last one first
        have hall : ∀ (nodes : List Node) (row : List (Nat × Token)) (parent : OpenElement)
            (others : List OpenElement) (roots : List (Nat × Node)), nodes ⊆ children →
            row.map Prod.snd = tokensAll nodes →
            PartialTree.steps ⟨parent :: others, roots⟩ row
              = .ok ⟨{ parent with children := nodes.reverse ++ parent.children } :: others,
                  roots⟩ := by
          intro nodes
          induction nodes with
          | nil =>
              intro row parent others roots _ hrow
              rw [tokensAll, List.map_eq_nil_iff] at hrow
              subst hrow
              rfl
          | cons node nodes ihnodes =>
              intro row parent others roots hsubset hrow
              obtain ⟨hnode, hnodes⟩ := List.cons_subset.mp hsubset
              rw [tokensAll] at hrow
              obtain ⟨first, second, rfl, hfirst, hsecond⟩ := List.map_eq_append_iff.mp hrow
              obtain ⟨offset, hadd⟩ := ih node hnode ⟨parent :: others, roots⟩ hfirst
              rw [steps_append hadd, PartialTree.add]
              rw [ihnodes second _ others roots hnodes hsecond]
              simp
        rw [if_neg hempty] at hinside
        obtain ⟨middle, last, rfl, hmiddle, hlast⟩ := List.map_eq_append_iff.mp hinside
        obtain ⟨⟨offset', token'⟩, rfl, rfl⟩ := List.map_eq_singleton_iff.mp hlast
        have hvoid : isVoid tag = false := Bool.eq_false_iff.mpr hempty
        refine ⟨offset', ?_⟩
        rw [hvoid, steps_cons rfl, hproperties,
          steps_append (hall children middle _ _ _ (List.Subset.refl _) hmiddle)]
        simp [PartialTree.steps, PartialTree.step]

/-! ## Printing and parsing -/

/-- **A printed tree is read back.** -/
theorem parse_print (quoting : Quoting) {tree : Node} (hnode : tree.isText = false)
    (hform : tree.WellFormed)
    (hvalues : tree.EveryValue fun value => ¬('"' ∈ value ∧ '\x27' ∈ value)) :
    parse (tree.print quoting) = .ok (some tree) := by
  have hreads := reads_print quoting (Text.byteSize (tree.print quoting)) hform hvalues []
    fun _ => .inl rfl
  rw [List.append_nil] at hreads
  have hend : ∀ size, Token.readAll size [] = ([], none) := by
    intro size
    rw [Token.readAll]
    rfl
  have htokens := hreads.tokens
  have herror := hreads.error
  rw [hend] at htokens herror
  rw [List.map_nil, List.append_nil] at htokens
  obtain ⟨offset, hsteps⟩ := steps_tokens hform PartialTree.empty htokens
  have hfinish : (PartialTree.empty.add offset tree).finish = .ok (some tree) := by
    cases tree with
    | text content => cases hnode
    | element tag attributes children => rfl
    | comment children => rfl
  unfold parse
  simp only [hsteps, herror, hfinish]

/-- A slash in the name of an attribute, a quotation mark and an end of a tag in its value, and a
comment that ends in a dash. -/
theorem parse_print_mixed :
    let tree : Node := .element "p".toList [("a/".toList, "x>\"".toList)]
      [.text "1 > 0".toList, .element "BR".toList [] [], .text "b".toList,
        .comment [.text "-".toList]]
    tree.print .double = "<p a/='x>\"'>1 > 0<BR>b<!-----></p>".toList ∧
      parse (tree.print .double) = .ok (some tree) := by
  intro tree
  have hvoid : (Node.element "BR".toList [] []).WellFormed :=
    .element (by decide)
      ⟨by decide, fun _ h => absurd h List.not_mem_nil⟩ (fun _ => rfl) .nil
      fun _ h => absurd h List.not_mem_nil
  have hattributes : Attributes.WellFormed [("a/".toList, "x>\"".toList)] := by
    refine ⟨by decide, fun pair hpair => ?_⟩
    rw [List.mem_singleton.mp hpair]
    decide
  have hform : tree.WellFormed := by
    refine .element (by decide) hattributes (by decide) ?_ ?_
    · exact .cons_cons (.inr rfl) (.cons_cons (.inl rfl) (.cons_cons (.inr rfl) (.singleton _)))
    · intro child hchild
      simp only [List.mem_cons, List.not_mem_nil, or_false] at hchild
      rcases hchild with rfl | rfl | rfl | rfl
      · exact .text (by decide) (by decide)
      · exact hvoid
      · exact .text (by decide) (by decide)
      · exact .comment (by decide) (by decide)
  have hvalues : tree.EveryValue fun value => ¬('"' ∈ value ∧ '\x27' ∈ value) := by
    refine .element (by decide) fun child hchild => ?_
    simp only [List.mem_cons, List.not_mem_nil, or_false] at hchild
    rcases hchild with rfl | rfl | rfl | rfl
    · exact .text _
    · exact .element (by decide) (fun _ h => absurd h List.not_mem_nil)
    · exact .text _
    · exact .comment _
  exact ⟨by decide, parse_print .double rfl hform hvalues⟩

end Node

end Hypertext

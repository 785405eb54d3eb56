import Hypertext.Proofs.RenderedCode
import Hypertext.Proofs.StringLiterals

set_option autoImplicit false

/-! # Values can be read off their code

A value is printed as an infix expression in which only the right side of a sum stands in
parentheses, and only if it is a sum itself. This file proves that no two values are printed alike.

A sum is taken apart along its left sides into a first term and the operands behind it
(`Value.firstTerm`, `Value.operands`), since that is the order in which it is printed. For each
level there is one statement of the same form (`Recovers`): a value of this level can be read off
its code with anything behind it that may follow there. Terms are followed by a space or a closing
parenthesis (`Stops`), whole values by a closing parenthesis only (`Closes`).
-/

namespace Hypertext

/-! ## Sums -/

namespace Value

/-- Whether a value is a sum. -/
def isSum : Value → Bool
  | .concat _ _ => true
  | _ => false

/-- The first term of a sum. -/
def firstTerm : Value → Value
  | .concat left _ => left.firstTerm
  | value => value

/-- What is added to the first term, from left to right. -/
def operands : Value → List Value
  | .concat left right => left.operands ++ [right]
  | _ => []

/-- A value is its first term with the operands added to it. -/
theorem foldl_operands (value : Value) : value.operands.foldl .concat value.firstTerm = value := by
  induction value with
  | concat left right ihleft _ =>
      rw [operands, firstTerm, List.foldl_append, ihleft]
      rfl
  | str _ | expr _ | ref _ | toText _ => rfl

theorem isSum_firstTerm (value : Value) : value.firstTerm.isSum = false := by
  induction value with
  | concat left right ihleft _ => exact ihleft
  | str _ | expr _ | ref _ | toText _ => rfl

theorem firstTerm_of_not_isSum {value : Value} (h : value.isSum = false) :
    value.firstTerm = value := by
  cases value with
  | concat left right => cases h
  | str _ | expr _ | ref _ | toText _ => rfl

end Value

/-! ## Parts of a text -/

namespace Text

variable {α : Type}

theorem splitOn_ne_nil (cut : α → Bool) (t : List α) : splitOn cut t ≠ [] := by
  cases t with
  | nil => exact List.cons_ne_nil _ _
  | cons c t =>
      rw [splitOn]
      split
      · exact List.cons_ne_nil _ _
      · split <;> exact List.cons_ne_nil _ _

/-- One more character begins a part or is put in front of the first one. -/
theorem splitOn_cons (cut : α → Bool) (c : α) (t : List α) :
    ∃ part parts, splitOn cut t = part :: parts ∧
      splitOn cut (c :: t)
        = if cut c = true then [] :: part :: parts else (c :: part) :: parts := by
  obtain ⟨part, parts, hparts⟩ := List.exists_cons_of_ne_nil (splitOn_ne_nil cut t)
  refine ⟨part, parts, hparts, ?_⟩
  rw [splitOn, hparts]

/-- A separator ends the parts before it. -/
theorem splitOn_append {cut : α → Bool} {c : α} (hc : cut c = true) (t rest : List α) :
    splitOn cut (t ++ c :: rest) = splitOn cut t ++ splitOn cut rest := by
  induction t with
  | nil =>
      obtain ⟨part, parts, hparts, hsplit⟩ := splitOn_cons cut c rest
      rw [List.nil_append, hsplit, if_pos hc, hparts]
      rfl
  | cons d t ih =>
      obtain ⟨part, parts, hparts, hsplit⟩ := splitOn_cons cut d t
      obtain ⟨part', parts', hparts', hsplit'⟩ := splitOn_cons cut d (t ++ c :: rest)
      rw [ih, hparts, List.cons_append, List.cons.injEq] at hparts'
      obtain ⟨rfl, rfl⟩ := hparts'
      rw [List.cons_append, hsplit, hsplit']
      split
      · rfl
      · rfl

/-- A text without separators is its only part. -/
theorem splitOn_of_forall {cut : α → Bool} {t : List α} (h : ∀ c ∈ t, cut c = false) :
    splitOn cut t = [t] := by
  induction t with
  | nil => rfl
  | cons c t ih =>
      rw [splitOn, ih fun d hd => h d (List.mem_cons_of_mem c hd)]
      exact if_neg (by simp [h c List.mem_cons_self])

/-- A character of a text separates parts or stands in one. -/
theorem exists_part (cut : α → Bool) {t : List α} {c : α} (hc : c ∈ t) :
    cut c = true ∨ ∃ part ∈ splitOn cut t, c ∈ part := by
  induction t with
  | nil => cases hc
  | cons d t ih =>
      obtain ⟨part, parts, hparts, hsplit⟩ := splitOn_cons cut d t
      rw [hsplit]
      rw [hparts] at ih
      by_cases hd : cut d = true
      · rw [if_pos hd]
        rcases List.mem_cons.mp hc with rfl | hc
        · exact .inl hd
        · rcases ih hc with hcut | ⟨other, hother, hmem⟩
          · exact .inl hcut
          · exact .inr ⟨other, List.mem_cons_of_mem _ hother, hmem⟩
      · rw [if_neg hd]
        rcases List.mem_cons.mp hc with rfl | hc
        · exact .inr ⟨_, List.mem_cons_self, List.mem_cons_self⟩
        · rcases ih hc with hcut | ⟨other, hother, hmem⟩
          · exact .inl hcut
          · rcases List.mem_cons.mp hother with rfl | hother
            · exact .inr ⟨_, List.mem_cons_self, List.mem_cons_of_mem _ hmem⟩
            · exact .inr ⟨other, List.mem_cons_of_mem _ hother, hmem⟩

end Text

/-! ## Marks -/

namespace Script

/-- The characters that keep the parts of printed values apart. -/
def isMark (c : Char) : Bool := c == ' ' || c == '"' || c == '(' || c == ')'

/-- Text in one piece, such as a name or a chain of names: there is no mark in it. -/
def Solid (t : Text) : Prop := t ≠ [] ∧ ∀ c ∈ t, isMark c = false

/-- What may follow a whole value. -/
def Closes (t : Text) : Prop := ∀ c ∈ t.head?, c = ')'

/-- What may follow a term. -/
def Stops (t : Text) : Prop := ∀ c ∈ t.head?, c = ')' ∨ c = ' '

theorem Closes.stops {t : Text} (h : Closes t) : Stops t := fun c hc => .inl (h c hc)

theorem closes_paren (t : Text) : Closes (')' :: t) := by
  rintro c ⟨⟩
  rfl

theorem stops_space (t : Text) : Stops (' ' :: t) := by
  rintro c ⟨⟩
  exact .inr rfl

theorem Stops.isMark {t : Text} (h : Stops t) : ∀ c ∈ t.head?, isMark c = true := by
  intro c hc
  rcases h c hc with rfl | rfl
  · rfl
  · rfl

/-- Text in one piece ends where the next mark is. -/
theorem solid_append_inj {x y r s : Text} (hx : Solid x) (hy : Solid y)
    (hr : ∀ c ∈ r.head?, isMark c = true) (hs : ∀ c ∈ s.head?, isMark c = true)
    (h : x ++ r = y ++ s) : x = y ∧ r = s := by
  have htake : ∀ u rest : Text, Solid u → (∀ c ∈ rest.head?, isMark c = true) →
      (u ++ rest).takeWhile (fun c => !isMark c) = u := by
    intro u rest hu hrest
    rw [List.takeWhile_append_of_pos fun c hc => by simp [hu.2 c hc]]
    cases rest with
    | nil => exact List.append_nil u
    | cons c rest =>
        rw [List.takeWhile_cons_of_neg (by simp [hrest c rfl]), List.append_nil]
  have hsame : x = y := by rw [← htake x r hx hr, h, htake y s hy hs]
  subst hsame
  exact ⟨rfl, List.append_cancel_left h⟩

/-- Text in one piece does not begin with a mark. -/
theorem solid_append_ne {x : Text} (hx : Solid x) (r : Text) {c : Char} (hc : isMark c = true)
    (rest : Text) : x ++ r ≠ c :: rest := by
  intro h
  obtain ⟨d, u, rfl⟩ := List.exists_cons_of_ne_nil hx.1
  have hd := hx.2 d List.mem_cons_self
  rw [(List.cons.inj h).1, hc] at hd
  cases hd

/-! ## Chains of names -/

theorem isMark_of_isNamePart {c : Char} (h : isNamePart c = true) : isMark c = false := by
  have hspace : c ≠ ' ' := ne_of_class h (by decide)
  have hquote : c ≠ '"' := ne_of_class h (by decide)
  have hopen : c ≠ '(' := ne_of_class h (by decide)
  have hclose : c ≠ ')' := ne_of_class h (by decide)
  simp [isMark, hspace, hquote, hopen, hclose]

theorem solid_of_isName {name : Text} (h : isName name = true) : Solid name := by
  refine ⟨?_, fun c hc => isMark_of_isNamePart (isNamePart_of_isName h c hc)⟩
  rintro rfl
  cases h

theorem solid_of_isMemberChain {t : Text} (h : isMemberChain t = true) : Solid t := by
  have hnames := List.all_eq_true.mp h
  refine ⟨?_, fun c hc => ?_⟩
  · rintro rfl
    cases h
  · rcases Text.exists_part (· == '.') hc with hdot | ⟨part, hpart, hmem⟩
    · rw [beq_iff_eq.mp hdot]
      rfl
    · exact (solid_of_isName (hnames part hpart)).2 c hmem

/-! ## The parts of printed values -/

variable {expressions : List Text}

/-- The right side of a sum as code. -/
def operand (expressions : List Text) (v : Value) : Text :=
  if v.isSum = true then '(' :: (value expressions v ++ [')']) else value expressions v

/-- What stands behind the first term of a sum. -/
def added (expressions : List Text) (operands : List Value) : Text :=
  operands.flatMap fun v => " + ".toList ++ operand expressions v

theorem operand_sum {v : Value} (h : v.isSum = true) (r : Text) :
    operand expressions v ++ r = '(' :: (value expressions v ++ ')' :: r) := by
  rw [operand, if_pos h, List.cons_append, List.append_assoc, List.singleton_append]

theorem operand_term {v : Value} (h : v.isSum = false) :
    operand expressions v = value expressions v := by
  rw [operand, if_neg (by simp [h])]

theorem value_concat (left right : Value) :
    value expressions (.concat left right)
      = value expressions left ++ (" + ".toList ++ operand expressions right) := by
  cases right with
  | concat middle last =>
      show value expressions left ++ " + (".toList
        ++ value expressions (.concat middle last) ++ [')'] = _
      rw [List.append_assoc, List.append_assoc]
      rfl
  | str _ | expr _ | ref _ | toText _ => exact List.append_assoc _ _ _

/-- **A value is printed from its first term on.** -/
theorem value_eq_added (v : Value) :
    value expressions v = value expressions v.firstTerm ++ added expressions v.operands := by
  induction v with
  | concat left right ihleft _ =>
      rw [value_concat, ihleft, List.append_assoc, Value.firstTerm, Value.operands, added, added,
        List.flatMap_append, List.flatMap_singleton]
  | str _ | expr _ | ref _ | toText _ => exact (List.append_nil _).symm

theorem added_cons (v : Value) (operands : List Value) (r : Text) :
    added expressions (v :: operands) ++ r
      = " + ".toList ++ (operand expressions v ++ (added expressions operands ++ r)) := by
  simp only [added, List.flatMap_cons, List.append_assoc]

theorem stops_added {r : Text} (hr : Closes r) (operands : List Value) :
    Stops (added expressions operands ++ r) := by
  cases operands with
  | nil => exact hr.stops
  | cons v operands => exact stops_space _

/-- The text that stands for a value in its code, if it is an expression or a binding. -/
def word? (expressions : List Text) : Value → Option Text
  | .expr index => (expressions.map Text.trim)[index]?
  | .ref binding => some binding.name
  | _ => none

end Script

/-- The value can be printed in the context of the expressions: each index has an expression, and
each name is a text in one piece, as identifiers are, and different from the expressions. -/
def Value.Fits (expressions : List Text) : Value → Prop
  | .str _ => True
  | .expr index => index < expressions.length
  | .ref binding => Script.Solid binding.name ∧ binding.name ∉ expressions.map Text.trim
  | .toText value => value.Fits expressions
  | .concat left right => left.Fits expressions ∧ right.Fits expressions

namespace Value.Fits

variable {expressions : List Text} {v : Value}

theorem firstTerm (h : v.Fits expressions) : v.firstTerm.Fits expressions := by
  induction v with
  | concat left right ihleft _ => exact ihleft h.1
  | str _ | expr _ | ref _ | toText _ => exact h

theorem operands (h : v.Fits expressions) : ∀ w ∈ v.operands, w.Fits expressions := by
  induction v with
  | concat left right ihleft _ =>
      intro w hw
      rcases List.mem_append.mp hw with hw | hw
      · exact ihleft h.1 w hw
      · rw [List.mem_singleton.mp hw]
        exact h.2
  | str _ | expr _ | ref _ | toText _ => exact fun w hw => absurd hw List.not_mem_nil

end Value.Fits

namespace Script

/-- The trimmed expressions are chains of names, no two of them the same. -/
structure Chains (expressions : List Text) : Prop where
  chain : ∀ text ∈ expressions, isMemberChain text.trim = true
  distinct : (expressions.map Text.trim).Nodup

variable {expressions : List Text}

/-- The kinds of terms: strings, conversions, and expressions and bindings. -/
theorem term_cases {v : Value} (hfits : v.Fits expressions) (hterm : v.isSum = false) :
    (∃ text, v = .str text) ∨ (∃ inner, v = .toText inner) ∨ ∃ x, word? expressions v = some x := by
  cases v with
  | str text => exact .inl ⟨text, rfl⟩
  | toText inner => exact .inr (.inl ⟨inner, rfl⟩)
  | expr index =>
      have hindex : index < (expressions.map Text.trim).length := by
        rw [List.length_map]
        exact hfits
      exact .inr (.inr ⟨_, List.getElem?_eq_getElem hindex⟩)
  | ref binding => exact .inr (.inr ⟨_, rfl⟩)
  | concat left right => cases hterm

section

variable (hchains : Chains expressions)

include hchains

/-- An expression or a binding is printed as a text in one piece. -/
theorem word_spec {v : Value} {x : Text} (hfits : v.Fits expressions)
    (hx : word? expressions v = some x) : Solid x ∧ value expressions v = x := by
  cases v with
  | expr index =>
      rw [word?, List.getElem?_map] at hx
      obtain ⟨text, htext, rfl⟩ := Option.map_eq_some_iff.mp hx
      have hchain := hchains.chain text (List.mem_of_getElem? htext)
      refine ⟨solid_of_isMemberChain hchain, ?_⟩
      show expression expressions index = _
      rw [expression, htext]
      exact if_pos hchain
  | ref binding =>
      cases hx
      exact ⟨hfits.1, rfl⟩
  | str _ | toText _ | concat _ _ => cases hx

/-- Different expressions and bindings are printed differently. -/
theorem eq_of_word {v w : Value} {x : Text} (hv : v.Fits expressions) (hw : w.Fits expressions)
    (hvx : word? expressions v = some x) (hwx : word? expressions w = some x) : v = w := by
  have hmem : ∀ index, word? expressions (.expr index) = some x →
      x ∈ expressions.map Text.trim := fun index h => List.mem_of_getElem? h
  cases v with
  | expr i =>
      cases w with
      | expr k =>
          have hi : i < (expressions.map Text.trim).length := by
            rw [List.length_map]
            exact hv
          rw [(List.getElem?_inj hi hchains.distinct).mp (hvx.trans hwx.symm)]
      | ref b =>
          cases hwx
          exact absurd (hmem i hvx) hw.2
      | str _ | toText _ | concat _ _ => cases hwx
  | ref b =>
      cases hvx
      cases w with
      | expr k => exact absurd (hmem k hwx) hv.2
      | ref b' =>
          obtain ⟨name⟩ := b
          exact congrArg (fun name => Value.ref ⟨name⟩) (Option.some.inj hwx).symm
      | str _ | toText _ | concat _ _ => cases hwx
  | str _ | toText _ | concat _ _ => cases hvx

end

/-! ## Reading values off their code -/

/-- The value can be told, among the values that fit and satisfy `kind`, from what is printed for it
and anything that may follow. -/
def Recovers (expressions : List Text) (print : Value → Text) (kind : Value → Prop)
    (follow : Text → Prop) (v : Value) : Prop :=
  ∀ w r s, w.Fits expressions → kind w → follow r → follow s → print v ++ r = print w ++ s →
    v = w ∧ r = s

/-- A whole value can be read off. -/
def ReadableValue (expressions : List Text) : Value → Prop :=
  Recovers expressions (value expressions) (fun _ => True) Closes

/-- A term can be read off. -/
def ReadableTerm (expressions : List Text) : Value → Prop :=
  Recovers expressions (value expressions) (fun w => w.isSum = false) Stops

/-- The right side of a sum can be read off. -/
def ReadableOperand (expressions : List Text) : Value → Prop :=
  Recovers expressions (operand expressions) (fun _ => True) Stops

theorem value_toText (inner : Value) (r : Text) :
    value expressions (.toText inner) ++ r
      = "String".toList ++ '(' :: (value expressions inner ++ ')' :: r) := by
  show "String(".toList ++ value expressions inner ++ [')'] ++ r = _
  rw [List.append_assoc, List.append_assoc]
  rfl

theorem solid_string : Solid "String".toList := solid_of_isName (by decide)

/-- A name or chain that reads `String` is not followed by a parenthesis. -/
theorem solid_ne_conversion {x r : Text} (hx : Solid x) (hr : Stops r) (rest : Text) :
    x ++ r ≠ "String".toList ++ '(' :: rest := by
  intro h
  have hparen : ∀ c ∈ ('(' :: rest).head?, isMark c = true := by
    rintro c ⟨⟩
    rfl
  obtain ⟨-, rfl⟩ := solid_append_inj hx solid_string hr.isMark hparen h
  rcases hr '(' rfl with hclose | hspace
  · cases hclose
  · cases hspace

section

variable (hchains : Chains expressions)

include hchains

/-- A term never begins with a parenthesis. -/
theorem term_ne_paren {v : Value} (hfits : v.Fits expressions) (hterm : v.isSum = false)
    (r rest : Text) : value expressions v ++ r ≠ '(' :: rest := by
  rcases term_cases hfits hterm with ⟨text, rfl⟩ | ⟨inner, rfl⟩ | ⟨x, hx⟩
  · intro h
    cases (List.cons.inj h).1
  · rw [value_toText]
    exact solid_append_ne solid_string _ rfl rest
  · obtain ⟨hsolid, hvalue⟩ := word_spec hchains hfits hx
    rw [hvalue]
    exact solid_append_ne hsolid r rfl rest

/-- Strings are told from other terms by their first character. -/
theorem readableTerm_str (text : Text) : ReadableTerm expressions (.str text) := by
  intro w r s hw hterm _ _ h
  have hquote : value expressions w ++ s = '"' :: (text.flatMap escapeLiteral ++ ['"'] ++ r) :=
    h.symm
  rcases term_cases hw hterm with ⟨other, rfl⟩ | ⟨inner, rfl⟩ | ⟨x, hx⟩
  · obtain ⟨rfl, hrest⟩ := stringLiteral_append_inj h
    exact ⟨rfl, hrest⟩
  · rw [value_toText] at hquote
    exact absurd hquote (solid_append_ne solid_string _ rfl _)
  · obtain ⟨hsolid, hvalue⟩ := word_spec hchains hw hx
    rw [hvalue] at hquote
    exact absurd hquote (solid_append_ne hsolid _ rfl _)

/-- An expression or a binding is told from a conversion by what follows it. -/
theorem readableTerm_word {v : Value} {x : Text} (hv : v.Fits expressions)
    (hx : word? expressions v = some x) : ReadableTerm expressions v := by
  intro w r s hw hterm hr hs h
  obtain ⟨hsolid, hvalue⟩ := word_spec hchains hv hx
  rw [hvalue] at h
  rcases term_cases hw hterm with ⟨text, rfl⟩ | ⟨inner, rfl⟩ | ⟨y, hy⟩
  · exact absurd h (solid_append_ne hsolid r rfl _)
  · rw [value_toText] at h
    exact absurd h (solid_ne_conversion hsolid hr _)
  · obtain ⟨hsolid', hvalue'⟩ := word_spec hchains hw hy
    rw [hvalue'] at h
    obtain ⟨rfl, hrest⟩ := solid_append_inj hsolid hsolid' hr.isMark hs.isMark h
    exact ⟨eq_of_word hchains hv hw hx hy, hrest⟩

theorem readableTerm_toText {inner : Value} (hinner : ReadableValue expressions inner) :
    ReadableTerm expressions (.toText inner) := by
  intro w r s hw hterm _ hs h
  rw [value_toText] at h
  rcases term_cases hw hterm with ⟨text, rfl⟩ | ⟨other, rfl⟩ | ⟨x, hx⟩
  · exact absurd h (solid_append_ne solid_string _ rfl _)
  · rw [value_toText] at h
    have hbody := (List.cons.inj (List.append_cancel_left h)).2
    obtain ⟨rfl, hrest⟩ := hinner other _ _ hw trivial (closes_paren r) (closes_paren s) hbody
    exact ⟨rfl, (List.cons.inj hrest).2⟩
  · obtain ⟨hsolid, hvalue⟩ := word_spec hchains hw hx
    rw [hvalue] at h
    exact absurd h.symm (solid_ne_conversion hsolid hs _)

/-- A sum on the right side is told from a term by its parenthesis. -/
theorem readableOperand_of_isSum {v : Value} (hsum : v.isSum = true)
    (hv : ReadableValue expressions v) : ReadableOperand expressions v := by
  intro w r s hw _ _ _ h
  rw [operand_sum hsum] at h
  cases hwsum : w.isSum with
  | true =>
      rw [operand_sum hwsum] at h
      obtain ⟨rfl, hrest⟩ :=
        hv w _ _ hw trivial (closes_paren r) (closes_paren s) (List.cons.inj h).2
      exact ⟨rfl, (List.cons.inj hrest).2⟩
  | false =>
      rw [operand_term hwsum] at h
      exact absurd h.symm (term_ne_paren hchains hw hwsum s _)

theorem readableOperand_of_term {v : Value} (hfits : v.Fits expressions)
    (hterm : v.isSum = false) (hv : ReadableTerm expressions v) :
    ReadableOperand expressions v := by
  intro w r s hw _ hr hs h
  rw [operand_term hterm] at h
  cases hwsum : w.isSum with
  | true =>
      rw [operand_sum hwsum] at h
      exact absurd h (term_ne_paren hchains hfits hterm r _)
  | false =>
      rw [operand_term hwsum] at h
      exact hv w r s hw hwsum hr hs h

end

/-- The operands of a sum can be read off one after the other. -/
theorem operands_of_added {vs ws : List Value} {r s : Text}
    (hvs : ∀ v ∈ vs, ReadableOperand expressions v) (hws : ∀ w ∈ ws, w.Fits expressions)
    (hr : Closes r) (hs : Closes s) (h : added expressions vs ++ r = added expressions ws ++ s) :
    vs = ws ∧ r = s := by
  induction vs generalizing ws with
  | nil =>
      cases ws with
      | nil => exact ⟨rfl, h⟩
      | cons w ws =>
          -- what closes a value does not begin with a space
          have hspace : r = ' ' :: _ := h
          rw [hspace] at hr
          cases hr ' ' rfl
  | cons v vs ih =>
      cases ws with
      | nil =>
          have hspace : s = ' ' :: _ := h.symm
          rw [hspace] at hs
          cases hs ' ' rfl
      | cons w ws =>
          rw [added_cons, added_cons] at h
          obtain ⟨rfl, hrest⟩ := hvs v List.mem_cons_self w _ _ (hws w List.mem_cons_self) trivial
            (stops_added hr vs) (stops_added hs ws) (List.append_cancel_left h)
          obtain ⟨rfl, hend⟩ := ih (fun u hu => hvs u (List.mem_cons_of_mem _ hu))
            (fun u hu => hws u (List.mem_cons_of_mem _ hu)) hrest
          exact ⟨rfl, hend⟩

/-- A value can be read off if its first term and its operands can. -/
theorem readableValue_of_parts {v : Value} (hfirst : ReadableTerm expressions v.firstTerm)
    (hoperands : ∀ w ∈ v.operands, ReadableOperand expressions w) :
    ReadableValue expressions v := by
  intro w r s hw _ hr hs h
  rw [value_eq_added v, value_eq_added w, List.append_assoc, List.append_assoc] at h
  obtain ⟨hterm, hrest⟩ := hfirst w.firstTerm _ _ hw.firstTerm w.isSum_firstTerm
    (stops_added hr _) (stops_added hs _) h
  obtain ⟨hsame, hend⟩ := operands_of_added hoperands hw.operands hr hs hrest
  refine ⟨?_, hend⟩
  calc v = v.operands.foldl .concat v.firstTerm := v.foldl_operands.symm
    _ = w.operands.foldl .concat w.firstTerm := by rw [hterm, hsame]
    _ = w := w.foldl_operands

/-- The parts of every value that fits can be read off. -/
theorem readable_parts (hchains : Chains expressions) {v : Value} (hfits : v.Fits expressions) :
    ReadableTerm expressions v.firstTerm ∧ ∀ w ∈ v.operands, ReadableOperand expressions w := by
  have hnone : ∀ w ∈ ([] : List Value), ReadableOperand expressions w :=
    fun _ hw => absurd hw List.not_mem_nil
  induction v with
  | str text => exact ⟨readableTerm_str hchains text, hnone⟩
  | expr index =>
      rcases term_cases hfits rfl with ⟨_, h⟩ | ⟨_, h⟩ | ⟨x, hx⟩
      · cases h
      · cases h
      · exact ⟨readableTerm_word hchains hfits hx, hnone⟩
  | ref binding => exact ⟨readableTerm_word hchains hfits rfl, hnone⟩
  | toText inner ih =>
      obtain ⟨hfirst, hoperands⟩ := ih hfits
      exact ⟨readableTerm_toText hchains (readableValue_of_parts hfirst hoperands), hnone⟩
  | concat left right ihleft ihright =>
      obtain ⟨hfirst, hoperands⟩ := ihleft hfits.1
      obtain ⟨hright, hothers⟩ := ihright hfits.2
      refine ⟨hfirst, fun w hw => ?_⟩
      rcases List.mem_append.mp hw with hw | hw
      · exact hoperands w hw
      · rw [List.mem_singleton.mp hw]
        cases hsum : right.isSum with
        | true =>
            exact readableOperand_of_isSum hchains hsum (readableValue_of_parts hright hothers)
        | false =>
            rw [Value.firstTerm_of_not_isSum hsum] at hright
            exact readableOperand_of_term hchains hfits.2 hsum hright

/-- **Printed values are unambiguous.** If the expressions are chains of names up to blanks at their
ends, and all different, then no two values are printed alike, provided that their expressions
exist and their bindings have names that are texts in one piece and no expressions. So it shows in
the code what is converted to text, and how sums are nested. -/
theorem value_injective {expressions : List Text}
    (hchain : ∀ text ∈ expressions, isMemberChain text.trim = true)
    (hdistinct : (expressions.map Text.trim).Nodup) {v w : Value} (hv : v.Fits expressions)
    (hw : w.Fits expressions) (h : value expressions v = value expressions w) : v = w := by
  obtain ⟨hfirst, hoperands⟩ := readable_parts ⟨hchain, hdistinct⟩ hv
  have hends : Closes [] := fun c hc => by cases hc
  refine (readableValue_of_parts hfirst hoperands w [] [] hw trivial hends hends ?_).1
  rw [h]

/-- Two sums of the same three terms, one of which is a string that looks like code. -/
theorem value_injective_nested :
    let expressions : List Text := [" a.b ".toList, "String".toList]
    let string : Value := .str "\" + (".toList
    let text : Value := .toText (.concat (.expr 1) (.ref ⟨"_p".toList⟩))
    let left : Value := .concat (.concat (.expr 0) string) text
    let right : Value := .concat (.expr 0) (.concat string text)
    (∀ text ∈ expressions, isMemberChain text.trim = true) ∧ (expressions.map Text.trim).Nodup ∧
    left.Fits expressions ∧ right.Fits expressions ∧
    value expressions left ≠ value expressions right := by
  intro expressions string text left right
  have hchain : ∀ text ∈ expressions, isMemberChain text.trim = true := by decide
  have hdistinct : (expressions.map Text.trim).Nodup := by decide
  have hfirst : Value.Fits expressions (.expr 0) := Nat.zero_lt_two
  have hsecond : Value.Fits expressions (.expr 1) := Nat.one_lt_two
  have hname : Value.Fits expressions (.ref ⟨"_p".toList⟩) :=
    ⟨solid_of_isName (by decide), by decide⟩
  have hleft : left.Fits expressions := ⟨⟨hfirst, trivial⟩, hsecond, hname⟩
  have hright : right.Fits expressions := ⟨hfirst, trivial, hsecond, hname⟩
  refine ⟨hchain, hdistinct, hleft, hright, fun h => ?_⟩
  exact absurd (value_injective hchain hdistinct hleft hright h) (by decide)

end Script
end Hypertext

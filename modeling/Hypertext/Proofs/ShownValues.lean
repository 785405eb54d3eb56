import Hypertext.Proofs.GeneratedNames
import Hypertext.Proofs.QuotedText
import Hypertext.Proofs.UnambiguousValues

set_option autoImplicit false

/-! # Values can be read off what is shown

A value is shown as in code, but without parentheses, so the order in which sums are put together is
lost (`Value.Reassociated`). This file proves that nothing else is (`Value.display_append_inj`).

A sum is shown as its terms with plus signs between them (`Value.terms`). That is a row with a
separator, and such a row can be read off if its members can, each with anything behind it that may
follow there (`Text.joinWith_append_inj`). Names and numbers end at the first character that cannot
be part of them, quoted text at its closing quote, and a conversion at its parenthesis.
-/

namespace Hypertext

/-! ## Equality up to re-association -/

/-- The values differ at most in the order in which sums are put together. -/
inductive Value.Reassociated : Value → Value → Prop
  | refl (v : Value) : Reassociated v v
  | symm {v w : Value} : Reassociated v w → Reassociated w v
  | trans {u v w : Value} : Reassociated u v → Reassociated v w → Reassociated u w
  | assoc (u v w : Value) : Reassociated (.concat (.concat u v) w) (.concat u (.concat v w))
  | toText {v w : Value} : Reassociated v w → Reassociated (.toText v) (.toText w)
  | concat {u v u' v' : Value} :
    Reassociated u u' → Reassociated v v' → Reassociated (.concat u v) (.concat u' v')

/-! ## Names -/

/-- The bindings in a value. -/
def Value.bindings : Value → List Binding
  | .str _ => []
  | .expr _ => []
  | .ref binding => [binding]
  | .toText value => value.bindings
  | .concat left right => left.bindings ++ right.bindings

/-- All names in a value are generated ones. -/
def Value.WellNamed (value : Value) : Prop := ∀ b ∈ value.bindings, IsGeneratedName b.name

/-- What ends a name or a number: a character that cannot be part of one, or the end of the text. -/
def StemEnds (t : Text) : Prop := ∀ c ∈ t.head?, isStemChar c = false

theorem StemEnds.cons {c : Char} (hc : isStemChar c = false) (t : Text) : StemEnds (c :: t) := by
  rintro d ⟨⟩
  exact hc

theorem isStemChar_of_isGeneratedName {name : Text} (h : IsGeneratedName name) :
    ∀ c ∈ name, isStemChar c = true := by
  obtain ⟨first, rest, rfl, hfirst, hrest⟩ := h
  intro c hc
  rcases List.mem_cons.mp hc with rfl | hc
  · decide
  · rcases List.mem_cons.mp hc with rfl | hc
    · rcases hfirst with halpha | rfl
      · simp [isStemChar, Char.isAlphanum, halpha]
      · decide
    · rcases hrest c hc with halphanum | rfl | rfl
      · simp [isStemChar, halphanum]
      · decide
      · decide

theorem oneLine_name {name : Text} (h : IsGeneratedName name) : Text.OneLine name :=
  Text.oneLine_of_class (by decide) (isStemChar_of_isGeneratedName h)

theorem isStemChar_ofNat (n : Nat) : ∀ c ∈ Text.ofNat n, isStemChar c = true := by
  intro c hc
  have hdigit : c.isDigit = true := Nat.isDigit_of_mem_toDigits (by decide) (by decide) hc
  simp [isStemChar, Char.isAlphanum, hdigit]

theorem oneLine_ofNat (n : Nat) : Text.OneLine (Text.ofNat n) :=
  Text.oneLine_of_class (by decide) (isStemChar_ofNat n)

/-! ## Rows with a separator -/

namespace Text

/-- What may follow a member of a row: the separator, or what may follow the row. -/
def Follows (separator : Text) (ends : Text → Prop) (t : Text) : Prop :=
  ends t ∨ ∃ rest, t = separator ++ rest

theorem joinWith_cons (separator t u : Text) (ts : List Text) :
    joinWith separator (t :: u :: ts) = t ++ (separator ++ joinWith separator (u :: ts)) := by
  rw [joinWith, List.append_assoc]
  intro h
  cases h

theorem exists_joinWith_eq (separator t : Text) (ts : List Text) :
    ∃ rest, joinWith separator (t :: ts) = t ++ rest := by
  cases ts with
  | nil => exact ⟨[], (List.append_nil t).symm⟩
  | cons u ts => exact ⟨_, joinWith_cons separator t u ts⟩

theorem joinWith_append {separator : Text} {ts us : List Text} (hts : ts ≠ []) (hus : us ≠ []) :
    joinWith separator (ts ++ us)
      = joinWith separator ts ++ (separator ++ joinWith separator us) := by
  induction ts with
  | nil => exact absurd rfl hts
  | cons t ts ih =>
      cases ts with
      | nil =>
          obtain ⟨u, us, rfl⟩ := List.exists_cons_of_ne_nil hus
          exact joinWith_cons separator t u us
      | cons t' ts =>
          rw [List.cons_append, List.cons_append, joinWith_cons, joinWith_cons,
            ← List.cons_append, ih (List.cons_ne_nil _ _)]
          simp only [List.append_assoc]

/-- **Rows can be read off** if their members can. What may follow a row does not begin with the
separator. -/
theorem joinWith_append_inj {α : Type} {print : α → Text} {same : α → α → Prop} {separator : Text}
    {ends : Text → Prop} (hends : ∀ t rest, ends t → t ≠ separator ++ rest) {x y : α}
    {xs ys : List α}
    (hread : ∀ a ∈ x :: xs, ∀ b ∈ y :: ys, ∀ r s, Follows separator ends r →
      Follows separator ends s → print a ++ r = print b ++ s → same a b ∧ r = s)
    {r s : Text} (hr : ends r) (hs : ends s)
    (h : joinWith separator ((x :: xs).map print) ++ r
      = joinWith separator ((y :: ys).map print) ++ s) :
    List.Forall₂ same (x :: xs) (y :: ys) ∧ r = s := by
  induction xs generalizing x y ys with
  | nil =>
      cases ys with
      | nil =>
          obtain ⟨hsame, hrest⟩ := hread x List.mem_cons_self y List.mem_cons_self r s (.inl hr)
            (.inl hs) h
          exact ⟨.cons hsame .nil, hrest⟩
      | cons y' ys =>
          simp only [List.map_cons, List.map_nil, joinWith_cons, List.append_assoc] at h
          -- the second row goes on where the first one ends
          obtain ⟨-, hrest⟩ := hread x List.mem_cons_self y List.mem_cons_self r _ (.inl hr)
            (.inr ⟨_, rfl⟩) h
          exact absurd hrest (hends r _ hr)
  | cons x' xs ih =>
      cases ys with
      | nil =>
          simp only [List.map_cons, List.map_nil, joinWith_cons, List.append_assoc] at h
          obtain ⟨-, hrest⟩ := hread x List.mem_cons_self y List.mem_cons_self _ s
            (.inr ⟨_, rfl⟩) (.inl hs) h
          exact absurd hrest.symm (hends s _ hs)
      | cons y' ys =>
          simp only [List.map_cons, joinWith_cons, List.append_assoc] at h
          obtain ⟨hsame, hrest⟩ := hread x List.mem_cons_self y List.mem_cons_self _ _
            (.inr ⟨_, rfl⟩) (.inr ⟨_, rfl⟩) h
          obtain ⟨hothers, hend⟩ := ih
            (fun a ha b hb => hread a (List.mem_cons_of_mem _ ha) b (List.mem_cons_of_mem _ hb))
            (List.append_cancel_left hrest)
          exact ⟨.cons hsame hothers, hend⟩

theorem oneLine_joinWith {separator : Text} (hseparator : OneLine separator) {ts : List Text}
    (hts : ∀ t ∈ ts, OneLine t) : OneLine (joinWith separator ts) := by
  induction ts with
  | nil => exact fun _ hc => absurd hc List.not_mem_nil
  | cons t ts ih =>
      have ht := hts t List.mem_cons_self
      have hothers := ih fun u hu => hts u (List.mem_cons_of_mem _ hu)
      cases ts with
      | nil => exact ht
      | cons u ts =>
          rw [joinWith_cons]
          exact ht.append (hseparator.append hothers)

end Text

/-! ## Terms -/

namespace Value

/-- The terms of a sum, from left to right. -/
def terms : Value → List Value
  | .concat left right => left.terms ++ right.terms
  | value => [value]

/-- The sum of a term and others behind it, put together from the right. -/
def ofTerms : Value → List Value → Value
  | first, [] => first
  | first, next :: others => .concat first (ofTerms next others)

theorem terms_ne_nil (v : Value) : v.terms ≠ [] := by
  induction v with
  | concat left right ihleft _ => exact fun h => ihleft (List.append_eq_nil_iff.mp h).1
  | str _ | expr _ | ref _ | toText _ => exact List.cons_ne_nil _ _

theorem isSum_of_mem_terms {v t : Value} (ht : t ∈ v.terms) : t.isSum = false := by
  induction v with
  | concat left right ihleft ihright =>
      rcases List.mem_append.mp ht with ht | ht
      · exact ihleft ht
      · exact ihright ht
  | str _ | expr _ | ref _ | toText _ =>
      rw [List.mem_singleton.mp ht]
      rfl

theorem WellNamed.of_mem_terms {v t : Value} (h : v.WellNamed) (ht : t ∈ v.terms) :
    t.WellNamed := by
  induction v with
  | concat left right ihleft ihright =>
      rcases List.mem_append.mp ht with ht | ht
      · exact ihleft (fun b hb => h b (List.mem_append_left _ hb)) ht
      · exact ihright (fun b hb => h b (List.mem_append_right _ hb)) ht
  | str _ | expr _ | ref _ | toText _ =>
      rw [List.mem_singleton.mp ht]
      exact h

theorem display_concat (left right : Value) :
    (Value.concat left right).display = left.display ++ (" + ".toList ++ right.display) :=
  List.append_assoc _ _ _

theorem display_toText (v : Value) (r : Text) :
    (Value.toText v).display ++ r = "toText(".toList ++ (v.display ++ ')' :: r) := by
  show "toText(".toList ++ v.display ++ [')'] ++ r = _
  rw [List.append_assoc, List.append_assoc]
  rfl

theorem display_expr (i : Nat) (r : Text) :
    (Value.expr i).display ++ r = "$\x7b".toList ++ (Text.ofNat i ++ '\x7d' :: r) := by
  show "$\x7b".toList ++ Text.ofNat i ++ ['\x7d'] ++ r = _
  rw [List.append_assoc, List.append_assoc]
  rfl

/-- A value is shown as its terms with plus signs between them. -/
theorem display_eq_terms (v : Value) :
    v.display = Text.joinWith " + ".toList (v.terms.map display) := by
  induction v with
  | concat left right ihleft ihright =>
      rw [terms, List.map_append, Text.joinWith_append (by simp [terms_ne_nil])
        (by simp [terms_ne_nil]), ← ihleft, ← ihright, display_concat]
  | str _ | expr _ | ref _ | toText _ => rfl

namespace Reassociated

theorem ofTerms_append (u w : Value) (us ws : List Value) :
    Reassociated (.concat (ofTerms u us) (ofTerms w ws)) (ofTerms u (us ++ w :: ws)) := by
  induction us generalizing u with
  | nil => exact .refl _
  | cons u' us ih => exact .trans (.assoc _ _ _) (.concat (.refl u) (ih u'))

/-- A value is the sum of its terms. -/
theorem to_ofTerms (v : Value) :
    ∃ first others, v.terms = first :: others ∧ v.Reassociated (ofTerms first others) := by
  induction v with
  | concat left right ihleft ihright =>
      obtain ⟨u, us, hus, hleft⟩ := ihleft
      obtain ⟨w, ws, hws, hright⟩ := ihright
      refine ⟨u, us ++ w :: ws, ?_, .trans (.concat hleft hright) (ofTerms_append u w us ws)⟩
      rw [terms, hus, hws, List.cons_append]
  | str _ | expr _ | ref _ | toText _ => exact ⟨_, [], rfl, .refl _⟩

theorem ofTerms_congr {u w : Value} {us ws : List Value} (h : u.Reassociated w)
    (hs : List.Forall₂ Value.Reassociated us ws) :
    Reassociated (ofTerms u us) (ofTerms w ws) := by
  induction hs generalizing u w with
  | nil => exact h
  | cons hnext _ ih => exact .concat h (ih hnext)

/-- Sums of the same terms are the same up to re-association. -/
theorem of_terms {v w : Value} (h : List.Forall₂ Value.Reassociated v.terms w.terms) :
    v.Reassociated w := by
  obtain ⟨u, us, hv, hsumv⟩ := to_ofTerms v
  obtain ⟨x, xs, hw, hsumw⟩ := to_ofTerms w
  rw [hv, hw] at h
  cases h with
  | cons hfirst hothers => exact .trans hsumv (.trans (ofTerms_congr hfirst hothers) hsumw.symm)

theorem display_eq {v w : Value} (h : v.Reassociated w) : v.display = w.display := by
  induction h with
  | refl => rfl
  | symm _ ih => exact ih.symm
  | trans _ _ ih ih' => exact ih.trans ih'
  | assoc u v w => simp only [display_concat, List.append_assoc]
  | @toText v w _ ih =>
      have hshown := display_toText v []
      rw [ih, ← display_toText w [], List.append_nil, List.append_nil] at hshown
      exact hshown
  | concat _ _ ih ih' => rw [display_concat, display_concat, ih, ih']

end Reassociated
end Value

/-! ## Reading values off what is shown -/

namespace Value

/-- What may follow a whole value. -/
def Ends (t : Text) : Prop := ∀ c ∈ t.head?, c = ',' ∨ c = ')' ∨ c = ']'

/-- What may follow a term. -/
def TermEnds : Text → Prop := Text.Follows " + ".toList Ends

theorem ends_nil : Ends [] := by
  rintro c ⟨⟩

theorem ends_comma (t : Text) : Ends (", ".toList ++ t) := by
  rintro c ⟨⟩
  exact .inl rfl

theorem ends_paren (t : Text) : Ends (')' :: t) := by
  rintro c ⟨⟩
  exact .inr (.inl rfl)

theorem ends_bracket (t : Text) : Ends (']' :: t) := by
  rintro c ⟨⟩
  exact .inr (.inr rfl)

theorem Ends.ne_plus {t : Text} (h : Ends t) (rest : Text) : t ≠ " + ".toList ++ rest := by
  rintro rfl
  rcases h ' ' rfl with hc | hc | hc <;> cases hc

theorem TermEnds.stemEnds {t : Text} (h : TermEnds t) : StemEnds t := by
  rcases h with h | ⟨rest, rfl⟩
  · intro c hc
    rcases h c hc with rfl | rfl | rfl <;> decide
  · exact .cons (by decide) _

/-- The character that a value begins with when it is shown. -/
def lead : Value → Char
  | .str _ => '"'
  | .expr _ => '$'
  | .ref _ => '_'
  | .toText _ => 't'
  | .concat left _ => left.lead

theorem display_eq_lead {v : Value} (h : v.WellNamed) : ∃ t, v.display = v.lead :: t := by
  induction v with
  | concat left right ihleft _ =>
      obtain ⟨t, ht⟩ := ihleft fun b hb => h b (List.mem_append_left _ hb)
      exact ⟨_, by rw [display_concat, ht, List.cons_append]; rfl⟩
  | ref b =>
      obtain ⟨c, rest, hname, -⟩ := h b List.mem_cons_self
      exact ⟨c :: rest, hname⟩
  | str _ | expr _ | toText _ => exact ⟨_, rfl⟩

theorem lead_eq {v w : Value} {r s : Text} (hv : v.WellNamed) (hw : w.WellNamed)
    (h : v.display ++ r = w.display ++ s) : v.lead = w.lead := by
  obtain ⟨t, ht⟩ := display_eq_lead hv
  obtain ⟨u, hu⟩ := display_eq_lead hw
  rw [ht, hu] at h
  exact (List.cons.inj h).1

theorem lead_mem (v : Value) : v.lead ∈ ['"', '$', '_', 't'] := by
  induction v with
  | concat left right ihleft _ => exact ihleft
  | str _ | expr _ | ref _ | toText _ => simp [lead]

/-- No value begins with another character. -/
theorem display_append_ne {v : Value} (h : v.WellNamed) {c : Char}
    (hc : c ∉ ['"', '$', '_', 't']) (r rest : Text) : v.display ++ r ≠ c :: rest := by
  intro heq
  obtain ⟨t, ht⟩ := display_eq_lead h
  rw [ht] at heq
  rw [← (List.cons.inj heq).1] at hc
  exact hc v.lead_mem

/-- The value can be told, among those of its kind, from what is shown for it and anything that may
follow. -/
def Recovers (kind : Value → Prop) (follow : Text → Prop) (v : Value) : Prop :=
  ∀ w r s, w.WellNamed → kind w → follow r → follow s → v.display ++ r = w.display ++ s →
    v.Reassociated w ∧ r = s

/-- A term can be read off. -/
def ReadableTerm : Value → Prop := Recovers (fun w => w.isSum = false) TermEnds

/-- A whole value can be read off. -/
def Readable : Value → Prop := Recovers (fun _ => True) Ends

theorem readable_of_terms {v : Value} (h : ∀ t ∈ v.terms, ReadableTerm t) : Readable v := by
  intro w r s hw _ hr hs heq
  obtain ⟨t, ts, hts⟩ := List.exists_cons_of_ne_nil v.terms_ne_nil
  obtain ⟨u, us, hus⟩ := List.exists_cons_of_ne_nil w.terms_ne_nil
  have hread : ∀ a ∈ t :: ts, ∀ b ∈ u :: us, ∀ r s, TermEnds r → TermEnds s →
      a.display ++ r = b.display ++ s → a.Reassociated b ∧ r = s := by
    rw [← hts, ← hus]
    exact fun a ha b hb r s hr hs => h a ha b r s (hw.of_mem_terms hb) (isSum_of_mem_terms hb) hr hs
  rw [display_eq_terms v, display_eq_terms w, hts, hus] at heq
  obtain ⟨hterms, hrest⟩ :=
    Text.joinWith_append_inj (fun t rest ht => ht.ne_plus rest) hread hr hs heq
  rw [← hts, ← hus] at hterms
  exact ⟨.of_terms hterms, hrest⟩

/-! Which kind of term it is shows in the first character. -/

theorem readableTerm_str (text : Text) : ReadableTerm (.str text) := by
  intro w r s hw hterm _ _ heq
  have hlead := lead_eq (v := .str text) (fun _ hb => absurd hb List.not_mem_nil) hw heq
  cases w with
  | str other =>
      obtain ⟨rfl, hrest⟩ := Text.quoted_append_inj heq
      exact ⟨.refl _, hrest⟩
  | expr _ | ref _ | toText _ => simp [lead] at hlead
  | concat _ _ => cases hterm

theorem readableTerm_expr (i : Nat) : ReadableTerm (.expr i) := by
  intro w r s hw hterm _ _ heq
  have hlead := lead_eq (v := .expr i) (fun _ hb => absurd hb List.not_mem_nil) hw heq
  cases w with
  | expr k =>
      rw [display_expr, display_expr] at heq
      obtain ⟨hindex, hrest⟩ := Script.span_unique (isStemChar_ofNat i) (isStemChar_ofNat k)
        (StemEnds.cons (by decide) r) (StemEnds.cons (by decide) s) (List.append_cancel_left heq)
      rw [Text.ofNat_injective hindex]
      exact ⟨.refl _, (List.cons.inj hrest).2⟩
  | str _ | ref _ | toText _ => simp [lead] at hlead
  | concat _ _ => cases hterm

theorem readableTerm_ref {b : Binding} (hb : IsGeneratedName b.name) : ReadableTerm (.ref b) := by
  intro w r s hw hterm hr hs heq
  have hnamed : (Value.ref b).WellNamed := by
    intro b' hb'
    rwa [List.mem_singleton.mp hb']
  have hlead := lead_eq hnamed hw heq
  cases w with
  | ref b' =>
      obtain ⟨hname, hrest⟩ := Script.span_unique (isStemChar_of_isGeneratedName hb)
        (isStemChar_of_isGeneratedName (hw b' List.mem_cons_self)) hr.stemEnds hs.stemEnds heq
      obtain ⟨name⟩ := b
      obtain ⟨name'⟩ := b'
      obtain rfl : name = name' := hname
      exact ⟨.refl _, hrest⟩
  | str _ | expr _ | toText _ => simp [lead] at hlead
  | concat _ _ => cases hterm

theorem readableTerm_toText {inner : Value} (h : inner.WellNamed) (hinner : Readable inner) :
    ReadableTerm (.toText inner) := by
  intro w r s hw hterm _ _ heq
  have hlead := lead_eq (v := .toText inner) h hw heq
  cases w with
  | toText other =>
      rw [display_toText, display_toText] at heq
      obtain ⟨hsame, hrest⟩ := hinner other _ _ hw trivial (ends_paren r) (ends_paren s)
        (List.append_cancel_left heq)
      exact ⟨.toText hsame, (List.cons.inj hrest).2⟩
  | str _ | expr _ | ref _ => simp [lead] at hlead
  | concat _ _ => cases hterm

theorem readableTerm_of_mem_terms {v : Value} (h : v.WellNamed) :
    ∀ t ∈ v.terms, ReadableTerm t := by
  -- by induction on the whole value, since a conversion is a term that holds a value
  induction v with
  | concat left right ihleft ihright =>
      intro t ht
      rcases List.mem_append.mp ht with ht | ht
      · exact ihleft (fun b hb => h b (List.mem_append_left _ hb)) t ht
      · exact ihright (fun b hb => h b (List.mem_append_right _ hb)) t ht
  | str text =>
      intro t ht
      rw [List.mem_singleton.mp ht]
      exact readableTerm_str text
  | expr i =>
      intro t ht
      rw [List.mem_singleton.mp ht]
      exact readableTerm_expr i
  | ref b =>
      intro t ht
      rw [List.mem_singleton.mp ht]
      exact readableTerm_ref (h b List.mem_cons_self)
  | toText inner ih =>
      intro t ht
      rw [List.mem_singleton.mp ht]
      exact readableTerm_toText h (readable_of_terms (ih h))

/-- **Values can be read off** up to re-association. -/
theorem display_append_inj {v w : Value} (hv : v.WellNamed) (hw : w.WellNamed) {r s : Text}
    (hr : Ends r) (hs : Ends s) (h : v.display ++ r = w.display ++ s) :
    v.Reassociated w ∧ r = s :=
  readable_of_terms (readableTerm_of_mem_terms hv) w r s hw trivial hr hs h

theorem display_inj {v w : Value} (hv : v.WellNamed) (hw : w.WellNamed)
    (h : v.display = w.display) : v.Reassociated w :=
  (display_append_inj hv hw ends_nil ends_nil (congrArg (· ++ []) h)).1

theorem oneLine_display {v : Value} (h : v.WellNamed) : Text.OneLine v.display := by
  induction v with
  | str text => exact Text.oneLine_quoted text
  | expr i =>
      have hopen : Text.OneLine "$\x7b".toList := Text.oneLine_of_all (by decide)
      have hclose : Text.OneLine ['\x7d'] := Text.oneLine_of_all (by decide)
      exact (hopen.append (oneLine_ofNat i)).append hclose
  | ref b => exact oneLine_name (h b List.mem_cons_self)
  | toText v ih =>
      have hopen : Text.OneLine "toText(".toList := Text.oneLine_of_all (by decide)
      have hclose : Text.OneLine [')'] := Text.oneLine_of_all (by decide)
      exact (hopen.append (ih h)).append hclose
  | concat left right ihleft ihright =>
      have hplus : Text.OneLine " + ".toList := Text.oneLine_of_all (by decide)
      exact ((ihleft fun b hb => h b (List.mem_append_left _ hb)).append hplus).append
        (ihright fun b hb => h b (List.mem_append_right _ hb))

end Value

end Hypertext

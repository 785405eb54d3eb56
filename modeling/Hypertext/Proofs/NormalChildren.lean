import Hypertext.Proofs.PlaceholderCodec

set_option autoImplicit false

/-! # Children in normal form

The children of an element are texts, which may hold placeholders, and values that are known
already. They are brought into one list of values, in which literal text that cannot be seen is left
out and, if that is asked for, each run of blanks is one space. This file says what remains:
everything that can be seen (`Mark`), in order, and literals of a normal form (`Squeezed`).

The list does not change when it is brought into normal form again. If its literals are taken for
raw text there, this needs that collapsing blanks makes no token of what was none. It makes none,
because no character of a token is a blank, so that splitting and collapsing commute
(`split_collapseBlanks`).
-/

namespace Hypertext

/-! ## Digits are no blanks -/

namespace CodePoints

/-- A code point that is found lies in one of the ranges. -/
theorem exists_range_of_search {ranges : Array (Nat × Nat)} {n low high : Nat}
    (hhigh : high ≤ ranges.size) (h : search ranges n low high = true) :
    ∃ range ∈ ranges.toList, range.1 ≤ n ∧ n ≤ range.2 := by
  fun_induction search ranges n low high with
  | case1 low high hlt middle range hbelow ih => exact ih (by omega) h
  | case2 low high hlt middle range hbelow habove ih => exact ih hhigh h
  | case3 low high hlt middle range hbelow habove =>
      have hmiddle : middle < ranges.size := by omega
      refine ⟨range, ?_, by omega, by omega⟩
      simp [range, hmiddle]
  | case4 => cases h

/-- A property of all ranges, line by line. The characters of a line are given as a list, on which
the property can be evaluated. -/
theorem all_ofRanges_cons {p : Nat × Nat → Bool} {line : String} {chars : Text}
    {lines : List String} (hline : line = String.ofList chars)
    (hfirst : (pieces (· == ' ') chars).all (fun piece => p (readRange piece)) = true)
    (hrest : (ofRanges lines).ranges.toList.all p = true) :
    (ofRanges (line :: lines)).ranges.toList.all p = true := by
  subst hline
  simp only [ofRanges, List.toList_toArray] at hrest ⊢
  rw [List.flatMap_cons, String.toList_ofList, List.map_append, List.all_append, hrest,
    List.all_map, Bool.and_true]
  exact hfirst

end CodePoints

/-- Whether a range of code points holds no blank beyond ASCII. -/
def avoidsBlanks (range : Nat × Nat) : Bool :=
  [(0x85, 0x85), (0xA0, 0xA0), (0x1680, 0x1680), (0x2000, 0x205F), (0x3000, 0x3000)].all
    fun blanks => range.2 < blanks.1 || blanks.2 < range.1

/-- A class of characters holds no blank if its table does not, and beyond the table only characters
of ASCII behind the space. -/
theorem isBlank_of_table {ascii : Char → Bool} {set : CodePoints}
    (hascii : ∀ c, ascii c = true → 32 < c.toNat)
    (hset : set.ranges.toList.all avoidsBlanks = true) {c : Char}
    (h : (if c.toNat < 128 then ascii c else set.has c) = true) : isBlank c = false := by
  rw [← Bool.not_eq_true]
  intro hblank
  simp only [isBlank, Bool.or_eq_true, Bool.and_eq_true, decide_eq_true_eq, beq_iff_eq] at hblank
  split at h
  · have hlarge := hascii c h
    omega
  · obtain ⟨range, hrange, hlow, hhigh⟩ := CodePoints.exists_range_of_search (le_refl _) h
    have havoids := List.all_eq_true.mp hset range hrange
    simp only [avoidsBlanks, List.all_cons, List.all_nil, Bool.and_true, Bool.and_eq_true,
      Bool.or_eq_true, decide_eq_true_eq] at havoids
    omega

theorem toNat_of_isDigit {c : Char} (h : c.isDigit = true) : 32 < c.toNat := by
  have hdigit : 48 ≤ c.toNat ∧ c.toNat ≤ 57 := by
    simpa [Char.isDigit, UInt32.le_iff_toNat_le] using h
  omega

theorem digitBeyondAscii_avoidsBlanks :
    digitBeyondAscii.ranges.toList.all avoidsBlanks = true := by
  unfold digitBeyondAscii
  iterate 8 refine CodePoints.all_ofRanges_cons rfl (by decide) ?_
  rfl

theorem isBlank_of_isDecimalDigit {c : Char} (h : isDecimalDigit c = true) : isBlank c = false :=
  isBlank_of_table (fun _ => toNat_of_isDigit) digitBeyondAscii_avoidsBlanks h

/-! ## Collapsed blanks -/

namespace Children

/-- Text in which every blank is a space, and no space follows another. -/
structure Squeezed (t : Text) : Prop where
  spaces : ∀ c ∈ t, isBlank c = true → c = ' '
  single : t.IsChain fun c d => ¬(c = ' ' ∧ d = ' ')

/-- Whether a text begins with a blank. -/
def leadsBlank (t : Text) : Bool := t.head?.any isBlank

theorem collapseBlanks_cons {c : Char} (hc : isBlank c = false) (t : Text) :
    collapseBlanks (c :: t) = c :: collapseBlanks t := by
  rw [collapseBlanks.eq_def]
  exact if_neg (by simp [hc])

/-- A blank is left out before another, and becomes a space before anything else. -/
theorem collapseBlanks_blank {c : Char} (hc : isBlank c = true) (t : Text) :
    collapseBlanks (c :: t)
      = if leadsBlank t = true then collapseBlanks t else ' ' :: collapseBlanks t := by
  rw [collapseBlanks.eq_def]
  refine (if_pos hc).trans ?_
  cases t with
  | nil => rfl
  | cons d t => rfl

theorem collapseBlanks_append {s : Text} (hs : ∀ c ∈ s, isBlank c = false) (t : Text) :
    collapseBlanks (s ++ t) = s ++ collapseBlanks t := by
  induction s with
  | nil => rfl
  | cons c s ih =>
      rw [List.cons_append, collapseBlanks_cons (hs c List.mem_cons_self),
        ih fun d hd => hs d (List.mem_cons_of_mem _ hd), List.cons_append]

/-- **Induction over a text whose blanks are collapsed.** A character that is not blank stays; a
blank before another is left out; the last blank of a run becomes a space. -/
theorem collapse_induction {motive : Text → Text → Prop} (nil : motive [] [])
    (keep : ∀ c t, isBlank c = false → motive t (collapseBlanks t) →
      motive (c :: t) (c :: collapseBlanks t))
    (drop : ∀ c t, isBlank c = true → leadsBlank t = true → motive t (collapseBlanks t) →
      motive (c :: t) (collapseBlanks t))
    (space : ∀ c t, isBlank c = true → leadsBlank t = false → motive t (collapseBlanks t) →
      motive (c :: t) (' ' :: collapseBlanks t))
    (t : Text) : motive t (collapseBlanks t) := by
  induction t with
  | nil => exact nil
  | cons c t ih =>
      cases hc : isBlank c with
      | false =>
          rw [collapseBlanks_cons hc]
          exact keep c t hc ih
      | true =>
          rw [collapseBlanks_blank hc]
          cases ht : leadsBlank t with
          | true => exact drop c t hc ht ih
          | false => exact space c t hc ht ih

theorem leadsBlank_collapseBlanks (t : Text) : leadsBlank (collapseBlanks t) = leadsBlank t := by
  induction t using collapse_induction with
  | nil => rfl
  | keep c t _ _ => rfl
  | drop c t hc ht ih =>
      rw [ih, ht]
      exact hc.symm
  | space c t hc _ _ => exact hc.symm

/-- Collapsing blanks changes no other character. -/
theorem filter_collapseBlanks (t : Text) :
    (collapseBlanks t).filter (fun c => !isBlank c) = t.filter fun c => !isBlank c := by
  induction t using collapse_induction with
  | nil => rfl
  | keep c t hc ih => rw [List.filter_cons, List.filter_cons, ih]
  | drop c t hc _ ih => rw [List.filter_cons_of_neg (by simp [hc]), ih]
  | space c t hc _ ih =>
      rw [List.filter_cons_of_neg (by decide), List.filter_cons_of_neg (by simp [hc]), ih]

theorem collapseBlanks_eq_nil {t : Text} : collapseBlanks t = [] ↔ t = [] := by
  induction t using collapse_induction with
  | nil => exact Iff.rfl
  | keep c t _ _ => simp
  | drop c t _ ht ih =>
      -- the text behind a blank that is left out begins with a blank, so it is not empty
      rw [ih]
      constructor
      · rintro rfl
        cases ht
      · intro h
        cases h
  | space c t _ _ _ => simp

theorem squeezed_nil : Squeezed [] := ⟨fun _ h => absurd h List.not_mem_nil, .nil⟩

theorem squeezed_cons {c : Char} {t : Text} :
    Squeezed (c :: t) ↔
      (isBlank c = true → c = ' ') ∧ (∀ d ∈ t.head?, ¬(c = ' ' ∧ d = ' ')) ∧ Squeezed t := by
  constructor
  · intro h
    obtain ⟨hnext, hchain⟩ := List.isChain_cons.mp h.single
    exact ⟨h.spaces c List.mem_cons_self, hnext,
      fun d hd => h.spaces d (List.mem_cons_of_mem _ hd), hchain⟩
  · rintro ⟨hspace, hnext, ht⟩
    refine ⟨fun d hd => ?_, List.isChain_cons.mpr ⟨hnext, ht.single⟩⟩
    rcases List.mem_cons.mp hd with rfl | hd
    · exact hspace
    · exact ht.spaces d hd

theorem squeezed_collapseBlanks (t : Text) : Squeezed (collapseBlanks t) := by
  induction t using collapse_induction with
  | nil => exact squeezed_nil
  | keep c t hc ih =>
      refine squeezed_cons.mpr ⟨fun hblank => ?_, fun d _ hspaces => ?_, ih⟩
      · rw [hc] at hblank
        cases hblank
      · rw [hspaces.1] at hc
        cases hc
  | drop c t _ _ ih => exact ih
  | space c t _ ht ih =>
      refine squeezed_cons.mpr ⟨fun _ => rfl, fun d hd hspaces => ?_, ih⟩
      -- what follows the space does not begin with a blank
      rw [← leadsBlank_collapseBlanks, leadsBlank, hd, hspaces.2] at ht
      cases ht

theorem collapseBlanks_of_squeezed {t : Text} (h : Squeezed t) : collapseBlanks t = t := by
  induction t with
  | nil => rfl
  | cons c t ih =>
      obtain ⟨hspace, hnext, ht⟩ := squeezed_cons.mp h
      cases hc : isBlank c with
      | false => rw [collapseBlanks_cons hc, ih ht]
      | true =>
          have hlead : leadsBlank t = false := by
            cases t with
            | nil => rfl
            | cons d t =>
                rw [← Bool.not_eq_true]
                intro hd
                exact hnext d rfl ⟨hspace hc, (squeezed_cons.mp ht).1 hd⟩
          rw [collapseBlanks_blank hc, hlead, ih ht, hspace hc]
          rfl

/-- The characters before the first blank stand in front of what is collapsed. -/
theorem exists_of_collapseBlanks_eq {s t u : Text} (hs : ∀ c ∈ s, isBlank c = false)
    (h : collapseBlanks t = s ++ u) : ∃ rest, t = s ++ rest ∧ collapseBlanks rest = u := by
  induction s generalizing t with
  | nil => exact ⟨t, rfl, h⟩
  | cons c s ih =>
      have hc : isBlank c = false := hs c List.mem_cons_self
      have hlead : leadsBlank t = false := by
        rw [← leadsBlank_collapseBlanks, h]
        exact hc
      cases t with
      | nil => cases h
      | cons d t =>
          rw [collapseBlanks_cons hlead, List.cons_append] at h
          obtain ⟨rfl, htail⟩ := List.cons.inj h
          obtain ⟨rest, rfl, hrest⟩ := ih (fun e he => hs e (List.mem_cons_of_mem _ he)) htail
          exact ⟨rest, rfl, hrest⟩

end Children

/-! ## Splitting text whose blanks are collapsed -/

/-- A fragment with its blanks collapsed. -/
def Fragment.collapsed : Fragment → Fragment
  | .literal text => .literal (Children.collapseBlanks text)
  | .placeholder index => .placeholder index

namespace Placeholder

open Children

theorem isBlank_of_isDigits {digits : Text} (h : IsDigits digits) :
    ∀ c ∈ '\x00' :: (digits ++ ['\x00']), isBlank c = false := by
  intro c hc
  rcases List.mem_cons.mp hc with rfl | hc
  · rfl
  · rcases List.mem_append.mp hc with hc | hc
    · exact isBlank_of_isDecimalDigit (h.2 c hc)
    · rw [List.mem_singleton.mp hc]
      rfl

/-- Collapsing blanks makes no token at the front of a text. -/
theorem token?_collapseBlanks {c : Char} {t : Text} (h : token? (c :: t) = none) :
    token? (c :: collapseBlanks t) = none := by
  rw [Option.eq_none_iff_forall_ne_some] at h ⊢
  rintro ⟨digits, rest⟩ hsome
  obtain ⟨hdigits, htext⟩ := token?_eq_some_iff.mp hsome
  obtain ⟨rfl, htext⟩ := List.cons.inj htext
  -- the digits and the NUL character behind them stand in front of the text itself
  have hvisible : ∀ d ∈ digits ++ ['\x00'], isBlank d = false :=
    fun d hd => isBlank_of_isDigits hdigits d (List.mem_cons_of_mem _ hd)
  have hfront : collapseBlanks t = digits ++ ['\x00'] ++ rest := by simpa using htext
  obtain ⟨after, rfl, -⟩ := exists_of_collapseBlanks_eq hvisible hfront
  exact h (digits, after) (token?_eq_some_iff.mpr ⟨hdigits, by simp⟩)

/-- A text begins with a blank if and only if its first literal does. -/
theorem leadsBlank_of_split {t text : Text} {fragments : List Fragment}
    (h : split t = .literal text :: fragments) : leadsBlank text = leadsBlank t := by
  cases t with
  | nil =>
      rw [split] at h
      cases h
      rfl
  | cons c t =>
      by_cases hc : c = '\x00'
      · subst hc
        obtain ⟨more, hmore⟩ := eq_append_of_split h
        cases text with
        | nil => rfl
        | cons d text =>
            rw [(List.cons.inj hmore).1]
            rfl
      · obtain ⟨u, rest, hsplit⟩ := split_head t
        rw [split_char hc, hsplit] at h
        cases h
        rfl

/-- **Splitting and collapsing commute,** because no blank stands in a token. -/
theorem split_collapseBlanks (raw : Text) :
    split (collapseBlanks raw) = (split raw).map Fragment.collapsed := by
  induction raw using split_induction with
  | nil => rw [collapseBlanks, split]; rfl
  | token digits after i hdigits hindex ih =>
      have hwhole : '\x00' :: (digits ++ '\x00' :: after)
          = ('\x00' :: (digits ++ ['\x00'])) ++ after := by simp
      have htoken : token? ('\x00' :: (digits ++ ['\x00']) ++ collapseBlanks after)
          = some (digits, collapseBlanks after) :=
        token?_eq_some_iff.mpr ⟨hdigits, by simp⟩
      rw [hwhole, collapseBlanks_append (isBlank_of_isDigits hdigits), split_of_token htoken,
        prependToken, hindex, ih]
      rfl
  | skip start after text fragments hskips hsplit ih =>
      -- without blanks, what was skipped is skipped again
      have hvisible : (∀ c ∈ start, isBlank c = false) → Skips start (collapseBlanks after) →
          split (collapseBlanks (start ++ after))
            = (.literal (start ++ text) :: fragments).map Fragment.collapsed := by
        intro hstart hskips
        rw [collapseBlanks_append hstart, hskips.split, ih, List.map_cons, List.map_cons,
          Fragment.collapsed, Fragment.collapsed, collapseBlanks_append hstart]
        rfl
      cases hskips with
      | token _ hdigits hindex =>
          exact hvisible (isBlank_of_isDigits hdigits) (.token _ hdigits hindex)
      | @char c _ hnone =>
          cases hc : isBlank c with
          | false => exact hvisible (by simpa using hc) (.char (token?_collapseBlanks hnone))
          | true =>
              rw [List.singleton_append, List.singleton_append, collapseBlanks_blank hc,
                List.map_cons, Fragment.collapsed, collapseBlanks_blank hc,
                leadsBlank_of_split hsplit]
              cases leadsBlank after with
              | true => exact ih
              | false =>
                  show split (' ' :: collapseBlanks after) = _
                  rw [split_char (by decide), ih]
                  rfl

end Placeholder

/-! ## What can be seen of children -/

/-- What can be seen in a list of values: characters that are not blank, and values that are no
literal text. -/
inductive Mark where
  | char (c : Char)
  | value (value : Value)
  deriving DecidableEq, Repr

/-- The characters of a literal that can be seen. -/
def Mark.ofText (text : Text) : List Mark := (text.filter fun c => !isBlank c).map .char

/-- What can be seen of a value. -/
def Value.marks : Value → List Mark
  | .str text => Mark.ofText text
  | value => [.value value]

/-- What can be seen of a fragment. -/
def Fragment.marks : Fragment → List Mark
  | .literal text => Mark.ofText text
  | .placeholder index => [.value (.expr index)]

/-- What can be seen of a child: the placeholders and the visible characters of a text, or a
value. -/
def Contribution.marks : Contribution → List Mark
  | .text raw => (Placeholder.split raw).flatMap Fragment.marks
  | .value known => known.marks

/-- A value as a child again, literal text as a raw text. -/
def Contribution.ofValue : Value → Contribution
  | .str literal => .text literal
  | known => .value known

/-- Whether a value is literal text that is empty or breaks a line and shows nothing. -/
def Value.isUnseen : Value → Bool
  | .str text => text.isEmpty || (text.isAllBlank && text.contains '\n')
  | _ => false

/-- A value, literal text with its blanks collapsed. -/
def Value.collapsed : Value → Value
  | .str text => .str (Children.collapseBlanks text)
  | value => value

namespace Children

/-! ## Literal text that is kept -/

theorem literal?_false (text : Text) :
    literal? false text = if text.isEmpty = true then none else some text := rfl

theorem literal?_true (text : Text) :
    literal? true text
      = if (Value.str text).isUnseen = true then none else some (collapseBlanks text) := by
  cases hempty : text.isEmpty <;> simp [literal?, Value.isUnseen, hempty]

theorem marks_of_isUnseen {text : Text} (h : (Value.str text).isUnseen = true) :
    Mark.ofText text = [] := by
  have hblank : ∀ c ∈ text, isBlank c = true := by
    simp only [Value.isUnseen, Bool.or_eq_true, Bool.and_eq_true, List.isEmpty_iff] at h
    rcases h with rfl | h
    · exact fun _ h => absurd h List.not_mem_nil
    · exact List.all_eq_true.mp h.1
  rw [Mark.ofText, List.filter_eq_nil_iff.mpr fun c hc => by simp [hblank c hc], List.map_nil]

/-- What is kept of a literal shows the same. -/
theorem marks_literal? (collapse : Bool) (text : Text) :
    (literal? collapse text).toList.flatMap Mark.ofText = Mark.ofText text := by
  cases collapse with
  | false =>
      rw [literal?_false]
      cases text <;> simp [Mark.ofText]
  | true =>
      rw [literal?_true]
      split
      · next h => rw [marks_of_isUnseen h]; rfl
      · simp [Mark.ofText, filter_collapseBlanks]

/-- **What is kept of a literal:** the literal itself, or the literal with its blanks collapsed. -/
theorem literal?_eq_some {collapse : Bool} {text kept : Text}
    (h : literal? collapse text = some kept) :
    (collapse = false ∧ kept = text) ∨
      (collapse = true ∧ kept = collapseBlanks text ∧ (Value.str text).isUnseen = false) := by
  cases collapse with
  | false =>
      rw [literal?_false] at h
      split at h
      · cases h
      · exact .inl ⟨rfl, (Option.some.inj h).symm⟩
  | true =>
      rw [literal?_true] at h
      split at h
      · cases h
      · next hseen => exact .inr ⟨rfl, (Option.some.inj h).symm, Bool.eq_false_iff.mpr hseen⟩

/-- Collapsing blanks does not make text unseen: it leaves no line feed and does not empty it. -/
theorem isUnseen_collapseBlanks {text : Text} (h : (Value.str text).isUnseen = false) :
    (Value.str (collapseBlanks text)).isUnseen = false := by
  have hempty : (collapseBlanks text).isEmpty = false := by
    rw [← Bool.not_eq_true, List.isEmpty_iff, collapseBlanks_eq_nil]
    rintro rfl
    cases h
  have hfeed : (collapseBlanks text).contains '\n' = false := by
    rw [← Bool.not_eq_true, List.contains_iff_mem]
    intro hmem
    cases (squeezed_collapseBlanks text).spaces _ hmem rfl
  rw [Value.isUnseen, hempty, hfeed, Bool.and_false, Bool.or_false]

/-- What is kept of a literal is kept as it is the next time. -/
theorem literal?_literal? {collapse : Bool} {text kept : Text}
    (h : literal? collapse text = some kept) : literal? collapse kept = some kept := by
  rcases literal?_eq_some h with ⟨rfl, rfl⟩ | ⟨rfl, rfl, hseen⟩
  · exact h
  · rw [literal?_true, isUnseen_collapseBlanks hseen,
      collapseBlanks_of_squeezed (squeezed_collapseBlanks text)]
    rfl

/-- What is kept of a literal is not split if the literal is not. -/
theorem split_literal? {collapse : Bool} {text kept : Text}
    (hsplit : Placeholder.split text = [.literal text]) (h : literal? collapse text = some kept) :
    Placeholder.split kept = [.literal kept] := by
  rcases literal?_eq_some h with ⟨-, rfl⟩ | ⟨-, rfl, -⟩
  · exact hsplit
  · rw [Placeholder.split_collapseBlanks, hsplit]
    rfl

/-! ## Lists of children -/

theorem marks_keep? (collapse : Bool) (value : Value) :
    (keep? collapse value).toList.flatMap Value.marks = value.marks := by
  cases value with
  | str text =>
      have hmarks := marks_literal? collapse text
      rw [keep?]
      cases hkept : literal? collapse text with
      | none => simpa [hkept, Value.marks] using hmarks
      | some kept => simpa [hkept, Value.marks] using hmarks
  | expr _ | ref _ | toText _ | concat _ _ => rfl

theorem keep?_keep? {collapse : Bool} {value kept : Value} (h : keep? collapse value = some kept) :
    keep? collapse kept = some kept := by
  cases value with
  | str text =>
      obtain ⟨literal, hliteral, rfl⟩ := Option.map_eq_some_iff.mp h
      rw [keep?, literal?_literal? hliteral]
      rfl
  | expr _ | ref _ | toText _ | concat _ _ =>
      cases h
      rfl

theorem marks_values (contribution : Contribution) :
    (values contribution).flatMap Value.marks = contribution.marks := by
  cases contribution with
  | text raw =>
      have hfragment : ∀ fragment, (Value.ofFragment fragment).marks = fragment.marks := by
        intro fragment
        cases fragment <;> rfl
      simp [values, Contribution.marks, List.flatMap_map, hfragment]
  | value known => exact List.flatMap_singleton _ _

/-- **Everything that can be seen is kept,** once and in order. -/
theorem marks_normalize (collapse : Bool) (contributions : List Contribution) :
    (normalize collapse contributions).flatMap Value.marks
      = contributions.flatMap Contribution.marks := by
  rw [normalize, List.filterMap_eq_flatMap_toList, List.flatMap_assoc, List.flatMap_assoc]
  simp only [marks_keep?, marks_values]

theorem normalize_false (contributions : List Contribution) :
    normalize false contributions
      = (contributions.flatMap values).filter fun value => value != .str [] := by
  have hkeep : keep? false = Option.guard fun value => value != .str [] := by
    funext value
    cases value with
    | str text => cases text <;> rfl
    | expr _ | ref _ | toText _ | concat _ _ => rfl
  rw [normalize, hkeep, List.filterMap_eq_filter]

theorem normalize_true (contributions : List Contribution) :
    normalize true contributions
      = ((contributions.flatMap values).filter fun value => !value.isUnseen).map
        Value.collapsed := by
  have hkeep : keep? true = fun value =>
      (Option.guard (fun value => !value.isUnseen) value).map Value.collapsed := by
    funext value
    cases value with
    | str text =>
        rw [keep?, literal?_true]
        cases hunseen : (Value.str text).isUnseen <;>
          simp [Option.guard, hunseen, Value.collapsed]
    | expr _ | ref _ | toText _ | concat _ _ => rfl
  rw [normalize, hkeep, ← List.map_filterMap, List.filterMap_eq_filter]

theorem keep?_of_mem_normalize {collapse : Bool} {contributions : List Contribution} {value : Value}
    (h : value ∈ normalize collapse contributions) : keep? collapse value = some value := by
  obtain ⟨given, -, hkept⟩ := List.mem_filterMap.mp h
  exact keep?_keep? hkept

/-- **Normalizing again** changes nothing, however the values are given as children, as long as each
child has its value as its only value. -/
theorem normalize_map_normalize {collapse : Bool} {contributions : List Contribution}
    {child : Value → Contribution}
    (hchild : ∀ value ∈ normalize collapse contributions, values (child value) = [value]) :
    normalize collapse ((normalize collapse contributions).map child)
      = normalize collapse contributions := by
  have hvalues : ((normalize collapse contributions).map child).flatMap values
      = normalize collapse contributions := by
    rw [List.flatMap_map, List.flatMap_congr hchild, List.flatMap_singleton']
  rw [normalize, hvalues]
  calc (normalize collapse contributions).filterMap (keep? collapse)
      = (normalize collapse contributions).filterMap some :=
        List.filterMap_congr fun value hvalue => keep?_of_mem_normalize hvalue
    _ = normalize collapse contributions := List.filterMap_some

/-- The literals of a list of children are not split again, if all of them come from texts. -/
theorem split_of_mem_normalize {collapse : Bool} {contributions : List Contribution}
    (htexts : ∀ text, .value (.str text) ∉ contributions) {kept : Text}
    (h : .str kept ∈ normalize collapse contributions) :
    Placeholder.split kept = [.literal kept] := by
  obtain ⟨given, hgiven, hkept⟩ := List.mem_filterMap.mp h
  obtain ⟨contribution, hmem, hvalue⟩ := List.mem_flatMap.mp hgiven
  obtain ⟨text, rfl, hliteral⟩ :
      ∃ text, given = .str text ∧ literal? collapse text = some kept := by
    cases given with
    | str text =>
        obtain ⟨literal, hliteral, hsame⟩ := Option.map_eq_some_iff.mp hkept
        cases hsame
        exact ⟨text, rfl, hliteral⟩
    | expr _ | ref _ | toText _ | concat _ _ => cases hkept
  cases contribution with
  | value known =>
      rw [values, List.mem_singleton] at hvalue
      exact absurd (hvalue ▸ hmem) (htexts text)
  | text raw =>
      obtain ⟨fragment, hfragment, hsame⟩ := List.mem_map.mp hvalue
      cases fragment with
      | placeholder index => cases hsame
      | literal _ =>
          cases hsame
          exact split_literal? (Placeholder.split_literal raw text hfragment) hliteral

/-- **Children in normal form.** Whether blanks are collapsed or not, the list of values shows what
the children show: all values that are no literals, each once and in order, and between them all
characters of the literals that are not blank. No literal in it is empty. If blanks are not
collapsed, only empty literals are left out, and the others are unchanged. If blanks are collapsed,
those literals are also left out that are nothing but blanks with a line feed among them, and no
others; in those that remain every blank is a space, and no space follows another. The list does not
change if it is normalized again, be its values given as they are or, if no literal was given as a
value, its literals as raw texts. -/
theorem normalize_laws (collapse : Bool) (contributions : List Contribution) :
    let result := normalize collapse contributions
    result.flatMap Value.marks = contributions.flatMap Contribution.marks ∧
    .str [] ∉ result ∧
    normalize false contributions
      = (contributions.flatMap values).filter (fun value => value != .str []) ∧
    normalize true contributions
      = ((contributions.flatMap values).filter fun value => !value.isUnseen).map Value.collapsed ∧
    (∀ text, .str text ∈ normalize true contributions → Squeezed text) ∧
    normalize collapse (result.map .value) = result ∧
    ((∀ text, .value (.str text) ∉ contributions) →
      normalize collapse (result.map Contribution.ofValue) = result) := by
  intro result
  refine ⟨marks_normalize collapse contributions, ?_, normalize_false contributions,
    normalize_true contributions, ?_, ?_, ?_⟩
  · intro hmem
    have hkept := keep?_of_mem_normalize hmem
    cases hkept
  · intro text hmem
    rw [normalize_true] at hmem
    obtain ⟨given, -, hgiven⟩ := List.mem_map.mp hmem
    cases given with
    | str given =>
        cases hgiven
        exact squeezed_collapseBlanks given
    | expr _ | ref _ | toText _ | concat _ _ => cases hgiven
  · exact normalize_map_normalize fun value _ => rfl
  · intro htexts
    refine normalize_map_normalize fun value hvalue => ?_
    cases value with
    | str text =>
        show (Placeholder.split text).map Value.ofFragment = _
        rw [split_of_mem_normalize htexts hvalue]
        rfl
    | expr _ | ref _ | toText _ | concat _ _ => rfl

/-- Between a number that is no index and a token stands a NUL character that begins nothing. The
blanks beside it are collapsed, and the text is no token afterwards either. -/
theorem normalize_laws_beside_tokens :
    let contributions : List Contribution := [.text "\n  ".toList, .value (.ref ⟨"_p".toList⟩),
      .text "\x0018446744073709551616\x00\t\n7\x00 \x000\x00".toList]
    let result : List Value := [.ref ⟨"_p".toList⟩,
      .str "\x0018446744073709551616\x00 7\x00 ".toList, .expr 0]
    (∀ text, .value (.str text) ∉ contributions) ∧ normalize true contributions = result ∧
    Squeezed "\x0018446744073709551616\x00 7\x00 ".toList ∧
    normalize true (result.map Contribution.ofValue) = result := by
  intro contributions result
  have htexts : ∀ text, .value (.str text) ∉ contributions := by simp [contributions]
  have hresult : normalize true contributions = result := by decide +kernel
  obtain ⟨-, -, -, -, hsqueezed, -, hagain⟩ := normalize_laws true contributions
  rw [hresult] at hsqueezed hagain
  exact ⟨htexts, hresult, hsqueezed _ (by simp [result]), hagain htexts⟩

end Children
end Hypertext

import Hypertext.Proofs.TreeShape

set_option autoImplicit false

/-! # A slash between attributes

A slash that does not end a tag is an attribute like any other name. If it is added between the
attributes of a tag (`TagGap`), the markup describes the same tree with one more attribute, and the
same tree only where the tag has an attribute of that name anyway (`Node.parse_stray_slash`).

What is read before the place is read there too when something else follows (`TagGap.replace`). So
the two markups have the same tokens, but for the attributes that the tag gives behind the place
(`TagGap.passes_iff`).
-/

namespace Hypertext

/-! ## Names of attributes -/

theorem Attributes.mem_names_insert {name value other : Text} {attributes : Attributes} :
    other ∈ (attributes.insert name value).map Prod.fst
      ↔ other ∈ attributes.map Prod.fst ∨ other = name := by
  induction attributes with
  | nil => simp [insert]
  | cons first rest ih =>
      obtain ⟨n, v⟩ := first
      rw [insert]
      split
      · next hname =>
          subst hname
          rw [List.map_cons, List.mem_cons, List.map_cons, List.mem_cons, or_right_comm, or_self]
      · rw [List.map_cons, List.mem_cons, ih, List.map_cons, List.mem_cons, or_assoc]

theorem Attributes.mem_names_ofList {other : Text} {pairs : List (Text × Text)} :
    other ∈ (ofList pairs).map Prod.fst ↔ other ∈ pairs.map Prod.fst := by
  have hgeneral : ∀ (pairs : List (Text × Text)) (attributes : Attributes),
      other ∈ (pairs.foldl (fun attributes pair => insert pair.1 pair.2 attributes)
          attributes).map Prod.fst
        ↔ other ∈ attributes.map Prod.fst ∨ other ∈ pairs.map Prod.fst := by
    intro pairs
    induction pairs with
    | nil => simp
    | cons first rest ih =>
        intro attributes
        rw [List.foldl_cons, ih, mem_names_insert, List.map_cons, List.mem_cons, or_assoc]
  rw [ofList, hgeneral, List.map_nil, List.mem_nil_iff, false_or]

namespace Token

/-- Only `class` and `for` are kept under another name. -/
theorem propertyName_eq_slash_iff {name : Text} : propertyName name = ['/'] ↔ name = ['/'] := by
  unfold propertyName
  split
  · next hclass =>
      subst hclass
      decide
  split
  · next hfor =>
      subst hfor
      decide
  · rfl

theorem slash_mem_properties_iff {given : List (Text × Text)} :
    ['/'] ∈ (properties given).map Prod.fst ↔ ['/'] ∈ given.map Prod.fst := by
  rw [properties, Attributes.mem_names_ofList, List.map_map, List.mem_map, List.mem_map]
  simp only [Function.comp_apply, propertyName_eq_slash_iff]

end Token

/-! ## Places between attributes -/

/-- A place in markup, behind `a` and before `b`, that is in an opening tag, behind its name and a
blank, and neither in an attribute nor between a name and its value. Before the tag the tokens `row`
are read, and in it the attributes `first`. -/
structure TagGap (a b : Text) where
  row : List Token
  tag : Text
  inside : Text
  first : List (Text × Text)
  blank : Char
  isTag : IsTagName tag
  isBlank : isTagBlank blank = true
  stops : (inside ++ [blank]).head?.any Token.isTagNameChar = false
  reads : Token.Passes (a ++ b) row ('<' :: (tag ++ (inside ++ blank :: b)))
  gives : Token.Gives (inside ++ blank :: b) first (blank :: b)

namespace TagGap

open Token

variable {a b b' : Text}

/-- Something else can follow the place. -/
def replace (gap : TagGap a b) (halike : Alike (gap.blank :: b) (gap.blank :: b')) :
    TagGap a b' where
  row := gap.row
  tag := gap.tag
  inside := gap.inside
  first := gap.first
  blank := gap.blank
  isTag := gap.isTag
  isBlank := gap.isBlank
  stops := gap.stops
  reads := by
    obtain ⟨taken, hwhole, hpasses⟩ := gap.reads.replace rfl
    have hcut : a ++ b = (taken ++ '<' :: (gap.tag ++ (gap.inside ++ [gap.blank]))) ++ b := by
      simpa using hwhole
    have hnew : a ++ b' = taken ++ '<' :: (gap.tag ++ (gap.inside ++ gap.blank :: b')) := by
      simpa using congrArg (· ++ b') (List.append_cancel_right hcut)
    rw [hnew]
    exact hpasses _ rfl
  gives := by
    obtain ⟨taken, hwhole, hgives⟩ := gap.gives.replace
    rw [List.append_cancel_right hwhole]
    exact hgives _ halike

/-- **The tag around a place** gives the attributes before it and those behind it. -/
theorem passes_iff (gap : TagGap a b) {row : List Token} :
    Passes (a ++ b) row [] ↔ ∃ others closes after later,
      readAttributes 0 0 (gap.blank :: b) = .ok (others, closes, after) ∧ Passes after later [] ∧
      row = gap.row
        ++ .opening gap.tag (gap.first ++ others) (closes || isVoid gap.tag) :: later := by
  have hstops : (gap.inside ++ gap.blank :: b).head?.any isTagNameChar = false := by
    have hhead : (gap.inside ++ gap.blank :: b).head? = (gap.inside ++ [gap.blank]).head? := by
      rw [List.head?_append, List.head?_append]
      rfl
    rw [hhead]
    exact gap.stops
  have hread := read_tag 0 gap.isTag hstops
  rw [Nat.zero_sub, gap.gives.readAttributes_eq] at hread
  constructor
  · intro hrow
    -- behind the tokens before the tag, those of the tag and of what follows it are read
    obtain ⟨rfl, hnone⟩ := (passes_nil_iff 0).mp hrow
    have hreads := gap.reads.reads 0
    have hrest := (passes_nil_iff 0).mpr ⟨rfl, hreads.error.symm.trans hnone⟩
    rw [hreads.tokens]
    generalize ((readAll 0 _).1.map Prod.snd : List Token) = tokens at hrest ⊢
    generalize htag : '<' :: (gap.tag ++ (gap.inside ++ gap.blank :: b)) = t at hrest hread
    cases hrest with
    | refl => cases htag
    | token hne hopening hlater =>
        rw [read_size hne hopening 0] at hread
        obtain ⟨result, hresult, htoken⟩ := map_eq_ok_iff.mp hread.symm
        obtain ⟨⟨others, closes, after⟩, hothers, rfl⟩ := map_eq_ok_iff.mp hresult
        cases htoken
        exact ⟨others, closes, after, _, hothers, hlater, rfl⟩
  · rintro ⟨others, closes, after, later, hothers, hlater, rfl⟩
    rw [hothers] at hread
    exact gap.reads.append (hlater.token (List.cons_ne_nil _ _) hread)

theorem passes_replaced_iff (gap : TagGap a b) (halike : Alike (gap.blank :: b) (gap.blank :: b'))
    {row : List Token} :
    Passes (a ++ b') row [] ↔ ∃ others closes after later,
      readAttributes 0 0 (gap.blank :: b') = .ok (others, closes, after) ∧ Passes after later [] ∧
      row = gap.row ++ .opening gap.tag (gap.first ++ others) (closes || isVoid gap.tag) :: later :=
  (gap.replace halike).passes_iff

end TagGap

/-! ## The slash -/

namespace Token

/-- A slash is a name by itself where no `>` follows. -/
theorem breakAt_slash (b : Text) :
    Text.breakAt endsName (['/'] ++ ' ' :: b) = (['/'], ' ' :: b) := rfl

variable {blank : Char} (hblank : isTagBlank blank = true) (b : Text)
include hblank

theorem alike_slash : Alike (blank :: b) (blank :: '/' :: ' ' :: b) := by
  have hslash : blank ≠ '/' := by
    rintro rfl
    cases hblank
  refine ⟨rfl, by simp [atTagEnd_cons, hslash], fun _ h => ?_⟩
  rw [List.dropWhile_cons_of_pos hblank] at h
  exact absurd (Option.some.inj (show some '/' = some '=' from h)) (by decide)

/-- A slash without a value is an attribute with its name as the value. -/
theorem readAttributes_slash (size start : Nat)
    (hbare : (b.dropWhile isTagBlank).head? ≠ some '=') :
    readAttributes size start (blank :: '/' :: ' ' :: b)
      = (readAttributes size start (blank :: b)).map fun others =>
          ((['/'], ['/']) :: others.1, others.2) := by
  have hgives : Gives (blank :: '/' :: ' ' :: b) [(['/'], ['/'])] (' ' :: b) :=
    .blank hblank (.bare (List.cons_ne_nil '/' []) (breakAt_slash b) hbare (.refl _))
  have hblanks : (' ' :: b).dropWhile isTagBlank = (blank :: b).dropWhile isTagBlank := by
    rw [List.dropWhile_cons_of_pos hblank, List.dropWhile_cons_of_pos rfl]
  rw [hgives.readAttributes_eq, readAttributes_congr hblanks]
  rfl

/-- In any case a slash is the name of an attribute. -/
theorem exists_slash {size start : Nat} {given : List (Text × Text)} {closes : Bool} {rest : Text}
    (h : readAttributes size start (blank :: '/' :: ' ' :: b) = .ok (given, closes, rest)) :
    ['/'] ∈ given.map Prod.fst := by
  have hstart : (blank :: '/' :: ' ' :: b).dropWhile isTagBlank
      = ('/' :: ' ' :: b).dropWhile isTagBlank := List.dropWhile_cons_of_pos hblank
  rw [readAttributes_congr hstart] at h
  obtain ⟨place, hgives, hend⟩ := exists_gives h
  have hname : ∀ {name t : Text}, '/' :: ' ' :: b = name ++ t →
      Text.breakAt endsName (name ++ t) = (name, t) → name = ['/'] := by
    intro name t hwhole hbreak
    rw [← hwhole] at hbreak
    exact (Prod.mk.inj (hbreak.symm.trans (breakAt_slash b))).1
  generalize hwhole : '/' :: ' ' :: b = t at hgives
  cases hgives with
  | refl =>
      -- the tag does not end at the slash
      subst hwhole
      cases closes with
      | false => cases hend
      | true => cases hend
  | blank hc _ =>
      cases hwhole
      cases hc
  | stray _ => cases hwhole
  | bare _ hbreak _ _ => simp [hname hwhole hbreak]
  | assigned _ hbreak _ _ _ => simp [hname hwhole hbreak]

end Token

namespace Node

open Token

/-- **A slash between attributes** is an attribute. With a slash and a blank in it, the markup
describes the same tree only if the tag has an attribute of that name anyway. Unless the slash is
assigned a value, which would be read from what follows, nothing changes but that the element gets
the attribute, at its place among those before and behind it. -/
theorem parse_stray_slash {a b : Text} (gap : TagGap a b) {root : Node}
    (h : parse (a ++ b) = .ok (some root)) :
    ∃ (others : List (Text × Text)) (empty : Bool) (later : List Token),
      Passes (a ++ b) (gap.row ++ .opening gap.tag (gap.first ++ others) empty :: later) [] ∧
      root.attributeRow = gap.row.filterMap Token.attributes? ++
        properties (gap.first ++ others) :: later.filterMap Token.attributes? ∧
      (parse (a ++ '/' :: ' ' :: b) = .ok (some root) →
        ['/'] ∈ (gap.first ++ others).map Prod.fst) ∧
      ((b.dropWhile isTagBlank).head? ≠ some '=' →
        ∃ other, parse (a ++ '/' :: ' ' :: b) = .ok (some other) ∧ other.bare = root.bare ∧
          other.attributeRow = gap.row.filterMap Token.attributes? ++
            properties (gap.first ++ (['/'], ['/']) :: others)
              :: later.filterMap Token.attributes? ∧
          (other = root ↔ properties (gap.first ++ (['/'], ['/']) :: others)
            = properties (gap.first ++ others))) := by
  have hslashed := alike_slash gap.isBlank b
  have hattributes : ∀ (given : List (Text × Text)) (empty : Bool) (later : List Token),
      (gap.row ++ .opening gap.tag given empty :: later).filterMap Token.attributes?
        = gap.row.filterMap Token.attributes? ++
          properties given :: later.filterMap Token.attributes? := by
    intro given empty later
    rw [List.filterMap_append, List.filterMap_cons]
    rfl
  obtain ⟨row, hrow⟩ := exists_passes h
  obtain ⟨others, closes, after, later, hothers, hlater, rfl⟩ := gap.passes_iff.mp hrow
  have hroot := parse_attributeRow hrow h
  rw [hattributes] at hroot
  refine ⟨others, closes || isVoid gap.tag, later, hrow, hroot, fun hnew => ?_, fun hbare => ?_⟩
  · -- the row of attributes is the same, so the tag keeps the same attributes, a slash among them
    obtain ⟨row', hrow'⟩ := exists_passes hnew
    obtain ⟨given, closes', after', later', hgiven, -, rfl⟩ :=
      (gap.passes_replaced_iff hslashed).mp hrow'
    have hsame := hroot.symm.trans (parse_attributeRow hrow' hnew)
    rw [hattributes] at hsame
    have hproperties := (List.cons.inj (List.append_cancel_left hsame)).1
    rw [← slash_mem_properties_iff, hproperties, slash_mem_properties_iff, List.map_append]
    exact List.mem_append_right _ (exists_slash gap.isBlank b hgiven)
  · have hgiven : readAttributes 0 0 (gap.blank :: '/' :: ' ' :: b)
        = .ok ((['/'], ['/']) :: others, closes, after) := by
      rw [readAttributes_slash gap.isBlank b 0 0 hbare, hothers]
      rfl
    have hrow' := (gap.passes_replaced_iff hslashed).mpr
      ⟨_, closes, after, later, hgiven, hlater, rfl⟩
    obtain ⟨other, hother, hshape⟩ := parse_bare hrow hrow'
      (by rw [List.map_append, List.map_append, List.map_cons, List.map_cons]; rfl) h
    have hrows := parse_attributeRow hrow' hother
    rw [hattributes] at hrows
    refine ⟨other, hother, hshape, hrows, ?_⟩
    rw [eq_iff_of_bare hshape, hrows, hroot, List.append_cancel_left_eq, List.cons.injEq]
    exact and_iff_left rfl

/-- Behind a name without a value, in an element inside of another one. -/
theorem parse_stray_slash_inner :
    let a := "<p>x<b y='>' z ".toList
    let b := "w></b></p>".toList
    ∃ root other, parse (a ++ b) = .ok (some root) ∧
      parse (a ++ '/' :: ' ' :: b) = .ok (some other) ∧ other.bare = root.bare ∧
      root.attributeRow = [[], [("y".toList, ">".toList), ("z".toList, "z".toList),
        ("w".toList, "w".toList)]] ∧
      other.attributeRow = [[], [("y".toList, ">".toList), ("z".toList, "z".toList),
        ("/".toList, "/".toList), ("w".toList, "w".toList)]] := by
  intro a b
  have hopening : Token.read 0 "<p>x<b y='>' z w></b></p>".toList
      = .ok (.opening "p".toList [] false, "x<b y='>' z w></b></p>".toList) := by
    decide +kernel
  have htext : Token.read 0 "x<b y='>' z w></b></p>".toList
      = .ok (.text "x".toList, "<b y='>' z w></b></p>".toList) := rfl
  have hbare : Gives ("z".toList ++ ' ' :: b) [("z".toList, "z".toList)] (' ' :: b) :=
    .bare (by decide) (by decide) (by decide) (.refl _)
  have hquoted : Gives ("y".toList ++ ("='>' z".toList ++ ' ' :: b))
      [("y".toList, ">".toList), ("z".toList, "z".toList)] (' ' :: b) :=
    .assigned (by decide) (by decide) rfl rfl (.blank rfl hbare)
  let gap : TagGap a b :=
    { row := [.opening "p".toList [] false, .text "x".toList]
      tag := "b".toList
      inside := " y='>' z".toList
      first := [("y".toList, ">".toList), ("z".toList, "z".toList)]
      blank := ' '
      isTag := by decide
      isBlank := rfl
      stops := by decide
      reads := .token (by decide) hopening (.token (by decide) htext (.refl _))
      gives := .blank rfl hquoted }
  have hplain : (parse (a ++ b)).toOption.join.map attributeRow
      = some [[], [("y".toList, ">".toList), ("z".toList, "z".toList),
          ("w".toList, "w".toList)]] := by
    decide +kernel
  have hslash : (parse (a ++ '/' :: ' ' :: b)).toOption.join.map attributeRow
      = some [[], [("y".toList, ">".toList), ("z".toList, "z".toList), ("/".toList, "/".toList),
          ("w".toList, "w".toList)]] := by
    decide +kernel
  obtain ⟨root, hroot, hrow⟩ := exists_parse_of_attributeRow hplain
  obtain ⟨other, hother, hrow'⟩ := exists_parse_of_attributeRow hslash
  obtain ⟨_, _, _, -, -, -, hsame⟩ := parse_stray_slash gap hroot
  obtain ⟨other', hother', hshape, -, -⟩ := hsame (by decide)
  cases hother.symm.trans hother'
  exact ⟨root, other, hroot, hother, hshape, hrow, hrow'⟩

/-- A slash alone in a tag does not leave the tree as it is. -/
theorem stray_slash_changes_tree :
    ¬∀ (a b : Text) (_ : TagGap a b) (root : Node), parse (a ++ b) = .ok (some root) →
      parse (a ++ '/' :: ' ' :: b) = .ok (some root) := by
  intro hall
  let gap : TagGap "<p ".toList "></p>".toList :=
    { row := [], tag := "p".toList, inside := [], first := [], blank := ' '
      isTag := by decide
      isBlank := rfl
      stops := by decide
      reads := .refl _
      gives := .refl _ }
  have hplain : (parse ("<p ".toList ++ "></p>".toList)).toOption.join.map attributeRow
      = some [[]] := by
    decide +kernel
  have hslash :
      (parse ("<p ".toList ++ '/' :: ' ' :: "></p>".toList)).toOption.join.map attributeRow
        = some [[("/".toList, "/".toList)]] := by
    decide +kernel
  obtain ⟨root, hroot, hrow⟩ := exists_parse_of_attributeRow hplain
  obtain ⟨other, hother, hrow'⟩ := exists_parse_of_attributeRow hslash
  cases hother.symm.trans (hall _ _ gap root hroot)
  cases hrow.symm.trans hrow'

end Node

end Hypertext

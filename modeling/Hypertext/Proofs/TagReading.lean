import Hypertext.Proofs.Printing
import Mathlib.Data.List.DropRight

set_option autoImplicit false

/-! # Reading up to a place

What is read up to a place in markup does not depend on what follows there.

* `Token.Gives t given rest`: the attributes that are read from `t` before `rest` is reached. The
  readers look ahead, so `rest` can be replaced by a text that looks the same to them
  (`Token.Alike`, `Token.Gives.replace`).
* `Token.Passes t row rest`: the tokens that are read from `t` before `rest` is reached. If a tag
  begins there, any other text that begins with a tag can stand in its place
  (`Token.Passes.replace`).
-/

namespace Hypertext

/-- A break stays where it is when what follows it is replaced, if the condition cannot tell the
difference. -/
theorem Text.breakAt_replace {stop : Text → Bool} {before after after' : Text}
    (hnil : after' = [] ↔ after = []) (hstop : ∀ s, stop (s ++ after') = stop (s ++ after))
    (h : breakAt stop (before ++ after) = (before, after)) :
    breakAt stop (before ++ after') = (before, after') := by
  induction before with
  | nil =>
      have hsame := hstop []
      rw [List.nil_append, List.nil_append] at hsame
      rw [List.nil_append] at h ⊢
      cases after with
      | nil => rw [hnil.mpr rfl, breakAt]
      | cons c u =>
          obtain ⟨d, v, rfl⟩ := List.exists_cons_of_ne_nil (mt hnil.mp (List.cons_ne_nil c u))
          have hends : stop (c :: u) = true := by
            by_contra hgoes
            rw [breakAt, if_neg hgoes] at h
            cases h
          rw [breakAt, if_pos (hsame.trans hends)]
  | cons c before ih =>
      have hsame := hstop (c :: before)
      rw [List.cons_append, List.cons_append] at hsame
      rw [List.cons_append, breakAt] at h ⊢
      split at h
      · cases h
      next hgoes =>
      obtain ⟨hfirst, hsecond⟩ := Prod.mk.inj h
      rw [if_neg (hsame ▸ hgoes), ih (Prod.ext (List.cons.inj hfirst).2 hsecond)]

namespace Token

/-! ## Texts that look the same to the readers -/

/-- The reader of attributes cannot tell two texts apart by looking ahead: they begin with the same
character, a tag ends at both or at neither, and a name without a value has none before the other
text either. -/
structure Alike (t t' : Text) : Prop where
  head : t'.head? = t.head?
  tagEnd : atTagEnd t' = atTagEnd t
  bare : (t.dropWhile isTagBlank).head? ≠ some '=' → (t'.dropWhile isTagBlank).head? ≠ some '='

theorem atTagEnd_cons (c : Char) (t : Text) :
    atTagEnd (c :: t) = (c == '>' || c == '/' && t.head? == some '>') := by
  unfold atTagEnd
  split
  · next h => cases h; rfl
  · next h => cases h; rfl
  · next hclose hempty =>
      have hc : c ≠ '>' := fun h => hclose t (by rw [h])
      have hslash : ¬(c = '/' ∧ t.head? = some '>') := by
        rintro ⟨rfl, hhead⟩
        obtain ⟨u, rfl⟩ := List.head?_eq_some_iff.mp hhead
        exact hempty u rfl
      simpa [hc] using hslash

namespace Alike

variable {t t' : Text}

theorem cons (c : Char) (h : Alike t t') : Alike (c :: t) (c :: t') := by
  refine ⟨rfl, by rw [atTagEnd_cons, atTagEnd_cons, h.head], ?_⟩
  by_cases hc : isTagBlank c = true
  · rw [List.dropWhile_cons_of_pos hc, List.dropWhile_cons_of_pos hc]
    exact h.bare
  · rw [List.dropWhile_cons_of_neg hc, List.dropWhile_cons_of_neg hc]
    exact id

theorem append (s : Text) (h : Alike t t') : Alike (s ++ t) (s ++ t') := by
  induction s with
  | nil => exact h
  | cons c s ih => exact ih.cons c

theorem nil_iff (h : Alike t t') : t' = [] ↔ t = [] := by
  rw [← List.head?_eq_none_iff, h.head, List.head?_eq_none_iff]

theorem atBlank_eq (h : Alike t t') : atBlank t' = atBlank t := by
  have hhead : ∀ u, atBlank u = u.head?.any isTagBlank := by
    intro u
    cases u with
    | nil => rfl
    | cons c u => rfl
  rw [hhead, hhead, h.head]

theorem endsValue_eq (h : Alike t t') : endsValue t' = endsValue t := by
  rw [endsValue, endsValue, h.atBlank_eq, h.tagEnd]

theorem endsName_eq (h : Alike t t') : endsName t' = endsName t := by
  have hhead : ∀ u, Text.startsWith ['='] u = (u.head? == some '=') := by
    intro u
    cases u with
    | nil => rfl
    | cons c u =>
        by_cases hc : c = '='
        · subst hc
          rfl
        · simp [Text.startsWith, Text.after?, hc, Ne.symm hc]
  rw [endsName, endsName, hhead, hhead, h.head, h.endsValue_eq]

theorem breakAt_endsName {name : Text} (h : Alike t t')
    (hname : Text.breakAt endsName (name ++ t) = (name, t)) :
    Text.breakAt endsName (name ++ t') = (name, t') :=
  Text.breakAt_replace h.nil_iff (fun s => (h.append s).endsName_eq) hname

/-- The end of a tag looks the same, whatever follows it. -/
theorem tagEnds (rest rest' : Text) : Alike ('>' :: rest) ('>' :: rest') :=
  ⟨rfl, rfl, fun _ h => absurd (Option.some.inj (show some '>' = some '=' from h)) (by decide)⟩

end Alike

/-! ## Attributes -/

theorem readQuoted_eq_some {quote : Char} {body value rest : Text}
    (h : readQuoted quote body = some (value, rest)) :
    body = value ++ quote :: rest ∧ quote ∉ value := by
  have hhead := List.head?_dropWhile_not (· != quote) body
  have hwhole := List.takeWhile_append_dropWhile (p := (· != quote)) (l := body)
  unfold readQuoted at h
  split at h
  · cases h
  next c u hdrop =>
  cases h
  rw [hdrop] at hhead hwhole
  have hc : c = quote := by simpa using hhead
  subst hc
  refine ⟨hwhole.symm, fun hmem => ?_⟩
  simpa using List.mem_takeWhile_imp hmem

theorem readValue_unquoted {t : Text} (hdouble : t.head? ≠ some '"')
    (hsingle : t.head? ≠ some '\x27') : readValue t = some (Text.breakAt endsValue t) := by
  unfold readValue
  split
  · exact absurd rfl hdouble
  · exact absurd rfl hsingle
  · rfl

/-- A value is read in the same way before any text that looks the same. -/
theorem readValue_replace {t value rest : Text} (h : readValue t = some (value, rest)) :
    ∃ written, t = written ++ rest ∧
      ∀ rest', Alike rest rest' → readValue (written ++ rest') = some (value, rest') := by
  unfold readValue at h
  split at h
  · obtain ⟨rfl, hquote⟩ := readQuoted_eq_some h
    refine ⟨'"' :: (value ++ ['"']), by simp, fun rest' _ => ?_⟩
    rw [List.cons_append, List.append_assoc, readValue]
    exact readQuoted_append rest' hquote
  · obtain ⟨rfl, hquote⟩ := readQuoted_eq_some h
    refine ⟨'\x27' :: (value ++ ['\x27']), by simp, fun rest' _ => ?_⟩
    rw [List.cons_append, List.append_assoc, readValue]
    exact readQuoted_append rest' hquote
  · next hdouble hsingle =>
      have hbreak : Text.breakAt endsValue t = (value, rest) := Option.some.inj h
      have hwhole := Text.breakAt_append endsValue t
      rw [hbreak] at hwhole
      subst hwhole
      refine ⟨value, rfl, fun rest' halike => ?_⟩
      have hmark : ∀ mark, (∀ body, value ++ rest = mark :: body → False) →
          (value ++ rest').head? ≠ some mark := by
        intro mark hno hhead
        rw [(halike.append value).head] at hhead
        obtain ⟨body, hbody⟩ := List.head?_eq_some_iff.mp hhead
        exact hno body hbody
      rw [readValue_unquoted (hmark '"' hdouble) (hmark '\x27' hsingle),
        Text.breakAt_replace halike.nil_iff (fun s => (halike.append s).endsValue_eq) hbreak]

/-- The text gives attributes, and then the reader stands before `rest`, between two attributes.
Behind a name without a value that is where the name ends, though the reader has looked for a `=`.
-/
inductive Gives : Text → List (Text × Text) → Text → Prop where
  | refl (t : Text) : Gives t [] t
  | blank {c : Char} {t rest : Text} {given : List (Text × Text)} (hc : isTagBlank c = true)
      (h : Gives t given rest) : Gives (c :: t) given rest
  | stray {t rest : Text} {given : List (Text × Text)} (h : Gives t given rest) :
      Gives ('=' :: t) given rest
  | bare {name t rest : Text} {given : List (Text × Text)} (hne : name ≠ [])
      (hname : Text.breakAt endsName (name ++ t) = (name, t))
      (hbare : (t.dropWhile isTagBlank).head? ≠ some '=') (h : Gives t given rest) :
      Gives (name ++ t) ((name, name) :: given) rest
  | assigned {name behind u value t rest : Text} {given : List (Text × Text)} (hne : name ≠ [])
      (hname : Text.breakAt endsName (name ++ behind) = (name, behind))
      (hequals : behind.dropWhile isTagBlank = '=' :: u)
      (hvalue : readValue (u.dropWhile isTagBlank) = some (value, t)) (h : Gives t given rest) :
      Gives (name ++ behind) ((name, value) :: given) rest

/-- A text that does not begin with a blank is found behind any blanks. -/
theorem dropWhile_blanks_append {blanks t : Text} (hblanks : ∀ c ∈ blanks, isTagBlank c = true)
    (ht : atBlank t = false) : (blanks ++ t).dropWhile isTagBlank = t := by
  rw [List.dropWhile_append_of_pos hblanks]
  cases t with
  | nil => rfl
  | cons c t => exact List.dropWhile_cons_of_neg (Bool.eq_false_iff.mp ht)

theorem atBlank_dropWhile (t : Text) : atBlank (t.dropWhile isTagBlank) = false := by
  cases hdrop : t.dropWhile isTagBlank with
  | nil => rfl
  | cons c u => exact isTagBlank_of_dropWhile hdrop

/-- Blanks in front of a text. -/
theorem exists_blanks (t : Text) : ∃ blanks, (∀ c ∈ blanks, isTagBlank c = true) ∧
    t = blanks ++ t.dropWhile isTagBlank :=
  ⟨t.takeWhile isTagBlank, fun _ => List.mem_takeWhile_imp, List.takeWhile_append_dropWhile.symm⟩

namespace Gives

variable {t rest : Text} {given : List (Text × Text)}

theorem blanks {s : Text} (hs : ∀ c ∈ s, isTagBlank c = true) (h : Gives t given rest) :
    Gives (s ++ t) given rest := by
  induction s with
  | nil => exact h
  | cons c s ih =>
      exact (ih fun d hd => hs d (List.mem_cons_of_mem c hd)).blank (hs c List.mem_cons_self)

theorem of_dropWhile (h : Gives (t.dropWhile isTagBlank) given rest) : Gives t given rest := by
  obtain ⟨s, hs, ht⟩ := exists_blanks t
  rw [ht]
  exact h.blanks hs

/-- **What follows can be replaced** by a text that looks the same. -/
theorem replace (h : Gives t given rest) :
    ∃ taken, t = taken ++ rest ∧
      ∀ rest', Alike rest rest' → Gives (taken ++ rest') given rest' := by
  induction h with
  | refl t => exact ⟨[], rfl, fun rest' _ => .refl rest'⟩
  | @blank c t rest given hc _ ih =>
      obtain ⟨taken, rfl, hgives⟩ := ih
      exact ⟨c :: taken, rfl, fun rest' halike => (hgives rest' halike).blank hc⟩
  | stray _ ih =>
      obtain ⟨taken, rfl, hgives⟩ := ih
      exact ⟨'=' :: taken, rfl, fun rest' halike => (hgives rest' halike).stray⟩
  | @bare name t rest given hne hname hbare _ ih =>
      obtain ⟨taken, rfl, hgives⟩ := ih
      refine ⟨name ++ taken, by rw [List.append_assoc], fun rest' halike => ?_⟩
      have hbehind := halike.append taken
      rw [List.append_assoc]
      exact (hgives rest' halike).bare hne (hbehind.breakAt_endsName hname) (hbehind.bare hbare)
  | @assigned name behind u value t rest given hne hname hequals hvalue _ ih =>
      obtain ⟨taken, rfl, hgives⟩ := ih
      obtain ⟨written, hwritten, hread⟩ := readValue_replace hvalue
      obtain ⟨s, hs, hbehind⟩ := exists_blanks behind
      obtain ⟨s', hs', hu⟩ := exists_blanks u
      rw [hequals] at hbehind
      rw [hwritten] at hu
      subst hu hbehind
      refine ⟨name ++ (s ++ '=' :: (s' ++ (written ++ taken))), by simp, fun rest' halike => ?_⟩
      have hwhole : name ++ (s ++ '=' :: (s' ++ (written ++ taken))) ++ rest'
          = name ++ (s ++ '=' :: (s' ++ (written ++ (taken ++ rest')))) := by simp
      have hafter := halike.append taken
      have hvalued : atBlank (written ++ (taken ++ rest')) = false := by
        rw [(hafter.append written).atBlank_eq, ← hwritten]
        exact atBlank_dropWhile _
      rw [hwhole]
      refine (hgives rest' halike).assigned hne ?_ (dropWhile_blanks_append hs rfl) ?_
      · exact ((((hafter.append written).append s').cons '=').append s).breakAt_endsName hname
      · rw [dropWhile_blanks_append hs' hvalued, hread _ hafter]

end Gives

/-- Blanks between attributes do not matter. -/
theorem readAttributes_congr {size start : Nat} {t t' : Text}
    (h : t.dropWhile isTagBlank = t'.dropWhile isTagBlank) :
    readAttributes size start t = readAttributes size start t' := by
  rw [readAttributes, readAttributes]
  dsimp only
  rw [h]

theorem readAttributes_stray (size start : Nat) (t : Text) :
    readAttributes size start ('=' :: t) = readAttributes size start t := by
  have hdrop : ('=' :: t).dropWhile isTagBlank = '=' :: t := rfl
  rw [readAttributes]
  split
  · next h => rw [hdrop] at h; cases h
  · next h => rw [hdrop] at h; cases h
  · next h => rw [hdrop] at h; cases h
  · next h => rw [hdrop] at h; cases h; rfl

theorem readAssigned_bare {name t : Text} (h : (t.dropWhile isTagBlank).head? ≠ some '=') :
    readAssigned name t = .ok (name, t.dropWhile isTagBlank) := by
  unfold readAssigned
  split
  · next hdrop =>
      rw [hdrop] at h
      exact absurd rfl h
  · rfl

/-- An attribute is read before those that follow it. -/
theorem readAttributes_named {size start : Nat} {name behind value rest : Text} (hne : name ≠ [])
    (hname : Text.breakAt endsName (name ++ behind) = (name, behind))
    (hvalue : readAssigned name behind = .ok (value, rest)) :
    readAttributes size start (name ++ behind) = (readAttributes size start rest).map fun others =>
      ((name, value) :: others.1, others.2) := by
  obtain ⟨c, name, rfl⟩ := List.exists_cons_of_ne_nil hne
  rw [List.cons_append, Text.breakAt] at hname
  split at hname
  · cases hname
  next hgoes =>
  have hgoes : endsName (c :: (name ++ behind)) = false := Bool.eq_false_iff.mpr hgoes
  obtain ⟨hfirst, hsecond⟩ := Prod.mk.inj hname
  obtain ⟨hblank, hequals, hend⟩ := of_endsName_eq_false hgoes
  have hslash : c = '/' → (name ++ behind).head? ≠ some '>' := by
    rintro rfl hhead
    simp [endsName, endsValue, atTagEnd_cons, hhead] at hgoes
  have hdrop : (c :: (name ++ behind)).dropWhile isTagBlank = c :: (name ++ behind) :=
    List.dropWhile_cons_of_neg (Bool.eq_false_iff.mp hblank)
  exact readAttributes_cons hdrop hend hslash hequals
    (Prod.ext (List.cons.inj hfirst).2 hsecond) hvalue

/-- What closes a tag, which may be empty. -/
def tagEnd (closes : Bool) : Text := if closes then ['/', '>'] else ['>']

theorem readAttributes_tagEnd {size start : Nat} {t rest : Text} {closes : Bool}
    (h : t.dropWhile isTagBlank = tagEnd closes ++ rest) :
    readAttributes size start t = .ok ([], closes, rest) := by
  cases closes with
  | false => exact readAttributes_close h
  | true =>
      have hdrop : t.dropWhile isTagBlank = '/' :: '>' :: rest := h
      rw [readAttributes]
      split
      · next h => rw [hdrop] at h; cases h
      · next h => rw [hdrop] at h; cases h
      · next h => rw [hdrop] at h; cases h; rfl
      · next hempty h => rw [hdrop] at h; cases h; exact (hempty rest rfl rfl).elim

/-- The attributes up to a place are read before those behind it. -/
theorem Gives.readAttributes_eq {t rest : Text} {given : List (Text × Text)} (size start : Nat)
    (h : Gives t given rest) :
    readAttributes size start t = (readAttributes size start rest).map fun others =>
      (given ++ others.1, others.2) := by
  induction h with
  | refl t =>
      cases readAttributes size start t with
      | error e => rfl
      | ok result => rfl
  | blank hc _ ih => rw [readAttributes_congr (List.dropWhile_cons_of_pos hc), ih]
  | stray _ ih => rw [readAttributes_stray, ih]
  | @bare name t rest given hne hname hbare _ ih =>
      have hbehind : readAttributes size start (t.dropWhile isTagBlank)
          = readAttributes size start t :=
        readAttributes_congr (List.dropWhile_idempotent isTagBlank t)
      rw [readAttributes_named hne hname (readAssigned_bare hbare), hbehind, ih]
      cases readAttributes size start rest with
      | error e => rfl
      | ok result => rfl
  | @assigned name behind u value t rest given hne hname hequals hvalue _ ih =>
      have hassigned : readAssigned name behind = .ok (value, t) := by
        unfold readAssigned
        rw [hequals]
        simp only [hvalue]
      rw [readAttributes_named hne hname hassigned, ih]
      cases readAttributes size start rest with
      | error e => rfl
      | ok result => rfl

/-- A name is read as far as it goes, from the first character that is no blank. -/
theorem breakAt_endsName_of_dropWhile {t u name behind : Text} {c : Char}
    (hdrop : t.dropWhile isTagBlank = c :: u) (hequals : c ≠ '=') (hend : c ≠ '>')
    (hempty : ∀ rest, c = '/' → u = '>' :: rest → False)
    (hbreak : Text.breakAt endsName u = (name, behind)) :
    Text.breakAt endsName (c :: name ++ behind) = (c :: name, behind) := by
  have hwhole := Text.breakAt_append endsName u
  rw [hbreak] at hwhole
  subst hwhole
  rw [List.cons_append, Text.breakAt,
    endsName_eq_false (isTagBlank_of_dropWhile hdrop) hequals hend hempty, hbreak]
  rfl

/-- An attribute is given before those that follow it. -/
theorem Gives.readAssigned {name behind value after rest : Text} {given : List (Text × Text)}
    (hne : name ≠ []) (hname : Text.breakAt endsName (name ++ behind) = (name, behind))
    (hassigned : readAssigned name behind = .ok (value, after)) (h : Gives after given rest) :
    Gives (name ++ behind) ((name, value) :: given) rest := by
  unfold Token.readAssigned at hassigned
  split at hassigned
  · next hequal =>
      split at hassigned
      · next hvalue =>
          cases hassigned
          exact h.assigned hne hname hequal hvalue
      · cases hassigned
  · next hbare =>
      cases hassigned
      refine (Gives.of_dropWhile h).bare hne hname fun hhead => ?_
      obtain ⟨u, hu⟩ := List.head?_eq_some_iff.mp hhead
      exact hbare u hu

/-- A tag gives attributes up to the place where it ends. -/
theorem exists_gives {size start : Nat} {t rest : Text} {given : List (Text × Text)} {closes : Bool}
    (h : readAttributes size start t = .ok (given, closes, rest)) :
    ∃ place, Gives t given place ∧ place.dropWhile isTagBlank = tagEnd closes ++ rest := by
  fun_induction readAttributes size start t generalizing given
  case case1 => cases h
  case case2 t _ hdrop =>
    cases h
    exact ⟨t, .refl t, hdrop⟩
  case case3 t _ hdrop =>
    cases h
    exact ⟨t, .refl t, hdrop⟩
  case case4 hdrop _ ih =>
    obtain ⟨place, hgives, hend⟩ := ih h
    refine ⟨place, .of_dropWhile ?_, hend⟩
    rw [hdrop]
    exact hgives.stray
  case case5 => cases h
  case case6 c u hend hempty hdrop _ _ hequals value after hassigned _ _ ih =>
    obtain ⟨⟨others, flag, last⟩, hothers, heq⟩ := map_eq_ok_iff.mp h
    cases heq
    obtain ⟨place, hgives, hplace⟩ := ih hothers
    have hname := breakAt_endsName_of_dropWhile hdrop hequals hend hempty rfl
    have hattribute := hgives.readAssigned (List.cons_ne_nil _ _) hname hassigned
    rw [List.cons_append, Text.breakAt_append, ← hdrop] at hattribute
    exact ⟨place, .of_dropWhile hattribute, hplace⟩

/-- **The attributes of a tag** do not depend on what follows the tag. -/
theorem readAttributes_replace {size start : Nat} {t rest : Text} {given : List (Text × Text)}
    {closes : Bool} (h : readAttributes size start t = .ok (given, closes, rest)) :
    ∃ taken, taken ≠ [] ∧ t = taken ++ rest ∧ ∀ size' start' rest',
      readAttributes size' start' (taken ++ rest') = .ok (given, closes, rest') := by
  obtain ⟨place, hgives, hend⟩ := exists_gives h
  obtain ⟨s, hs, hplace⟩ := exists_blanks place
  rw [hend] at hplace
  subst hplace
  obtain ⟨taken, rfl, hreplace⟩ := hgives.replace
  refine ⟨taken ++ (s ++ tagEnd closes), ?_, by simp, fun size' start' rest' => ?_⟩
  · cases closes <;> simp [tagEnd]
  · have hnext : Alike (tagEnd closes ++ rest) (tagEnd closes ++ rest') := by
      cases closes with
      | false => exact .tagEnds rest rest'
      | true => exact (Alike.tagEnds rest rest').cons '/'
    have hstop : atBlank (tagEnd closes ++ rest') = false := by
      cases closes <;> rfl
    have htag := (hreplace _ (hnext.append s)).readAttributes_eq size' start'
    rw [readAttributes_tagEnd (dropWhile_blanks_append hs hstop)] at htag
    simpa [Except.map] using htag

/-! ## Tokens -/

theorem readComment_eq_ok {start : Nat} {body rest : Text} {token : Token}
    (h : readComment start body = .ok (token, rest)) :
    ∃ content, token = .comment content ∧ body = content ++ '-' :: '-' :: '>' :: rest := by
  have hwhole := Text.breakAt_append (Text.startsWith "-->".toList) body
  unfold readComment at h
  split at h
  · cases h
  next after hafter =>
  dsimp only at h
  split at h
  · cases h
  cases h
  rw [Text.after?_eq_some_iff.mp hafter] at hwhole
  exact ⟨_, rfl, hwhole.symm⟩

/-- **One token** does not depend on what follows it, except that a text ends only where a tag
begins. -/
theorem read_replace {size : Nat} {t rest : Text} {token : Token} (hne : t ≠ [])
    (h : read size t = .ok (token, rest)) :
    ∃ taken, t = taken ++ rest ∧ ∀ size' rest',
      (token.isText = true → rest' = [] ∨ rest'.head? = some '<') →
        read size' (taken ++ rest') = .ok (token, rest') := by
  have hform := (read_spec hne h).1
  unfold read at h
  dsimp only at h
  split at h
  · obtain ⟨content, rfl, rfl⟩ := readComment_eq_ok h
    refine ⟨"<!--".toList ++ (content ++ "-->".toList), by simp, fun size' rest' _ => ?_⟩
    have hcomment := read_comment size' rest' hform.1 hform.2
    simpa using hcomment
  · next u =>
      unfold readClosing at h
      split at h
      · next hdrop =>
          cases h
          have hname := List.takeWhile_append_dropWhile (p := isTagNameChar) (l := u)
          obtain ⟨s, hs, hbehind⟩ := exists_blanks (u.dropWhile isTagNameChar)
          rw [hdrop] at hbehind
          rw [hbehind] at hname
          refine ⟨'<' :: '/' :: (u.takeWhile isTagNameChar ++ (s ++ ['>'])), ?_, ?_⟩
          · simpa using hname.symm
          · intro size' rest' _
            have hchars : ∀ c ∈ u.takeWhile isTagNameChar, isTagNameChar c = true :=
              fun _ => List.mem_takeWhile_imp
            have hclosing := read_closing size' rest' hchars hs
            simpa using hclosing
      · cases h
  · next u hcomment _ =>
      unfold readOpening at h
      dsimp only at h
      split at h
      · cases h
      split at h
      · cases h
      split at h
      · cases h
      next given closes after hattributes =>
      cases h
      obtain ⟨taken, hne, hbehind, hreplace⟩ := readAttributes_replace hattributes
      have hname := List.takeWhile_append_dropWhile (p := isTagNameChar) (l := u)
      rw [hbehind] at hname
      refine ⟨'<' :: (u.takeWhile isTagNameChar ++ taken), ?_, fun size' rest' _ => ?_⟩
      · simpa using hname.symm
      · have hstop : (taken ++ rest').head?.any isTagNameChar = false := by
          obtain ⟨c, taken, rfl⟩ := List.exists_cons_of_ne_nil hne
          have hhead := List.head?_dropWhile_not isTagNameChar u
          rw [hbehind] at hhead
          exact hhead
        rw [List.cons_append, List.append_assoc, read_tag size' hform.1 hstop, hreplace]
        rfl
  · cases h
    refine ⟨t.takeWhile (· != '<'), List.takeWhile_append_dropWhile.symm,
      fun size' rest' hrest => ?_⟩
    exact read_text size' hform.1 hform.2 (hrest rfl)

/-- What is read does not depend on the size of the input, which only serves for errors. -/
theorem read_size {size : Nat} {t rest : Text} {token : Token} (hne : t ≠ [])
    (h : read size t = .ok (token, rest)) (size' : Nat) : read size' t = .ok (token, rest) := by
  obtain ⟨taken, rfl, hreplace⟩ := read_replace hne h
  exact hreplace size' rest (read_spec hne h).2.2

/-- Tokens are read, and then the reader stands before `rest`. -/
inductive Passes : Text → List Token → Text → Prop where
  | refl (t : Text) : Passes t [] t
  | token {size : Nat} {t after rest : Text} {token : Token} {row : List Token} (hne : t ≠ [])
      (hread : read size t = .ok (token, after)) (h : Passes after row rest) :
      Passes t (token :: row) rest

namespace Passes

variable {t rest : Text} {row : List Token}

theorem append {last : Text} {row' : List Token} (h : Passes t row rest)
    (h' : Passes rest row' last) : Passes t (row ++ row') last := by
  induction h with
  | refl t => exact h'
  | token hne hread _ ih => exact (ih h').token hne hread

/-- **What follows can be replaced**, where a tag begins. -/
theorem replace (h : Passes t row rest) (hrest : rest.head? = some '<') :
    ∃ taken, t = taken ++ rest ∧ ∀ rest', rest'.head? = some '<' →
      Passes (taken ++ rest') row rest' := by
  induction h with
  | refl t => exact ⟨[], rfl, fun rest' _ => .refl rest'⟩
  | @token size t after rest token row hne hread _ ih =>
      obtain ⟨taken, rfl, hpasses⟩ := ih hrest
      obtain ⟨first, rfl, hreplace⟩ := read_replace hne hread
      refine ⟨first ++ taken, by rw [List.append_assoc], fun rest' hrest' => ?_⟩
      have hnext : (taken ++ rest').head? = (taken ++ rest).head? := by
        rw [List.head?_append, List.head?_append, hrest, hrest']
      have hread' := hreplace size (taken ++ rest') fun htext => by
        rw [hnext]
        right
        refine ((read_spec hne hread).2.2 htext).resolve_left fun hnil => ?_
        rw [(List.append_eq_nil_iff.mp hnil).2] at hrest
        cases hrest
      have hne' : first ++ (taken ++ rest') ≠ [] := by
        intro hnil
        rw [List.append_eq_nil_iff, List.append_eq_nil_iff] at hnil
        rw [hnil.2.2] at hrest'
        cases hrest'
      rw [List.append_assoc]
      exact (hpasses rest' hrest').token hne' hread'

theorem reads (size : Nat) (h : Passes t row rest) : Reads size t row rest := by
  induction h with
  | refl t => exact .nil size t
  | token hne hread _ ih => exact (reads_of_read hne (read_size hne hread size)).append ih

end Passes

theorem readAll_nil (size : Nat) : readAll size [] = ([], none) := by
  rw [readAll]
  rfl

/-- **All tokens** of markup without an error are read up to its end. -/
theorem passes_nil_iff (size : Nat) {t : Text} {row : List Token} :
    Passes t row [] ↔ (readAll size t).1.map Prod.snd = row ∧ (readAll size t).2 = none := by
  constructor
  · intro h
    have hreads := h.reads size
    have htokens := hreads.tokens
    rw [readAll_nil, List.map_nil, List.append_nil] at htokens
    exact ⟨htokens, hreads.error.trans (by rw [readAll_nil])⟩
  · rintro ⟨rfl, h⟩
    fun_induction readAll size t with
    | case1 t hempty =>
        rw [List.isEmpty_iff.mp hempty]
        exact .refl []
    | case2 => cases h
    | case3 t hempty token rest hread _ ih => exact (ih h).token (by simpa using hempty) hread
    | case4 t hempty token rest hread hlonger =>
        exact absurd (read_length (by simpa using hempty) hread) hlonger

end Token

end Hypertext

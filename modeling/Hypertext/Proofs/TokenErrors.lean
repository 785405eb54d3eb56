import Hypertext.Proofs.TagReading

set_option autoImplicit false

/-! # Tokens that cannot be read

A token of markup stands where its offset says, behind the tokens before it (`Token.exists_place`),
and how it is written there can be told from it (`Token.read_spelled`). The first token that cannot
be read stands behind all others (`Token.readAll_fails`). For each reader this file says what it
refuses: a comment or a tag that does not end, a value that does not, a tag without a name, and a
placeholder in a name or comment.
-/

namespace Hypertext
namespace Token

/-! ## What the readers refuse -/

/-- A tag name as far as it goes: what follows it cannot be part of it. -/
def IsWholeName (name rest : Text) : Prop :=
  (∀ c ∈ name, isTagNameChar c = true) ∧ rest.head?.any isTagNameChar = false

/-- The attributes of a tag are read up to a name, an equals sign and a quoted value, which begins
with `value` and never ends. -/
inductive OpensValue (t : Text) : Text → Prop where
  | intro {name blanks blanks' body : Text} {given : List (Text × Text)} {quote : Char}
      (hgives : Gives t given (name ++ (blanks ++ '=' :: (blanks' ++ quote :: body))))
      (hname : IsGivenName name) (hblanks : ∀ c ∈ blanks, isTagBlank c = true)
      (hblanks' : ∀ c ∈ blanks', isTagBlank c = true) (hquote : quote = '"' ∨ quote = '\x27')
      (hopen : quote ∉ body) : OpensValue t (quote :: body)

theorem isWholeName_takeWhile (t : Text) :
    IsWholeName (t.takeWhile isTagNameChar) (t.dropWhile isTagNameChar) := by
  refine ⟨fun _ => List.mem_takeWhile_imp, ?_⟩
  have hhead := List.head?_dropWhile_not isTagNameChar t
  cases hdrop : t.dropWhile isTagNameChar with
  | nil => rfl
  | cons c u =>
      rw [hdrop] at hhead
      exact hhead

/-- Only a quote can begin a value that cannot be read, and it does not occur again. -/
theorem readValue_eq_none {t : Text} (h : readValue t = none) :
    ∃ quote body, t = quote :: body ∧ (quote = '"' ∨ quote = '\x27') ∧ quote ∉ body := by
  have hquoted : ∀ {quote : Char} {body : Text}, readQuoted quote body = none → quote ∉ body := by
    intro quote body hnone hmem
    unfold readQuoted at hnone
    split at hnone
    · next hdrop =>
        have hall := List.dropWhile_eq_nil_iff.mp hdrop quote hmem
        simp at hall
    · cases hnone
  unfold readValue at h
  split at h
  · next body => exact ⟨'"', body, rfl, .inl rfl, hquoted h⟩
  · next body => exact ⟨'\x27', body, rfl, .inr rfl, hquoted h⟩
  · cases h

/-- Reading the attributes of a tag that begins at `start` ends with an error, since the markup ends
in the tag or in a value. -/
def AttributeFault (size start : Nat) (e : TemplateError) (t : Text) : Prop :=
  (e = .unterminated .tag start ∧
    ∃ given blanks, Gives t given blanks ∧ ∀ c ∈ blanks, isTagBlank c = true) ∨
  ∃ value, e = .unterminated .attributeValue (size - Text.byteSize value) ∧ OpensValue t value

/-- A fault is found behind attributes, too. -/
theorem AttributeFault.behind {size start : Nat} {e : TemplateError} {t after : Text}
    (h : AttributeFault size start e after)
    (hgives : ∀ {given rest}, Gives after given rest → ∃ more, Gives t more rest) :
    AttributeFault size start e t := by
  rcases h with ⟨he, given, blanks, hafter, hblanks⟩ | ⟨value, he, hvalue⟩
  · obtain ⟨more, hmore⟩ := hgives hafter
    exact .inl ⟨he, more, blanks, hmore, hblanks⟩
  · obtain ⟨hafter, hname, hblanks, hblanks', hquote, hopen⟩ := hvalue
    obtain ⟨more, hmore⟩ := hgives hafter
    exact .inr ⟨_, he, .intro hmore hname hblanks hblanks' hquote hopen⟩

/-- The value behind a name cannot be read if it begins with a quote that is never closed. -/
theorem opensValue_of_readAssigned {name behind unclosed : Text} (hname : IsGivenName name)
    (h : readAssigned name behind = .error unclosed) :
    OpensValue (name ++ behind) unclosed := by
  unfold readAssigned at h
  split at h
  · next u hequals =>
      split at h
      · cases h
      next hvalue =>
      obtain ⟨quote, body, hbody, hquote, hopen⟩ := readValue_eq_none hvalue
      obtain ⟨blanks, hblanks, hbehind⟩ := exists_blanks behind
      obtain ⟨blanks', hblanks', hu⟩ := exists_blanks u
      cases h
      rw [hbody] at hu ⊢
      rw [hequals, hu] at hbehind
      rw [hbehind]
      exact .intro (.refl _) hname hblanks hblanks' hquote hopen
  · cases h

theorem OpensValue.split {t value : Text} (h : OpensValue t value) :
    ∃ quote body inside, value = quote :: body ∧ t = inside ++ value ∧
      (quote = '"' ∨ quote = '\x27') ∧ quote ∉ body := by
  cases h with
  | @intro name blanks blanks' body _ quote hgives _ _ _ hquote hopen =>
      obtain ⟨taken, rfl, -⟩ := hgives.replace
      exact ⟨quote, body, taken ++ (name ++ (blanks ++ '=' :: blanks')), rfl, by simp, hquote,
        hopen⟩

/-- **The attributes of a tag** cannot be read only if the markup ends in the tag or in a value. -/
theorem readAttributes_fault {size start : Nat} {t : Text} {e : TemplateError}
    (h : readAttributes size start t = .error e) : AttributeFault size start e t := by
  fun_induction readAttributes size start t
  case case1 t hdrop =>
    cases h
    exact .inl ⟨rfl, [], t, .refl t, List.dropWhile_eq_nil_iff.mp hdrop⟩
  case case2 | case3 => cases h
  case case4 hdrop _ ih =>
    -- an equals sign where a name should begin is passed over
    refine (ih h).behind fun {given rest} hafter => ⟨given, .of_dropWhile ?_⟩
    rw [hdrop]
    exact hafter.stray
  case case5 t c u hend hempty hdrop _ _ hequals unclosed hassigned =>
    cases h
    have hname := isGivenName_breakAt u (isTagBlank_of_dropWhile hdrop) hequals hend
    have hopens := opensValue_of_readAssigned hname hassigned
    rw [List.cons_append, Text.breakAt_append, ← hdrop] at hopens
    have hfault : AttributeFault size start _ (t.dropWhile isTagBlank) := .inr ⟨_, rfl, hopens⟩
    exact hfault.behind fun hafter => ⟨_, .of_dropWhile hafter⟩
  case case6 t c u hend hempty hdrop _ _ hequals value after hassigned _ _ ih =>
    -- the attribute is read, and the fault is behind it
    refine (ih (map_eq_error_iff.mp h)).behind fun hafter => ?_
    have hname := breakAt_endsName_of_dropWhile hdrop hequals hend hempty rfl
    have hattribute := hafter.readAssigned (List.cons_ne_nil _ _) hname hassigned
    rw [List.cons_append, Text.breakAt_append, ← hdrop] at hattribute
    exact ⟨_, .of_dropWhile hattribute⟩

theorem readComment_fault {start : Nat} {body : Text} {e : TemplateError}
    (h : readComment start body = .error e) :
    (e = .unterminated .comment start ∧ Text.includes "-->".toList body = false) ∨
      (e = .placeholderInComment start ∧ ∃ content rest,
        body = content ++ ("-->".toList ++ rest) ∧ Text.includes "-->".toList content = false ∧
        Placeholder.contained content = true) := by
  have hwhole := Text.breakAt_append (Text.startsWith "-->".toList) body
  have hfirst := Text.includes_breakAt '-' ['-', '>'] body
  unfold readComment at h
  split at h
  · next hnone =>
      cases h
      refine .inl ⟨rfl, ?_⟩
      -- the end of the comment would have been found
      rcases Text.breakAt_stop (Text.startsWith "-->".toList) body with hnil | hstarts
      · rw [hnil, List.append_nil] at hwhole
        rw [← hwhole]
        exact hfirst
      · rw [Text.startsWith, hnone] at hstarts
        cases hstarts
  · next rest hafter =>
      dsimp only at h
      split at h
      · next hcontained =>
          cases h
          rw [Text.after?_eq_some_iff.mp hafter] at hwhole
          exact .inr ⟨rfl, _, rest, hwhole.symm, hfirst, hcontained⟩
      · cases h

theorem readClosing_fault {start : Nat} {t : Text} {e : TemplateError}
    (h : readClosing start t = .error e) :
    e = .unterminated .closingTag start ∧ ∃ name blanks rest, t = name ++ (blanks ++ rest) ∧
      IsWholeName name (blanks ++ rest) ∧ (∀ c ∈ blanks, isTagBlank c = true) ∧
      atBlank rest = false ∧ rest.head? ≠ some '>' := by
  obtain ⟨blanks, hblanks, hbehind⟩ := exists_blanks (t.dropWhile isTagNameChar)
  have hname := isWholeName_takeWhile t
  have hwhole := List.takeWhile_append_dropWhile (p := isTagNameChar) (l := t)
  unfold readClosing at h
  split at h
  · cases h
  next hopen =>
  cases h
  rw [hbehind] at hname hwhole
  refine ⟨rfl, _, blanks, _, hwhole.symm, hname, hblanks, atBlank_dropWhile _, fun hhead => ?_⟩
  obtain ⟨rest, hrest⟩ := List.head?_eq_some_iff.mp hhead
  exact hopen rest hrest

theorem readOpening_fault {size start : Nat} {t : Text} {e : TemplateError}
    (hcomment : ∀ body, t ≠ '!' :: '-' :: '-' :: body) (h : readOpening size start t = .error e) :
    (e = .missingTagName start ∧ t.head?.any isTagNameChar = false) ∨
      ∃ tag inside, t = tag ++ inside ∧ IsWholeName tag inside ∧
        ((e = .dynamicTagName start ∧ Placeholder.contained tag = true) ∨
          (IsTagName tag ∧ AttributeFault size start e inside)) := by
  have hname := isWholeName_takeWhile t
  have hwhole := List.takeWhile_append_dropWhile (p := isTagNameChar) (l := t)
  unfold readOpening at h
  dsimp only at h
  split at h
  · next hempty =>
      cases h
      rw [List.isEmpty_iff.mp hempty, List.nil_append] at hwhole
      rw [hwhole] at hname
      exact .inl ⟨rfl, hname.2⟩
  next hnonempty =>
  refine .inr ⟨_, _, hwhole.symm, hname, ?_⟩
  split at h
  · next hcontained =>
      cases h
      exact .inl ⟨rfl, hcontained⟩
  next hstatic =>
  split at h
  · next hattributes =>
      cases h
      exact .inr ⟨isTagName_takeWhile hcomment (Bool.eq_false_iff.mpr hnonempty)
        (Bool.eq_false_iff.mpr hstatic), readAttributes_fault hattributes⟩
  · cases h

/-! ## Where tokens stand -/

/-- How a token is written in front of `rest`. -/
def Spelled (t rest : Text) : Token → Prop
  | .text content => t = content ++ rest
  | .comment content => t = "<!--".toList ++ (content ++ ("--".toList ++ '>' :: rest))
  | .opening tag _ _ => ∃ inside, t = '<' :: (tag ++ (inside ++ '>' :: rest)) ∧
      IsWholeName tag (inside ++ '>' :: rest)
  | .closing tag => ∃ blanks, t = '<' :: '/' :: (tag ++ (blanks ++ '>' :: rest)) ∧
      ∀ c ∈ blanks, isTagBlank c = true

theorem readAttributes_ends {size start : Nat} {t rest : Text} {given : List (Text × Text)}
    {closes : Bool} (h : readAttributes size start t = .ok (given, closes, rest)) :
    ∃ inside, t = inside ++ '>' :: rest := by
  obtain ⟨place, hgives, hend⟩ := exists_gives h
  obtain ⟨blanks, -, hplace⟩ := exists_blanks place
  obtain ⟨taken, rfl, -⟩ := hgives.replace
  rw [hplace, hend]
  cases closes with
  | false => exact ⟨taken ++ blanks, by simp [tagEnd]⟩
  | true => exact ⟨taken ++ (blanks ++ ['/']), by simp [tagEnd]⟩

theorem read_spelled {size : Nat} {t rest : Text} {token : Token}
    (h : read size t = .ok (token, rest)) : token.Spelled t rest := by
  unfold read at h
  dsimp only at h
  split at h
  · obtain ⟨content, rfl, rfl⟩ := readComment_eq_ok h
    rfl
  · next u =>
      unfold readClosing at h
      split at h
      · next hdrop =>
          cases h
          have hwhole := List.takeWhile_append_dropWhile (p := isTagNameChar) (l := u)
          obtain ⟨blanks, hblanks, hbehind⟩ := exists_blanks (u.dropWhile isTagNameChar)
          rw [hbehind, hdrop] at hwhole
          exact ⟨blanks, by rw [hwhole], hblanks⟩
      · cases h
  · next u _ _ =>
      unfold readOpening at h
      dsimp only at h
      split at h
      · cases h
      split at h
      · cases h
      split at h
      · cases h
      next hattributes =>
      cases h
      have hwhole := List.takeWhile_append_dropWhile (p := isTagNameChar) (l := u)
      have hname := isWholeName_takeWhile u
      obtain ⟨inside, hinside⟩ := readAttributes_ends hattributes
      rw [hinside] at hwhole hname
      exact ⟨inside, by rw [hwhole], hname⟩
  · cases h
    exact List.takeWhile_append_dropWhile.symm

/-- Every token but a text ends with a `>`. -/
theorem Spelled.ends {t rest : Text} {token : Token} (h : token.Spelled t rest)
    (htext : token.isText = false) : ∃ taken, t = taken ++ '>' :: rest := by
  cases token with
  | text content => cases htext
  | comment content =>
      rw [Spelled] at h
      exact ⟨"<!--".toList ++ (content ++ "--".toList), by simpa using h⟩
  | opening tag given empty =>
      obtain ⟨inside, rfl, -⟩ := h
      exact ⟨'<' :: (tag ++ inside), by simp⟩
  | closing tag =>
      obtain ⟨blanks, rfl, -⟩ := h
      exact ⟨'<' :: '/' :: (tag ++ blanks), by simp⟩

/-- Where text begins, a tag or comment has ended, unless it is the beginning of the markup. -/
theorem Passes.ends {t rest : Text} {row : List Token} (h : Passes t row rest) (hne : rest ≠ [])
    (hhead : rest.head? ≠ some '<') : t = rest ∨ ∃ taken, t = taken ++ '>' :: rest := by
  induction h with
  | refl t => exact .inl rfl
  | @token size t after rest token row htne hread hrest ih =>
      obtain ⟨taken, ht, -⟩ := read_replace htne hread
      rcases ih hne hhead with rfl | ⟨more, rfl⟩
      · refine .inr ((read_spelled hread).ends ?_)
        -- a text would go on up to the next tag
        by_contra htext
        rcases (read_spec htne hread).2.2 ((Bool.not_eq_false _).mp htext) with hnil | htag
        · exact hne hnil
        · exact hhead htag
      · exact .inr ⟨taken ++ more, by rw [ht, List.append_assoc]⟩

/-- **Every token** stands where its offset says, behind the tokens before it. -/
theorem readAll_split {size : Nat} {t : Text} {first later : List (Nat × Token)} {offset : Nat}
    {token : Token} (h : (readAll size t).1 = first ++ (offset, token) :: later) :
    ∃ taken after rest, t = taken ++ after ∧ after ≠ [] ∧ offset = size - Text.byteSize after ∧
      Passes t (first.map Prod.snd) after ∧ read size after = .ok (token, rest) ∧
      readAll size rest = (later, (readAll size t).2) := by
  fun_induction readAll size t generalizing first with
  | case1 | case2 | case4 => simp at h
  | case3 t hempty token' rest hread _ ih =>
      have hne : t ≠ [] := by simpa using hempty
      cases first with
      | nil =>
          cases h
          exact ⟨[], t, rest, rfl, hne, rfl, .refl t, hread, rfl⟩
      | cons head first =>
          obtain ⟨rfl, htail⟩ := List.cons.inj h
          obtain ⟨taken, after, rest', rfl, hafter, hoffset, hpasses, hread', hlater⟩ := ih htail
          obtain ⟨start, rfl, -⟩ := read_replace hne hread
          exact ⟨start ++ taken, after, rest', by rw [List.append_assoc], hafter, hoffset,
            hpasses.token hne hread, hread', hlater⟩

theorem exists_place {markup : Text} {first later : List (Nat × Token)} {offset : Nat}
    {token : Token}
    (h : (readAll (Text.byteSize markup) markup).1 = first ++ (offset, token) :: later) :
    ∃ before c after rest, markup = before ++ c :: after ∧ Text.byteSize before = offset ∧
      Passes markup (first.map Prod.snd) (c :: after) ∧
      read (Text.byteSize markup) (c :: after) = .ok (token, rest) ∧
      readAll (Text.byteSize markup) rest = (later, (readAll (Text.byteSize markup) markup).2) := by
  obtain ⟨before, t, rest, hmarkup, hne, hoffset, hpasses, hread, hlater⟩ := readAll_split h
  obtain ⟨c, after, rfl⟩ := List.exists_cons_of_ne_nil hne
  refine ⟨before, c, after, rest, hmarkup, ?_, hpasses, hread, hlater⟩
  have hsize := congrArg Text.byteSize hmarkup
  rw [Text.byteSize_append] at hsize
  omega

/-- The token that cannot be read stands behind all that can. -/
theorem readAll_fails {size : Nat} {t : Text} {e : TemplateError}
    (h : (readAll size t).2 = some e) :
    ∃ taken after, t = taken ++ after ∧ Passes t ((readAll size t).1.map Prod.snd) after ∧
      read size after = .error e := by
  fun_induction readAll size t with
  | case1 | case4 => cases h
  | case2 t _ _ hread =>
      cases h
      exact ⟨[], t, rfl, .refl t, hread⟩
  | case3 t hempty token rest hread _ ih =>
      have hne : t ≠ [] := by simpa using hempty
      obtain ⟨taken, after, rfl, hpasses, herror⟩ := ih h
      obtain ⟨start, rfl, -⟩ := read_replace hne hread
      exact ⟨start ++ taken, after, by rw [List.append_assoc], hpasses.token hne hread, herror⟩

end Token
end Hypertext

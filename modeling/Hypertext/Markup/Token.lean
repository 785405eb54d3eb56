import Hypertext.Markup.Error
import Hypertext.Markup.Node
import Hypertext.Placeholder
import Hypertext.Text.Blank

set_option autoImplicit false

/-! # Tokens of markup

Markup is read as a row of tokens: text, comments, opening tags with their attributes, and closing
tags. A token is read from the text that remains, so the offset of a place is the
size of the whole input less the size of what remains there. -/

namespace Hypertext

/-- A token of markup. An opening tag has its attributes as they are written, one after the other;
one that is `empty` has neither content nor closing tag. -/
inductive Token where
  | text (content : Text)
  | comment (content : Text)
  | opening (tag : Text) (given : List (Text × Text)) (empty : Bool)
  | closing (tag : Text)
  deriving DecidableEq, Repr

/-- Elements that never have children and need no closing tag. -/
def voidElements : List Text :=
  ["area", "base", "br", "col", "embed", "hr", "img", "input", "link", "meta", "param", "source",
    "track", "wbr"].map String.toList

/-- Whether a tag names a void element, in any mix of cases. -/
def isVoid (tag : Text) : Bool := voidElements.contains (tag.map Char.toLower)

namespace Token

/-! ## Characters of a tag -/

/-- The characters of a tag name. -/
def isTagNameChar (c : Char) : Bool := !(isTagBlank c || c == '>' || c == '/')

/-- Whether a tag ends here, by `>` or `/>`. -/
def atTagEnd : Text → Bool
  | '>' :: _ => true
  | '/' :: '>' :: _ => true
  | _ => false

/-- Whether a blank stands here. -/
def atBlank : Text → Bool
  | c :: _ => isTagBlank c
  | [] => false

/-- Whether an unquoted value ends here. -/
def endsValue (t : Text) : Bool := atBlank t || atTagEnd t

/-- Whether an attribute name ends here. -/
def endsName (t : Text) : Bool := Text.startsWith ['='] t || endsValue t

/-! ## Attributes -/

/-- The name under which an attribute is kept. -/
def propertyName (name : Text) : Text :=
  if name = "class".toList then "className".toList
  else if name = "for".toList then "htmlFor".toList
  else name

/-- The attributes of an element, from those that its tag gives. -/
def properties (given : List (Text × Text)) : Attributes :=
  .ofList (given.map fun pair => (propertyName pair.1, pair.2))

/-- The value that a quote begins, up to the same quote. -/
def readQuoted (quote : Char) (body : Text) : Option (Text × Text) :=
  match body.dropWhile (· != quote) with
  | [] => none
  | _ :: rest => some (body.takeWhile (· != quote), rest)

/-- The value of an attribute, quoted or up to the next blank or the end of the tag, and the text
after it. A quote that is never closed has no value. -/
def readValue : Text → Option (Text × Text)
  | '"' :: body => readQuoted '"' body
  | '\x27' :: body => readQuoted '\x27' body
  | t => some (Text.breakAt endsValue t)

/-- The value after an attribute name, or the name itself if no `=` follows. The error is the text
at the quote that is never closed. -/
def readAssigned (name t : Text) : Except Text (Text × Text) :=
  match t.dropWhile isTagBlank with
  | '=' :: rest =>
    match readValue (rest.dropWhile isTagBlank) with
    | some result => .ok result
    | none => .error (rest.dropWhile isTagBlank)
  | rest => .ok (name, rest)

theorem readQuoted_length {quote : Char} {body value rest : Text}
    (h : readQuoted quote body = some (value, rest)) : rest.length < body.length := by
  unfold readQuoted at h
  split at h
  · simp at h
  · next hdrop =>
    have hle := Text.dropWhile_length_le (· != quote) body
    rw [hdrop] at hle
    simp only [Option.some.injEq, Prod.mk.injEq] at h
    obtain ⟨-, rfl⟩ := h
    simp only [List.length_cons] at hle
    omega

theorem readValue_length {t value rest : Text} (h : readValue t = some (value, rest)) :
    rest.length ≤ t.length := by
  unfold readValue at h
  split at h
  · have := readQuoted_length h
    simp only [List.length_cons]
    omega
  · have := readQuoted_length h
    simp only [List.length_cons]
    omega
  · have hle := Text.breakAt_length_le endsValue t
    simp only [Option.some.injEq] at h
    rw [h] at hle
    exact hle

theorem readAssigned_length {name t value rest : Text}
    (h : readAssigned name t = .ok (value, rest)) : rest.length ≤ t.length := by
  unfold readAssigned at h
  have hle := Text.dropWhile_length_le isTagBlank t
  split at h
  · next tail hdrop =>
    rw [hdrop] at hle
    have htail := Text.dropWhile_length_le isTagBlank tail
    split at h
    · next result hvalue =>
      cases h
      have := readValue_length hvalue
      simp only [List.length_cons] at hle
      omega
    · cases h
  · cases h
    exact hle

/-- The attributes that a tag gives up to its end, whether it closes itself, and the text after it.
The tag begins at `start` in an input of `size` bytes. A lone `=` where a name should stand is
passed over. -/
def readAttributes (size start : Nat) (t : Text) :
    Except TemplateError (List (Text × Text) × Bool × Text) :=
  match ht : t.dropWhile isTagBlank with
  | [] => .error (.unterminated .tag start)
  | '>' :: rest => .ok ([], false, rest)
  | '/' :: '>' :: rest => .ok ([], true, rest)
  | c :: rest =>
    have := Text.dropWhile_length_le isTagBlank t
    have : rest.length < t.length := by
      simp only [ht, List.length_cons] at this
      omega
    if c = '=' then readAttributes size start rest
    else
      match hv : readAssigned (c :: (Text.breakAt endsName rest).1)
          (Text.breakAt endsName rest).2 with
      | .error unclosed => .error (.unterminated .attributeValue (size - Text.byteSize unclosed))
      | .ok (value, after) =>
        have := Text.breakAt_length_le endsName rest
        have := readAssigned_length hv
        (readAttributes size start after).map fun others =>
          ((c :: (Text.breakAt endsName rest).1, value) :: others.1, others.2)
termination_by t.length

theorem readAttributes_length {size start : Nat} {t rest : Text} {given : List (Text × Text)}
    {selfClosing : Bool} (h : readAttributes size start t = .ok (given, selfClosing, rest)) :
    rest.length < t.length := by
  fun_induction readAttributes size start t generalizing given
  case case1 => cases h
  case case2 t rest hdrop =>
    cases h
    have hle := Text.dropWhile_length_le isTagBlank t
    rw [hdrop, List.length_cons] at hle
    omega
  case case3 t rest hdrop =>
    cases h
    have hle := Text.dropWhile_length_le isTagBlank t
    rw [hdrop, List.length_cons, List.length_cons] at hle
    omega
  case case4 hshorter ih => exact Nat.lt_trans (ih h) hshorter
  case case5 => cases h
  case case6 u _ _ _ _ hshorter _ _ after _ hbreak hassigned ih =>
    cases hothers : readAttributes size start after with
    | error e =>
      rw [hothers] at h
      cases h
    | ok others =>
      obtain ⟨others, flag, last⟩ := others
      rw [hothers] at h
      cases h
      have hafter := ih hothers
      omega

/-! ## One token -/

/-- The comment whose body begins here, for a comment that begins at `start`. -/
def readComment (start : Nat) (body : Text) : Except TemplateError (Token × Text) :=
  match Text.after? "-->".toList (Text.breakAt (Text.startsWith "-->".toList) body).2 with
  | none => .error (.unterminated .comment start)
  | some rest =>
    let content := (Text.breakAt (Text.startsWith "-->".toList) body).1
    if Placeholder.contained content then .error (.placeholderInComment start)
    else .ok (.comment content, rest)

/-- The closing tag whose name begins here, for a tag that begins at `start`. -/
def readClosing (start : Nat) (t : Text) : Except TemplateError (Token × Text) :=
  match (t.dropWhile isTagNameChar).dropWhile isTagBlank with
  | '>' :: rest => .ok (.closing (t.takeWhile isTagNameChar), rest)
  | _ => .error (.unterminated .closingTag start)

/-- The opening tag whose name begins here, for a tag that begins at `start` in an input of `size`
bytes. -/
def readOpening (size start : Nat) (t : Text) : Except TemplateError (Token × Text) :=
  let tag := t.takeWhile isTagNameChar
  if tag.isEmpty then .error (.missingTagName start)
  else if Placeholder.contained tag then .error (.dynamicTagName start)
  else
    match readAttributes size start (t.dropWhile isTagNameChar) with
    | .error e => .error e
    | .ok (given, selfClosing, rest) => .ok (.opening tag given (selfClosing || isVoid tag), rest)

/-- The first token of a text that is not empty and that ends an input of `size` bytes. -/
def read (size : Nat) (t : Text) : Except TemplateError (Token × Text) :=
  let start := size - Text.byteSize t
  match t with
  | '<' :: '!' :: '-' :: '-' :: body => readComment start body
  | '<' :: '/' :: rest => readClosing start rest
  | '<' :: rest => readOpening size start rest
  | _ => .ok (.text (t.takeWhile (· != '<')), t.dropWhile (· != '<'))

theorem readOpening_length {size start : Nat} {t rest : Text} {token : Token}
    (h : readOpening size start t = .ok (token, rest)) : rest.length < t.length := by
  unfold readOpening at h
  dsimp only at h
  split at h
  · cases h
  · split at h
    · cases h
    · split at h
      · cases h
      · next hattributes =>
        cases h
        have hlt := readAttributes_length hattributes
        have hle := Text.dropWhile_length_le isTagNameChar t
        omega

/-- A token takes at least one character. -/
theorem read_length {size : Nat} {t rest : Text} {token : Token} (hne : t ≠ [])
    (h : read size t = .ok (token, rest)) : rest.length < t.length := by
  unfold read at h
  dsimp only at h
  split at h
  · next body =>
    unfold readComment at h
    split at h
    · cases h
    · next hafter =>
      dsimp only at h
      split at h
      · cases h
      · cases h
        have hle := Text.breakAt_length_le (Text.startsWith "-->".toList) body
        rw [Text.after?_eq_some_iff.mp hafter, List.length_append] at hle
        simp only [List.length_cons]
        omega
  · next u =>
    unfold readClosing at h
    split at h
    · next hdrop =>
      cases h
      have hname := Text.dropWhile_length_le isTagNameChar u
      have hblank := Text.dropWhile_length_le isTagBlank (u.dropWhile isTagNameChar)
      rw [hdrop] at hblank
      simp only [List.length_cons] at hblank ⊢
      omega
    · cases h
  · have hlt := readOpening_length h
    simp only [List.length_cons]
    omega
  · next htext =>
    cases h
    cases t with
    | nil => exact absurd rfl hne
    | cons c u =>
      have hc : (c != '<') = true := by
        rw [bne_iff_ne]
        rintro rfl
        exact htext u rfl
      have hle := Text.dropWhile_length_le (· != '<') u
      simp only [List.dropWhile_cons, hc, if_true, List.length_cons]
      omega

/-- The tokens of a text that ends an input of `size` bytes, each with its offset, up to the first
error. A token always takes some text (`read_length`), so the last branch is never taken. -/
def readAll (size : Nat) (t : Text) : List (Nat × Token) × Option TemplateError :=
  if t.isEmpty then ([], none)
  else
    match read size t with
    | .error e => ([], some e)
    | .ok (token, rest) =>
      if rest.length < t.length then
        ((size - Text.byteSize t, token) :: (readAll size rest).1, (readAll size rest).2)
      else ([], none)
termination_by t.length

theorem readAll_of_read {size : Nat} {t rest : Text} {token : Token} (hne : t ≠ [])
    (h : read size t = .ok (token, rest)) :
    readAll size t
      = ((size - Text.byteSize t, token) :: (readAll size rest).1, (readAll size rest).2) := by
  have hnonempty : t.isEmpty = false := by simpa using hne
  rw [readAll, hnonempty, h]
  simp [read_length hne h]

end Token
end Hypertext

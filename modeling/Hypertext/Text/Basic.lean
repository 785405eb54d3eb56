set_option autoImplicit false

/-! # Text

Markup, scripts and generated code are all handled as lists of characters. Positions in
them are byte offsets of their UTF-8 form, so the byte size of a piece of text and the cut after a
number of bytes stand here, next to the few ways of taking text apart that everything
else is built from. -/

namespace Hypertext

/-- Text as its list of characters. -/
abbrev Text := List Char

namespace Text

/-! ## Size in bytes -/

/-- The number of bytes of a text in UTF-8. -/
def byteSize : Text → Nat
  | [] => 0
  | c :: t => c.utf8Size + byteSize t

@[simp] theorem byteSize_nil : byteSize [] = 0 := rfl

@[simp] theorem byteSize_cons (c : Char) (t : Text) : byteSize (c :: t) = c.utf8Size + byteSize t :=
  rfl

@[simp] theorem byteSize_append (s t : Text) : byteSize (s ++ t) = byteSize s + byteSize t := by
  induction s with
  | nil => simp
  | cons c s ih => simp [ih, Nat.add_assoc]

theorem eq_nil_of_byteSize_eq_zero {t : Text} (h : byteSize t = 0) : t = [] := by
  cases t with
  | nil => rfl
  | cons c t =>
      have hpos := c.utf8Size_pos
      rw [byteSize_cons] at h
      omega

/-- The text before and after the first `n` bytes. There is no cut beyond the end of a text or
inside of a character. -/
def cut? : Nat → Text → Option (Text × Text)
  | 0, t => some ([], t)
  | _ + 1, [] => none
  | n + 1, c :: t =>
    if c.utf8Size ≤ n + 1 then
      (cut? (n + 1 - c.utf8Size) t).map fun parts => (c :: parts.1, parts.2)
    else none

/-- A cut takes a text apart after the given number of bytes, wherever that is possible. -/
theorem cut?_eq_some_iff {n : Nat} {t before after : Text} :
    cut? n t = some (before, after) ↔ t = before ++ after ∧ byteSize before = n := by
  induction t generalizing n before with
  | nil =>
    cases n with
    | zero =>
      constructor
      · intro h
        cases h
        simp
      · rintro ⟨h, -⟩
        simp only [List.nil_eq, List.append_eq_nil_iff] at h
        simp [cut?, h.1, h.2]
    | succ n =>
      constructor
      · intro h
        simp [cut?] at h
      · rintro ⟨h, hn⟩
        simp only [List.nil_eq, List.append_eq_nil_iff] at h
        simp [h.1] at hn
  | cons c t ih =>
    have hc := c.utf8Size_pos
    cases n with
    | zero =>
      constructor
      · intro h
        cases h
        simp
      · rintro ⟨h, hn⟩
        cases before with
        | nil => simp [cut?, h]
        | cons d before =>
          have hd := d.utf8Size_pos
          simp only [byteSize_cons] at hn
          omega
    | succ n =>
      simp only [cut?]
      constructor
      · intro h
        split at h
        · obtain ⟨parts, hparts, heq⟩ := Option.map_eq_some_iff.1 h
          obtain ⟨before', after'⟩ := parts
          cases heq
          obtain ⟨rfl, hsize⟩ := ih.1 hparts
          refine ⟨rfl, ?_⟩
          simp only [byteSize_cons]
          omega
        · cases h
      · rintro ⟨h, hn⟩
        cases before with
        | nil => simp at hn
        | cons d before =>
          simp only [List.cons_append, List.cons.injEq] at h
          obtain ⟨rfl, rfl⟩ := h
          simp only [byteSize_cons] at hn
          rw [if_pos (by omega), ih.2 ⟨rfl, show byteSize before = n + 1 - c.utf8Size by omega⟩]
          rfl

/-- There is only one way to take a text apart after a number of bytes. -/
theorem append_inj_of_byteSize {s t u v : Text} (h : s ++ t = u ++ v)
    (hsize : byteSize s = byteSize u) : s = u ∧ t = v := by
  have hfirst : cut? (byteSize s) (s ++ t) = some (s, t) := cut?_eq_some_iff.2 ⟨rfl, rfl⟩
  rw [cut?_eq_some_iff.2 ⟨h, hsize.symm⟩, Option.some.injEq, Prod.mk.injEq] at hfirst
  exact ⟨hfirst.1.symm, hfirst.2.symm⟩

/-- The text before byte `n`, or the whole text if it cannot be cut there. -/
def takeBytes (n : Nat) (t : Text) : Text := ((cut? n t).map Prod.fst).getD t

/-- The text from byte `n` on, or nothing if it cannot be cut there. -/
def dropBytes (n : Nat) (t : Text) : Text := ((cut? n t).map Prod.snd).getD []

/-! ## Taking text apart -/

/-- The text up to the first place where what remains satisfies `stop`, and what remains. -/
def breakAt (stop : Text → Bool) : Text → Text × Text
  | [] => ([], [])
  | c :: t =>
    if stop (c :: t) then ([], c :: t)
    else (c :: (breakAt stop t).1, (breakAt stop t).2)

theorem breakAt_append (stop : Text → Bool) (t : Text) :
    (breakAt stop t).1 ++ (breakAt stop t).2 = t := by
  induction t with
  | nil => rfl
  | cons c t ih => by_cases h : stop (c :: t) <;> simp [breakAt, h, ih]

/-- What remains after a break satisfies its condition, unless nothing does. -/
theorem breakAt_stop (stop : Text → Bool) (t : Text) :
    (breakAt stop t).2 = [] ∨ stop (breakAt stop t).2 = true := by
  induction t with
  | nil => exact .inl rfl
  | cons c t ih =>
    by_cases h : stop (c :: t) = true
    · right
      simp [breakAt, h]
    · simpa [breakAt, h] using ih

/-- What stands before a break does not satisfy its condition anywhere. -/
theorem breakAt_not_stop (stop : Text → Bool) (t before : Text) (c : Char) (more : Text)
    (h : (breakAt stop t).1 = before ++ c :: more) :
    stop (c :: (more ++ (breakAt stop t).2)) = false := by
  induction t generalizing before with
  | nil => simp [breakAt] at h
  | cons d t ih =>
    by_cases hstop : stop (d :: t) = true
    · simp [breakAt, hstop] at h
    · simp only [breakAt, hstop, Bool.false_eq_true, if_false] at h ⊢
      cases before with
      | nil =>
        obtain ⟨rfl, rfl⟩ := List.cons.inj h
        rw [breakAt_append]
        exact Bool.eq_false_iff.mpr hstop
      | cons e before => exact ih before (List.cons.inj h).2

/-- A break is at the first place that satisfies its condition. -/
theorem breakAt_eq {stop : Text → Bool} {before after : Text} (hstop : stop after = true)
    (hnot : ∀ start c more, before = start ++ c :: more → stop (c :: (more ++ after)) = false) :
    breakAt stop (before ++ after) = (before, after) := by
  induction before with
  | nil => cases after with
    | nil => rfl
    | cons c t => simp [breakAt, hstop]
  | cons c before ih =>
    have hfirst := hnot [] c before rfl
    have hrest := ih fun start d more h => hnot (c :: start) d more (by rw [h, List.cons_append])
    rw [List.cons_append, breakAt, hfirst, hrest]
    simp

theorem breakAt_length_le (stop : Text → Bool) (t : Text) :
    (breakAt stop t).2.length ≤ t.length := by
  have h := congrArg List.length (breakAt_append stop t)
  simp only [List.length_append] at h
  omega

theorem dropWhile_length_le (p : Char → Bool) (t : Text) : (t.dropWhile p).length ≤ t.length := by
  induction t with
  | nil => simp
  | cons c t ih =>
    simp only [List.dropWhile, List.length_cons]
    split
    · omega
    · simp

/-- What follows `start`, if the text begins with it. -/
def after? : Text → Text → Option Text
  | [], t => some t
  | _ :: _, [] => none
  | c :: start, d :: t => if c = d then after? start t else none

/-- Reading off a start succeeds exactly on the texts that begin with it. -/
theorem after?_eq_some_iff {start t rest : Text} :
    after? start t = some rest ↔ t = start ++ rest := by
  induction start generalizing t with
  | nil => simp [after?, eq_comm]
  | cons c start ih => cases t with
    | nil => simp [after?]
    | cons d t => by_cases h : c = d <;> simp [after?, h, ih, eq_comm]

/-- Whether the text begins with `start`. -/
def startsWith (start t : Text) : Bool := (after? start t).isSome

theorem startsWith_iff {start t : Text} :
    startsWith start t = true ↔ ∃ rest, t = start ++ rest := by
  simp only [startsWith, Option.isSome_iff_exists, after?_eq_some_iff]

/-- Whether `part` stands anywhere in the text. -/
def includes (part : Text) : Text → Bool
  | [] => startsWith part []
  | c :: t => startsWith part (c :: t) || includes part t

theorem includes_iff {part t : Text} :
    includes part t = true ↔ ∃ before after, t = before ++ (part ++ after) := by
  induction t with
  | nil => simp [includes, startsWith_iff]
  | cons c t ih =>
    rw [includes, Bool.or_eq_true, startsWith_iff, ih]
    constructor
    · rintro (⟨after, h⟩ | ⟨before, after, rfl⟩)
      · exact ⟨[], after, h⟩
      · exact ⟨c :: before, after, rfl⟩
    · rintro ⟨before, after, h⟩
      cases before with
      | nil => exact .inl ⟨after, h⟩
      | cons d before => exact .inr ⟨before, after, (List.cons.inj h).2⟩

/-- The parts of a text between the characters that satisfy `cut`, at least one. A text may be made
of other things than characters here. -/
def splitOn {α : Type} (cut : α → Bool) : List α → List (List α)
  | [] => [[]]
  | c :: t =>
    match splitOn cut t with
    | [] => [[]]
    | part :: parts => if cut c then [] :: part :: parts else (c :: part) :: parts

/-! ## Numbers and lists in text -/

/-- A number in decimal digits. -/
def ofNat (n : Nat) : Text := Nat.toDigits 10 n

/-- A number in lowercase hexadecimal digits. -/
def ofNatHex (n : Nat) : Text := Nat.toDigits 16 n

/-- The value of a hexadecimal digit of either case. -/
def hexDigit? (c : Char) : Option Nat :=
  if '0' ≤ c ∧ c ≤ '9' then some (c.toNat - '0'.toNat)
  else if 'a' ≤ c ∧ c ≤ 'f' then some (c.toNat - 'a'.toNat + 10)
  else if 'A' ≤ c ∧ c ≤ 'F' then some (c.toNat - 'A'.toNat + 10)
  else none

/-- The texts one after the other with `separator` between neighbours. -/
def joinWith (separator : Text) : List Text → Text
  | [] => []
  | [t] => t
  | t :: ts => t ++ separator ++ joinWith separator ts

/-- The character of a code point, if it is one. -/
def charOfCode? (n : Nat) : Option Char :=
  if h : n.isValidChar then some (Char.ofNatAux n h) else none

end Text
end Hypertext

import Hypertext.Proofs.ErrorPositions
import Hypertext.Proofs.StringLiterals

set_option autoImplicit false

/-! # Cooking a text in two parts

The escapes of a static part are replaced from left to right, and at four places the reader looks
ahead: after a carriage return, after a backslash at the end of a line, after `\0`, and after the
first half of a surrogate pair. This file proves that a text can be cut in two and cooked part by
part unless the cut is at one of two seams (`Joins`): between a carriage return and a line feed, or
between `\0` and a digit.

A text that can be cooked is a row of atoms (`Atoms`): characters, line breaks and escapes. What a
reader of digits takes does not depend on what follows (`TakesAlone`), and the same holds for an
escape that means something, but for the two seams (`meaning?_takes`). So an atom is read from any
text that it joins (`Atom.cookFrom`), and then so is a row of atoms (`Atoms.cookFrom`).
-/

namespace Hypertext
namespace Script

/-! ## Seams -/

/-- The first text can be read without the second: neither does a line feed follow a carriage
return, nor a digit `\0`. -/
structure Joins (left right : Text) : Prop where
  lineBreak : ['\r'] <:+ left → right.head? ≠ some '\n'
  digit : ['\\', '0'] <:+ left → right.head?.any Char.isDigit = false

theorem joins_nil (left : Text) : Joins left [] := by
  constructor
  · intro _ h
    cases h
  · exact fun _ => rfl

/-- Only the end of the first text matters. -/
theorem Joins.of_append {start left right : Text} (h : Joins (start ++ left) right) :
    Joins left right := by
  have hsuffix : left <:+ start ++ left := List.suffix_append start left
  exact ⟨fun hreturn => h.lineBreak (hreturn.trans hsuffix),
    fun hzero => h.digit (hzero.trans hsuffix)⟩

/-- Only the start of the second text matters. -/
theorem Joins.append {left right more : Text} (h : Joins left right)
    (hmore : right = [] → Joins left more) : Joins left (right ++ more) := by
  cases right with
  | nil => exact hmore rfl
  | cons c right => exact ⟨h.lineBreak, h.digit⟩

theorem Joins.left {left right more : Text} (h : Joins left (right ++ more)) :
    Joins left right := by
  cases right with
  | nil => exact joins_nil left
  | cons c right => exact ⟨h.lineBreak, h.digit⟩

/-- Two texts join if the first ends in neither of the characters that look ahead. -/
theorem joins_of_last {left : Text} (hreturn : left.getLast? ≠ some '\r')
    (hzero : left.getLast? ≠ some '0') (right : Text) : Joins left right := by
  constructor
  · rintro ⟨start, rfl⟩
    exact absurd List.getLast?_concat hreturn
  · rintro ⟨start, rfl⟩
    exact absurd (by rw [List.getLast?_append]; rfl) hzero

namespace Escape

/-! ## Readers of digits -/

/-- What the reader takes from a text, it takes from every text that begins with it. It does not
stop in the middle of an escape. -/
def TakesAlone (reader : Text → Option (UInt32 × Text)) : Prop :=
  ∀ t code rest, reader t = some (code, rest) →
    ∃ taken, t = taken ++ rest ∧ isEscaped taken = false ∧
      ∀ more, reader (taken ++ more) = some (code, more)

theorem ne_backslash_of_hexDigit? {c : Char} {digit : Nat} (h : Text.hexDigit? c = some digit) :
    c ≠ '\\' := by
  rintro rfl
  cases h

theorem hexDigits?_takesAlone (count : Nat) (value : UInt32) :
    TakesAlone (hexDigits? count value) := by
  induction count generalizing value with
  | zero =>
      intro t code rest h
      cases h
      exact ⟨[], rfl, rfl, fun _ => rfl⟩
  | succ count ih =>
      intro t code rest h
      cases t with
      | nil => cases h
      | cons c t =>
          cases hdigit : Text.hexDigit? c with
          | none =>
              rw [hexDigits?, hdigit] at h
              cases h
          | some digit =>
              rw [hexDigits?, hdigit] at h
              obtain ⟨taken, rfl, hescaped, htakes⟩ := ih _ t code rest h
              refine ⟨c :: taken, rfl, ?_, fun more => ?_⟩
              · rw [isEscaped_cons (ne_backslash_of_hexDigit? hdigit), hescaped]
              · rw [List.cons_append, hexDigits?, hdigit]
                exact htakes more

theorem bracedDigits?_takesAlone (count : Int32) (value : UInt32) :
    TakesAlone (bracedDigits? count value) := by
  intro t code rest h
  induction t generalizing count value with
  | nil => cases h
  | cons c t ih =>
      rw [bracedDigits?] at h
      by_cases hclose : (c == '\x7d' && decide (0 < count)) = true
      · rw [if_pos hclose] at h
        cases h
        refine ⟨[c], rfl, ?_, fun more => ?_⟩
        · rw [Bool.and_eq_true, beq_iff_eq] at hclose
          rw [hclose.1]
          rfl
        · rw [List.singleton_append, bracedDigits?, if_pos hclose]
      · rw [if_neg hclose] at h
        cases hdigit : Text.hexDigit? c with
        | none =>
            rw [hdigit] at h
            cases h
        | some digit =>
            rw [hdigit] at h
            by_cases hvalue : value ≤ 0x10FFFF
            · obtain ⟨taken, rfl, hescaped, htakes⟩ := ih _ _ (by simpa [hvalue] using h)
              refine ⟨c :: taken, rfl, ?_, fun more => ?_⟩
              · rw [isEscaped_cons (ne_backslash_of_hexDigit? hdigit), hescaped]
              · rw [List.cons_append, bracedDigits?, if_neg hclose, hdigit]
                simpa [hvalue] using htakes more
            · simp [hvalue] at h

/-! ## Code points -/

/-- The first half of a surrogate pair. -/
def IsLead (code : UInt32) : Prop := 0xD800 ≤ code ∧ code < 0xDC00

/-- The second half of a surrogate pair. -/
def IsTrail (code : UInt32) : Prop := 0xDC00 ≤ code ∧ code < 0xE000

/-- The first half of a surrogate pair by itself is no character. -/
theorem charOfCode?_of_isLead {code : UInt32} (h : IsLead code) :
    Text.charOfCode? code.toNat = none := by
  obtain ⟨hlow, hhigh⟩ := h
  rw [UInt32.le_iff_toNat_le] at hlow
  rw [UInt32.lt_iff_toNat_lt] at hhigh
  have hlow : 0xD800 ≤ code.toNat := hlow
  have hhigh : code.toNat < 0xDC00 := hhigh
  rw [Text.charOfCode?, dif_neg]
  rintro (hvalid | hvalid)
  · omega
  · omega

/-- Four digits that are no first half of a pair are a code point. -/
theorem codePoint?_single {t rest : Text} {code : UInt32}
    (h : hexDigits? 4 0 t = some (code, rest)) (hlead : ¬IsLead code) :
    codePoint? t = some (code, rest) := by
  unfold codePoint?
  split
  · cases h
  · rw [h]
    exact if_neg hlead

/-- The two halves of a pair are a code point. -/
theorem codePoint?_pair {t second rest : Text} {lead trail : UInt32}
    (h : hexDigits? 4 0 t = some (lead, '\\' :: 'u' :: second)) (hlead : IsLead lead)
    (hsecond : hexDigits? 4 0 second = some (trail, rest)) (htrail : IsTrail trail) :
    codePoint? t = some (0x10000 + (lead - 0xD800) * 0x400 + (trail - 0xDC00), rest) := by
  have hafter : Text.after? "\\u".toList ('\\' :: 'u' :: second) = some second :=
    Text.after?_eq_some_iff.mpr rfl
  unfold codePoint?
  split
  · cases h
  · simp only [h, hafter, hsecond]
    exact (if_pos hlead).trans (if_pos htrail)

/-- **What a code point is read from**: digits in braces, four digits, or two times four digits. The
first half of a pair is also read without the second, but then it is no character. -/
theorem codePoint?_cases {t rest : Text} {code : UInt32} (h : codePoint? t = some (code, rest)) :
    (∃ digits, t = '\x7b' :: digits ∧ bracedDigits? 0 0 digits = some (code, rest)) ∨
    (hexDigits? 4 0 t = some (code, rest) ∧ ¬IsLead code) ∨
    (∃ lead trail second, hexDigits? 4 0 t = some (lead, '\\' :: 'u' :: second) ∧ IsLead lead ∧
      hexDigits? 4 0 second = some (trail, rest) ∧ IsTrail trail ∧
      code = 0x10000 + (lead - 0xD800) * 0x400 + (trail - 0xDC00)) ∨
    IsLead code := by
  unfold codePoint? at h
  split at h
  · exact .inl ⟨_, rfl, h⟩
  · split at h
    · cases h
    next lead behind hdigits =>
    split at h
    · next hlead =>
        split at h
        · cases h
          exact .inr (.inr (.inr hlead))
        · next second hsecond =>
            rw [Text.after?_eq_some_iff.mp hsecond] at hdigits
            split at h
            · cases h
            next trail after hafter =>
            split at h
            · next htrail =>
                cases h
                exact .inr (.inr (.inl ⟨lead, trail, second, hdigits, hlead, hafter, htrail, rfl⟩))
            · cases h
    · next hlead =>
        cases h
        exact .inr (.inl ⟨hdigits, hlead⟩)

/-- A code point that is a character is read from every text that begins with what it was read
from. -/
theorem codePoint?_takes {t rest : Text} {code : UInt32} {char : Char}
    (h : codePoint? t = some (code, rest)) (hchar : Text.charOfCode? code.toNat = some char) :
    ∃ taken, t = taken ++ rest ∧ isEscaped taken = false ∧
      ∀ more, codePoint? (taken ++ more) = some (code, more) := by
  rcases codePoint?_cases h with ⟨digits, rfl, hdigits⟩ | ⟨hdigits, hlead⟩ |
    ⟨lead, trail, second, hdigits, hlead, hsecond, htrail, rfl⟩ | hlead
  · obtain ⟨taken, rfl, hescaped, htakes⟩ := bracedDigits?_takesAlone _ _ _ _ _ hdigits
    refine ⟨'\x7b' :: taken, rfl, ?_, fun more => ?_⟩
    · rw [isEscaped_cons (by decide), hescaped]
    · exact htakes more
  · obtain ⟨taken, rfl, hescaped, htakes⟩ := hexDigits?_takesAlone _ _ _ _ _ hdigits
    exact ⟨taken, rfl, hescaped, fun more => codePoint?_single (htakes more) hlead⟩
  · obtain ⟨taken, rfl, hescaped, htakes⟩ := hexDigits?_takesAlone _ _ _ _ _ hdigits
    obtain ⟨others, rfl, hescaped', htakes'⟩ := hexDigits?_takesAlone _ _ _ _ _ hsecond
    refine ⟨taken ++ '\\' :: 'u' :: others, ?_, ?_, fun more => ?_⟩
    · rw [List.append_assoc]
      rfl
    · rw [isEscaped_append _ _ hescaped, isEscaped_pair, hescaped']
    · rw [List.append_assoc]
      exact codePoint?_pair (htakes _) hlead (htakes' more) htrail
  · rw [charOfCode?_of_isLead hlead] at hchar
    cases hchar

/-! ## Escapes -/

/-- An escape with one character after the backslash is read alone, unless the character looks
ahead. -/
theorem joins_escape {c : Char} (hreturn : c ≠ '\r') (hzero : c ≠ '0') (more : Text) :
    Joins ['\\', c] more := by
  refine joins_of_last ?_ ?_ more
  · simpa using hreturn
  · simpa using hzero

/-- A backslash before a carriage return stands for nothing, and takes a line feed with it. -/
theorem meaning?_return {more : Text} (h : more.head? ≠ some '\n') :
    meaning? '\r' more = some ([], more) := by
  cases more with
  | nil => rfl
  | cons d more =>
      have hd : d ≠ '\n' := fun heq => h (congrArg some heq)
      simp [meaning?, hd]

/-- **What an escape takes.** An escape that means something is read from every text that begins
with it, unless it has no more than one character and the text goes on at a seam. -/
theorem meaning?_takes {c : Char} {t text rest : Text} (h : meaning? c t = some (text, rest)) :
    ∃ taken, t = taken ++ rest ∧ isEscaped taken = false ∧ (taken = [] → Joins ['\\', c] rest) ∧
      ∀ more, (taken = [] → Joins ['\\', c] more) →
        meaning? c (taken ++ more) = some (text, more) := by
  have hsuffix : ∀ d : Char, [d] <:+ ['\\', d] := fun d => List.suffix_cons _ _
  unfold meaning? at h ⊢
  split at h
  case h_7 =>
    -- a carriage return takes the line feed with it
    split at h
    · cases h
      exact ⟨['\n'], rfl, rfl, fun hnil => absurd hnil (List.cons_ne_nil _ _), fun _ _ => rfl⟩
    · next hfeed =>
        cases h
        refine ⟨[], rfl, rfl, fun _ => ⟨fun _ hhead => ?_, fun hzero => ?_⟩, fun more hmore => ?_⟩
        · obtain ⟨after, rfl⟩ := List.head?_eq_some_iff.mp hhead
          exact hfeed after rfl
        · exact absurd hzero (by decide)
        · exact meaning?_return ((hmore rfl).lineBreak (hsuffix '\r'))
  case h_11 =>
    simp only [Option.bind_eq_bind, Option.bind_eq_some_iff] at h
    obtain ⟨⟨code, after⟩, hcode, char, hchar, h⟩ := h
    cases h
    obtain ⟨taken, rfl, hescaped, htakes⟩ := hexDigits?_takesAlone _ _ _ _ _ hcode
    refine ⟨taken, rfl, hescaped, fun _ => joins_escape (by decide) (by decide) _, fun more _ => ?_⟩
    rw [htakes more]
    simp [hchar]
  case h_12 =>
    simp only [Option.bind_eq_bind, Option.bind_eq_some_iff] at h
    obtain ⟨⟨code, after⟩, hcode, char, hchar, h⟩ := h
    cases h
    obtain ⟨taken, rfl, hescaped, htakes⟩ := codePoint?_takes hcode hchar
    refine ⟨taken, rfl, hescaped, fun _ => joins_escape (by decide) (by decide) _, fun more _ => ?_⟩
    rw [htakes more]
    simp [hchar]
  case h_13 hreturn _ _ _ _ _ =>
    by_cases hzero : c = '0'
    · subst hzero
      by_cases hdigit : t.head?.any Char.isDigit = true
      · simp [hdigit] at h
      · simp only [Bool.not_eq_true] at hdigit
        simp only [hdigit, beq_self_eq_true, Bool.not_false, Bool.and_self, if_true] at h
        cases h
        refine ⟨[], rfl, rfl, fun _ => ⟨fun hlast => ?_, fun _ => hdigit⟩, fun more hmore => ?_⟩
        · exact absurd hlast (by decide)
        · simp [(hmore rfl).digit List.suffix_rfl]
    · have hfirst : (c == '0') = false := by simpa using hzero
      simp only [hfirst, Bool.false_and, Bool.false_eq_true, if_false] at h ⊢
      split at h
      · cases h
      · next hdigit =>
          cases h
          exact ⟨[], rfl, rfl, fun _ => joins_escape hreturn hzero _, fun _ _ => if_neg hdigit⟩
  all_goals
    cases h
    exact ⟨[], rfl, rfl, fun _ => joins_escape (by decide) (by decide) _, fun _ _ => rfl⟩

/-! ## Atoms -/

/-- The text is read in one step as what `text` says, wherever it stands, unless it is so short that
what follows is read with it. It does not end in the middle of an escape. -/
structure Atom (atom text : Text) : Prop where
  whole : isEscaped atom = false
  reads : ∀ more, (atom.length ≤ 2 → Joins atom more) → ∀ size,
    cookFrom size (atom ++ more) = (cookFrom size more).map (text ++ ·)

theorem atom_lineBreak : Atom ['\r', '\n'] ['\n'] := by
  refine ⟨rfl, fun more _ size => ?_⟩
  show cookFrom size ('\r' :: '\n' :: more) = _
  rw [cookFrom]
  rfl

theorem atom_return : Atom ['\r'] ['\n'] := by
  refine ⟨rfl, fun more hjoins size => ?_⟩
  show cookFrom size ('\r' :: more) = _
  rw [cookFrom]
  · rfl
  · rintro rest rfl
    exact (hjoins (Nat.le_add_left 1 1)).lineBreak List.suffix_rfl rfl

theorem atom_char {c : Char} (hescape : c ≠ '\\') (hreturn : c ≠ '\r') : Atom [c] [c] := by
  refine ⟨?_, fun more _ size => cookFrom_plain hescape hreturn more⟩
  rw [isEscaped_cons hescape, isEscaped_nil]

/-- What an escape takes is an atom. -/
theorem exists_atom_of_meaning? {c : Char} {t text rest : Text}
    (h : meaning? c t = some (text, rest)) :
    ∃ atom, '\\' :: c :: t = atom ++ rest ∧ 0 < atom.length ∧
      (atom.length ≤ 2 → Joins atom rest) ∧ Atom atom text := by
  obtain ⟨taken, rfl, hescaped, hrest, htakes⟩ := meaning?_takes h
  -- the escape has two characters if it takes nothing more
  have hshort : ∀ {more : Text}, (taken = [] → Joins ['\\', c] more) ↔
      (('\\' :: c :: taken).length ≤ 2 → Joins ('\\' :: c :: taken) more) := by
    intro more
    cases taken with
    | nil => simp
    | cons d taken => simp
  refine ⟨'\\' :: c :: taken, rfl, Nat.succ_pos _, hshort.mp hrest, ?_, fun more hmore size => ?_⟩
  · rw [isEscaped_pair, hescaped]
  · exact cookFrom_escape (htakes more (hshort.mpr hmore))

/-- The texts that begin with an escape without a meaning: a backslash that nothing follows, or one
with a character that does not go with what follows. -/
inductive Bad : Text → Prop where
  | alone : Bad ['\\']
  | meaningless {c : Char} {rest : Text} (h : meaning? c rest = none) : Bad ('\\' :: c :: rest)

/-- **One step.** A text begins with an atom or with an escape without a meaning. -/
theorem exists_atom {t : Text} (hne : t ≠ []) :
    Bad t ∨ ∃ atom text rest, t = atom ++ rest ∧ 0 < atom.length ∧
      (atom.length ≤ 2 → Joins atom rest) ∧ Atom atom text := by
  obtain ⟨c, t, rfl⟩ := List.exists_cons_of_ne_nil hne
  by_cases hescape : c = '\\'
  · subst hescape
    cases t with
    | nil => exact .inl .alone
    | cons d t =>
        cases hmeaning : meaning? d t with
        | none => exact .inl (.meaningless hmeaning)
        | some result =>
            obtain ⟨text, rest⟩ := result
            obtain ⟨atom, hatom⟩ := exists_atom_of_meaning? hmeaning
            exact .inr ⟨atom, text, rest, hatom⟩
  by_cases hreturn : c = '\r'
  · subst hreturn
    by_cases hfeed : t.head? = some '\n'
    · obtain ⟨rest, rfl⟩ := List.head?_eq_some_iff.mp hfeed
      refine .inr ⟨['\r', '\n'], ['\n'], rest, rfl, Nat.succ_pos _, fun _ => ?_, atom_lineBreak⟩
      exact joins_of_last (by decide) (by decide) rest
    · refine .inr ⟨['\r'], ['\n'], t, rfl, Nat.succ_pos _, fun _ => ⟨fun _ => hfeed, ?_⟩,
        atom_return⟩
      exact fun hzero => absurd hzero (by decide)
  · refine .inr ⟨[c], [c], t, rfl, Nat.succ_pos _, fun _ => ⟨?_, ?_⟩, atom_char hescape hreturn⟩
    · intro hlast
      exact absurd (List.cons.inj (hlast.eq_of_length rfl)).1.symm hreturn
    · intro hzero
      exact absurd hzero.length_le (Nat.not_succ_le_self 1)

/-- A row of atoms, each of which can be read without what follows, and the text that it stands
for. -/
inductive Atoms : Text → Text → Prop where
  | nil : Atoms [] []
  | cons {atom text rest s : Text} (hatom : Atom atom text)
      (hjoins : atom.length ≤ 2 → Joins atom rest) (others : Atoms rest s) :
      Atoms (atom ++ rest) (text ++ s)

/-- **The run.** A text is a row of atoms up to its end or to an escape without a meaning. -/
theorem exists_atoms (t : Text) :
    ∃ before s bad, t = before ++ bad ∧ Atoms before s ∧ (bad = [] ∨ Bad bad) := by
  by_cases hne : t = []
  · exact ⟨[], [], [], hne, .nil, .inl rfl⟩
  rcases exists_atom hne with hbad | ⟨atom, text, rest, rfl, hlength, hjoins, hatom⟩
  · exact ⟨[], [], t, rfl, .nil, .inr hbad⟩
  · have hshorter : rest.length < (atom ++ rest).length := by
      rw [List.length_append]
      omega
    obtain ⟨before, s, bad, rfl, hatoms, hbad⟩ := exists_atoms rest
    refine ⟨atom ++ before, text ++ s, bad, (List.append_assoc _ _ _).symm, ?_, hbad⟩
    exact .cons hatom (fun hshort => (hjoins hshort).left) hatoms
termination_by t.length

theorem map_append_append (x : Except ScanError Text) (s t : Text) :
    (x.map (s ++ ·)).map (t ++ ·) = x.map ((t ++ s) ++ ·) := by
  cases x with
  | error e => rfl
  | ok u => exact congrArg Except.ok (List.append_assoc t s u).symm

namespace Atoms

variable {raw s : Text}

/-- A row of atoms means the same in front of every text that it joins. -/
theorem cookFrom_append (h : Atoms raw s) {more : Text} (hmore : Joins raw more) (size : Nat) :
    cookFrom size (raw ++ more) = (cookFrom size more).map (s ++ ·) := by
  induction h with
  | nil =>
      show cookFrom size more = _
      cases cookFrom size more with
      | error e => rfl
      | ok t => rfl
  | @cons atom text rest s hatom hjoins _ ih =>
      have hnext : atom.length ≤ 2 → Joins atom (rest ++ more) := by
        intro hshort
        refine (hjoins hshort).append ?_
        rintro rfl
        rwa [List.append_nil] at hmore
      calc cookFrom size (atom ++ rest ++ more)
          = cookFrom size (atom ++ (rest ++ more)) := by rw [List.append_assoc]
        _ = (cookFrom size (rest ++ more)).map (text ++ ·) := hatom.reads _ hnext size
        _ = ((cookFrom size more).map (s ++ ·)).map (text ++ ·) := by rw [ih hmore.of_append]
        _ = (cookFrom size more).map ((text ++ s) ++ ·) := map_append_append _ _ _

theorem cookFrom_eq (h : Atoms raw s) (size : Nat) : cookFrom size raw = .ok s := by
  have hall := h.cookFrom_append (joins_nil raw) size
  rw [List.append_nil, cookFrom] at hall
  rw [hall]
  exact congrArg Except.ok (List.append_nil s)

end Atoms

namespace Bad

variable {bad : Text}

/-- Nothing is read together with a backslash. -/
theorem joins (h : Bad bad) (left : Text) : Joins left bad := by
  have hhead : bad.head? = some '\\' := by
    cases h with
    | alone => rfl
    | meaningless _ => rfl
  constructor
  · rw [hhead]
    exact fun _ => by decide
  · rw [hhead]
    exact fun _ => rfl

/-- A text is refused at an escape without a meaning. -/
theorem cookFrom_eq (h : Bad bad) (size : Nat) :
    cookFrom size bad = .error (.invalidEscape (size - bad.byteSize) (bad.take 2)) := by
  cases h with
  | alone => rw [cookFrom]; rfl
  | @meaningless c rest hmeaning =>
      rw [cookFrom]
      split
      · rfl
      · next hsome =>
          rw [hmeaning] at hsome
          cases hsome

end Bad

/-- What a text is cooked to: the meaning of its atoms, or an error at the first escape without a
meaning. -/
theorem cookFrom_cases (t : Text) :
    (∃ s, Atoms t s ∧ ∀ size, cookFrom size t = .ok s) ∨
      ∃ before s bad, t = before ++ bad ∧ Atoms before s ∧ Bad bad ∧ ∀ size,
        cookFrom size t = .error (.invalidEscape (size - bad.byteSize) (bad.take 2)) := by
  obtain ⟨before, s, bad, rfl, hatoms, rfl | hbad⟩ := exists_atoms t
  · rw [List.append_nil]
    exact .inl ⟨s, hatoms, hatoms.cookFrom_eq⟩
  · refine .inr ⟨before, s, bad, rfl, hatoms, hbad, fun size => ?_⟩
    rw [hatoms.cookFrom_append (hbad.joins before), hbad.cookFrom_eq]
    rfl

theorem atoms_of_cookFrom {size : Nat} {t s : Text} (h : cookFrom size t = .ok s) : Atoms t s := by
  rcases cookFrom_cases t with ⟨s', hatoms, hcook⟩ | ⟨before, s', bad, -, -, -, hcook⟩
  · rw [hcook] at h
    cases h
    exact hatoms
  · rw [hcook] at h
    cases h

/-- Offsets count from the start of the text that the rest belongs to. -/
theorem cookFrom_add (base : Nat) {size : Nat} {t : Text} (hsize : t.byteSize ≤ size) :
    cookFrom (base + size) t = (cookFrom size t).mapError (ScanError.shift base) := by
  rcases cookFrom_cases t with ⟨s, -, hcook⟩ | ⟨before, s, bad, rfl, -, -, hcook⟩
  · rw [hcook, hcook]
    rfl
  · rw [Text.byteSize_append] at hsize
    have hoffset : base + size - bad.byteSize = base + (size - bad.byteSize) := by omega
    rw [hcook, hcook, hoffset]
    rfl

end Escape

/-! ## The law -/

/-- **Cooking in two parts.** -/
theorem cook_append {first second s : Text} (hjoins : Joins first second)
    (hfirst : cook first = .ok s) :
    cook (first ++ second)
      = ((cook second).mapError (ScanError.shift first.byteSize)).map (s ++ ·) := by
  have hatoms : Escape.Atoms first s := Escape.atoms_of_cookFrom hfirst
  calc cook (first ++ second)
      = Escape.cookFrom (first.byteSize + second.byteSize) (first ++ second) := by
        rw [cook, Text.byteSize_append]
    _ = (Escape.cookFrom (first.byteSize + second.byteSize) second).map (s ++ ·) :=
        hatoms.cookFrom_append hjoins _
    _ = ((cook second).mapError (ScanError.shift first.byteSize)).map (s ++ ·) := by
        rw [Escape.cookFrom_add _ (Nat.le_refl _), cook]

/-- **Cooking is compositional.** Let the first of two texts not end in a carriage return where the
second begins with a line feed, nor in `\0` where it begins with a digit. If both can be cooked, so
can they together, to the two results one after the other. If only the first can be cooked, both
together fail for the same escape as the second, with its offset counted from the start of the
first. -/
theorem cook_compositional {first second s : Text}
    (hlineBreak : ¬(first.getLast? = some '\r' ∧ second.head? = some '\n'))
    (hdigit : ¬(['\\', '0'] <:+ first ∧ second.head?.any Char.isDigit = true))
    (hfirst : cook first = .ok s) :
    (∀ t, cook second = .ok t → cook (first ++ second) = .ok (s ++ t)) ∧
    (∀ offset sequence, cook second = .error (.invalidEscape offset sequence) →
      cook (first ++ second) = .error (.invalidEscape (first.byteSize + offset) sequence)) := by
  have hjoins : Joins first second := by
    constructor
    · rintro ⟨start, rfl⟩ hfeed
      exact hlineBreak ⟨List.getLast?_concat, hfeed⟩
    · exact fun hzero => Bool.eq_false_iff.mpr fun hhead => hdigit ⟨hzero, hhead⟩
  refine ⟨fun t hsecond => ?_, fun offset sequence hsecond => ?_⟩
  · rw [cook_append hjoins hfirst, hsecond]
    rfl
  · rw [cook_append hjoins hfirst, hsecond]
    rfl

/-- A surrogate pair, `\0` and a backslash at the end of a line, before a digit, a line feed and an
escape with a digit too few. -/
theorem cook_compositional_at_line_end :
    let first := "\\uD83D\\uDE00\\0\\\r".toList
    let second := "7\n\\x4".toList
    ¬(first.getLast? = some '\r' ∧ second.head? = some '\n') ∧
    ¬(['\\', '0'] <:+ first ∧ second.head?.any Char.isDigit = true) ∧
    cook first = .ok "😀\x00".toList ∧
    cook second = .error (.invalidEscape 2 "\\x".toList) ∧
    cook (first ++ second) = .error (.invalidEscape 18 "\\x".toList) := by
  intro first second
  have hlineBreak : ¬(first.getLast? = some '\r' ∧ second.head? = some '\n') := by decide
  have hdigit : ¬(['\\', '0'] <:+ first ∧ second.head?.any Char.isDigit = true) := by decide
  have hfirst : cook first = .ok "😀\x00".toList := by decide +kernel
  have hsecond : cook second = .error (.invalidEscape 2 "\\x".toList) := by decide +kernel
  refine ⟨hlineBreak, hdigit, hfirst, hsecond, ?_⟩
  exact (cook_compositional hlineBreak hdigit hfirst).2 2 _ hsecond

end Script
end Hypertext

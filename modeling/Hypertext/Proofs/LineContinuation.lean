import Hypertext.Proofs.CommentedRules
import Hypertext.Script.Separator

set_option autoImplicit false

/-! # Lines that a template would continue

A template that begins a line needs a semicolon in front of it if the line before would go on with a
parenthesis. Whether it would is read off the end of the text, backwards. This file says the same
about texts as they are written: `Continues` looks at the last word or mark of a text, past blanks
and block comments, and a template on the next line is separated exactly from the texts that satisfy
it (`needsSeparator_iff_continues`).

Comments are told from code by their end alone. What ends in `*/` is taken away from the last `/*`
on, even if that stands inside of the comment. A line comment has no end of its own and is taken for
code. So a comment can hide that the line before goes on, and it can look like code that does
(`needsSeparator_comment_iff`).
-/

namespace Hypertext
namespace Script

/-! ## Ends of texts -/

/-- A text ends in a word that is not part of a longer one. The last character of a word is never
blank, which is said here because only the tables of characters show it. -/
structure EndsInWord (t word : Text) : Prop where
  whole : ∃ before, t = before ++ word ∧ ∀ c ∈ before.getLast?, isCodeWordChar c = false
  chars : ∀ c ∈ word, isCodeWordChar c = true
  visible : ∃ c, word.getLast? = some c ∧ isBlank c = false

/-- As many parentheses are opened as closed in a text, and each is closed behind the place where it
is opened. -/
def Enclosed (t : Text) : Prop :=
  t.count '(' = t.count ')' ∧ ∀ ending, ending <:+ t → ending.count '(' ≤ ending.count ')'

/-- A closing parenthesis behind the text ends the head of a statement such as `if (ok)`. -/
def ClosesHead (t : Text) : Prop :=
  ∃ head blanks inner word, t = head ++ blanks ++ '(' :: inner ∧ Enclosed inner ∧
    (∀ c ∈ blanks, isBlank c = true) ∧ EndsInWord head word ∧ word ∈ controlHeads

/-- The marks that end a value: a closing bracket or brace, and the quotes. -/
def valueMarks : Text := "]\x7d\"'\x60".toList

/-- A line that ends like this text goes on if the next line begins with a parenthesis. -/
inductive Continues : Text → Prop where
  | mark (t : Text) {c : Char} (hc : c ∈ valueMarks) : Continues (t ++ [c])
  | call {t : Text} (h : ¬ClosesHead t) : Continues (t ++ [')'])
  | word {t word : Text} (h : EndsInWord t word) (hword : word ∉ operandKeywords) : Continues t
  | blank {t : Text} {c : Char} (hc : isBlank c = true) (h : Continues t) : Continues (t ++ [c])
  | comment {t body : Text} (hbody : Text.includes "/*".toList body = false) (h : Continues t) :
      Continues (t ++ "/*".toList ++ body ++ "*/".toList)

/-! ## Words and heads -/

theorem trailingWord_append {before word : Text} (hword : ∀ c ∈ word, isCodeWordChar c = true)
    (hbefore : ∀ c ∈ before.getLast?, isCodeWordChar c = false) :
    trailingWord (before ++ word).reverse = word := by
  have htake : (word.reverse ++ before.reverse).takeWhile isCodeWordChar = word.reverse :=
    (span_append (fun c hc => hword c (List.mem_reverse.mp hc)) (by rwa [List.head?_reverse])).1
  rw [trailingWord, List.reverse_append, htake, List.reverse_reverse]

theorem exists_trailingWord (t : Text) :
    ∃ before word, t = before ++ word ∧ trailingWord t.reverse = word ∧
      (∀ c ∈ word, isCodeWordChar c = true) ∧ ∀ c ∈ before.getLast?, isCodeWordChar c = false := by
  obtain ⟨s, y, ht, hs, hy⟩ := Rule.exists_span isCodeWordChar t.reverse
  have hword : ∀ c ∈ s.reverse, isCodeWordChar c = true := fun c hc => hs c (List.mem_reverse.mp hc)
  have hbefore : ∀ c ∈ y.reverse.getLast?, isCodeWordChar c = false := by
    rwa [List.getLast?_reverse]
  have htext : t = y.reverse ++ s.reverse := by
    rw [← List.reverse_append, ← ht, List.reverse_reverse]
  refine ⟨y.reverse, s.reverse, htext, ?_, hword, hbefore⟩
  rw [htext]
  exact trailingWord_append hword hbefore

namespace EndsInWord

variable {t word : Text}

theorem trailingWord (h : EndsInWord t word) : Script.trailingWord t.reverse = word := by
  obtain ⟨before, rfl, hbefore⟩ := h.whole
  exact trailingWord_append h.chars hbefore

/-- The word reaches to the end of the text. -/
theorem last (h : EndsInWord t word) :
    ∃ u c, t = u ++ [c] ∧ isBlank c = false ∧ isCodeWordChar c = true := by
  obtain ⟨before, rfl, -⟩ := h.whole
  obtain ⟨c, hc, hblank⟩ := h.visible
  obtain ⟨start, rfl⟩ := List.getLast?_eq_some_iff.mp hc
  exact ⟨before ++ start, c, (List.append_assoc _ _ _).symm, hblank,
    h.chars c (List.mem_append_right _ (List.mem_singleton_self c))⟩

end EndsInWord

/-- The word before the blanks at the end of a text. -/
theorem EndsInWord.trailingWord_blanks {head blanks word : Text} (h : EndsInWord head word)
    (hblanks : ∀ c ∈ blanks, isBlank c = true) :
    Script.trailingWord ((head ++ blanks).reverse.dropWhile isBlank) = word := by
  obtain ⟨u, c, hhead, hc, -⟩ := h.last
  have hdrop : (blanks.reverse ++ head.reverse).dropWhile isBlank = head.reverse := by
    refine (span_append (fun d hd => hblanks d (List.mem_reverse.mp hd)) fun d hd => ?_).2
    rw [hhead, List.reverse_concat] at hd
    cases hd
    exact hc
  rw [List.reverse_append, hdrop, h.trailingWord]

/-- What stands before a parenthesis, given backwards, is a word that begins a statement. -/
theorem controlHeads_contains_iff (r : Text) :
    controlHeads.contains (trailingWord (r.dropWhile isBlank)) = true ↔
      ∃ head blanks word, r.reverse = head ++ blanks ∧ (∀ c ∈ blanks, isBlank c = true) ∧
        EndsInWord head word ∧ word ∈ controlHeads := by
  rw [List.contains_iff_mem]
  constructor
  · intro hmem
    obtain ⟨s, y, rfl, hs, hy⟩ := Rule.exists_span isBlank r
    rw [(span_append hs hy).2] at hmem
    obtain ⟨before, word, hhead, hword, hchars, hbefore⟩ := exists_trailingWord y.reverse
    rw [List.reverse_reverse] at hword
    have hvisible :
        controlHeads.all (fun word => word.getLast?.any fun c => !isBlank c) = true := by
      decide
    refine ⟨y.reverse, s.reverse, word, List.reverse_append,
      fun c hc => hs c (List.mem_reverse.mp hc), ⟨⟨before, hhead, hbefore⟩, hchars, ?_⟩,
      hword ▸ hmem⟩
    have hany := List.all_eq_true.mp hvisible word (hword ▸ hmem)
    simpa [Option.any_eq_true] using hany
  · rintro ⟨head, blanks, word, hr, hblanks, hword, hmem⟩
    rw [← List.reverse_reverse r, hr, hword.trailingWord_blanks hblanks]
    exact hmem

/-- Going backwards through a text with `depth` parentheses open besides the one that is looked for,
a parenthesis is found where it was opened, and before it the head of a statement. -/
def OpenedByHead (depth : Nat) (r : Text) : Prop :=
  ∃ inner rest, r = inner ++ '(' :: rest ∧ inner.count '(' = inner.count ')' + depth ∧
    (∀ start, start <+: inner → start.count '(' ≤ start.count ')' + depth) ∧
    controlHeads.contains (trailingWord (rest.dropWhile isBlank)) = true

theorem count_cons_eq (c d : Char) (u : Text) : (c :: u).count d = [c].count d + u.count d := by
  rw [← List.singleton_append, List.count_append]

/-- One character back, the number of open parentheses changes with it. -/
theorem openedByHead_cons {depth depth' : Nat} {c : Char}
    (h : depth' + [c].count '(' = depth + [c].count ')') (r : Text) :
    OpenedByHead depth (c :: r) ↔ OpenedByHead depth' r := by
  constructor
  · rintro ⟨inner, rest, heq, hsame, hstart, hhead⟩
    cases inner with
    | nil =>
        -- then this is where the parenthesis is opened, and no other one is open
        obtain ⟨rfl, -⟩ := List.cons.inj heq
        simp only [List.count_nil, List.count_singleton_self] at hsame h
        simp at h
        omega
    | cons d inner =>
        obtain ⟨rfl, rfl⟩ := List.cons.inj heq
        refine ⟨inner, rest, rfl, ?_, fun start hprefix => ?_, hhead⟩
        · rw [count_cons_eq _ '(' inner, count_cons_eq _ ')' inner] at hsame
          omega
        · have hle := hstart (c :: start) (List.cons_prefix_cons.mpr ⟨rfl, hprefix⟩)
          rw [count_cons_eq _ '(' start, count_cons_eq _ ')' start] at hle
          omega
  · rintro ⟨inner, rest, rfl, hsame, hstart, hhead⟩
    refine ⟨c :: inner, rest, rfl, ?_, fun start hprefix => ?_, hhead⟩
    · rw [count_cons_eq _ '(' inner, count_cons_eq _ ')' inner]
      omega
    · cases start with
      | nil => simp
      | cons d start =>
          obtain ⟨rfl, hinner⟩ := List.cons_prefix_cons.mp hprefix
          have hle := hstart start hinner
          rw [count_cons_eq _ '(' start, count_cons_eq _ ')' start]
          omega

/-- **One character back.** The scan goes on with as many open parentheses as there are then, unless
the one that is looked for has been found. -/
theorem closesControlHead_cons {depth depth' : Nat} {c : Char}
    (h : depth' + [c].count '(' = depth + [c].count ')') (r : Text) :
    closesControlHead (depth + 1) (c :: r) = closesControlHead (depth' + 1) r := by
  by_cases hclose : c = ')'
  · subst hclose
    obtain rfl : depth' = depth + 1 := by simpa using h
    rfl
  by_cases hopen : c = '('
  · subst hopen
    obtain rfl : depth = depth' + 1 := by simpa using h.symm
    rfl
  · obtain rfl : depth' = depth := by simpa [hclose, hopen] using h
    rw [closesControlHead]
    · exact hclose
    · exact hopen

theorem closesControlHead_iff (depth : Nat) (r : Text) :
    closesControlHead (depth + 1) r = true ↔ OpenedByHead depth r := by
  induction r generalizing depth with
  | nil =>
      refine iff_of_false Bool.false_ne_true ?_
      rintro ⟨inner, rest, heq, -⟩
      simp at heq
  | cons c r ih =>
      by_cases hfound : depth = 0 ∧ c = '('
      · obtain ⟨rfl, rfl⟩ := hfound
        constructor
        · intro hhead
          exact ⟨[], r, rfl, rfl, by simp, hhead⟩
        · rintro ⟨inner, rest, heq, -, hstart, hhead⟩
          cases inner with
          | nil =>
              cases heq
              exact hhead
          | cons d inner =>
              obtain ⟨rfl, -⟩ := List.cons.inj heq
              exact absurd (hstart ['('] (List.prefix_append _ _)) (by decide)
      · have hopen : [c].count '(' ≤ depth + [c].count ')' := by
          by_cases hc : c = '('
          · have hdepth : depth ≠ 0 := fun hzero => hfound ⟨hzero, hc⟩
            have hone : [c].count '(' = 1 := by simp [hc]
            omega
          · simp [hc]
        have hstep := Nat.sub_add_cancel hopen
        rw [closesControlHead_cons hstep, openedByHead_cons hstep, ih]

theorem closesHead_iff (t : Text) :
    ClosesHead t ↔ closesControlHead 0 (')' :: t.reverse) = true := by
  show _ ↔ closesControlHead 1 t.reverse = true
  rw [closesControlHead_iff]
  constructor
  · rintro ⟨head, blanks, inner, word, rfl, henclosed, hblanks, hword, hmem⟩
    refine ⟨inner.reverse, (head ++ blanks).reverse, by simp, ?_, fun start hprefix => ?_, ?_⟩
    · rw [List.count_reverse, List.count_reverse]
      exact henclosed.1
    · have hle := henclosed.2 start.reverse (List.reverse_prefix.mp (by rwa [List.reverse_reverse]))
      rwa [List.count_reverse, List.count_reverse] at hle
    · rw [controlHeads_contains_iff, List.reverse_reverse]
      exact ⟨head, blanks, word, rfl, hblanks, hword, hmem⟩
  · rintro ⟨inner, rest, heq, hsame, hstart, hhead⟩
    obtain ⟨head, blanks, word, hrest, hblanks, hword, hmem⟩ :=
      (controlHeads_contains_iff rest).mp hhead
    refine ⟨head, blanks, inner.reverse, word, ?_, ⟨?_, fun ending hsuffix => ?_⟩, hblanks, hword,
      hmem⟩
    · rw [← hrest, ← List.reverse_reverse t, heq]
      simp
    · rw [List.count_reverse, List.count_reverse]
      exact hsame
    · have hle := hstart ending.reverse (by rwa [← List.reverse_suffix, List.reverse_reverse])
      rwa [List.count_reverse, List.count_reverse] at hle

/-! ## The text read backwards -/

/-- A block comment at the end of a text reaches back to the last place where one can begin. -/
theorem beforeComment?_reverse_iff {t before : Text} :
    beforeComment? t.reverse = some before.reverse ↔ ∃ body,
      Text.includes "/*".toList body = false ∧
        t = before ++ "/*".toList ++ body ++ "*/".toList := by
  constructor
  · intro h
    unfold beforeComment? at h
    split at h
    · next r hr =>
        have hrest := Text.after?_eq_some_iff.mp h
        have hwhole := Text.breakAt_append (Text.startsWith ['*', '/']) r
        refine ⟨(Text.breakAt (Text.startsWith ['*', '/']) r).1.reverse, ?_, ?_⟩
        · rw [Bool.eq_false_iff]
          intro hincludes
          obtain ⟨first, second, hbody⟩ := Text.includes_iff.mp hincludes
          have hnot := Text.breakAt_not_stop (Text.startsWith ['*', '/']) r second.reverse '*'
            ('/' :: first.reverse)
            (by rw [← List.reverse_reverse (Text.breakAt _ r).1, hbody]; simp)
          rw [Bool.eq_false_iff] at hnot
          exact hnot (Text.startsWith_iff.mpr ⟨_, rfl⟩)
        · have hall : t.reverse = '/' :: '*' :: ((Text.breakAt (Text.startsWith ['*', '/']) r).1
              ++ (['*', '/'] ++ before.reverse)) := by
            rw [hr, ← hrest, hwhole]
          rw [← List.reverse_reverse t, hall]
          simp
    · cases h
  · rintro ⟨body, hbody, rfl⟩
    have hbreak : Text.breakAt (Text.startsWith ['*', '/'])
        (body.reverse ++ '*' :: '/' :: before.reverse)
          = (body.reverse, '*' :: '/' :: before.reverse) := by
      refine Text.breakAt_eq (Text.startsWith_iff.mpr ⟨before.reverse, rfl⟩)
        fun start c more heq => ?_
      rw [Bool.eq_false_iff]
      intro hstarts
      obtain ⟨rest, hrest⟩ := Text.startsWith_iff.mp hstarts
      obtain ⟨rfl, hmore⟩ := List.cons.inj hrest
      cases more with
      | nil => exact absurd (List.cons.inj hmore).1 (by decide)
      | cons d more =>
          obtain ⟨rfl, -⟩ := List.cons.inj hmore
          rw [Bool.eq_false_iff] at hbody
          refine hbody (Text.includes_iff.mpr ⟨more.reverse, start.reverse, ?_⟩)
          rw [← List.reverse_reverse body, heq]
          simp
    have hreverse : (before ++ "/*".toList ++ body ++ "*/".toList).reverse
        = '/' :: '*' :: (body.reverse ++ '*' :: '/' :: before.reverse) := by
      simp
    rw [hreverse, beforeComment?, hbreak]
    exact Text.after?_eq_some_iff.mpr rfl

theorem beforeComment?_length {r before : Text} (h : beforeComment? r = some before) :
    before.length < r.length := by
  obtain ⟨body, -, hr⟩ := beforeComment?_reverse_iff.mp
    (by rwa [List.reverse_reverse, List.reverse_reverse] :
      beforeComment? r.reverse.reverse = some before.reverse.reverse)
  have hlength := congrArg List.length hr
  simp only [List.length_append, List.length_reverse] at hlength
  have hopener : "/*".toList.length = 2 := rfl
  omega

theorem beforeBlanks_eq (lineBreak : Bool) (r : Text) :
    beforeBlanks lineBreak r =
      match beforeComment? (r.dropWhile isBlank) with
      | some before => beforeBlanks (lineBreak || (r.takeWhile isBlank).contains '\n') before
      | none => (r.dropWhile isBlank, lineBreak || (r.takeWhile isBlank).contains '\n') := by
  rw [beforeBlanks]
  cases h : beforeComment? (r.dropWhile isBlank) with
  | none => rfl
  | some before =>
      have hlt := beforeComment?_length h
      have hle := Text.dropWhile_length_le isBlank r
      exact if_pos (by omega)

/-- What the decision on a text is made by, given backwards: it ends neither in a blank nor in a
comment. -/
def codeEnd (r : Text) : Text := (beforeBlanks true r).1

theorem codeEnd_eq (r : Text) :
    codeEnd r = match beforeComment? (r.dropWhile isBlank) with
      | some before => codeEnd before
      | none => r.dropWhile isBlank := by
  rw [codeEnd, beforeBlanks_eq]
  split <;> rfl

/-- A line break that was seen stays seen. -/
theorem beforeBlanks_true (r : Text) : beforeBlanks true r = (codeEnd r, true) := by
  induction hlength : r.length using Nat.strong_induction_on generalizing r with
  | h n ih =>
      rw [codeEnd, beforeBlanks_eq]
      split
      · next before h =>
          have hlt := beforeComment?_length h
          have hle := Text.dropWhile_length_le isBlank r
          rw [Bool.true_or, ih before.length (by omega) before rfl]
      · rfl

/-- The decision on a text that ends in code, given backwards. -/
def goesOn : Text → Bool
  | [] => false
  | c :: r =>
    if c == ')' then !closesControlHead 0 (c :: r)
    else if c == ']' || c == '\x7d' || c == '"' || c == '\x27' || c == '\x60' then true
    else isCodeWordChar c && !operandKeywords.contains (trailingWord (c :: r))

theorem needsSeparator_line (t : Text) :
    needsSeparator (t ++ ['\n']) = goesOn (codeEnd t.reverse) := by
  have hbefore : beforeBlanks false (t ++ ['\n']).reverse = (codeEnd t.reverse, true) := by
    rw [List.reverse_append, List.reverse_singleton, List.singleton_append, ← beforeBlanks_true,
      beforeBlanks_eq, beforeBlanks_eq true]
    rfl
  rw [needsSeparator, hbefore]
  cases codeEnd t.reverse <;> rfl

/-! ## The decision -/

theorem needsSeparator_blank {c : Char} (hc : isBlank c = true) (t : Text) :
    needsSeparator (t ++ [c] ++ ['\n']) = needsSeparator (t ++ ['\n']) := by
  rw [needsSeparator_line, needsSeparator_line, List.reverse_concat, codeEnd_eq (c :: t.reverse),
    codeEnd_eq t.reverse, List.dropWhile_cons_of_pos hc]

/-- **Block comments are passed over** if they do not hold the beginning of another. -/
theorem needsSeparator_comment {body : Text} (hbody : Text.includes "/*".toList body = false)
    (t : Text) :
    needsSeparator (t ++ "/*".toList ++ body ++ "*/".toList ++ ['\n'])
      = needsSeparator (t ++ ['\n']) := by
  have hcomment : beforeComment? (t ++ "/*".toList ++ body ++ "*/".toList).reverse
      = some t.reverse := beforeComment?_reverse_iff.mpr ⟨body, hbody, rfl⟩
  have hfirst : (t ++ "/*".toList ++ body ++ "*/".toList).reverse
      = '/' :: '*' :: (t ++ "/*".toList ++ body).reverse := by
    simp
  have hdrop : (t ++ "/*".toList ++ body ++ "*/".toList).reverse.dropWhile isBlank
      = (t ++ "/*".toList ++ body ++ "*/".toList).reverse := by
    rw [hfirst]
    exact List.dropWhile_cons_of_neg (by decide)
  rw [needsSeparator_line, needsSeparator_line, codeEnd_eq, hdrop, hcomment]

/-- Code at the end of a text decides. -/
theorem needsSeparator_code {t : Text} {c : Char} (hc : isBlank c = false)
    (hcode : beforeComment? (c :: t.reverse) = none) :
    needsSeparator (t ++ [c] ++ ['\n']) = goesOn (c :: t.reverse) := by
  have hdrop : (c :: t.reverse).dropWhile isBlank = c :: t.reverse :=
    List.dropWhile_cons_of_neg (by rw [hc]; exact Bool.false_ne_true)
  rw [needsSeparator_line, List.reverse_concat, codeEnd_eq, hdrop, hcode]

theorem beforeComment?_of_ne {c : Char} (hc : c ≠ '/') (r : Text) :
    beforeComment? (c :: r) = none := by
  unfold beforeComment?
  split
  · next heq => exact absurd (List.cons.inj heq).1 hc
  · rfl

theorem valueMarks_plain {c : Char} (hc : c ∈ ')' :: valueMarks) :
    isBlank c = false ∧ isCodeWordChar c = false ∧ c ≠ '/' := by
  have hall : (')' :: valueMarks).all
      (fun c => !isBlank c && !isCodeWordChar c && c != '/') = true := by
    decide
  simpa [and_assoc] using List.all_eq_true.mp hall c hc

/-- A mark at the end of a text decides. -/
theorem needsSeparator_mark {c : Char} (hc : c ∈ ')' :: valueMarks) {t : Text} :
    needsSeparator (t ++ [c] ++ ['\n']) = goesOn (c :: t.reverse) := by
  obtain ⟨hblank, -, hslash⟩ := valueMarks_plain hc
  exact needsSeparator_code hblank (beforeComment?_of_ne hslash _)

theorem mem_valueMarks_iff {c : Char} : c ∈ valueMarks ↔
    (c == ']' || c == '\x7d' || c == '"' || c == '\x27' || c == '\x60') = true := by
  rw [show valueMarks = [']', '\x7d', '"', '\x27', '\x60'] from rfl]
  simp [or_assoc]

theorem goesOn_parenthesis (r : Text) : goesOn (')' :: r) = !closesControlHead 0 (')' :: r) := rfl

theorem goesOn_mark {c : Char} (hc : c ∈ valueMarks) (r : Text) : goesOn (c :: r) = true := by
  have hcall : ¬(c == ')') = true := by
    intro heq
    rw [beq_iff_eq.mp heq] at hc
    exact absurd hc (by decide)
  rw [goesOn, if_neg hcall, if_pos (mem_valueMarks_iff.mp hc)]

theorem goesOn_of_not_mark {c : Char} (hc : c ∉ ')' :: valueMarks) (r : Text) :
    goesOn (c :: r) = (isCodeWordChar c && !operandKeywords.contains (trailingWord (c :: r))) := by
  obtain ⟨hcall, hmark⟩ := not_or.mp (mt List.mem_cons.mpr hc)
  rw [goesOn, if_neg (by simpa using hcall), if_neg (mt mem_valueMarks_iff.mpr hmark)]

/-- A word at the end of a text decides. -/
theorem needsSeparator_endsInWord {t word : Text} (h : EndsInWord t word) :
    needsSeparator (t ++ ['\n']) = !operandKeywords.contains word := by
  have hword := h.trailingWord
  obtain ⟨u, c, rfl, hblank, hchar⟩ := h.last
  have hslash : c ≠ '/' := by
    rintro rfl
    exact absurd hchar (by decide)
  have hmark : c ∉ ')' :: valueMarks := by
    intro hmem
    rw [(valueMarks_plain hmem).2.1] at hchar
    cases hchar
  rw [List.reverse_concat] at hword
  rw [needsSeparator_code hblank (beforeComment?_of_ne hslash _), goesOn_of_not_mark hmark, hword,
    hchar, Bool.true_and]

/-- The word that ends a text, if its last character belongs to one. -/
theorem exists_endsInWord {t : Text} {c : Char} (hblank : isBlank c = false)
    (hchar : isCodeWordChar c = true) : ∃ word, EndsInWord (t ++ [c]) word := by
  obtain ⟨before, word, heq, -, hchars, hbefore⟩ := exists_trailingWord (t ++ [c])
  refine ⟨word, ⟨before, heq, hbefore⟩, hchars, c, ?_, hblank⟩
  have hlast : (before ++ word).getLast? = some c := by
    rw [← heq, List.getLast?_concat]
  cases word with
  | nil =>
      rw [List.append_nil] at hlast
      rw [hbefore c hlast] at hchar
      cases hchar
  | cons d word =>
      rw [List.getLast?_append, List.getLast?_cons] at hlast
      rw [List.getLast?_cons]
      exact hlast

/-- Code that needs a separator behind it continues. -/
theorem continues_of_code {t : Text} {c : Char} (hblank : isBlank c = false)
    (hcode : beforeComment? (c :: t.reverse) = none)
    (h : needsSeparator (t ++ [c] ++ ['\n']) = true) : Continues (t ++ [c]) := by
  by_cases hchar : isCodeWordChar c = true
  · obtain ⟨word, hword⟩ : ∃ word, EndsInWord (t ++ [c]) word := exists_endsInWord hblank hchar
    rw [needsSeparator_endsInWord hword] at h
    exact .word hword (by simpa using h)
  rw [needsSeparator_code hblank hcode] at h
  by_cases hcall : c = ')'
  · subst hcall
    refine .call fun hhead => ?_
    rw [goesOn_parenthesis, (closesHead_iff t).mp hhead] at h
    cases h
  by_cases hmark : c ∈ valueMarks
  · exact .mark t hmark
  · rw [goesOn_of_not_mark (not_or.mpr ⟨hcall, hmark⟩ ∘ List.mem_cons.mp)] at h
    exact absurd (Bool.and_eq_true_iff.mp h).1 hchar

/-- **A semicolon is put in front of a template on a new line exactly if the text before it
continues.** -/
theorem needsSeparator_iff_continues (t : Text) :
    needsSeparator (t ++ ['\n']) = true ↔ Continues t := by
  constructor
  · -- from the end of the text, which is blank, a comment or code
    induction hlength : t.length using Nat.strong_induction_on generalizing t with
    | h n ih =>
        intro h
        cases t using List.reverseRecOn with
        | nil =>
            rw [needsSeparator_line, codeEnd_eq] at h
            exact absurd h Bool.false_ne_true
        | append_singleton t c =>
            rw [List.length_append, List.length_singleton] at hlength
            by_cases hc : isBlank c = true
            · rw [needsSeparator_blank hc] at h
              exact .blank hc (ih t.length (by omega) t rfl h)
            rw [Bool.not_eq_true] at hc
            cases hcomment : beforeComment? (c :: t.reverse) with
            | none => exact continues_of_code hc hcomment h
            | some before =>
                rw [← List.reverse_concat, ← List.reverse_reverse before,
                  beforeComment?_reverse_iff] at hcomment
                obtain ⟨body, hbody, htext⟩ := hcomment
                have hshorter := congrArg List.length htext
                simp only [List.length_append, List.length_singleton] at hshorter
                have hopener : "/*".toList.length = 2 := rfl
                rw [htext] at h ⊢
                rw [needsSeparator_comment hbody] at h
                exact .comment hbody (ih before.reverse.length (by omega) _ rfl h)
  · intro h
    induction h with
    | mark t hmark => rw [needsSeparator_mark (List.mem_cons_of_mem _ hmark), goesOn_mark hmark]
    | @call t hhead =>
        rw [closesHead_iff, Bool.not_eq_true] at hhead
        rw [needsSeparator_mark List.mem_cons_self, goesOn_parenthesis, hhead, Bool.not_false]
    | word hword hkeyword =>
        rw [needsSeparator_endsInWord hword]
        simpa using hkeyword
    | blank hc _ ih => rw [needsSeparator_blank hc, ih]
    | comment hbody _ ih => rw [needsSeparator_comment hbody, ih]

/-! ## Comments before a template -/

/-- A text in which a block comment begins has a last place where one does. -/
theorem exists_last_opener {t : Text} (h : Text.includes "/*".toList t = true) :
    ∃ shown hidden, t = shown ++ "/*".toList ++ hidden ∧
      Text.includes "/*".toList hidden = false := by
  induction t with
  | nil => cases h
  | cons c t ih =>
      by_cases hlater : Text.includes "/*".toList t = true
      · obtain ⟨shown, hidden, rfl, hhidden⟩ := ih hlater
        exact ⟨c :: shown, hidden, rfl, hhidden⟩
      · rw [Text.includes, Bool.or_eq_true, or_iff_left hlater] at h
        obtain ⟨hidden, hfirst⟩ := Text.startsWith_iff.mp h
        obtain ⟨-, rfl⟩ := List.cons.inj hfirst
        refine ⟨[], hidden, hfirst, ?_⟩
        rw [Bool.not_eq_true] at hlater
        exact (Bool.or_eq_false_iff.mp hlater).2

/-- A line comment that ends in a word makes the line end in it. -/
theorem EndsInWord.remark {c word : Text} (h : EndsInWord c word) (p : Text) :
    EndsInWord (p ++ "//".toList ++ c) word := by
  obtain ⟨before, rfl, hbefore⟩ := h.whole
  refine ⟨⟨p ++ "//".toList ++ before, (List.append_assoc _ _ _).symm, ?_⟩, h.chars, h.visible⟩
  intro d hd
  rw [List.getLast?_append] at hd
  cases hlast : before.getLast? with
  | none =>
      rw [hlast, List.getLast?_append] at hd
      cases hd
      decide
  | some e =>
      rw [hlast] at hd
      cases hd
      exact hbefore d hlast

/-- **Comments before a template.** The text of a line comment counts as code: the comment leaves
the decision as it is if and only if the line with the comment continues like the line without it.
If the comment ends in a word, then that word alone decides, whatever stands before the comment. A
block comment is passed over if it does not hold the beginning of another one; if it does, then it
counts as code up to the last of these. -/
theorem needsSeparator_comment_iff (p c d : Text) :
    (needsSeparator (p ++ "//".toList ++ c ++ ['\n']) = needsSeparator (p ++ ['\n']) ↔
      (Continues (p ++ "//".toList ++ c) ↔ Continues p)) ∧
    (∀ word, EndsInWord c word →
      (needsSeparator (p ++ "//".toList ++ c ++ ['\n']) = true ↔ word ∉ operandKeywords)) ∧
    (needsSeparator (p ++ "/*".toList ++ d ++ "*/".toList ++ ['\n'])
        = needsSeparator (p ++ ['\n']) ↔
      ∀ shown hidden, d = shown ++ "/*".toList ++ hidden →
        Text.includes "/*".toList hidden = false →
          (Continues (p ++ "/*".toList ++ shown) ↔ Continues p)) := by
  have hsame {s t : Text} : needsSeparator (s ++ ['\n']) = needsSeparator (t ++ ['\n']) ↔
      (Continues s ↔ Continues t) := by
    rw [Bool.eq_iff_iff, needsSeparator_iff_continues, needsSeparator_iff_continues]
  have hcut {shown hidden : Text} (hhidden : Text.includes "/*".toList hidden = false) :
      needsSeparator (p ++ "/*".toList ++ (shown ++ "/*".toList ++ hidden) ++ "*/".toList ++ ['\n'])
        = needsSeparator (p ++ "/*".toList ++ shown ++ ['\n']) := by
    rw [← needsSeparator_comment hhidden (p ++ "/*".toList ++ shown)]
    simp only [List.append_assoc]
  refine ⟨hsame, fun word hword => ?_, ?_, fun h => ?_⟩
  · rw [needsSeparator_endsInWord (hword.remark p)]
    simp
  · rintro h shown hidden rfl hhidden
    rwa [hcut hhidden, hsame] at h
  · by_cases hbody : Text.includes "/*".toList d = true
    · obtain ⟨shown, hidden, rfl, hhidden⟩ := exists_last_opener hbody
      rw [hcut hhidden, hsame]
      exact h shown hidden rfl hhidden
    · exact needsSeparator_comment (Bool.eq_false_iff.mpr hbody) p

/-- A line comment between `=` and a template looks like a value, so that the statement is cut in
two. An empty comment hides that a line goes on, and so does a block comment with the beginning of
another in it. -/
theorem comment_changes_separator :
    needsSeparator "x =\n".toList = false ∧ needsSeparator "x = // c\n".toList = true ∧
      needsSeparator "x\n".toList = true ∧ needsSeparator "x //\n".toList = false ∧
      needsSeparator "x /* /* */\n".toList = false := by
  decide +kernel

end Script
end Hypertext

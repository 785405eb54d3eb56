import Hypertext.Proofs.StringLiterals
import Hypertext.Text.Quoted

set_option autoImplicit false

/-! # Quoted text can be read off and stays on its line

Between double quotes a character stands for itself, behind a backslash, or as its code point. This
file proves that what is written for one character is never the beginning of what is written for
another (`escapeShown_append_inj`), so the text between quotes and the place of the closing quote
can be told from anything that begins with it (`quoted_append_inj`).

Line breaks never stand for themselves. Those beyond ASCII are escaped because they are not
printable, which is looked up in a table by binary search. The search finds whatever lies in one of
the ranges if these ascend (`CodePoints.search_of_range`), and the ranges of the table do.
-/

namespace Hypertext

/-! ## Binary search -/

namespace CodePoints

/-- Whether ranges begin at `low` or later, each behind the one before it. -/
def ascends : Nat → List (Nat × Nat) → Bool
  | _, [] => true
  | low, range :: ranges => low ≤ range.1 && range.1 ≤ range.2 && ascends (range.2 + 1) ranges

/-- No range is empty, and each ends before the later ones begin. -/
structure Ascending (ranges : List (Nat × Nat)) : Prop where
  nonempty : ∀ range ∈ ranges, range.1 ≤ range.2
  ordered : ranges.Pairwise fun range later => range.2 < later.1

theorem ascends_cons {low : Nat} {range : Nat × Nat} {ranges : List (Nat × Nat)}
    (h : ascends low (range :: ranges) = true) :
    low ≤ range.1 ∧ range.1 ≤ range.2 ∧ ascends (range.2 + 1) ranges = true := by
  simpa [ascends, and_assoc] using h

theorem le_of_ascends {ranges : List (Nat × Nat)} {low : Nat} (h : ascends low ranges = true) :
    ∀ range ∈ ranges, low ≤ range.1 := by
  induction ranges generalizing low with
  | nil => exact fun _ hmem => absurd hmem List.not_mem_nil
  | cons range ranges ih =>
      obtain ⟨hlow, hends, hrest⟩ := ascends_cons h
      intro other hother
      rcases List.mem_cons.mp hother with rfl | hother
      · exact hlow
      · have := ih hrest other hother
        omega

theorem ascending_of_ascends {ranges : List (Nat × Nat)} {low : Nat}
    (h : ascends low ranges = true) : Ascending ranges := by
  induction ranges generalizing low with
  | nil => exact ⟨fun _ hmem => absurd hmem List.not_mem_nil, List.Pairwise.nil⟩
  | cons range ranges ih =>
      obtain ⟨-, hends, hrest⟩ := ascends_cons h
      obtain ⟨hnonempty, hordered⟩ := ih hrest
      refine ⟨?_, hordered.cons fun later hlater => le_of_ascends hrest later hlater⟩
      intro other hother
      rcases List.mem_cons.mp hother with rfl | hother
      · exact hends
      · exact hnonempty other hother

theorem Ascending.first_le_last {ranges : Array (Nat × Nat)} (h : Ascending ranges.toList) {i : Nat}
    (hi : i < ranges.size) : ranges[i].1 ≤ ranges[i].2 :=
  h.nonempty _ (Array.getElem_mem_toList hi)

theorem Ascending.last_lt_first {ranges : Array (Nat × Nat)} (h : Ascending ranges.toList)
    {i k : Nat} (hik : i < k) (hk : k < ranges.size) : ranges[i].2 < ranges[k].1 :=
  List.pairwise_iff_getElem.mp h.ordered i k (Nat.lt_trans hik hk) hk hik

/-- **The search finds what lies in a range.** The range stays between the two bounds. -/
theorem search_of_range {ranges : Array (Nat × Nat)} (h : Ascending ranges.toList)
    {n low high k : Nat} (hk : k < ranges.size) (hlow : low ≤ k) (hhigh : k < high)
    (hsize : high ≤ ranges.size) (hfirst : ranges[k].1 ≤ n) (hlast : n ≤ ranges[k].2) :
    search ranges n low high = true := by
  fun_induction search ranges n low high with
  | case1 low high hlt middle range hbelow ih =>
      have hmiddle : middle < ranges.size := by omega
      rw [show range = ranges[middle] by simp [range, hmiddle]] at hbelow
      -- all ranges from the middle one on begin above the number
      have hleft : k < middle := by
        by_contra hright
        rcases Nat.eq_or_lt_of_le (Nat.le_of_not_lt hright) with heq | hafter
        · simp only [heq] at hbelow
          omega
        · have := h.first_le_last hmiddle
          have := h.last_lt_first hafter hk
          omega
      exact ih hlow hleft (by omega)
  | case2 low high hlt middle range hbelow habove ih =>
      have hmiddle : middle < ranges.size := by omega
      rw [show range = ranges[middle] by simp [range, hmiddle]] at habove
      -- all ranges up to the middle one end below the number
      have hright : middle < k := by
        by_contra hleft
        rcases Nat.eq_or_lt_of_le (Nat.le_of_not_lt hleft) with heq | hbefore
        · simp only [← heq] at habove
          omega
        · have := h.first_le_last hmiddle
          have := h.last_lt_first hbefore hmiddle
          omega
      exact ih hright hhigh hsize
  | case3 => rfl
  | case4 low high hlt => omega

theorem has_of_range {set : CodePoints} (h : Ascending set.ranges.toList) {range : Nat × Nat}
    (hrange : range ∈ set.ranges.toList) {c : Char} (hfirst : range.1 ≤ c.toNat)
    (hlast : c.toNat ≤ range.2) : set.has c = true := by
  obtain ⟨k, hk, rfl⟩ := List.getElem_of_mem hrange
  exact search_of_range h hk (Nat.zero_le k) hk (Nat.le_refl _) hfirst hlast

/-- The ranges of a table, from the characters of its lines. -/
theorem ranges_ofRanges {lines : List String} {texts : List Text}
    (h : List.Forall₂ (fun line text => line = String.ofList text) lines texts) :
    (ofRanges lines).ranges.toList = (texts.flatMap (pieces (· == ' '))).map readRange := by
  rw [ofRanges, List.toList_toArray]
  congr 1
  induction h with
  | nil => rfl
  | cons hline _ ih =>
      rw [List.flatMap_cons, List.flatMap_cons, ih, hline, String.toList_ofList]

/-- What is said of the ranges of a table can be evaluated on the characters of its lines. -/
theorem of_lines (motive : List (Nat × Nat) → Prop) {lines : List String} {texts : List Text}
    (hlines : List.Forall₂ (fun line text => line = String.ofList text) lines texts)
    (h : motive ((texts.flatMap (pieces (· == ' '))).map readRange)) :
    motive (ofRanges lines).ranges.toList := by
  rw [ranges_ofRanges hlines]
  exact h

end CodePoints

/-- The table of the characters that are not printable ascends and covers the line breaks. -/
theorem unprintableBeyondAscii_ranges :
    CodePoints.ascends 0 unprintableBeyondAscii.ranges.toList = true ∧
      (0x80, 0xA0) ∈ unprintableBeyondAscii.ranges.toList ∧
      (0x2028, 0x202F) ∈ unprintableBeyondAscii.ranges.toList := by
  unfold unprintableBeyondAscii
  apply CodePoints.of_lines fun ranges =>
    CodePoints.ascends 0 ranges = true ∧ (0x80, 0xA0) ∈ ranges ∧ (0x2028, 0x202F) ∈ ranges
  · -- the characters of each line are found by unification
    iterate 76
      apply List.Forall₂.cons
      · rfl
    exact .nil
  · decide +kernel

/-! ## Line breaks -/

namespace Text

/-- The characters that end a line: line feed, vertical tab, form feed, carriage return, next line,
and the separators of lines and paragraphs. -/
def lineEnds : List Char := ['\n', '\x0b', '\x0c', '\r', '\u0085', '\u2028', '\u2029']

/-- Whether a character ends a line. -/
def breaksLine (c : Char) : Bool := lineEnds.contains c

/-- Text that stays on its line. -/
def OneLine (t : Text) : Prop := ∀ c ∈ t, breaksLine c = false

theorem OneLine.append {s t : Text} (hs : OneLine s) (ht : OneLine t) : OneLine (s ++ t) := by
  intro c hc
  rcases List.mem_append.mp hc with hc | hc
  · exact hs c hc
  · exact ht c hc

theorem oneLine_of_all {t : Text} (h : t.all (fun c => !breaksLine c) = true) : OneLine t :=
  fun c hc => by simpa using List.all_eq_true.mp h c hc

/-- Characters of a class without line breaks stay on their line. -/
theorem oneLine_of_class {p : Char → Bool} (hp : lineEnds.all (fun c => !p c) = true) {t : Text}
    (ht : ∀ c ∈ t, p c = true) : OneLine t := by
  intro c hc
  rw [← Bool.not_eq_true, breaksLine, List.contains_iff_mem]
  intro hend
  have hother := List.all_eq_true.mp hp c hend
  rw [ht c hc] at hother
  cases hother

/-- A line break has an escape of its own or is not printable. -/
theorem not_isPrintable_of_breaksLine {c : Char} (h : breaksLine c = true) :
    c = '\n' ∨ c = '\r' ∨ isPrintable c = false := by
  obtain ⟨hascends, hnext, hseparators⟩ := unprintableBeyondAscii_ranges
  have hhas {range : Nat × Nat} (hrange : range ∈ unprintableBeyondAscii.ranges.toList)
      {d : Char} (hfirst : range.1 ≤ d.toNat) (hlast : d.toNat ≤ range.2) :
      unprintableBeyondAscii.has d = true :=
    CodePoints.has_of_range (CodePoints.ascending_of_ascends hascends) hrange hfirst hlast
  have hbeyond {d : Char} (hd : 128 ≤ d.toNat) (h : unprintableBeyondAscii.has d = true) :
      isPrintable d = false := by
    rw [isPrintable, if_neg (Nat.not_lt.mpr hd), h]
    rfl
  have hmem : c ∈ lineEnds := List.contains_iff_mem.mp h
  simp only [lineEnds, List.mem_cons, List.not_mem_nil, or_false] at hmem
  rcases hmem with rfl | rfl | rfl | rfl | rfl | rfl | rfl
  · exact .inl rfl
  · exact .inr (.inr (by decide))
  · exact .inr (.inr (by decide))
  · exact .inr (.inl rfl)
  · exact .inr (.inr (hbeyond (by decide) (hhas hnext (by decide) (by decide))))
  · exact .inr (.inr (hbeyond (by decide) (hhas hseparators (by decide) (by decide))))
  · exact .inr (.inr (hbeyond (by decide) (hhas hseparators (by decide) (by decide))))

/-! ## Escapes -/

/-- Hexadecimal digits are read back as the number that they were written for. -/
theorem readHex_ofNatHex (n : Nat) :
    CodePoints.readHex (ofNatHex n) = n ∧ ∀ c ∈ ofNatHex n, c.isAlphanum = true := by
  have hdigit : ∀ d < 16, (Nat.digitChar d).isAlphanum = true := by decide
  induction n using Nat.strongRecOn with
  | ind n ih =>
      unfold ofNatHex at ih ⊢
      by_cases hn : n < 16
      · rw [Nat.toDigits_of_lt_base hn]
        simp [CodePoints.readHex, Script.hexDigit?_digitChar hn, hdigit n hn]
      · rw [Nat.toDigits_of_base_le (by decide) (Nat.le_of_not_lt hn)]
        obtain ⟨hread, hchars⟩ := ih (n / 16) (by omega)
        have hlast : n % 16 < 16 := by omega
        constructor
        · rw [CodePoints.readHex] at hread ⊢
          rw [List.foldl_append, hread]
          simp only [List.foldl_cons, List.foldl_nil, Script.hexDigit?_digitChar hlast,
            Option.getD_some]
          omega
        · intro c hc
          rcases List.mem_append.mp hc with hc | hc
          · exact hchars c hc
          · rw [List.mem_singleton.mp hc]
            exact hdigit _ hlast

theorem escapeCode_append (c : Char) (r : Text) :
    escapeCode c ++ r = '\\' :: 'u' :: '\x7b' :: (ofNatHex c.toNat ++ '\x7d' :: r) := by
  rw [escapeCode, List.append_assoc, List.append_assoc]
  rfl

/-- The digits of a code point end at the closing brace. -/
theorem escapeCode_append_inj {c d : Char} {r s : Text}
    (h : escapeCode c ++ r = escapeCode d ++ s) : c = d ∧ r = s := by
  have hbrace : ∀ t : Text, ∀ e ∈ ('\x7d' :: t).head?, e.isAlphanum = false := by
    rintro t e ⟨⟩
    decide
  rw [escapeCode_append, escapeCode_append] at h
  simp only [List.cons.injEq, true_and] at h
  obtain ⟨hreadc, hcharsc⟩ := readHex_ofNatHex c.toNat
  obtain ⟨hreadd, hcharsd⟩ := readHex_ofNatHex d.toNat
  obtain ⟨hdigits, hrest⟩ := Script.span_unique hcharsc hcharsd (hbrace r) (hbrace s) h
  rw [hdigits, hreadd] at hreadc
  exact ⟨Char.toNat_inj.mp hreadc.symm, (List.cons.inj hrest).2⟩

/-- The characters that stand behind a backslash under another name. -/
def escapeNames : List (Char × Char) :=
  [('\x00', '0'), ('\t', 't'), ('\r', 'r'), ('\n', 'n'), ('"', '"'), ('\\', '\\')]

/-- What is written for a character. -/
theorem escapeShown_cases (c : Char) :
    (∃ name, (c, name) ∈ escapeNames ∧ escapeShown c = ['\\', name]) ∨
      escapeShown c = escapeCode c ∨
      escapeShown c = [c] ∧ c ≠ '\\' ∧ c ≠ '"' ∧ breaksLine c = false := by
  unfold escapeShown
  repeat' split
  · next h => exact .inl ⟨'0', by simp [escapeNames, beq_iff_eq.mp h], rfl⟩
  · next h => exact .inl ⟨'t', by simp [escapeNames, beq_iff_eq.mp h], rfl⟩
  · next h => exact .inl ⟨'r', by simp [escapeNames, beq_iff_eq.mp h], rfl⟩
  · next h => exact .inl ⟨'n', by simp [escapeNames, beq_iff_eq.mp h], rfl⟩
  · next h => exact .inl ⟨'"', by simp [escapeNames, beq_iff_eq.mp h], rfl⟩
  · next h => exact .inl ⟨'\\', by simp [escapeNames, beq_iff_eq.mp h], rfl⟩
  · exact .inr (.inl rfl)
  · next hreturn hfeed hquote hbackslash hshown =>
      simp only [beq_iff_eq] at hreturn hfeed hquote hbackslash
      refine .inr (.inr ⟨rfl, hbackslash, hquote, ?_⟩)
      rw [← Bool.not_eq_true]
      intro hbreaks
      rcases not_isPrintable_of_breaksLine hbreaks with hc | hc | hc
      · exact hfeed hc
      · exact hreturn hc
      · simp [hc] at hshown

/-- **Escapes can be told apart**, whatever follows them. -/
theorem escapeShown_append_inj {c d : Char} {r s : Text}
    (h : escapeShown c ++ r = escapeShown d ++ s) : c = d ∧ r = s := by
  have hunique : ∀ p ∈ escapeNames, ∀ q ∈ escapeNames, p.2 = q.2 → p.1 = q.1 := by decide
  have hletter : ∀ p ∈ escapeNames, p.2 ≠ 'u' := by decide
  -- escapes of different kinds differ in the first or the second character
  rcases escapeShown_cases c with ⟨name, hname, hc⟩ | hc | ⟨hc, hplain, -⟩
  · rcases escapeShown_cases d with ⟨other, hother, hd⟩ | hd | ⟨hd, hplain, -⟩
    · rw [hc, hd] at h
      simp only [List.cons_append, List.cons.injEq, true_and, List.nil_append] at h
      exact ⟨hunique _ hname _ hother h.1, h.2⟩
    · rw [hc, hd, escapeCode_append] at h
      exact absurd (List.cons.inj (List.cons.inj h).2).1 (hletter _ hname)
    · rw [hc, hd] at h
      exact absurd (List.cons.inj h).1.symm hplain
  · rcases escapeShown_cases d with ⟨other, hother, hd⟩ | hd | ⟨hd, hplain, -⟩
    · rw [hc, hd, escapeCode_append] at h
      exact absurd (List.cons.inj (List.cons.inj h).2).1.symm (hletter _ hother)
    · rw [hc, hd] at h
      exact escapeCode_append_inj h
    · rw [hc, hd, escapeCode_append] at h
      exact absurd (List.cons.inj h).1.symm hplain
  · rcases escapeShown_cases d with ⟨other, hother, hd⟩ | hd | ⟨hd, -, -⟩
    · rw [hc, hd] at h
      exact absurd (List.cons.inj h).1 hplain
    · rw [hc, hd, escapeCode_append] at h
      exact absurd (List.cons.inj h).1 hplain
    · rw [hc, hd] at h
      exact List.cons.inj h

/-- A quote inside of the text is not taken for the closing one. -/
theorem escapeShown_ne_quote (c : Char) (r s : Text) : escapeShown c ++ r ≠ '"' :: s := by
  intro h
  rcases escapeShown_cases c with ⟨name, -, hc⟩ | hc | ⟨hc, -, hquote, -⟩
  · rw [hc] at h
    cases (List.cons.inj h).1
  · rw [hc, escapeCode_append] at h
    cases (List.cons.inj h).1
  · rw [hc] at h
    exact hquote (List.cons.inj h).1

theorem oneLine_escapeShown (c : Char) : OneLine (escapeShown c) := by
  rcases escapeShown_cases c with ⟨name, hname, hc⟩ | hc | ⟨hc, -, -, hbreaks⟩
  · have hnames : ∀ p ∈ escapeNames, breaksLine p.2 = false := by decide
    rw [hc]
    intro d hd
    rcases List.mem_cons.mp hd with rfl | hd
    · decide
    · rw [List.mem_singleton.mp hd]
      exact hnames _ hname
  · have hopen : OneLine "\\u\x7b".toList := oneLine_of_all (by decide)
    have hclose : OneLine ['\x7d'] := oneLine_of_all (by decide)
    have hdigits : OneLine (ofNatHex c.toNat) :=
      oneLine_of_class (by decide) (readHex_ofNatHex c.toNat).2
    rw [hc]
    exact (hopen.append hdigits).append hclose
  · rw [hc]
    intro d hd
    rw [List.mem_singleton.mp hd]
    exact hbreaks

/-! ## Quoted text -/

theorem quoted_append (t r : Text) :
    quoted t ++ r = '"' :: (t.flatMap escapeShown ++ '"' :: r) := by
  rw [quoted, List.append_assoc]
  rfl

/-- **Quoted text can be read off** from anything that begins with it. -/
theorem quoted_append_inj {t u r s : Text} (h : quoted t ++ r = quoted u ++ s) :
    t = u ∧ r = s := by
  rw [quoted_append, quoted_append] at h
  replace h := (List.cons.inj h).2
  induction t generalizing u with
  | nil =>
      cases u with
      | nil => exact ⟨rfl, (List.cons.inj h).2⟩
      | cons d u =>
          rw [List.flatMap_cons, List.append_assoc] at h
          exact absurd h.symm (escapeShown_ne_quote d _ _)
  | cons c t ih =>
      cases u with
      | nil =>
          rw [List.flatMap_cons, List.append_assoc] at h
          exact absurd h (escapeShown_ne_quote c _ _)
      | cons d u =>
          -- read the escape of the first character off both sides
          rw [List.flatMap_cons, List.flatMap_cons, List.append_assoc, List.append_assoc] at h
          obtain ⟨rfl, hrest⟩ := escapeShown_append_inj h
          obtain ⟨rfl, hend⟩ := ih hrest
          exact ⟨rfl, hend⟩

theorem quoted_injective : Function.Injective quoted := fun _ _ h =>
  (quoted_append_inj (congrArg (· ++ []) h)).1

theorem oneLine_quoted (t : Text) : OneLine (quoted t) := by
  have hquote : OneLine ['"'] := oneLine_of_all (by decide)
  have hbody : OneLine (t.flatMap escapeShown) := by
    intro c hc
    obtain ⟨d, -, hd⟩ := List.mem_flatMap.mp hc
    exact oneLine_escapeShown d c hd
  exact (hquote.append hbody).append hquote

end Text
end Hypertext

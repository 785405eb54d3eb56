import Hypertext.Proofs.ErrorPositions
import Hypertext.Proofs.FailedAttempts

set_option autoImplicit false

/-! # Positions and places

An offset counts the bytes before a place of a script, a position its lines and the characters of
its last line. This file proves that nothing is lost between the two: positions stand in the order
of offsets, an offset is found again by going forward over the lines and characters that its
position counts, and so the position in an error leads back to the one place that it was made for
(`ofOffset_identifies`).

Both ways are followed character by character. A character makes a position later, whether or not it
ends a line (`lt_next`), and the position behind a text is what its characters make of the first
position (`ofOffset_append`). On the way back the text before a place falls into whole lines, each
with its line feed, and a part of a line without one.
-/

namespace Hypertext

namespace Text

/-- Goes forward over `n` line feeds: the text up to the last of them, and what follows it. -/
def overLineFeeds? : Nat → Text → Option (Text × Text)
  | 0, t => some ([], t)
  | _ + 1, [] => none
  | n + 1, c :: t =>
    (overLineFeeds? (if c = '\n' then n else n + 1) t).map fun parts => (c :: parts.1, parts.2)

/-- Whole lines hold nothing behind their last line feed. -/
def IsLines (t : Text) : Prop := ∀ c ∈ t.getLast?, c = '\n'

theorem IsLines.tail {c : Char} {t : Text} (h : IsLines (c :: t)) : IsLines t := by
  cases t with
  | nil => simp [IsLines]
  | cons d t => rwa [IsLines, List.getLast?_cons_cons] at h

/-- Whole lines are what is passed on the way over their line feeds. -/
theorem overLineFeeds?_append {lines : Text} (h : IsLines lines) (rest : Text) :
    overLineFeeds? (lines.count '\n') (lines ++ rest) = some (lines, rest) := by
  induction lines with
  | nil => simp [overLineFeeds?]
  | cons c lines ih =>
      have hlines := ih h.tail
      by_cases hc : c = '\n'
      · subst hc
        simp [overLineFeeds?, hlines]
      · -- there is a line feed to come, since the lines end in one
        have hcount : lines.count '\n' ≠ 0 := by
          intro hnone
          cases lines with
          | nil => exact hc (h c rfl)
          | cons d lines =>
              have hlast := h.tail _ (List.getLast?_eq_some_getLast (List.cons_ne_nil d lines))
              have hmem := List.getLast_mem (List.cons_ne_nil d lines)
              rw [hlast] at hmem
              exact List.count_eq_zero.mp hnone hmem
        obtain ⟨n, hn⟩ := Nat.exists_eq_succ_of_ne_zero hcount
        rw [hn] at hlines
        simp [overLineFeeds?, hc, hn, hlines]

/-- The text before a place: whole lines, and a part of a line. -/
theorem exists_lines (t : Text) :
    ∃ lines part, t = lines ++ part ∧ IsLines lines ∧ ∀ c ∈ part, c ≠ '\n' := by
  induction t using List.reverseRecOn with
  | nil => exact ⟨[], [], rfl, by simp [IsLines], by simp⟩
  | append_singleton t c ih =>
      obtain ⟨lines, part, rfl, hlines, hpart⟩ := ih
      by_cases hc : c = '\n'
      · refine ⟨lines ++ part ++ [c], [], (List.append_nil _).symm, ?_, by simp⟩
        simp [IsLines, hc]
      · refine ⟨lines, part ++ [c], List.append_assoc _ _ _, hlines, fun d hd => ?_⟩
        rcases List.mem_append.mp hd with hd | hd
        · exact hpart d hd
        · rwa [List.mem_singleton.mp hd]

theorem takeBytes_append (before after : Text) :
    takeBytes (byteSize before) (before ++ after) = before := by
  rw [takeBytes, cut?_eq_some_iff.mpr ⟨rfl, rfl⟩]
  rfl

end Text

namespace Script
namespace Position

/-! ## The order of positions -/

/-- Positions are compared by line, and on one line by column. -/
instance : LT Position where
  lt a b := a.line < b.line ∨ a.line = b.line ∧ a.column < b.column

instance (a b : Position) : Decidable (a < b) :=
  inferInstanceAs (Decidable (a.line < b.line ∨ a.line = b.line ∧ a.column < b.column))

variable {a b c : Position}

theorem lt_iff : a < b ↔ a.line < b.line ∨ a.line = b.line ∧ a.column < b.column := Iff.rfl

theorem lt_trans (hab : a < b) (hbc : b < c) : a < c := by
  rw [lt_iff] at hab hbc ⊢
  omega

/-! ## One character further -/

/-- The position behind a character that stands at the given position. -/
def next (position : Position) (c : Char) : Position :=
  if c = '\n' then ⟨position.line + 1, 1⟩ else ⟨position.line, position.column + 1⟩

/-- **One character.** What stands behind a character has a later position. -/
theorem lt_next (position : Position) (c : Char) : position < position.next c := by
  rw [lt_iff, next]
  split
  · exact .inl (Nat.lt_succ_self _)
  · exact .inr ⟨rfl, Nat.lt_succ_self _⟩

/-- **A text.** What stands behind a text has a later position, unless the text is empty. -/
theorem lt_foldl_next (position : Position) {t : Text} (ht : t ≠ []) :
    position < t.foldl next position := by
  induction t generalizing position with
  | nil => exact absurd rfl ht
  | cons c t ih =>
      have hfirst := lt_next position c
      cases t with
      | nil => exact hfirst
      | cons d t => exact lt_trans hfirst (ih (position.next c) (List.cons_ne_nil d t))

/-- The position of a place is found by going through the text before it. -/
theorem ofOffset_append (before after : Text) :
    ofOffset (before ++ after) (Text.byteSize before) = before.foldl next ⟨1, 1⟩ := by
  rw [ofOffset, Text.takeBytes_append]
  -- from the last character, since the column is counted backwards
  induction before using List.reverseRecOn with
  | nil => rfl
  | append_singleton before c ih =>
      rw [List.foldl_concat, ← ih, List.count_append, List.reverse_concat, next]
      by_cases hc : c = '\n'
      · simp [hc]
      · simp [hc]

/-- Of two places the later one has the later position. -/
theorem ofOffset_lt {source : Text} {p q : Nat} (hp : source.IsBoundary p)
    (hq : source.IsBoundary q) (hlt : p < q) : ofOffset source p < ofOffset source q := by
  obtain ⟨before, after, rfl, rfl⟩ := hp
  obtain ⟨before', after', heq, rfl⟩ := hq
  rcases List.append_eq_append_iff.mp heq with ⟨between, rfl, -⟩ | ⟨between, rfl, -⟩
  · -- the text before the later place goes on from the earlier one
    have hbetween : between ≠ [] := by
      rintro rfl
      rw [List.append_nil] at hlt
      exact Nat.lt_irrefl _ hlt
    rw [ofOffset_append, heq, ofOffset_append, List.foldl_append]
    exact lt_foldl_next _ hbetween
  · rw [Text.byteSize_append] at hlt
    omega

/-! ## The way back -/

/-- The offset of the place that is reached by going forward over as many line feeds as there are
lines before the position, and from there over as many characters as there are columns before it. -/
def toOffset? (source : Text) (position : Position) : Option Nat := do
  let (lines, rest) ← Text.overLineFeeds? (position.line - 1) source
  if position.column - 1 ≤ rest.length then
    return Text.byteSize lines + Text.byteSize (rest.take (position.column - 1))
  else none

/-- The lines before a place and the characters of its own line make up its position. -/
theorem ofOffset_lines {lines part : Text} (hlines : Text.IsLines lines)
    (hpart : ∀ c ∈ part, c ≠ '\n') (after : Text) :
    ofOffset (lines ++ part ++ after) (Text.byteSize (lines ++ part))
      = ⟨lines.count '\n' + 1, part.length + 1⟩ := by
  have hcount : part.count '\n' = 0 := List.count_eq_zero.mpr fun hmem => hpart _ hmem rfl
  have htake : (part.reverse ++ lines.reverse).takeWhile (· != '\n') = part.reverse := by
    refine (span_append (fun c hc => ?_) fun c hc => ?_).1
    · simpa using hpart c (List.mem_reverse.mp hc)
    · rw [List.head?_reverse] at hc
      simp [hlines c hc]
  rw [ofOffset, Text.takeBytes_append, List.count_append, hcount, List.reverse_append, htake,
    List.length_reverse, Nat.add_zero]

theorem toOffset?_ofOffset {source : Text} {p : Nat} (h : source.IsBoundary p) :
    (ofOffset source p).toOffset? source = some p := by
  obtain ⟨before, after, rfl, rfl⟩ := h
  obtain ⟨lines, part, rfl, hlines, hpart⟩ := before.exists_lines
  rw [ofOffset_lines hlines hpart, toOffset?, List.append_assoc]
  simp [Text.overLineFeeds?_append hlines]

/-- A position denotes one place of a script: the place has this position and is reached by going
forward to it, and no other place has the same. -/
structure Denotes (position : Position) (source : Text) (offset : Nat) : Prop where
  boundary : source.IsBoundary offset
  here : ofOffset source offset = position
  reached : position.toOffset? source = some offset
  only : ∀ other, source.IsBoundary other → ofOffset source other = position → other = offset

theorem denotes_ofOffset {source : Text} {p : Nat} (h : source.IsBoundary p) :
    (ofOffset source p).Denotes source p where
  boundary := h
  here := rfl
  reached := toOffset?_ofOffset h
  only := by
    intro other hother heq
    have hreached := toOffset?_ofOffset hother
    rw [heq, toOffset?_ofOffset h] at hreached
    exact (Option.some.inj hreached).symm

end Position

/-! ## Errors -/

theorem StandsAt.isBoundary {source t : Text} {offset : Nat} (h : StandsAt source t offset) :
    source.IsBoundary offset := by
  obtain ⟨before, after, hsource, hsize⟩ := h
  exact ⟨before, t ++ after, hsource, hsize⟩

theorem StandsAt.inside {source t : Text} {base offset : Nat} (h : StandsAt source t base)
    (hoffset : t.IsBoundary offset) : source.IsBoundary (base + offset) := by
  obtain ⟨before, after, ht, hsize⟩ := hoffset
  have hinner : StandsAt t [] offset := ⟨before, after, ht, hsize⟩
  exact (h.trans hinner).isBoundary

/-- What cannot be read in a script is reported at a place of it. -/
theorem unreadable_denotes {options : Options} {source : Text} {position : Position}
    {cause : ScanError} (h : transform options source = .error (.unreadable position cause)) :
    ∃ text base, Fragment source text base ∧ position.Denotes source (base + cause.offset) := by
  rcases transform_blames h with hoverlap | hblames
  · cases hoverlap
  cases hblames with
  | @fragment text base _ hfragment hscan =>
      have hplace := hfragment.standsAt.inside (scan_error_isBoundary hscan)
      exact ⟨text, base, hfragment, Position.denotes_ofOffset hplace⟩
  | @escape base offset literal quasi sequence hliteral hquasi hcook =>
      obtain ⟨_, _, heq, hescape⟩ := cook_error hcook
      cases heq
      obtain ⟨text, items, hfragment, -⟩ := hliteral.place
      have hplace := ((hliteral.quasi_standsAt hquasi).trans hescape.standsAt).isBoundary
      rw [Nat.add_assoc] at hplace
      exact ⟨text, base, hfragment, Position.denotes_ofOffset hplace⟩

/-- A template that is refused is reported at the place where it begins. -/
theorem uncompilable_denotes {options : Options} {source : Text} {position : Position}
    {cause : LoweringError} (h : transform options source = .error (.uncompilable position cause)) :
    ∃ base literal, RecognizedAt options source base literal ∧
      position.Denotes source (base + literal.span.start) := by
  rcases transform_blames h with hoverlap | hblames
  · cases hoverlap
  cases hblames with
  | @template base literal _ hliteral _ =>
      obtain ⟨tag, blanks, -, hstands⟩ := hliteral.spelled
      exact ⟨base, literal, hliteral, Position.denotes_ofOffset hstands.isBoundary⟩

/-- **Positions identify places.** Of two offsets between characters of a script the smaller one has
the smaller position. Each is found again by going forward over the lines and characters that its
position counts. So the position in an error denotes one place of the script: where a text could not
be read, counted from where that text begins, or where the template that is refused begins. -/
theorem ofOffset_identifies (source : Text) :
    (∀ p q, source.IsBoundary p → source.IsBoundary q → p < q →
      Position.ofOffset source p < Position.ofOffset source q) ∧
    (∀ p, source.IsBoundary p → (Position.ofOffset source p).toOffset? source = some p) ∧
    ∀ options,
      (∀ position cause, transform options source = .error (.unreadable position cause) →
        ∃ text base, Fragment source text base ∧
          position.Denotes source (base + cause.offset)) ∧
      ∀ position cause, transform options source = .error (.uncompilable position cause) →
        ∃ base literal, RecognizedAt options source base literal ∧
          position.Denotes source (base + literal.span.start) := by
  refine ⟨fun p q hp hq hlt => Position.ofOffset_lt hp hq hlt,
    fun p hp => Position.toOffset?_ofOffset hp, fun options => ⟨?_, ?_⟩⟩
  · intro position cause h
    exact unreadable_denotes h
  · intro position cause h
    exact uncompilable_denotes h

/-- Two scripts with a carriage return, an empty line and a character of two bytes. In the one a
substitution cannot be read where a quote is left open, in the other the template in it is
refused. -/
theorem ofOffset_identifies_nested :
    let unread : Text := "/*é*/\r\n\n\x60$\x7b/*ü*/ '\x7d\x60".toList
    let refused : Text := "/*é*/\r\n\n\x60$\x7brequire('bel')\x60<b\x60\x7d\x60".toList
    (unread.IsBoundary 8 ∧ unread.IsBoundary 19 ∧
      Position.ofOffset unread 8 < Position.ofOffset unread 19 ∧
      (Position.ofOffset unread 19).toOffset? unread = some 19) ∧
    (∃ expected text base, Fragment unread text base ∧
      transform {} unread = .error (.unreadable ⟨3, 10⟩ (.unreadable 7 expected)) ∧
      Position.Denotes ⟨3, 10⟩ unread (base + 7)) ∧
    ∃ cause base literal, RecognizedAt {} refused base literal ∧
      transform {} refused = .error (.uncompilable ⟨3, 4⟩ cause) ∧
      Position.Denotes ⟨3, 4⟩ refused (base + literal.span.start) := by
  intro unread refused
  have hunread : transform {} unread = .error (.unreadable ⟨3, 10⟩ (.unreadable 7
      [.endOfInput, .identifier, .importDeclaration, .requireDeclaration, .taggedTemplate,
        .template])) := by
    decide +kernel
  have hrefused : transform {} refused
      = .error (.uncompilable ⟨3, 4⟩ (.invalidTemplate (.unterminated .tag 0))) := by
    decide +kernel
  obtain ⟨hordered, hback, herrors⟩ := ofOffset_identifies unread
  have hempty : unread.IsBoundary 8 := by decide
  have hquote : unread.IsBoundary 19 := by decide
  obtain ⟨text, base, hfragment, hplace⟩ := (herrors {}).1 _ _ hunread
  obtain ⟨base', literal, hliteral, hplace'⟩ :=
    ((ofOffset_identifies refused).2.2 {}).2 _ _ hrefused
  exact ⟨⟨hempty, hquote, hordered 8 19 hempty hquote (by decide), hback 19 hquote⟩,
    ⟨_, text, base, hfragment, hunread, hplace⟩, _, base', literal, hliteral, hrefused, hplace'⟩

end Script
end Hypertext

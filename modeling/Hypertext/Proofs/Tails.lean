import Hypertext.Proofs.BalancedScan

set_option autoImplicit false

/-! # Texts with different ends

Whether a quote, a backquote or a brace opens something depends on what follows, up to the end of
the script. This file compares a text in front of two ends that hold no quotes and backquotes.
Nothing that is opened in the text is closed in such an end, so an attempt to read it fails for both
or succeeds for both within the text. If code does not tell the ends apart (`Twins`), expressions
stop at the same brace (`expressionParts_stopsSame`) and templates are the same
(`Rule.template_twin`).
-/

namespace Hypertext
namespace Script

open Lexeme

/-! ## Tails -/

/-- An end of a script without quotes and backquotes. No substitution begins across its start. -/
structure IsTail (l : Text) : Prop where
  plain : ∀ d ∈ l, isPlain d = true
  closed : l.head? ≠ some '\x7b'

variable {l r x : Text}

theorem IsTail.not_mem_backquote (hl : IsTail l) : '\x60' ∉ l :=
  fun h => absurd (hl.plain _ h) (by decide)

/-- A string ends in front of the tail. -/
theorem IsQuoted.within {s rest : Text} (hs : IsQuoted s) (hl : IsTail l) (h : x ++ l = s ++ rest) :
    ∃ y, x = s ++ y ∧ rest = y ++ l := by
  obtain ⟨hquote, -⟩ := hs
  rename_i quote body
  have hsplit : x ++ l = (quote :: body) ++ quote :: rest := by
    rw [h]
    simp
  rcases append_eq_append_cons hsplit with ⟨y, rfl, hrest⟩ | ⟨start, rfl, -⟩
  · exact ⟨y, by simp, hrest⟩
  · have hplain := hl.plain quote (List.mem_append_right _ List.mem_cons_self)
    rcases hquote with rfl | rfl <;> exact absurd hplain (by decide)

/-- Two readers take the same from a text in front of two tails, or both fail. -/
inductive ReadsSame (l r : Text) (p q : Lexeme.Reader) (x : Text) : Prop where
  | fails (h : p (x ++ l) = none) (h' : q (x ++ r) = none)
  | reads {s y : Text} (hx : x = s ++ y) (hne : s ≠ []) (h : p (x ++ l) = some (s, y ++ l))
      (h' : q (x ++ r) = some (s, y ++ r))

namespace ReadsSame

variable {p p' q q' : Lexeme.Reader}

theorem symm (h : ReadsSame l r p q x) : ReadsSame r l q p x := by
  cases h with
  | fails h h' => exact .fails h' h
  | reads hx hne h h' => exact .reads hx hne h' h

theorem or (h : ReadsSame l r p q x) (h' : ReadsSame l r p' q' x) :
    ReadsSame l r (fun t => (p t).or (p' t)) (fun t => (q t).or (q' t)) x := by
  cases h with
  | fails hp hq =>
      cases h' with
      | fails hp' hq' =>
          exact .fails (by rw [hp, hp', Option.none_or]) (by rw [hq, hq', Option.none_or])
      | reads hx hne hp' hq' =>
          exact .reads hx hne (by rw [hp, hp', Option.none_or]) (by rw [hq, hq', Option.none_or])
  | reads hx hne hp hq =>
      exact .reads hx hne (by rw [hp, Option.some_or]) (by rw [hq, Option.some_or])

end ReadsSame

theorem string_readsSame (hl : IsTail l) (hr : IsTail r) (x : Text) :
    ReadsSame l r Lexeme.string Lexeme.string x := by
  cases hleft : Lexeme.string (x ++ l) with
  | some found =>
      have hs := isQuoted_of_string hleft
      obtain ⟨y, hx, hrest⟩ := hs.within hl (splits_string _ _ _ hleft)
      refine .reads (s := found.1) hx ?_ (by rw [hleft, ← hrest]) ?_
      · intro hnil
        rw [hnil] at hs
        cases hs
      · rw [hx, List.append_assoc, hs.read]
  | none =>
      refine .fails hleft ?_
      cases hright : Lexeme.string (x ++ r) with
      | none => rfl
      | some found =>
          have hs := isQuoted_of_string hright
          obtain ⟨y, hx, -⟩ := hs.within hr (splits_string _ _ _ hright)
          rw [hx, List.append_assoc, hs.read] at hleft
          cases hleft

/-! ## Static parts -/

theorem endsQuasi_templateChars {t : Text} (h : (templateChars t).2 ≠ []) :
    EndsQuasi (templateChars t).2 := by
  fun_induction templateChars t with
  | case1 => exact absurd rfl h
  | case2 c t ih => exact ih h
  | case3 t => exact .inr ⟨t, rfl⟩
  | case4 c t _ _ hc =>
      rw [beq_iff_eq] at hc
      exact .inl ⟨t, by rw [hc]⟩
  | case5 c t _ _ _ ih => exact ih h

theorem EndsQuasi.append {y : Text} (h : EndsQuasi y) (u : Text) : EndsQuasi (y ++ u) := by
  rcases h with ⟨t, rfl⟩ | ⟨t, rfl⟩
  · exact .inl ⟨t ++ u, rfl⟩
  · exact .inr ⟨t ++ u, rfl⟩

theorem EndsQuasi.of_append (hl : IsTail l) {y : Text} (hy : y ≠ []) (h : EndsQuasi (y ++ l)) :
    EndsQuasi y := by
  match y with
  | [] => exact absurd rfl hy
  | [d] =>
      rcases h with ⟨t, heq⟩ | ⟨t, heq⟩
      · obtain ⟨rfl, -⟩ := List.cons.inj heq
        exact .inl ⟨[], rfl⟩
      · have hopen : l = '\x7b' :: t := (List.cons.inj heq).2
        exact absurd (by rw [hopen]; rfl) hl.closed
  | d :: e :: y =>
      rcases h with ⟨t, heq⟩ | ⟨t, heq⟩
      · obtain ⟨rfl, -⟩ := List.cons.inj heq
        exact .inl ⟨e :: y, rfl⟩
      · obtain ⟨rfl, hmore⟩ := List.cons.inj heq
        obtain ⟨rfl, -⟩ := List.cons.inj hmore
        exact .inr ⟨y, rfl⟩

/-- A static part ends in front of the tail, or no backquote is left behind it. -/
theorem templateChars_cases (hl : IsTail l) (x : Text) :
    (∃ s y, x = s ++ y ∧ IsQuasi s ∧ EndsQuasi y) ∨ '\x60' ∉ (templateChars (x ++ l)).2 := by
  by_cases hmem : '\x60' ∈ (templateChars (x ++ l)).2
  · have hne : (templateChars (x ++ l)).2 ≠ [] := List.ne_nil_of_mem hmem
    have hends := endsQuasi_templateChars hne
    have hquasi := isQuasi_templateChars hne
    rcases List.append_eq_append_iff.mp (templateChars_append (x ++ l)) with
      ⟨y, hx, hrest⟩ | ⟨y, -, htail⟩
    · refine .inl ⟨_, y, hx, hquasi, .of_append hl ?_ (hrest ▸ hends)⟩
      rintro rfl
      rw [hrest] at hmem
      exact hl.not_mem_backquote hmem
    · refine absurd ?_ hl.not_mem_backquote
      rw [htail]
      exact List.mem_append_right _ hmem
  · exact .inr hmem

/-- A static part is the same in front of two tails, or no backquote is left behind it. -/
theorem templateChars_same (hl : IsTail l) (hr : IsTail r) (x : Text) :
    (∃ s y, x = s ++ y ∧ EndsQuasi y ∧ ∀ u, templateChars (x ++ u) = (s, y ++ u)) ∨
      '\x60' ∉ (templateChars (x ++ l)).2 ∧ '\x60' ∉ (templateChars (x ++ r)).2 := by
  have hstops (h : ∃ s y, x = s ++ y ∧ IsQuasi s ∧ EndsQuasi y) :
      ∃ s y, x = s ++ y ∧ EndsQuasi y ∧ ∀ u, templateChars (x ++ u) = (s, y ++ u) := by
    obtain ⟨s, y, rfl, hs, hy⟩ := h
    refine ⟨s, y, rfl, hy, fun u => ?_⟩
    rw [List.append_assoc, templateChars_append_of_isQuasi hs (hy.append u)]
  rcases templateChars_cases hl x with h | hleft
  · exact .inl (hstops h)
  · rcases templateChars_cases hr x with h | hright
    · exact .inl (hstops h)
    · exact .inr ⟨hleft, hright⟩

/-! ## Expressions -/

/-- Two readers of expressions stop at the same closing brace in front of two tails, or both go on
to the end. -/
inductive StopsSame (l r : Text) (f g : Text → Text × Text) (x : Text) : Prop where
  | closes {s y : Text} (hx : x = s ++ '\x7d' :: y) (h : f (x ++ l) = (s, '\x7d' :: (y ++ l)))
      (h' : g (x ++ r) = (s, '\x7d' :: (y ++ r)))
  | ends (h : (f (x ++ l)).2 = []) (h' : (g (x ++ r)).2 = [])

variable {f g : Text → Text × Text}

theorem braces_readsSame (hl : IsTail l) (hr : IsTail r)
    (hinner : ∀ z, x = '\x7b' :: z → StopsSame l r f g z) :
    ReadsSame l r (braces f) (braces g) x := by
  have htail {u : Text} (hu : IsTail u) (f : Text → Text × Text) : braces f u = none := by
    cases u with
    | nil => rfl
    | cons d u =>
        refine braces_eq_none ?_ u
        rintro rfl
        exact hu.closed rfl
  cases x with
  | nil => exact .fails (htail hl f) (htail hr g)
  | cons d z =>
      by_cases hd : d = '\x7b'
      · subst hd
        cases hinner z rfl with
        | @closes s y hz h h' =>
            refine .reads (s := '\x7b' :: (s ++ ['\x7d'])) (y := y) (by simp [hz])
              (List.cons_ne_nil _ _) ?_ ?_
            · simp [braces, h]
            · simp [braces, h']
        | ends h h' => exact .fails (by simp [braces, h]) (by simp [braces, h'])
      · exact .fails (braces_eq_none hd _) (braces_eq_none hd _)

theorem notClosing_readsSame {d : Char} {x : Text} :
    ReadsSame l r notClosing notClosing (d :: x) := by
  by_cases hd : d = '\x7d'
  · exact .fails (by simp [notClosing, hd]) (by simp [notClosing, hd])
  · exact .reads (s := [d]) (y := x) rfl (List.cons_ne_nil _ _) (by simp [notClosing, hd])
      (by simp [notClosing, hd])

theorem templatePieces_suffix {n : Nat} {t : Text} (hf : ∀ t, (f t).1 ++ (f t).2 = t)
    (h : '\x60' ∉ t) (u : Text) : (templatePieces f n t).2 ≠ '\x60' :: u := by
  intro heq
  have happend := templatePieces_append hf n t
  rw [heq] at happend
  exact h (happend ▸ List.mem_append_right _ List.mem_cons_self)

theorem templatePieces_open {n : Nat} {t : Text} (h : (f t).2 = []) :
    templatePieces f n ('$' :: '\x7b' :: t) = ([], '$' :: '\x7b' :: t) := by
  have hopen : Text.after? "$\x7b".toList ('$' :: '\x7b' :: t) = some t :=
    Text.after?_eq_some_iff.mpr rfl
  cases n with
  | zero => rfl
  | succ n =>
      rw [templatePieces, hopen]
      simp [h]

/-- The substitutions of a template end at the same backquote in front of two tails, or there is
none. -/
theorem templatePieces_same (hl : IsTail l) (hr : IsTail r) (hf : ∀ t, (f t).1 ++ (f t).2 = t)
    (hg : ∀ t, (g t).1 ++ (g t).2 = t) {n m : Nat} {y : Text} (hy : EndsQuasi y)
    (hn : (y ++ l).length ≤ n) (hm : (y ++ r).length ≤ m)
    (hinner : ∀ z, z.length < y.length → StopsSame l r f g z) :
    (∃ s z, y = s ++ '\x60' :: z ∧ templatePieces f n (y ++ l) = (s, '\x60' :: (z ++ l)) ∧
        templatePieces g m (y ++ r) = (s, '\x60' :: (z ++ r))) ∨
      ∀ u, (templatePieces f n (y ++ l)).2 ≠ '\x60' :: u ∧
        (templatePieces g m (y ++ r)).2 ≠ '\x60' :: u := by
  -- one substitution and the static part behind it for each step of the fuel on the left
  induction n generalizing y m with
  | zero => rcases hy with ⟨z, rfl⟩ | ⟨z, rfl⟩ <;> exact absurd hn (Nat.not_succ_le_zero _)
  | succ n ih =>
      rcases hy with ⟨z, rfl⟩ | ⟨z, rfl⟩
      · exact .inl ⟨[], z, rfl, templatePieces_backquote f _ _, templatePieces_backquote g _ _⟩
      obtain ⟨m, rfl⟩ : ∃ k, m = k + 1 := ⟨m - 1, by simp at hm; omega⟩
      cases hinner z (by simp only [List.length_cons]; omega) with
      | ends h h' =>
          refine .inr fun u => ?_
          rw [List.cons_append, List.cons_append, templatePieces_open h, List.cons_append,
            List.cons_append, templatePieces_open h']
          exact ⟨fun heq => absurd (List.cons.inj heq).1 (by decide),
            fun heq => absurd (List.cons.inj heq).1 (by decide)⟩
      | @closes s w hz h h' =>
          subst hz
          have htext (u : Text) : '$' :: '\x7b' :: (s ++ '\x7d' :: w) ++ u
              = '$' :: '\x7b' :: (s ++ '\x7d' :: (w ++ u)) := by
            simp
          rw [List.append_assoc, List.cons_append] at h h'
          rw [htext, htext, templatePieces_substitution h, templatePieces_substitution h']
          rcases templateChars_same hl hr w with ⟨t, v, rfl, hv, hchars⟩ | ⟨hleft, hright⟩
          · rw [hchars, hchars]
            simp only [List.length_cons, List.length_append] at hn hm hinner
            have hn : (v ++ l).length ≤ n := by
              rw [List.length_append]
              omega
            have hm : (v ++ r).length ≤ m := by
              rw [List.length_append]
              omega
            rcases ih hv hn hm fun z hz => hinner z (by omega) with
              ⟨s', z, rfl, hpieces, hpieces'⟩ | hnone
            · refine .inl ⟨'$' :: '\x7b' :: (s ++ '\x7d' :: (t ++ s')), z, by simp, ?_, ?_⟩
              · rw [hpieces]
              · rw [hpieces']
            · exact .inr hnone
          · -- what is left behind the substitution cannot hold the backquote
            exact .inr fun u =>
              ⟨templatePieces_suffix hf hleft u, templatePieces_suffix hg hright u⟩

theorem templateText_readsSame (hl : IsTail l) (hr : IsTail r) (hf : ∀ t, (f t).1 ++ (f t).2 = t)
    (hg : ∀ t, (g t).1 ++ (g t).2 = t) (hinner : ∀ z, z.length < x.length → StopsSame l r f g z) :
    ReadsSame l r (templateText f) (templateText g) x := by
  have htail {u : Text} (hu : IsTail u) (f : Text → Text × Text) : templateText f u = none := by
    cases u with
    | nil => rfl
    | cons d u =>
        refine templateText_eq_none ?_ u
        rintro rfl
        exact hu.not_mem_backquote List.mem_cons_self
  have hnone {f : Text → Text × Text} {t : Text}
      (h : ∀ u, (templatePieces f (templateChars t).2.length (templateChars t).2).2 ≠ '\x60' :: u) :
      templateText f ('\x60' :: t) = none := by
    rw [templateText]
    split
    · next heq => exact absurd heq (h _)
    · rfl
  cases x with
  | nil => exact .fails (htail hl f) (htail hr g)
  | cons d x =>
      by_cases hd : d = '\x60'
      · subst hd
        rcases templateChars_same hl hr x with ⟨s, y, rfl, hy, hchars⟩ | ⟨hleft, hright⟩
        · simp only [List.length_cons, List.length_append] at hinner
          rcases templatePieces_same hl hr hf hg hy (Nat.le_refl _) (Nat.le_refl _)
            fun z hz => hinner z (by omega) with ⟨s', z, rfl, hpieces, hpieces'⟩ | hdry
          · refine .reads (s := '\x60' :: (s ++ s' ++ ['\x60'])) (y := z) (by simp)
              (List.cons_ne_nil _ _) ?_ ?_
            · rw [List.cons_append, templateText, hchars, hpieces]
              rfl
            · rw [List.cons_append, templateText, hchars, hpieces']
              rfl
          · refine .fails (hnone (t := s ++ y ++ l) fun u => ?_)
              (hnone (t := s ++ y ++ r) fun u => ?_)
            · rw [hchars]
              exact (hdry u).1
            · rw [hchars]
              exact (hdry u).2
        · exact .fails (hnone (templatePieces_suffix hf hleft))
            (hnone (templatePieces_suffix hg hright))
      · exact .fails (templateText_eq_none hd _) (templateText_eq_none hd _)

/-- Code that is read to its end. -/
def RunsOut (t : Text) : Prop := ∀ fuel, t.length ≤ fuel → (expressionParts fuel t).2 = []

/-- Two tails between which code does not tell: they are read to the end, and so are comments across
their start. -/
structure Twins (l r : Text) : Prop where
  left : IsTail l
  right : IsTail r
  runsOutLeft : RunsOut l
  runsOutRight : RunsOut r
  comment : ∀ x, ReadsSame l r Lexeme.comment Lexeme.comment x ∨ RunsOut (x ++ l) ∧ RunsOut (x ++ r)

theorem Twins.symm (h : Twins l r) : Twins r l where
  left := h.right
  right := h.left
  runsOutLeft := h.runsOutRight
  runsOutRight := h.runsOutLeft
  comment := fun x => (h.comment x).imp ReadsSame.symm And.symm

theorem eq_closing_of_expressionPart {d : Char} {t : Text} (h : expressionPart f (d :: t) = none) :
    d = '\x7d' := by
  simp only [expressionPart, Option.or_eq_none_iff] at h
  obtain ⟨-, -, -, -, hother⟩ := h
  by_contra hd
  simp [notClosing, hd] at hother

/-- One piece of code is the same in front of two tails, unless a comment runs into them. -/
theorem expressionPart_readsSame (hl : IsTail l) (hr : IsTail r) {d : Char} {x : Text}
    (hf : ∀ t, (f t).1 ++ (f t).2 = t) (hg : ∀ t, (g t).1 ++ (g t).2 = t)
    (hcomment : ReadsSame l r Lexeme.comment Lexeme.comment (d :: x))
    (hinner : ∀ z, z.length < (d :: x).length → StopsSame l r f g z) :
    ReadsSame l r (expressionPart f) (expressionPart g) (d :: x) := by
  have hbraces : ReadsSame l r (braces f) (braces g) (d :: x) := by
    refine braces_readsSame hl hr fun z hz => hinner z ?_
    rw [hz]
    exact Nat.lt_succ_self _
  exact hcomment.or <| (templateText_readsSame hl hr hf hg hinner).or <|
    (string_readsSame hl hr _).or <| hbraces.or notClosing_readsSame

namespace StopsSame

variable {n m : Nat}

/-- Only at a closing brace nothing more is read. -/
theorem of_fails {d : Char} {x : Text}
    (hleft : expressionPart (expressionParts n) (d :: x ++ l) = none)
    (hright : expressionPart (expressionParts m) (d :: x ++ r) = none) :
    StopsSame l r (expressionParts (n + 1)) (expressionParts (m + 1)) (d :: x) := by
  obtain rfl := eq_closing_of_expressionPart hleft
  refine .closes (s := []) rfl ?_ ?_
  · rw [expressionParts, hleft]
    rfl
  · rw [expressionParts, hright]
    rfl

theorem of_reads {s y : Text} (hx : x = s ++ y)
    (hleft : expressionPart (expressionParts n) (x ++ l) = some (s, y ++ l))
    (hright : expressionPart (expressionParts m) (x ++ r) = some (s, y ++ r))
    (h : StopsSame l r (expressionParts n) (expressionParts m) y) :
    StopsSame l r (expressionParts (n + 1)) (expressionParts (m + 1)) x := by
  cases h with
  | @closes s' z hy hclose hclose' =>
      refine .closes (s := s ++ s') (y := z) (by rw [hx, hy, List.append_assoc]) ?_ ?_
      · rw [expressionParts_succ hleft, hclose]
      · rw [expressionParts_succ hright, hclose']
  | ends hend hend' =>
      refine .ends ?_ ?_
      · rw [expressionParts_succ hleft, hend]
      · rw [expressionParts_succ hright, hend']

end StopsSame

/-- **Expressions in front of two tails.** -/
theorem expressionParts_stopsSame (h : Twins l r) {n m : Nat} {x : Text} (hn : (x ++ l).length ≤ n)
    (hm : (x ++ r).length ≤ m) : StopsSame l r (expressionParts n) (expressionParts m) x := by
  -- by the length of the text: a piece is followed by less, and what it encloses is shorter
  induction hlength : x.length using Nat.strong_induction_on generalizing x n m with
  | _ k ih =>
      cases x with
      | nil => exact .ends (h.runsOutLeft n hn) (h.runsOutRight m hm)
      | cons d x =>
          obtain ⟨n, rfl⟩ : ∃ k, n = k + 1 := ⟨n - 1, by simp at hn; omega⟩
          obtain ⟨m, rfl⟩ : ∃ k, m = k + 1 := ⟨m - 1, by simp at hm; omega⟩
          have hinner (z : Text) (hz : z.length < (d :: x).length) :
              StopsSame l r (expressionParts n) (expressionParts m) z := by
            rw [List.length_append] at hn hm
            refine ih z.length (by omega) ?_ ?_ rfl
            · rw [List.length_append]
              omega
            · rw [List.length_append]
              omega
          rcases h.comment (d :: x) with hcomment | ⟨hleft, hright⟩
          · cases expressionPart_readsSame h.left h.right (expressionParts_append n)
              (expressionParts_append m) hcomment hinner with
            | fails hleft hright => exact .of_fails hleft hright
            | @reads s y hx hne hleft hright =>
                have hpos := List.length_pos_iff.mpr hne
                refine .of_reads hx hleft hright (hinner y ?_)
                rw [hx, List.length_append]
                omega
          · exact .ends (hleft _ hn) (hright _ hm)

/-! ## Templates -/

namespace Rule

variable {offset : Nat} {next : Cursor}

theorem substitution_twin (h : Twins l r) {z : Text} {part : Piece}
    (hreads : substitution.Reads ⟨offset, '$' :: '\x7b' :: (z ++ l)⟩ part next) :
    ∃ s y n, z = s ++ '\x7d' :: y ∧ next = ⟨n, y ++ l⟩ ∧
      substitution.Reads ⟨offset, '$' :: '\x7b' :: (z ++ r)⟩ part ⟨n, y ++ r⟩ := by
  simp only [substitution, reads_named, reads_bind, reads_pure] at hreads ⊢
  obtain ⟨_, c₁, hopen, _, c₂, hpart, _, _, hclose, rfl, rfl⟩ := hreads
  have hopens (t : Text) : (exactly "$\x7b").Reads ⟨offset, '$' :: '\x7b' :: t⟩ "$\x7b".toList
      ⟨offset + 2, t⟩ := rfl
  obtain ⟨-, rfl⟩ := hopen.unique (hopens _)
  cases expressionParts_stopsSame h (Nat.le_refl (z ++ l).length) (Nat.le_refl (z ++ r).length) with
  | @closes s y hz hleft hright =>
      obtain ⟨rfl, rfl⟩ := hpart.unique (piece_reads (congrArg some hleft))
      have hcloses (t : Text) : (exactly "\x7d").Reads ⟨offset + 2 + s.byteSize, '\x7d' :: t⟩
          "\x7d".toList ⟨offset + 2 + s.byteSize + 1, t⟩ := rfl
      obtain ⟨-, rfl⟩ := hclose.unique (hcloses _)
      exact ⟨s, y, _, hz, rfl, _, _, hopens _, _, _, piece_reads (congrArg some hright), _, _,
        hcloses _, rfl, rfl⟩
  | ends hleft hright =>
      -- there is no brace to close the substitution
      obtain ⟨rfl, rfl⟩ := hpart.unique (piece_reads rfl)
      have hrest : (expressionParts (z ++ l).length (z ++ l)).2 = '\x7d' :: _ :=
        (exactly_spec hclose).2.rest
      rw [hleft] at hrest
      cases hrest

theorem quasi_twin (hl : IsTail l) (hr : IsTail r) {w : Text} {part : Piece}
    (hreads : quasi.Reads ⟨offset, w ++ l⟩ part next) (hmem : '\x60' ∈ next.rest) :
    ∃ s v n, w = s ++ v ∧ EndsQuasi v ∧ next = ⟨n, v ++ l⟩ ∧
      quasi.Reads ⟨offset, w ++ r⟩ part ⟨n, v ++ r⟩ := by
  rcases templateChars_same hl hr w with ⟨s, v, hw, hv, hchars⟩ | ⟨hleft, -⟩
  · obtain ⟨rfl, rfl⟩ := hreads.unique (piece_reads (congrArg some (hchars l)))
    exact ⟨s, v, _, hw, hv, rfl, piece_reads (congrArg some (hchars r))⟩
  · obtain ⟨rfl, rfl⟩ := hreads.unique (piece_reads rfl)
    exact absurd hmem hleft

theorem parts_twin (h : Twins l r) {cursor : Cursor} {parts : List (Piece × Piece)}
    (hreads : substitutionPart.ReadsAll cursor parts next) {v u : Text} (hv : EndsQuasi v)
    (hcursor : cursor.rest = v ++ l) (hnext : next.rest = '\x60' :: u) :
    ∃ s y, v = s ++ '\x60' :: y ∧ u = y ++ l ∧ substitutionPart.ReadsAll ⟨cursor.offset, v ++ r⟩
      parts ⟨next.offset, '\x60' :: (y ++ r)⟩ := by
  induction hreads generalizing v with
  | nil cursor =>
      rw [hcursor] at hnext
      rcases hv with ⟨y, rfl⟩ | ⟨y, rfl⟩
      · exact ⟨[], y, rfl, (List.cons.inj hnext).2.symm, .nil _⟩
      · exact absurd (List.cons.inj hnext).1 (by decide)
  | @cons cursor middle next part others first rest ih =>
      obtain ⟨offset, _⟩ := cursor
      dsimp only at hcursor
      subst hcursor
      have hmem : '\x60' ∈ middle.rest := by
        obtain ⟨t, hadvances⟩ := takes_substitutionPart.readsAll rest
        rw [hadvances.rest, hnext]
        exact List.mem_append_right _ List.mem_cons_self
      obtain ⟨expression, c₁, hexpression, hpart⟩ := reads_bind.mp first
      obtain ⟨text, c₂, htext, hpart⟩ := reads_bind.mp hpart
      obtain ⟨rfl, rfl⟩ := reads_pure.mp hpart
      rcases hv with ⟨z, rfl⟩ | ⟨z, rfl⟩
      · exact absurd (List.cons.inj (substitution_spec hexpression).1.rest).1 (by decide)
      · obtain ⟨s, w, n, rfl, rfl, hexpression'⟩ := substitution_twin h hexpression
        obtain ⟨s', v, n', rfl, hv, rfl, htext'⟩ := quasi_twin h.left h.right htext hmem
        obtain ⟨s'', y, rfl, hu, hothers⟩ := ih hv rfl hnext
        have hfirst : substitutionPart.Reads _ (expression, text) _ :=
          reads_bind.mpr ⟨_, _, hexpression',
            reads_bind.mpr ⟨_, _, htext', reads_pure.mpr ⟨rfl, rfl⟩⟩⟩
        exact ⟨'$' :: '\x7b' :: (s ++ '\x7d' :: (s' ++ s'')), y, by simp, hu, .cons hfirst hothers⟩

/-- **A template in front of two tails.** -/
theorem template_twin (h : Twins l r) {literal : TemplateLiteral}
    (hreads : template.Reads ⟨offset, x ++ l⟩ literal next) :
    ∃ s y n, x = s ++ y ∧ next = ⟨n, y ++ l⟩ ∧
      template.Reads ⟨offset, x ++ r⟩ literal ⟨n, y ++ r⟩ := by
  obtain ⟨t, ht⟩ := template_ticks hreads
  cases x with
  | nil =>
      refine absurd ?_ h.left.not_mem_backquote
      have hl : l = '\x60' :: t := ht
      rw [hl]
      exact List.mem_cons_self
  | cons d x =>
      obtain ⟨rfl, -⟩ := List.cons.inj ht
      rw [template_eq] at hreads ⊢
      simp only [reads_named, reads_bind, reads_offset, reads_pure] at hreads ⊢
      obtain ⟨_, _, ⟨rfl, rfl⟩, _, c₁, hopen, first, c₂, hfirst, others, c₃, hothers, _, _, hclose,
        _, _, ⟨rfl, rfl⟩, rfl, rfl⟩ := hreads
      have htick (offset : Nat) (t : Text) :
          (exactly "\x60").Reads ⟨offset, '\x60' :: t⟩ "\x60".toList ⟨offset + 1, t⟩ := rfl
      obtain ⟨-, rfl⟩ := hopen.unique (htick _ _)
      obtain ⟨hparts, -⟩ := (reads_many_iff takes_substitutionPart).mp hothers
      obtain ⟨stop, rest⟩ := next
      have hend : c₃.rest = '\x60' :: rest := (exactly_spec hclose).2.rest
      obtain rfl : stop = c₃.offset + 1 := (exactly_spec hclose).2.offset
      have hmem : '\x60' ∈ c₂.rest := by
        obtain ⟨t, hadvances⟩ := takes_substitutionPart.readsAll hparts
        rw [hadvances.rest, hend]
        exact List.mem_append_right _ List.mem_cons_self
      obtain ⟨s, v, n, rfl, hv, rfl, hfirst'⟩ := quasi_twin h.left h.right hfirst hmem
      obtain ⟨s', y, rfl, rfl, hparts'⟩ := parts_twin h hparts hv rfl hend
      refine ⟨'\x60' :: (s ++ (s' ++ ['\x60'])), y, _, by simp, rfl, ?_⟩
      exact ⟨_, _, ⟨rfl, rfl⟩, _, _, htick _ _, first, _, hfirst', others, _,
        (reads_many_iff takes_substitutionPart).mpr ⟨hparts', substitutionPart_backquote _ _⟩, _, _,
        htick _ _, _, _, ⟨rfl, rfl⟩, rfl, rfl⟩

end Rule

end Script
end Hypertext

import Hypertext.Proofs.CommentedRules

set_option autoImplicit false

/-! # Trailing comments

A comment at the end of the last line does not change what the scanner finds, except where a
declaration with `require` ends that line without a semicolon: it is not found any more. One step of
the scanner is the same with and without the comment (`Rule.agreesAt_item`), and so is the whole run
(`Rule.run_commented`).
-/

namespace Hypertext
namespace Script

open Lexeme

variable {c : Text}

/-! ## One piece of the script -/

namespace Rule

variable {x : Text} {offset : Nat}

theorem agreesAt_otherCharacter (h : Fits c x) (hcomment : comment (x ++ ['\n']) = none) :
    AgreesAt (Meets c) (fun _ _ => True) (lexeme otherCharacter) (lexeme otherCharacter)
      ⟨offset, x ++ ['\n']⟩ ⟨offset, x ++ ' ' :: remark c⟩ := by
  have hplain {d : Char} (hd : isPlain d = true) (offset : Nat) (t : Text) :
      (lexeme otherCharacter).Reads ⟨offset, d :: t⟩ [d] ⟨offset + Text.byteSize [d], t⟩ :=
    lexeme_reads (by rw [otherCharacter_cons, if_pos hd])
  have hquote {d : Char} (hd : ¬isPlain d = true) (t : Text) :
      (lexeme otherCharacter ⟨offset, d :: t⟩).result = none :=
    lexeme_fails (by rw [otherCharacter_cons, if_neg hd])
  cases x with
  | nil => exact .of_reads (hplain (by decide) _ _) (hplain (by decide) _ _) trivial .behind
  | cons d x =>
      by_cases hd : isPlain d = true
      · exact .of_reads (hplain hd _ _) (hplain hd _ _) trivial
          (.before (h.imp_right fun hbalanced => hbalanced.of_char hd hcomment))
      · exact .of_fails (hquote hd _) (hquote hd _)

theorem agreesAt_comment (hc : IsRemark c) (h : Fits c x)
    (hline : ∀ body, x = '/' :: '/' :: body → ∃ d ∈ body, isLineBreak d = true) :
    AgreesAt (Meets c) (fun _ _ => True) (lexeme comment) (lexeme comment)
      ⟨offset, x ++ ['\n']⟩ ⟨offset, x ++ ' ' :: remark c⟩ := by
  cases comment_readsSame hc hline with
  | fails hleft hright => exact .of_fails (lexeme_fails hleft) (lexeme_fails hright)
  | reads _ _ hleft hright =>
      exact .of_reads (lexeme_reads hleft) (lexeme_reads hright) trivial
        (.before (h.imp_right fun hbalanced => hbalanced.of_comment hleft))

/-- No declaration with `require` that is found at a place ends the last line. -/
def GoesOn (cursor : Cursor) : Prop :=
  comment cursor.rest = none → (importDeclaration cursor).result = none →
    ∀ head middle, declarator.Reads cursor head middle → ¬EndsLine middle.rest

/-- **One step in both scripts.** -/
theorem agreesAt_item (hc : IsRemark c) (h : Fits c x)
    (hline : ∀ body, x = '/' :: '/' :: body → ∃ d ∈ body, isLineBreak d = true)
    (hmore : GoesOn ⟨offset, x ++ ['\n']⟩) :
    AgreesAt (Meets c) Eq item item ⟨offset, x ++ ['\n']⟩ ⟨offset, x ++ ' ' :: remark c⟩ := by
  have hplace : Meets c ⟨offset, x ++ ['\n']⟩ ⟨offset, x ++ ' ' :: remark c⟩ := .before h
  refine .orElse ((agreesAt_comment hc h hline).bind fun _ _ _ _ _ _ => Agrees.pure rfl _ _)
    fun hcomment => ?_
  have hcomment : comment (x ++ ['\n']) = none := comment_fails hcomment
  refine .orElse (Agrees.bind (agrees_importDeclaration hc) ?_ _ _ hplace) fun himport => ?_
  · rintro declaration _ rfl
    exact .pure rfl
  have hmore := hmore hcomment (return_fails_iff.mp himport)
  refine .orElse ((agreesAt_requireDeclaration hc hplace hmore).bind ?_) fun _ => ?_
  · rintro declaration _ _ _ - rfl
    exact Agrees.pure rfl _ _
  refine .orElse (Agrees.bind (agrees_taggedTemplate hc) ?_ _ _ hplace) fun _ => ?_
  · rintro literal _ rfl
    exact .pure rfl
  refine .orElse (Agrees.bind (agrees_template hc) ?_ _ _ hplace) fun _ => ?_
  · rintro literal _ rfl
    exact .pure rfl
  refine .orElse (Agrees.bind (agrees_string hc) (fun _ _ _ => .pure rfl) _ _ hplace) fun _ => ?_
  refine .orElse (Agrees.bind agrees_identifier (fun _ _ _ => .pure rfl) _ _ hplace) fun _ => ?_
  exact (agreesAt_otherCharacter h hcomment).bind fun _ _ _ _ _ _ => Agrees.pure rfl _ _

/-- A comment that is the last line of a script. -/
theorem lastLine_readsAll {body : Text} (hbody : ∀ d ∈ body, isLineBreak d = false) (offset : Nat) :
    ∃ stop, item.ReadsAll ⟨offset, '/' :: '/' :: (body ++ ['\n'])⟩ [none, none] ⟨stop, []⟩ := by
  have hcomment : comment ('/' :: '/' :: body ++ ['\n']) = some ('/' :: '/' :: body, ['\n']) := by
    refine comment_eq_some_iff.mpr ⟨rfl, .line hbody ?_⟩
    rintro d ⟨⟩
    decide
  have hbreak (offset : Nat) : item.Reads ⟨offset, ['\n']⟩ none ⟨offset + 1, []⟩ := rfl
  exact ⟨_, .cons (reads_orElse.mpr (.inl (reads_skip hcomment))) (.cons (hbreak _) (.nil _))⟩

/-- **The whole run in both scripts,** if no declaration that the scanner comes to ends the last
line. -/
theorem run_commented (hc : IsRemark c) {source : Text} {cursor cursor' last : Cursor}
    {found : List (Option Item)} (hfound : item.ReadsAll cursor found last) (hend : last.rest = [])
    (hplace : Meets c cursor cursor') (hreaches : Reaches source cursor)
    (hmore : ∀ cursor, Reaches source cursor → GoesOn cursor) :
    ∃ found' last', item.ReadsAll cursor' found' last' ∧ last'.rest = [] ∧
      found'.filterMap id = found.filterMap id := by
  have hstop (last : Cursor) (hend : last.rest = []) : (item last).result = none := by
    obtain ⟨offset, _⟩ := last
    subst hend
    exact item_nil offset
  -- along the run without the comment, which ends before the other one reads the comment
  induction hfound generalizing cursor' with
  | nil cursor =>
      obtain ⟨_⟩ | _ := hplace
      · exact absurd hend (by simp)
      · have hbody : ∀ d ∈ ' ' :: c, isLineBreak d = false :=
          List.forall_mem_cons.mpr ⟨by decide, hc.oneLine⟩
        obtain ⟨stop, hreads⟩ := lastLine_readsAll hbody _
        exact ⟨_, _, hreads, rfl, rfl⟩
  | @cons cursor middle last a others first rest ih =>
      obtain ⟨h⟩ | _ := hplace
      · rename_i offset x
        by_cases hline : ∀ body, x = '/' :: '/' :: body → ∃ d ∈ body, isLineBreak d = true
        · obtain ⟨_, middle', hfirst, rfl, hplace⟩ :=
            (agreesAt_item hc h hline (hmore _ hreaches)).reads first
          obtain ⟨found', last', hreads, hlast, hitems⟩ := ih hend hplace (hreaches.step first)
          refine ⟨a :: found', last', .cons hfirst hreads, hlast, ?_⟩
          simp only [List.filterMap_cons, hitems]
        · -- the added comment belongs to the one in front of it
          simp only [not_forall, not_exists, not_and, Bool.not_eq_true] at hline
          obtain ⟨body, rfl, hbody⟩ := hline
          obtain ⟨stop, hleft⟩ := lastLine_readsAll hbody offset
          have hfound := hleft.unique (item_nil stop) (.cons first rest) (hstop last hend)
          obtain ⟨stop', hright⟩ :=
            lastLine_readsAll (List.forall_mem_append.mpr ⟨hbody, hc.line⟩) offset
          rw [← lineComment_commented] at hright
          exact ⟨_, _, hright, rfl, by rw [← hfound]⟩
      · rw [Reads, item_nil] at first
        cases first

end Rule

/-! ## Trailing comments -/

/-- The script ends with a declaration that has no semicolon: a binding of the script ends with the
last parenthesis, and only blanks follow. -/
def EndsInRequire (a : Text) (items : List Item) : Prop :=
  ∃ declaration text blanks, .binding declaration ∈ items ∧ declaration.kind = .requireCall ∧
    a = text ++ ')' :: blanks ∧ (∀ d ∈ blanks, isInlineBlank d = true) ∧
    declaration.span.stop = Text.byteSize (text ++ [')'])

namespace Rule

theorem item_reads_requireDeclaration {cursor next : Cursor} {declaration : ModuleBinding}
    (hcomment : comment cursor.rest = none) (himport : (importDeclaration cursor).result = none)
    (h : requireDeclaration.Reads cursor declaration next) :
    item.Reads cursor (some (.binding declaration)) next := by
  simp only [item, reads_orElse, reads_bind, reads_pure]
  exact .inr ⟨skip_fails hcomment, .inr ⟨return_fails_iff.mpr himport, .inl ⟨_, _, h, rfl, rfl⟩⟩⟩

theorem requireDeclaration_of_item {cursor next : Cursor} {declaration : ModuleBinding}
    (h : item.Reads cursor (some (.binding declaration)) next)
    (hkind : declaration.kind = .requireCall) :
    requireDeclaration.Reads cursor declaration next := by
  simp only [item, reads_orElse, reads_bind, reads_pure] at h
  rcases h with h | ⟨-, h | ⟨-, h | ⟨-, h | ⟨-, h | ⟨-, h | ⟨-, h | ⟨-, h⟩⟩⟩⟩⟩⟩⟩
  all_goals obtain ⟨a, _, hread, heq, rfl⟩ := h
  all_goals cases heq
  · simp only [importDeclaration, reads_named, reads_bind, reads_pure] at hread
    obtain ⟨_, _, -, _, _, -, _, _, -, _, _, -, _, _, -, _, _, -, _, _, -, _, _, -, _, _, -, _, _,
      -, rfl, -⟩ := hread
    cases hkind
  · exact hread

end Rule

theorem endsInRequire_of_reaches {a : Text} {items : List Item} {cursor middle : Cursor}
    {head : Rule.Declarator}
    (hscan : scan (a ++ ['\n']) = .ok items) (hreaches : Reaches (a ++ ['\n']) cursor)
    (hcomment : comment cursor.rest = none)
    (himport : (Rule.importDeclaration cursor).result = none)
    (hhead : Rule.declarator.Reads cursor head middle) (hend : Rule.EndsLine middle.rest) :
    EndsInRequire a items := by
  have hreads := Rule.reads_requireDeclaration.mpr
    ⟨_, _, hhead, Rule.finish_reads_of_endsLine head hend⟩
  have hmem := hreaches.mem hscan (Rule.item_reads_requireDeclaration hcomment himport hreads)
  obtain ⟨before, hbefore, hoffset⟩ := hreaches.advances
  obtain ⟨t, hadvances⟩ := Rule.declarator_spec hhead
  obtain ⟨blanks, stop, hrest, hblanks, hstop⟩ := hend
  refine ⟨_, before ++ t, blanks, hmem, rfl, ?_, hblanks, ?_⟩
  · have hall : before ++ t ++ ')' :: blanks ++ stop = a ++ ['\n'] := by
      rw [hbefore, hadvances.rest, hrest]
      simp
    have hlast : ∀ d ∈ ')' :: blanks, d ≠ '\n' := by
      rintro d hd rfl
      rcases List.mem_cons.mp hd with hd | hd
      · exact absurd hd (by decide)
      · exact absurd (hblanks _ hd) (by decide)
    obtain ⟨more, hmore, ha⟩ := split_last hall (ne_concat hlast (List.cons_ne_nil _ _))
    have hnone : more = [] := by
      rcases hstop with rfl | rfl
      · exact (List.append_eq_nil_iff.mp hmore.symm).1
      · exact List.append_cancel_right (hmore.symm.trans (List.nil_append _).symm)
    rw [ha, hnone, List.append_nil]
  · show middle.offset = _
    rw [hadvances.offset, hoffset, List.append_assoc, ← Text.byteSize_append]

/-- A comment behind the declaration hides it. -/
theorem scan_ne_of_endsInRequire {a : Text} {items : List Item} (h : EndsInRequire a items) :
    scan (a ++ ' ' :: remark c) ≠ .ok items := by
  intro hscan
  obtain ⟨declaration, text, blanks, hmem, hkind, rfl, hblanks, hstop⟩ := h
  obtain ⟨cursor, next, hreaches, hreads⟩ := exists_reaches_of_mem hscan hmem
  obtain ⟨head, middle, hhead, hfinish⟩ :=
    Rule.reads_requireDeclaration.mp (Rule.requireDeclaration_of_item hreads hkind)
  obtain ⟨before, hbefore, hoffset⟩ := hreaches.advances
  obtain ⟨t, hadvances⟩ := Rule.declarator_spec hhead
  obtain ⟨hspan, hfinish⟩ := Rule.finish_spec hfinish
  -- what is read ends with the parenthesis
  have hread {s : Text} (hs : middle.Advances s next) :
      text ++ [')'] = before ++ (t ++ [')'] ++ s) ∧ blanks ++ ' ' :: remark c = next.rest := by
    have hall := hadvances.trans hs
    refine Text.append_inj_of_byteSize ?_ ?_
    · rw [List.append_assoc before, ← hall.rest, ← hbefore]
      simp
    · rw [Text.byteSize_append before, ← hoffset, ← hall.offset, ← hspan, ← hstop]
  rcases hfinish with ⟨rfl, hline⟩ | ⟨s, last, hs, hne, hlast⟩
  · -- and the comment stands where the line has to end
    obtain ⟨offset, rest⟩ := next
    have hrest : rest = blanks ++ [' '] ++ remark c := by
      rw [List.append_assoc, List.singleton_append, (hread (.refl _)).2]
    have hhead : ∀ d ∈ (remark c).head?, isInlineBlank d = false := by
      rintro d ⟨⟩
      decide
    rw [hrest, Rule.lineEnd_reads_iff (Rule.isInlineBlank_concat hblanks) hhead] at hline
    exact absurd (hline '/' rfl) (by decide)
  · refine ne_concat (u := before ++ (t ++ [')'] ++ s)) hlast hne text ?_
    rw [(hread hs).1]
    simp

/-- **Trailing comments.** A comment at the end of the last line changes nothing in what is found,
except that a declaration with `require` is lost if it ends the line without a semicolon. If the
comment holds quotes or backquotes, those in the substitutions have to have their partners. -/
theorem scan_trailing_comment_iff {a c : Text} {items : List Item}
    (hscan : scan (a ++ ['\n']) = .ok items) (hc : IsRemark c)
    (hquotes : (∀ d ∈ c, isPlain d = true) ∨ ∀ literal, .template literal ∈ items →
      ∀ piece ∈ literal.substitutions, piece.PairedIn 0 (a ++ ['\n'])) :
    scan (a ++ ' ' :: remark c) = .ok items ↔ ¬EndsInRequire a items := by
  refine ⟨fun hsame h => scan_ne_of_endsInRequire h hsame, fun hends => ?_⟩
  have hfits : Fits c a :=
    hquotes.imp_right fun hpaired => balanced_iff_scan.mpr ⟨items, hscan, hpaired⟩
  obtain ⟨found, last, hfound, hend, rfl⟩ := scan_eq_ok_iff_readsAll.mp hscan
  obtain ⟨found', last', hfound', hend', hitems⟩ :=
    Rule.run_commented hc hfound hend (.before hfits) ⟨[], .nil _⟩
      fun cursor hreaches hcomment himport head middle hhead hline =>
        hends (endsInRequire_of_reaches hscan hreaches hcomment himport hhead hline)
  exact scan_eq_ok_iff_readsAll.mpr ⟨found', last', hfound', hend', hitems⟩

/-- A quote in the comment does not disturb the string in the template. -/
theorem scan_trailing_comment_string :
    scan "\x60$\x7b'a'\x7d\x60 // it's\n".toList = .ok [.template ⟨none, ⟨0, 8⟩,
      [⟨[], ⟨1, 1⟩⟩, ⟨[], ⟨7, 7⟩⟩], [⟨"'a'".toList, ⟨3, 6⟩⟩]⟩] := by
  have hscan : scan ("\x60$\x7b'a'\x7d\x60".toList ++ ['\n']) = .ok [.template ⟨none, ⟨0, 8⟩,
      [⟨[], ⟨1, 1⟩⟩, ⟨[], ⟨7, 7⟩⟩], [⟨"'a'".toList, ⟨3, 6⟩⟩]⟩] :=
    toOption_eq_some_iff.mp (by decide +kernel)
  have hstring :
      Lexeme.string "'a'\x7d\x60\n".toList = some ("'a'".toList, "\x7d\x60\n".toList) := by
    decide +kernel
  have hline : "it's".toList.all (fun d => !isLineBreak d) = true := by decide
  have hremark : IsRemark "it's".toList :=
    ⟨fun d hd => by simpa using List.all_eq_true.mp hline d hd,
      fun _ _ => not_mem_split (by decide)⟩
  refine (scan_trailing_comment_iff hscan hremark (.inr fun literal hmem piece hpiece => ?_)).mpr ?_
  · cases List.mem_singleton.mp hmem
    cases List.mem_singleton.mp hpiece
    refine ⟨"\x60$\x7b".toList, "\x60\n".toList, rfl, rfl, ?_⟩
    exact .inert (inert_string hstring) (fun _ => ⟨by decide, by decide⟩) .nil
  · rintro ⟨declaration, _, _, hmem, -⟩
    cases List.mem_singleton.mp hmem

/-- A comment hides a declaration; and a quote in a comment can become the partner of one that
stands by itself. -/
theorem trailing_comment_changes_scan :
    (∃ declaration, scan "var html = require('bel')\n".toList = .ok [.binding declaration] ∧
      scan "var html = require('bel') // c\n".toList = .ok []) ∧
    ∃ literal e, scan "\x60$\x7b'\x7d\x60\n".toList = .ok [.template literal] ∧
      scan "\x60$\x7b'\x7d\x60 // '\n".toList = .error e := by
  refine ⟨⟨⟨"html".toList, "bel".toList, .requireCall, ⟨0, 25⟩⟩, ?_, ?_⟩,
    ⟨none, ⟨0, 6⟩, [⟨[], ⟨1, 1⟩⟩, ⟨[], ⟨5, 5⟩⟩], [⟨['\x27'], ⟨3, 4⟩⟩]⟩,
    .unreadable 1 [.substitution], ?_, ?_⟩
  · exact toOption_eq_some_iff.mp (by decide +kernel)
  · exact toOption_eq_some_iff.mp (by decide +kernel)
  · exact toOption_eq_some_iff.mp (by decide +kernel)
  · decide +kernel

end Script
end Hypertext

import Hypertext.Proofs.Tails

set_option autoImplicit false

/-! # A comment at the end of a script

A script that ends with a line break, and the same script with a comment in front of that line
break: what stands in front is read the same in both. Comments and strings end in front of the added
comment (`comment_readsSame`, `Fits.within`), unless a comment is open on the last line. If quotes
stand by themselves in the script, the added comment must not hold any. Then it cannot be told from
a line break (`twins_remark`).
-/

namespace Hypertext
namespace Script

open Lexeme

variable {c x : Text}

/-! ## Last characters -/

/-- What does not end with the last character of a text is followed by it. -/
theorem split_last {s rest x : Text} {d : Char} (h : s ++ rest = x ++ [d])
    (hs : ∀ t, s ≠ t ++ [d]) : ∃ rest', rest = rest' ++ [d] ∧ x = s ++ rest' := by
  rcases List.eq_nil_or_concat rest with rfl | ⟨rest', e, rfl⟩
  · rw [List.append_nil] at h
    exact absurd h (hs x)
  · rw [List.concat_eq_append, ← List.append_assoc] at h
    obtain ⟨hx, hlast⟩ := List.append_inj' h rfl
    cases hlast
    exact ⟨rest', List.concat_eq_append, hx.symm⟩

theorem ne_concat {u s : Text} {d : Char} (hs : ∀ e ∈ s, e ≠ d) (hne : s ≠ []) (t : Text) :
    u ++ s ≠ t ++ [d] := by
  obtain ⟨s, e, rfl⟩ := (List.eq_nil_or_concat s).resolve_left hne
  rw [List.concat_eq_append] at hs ⊢
  rw [← List.append_assoc]
  intro h
  have heq : e = d := (List.cons.inj (List.append_inj' h rfl).2).1
  exact hs e (List.mem_append_right _ List.mem_cons_self) heq

theorem ne_concat_of_last {s : Text} {d e : Char} (he : e ≠ d) (t : Text) : s ++ [e] ≠ t ++ [d] :=
  ne_concat (fun f hf => by rwa [List.mem_singleton.mp hf]) (List.cons_ne_nil _ _) t

theorem not_mem_split {s before after : Text} {d : Char} (hd : d ∉ s) :
    s ≠ before ++ d :: after := by
  rintro rfl
  exact hd (List.mem_append_right _ List.mem_cons_self)

/-! ## The comment -/

/-- A comment up to the end of its line. -/
def remark (c : Text) : Text := '/' :: '/' :: ' ' :: (c ++ ['\n'])

/-- A text that can be a comment at the end of a line, and closes no other comment. -/
structure IsRemark (c : Text) : Prop where
  oneLine : ∀ d ∈ c, isLineBreak d = false
  noClose : ∀ before after, c ≠ before ++ '*' :: '/' :: after

theorem IsRemark.line (hc : IsRemark c) :
    ∀ d ∈ ' ' :: '/' :: '/' :: ' ' :: c, isLineBreak d = false := by
  simp only [List.forall_mem_cons]
  exact ⟨by decide, by decide, by decide, by decide, hc.oneLine⟩

theorem IsRemark.not_closing (hc : IsRemark c) (before after : Text) :
    ' ' :: remark c ≠ before ++ '*' :: '/' :: after := by
  intro heq
  have hparts : [' ', '/', '/', ' '] ++ (c ++ ['\n']) = before ++ '*' :: '/' :: after := heq
  rcases append_eq_append_cons hparts with ⟨start, hstart, -⟩ | ⟨start, hend, -⟩
  · exact not_mem_split (by decide) hstart
  · rcases append_eq_append_cons hend with ⟨close, hc', hclose⟩ | ⟨close, hclose, -⟩
    · cases close with
      | nil => exact absurd (List.cons.inj hclose).1 (by decide)
      | cons d close =>
          obtain ⟨rfl, -⟩ := List.cons.inj hclose
          exact hc.noClose start close hc'
    · exact not_mem_split (by decide) hclose

/-- A comment that is open on the last line goes on with the one that is added. -/
theorem lineComment_commented (body : Text) : '/' :: '/' :: body ++ ' ' :: remark c
    = '/' :: '/' :: (body ++ ' ' :: '/' :: '/' :: ' ' :: c ++ ['\n']) := by
  simp [remark]

/-- No comment begins in front of the one that is added. -/
theorem comment_commented (hc : IsRemark c) {x : Text} (h : Lexeme.comment (x ++ ['\n']) = none) :
    Lexeme.comment (x ++ ' ' :: remark c) = none := by
  rw [comment_eq_none_iff] at h ⊢
  refine ⟨fun u heq => ?_, fun before after heq => ?_⟩
  · match x with
    | [] => exact absurd (List.cons.inj heq).1 (by decide)
    | [d] => exact absurd (List.cons.inj (List.cons.inj heq).2).1 (by decide)
    | d :: e :: x =>
        obtain ⟨rfl, hmore⟩ := List.cons.inj heq
        obtain ⟨rfl, -⟩ := List.cons.inj hmore
        exact h.1 (x ++ ['\n']) rfl
  · match x with
    | [] => exact absurd (List.cons.inj heq).1 (by decide)
    | [d] => exact absurd (List.cons.inj (List.cons.inj heq).2).1 (by decide)
    | d :: e :: x =>
        obtain ⟨rfl, hmore⟩ := List.cons.inj heq
        obtain ⟨rfl, hbody⟩ := List.cons.inj hmore
        rcases append_eq_append_cons hbody with ⟨start, hx, hstart⟩ | ⟨start, hstart, -⟩
        · -- it would be closed in front of the blank
          cases start with
          | nil => exact absurd (List.cons.inj hstart).1 (by decide)
          | cons f start =>
              obtain ⟨rfl, -⟩ := List.cons.inj hstart
              exact h.2 before (start ++ ['\n']) (by rw [hx]; simp)
        · exact hc.not_closing start after hstart

/-! ## Comments in front of it -/

theorem ne_concat_of_isComment {taken rest : Text} (h : IsComment rest taken) (t : Text) :
    taken ≠ t ++ ['\n'] := by
  cases h with
  | @line body hbody _ =>
      refine ne_concat (u := []) (fun d hd => ?_) (List.cons_ne_nil _ _) t
      rintro rfl
      rcases List.mem_cons.mp hd with hd | hd
      · exact absurd hd (by decide)
      · rcases List.mem_cons.mp hd with hd | hd
        · exact absurd hd (by decide)
        · exact absurd (hbody _ hd) (by decide)
  | @block body _ =>
      have hsplit : '/' :: '*' :: (body ++ ['*', '/'])
          = ('/' :: '*' :: (body ++ ['*'])) ++ ['/'] := by
        simp
      rw [hsplit]
      exact ne_concat_of_last (by decide) t

/-- A comment in a script ends in front of the one that is added, unless it is on the last line. -/
theorem comment_readsSame (hc : IsRemark c)
    (hline : ∀ body, x = '/' :: '/' :: body → ∃ d ∈ body, isLineBreak d = true) :
    ReadsSame ['\n'] (' ' :: remark c) Lexeme.comment Lexeme.comment x := by
  cases hread : Lexeme.comment (x ++ ['\n']) with
  | none => exact .fails hread (comment_commented hc hread)
  | some found =>
      obtain ⟨taken, rest⟩ := found
      obtain ⟨hsplits, htaken⟩ := comment_eq_some_iff.mp hread
      obtain ⟨y, rfl, hx⟩ := split_last hsplits.symm (ne_concat_of_isComment htaken)
      refine .reads hx (inert_comment hread).ne_nil hread ?_
      refine comment_eq_some_iff.mpr ⟨by rw [hx, List.append_assoc], ?_⟩
      cases htaken with
      | @line body hbody hend =>
          cases y with
          | nil =>
              obtain ⟨d, hd, hbreak⟩ := hline body (hx.trans (List.append_nil _))
              rw [hbody d hd] at hbreak
              cases hbreak
          | cons d y => exact .line hbody hend
      | block hclose => exact .block hclose

/-! ## Comments without quotes -/

theorem runsOut_nil : RunsOut [] := by
  intro fuel _
  cases fuel with
  | zero => rfl
  | succ fuel => rfl

theorem RunsOut.inert {s rest : Text} (hs : Inert rest s) (hbraces : s ≠ ['\x7b'] ∧ s ≠ ['\x7d'])
    (hrest : RunsOut rest) : RunsOut (s ++ rest) := by
  intro fuel hfuel
  have hpos := List.length_pos_iff.mpr hs.ne_nil
  rw [List.length_append] at hfuel
  obtain ⟨fuel, rfl⟩ : ∃ k, fuel = k + 1 := ⟨fuel - 1, by omega⟩
  rw [expressionParts_succ (expressionPart_inert hs hbraces)]
  exact hrest fuel (by omega)

theorem runsOut_lineBreak : RunsOut ['\n'] :=
  .inert (.char (by decide) (comment_eq_none (by decide) _)) ⟨by decide, by decide⟩ runsOut_nil

theorem runsOut_lineComment {body : Text} (hbody : ∀ d ∈ body, isLineBreak d = false) :
    RunsOut ('/' :: '/' :: (body ++ ['\n'])) := by
  have hcomment : Inert ['\n'] ('/' :: '/' :: body) := by
    refine .lineComment hbody ?_
    rintro d ⟨⟩
    decide
  exact .inert hcomment ⟨by simp, by simp⟩ runsOut_lineBreak

theorem isTail_lineBreak : IsTail ['\n'] where
  plain := List.forall_mem_singleton.mpr rfl
  closed := by decide

/-- Code does not tell a line break from a comment without quotes and a line break. -/
theorem twins_remark (hc : IsRemark c) (hplain : ∀ d ∈ c, isPlain d = true) :
    Twins ['\n'] (' ' :: remark c) where
  left := isTail_lineBreak
  right := by
    refine ⟨?_, by simp⟩
    simp only [remark, List.forall_mem_cons, List.forall_mem_append]
    exact ⟨by decide, by decide, by decide, by decide, hplain,
      List.forall_mem_cons.mp isTail_lineBreak.plain⟩
  runsOutLeft := runsOut_lineBreak
  runsOutRight := by
    have hbody : ∀ d ∈ ' ' :: c, isLineBreak d = false :=
      List.forall_mem_cons.mpr ⟨by decide, hc.oneLine⟩
    exact .inert (.char (by decide) (comment_eq_none (by decide) _)) ⟨by decide, by decide⟩
      (runsOut_lineComment hbody)
  comment := by
    intro x
    by_cases hline : ∀ body, x = '/' :: '/' :: body → ∃ d ∈ body, isLineBreak d = true
    · exact .inl (comment_readsSame hc hline)
    · simp only [not_forall, not_exists, not_and, Bool.not_eq_true] at hline
      obtain ⟨body, rfl, hbody⟩ := hline
      refine .inr ⟨runsOut_lineComment hbody, ?_⟩
      rw [lineComment_commented]
      exact runsOut_lineComment (List.forall_mem_append.mpr ⟨hbody, hc.line⟩)

/-! ## Strings in front of it -/

/-- The comment holds no quotes, or in the script all of them have their partners. -/
def Fits (c x : Text) : Prop :=
  (∀ d ∈ c, isPlain d = true) ∨ Balanced (.code false) (x ++ ['\n']) []

theorem Fits.skips {s y : Text} (h : Fits c (s ++ y)) (hs : Whole s) : Fits c y := by
  refine h.imp_right fun hbalanced => hs.skips _ ?_
  rwa [← List.append_assoc]

/-- A string in front of the comment ends in front of it. -/
theorem Fits.within {s rest : Text} (hx : Fits c x) (hc : IsRemark c) (hs : IsQuoted s)
    (h : x ++ ' ' :: remark c = s ++ rest) : ∃ y, x = s ++ y := by
  rcases hx with hplain | hx
  · obtain ⟨y, hy, -⟩ := hs.within (twins_remark hc hplain).right h
    exact ⟨y, hy⟩
  have hread := hs.read rest
  rw [← h] at hread
  have hnone {d : Char} {t : Text} (hx : x = d :: t) (hd : d ≠ '"' ∧ d ≠ '\x27') :
      ∃ y, x = s ++ y := by
    rw [hx, List.cons_append, string_eq_none hd.1 hd.2] at hread
    cases hread
  cases x with
  | nil =>
      rw [List.nil_append, string_eq_none (by decide) (by decide)] at hread
      cases hread
  | cons d x =>
      cases hx.head (List.cons_ne_nil _ _) with
      | comment h _ =>
          refine hnone rfl ?_
          by_contra hd
          rw [List.cons_append, comment_eq_none (by rintro rfl; exact hd (by decide))] at h
          cases h
      | string _ h _ =>
          -- the string of the script without the comment is read in both
          have hpiece := isQuoted_of_string h
          obtain ⟨y, hy, -⟩ := hpiece.within isTail_lineBreak (splits_string _ _ _ h)
          rw [hy, List.append_assoc, hpiece.read] at hread
          cases hread
          exact ⟨y, hy⟩
      | char heq hc _ _ =>
          obtain ⟨rfl, -⟩ := List.cons.inj heq
          have hquotes : (d ≠ '\x60' ∧ d ≠ '"') ∧ d ≠ '\x27' := by simpa [isPlain] using hc
          exact hnone rfl ⟨hquotes.1.2, hquotes.2⟩
      | template heq _ _ =>
          obtain ⟨rfl, -⟩ := List.cons.inj heq
          exact hnone rfl (by decide)

end Script
end Hypertext

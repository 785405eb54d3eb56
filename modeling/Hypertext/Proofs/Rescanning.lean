import Hypertext.Proofs.BalancedScan
import Hypertext.Proofs.ErrorPositions

set_option autoImplicit false

/-! # Substitutions are scanned again

The text of a substitution is read twice: as a part of the template, where it goes up to the brace
that closes it, and once more by itself, for the templates in it. The first reading takes a quote or
a backquote without its partner for a character like others, the second one does not. So it is the
quotes that decide. If they all have their partners where the substitution stands, it can be
read again, and so can the substitutions of the templates in it, down to any depth
(`substitutions_scanned_again`).
-/

namespace Hypertext
namespace Script

open Lexeme

/-- A balanced substitution is a balanced script by itself. -/
theorem Piece.PairedIn.balanced {piece : Piece} {offset : Nat} {text : Text}
    (h : piece.PairedIn offset text) : Balanced (.code false) piece.text [] := by
  obtain ⟨before, rest, -, -, hbalanced⟩ := h
  exact hbalanced.outside.replace (.nil rest)

/-- What is read while a balanced script is compiled is balanced. -/
theorem Fragment.balanced {source text : Text} {base : Nat} (h : Fragment source text base)
    (hsource : Balanced (.code false) source []) : Balanced (.code false) text [] := by
  induction h with
  | script => exact hsource
  | substitution _ hscan hmem hpiece ih =>
      obtain ⟨items, hitems, hpaired⟩ := scan_of_balanced ih
      cases hscan.symm.trans hitems
      exact (hpaired _ hmem _ hpiece).balanced

/-- What is read while a script is compiled is the script, or is read while one of its substitutions
is compiled. -/
theorem Fragment.outer {source text : Text} {base : Nat} {items : List Item}
    (h : Fragment source text base) (hscan : scan source = .ok items) :
    text = source ∨ ∃ literal piece inner, .template literal ∈ items ∧
      piece ∈ literal.substitutions ∧ Fragment piece.text text inner := by
  induction h with
  | script => exact .inl rfl
  | substitution _ hinner hmem hpiece ih =>
      rcases ih with rfl | ⟨literal, piece, inner, hliteral, hsubstitution, hfragment⟩
      · cases hscan.symm.trans hinner
        exact .inr ⟨_, _, 0, hmem, hpiece, .script⟩
      · exact .inr ⟨literal, piece, _, hliteral, hsubstitution,
          .substitution hfragment hinner hmem hpiece⟩

/-- **Substitutions are scanned again.** If the quotes in a substitution all have their partners, it
can be scanned by itself, and so can all that is read while it is compiled. If this holds for all
substitutions of a script that can be scanned, compiling it never fails because something cannot be
read. -/
theorem substitutions_scanned_again {source : Text} {items : List Item}
    (hscan : scan source = .ok items) :
    (∀ literal piece, .template literal ∈ items → piece ∈ literal.substitutions →
      piece.PairedIn 0 source →
        ∀ text base, Fragment piece.text text base → ∃ found, scan text = .ok found) ∧
    ((∀ literal piece, .template literal ∈ items → piece ∈ literal.substitutions →
      piece.PairedIn 0 source) →
        ∀ options position offset expected, transform options source
          ≠ .error (.unreadable position (.unreadable offset expected))) := by
  have hscans : ∀ literal piece, .template literal ∈ items → piece ∈ literal.substitutions →
      piece.PairedIn 0 source →
        ∀ text base, Fragment piece.text text base → ∃ found, scan text = .ok found := by
    intro literal piece _ _ hpaired text base hfragment
    obtain ⟨found, hfound, -⟩ := scan_of_balanced (hfragment.balanced hpaired.balanced)
    exact ⟨found, hfound⟩
  refine ⟨hscans, fun hpaired options position offset expected herror => ?_⟩
  rcases transform_blames herror with hoverlap | hblames
  · cases hoverlap
  cases hblames with
  | @fragment text base _ hfragment hfails =>
      rcases hfragment.outer hscan with rfl | ⟨literal, piece, inner, hmem, hpiece, hinner⟩
      · rw [hscan] at hfails
        cases hfails
      · obtain ⟨found, hfound⟩ :=
          hscans literal piece hmem hpiece (hpaired literal piece hmem hpiece) text inner hinner
        rw [hfound] at hfails
        cases hfails

/-- A substitution with a string in it is scanned again. -/
theorem substitutions_scanned_again_string :
    (∃ found, scan "'a'".toList = .ok found) ∧ ∀ position offset expected,
      transform {} "\x60$\x7b'a'\x7d\x60".toList
        ≠ .error (.unreadable position (.unreadable offset expected)) := by
  have hscan : scan "\x60$\x7b'a'\x7d\x60".toList = .ok [.template ⟨none, ⟨0, 8⟩,
      [⟨[], ⟨1, 1⟩⟩, ⟨[], ⟨7, 7⟩⟩], [⟨"'a'".toList, ⟨3, 6⟩⟩]⟩] :=
    toOption_eq_some_iff.mp (by decide +kernel)
  have hstring : Lexeme.string "'a'\x7d\x60".toList = some ("'a'".toList, "\x7d\x60".toList) := by
    decide +kernel
  have hpaired : Piece.PairedIn ⟨"'a'".toList, ⟨3, 6⟩⟩ 0 "\x60$\x7b'a'\x7d\x60".toList := by
    refine ⟨"\x60$\x7b".toList, ['\x60'], rfl, rfl, ?_⟩
    exact .inert (inert_string hstring) (fun _ => ⟨by decide, by decide⟩) .nil
  have hagain := substitutions_scanned_again hscan
  refine ⟨?_, hagain.2 (fun literal piece hmem hpiece => ?_) {}⟩
  · exact hagain.1 _ _ (List.mem_singleton_self _) (List.mem_singleton_self _) hpaired _ 0 .script
  · cases List.mem_singleton.mp hmem
    cases List.mem_singleton.mp hpiece
    exact hpaired

/-- A regular expression with a quote in it is read in a template, but not by itself. -/
theorem unpaired_quote_not_scanned_again : ∃ items literal piece e,
    scan "a\x60$\x7b/'/.test(b)\x7d\x60".toList = .ok items ∧ .template literal ∈ items ∧
      piece ∈ literal.substitutions ∧ scan piece.text = .error e ∧
      transform {} "a\x60$\x7b/'/.test(b)\x7d\x60".toList = .error (.unreadable ⟨1, 6⟩ e) := by
  have hscan : scan "a\x60$\x7b/'/.test(b)\x7d\x60".toList = .ok
      [.template ⟨some (.path ["a".toList]), ⟨0, 17⟩, [⟨[], ⟨2, 2⟩⟩, ⟨[], ⟨16, 16⟩⟩],
        [⟨"/'/.test(b)".toList, ⟨4, 15⟩⟩]⟩] :=
    toOption_eq_some_iff.mp (by decide +kernel)
  refine ⟨_, _, _, .unreadable 1 [.endOfInput, .identifier, .importDeclaration, .requireDeclaration,
    .taggedTemplate, .template], hscan, List.mem_singleton_self _, List.mem_singleton_self _, ?_,
    ?_⟩
  all_goals decide +kernel

end Script
end Hypertext

import Hypertext.Proofs.Barren
import Hypertext.Proofs.Renaming

set_option autoImplicit false

/-! # Rendered code is barren

The code of a template without expressions holds text of the template: tags, names and values of
attributes, texts and comments. This file proves that none of it gets out of its place. However the
text is chosen, the scanner reads the code to its end and finds nothing in it
(`scan_render_static`).

The proof follows the renderer. `Inline` says of a piece of code that it can stand in barren code
wherever a word can end after it, and `Closed` that it can stand anywhere. Pieces that do not depend
on the template are checked by evaluation (`harmlessFrom`), and pieces are put together by a few
lemmas. Only two statements need more than their pieces: a declaration, because it begins with a
keyword, and the property of an event handler, because its name is printed as it is.

The names in the code come from the scope. Lowering gives out names of one kind only
(`Node.lower_spelled`), which follows from what is known about renaming: a function that keeps just
these names keeps all operations.
-/

namespace Hypertext
namespace Script

open Lexeme

/-! ## Pieces of code -/

/-- Code that can stand anywhere in barren code. -/
def Closed (t : Text) : Prop := ∀ rest, Barren rest → Barren (t ++ rest)

/-- Code that can stand in barren code if a word can end after it. -/
def Inline (t : Text) : Prop := ∀ rest, WordEnds rest → Barren rest → Barren (t ++ rest)

namespace Closed

variable {t u : Text}

theorem toInline (ht : Closed t) : Inline t := fun rest _ hrest => ht rest hrest

theorem append (ht : Closed t) (hu : Closed u) : Closed (t ++ u) := by
  intro rest hrest
  rw [List.append_assoc]
  exact ht _ (hu rest hrest)

theorem inline (ht : Closed t) (hu : Inline u) : Inline (t ++ u) := by
  intro rest hend hrest
  rw [List.append_assoc]
  exact ht _ (hu rest hend hrest)

theorem marks (h : ∀ c ∈ t, isQuiet c = true ∧ isWordStart c = false) : Closed t := by
  intro rest hrest
  induction t with
  | nil => exact hrest
  | cons c t ih =>
      obtain ⟨hquiet, hstart⟩ := h c List.mem_cons_self
      exact .mark hquiet hstart (ih fun d hd => h d (List.mem_cons_of_mem c hd))

end Closed

namespace Inline

theorem literal (s : Text) : Inline (stringLiteral s) := fun _ _ hrest => .literal s hrest

theorem word {w : Text} (hw : IsWord w) (hmem : w ∉ leadingWords) : Inline w :=
  fun _ hend hrest => .word hw hend (fun hleads => hmem hleads.mem) hrest

end Inline

/-! ## Fixed code -/

/-- Whether the code, after a word that was begun (given backwards), has only words that lead
nothing and characters that begin neither a comment nor a string nor a template. If it is to be
closed, it must not end in a word. -/
def harmlessFrom (closed : Bool) (word : Text) : Text → Bool
  | [] => if closed then word.isEmpty else !leadingWords.contains word.reverse
  | c :: t =>
    if isWordPart c && (!word.isEmpty || isWordStart c) then harmlessFrom closed (c :: word) t
    else
      isQuiet c && !isWordStart c && !leadingWords.contains word.reverse && harmlessFrom closed [] t

theorem IsWord.concat {w : Text} (hw : IsWord w) {c : Char} (hc : isWordPart c = true) :
    IsWord (w ++ [c]) := by
  obtain ⟨hstart, hparts⟩ := hw
  refine .intro hstart fun d hd => ?_
  rcases List.mem_append.mp hd with hd | hd
  · exact hparts d hd
  · rw [List.mem_singleton.mp hd]
    exact hc

theorem barren_of_harmlessFrom {closed : Bool} {t : Text} (word rest : Text)
    (hword : word = [] ∨ IsWord word.reverse) (h : harmlessFrom closed word t = true)
    (hend : closed = true ∨ WordEnds rest) (hrest : Barren rest) :
    Barren (word.reverse ++ (t ++ rest)) := by
  have hinline {w u : Text} (hw : IsWord w) (hmem : leadingWords.contains w = false)
      (hends : WordEnds u) (hu : Barren u) : Barren (w ++ u) :=
    Inline.word hw (by simpa using hmem) u hends hu
  induction t generalizing word with
  | nil =>
      rw [harmlessFrom] at h
      by_cases hempty : word = []
      · subst hempty
        exact hrest
      · cases closed with
        | true =>
            rw [if_pos rfl, List.isEmpty_iff] at h
            exact absurd h hempty
        | false =>
            refine hinline (hword.resolve_left hempty) (by simpa using h) ?_ hrest
            exact hend.resolve_left (by decide)
  | cons c t ih =>
      rw [harmlessFrom] at h
      split at h
      · next hpart =>
          -- the character goes on the word, or begins one
          rw [Bool.and_eq_true] at hpart
          have hlonger : IsWord (c :: word).reverse := by
            rw [List.reverse_cons]
            rcases hword with rfl | hword
            · exact .intro (by simpa using hpart.2) fun _ hd => absurd hd List.not_mem_nil
            · exact hword.concat hpart.1
          have hbarren := ih (c :: word) (.inr hlonger) h
          rwa [List.reverse_cons, List.append_assoc] at hbarren
      · next hpart =>
          simp only [Bool.and_eq_true, Bool.not_eq_true'] at h
          obtain ⟨⟨⟨hquiet, hstart⟩, hmem⟩, hharmless⟩ := h
          have hmark : Barren (c :: (t ++ rest)) :=
            .mark hquiet hstart (ih [] (.inl rfl) hharmless)
          by_cases hempty : word = []
          · subst hempty
            exact hmark
          · have hbreak : isWordPart c = false := by simpa [hempty] using hpart
            exact hinline (hword.resolve_left hempty) hmem (.cons hbreak _) hmark

/-- Fixed code is checked by evaluation. -/
theorem Inline.code {t : Text} (h : harmlessFrom false [] t = true) : Inline t :=
  fun rest hend => barren_of_harmlessFrom [] rest (.inl rfl) h (.inr hend)

theorem Closed.code {t : Text} (h : harmlessFrom true [] t = true) : Closed t :=
  fun rest => barren_of_harmlessFrom [] rest (.inl rfl) h (.inl rfl)

/-- Whether fixed code ends a word that stands before it, and is harmless. -/
def isSeparator (u : Text) : Bool := u.head?.any (!isWordPart ·) && harmlessFrom true [] u

theorem Inline.endedBy {t u : Text} (ht : Inline t) (h : isSeparator u = true) :
    Closed (t ++ u) := by
  obtain ⟨hhead, hu⟩ := Bool.and_eq_true_iff.mp h
  cases u with
  | nil => cases hhead
  | cons c u =>
      have hends : isWordPart c = false := by simpa using hhead
      intro rest hrest
      rw [List.append_assoc]
      exact ht _ (.cons hends _) (Closed.code hu rest hrest)

/-! ## Calls -/

theorem inline_joinWith {ts : List Text} (h : ∀ t ∈ ts, Inline t) :
    Inline (Text.joinWith ", ".toList ts) := by
  induction ts with
  | nil => exact .code (by decide)
  | cons t ts ih =>
      have ht := h t List.mem_cons_self
      have hts := ih fun u hu => h u (List.mem_cons_of_mem t hu)
      cases ts with
      | nil => exact ht
      | cons u us =>
          rw [Text.joinWith]
          exact (ht.endedBy (by decide)).inline hts
          exact List.cons_ne_nil _ _

theorem closed_call {function : Text} {arguments : List Text} (hfunction : Inline function)
    (harguments : ∀ t ∈ arguments, Inline t) : Closed (call function arguments) := by
  have hopen : Closed (function ++ ['(']) := hfunction.endedBy (by decide)
  exact (hopen.inline (inline_joinWith harguments)).endedBy (by decide)

/-! ## Names and numbers -/

/-- A binding with a name that a scope hands out. -/
def Generated (b : Binding) : Prop := ∃ hint i, b.name = candidate (stem hint) i

theorem isWordPart_of_isStemChar {c : Char} (h : isStemChar c = true) : isWordPart c = true := by
  simp only [isStemChar, Bool.or_eq_true, beq_iff_eq] at h
  rcases h with (h | rfl) | rfl
  · simp [isWordPart, isIdentifierPart, toNat_lt_of_isAlphanum h, h]
  · decide
  · decide

namespace Generated

variable {b : Binding}

theorem isWord (h : Generated b) : IsWord b.name := by
  obtain ⟨hint, i, hname⟩ := h
  have hall := candidate_all (stem_all hint) i
  rw [hname]
  exact .intro (by decide) fun d hd => isWordPart_of_isStemChar (hall d (List.mem_cons_of_mem _ hd))

theorem inline (h : Generated b) : Inline b.name := by
  refine .word h.isWord fun hmem => ?_
  obtain ⟨hint, i, hname⟩ := h
  -- generated names begin with an underscore
  have hfirst : ∀ w ∈ leadingWords, w.head? ≠ some '_' := by decide
  exact hfirst _ hmem (by rw [hname]; rfl)

theorem inline_setAttribute (h : Generated b) : Inline (b.name ++ ".setAttribute".toList) := by
  have hdot : Closed (b.name ++ ['.']) := h.inline.endedBy (by decide)
  have hmethod := hdot.inline (u := "setAttribute".toList) (.code (by decide))
  rwa [List.append_assoc] at hmethod

end Generated

theorem isWordStart_of_isDigit {c : Char} (h : c.isDigit = true) : isWordStart c = false := by
  have hrange := isDigit_iff.mp h
  have halpha : c.isAlpha = false := by
    rw [Bool.eq_false_iff]
    intro halpha
    rcases Bool.or_eq_true_iff.mp halpha with hupper | hlower
    · have := isUpper_iff.mp hupper
      omega
    · have := isLower_iff.mp hlower
      omega
  have hascii : c.toNat < 128 := by omega
  have hunderscore : c ≠ '_' := ne_of_class h (by decide)
  have hdollar : c ≠ '$' := ne_of_class h (by decide)
  simp [isWordStart, isIdentifierStart, hascii, halpha, hunderscore, hdollar]

theorem closed_ofNat (n : Nat) : Closed (Text.ofNat n) := by
  refine .marks fun c hc => ?_
  have hdigit : c.isDigit = true := Nat.isDigit_of_mem_toDigits (by decide) (by decide) hc
  refine ⟨isQuiet_of (by decide) (by decide) (by decide) (by decide) hdigit, ?_⟩
  exact isWordStart_of_isDigit hdigit

/-! ## Declarations -/

theorem isSpace_of_isNamePart {c : Char} (hc : isNamePart c = true) : isSpace c = false :=
  isSpace_of (by decide) (by decide) (by decide) (by decide) hc

theorem isSpaces_blank : IsSpaces [' '] := by
  intro c hc
  rw [List.mem_singleton.mp hc]
  decide

/-- A declaration does not bind a module if its initialiser begins with another letter than
`require` does. -/
theorem not_leads_declaration {name init : Text} (hname : IsWord name) {c : Char}
    (hc : init.head? = some c) (hspace : isSpace c = false) (hr : c ≠ 'r') :
    ¬Leads "var".toList (' ' :: (name ++ (' ' :: '=' :: ' ' :: init))) := by
  generalize hvar : "var".toList = w
  generalize hrest : ' ' :: (name ++ (' ' :: '=' :: ' ' :: init)) = rest
  intro hleads
  cases hleads with
  | importing => exact absurd hvar (by decide)
  | requiring => exact absurd hvar (by decide)
  | @declaring keyword s₁ name' s₂ s₃ more _ h₁ _ hname' h₂ h₃ =>
      have hblank := isSpaces_blank
      -- each part of the declaration is where it would be if it bound a module
      obtain ⟨-, hrest⟩ := span_unique hblank h₁ (hname.head_not_space _) (hname'.head_not_space _)
        hrest
      obtain ⟨-, hrest⟩ := word_unique hname hname' (.cons (by decide) _)
        (.spaces h₂ (.cons (by decide) _)) hrest
      have hequals (t : Text) : ∀ c ∈ ('=' :: t).head?, isSpace c = false := by
        rintro c ⟨⟩
        decide
      obtain ⟨-, hrest⟩ := span_unique (s := [' ']) hblank h₂ (hequals _) (hequals _) hrest
      have hrequire : ∀ c ∈ ("require".toList ++ more).head?, isSpace c = false := by
        rintro c ⟨⟩
        decide
      have hinit : ∀ d ∈ init.head?, isSpace d = false := by
        intro d hd
        rw [hc] at hd
        cases hd
        exact hspace
      obtain ⟨-, hrest⟩ := span_unique (s := [' ']) hblank h₃ hinit hrequire (List.cons.inj hrest).2
      rw [hrest] at hc
      exact hr (Option.some.inj hc).symm

theorem closed_declaration {b : Binding} (hb : Generated b) {init : Text} (hinit : Inline init)
    {c : Char} (hc : init.head? = some c) (hspace : isSpace c = false) (hr : c ≠ 'r') :
    Closed (declaration b init) := by
  intro rest hrest
  have hshape : declaration b init ++ rest
      = "var".toList ++ ' ' :: (b.name ++ (' ' :: '=' :: ' ' :: (init ++ ';' :: rest))) := by
    rw [declaration_eq]
    simp
  have hhead : (init ++ ';' :: rest).head? = some c := by
    cases init with
    | nil => cases hc
    | cons d init => exact hc
  have hvalue : Barren (init ++ ';' :: rest) :=
    hinit _ (.cons (by decide) _) (.mark (by decide) (by decide) hrest)
  have hequals : Barren (' ' :: '=' :: ' ' :: (init ++ ';' :: rest)) :=
    Closed.code (t := " = ".toList) (by decide) _ hvalue
  have hname : Barren (b.name ++ (' ' :: '=' :: ' ' :: (init ++ ';' :: rest))) :=
    hb.inline _ (.cons (by decide) _) hequals
  rw [hshape]
  refine .word (.intro (by decide) (List.all_eq_true.mp (by decide))) (.cons (by decide) _) ?_
    (.mark (by decide) (by decide) hname)
  exact not_leads_declaration hb.isWord hhead hspace hr

/-! ## Names of properties -/

/-- No word leads an item if what follows it is assigned to. -/
theorem not_leads_assigned (w rest : Text) : ¬Leads w (' ' :: '=' :: rest) :=
  not_leads_mark isSpaces_blank (by decide) (by decide) (by decide) w rest

/-- Nor if a character follows that is neither a blank nor an opening parenthesis. -/
theorem not_leads_cons {c : Char} (hspace : isSpace c = false) (hne : c ≠ '(') (w rest : Text) :
    ¬Leads w (c :: rest) := by
  intro hleads
  obtain ⟨s, d, more, hs, heq, hd⟩ := hleads.next
  cases s with
  | nil =>
      obtain ⟨rfl, -⟩ := List.cons.inj heq
      rcases hd with ⟨-, hd⟩ | hd
      · exact hd rfl
      · exact hne hd
  | cons b s =>
      obtain ⟨rfl, -⟩ := List.cons.inj heq
      rw [hs c List.mem_cons_self] at hspace
      cases hspace

theorem isQuiet_of_isNamePart {c : Char} (hc : isNamePart c = true) : isQuiet c = true :=
  isQuiet_of (by decide) (by decide) (by decide) (by decide) hc

/-- **A property that is assigned to.** Its name may fall apart into several words for the scanner,
since more characters can go on a name than go on a word. None of the words leads an item, whatever
it is. -/
theorem barren_assigned {name rest : Text} (hname : ∀ c ∈ name, isNamePart c = true)
    (hrest : Barren (' ' :: '=' :: rest)) : Barren (name ++ ' ' :: '=' :: rest) := by
  induction hlength : name.length using Nat.strong_induction_on generalizing name with
  | _ n ih =>
      subst hlength
      cases name with
      | nil => exact hrest
      | cons c t =>
          have ht : ∀ d ∈ t, isNamePart d = true := fun d hd => hname d (List.mem_cons_of_mem c hd)
          by_cases hc : isWordStart c = true
          · -- the first word of the name, and what follows it
            have hsplit : c :: t ++ ' ' :: '=' :: rest = (c :: t.takeWhile isWordPart)
                ++ (t.dropWhile isWordPart ++ ' ' :: '=' :: rest) := by
              rw [List.cons_append, List.cons_append, ← List.append_assoc,
                List.takeWhile_append_dropWhile]
            have hword : IsWord (c :: t.takeWhile isWordPart) :=
              .intro hc fun d hd => List.mem_takeWhile_imp hd
            have hafter : ∀ d ∈ t.dropWhile isWordPart, isNamePart d = true :=
              fun d hd => ht d ((List.dropWhile_sublist _).mem hd)
            have hbarren := ih _ (by
              have hle := Text.dropWhile_length_le isWordPart t
              rw [List.length_cons]
              omega) hafter rfl
            rw [hsplit]
            cases hdrop : t.dropWhile isWordPart with
            | nil =>
                rw [hdrop] at hbarren
                exact .word hword (.cons (by decide) _) (not_leads_assigned _ _) hbarren
            | cons d u =>
                rw [hdrop] at hbarren hafter
                have hd := hafter d List.mem_cons_self
                have hstop : isWordPart d = false := by
                  have hhead := List.head?_dropWhile_not isWordPart t
                  rw [hdrop] at hhead
                  simpa using hhead
                exact .word hword (.cons hstop _)
                  (not_leads_cons (isSpace_of_isNamePart hd) (ne_of_class hd (by decide)) _ _)
                  hbarren
          · refine .mark (isQuiet_of_isNamePart (hname c List.mem_cons_self)) (by simpa using hc) ?_
            exact ih t.length (Nat.lt_succ_self _) ht rfl

theorem isNamePart_of_isName {name : Text} (h : isName name = true) :
    ∀ c ∈ name, isNamePart c = true := by
  cases name with
  | nil => cases h
  | cons d t =>
      obtain ⟨hd, ht⟩ := Bool.and_eq_true_iff.mp h
      intro c hc
      rcases List.mem_cons.mp hc with rfl | hc
      · exact isNamePart_of_isNameStart hd
      · exact List.all_eq_true.mp ht c hc

theorem closed_assignment {b : Binding} (hb : Generated b) (name : Text) {v : Text}
    (hv : Inline v) : Closed (property b name ++ " = ".toList ++ v ++ [';']) := by
  have hvalue : Closed (v ++ [';']) := hv.endedBy (by decide)
  unfold property
  split
  · next hname =>
      intro rest hrest
      have hshape : b.name ++ ['.'] ++ name ++ " = ".toList ++ v ++ [';'] ++ rest
          = b.name ++ ('.' :: (name ++ ' ' :: '=' :: ' ' :: (v ++ [';'] ++ rest))) := by
        simp
      have hequals : Barren (' ' :: '=' :: ' ' :: (v ++ [';'] ++ rest)) :=
        Closed.code (t := " = ".toList) (by decide) _ (hvalue rest hrest)
      rw [hshape]
      refine hb.inline _ (.cons (by decide) _) (.mark (by decide) (by decide) ?_)
      exact barren_assigned (isNamePart_of_isName hname) hequals
  · have hopen : Closed (b.name ++ ['[']) := hb.inline.endedBy (by decide)
    have hproperty : Closed (b.name ++ ['['] ++ stringLiteral name ++ [']']) :=
      (hopen.inline (.literal name)).endedBy (by decide)
    rw [List.append_assoc]
    exact (hproperty.append (.code (by decide))).append hvalue

/-! ## Values and statements

A function on bindings that leaves none but generated names as they are tells them from others. So
operations that it leaves as they are have only generated names. -/

section

variable {f : Binding → Binding} (hf : ∀ b, f b = b → Generated b)

include hf

/-- A value in a template without expressions. An expression that is not there is `undefined`. -/
theorem inline_value {v : Value} (h : v.rename f = v) : Inline (value [] v) := by
  induction v with
  | str text => exact .literal text
  | expr index =>
      have hvalue : value [] (.expr index) = "undefined".toList := rfl
      rw [hvalue]
      exact .code (by decide)
  | ref b => exact (hf b (Value.ref.inj h)).inline
  | toText inner ih =>
      have hopen : Closed "String(".toList := .code (by decide)
      exact ((hopen.inline (ih (Value.toText.inj h))).endedBy (by decide)).toInline
  | concat left right ihleft ihright =>
      obtain ⟨hleft, hright⟩ := Value.concat.inj h
      have hleft := ihleft hleft
      have hright := ihright hright
      cases right with
      | concat middle last =>
          have hopen : Closed (value [] left ++ " + (".toList) := hleft.endedBy (by decide)
          exact ((hopen.inline hright).endedBy (by decide)).toInline
      | str _ | expr _ | ref _ | toText _ =>
          have hopen : Closed (value [] left ++ " + ".toList) := hleft.endedBy (by decide)
          exact hopen.inline hright

theorem inline_optionalValue {v : Option Value} (h : v.map (Value.rename f) = v) :
    Inline (optionalValue [] v) := by
  cases v with
  | none => exact .code (t := "null".toList) (by decide)
  | some v => exact inline_value hf (Option.some.inj h)

/-- **Every statement** is closed: it ends in a semicolon. -/
theorem closed_statement {number : UInt32 → UInt32} {operation : Operation}
    (h : operation.rename f number = operation) {helper : Option Binding}
    (hhelper : ∀ b ∈ helper, Generated b) : Closed (statement [] helper operation) := by
  have hcall {function : Text} {arguments : List Text} (hfunction : Inline function)
      (harguments : ∀ t ∈ arguments, Inline t) : Closed (call function arguments ++ [';']) :=
    (closed_call hfunction harguments).toInline.endedBy (by decide)
  have hname : Inline (statement.helperName helper) := by
    cases helper with
    | none => exact .code (t := "undefined".toList) (by decide)
    | some b => exact (hhelper b rfl).inline
  cases operation with
  | createElement b tag =>
      obtain ⟨hb, -⟩ := Operation.createElement.inj h
      have hinit : Closed (call "document.createElement".toList [stringLiteral tag]) :=
        closed_call (.code (by decide)) (by simp [Inline.literal])
      exact closed_declaration (hf b hb) hinit.toInline rfl (by decide) (by decide)
  | createNamespacedElement b space tag =>
      obtain ⟨hb, hspace, -⟩ := Operation.createNamespacedElement.inj h
      have hinit : Closed
          (call "document.createElementNS".toList [space.name, stringLiteral tag]) :=
        closed_call (.code (by decide)) (by simp [Inline.literal, (hf space hspace).inline])
      exact closed_declaration (hf b hb) hinit.toInline rfl (by decide) (by decide)
  | createComment b text =>
      obtain ⟨hb, -⟩ := Operation.createComment.inj h
      have hinit : Closed (call "document.createComment".toList [stringLiteral text]) :=
        closed_call (.code (by decide)) (by simp [Inline.literal])
      exact closed_declaration (hf b hb) hinit.toInline rfl (by decide) (by decide)
  | setProperty b name v =>
      obtain ⟨hb, -, hv⟩ := Operation.setProperty.inj h
      exact closed_assignment (hf b hb) name (inline_value hf hv)
  | setAttribute b name v =>
      obtain ⟨hb, -, hv⟩ := Operation.setAttribute.inj h
      exact hcall (hf b hb).inline_setAttribute (by simp [Inline.literal, inline_value hf hv])
  | setBooleanAttribute b name v =>
      obtain ⟨hb, -, hv⟩ := Operation.setBooleanAttribute.inj h
      have hif : Closed "if (".toList := .code (by decide)
      have htest : Closed ("if (".toList ++ value [] v ++ ") ".toList) :=
        (hif.inline (inline_value hf hv)).endedBy (by decide)
      have hset : Closed (call (b.name ++ ".setAttribute".toList)
          [stringLiteral name, stringLiteral name] ++ [';']) :=
        hcall (hf b hb).inline_setAttribute (by simp [Inline.literal])
      have hboth := htest.append hset
      rw [← List.append_assoc] at hboth
      exact hboth
  | setDynamicAttribute b name v =>
      obtain ⟨hb, hn, hv⟩ := Operation.setDynamicAttribute.inj h
      exact hcall hname (by simp [(hf b hb).inline, inline_value hf hn, inline_value hf hv])
  | setLifecycleHandler b onload onunload generation =>
      obtain ⟨hb, hload, hunload, -⟩ := Operation.setLifecycleHandler.inj h
      exact hcall hname (by simp [(hf b hb).inline, inline_optionalValue hf hload,
        inline_optionalValue hf hunload, (closed_ofNat generation.toNat).toInline])
  | appendTextNode b text =>
      obtain ⟨hb, -⟩ := Operation.appendTextNode.inj h
      have hopen : Closed (b.name ++ ".textContent = ".toList) :=
        (hf b hb).inline.endedBy (by decide)
      exact (hopen.inline (.literal text)).endedBy (by decide)
  | appendChildren b children =>
      obtain ⟨hb, hchildren⟩ := Operation.appendChildren.inj h
      have hvalues : ∀ t ∈ children.map (value []), Inline t := by
        intro t ht
        obtain ⟨child, hchild, rfl⟩ := List.mem_map.mp ht
        have hfixed := List.map_inj_left.mp (hchildren.trans (List.map_id children).symm)
        exact inline_value hf (hfixed child hchild)
      have hopen : Closed ['['] := .code (by decide)
      have hlist := (hopen.inline (inline_joinWith hvalues)).endedBy (u := [']']) (by decide)
      exact hcall hname (by simpa using ⟨(hf b hb).inline, hlist.toInline⟩)

end

end Script

/-! ## The names of a run -/

namespace Scope

open Script

/-- Every shared value has a generated name. -/
def Spelled (scope : Scope) : Prop := ∀ value ∈ scope.shared, Generated value.binding

theorem Allocates.generated {scope later : Scope} {nodes : List Binding}
    (h : scope.Allocates nodes later) {b : Binding} (hfresh : b.name ∉ scope.taken)
    (htaken : b.name ∈ later.taken) : Generated b :=
  (h.spelled b.name htaken).resolve_left hfresh

theorem Spelled.allocates {scope later : Scope} {nodes : List Binding} (hscope : scope.Spelled)
    (h : scope.Allocates nodes later) : later.Spelled := by
  intro value hvalue
  rcases h.shared value hvalue with hold | ⟨hfresh, htaken, -⟩
  · exact hscope value hold
  · exact h.generated hfresh htaken

theorem Spelled.declare {scope : Scope} (h : scope.Spelled) (key : Text) (init : SharedInit) :
    Generated (scope.declare key init).1 := by
  obtain ⟨value, hvalue, hbinding⟩ := Option.map_eq_some_iff.mp (scope.shared?_declare key init)
  rw [← hbinding]
  exact h.allocates (scope.allocates_declare key init) value (shared?_spec hvalue).1

theorem Reachable.spelled {scope : Scope} (h : scope.Reachable) : scope.Spelled := by
  induction h with
  | empty => exact fun _ hvalue => absurd hvalue List.not_mem_nil
  | reserve names _ ih =>
      intro value hvalue
      rw [reserve_shared] at hvalue
      exact ih value hvalue
  | fresh hint _ ih => exact ih.allocates (allocates_fresh hint _)
  | declare key init _ ih => exact ih.allocates (allocates_declare key init _)
  | nextGeneration _ ih => exact ih
  | lower options node _ ih => exact ih.allocates (Node.lower_allocates options _ node)
  | render expressions lowered _ ih => exact ih.allocates (render_allocates expressions lowered _)

end Scope

/-- All names are generated: a function that leaves no others as they are leaves these. -/
def Lowered.Spelled (lowered : Lowered) : Prop :=
  ∃ (f : Binding → Binding) (number : UInt32 → UInt32), (∀ b, f b = b → Script.Generated b) ∧
    (∀ operation ∈ lowered.operations, operation.rename f number = operation) ∧
    ∀ b ∈ lowered.root, f b = b

namespace Node

/-- A function that leaves the nodes and the namespace of a run as they are leaves all of it as it
is, since nothing else is named in it. -/
theorem lower_rename_self (options : LoweringOptions) (node : Node) (scope : Scope)
    {f : Binding → Binding}
    (hf : ∀ b ∈ createdBy (node.lower options scope).1 ++ spacesOf (node.lower options scope).1,
      f b = b) :
    ∃ number : UInt32 → UInt32,
      (∀ operation ∈ (node.lower options scope).1, operation.rename f number = operation) ∧
        ∀ b, (node.lower options scope).2.1.binding? = some b → f b = b := by
  have hcreated : (createdBy (node.lower options scope).1).map f
      = createdBy (node.lower options scope).1 := by
    refine (List.map_congr_left fun b hb => ?_).trans (List.map_id _)
    exact hf b (List.mem_append_left _ hb)
  obtain ⟨hoperations, hgiven⟩ := lower_rename options node (UInt32.add_zero _).symm hcreated
    fun space hspace space' hspace' =>
      (hf space (List.mem_append_right _ hspace)).trans (space_unique hspace hspace')
  refine ⟨_, List.map_inj_left.mp (hoperations.trans (List.map_id _).symm), fun b hb => ?_⟩
  have hroot := Contribution.binding?_rename f (node.lower options scope).2.1
  rw [hgiven, hb] at hroot
  exact (Option.some.inj hroot).symm

theorem lower_spelled (options : LoweringOptions) (node : Node) {scope : Scope}
    (hscope : scope.Spelled) :
    Lowered.Spelled ⟨(node.lower options scope).1, (node.lower options scope).2.1.binding?⟩ := by
  have hallocates := lower_allocates options scope node
  let names := createdBy (node.lower options scope).1 ++ spacesOf (node.lower options scope).1
  have hnames : ∀ b ∈ names, Script.Generated b := by
    intro b hb
    rcases List.mem_append.mp hb with hb | hb
    · exact hallocates.generated (hallocates.fresh b hb) (hallocates.taken b hb)
    · obtain ⟨value, hvalue, rfl⟩ := space_eq hb
      exact hscope.allocates hallocates value (Scope.shared?_spec hvalue).1
  -- all that is not named in the run goes to one generated name
  let other : Binding := ⟨candidate (stem []) 0⟩
  let f : Binding → Binding := fun b => if b ∈ names then b else other
  have hf : ∀ b, f b = b → Script.Generated b := by
    intro b hb
    by_cases hmem : b ∈ names
    · exact hnames b hmem
    · rw [← hb, show f b = other from if_neg hmem]
      exact ⟨[], 0, rfl⟩
  obtain ⟨number, hoperations, hroot⟩ := lower_rename_self options node scope (f := f)
    fun b hb => if_pos hb
  exact ⟨f, number, hf, hoperations, hroot⟩

end Node

theorem Template.lower_spelled (options : LoweringOptions) (template : Template) {scope : Scope}
    (hscope : scope.Spelled) {lowered : Lowered}
    (h : (template.lower options scope).1 = .ok lowered) : lowered.Spelled := by
  have hempty : Lowered.empty.Spelled :=
    ⟨fun _ => ⟨candidate (stem []) 0⟩, id, fun _ hb => hb ▸ ⟨[], 0, rfl⟩,
      fun _ hmem => absurd hmem List.not_mem_nil, fun _ hb => nomatch hb⟩
  unfold Template.lower at h
  split at h
  · cases h
    exact hempty
  · split at h
    · cases h
    · cases h
      exact hempty
    · next root _ =>
        cases h
        exact root.lower_spelled options hscope

/-! ## Templates -/

namespace Script

theorem closed_statements {f : Binding → Binding} (hf : ∀ b, f b = b → Generated b)
    {number : UInt32 → UInt32} {operations : List Operation}
    (h : ∀ operation ∈ operations, operation.rename f number = operation) {scope : Scope}
    (hscope : scope.Spelled) : Closed (statements [] operations scope).1 := by
  induction operations generalizing scope with
  | nil => exact fun _ hrest => hrest
  | cons operation rest ih =>
      have hindent : Closed "  ".toList := .code (by decide)
      have hbreak : Closed ['\n'] := .code (by decide)
      have hoperation := h operation List.mem_cons_self
      have hrest : ∀ other ∈ rest, other.rename f number = other :=
        fun other hother => h other (List.mem_cons_of_mem _ hother)
      rw [statements]
      cases operation.helper? with
      | none =>
          have hstatement : Closed (statement [] none operation) :=
            closed_statement hf hoperation (by simp)
          exact ((hindent.append hstatement).append hbreak).append (ih hrest hscope)
      | some helper =>
          have hname : Generated (scope.helper helper).1 := hscope.declare _ _
          have hlater : (scope.helper helper).2.Spelled :=
            hscope.allocates (scope.allocates_declare _ _)
          have hstatement : Closed (statement [] (some (scope.helper helper).1) operation) :=
            closed_statement hf hoperation (by simpa using hname)
          exact ((hindent.append hstatement).append hbreak).append (ih hrest hlater)

theorem barren_render {lowered : Lowered} (h : lowered.Spelled) {scope : Scope}
    (hscope : scope.Spelled) : Barren (render [] lowered scope).1 := by
  obtain ⟨f, number, hf, hoperations, hroot⟩ := h
  unfold render
  split
  · exact Inline.code (t := "null".toList) (by decide) [] (by simp [WordEnds]) .nil
  · next root hsome =>
      have hopen : Closed "(() => \x7b\n".toList := .code (by decide)
      have hbody := hopen.append (closed_statements hf hoperations hscope)
      have hreturn := hbody.append (u := "  return ".toList) (.code (by decide))
      have hcode := (hreturn.inline (hf root (hroot root hsome)).inline).endedBy
        (u := ";\n\x7d)()".toList) (by decide)
      have hbarren := hcode [] .nil
      rwa [List.append_nil] at hbarren

/-- **Text of a template does not get into its code.** However the text of a template without
expressions is chosen, and whatever scope it is lowered in, the scanner reads the code of the
template to its end and finds neither a template nor a declaration in it. The scope in which the
code is printed does not matter for this either. -/
theorem scan_render_static (options : LoweringOptions) (quasi : Text) {scope later : Scope}
    (hscope : scope.Reachable) {lowered : Lowered}
    (h : Template.lower options ⟨[quasi], [], rfl⟩ scope = (.ok lowered, later)) :
    scan (render [] lowered later).1 = .ok [] ∧
      ∀ other : Scope, other.Reachable → scan (render [] lowered other).1 = .ok [] := by
  have hlowered := Template.lower_spelled options _ hscope.spelled (congrArg Prod.fst h)
  have hlater := Template.lower_reachable options ⟨[quasi], [], rfl⟩ hscope
  rw [h] at hlater
  have hscan (other : Scope) (hother : other.Reachable) :
      scan (render [] lowered other).1 = .ok [] :=
    scan_of_barren (barren_render hlowered hother.spelled)
  exact ⟨hscan later hlater, hscan⟩

/-- Quotes, a backslash, a backquote, the beginning of a comment and words that begin declarations,
in names and values of attributes and in text. -/
theorem scan_render_static_quotes :
    let quasi := "<a onrequire('x')=\"'\\\x60\" onrequire=\"//\">\";import</a>".toList
    let a : Binding := ⟨"_a".toList⟩
    let lowered : Lowered :=
      ⟨[.createElement a "a".toList,
        .setProperty a "onrequire('x')".toList (.str "'\\\x60".toList),
        .setProperty a "onrequire".toList (.str "//".toList),
        .appendTextNode a "\";import".toList], some a⟩
    let later := (Template.lower ⟨true, true⟩ ⟨[quasi], [], rfl⟩ Scope.empty).2
    Template.lower ⟨true, true⟩ ⟨[quasi], [], rfl⟩ Scope.empty = (.ok lowered, later) ∧
      (statements [] lowered.operations later).1
        = ("  var _a = document.createElement(\"a\");\n"
          ++ "  _a[\"onrequire('x')\"] = \"'\\\\\x60\";\n"
          ++ "  _a.onrequire = \"//\";\n"
          ++ "  _a.textContent = \"\\\";import\";\n").toList ∧
      scan (render [] lowered later).1 = .ok [] := by
  intro quasi a lowered later
  have hlower : Template.lower ⟨true, true⟩ ⟨[quasi], [], rfl⟩ Scope.empty = (.ok lowered, later) :=
    Prod.ext (by decide +kernel) rfl
  exact ⟨hlower, by decide +kernel, (scan_render_static ⟨true, true⟩ quasi .empty hlower).1⟩

end Script
end Hypertext

import Semblance.Proofs.Lexing.Trimming

/-!
# Locality of the lexer

A text can reach over a line feed in three ways: a block comment is open at its end, a back quote of it has no
partner, or a backslash stands at its end.  A text that does none of these has the same tokens whatever follows on the
next line, and what follows has the tokens that it has by itself (`tokenize_append_newline`).  Single and double
quotes need no partner: they never reach over the end of their line.

Behind an empty line the backslash does no harm.  The other two conditions are then not only sufficient but needed
(`sealed_iff_forall_tokens`).
-/

namespace Semblance

open Lexeme Text

/-- A block comment without its closing mark. -/
def Lexeme.IsUnclosedComment (l : Lexeme) : Prop :=
  l.cls = .comment ∧ ['/', '*'] <+: l.chars ∧ ¬ ['*', '/'] <:+: l.chars.drop 2

instance (l : Lexeme) : Decidable l.IsUnclosedComment :=
  inferInstanceAs (Decidable (_ ∧ _ ∧ _))

/-- A block comment is open at the end of a text. -/
def LeavesCommentOpen (text : String) : Prop :=
  ∃ l ∈ lexemes text.toList, l.IsUnclosedComment

instance (text : String) : Decidable (LeavesCommentOpen text) :=
  inferInstanceAs (Decidable (∃ l ∈ lexemes text.toList, l.IsUnclosedComment))

/-! ### Sealed texts -/

/-- Each lexeme of a text is the first at its place. -/
theorem exists_isFirst_of_mem {s : List Char} {l : Lexeme} (hl : l ∈ lexemes s) : ∃ rest, l.IsFirst rest := by
  have hcuts : Cuts s (lexemes s) := cuts_iff.2 rfl
  generalize lexemes s = ls at hl hcuts
  induction hcuts with
  | nil => simp at hl
  | @cons l' rest ls hfirst _ ih =>
    rcases List.mem_cons.1 hl with rfl | hmem
    · exact ⟨rest, hfirst⟩
    · exact ih hmem

/-- An operator token that is a back quote comes from a back quote without a partner. -/
theorem Lexeme.token?_eq_backtick_iff {l : Lexeme} {rest : List Char} (h : l.IsFirst rest) :
    l.token? = some ⟨.operator, "\x60"⟩ ↔ l.cls = .other ∧ l.head = '\x60' := by
  obtain ⟨cls, c, s⟩ := l
  constructor
  · intro ht
    have hvalue : String.ofList (c :: s) = "\x60" := (value_of_token? ht).symm
    obtain ⟨rfl, rfl⟩ : c = '\x60' ∧ s = [] := by simpa using congrArg String.toList hvalue
    cases cls with
    | other => exact ⟨rfl, rfl⟩
    | operator =>
      cases h.takes with
      | operator hop => exact absurd hop (by decide)
    | word =>
      have hkind : (token? ⟨.word, '\x60', []⟩) ≠ some ⟨.operator, "\x60"⟩ := by decide
      exact absurd ht hkind
    | _ => simp [token?] at ht
  · rintro ⟨rfl, rfl⟩
    cases h.takes with
    | other => rfl

/-- A text is sealed if it leaves no comment open and has no back quote without a partner. -/
theorem sealed_iff {text : String} :
    Sealed text.toList ↔ ¬ LeavesCommentOpen text ∧ (⟨.operator, "\x60"⟩ : Token) ∉ tokenize text := by
  constructor
  · intro hs
    -- open lexemes are no white space, so they are among the solid ones
    have hnone : ∀ l ∈ lexemes text.toList, ¬ l.IsOpen := by
      intro l hl ho
      refine hs l (List.mem_filter.2 ⟨hl, ?_⟩) ho
      rcases ho with ⟨hcls, -⟩ | ⟨hcls, -⟩ <;> simp [hcls]
    refine ⟨?_, ?_⟩
    · rintro ⟨l, hl, hc⟩
      exact hnone l hl (.inl hc)
    · intro hmem
      obtain ⟨l, hl, ht⟩ := List.mem_filterMap.1 hmem
      obtain ⟨rest, hfirst⟩ := exists_isFirst_of_mem hl
      exact hnone l hl (.inr ((token?_eq_backtick_iff hfirst).1 ht))
  · rintro ⟨hcomment, hquote⟩ l hl ho
    have hmem : l ∈ lexemes text.toList := (List.mem_filter.1 hl).1
    obtain ⟨rest, hfirst⟩ := exists_isFirst_of_mem hmem
    rcases ho with hc | hq
    · exact hcomment ⟨l, hmem, hc⟩
    · exact hquote (List.mem_filterMap.2 ⟨l, hmem, (token?_eq_backtick_iff hfirst).2 hq⟩)

/-! ### What follows a text -/

/-- Lexing a text does not depend on the lines after it, and lexing these does not depend on the text, unless the text
leaves a comment open, has a back quote without a partner, or ends in a backslash. -/
theorem tokenize_append_newline {a b : String} (hcomment : ¬ LeavesCommentOpen a)
    (hquote : (⟨.operator, "\x60"⟩ : Token) ∉ tokenize a) (hend : a.toList.getLast? ≠ some '\\') :
    tokenize (a ++ "\n" ++ b) = tokenize a ++ tokenize b := by
  have hsealed : Sealed a.toList := sealed_iff.2 ⟨hcomment, hquote⟩
  have htext : (a ++ "\n" ++ b).toList = a.toList ++ '\n' :: b.toList := by simp [String.toList_append]
  rw [tokenize_eq_tokens, htext, tokens_append_newline hsealed (.inl hend), tokenize_eq_tokens, tokenize_eq_tokens]

/-- An apostrophe takes nothing from the next line. -/
theorem tokenize_append_newline_apostrophe :
    let a := "<p>Don't panic</p>;"
    let b := "return 'x';"
    (⟨.operator, "'"⟩ : Token) ∈ tokenize a ∧ tokenize (a ++ "\n" ++ b) = tokenize a ++ tokenize b := by
  intro a b
  refine ⟨by decide +kernel, ?_⟩
  exact tokenize_append_newline (by decide +kernel) (by decide +kernel) (by decide +kernel)

/-- An open lexeme swallows a back quote that follows, or finds its partner in it. -/
theorem tokens_backtick_of_isOpen {c : Char} {s : List Char} (h : (first c s).IsOpen) :
    tokens (c :: (s ++ ['\n', '\n', '\x60'])) ≠ tokens (c :: s) ++ [⟨.operator, "\x60"⟩] := by
  rcases h.cases with ⟨block, hblock, hb⟩ | ⟨rfl, hs⟩
  · have hall := tokens_of_comment (.openComment hb)
    have hb' : ¬ ['*', '/'] <:+: block ++ ['\n', '\n', '\x60'] := not_close_append hb (by decide) (by decide)
    have hmore := tokens_of_comment (.openComment hb')
    rw [List.append_nil] at hall hmore
    have happ : c :: (s ++ ['\n', '\n', '\x60']) = '/' :: '*' :: (block ++ ['\n', '\n', '\x60']) := by
      rw [← List.cons_append, hblock]
      rfl
    rw [happ, hblock, hmore, hall]
    simp
  · have hclosed := isSome_closing? (by decide : '\n' ≠ '\\') (by decide : '\x60' ≠ '\\') 0 (s ++ ['\n']) []
    obtain ⟨m, hm⟩ := Option.isSome_iff_exists.1 hclosed
    obtain ⟨inner, rest, hsplit, -, hi⟩ := exists_of_closing? hm
    have htext : s ++ ['\n', '\n', '\x60'] = inner ++ '\x60' :: rest := by
      rw [← hsplit]
      simp
    rw [htext, tokens_cons, tokens_cons, first_of_template hi, first_backtick hs]
    simp [token?]

/-- A text is sealed exactly if nothing that follows it behind an empty line mixes with it. -/
theorem sealed_iff_forall_tokens {a : List Char} :
    Sealed a ↔ ∀ b, tokens (a ++ '\n' :: '\n' :: b) = tokens a ++ tokens b := by
  constructor
  · intro ha b
    rw [tokens_append_newline ha (.inr rfl), tokens_cons_of_isBlank (by decide)]
  · intro h
    rcases sealed_or_open ['\n', '\x60'] a (.inr rfl) with ⟨hs, -⟩ | ⟨ls, c, s, ho, hl, hr⟩
    · exact hs
    · -- up to the first open lexeme both sides are the same
      have hb := h ['\x60']
      have hop : tokens ['\x60'] = [⟨.operator, "\x60"⟩] := by decide +kernel
      rw [hop, tokens_eq_filterMap_solid, tokens_eq_filterMap_solid a, hr, hl, List.filterMap_append,
        List.filterMap_append, List.append_assoc, List.append_cancel_left_eq, ← tokens_eq_filterMap_solid,
        ← tokens_eq_filterMap_solid] at hb
      exact absurd hb (tokens_backtick_of_isOpen ho)

end Semblance

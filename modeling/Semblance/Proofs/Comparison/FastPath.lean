import Semblance.Proofs.Comparison.RenamedCopy
import Semblance.Proofs.Lexing.Reflow

/-!
# The fast path

Texts with one normal form are called plagiarized without being scored.  Scoring them would mostly say the same: the
tokens of one are a renamed copy of those of the other (`renames_of_normal_eq`), unless a line feed that stands in
only one of them ends a line comment or a string.  `lineSpans` measures what can end so.
-/

namespace Semblance

open Lexeme Text

/-! ### Spans that line feeds can end -/

/-- A lexeme that a single or double quote starts. -/
def Lexeme.IsQuoted (l : Lexeme) : Prop :=
  l.head = '"' ∨ l.head = '\''

instance (l : Lexeme) : Decidable l.IsQuoted :=
  inferInstanceAs (Decidable (_ ∨ _))

/-- The spans of a list of lexemes, where `pending` counts the solid characters of the comments since a line comment,
if there was one after the last token. -/
def spansFrom (pending : Option Nat) : List Lexeme → List Nat
  | [] => []
  | l :: ls =>
    if l.token? = none then
      spansFrom (if pending.isSome ∨ l.IsLineComment then some (pending.getD 0 + solidCount l.chars) else none) ls
    else pending.toList ++ (if l.IsQuoted then [solidCount l.chars] else []) ++ spansFrom none ls

/-- What line feeds can end in a text, in order and measured in solid characters: for each token, the comments before
it from the first line comment on, if there is one, and the token itself if a single or double quote starts it. -/
def lineSpans (s : List Char) : List Nat :=
  spansFrom none (lexemes s)

variable {c : Char} {s t : List Char}

theorem spansFrom_cons_token {l : Lexeme} (h : l.token? ≠ none) (pending : Option Nat) (ls : List Lexeme) :
    spansFrom pending (l :: ls) =
      pending.toList ++ (if l.IsQuoted then [solidCount l.chars] else []) ++ spansFrom none ls := by
  rw [spansFrom, if_neg h]

theorem spansFrom_some_cons {l : Lexeme} (h : l.token? = none) (n : Nat) (ls : List Lexeme) :
    spansFrom (some n) (l :: ls) = spansFrom (some (n + solidCount l.chars)) ls := by
  rw [spansFrom, if_pos h, if_pos (.inl rfl), Option.getD_some]

theorem spansFrom_none_cons_line {l : Lexeme} (h : l.IsLineComment) (ls : List Lexeme) :
    spansFrom none (l :: ls) = spansFrom (some (solidCount l.chars)) ls := by
  rw [spansFrom, if_pos (token?_eq_none_iff.2 (.inl h.1)), if_pos (.inr h), Option.getD_none, Nat.zero_add]

theorem spansFrom_none_cons {l : Lexeme} (h : l.token? = none) (hl : ¬ l.IsLineComment) (ls : List Lexeme) :
    spansFrom none (l :: ls) = spansFrom none ls := by
  rw [spansFrom, if_pos h, if_neg (by simp [hl])]

theorem tokens_dropWhile (s : List Char) : tokens (s.dropWhile isBlank) = tokens s := by
  rw [tokens_eq_filterMap_solid, solidLexemes_dropWhile, ← tokens_eq_filterMap_solid]

theorem lineSpans_dropWhile (s : List Char) : lineSpans (s.dropWhile isBlank) = lineSpans s := by
  cases s with
  | nil => rfl
  | cons c s =>
    by_cases hc : isBlank c
    · have hrest : (s.takeWhile isBlank ++ s.dropWhile isBlank).drop (s.takeWhile isBlank).length =
          s.dropWhile isBlank := List.drop_left
      rw [List.takeWhile_append_dropWhile] at hrest
      rw [List.dropWhile_cons_of_pos hc, lineSpans, lineSpans, lexemes_cons, first_of_isBlank hc,
        spansFrom_none_cons rfl (by simp [IsLineComment]), hrest]
    · rw [List.dropWhile_cons_of_neg hc]

/-- Behind a line comment the spans say after how many solid characters the next token starts, if there is one. -/
theorem spansFrom_some_cases (n : Nat) : (s : List Char) →
    (spansFrom (some n) (lexemes s) = [] ∧ tokens s = []) ∨
      ∃ m c r, dropSolid m s = c :: r ∧ tokens s = tokens (c :: r) ∧
        spansFrom (some n) (lexemes s) = (n + m) :: lineSpans (c :: r)
  | [] => .inl ⟨by rw [lexemes_nil, spansFrom], tokens_nil⟩
  | c :: s => by
    have hlt : (s.drop (first c s).tail.length).length < (c :: s).length := by
      rw [List.length_drop, List.length_cons]
      omega
    by_cases htoken : (first c s).token? = none
    · -- comments and white space are passed over with their solid characters
      have htokens : tokens (c :: s) = tokens (s.drop (first c s).tail.length) := by
        rw [tokens_cons, htoken]
        rfl
      rw [lexemes_cons, spansFrom_some_cons htoken, htokens]
      rcases spansFrom_some_cases (n + solidCount (first c s).chars) (s.drop (first c s).tail.length) with
        hnone | ⟨m, d, r, hdrop, hr, hspans⟩
      · exact .inl hnone
      · refine .inr ⟨solidCount (first c s).chars + m, d, r, ?_, hr, ?_⟩
        · rw [dropSolid_first, hdrop]
        · rw [hspans, Nat.add_assoc]
    · have hc : isBlank c = false := by
        by_contra hc
        rw [first_of_isBlank (by simpa using hc)] at htoken
        exact htoken rfl
      refine .inr ⟨0, c, s, ?_, rfl, ?_⟩
      · rw [dropSolid, List.dropWhile_cons_of_neg (by simp [hc])]
      · rw [lineSpans, lexemes_cons, spansFrom_cons_token htoken, spansFrom_cons_token htoken]
        rfl
  termination_by s => s.length

/-! ### Tokens of texts with one normal form -/

theorem Lexeme.Matches.renames {l m : Lexeme} (h : l.Matches m) :
    List.Forall₂ Token.Renames l.token?.toList m.token?.toList := by
  obtain ⟨cls, c, s⟩ := l
  obtain ⟨cls', d, t⟩ := m
  obtain ⟨rfl, hsame⟩ : cls = cls' ∧ _ := h
  have hrefl (u : Token) : u.Renames u := ⟨rfl, fun _ => rfl⟩
  by_cases hcomment : cls = .comment
  · subst hcomment
    exact .nil
  by_cases hstring : cls = .string
  · subst hstring
    exact .cons ⟨rfl, by simp [Token.isMark]⟩ .nil
  · rw [hsame hcomment hstring]
    exact List.forall₂_same.2 fun u _ => hrefl u

theorem Lexeme.Matches.token?_eq_none_iff {l m : Lexeme} (h : l.Matches m) : l.token? = none ↔ m.token? = none := by
  rw [Lexeme.token?_eq_none_iff, Lexeme.token?_eq_none_iff, h.1]

theorem Lexeme.token?_first_of_quote (hc : c ∈ quotes) (s : List Char) : (first c s).token? ≠ none := by
  rw [Ne, Lexeme.token?_eq_none_iff]
  rcases first_quote_cases hc s with hs | ⟨hs, -⟩ <;> simp [hs]

theorem lineSpans_cons_token (h : (first c s).token? ≠ none) :
    lineSpans (c :: s) = (if c = '"' ∨ c = '\'' then [solidCount (first c s).chars] else []) ++
      lineSpans (s.drop (first c s).tail.length) := by
  rw [lineSpans, lexemes_cons, spansFrom_cons_token h]
  rfl

theorem lineSpans_cons (h : (first c s).token? = none) (hl : ¬ (first c s).IsLineComment) :
    lineSpans (c :: s) = lineSpans (s.drop (first c s).tail.length) := by
  rw [lineSpans, lexemes_cons, spansFrom_none_cons h hl, lineSpans]

/-- After a line comment there is no token, or the spans say where the next one starts. -/
theorem lineSpans_cases_of_line (h : (first c s).IsLineComment) :
    (lineSpans (c :: s) = [] ∧ tokens (c :: s) = []) ∨
      ∃ n d r, dropSolid n (c :: s) = d :: r ∧ (d :: r).length ≤ s.length ∧ tokens (c :: s) = tokens (d :: r) ∧
        lineSpans (c :: s) = n :: lineSpans (d :: r) := by
  have htokens : tokens (c :: s) = tokens (s.drop (first c s).tail.length) := by
    rw [tokens_cons, token?_eq_none_iff.2 (.inl h.1)]
    rfl
  rw [lineSpans, lexemes_cons, spansFrom_none_cons_line h, htokens]
  rcases spansFrom_some_cases (solidCount (first c s).chars) (s.drop (first c s).tail.length) with
    hnone | ⟨m, d, r, hdrop, hr, hspans⟩
  · exact .inl hnone
  · have hlen := length_dropSolid_le m (s.drop (first c s).tail.length)
    rw [hdrop, List.length_drop] at hlen
    exact .inr ⟨_, d, r, by rw [dropSolid_first, hdrop], by omega, hr, hspans⟩

/-- Texts with one normal form and the same line spans have tokens that are renamed copies of each other. -/
theorem renames_of_normal_eq (h : normal s = normal t) (hspans : lineSpans s = lineSpans t) :
    List.Forall₂ Token.Renames (tokens s) (tokens t) := by
  -- induction on the length: the lexemes are taken from both texts at once
  induction hn : s.length using Nat.strong_induction_on generalizing s t with
  | _ n ih =>
    subst hn
    have hle : (s.dropWhile isBlank).length ≤ s.length := (List.dropWhile_suffix isBlank).length_le
    rw [← lineSpans_dropWhile s, ← lineSpans_dropWhile t] at hspans
    rw [← tokens_dropWhile s, ← tokens_dropWhile t]
    rcases normal_cases h with ⟨hs, ht⟩ | ⟨c, s', t', hc, hs, ht, hst⟩
    · rw [hs, ht, tokens_nil]
      exact .nil
    rw [hs, List.length_cons] at hle
    rw [hs, ht] at hspans ⊢
    have hrest : (s'.drop (first c s').tail.length).length < s.length := by
      rw [List.length_drop]
      omega
    by_cases hline : (first c s').IsLineComment
    · obtain ⟨rfl, hhead⟩ := isLineComment_first_iff.1 hline
      have hline' : (first '/' t').IsLineComment :=
        isLineComment_first_iff.2 ⟨rfl, head?_of_squeeze hst.symm (by decide) hhead⟩
      rcases lineSpans_cases_of_line hline with ⟨hnil, hnone⟩ | ⟨m, d, r, hdrop, hlen, hr, hcons⟩ <;>
        rcases lineSpans_cases_of_line hline' with ⟨hnil', hnone'⟩ | ⟨m', d', r', hdrop', -, hr', hcons'⟩
      · rw [hnone, hnone']
        exact .nil
      · rw [hnil, hcons'] at hspans
        exact absurd hspans (by simp)
      · rw [hcons, hnil'] at hspans
        exact absurd hspans (by simp)
      · -- the next token starts behind as many solid characters in both texts
        rw [hcons, hcons'] at hspans
        obtain ⟨rfl, hmore⟩ := List.cons.inj hspans
        have hnormal := normal_dropSolid (normal_eq_of_squeeze (squeeze_append_congr ['/'] hst)) m
        rw [List.singleton_append, List.singleton_append, hdrop, hdrop'] at hnormal
        rw [hr, hr']
        exact ih _ (by omega) hnormal hmore rfl
    · have hline' : ¬ (first c t').IsLineComment := by
        rw [isLineComment_first_iff] at hline ⊢
        exact fun hl => hline ⟨hl.1, head?_of_squeeze hst (by decide) hl.2⟩
      by_cases hq : c = '"' ∨ c = '\''
      · have hmem : c ∈ quotes := by rcases hq with rfl | rfl <;> decide
        rw [lineSpans_cons_token (token?_first_of_quote hmem s'), lineSpans_cons_token (token?_first_of_quote hmem t'),
          if_pos hq, if_pos hq] at hspans
        obtain ⟨hcount, hmore⟩ := List.cons.inj hspans
        obtain ⟨hmatch, hnormal⟩ := first_of_squeeze hc hst hline fun _ => hcount
        rw [tokens_cons, tokens_cons]
        exact List.rel_append hmatch.renames (ih _ hrest hnormal hmore rfl)
      · obtain ⟨hmatch, hnormal⟩ := first_of_squeeze hc hst hline fun hq' => absurd hq' hq
        have hmore : lineSpans (s'.drop (first c s').tail.length) = lineSpans (t'.drop (first c t').tail.length) := by
          by_cases htoken : (first c s').token? = none
          · rwa [lineSpans_cons htoken hline, lineSpans_cons (hmatch.token?_eq_none_iff.1 htoken) hline'] at hspans
          · rwa [lineSpans_cons_token htoken, lineSpans_cons_token (mt hmatch.token?_eq_none_iff.2 htoken), if_neg hq,
              if_neg hq] at hspans
        rw [tokens_cons, tokens_cons]
        exact List.rel_append hmatch.renames (ih _ hrest hnormal hmore rfl)

/-! ### Scoring what the fast path skips -/

/-- What the adaptive policy makes of the three scores of two texts. -/
def adaptiveVerdict (a b : String) : Int × Verdict :=
  let ta := tokenize a
  let tb := tokenize b
  Policy.adaptive.combine (Phase.lexical ta tb).score (Phase.structural ta tb).score (Phase.controlFlow ta tb).score
    (skeleton ta).isEmpty (controlFlow ta).isEmpty

theorem Route.of_eq_identical_iff {a b : String} :
    Route.of a b = .identical ↔ Text.normalize a ≠ "" ∧ Text.normalize a = Text.normalize b := by
  have hempty : Text.normalize a ≠ "" ∧ Text.normalize a = Text.normalize b ↔
      (!(Text.normalize a).isEmpty && Text.normalize a = Text.normalize b) = true := by simp
  rw [hempty, Route.of]
  split
  · rename_i h
    simp [h]
  · rename_i h
    dsimp only
    split <;> simp [h]

theorem compareTexts_of_normalize_eq (p : Policy) {a b : String} (ha : Text.normalize a ≠ "")
    (h : Text.normalize a = Text.normalize b) :
    (compareTexts p a b).overall = 100 ∧ (compareTexts p a b).verdict = .plagiarized := by
  have hroute : Route.of a b = .identical := Route.of_eq_identical_iff.2 ⟨ha, h⟩
  rw [compareTexts, hroute]
  exact ⟨rfl, rfl⟩

/-- Texts that are equal up to white space take the fast path.  If no line feed ends a span in only one of them, then
scoring them says the same. -/
theorem combine_of_normalize_eq {a b : String} (ha : tokenize a ≠ []) (h : Text.normalize a = Text.normalize b)
    (hspans : lineSpans a.toList = lineSpans b.toList) :
    Route.of a b = .identical ∧ adaptiveVerdict a b = (100, .plagiarized) := by
  have hnormal : normal a.toList = normal b.toList := normalize_eq_iff.1 h
  have hrenames := renames_of_normal_eq hnormal hspans
  have hne : Text.normalize a ≠ "" := by
    intro hempty
    exact ha (tokens_of_isBlank (normalize_eq_empty_iff.1 hempty))
  refine ⟨Route.of_eq_identical_iff.2 ⟨hne, h⟩, ?_⟩
  obtain ⟨hoverall, hverdict, -⟩ := scored_adaptive_of_renames hrenames ha []
  exact Prod.ext hoverall hverdict

theorem combine_of_normalize_eq_comment :
    let a := "x = 'a  b' // c\ny"
    let b := "x =\n'a b'  //  c\n\n y"
    (tokenize a ≠ [] ∧ Text.normalize a = Text.normalize b ∧ lineSpans a.toList = lineSpans b.toList) ∧
      Route.of a b = .identical ∧ adaptiveVerdict a b = (100, .plagiarized) := by
  intro a b
  have ha : tokenize a ≠ [] := by decide +kernel
  have h : Text.normalize a = Text.normalize b := by decide +kernel
  have hspans : lineSpans a.toList = lineSpans b.toList := by decide +kernel
  exact ⟨⟨ha, h, hspans⟩, combine_of_normalize_eq ha h hspans⟩

/-- The lexical score of windows of one sign is the share of the common signs. -/
theorem score_lexical_of_windowSize_one {a b : List Token} {u v w : List String}
    (hsize : windowSize a.length b.length = 1) (hu : distinct (signature a) = u) (hv : distinct (signature b) = v)
    (hne : u ≠ [] ∧ v ≠ []) (hw : distinct (u ++ v) = w) :
    (Phase.lexical a b).score = percent (ratio (u.filter (· ∈ v)).length w.length) := by
  have hone (words : List String) : distinctWindows 1 words = distinct words := by
    rw [distinctWindows, if_pos (by decide), Int.toNat_one, windows_one]
  have hself : distinct u = u := hu ▸ distinct_eq (pairwise_distinct _) fun _ => Iff.rfl
  simp [Phase.lexical, hsize, hone, hu, hv, hne, overlap, shared_eq_filter, hself, hw]

/-- A line feed that ends a comment or a string in one text only: the fast path calls the texts plagiarized, scoring
them would not. -/
theorem combine_ne_of_line_feed :
    (let a := "z // x\ny + 1"
      let b := "z // x y + 1"
      Text.normalize a = Text.normalize b ∧ Text.normalize a ≠ "" ∧ tokenize a ≠ [] ∧ tokenize b ≠ [] ∧
        Route.of a b = .identical ∧ adaptiveVerdict a b ≠ (100, .plagiarized)) ∧
      let a := "x = 'a\nb'"
      let b := "x = 'a b'"
      Text.normalize a = Text.normalize b ∧ Text.normalize a ≠ "" ∧ tokenize a ≠ [] ∧ tokenize b ≠ [] ∧
        Route.of a b = .identical ∧ adaptiveVerdict a b ≠ (100, .plagiarized) := by
  have hthree : ["ID", "LIT", "OP"].Pairwise (· < ·) := by decide +kernel
  dsimp only [adaptiveVerdict]
  refine ⟨?_, ?_⟩
  · -- one of three signs is common
    have ha : tokenize "z // x\ny + 1" =
        [⟨.identifier, "z"⟩, ⟨.identifier, "y"⟩, ⟨.operator, "+"⟩, ⟨.literal, "1"⟩] := by decide +kernel
    have hb : tokenize "z // x y + 1" = [⟨.identifier, "z"⟩] := by decide +kernel
    have hsignsA : distinct (signature (tokenize "z // x\ny + 1")) = ["ID", "LIT", "OP"] :=
      distinct_eq hthree fun w => by rw [ha]; simp [signature, Token.sign]; tauto
    have hsignsB : distinct (signature (tokenize "z // x y + 1")) = ["ID"] :=
      distinct_eq (by decide +kernel) fun w => by rw [hb]; simp [signature, Token.sign]
    have hall : distinct (["ID", "LIT", "OP"] ++ ["ID"]) = ["ID", "LIT", "OP"] :=
      distinct_eq hthree fun w => by simp; tauto
    rw [score_lexical_of_windowSize_one (by rw [ha, hb]; decide +kernel) hsignsA hsignsB (by simp) hall, ha, hb]
    decide +kernel
  · -- two of three signs are common
    have ha : tokenize "x = 'a\nb'" = [⟨.identifier, "x"⟩, ⟨.operator, "="⟩, ⟨.operator, "'"⟩, ⟨.identifier, "a"⟩,
        ⟨.identifier, "b"⟩, ⟨.operator, "'"⟩] := by decide +kernel
    have hb : tokenize "x = 'a b'" = [⟨.identifier, "x"⟩, ⟨.operator, "="⟩, ⟨.literal, "'a b'"⟩] := by decide +kernel
    have hsignsA : distinct (signature (tokenize "x = 'a\nb'")) = ["ID", "OP"] :=
      distinct_eq (by decide +kernel) fun w => by rw [ha]; simp [signature, Token.sign]; tauto
    have hsignsB : distinct (signature (tokenize "x = 'a b'")) = ["ID", "LIT", "OP"] :=
      distinct_eq hthree fun w => by rw [hb]; simp [signature, Token.sign]; tauto
    have hall : distinct (["ID", "OP"] ++ ["ID", "LIT", "OP"]) = ["ID", "LIT", "OP"] :=
      distinct_eq hthree fun w => by simp; tauto
    rw [score_lexical_of_windowSize_one (by rw [ha, hb]; decide +kernel) hsignsA hsignsB (by simp) hall, ha, hb]
    decide +kernel

end Semblance

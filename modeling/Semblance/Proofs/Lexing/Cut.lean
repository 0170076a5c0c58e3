import Semblance.Proofs.Lexing.Rules

/-!
# Cuts

The lexer takes the first lexeme at each place (`isFirst_first`), and no other lexeme is the first there
(`IsFirst.eq_first`).  So a text has exactly one cut, the lexemes of the lexer (`cuts_iff`), and its tokens are those
of the lexemes in the cut (`existsUnique_cut`).
-/

namespace Semblance

namespace Lexeme

/-! ### The first lexeme at a place -/

/-- The classes whose rules the lexer tries, in the order of their turns. -/
private def tried : List LexemeClass :=
  [.comment, .string, .word, .number, .operator, .punctuation, .blank]

private theorem rules_eq : rules = tried.map fun cls => (cls, rule cls) := rfl

private theorem pairwise_tried : tried.Pairwise fun cls cls' => cls.turn < cls'.turn := by decide

private theorem mem_tried_of_turn_lt {cls : LexemeClass} (h : cls.turn < LexemeClass.other.turn) : cls ∈ tried := by
  cases cls with
  | other => exact absurd h (Nat.lt_irrefl _)
  | _ => decide

private theorem turn_le (cls : LexemeClass) : cls.turn ≤ LexemeClass.other.turn := by
  cases cls <;> decide

/-- The lexer measures by a rule that finds a piece, where no rule of an earlier turn does. -/
theorem rule_measure (c : Char) (s : List Char) :
    rule (measure c s).1 c s = some (measure c s).2 ∧
      ∀ cls : LexemeClass, cls.turn < (measure c s).1.turn → rule cls c s = none := by
  have hm : measure c s = (tried.findSome? fun cls => (rule cls c s).map fun n => (cls, n)).getD (.other, 0) := by
    rw [measure, rules_eq, List.findSome?_map]
    rfl
  rw [hm]
  cases hf : tried.findSome? fun cls => (rule cls c s).map fun n => (cls, n) with
  | none =>
    refine ⟨rfl, fun cls hcls => ?_⟩
    simpa using List.findSome?_eq_none_iff.1 hf cls (mem_tried_of_turn_lt hcls)
  | some found =>
    obtain ⟨before, cls, after, hl, hcls, hbefore⟩ := List.findSome?_eq_some_iff.1 hf
    obtain ⟨n, hn, rfl⟩ := Option.map_eq_some_iff.1 hcls
    refine ⟨hn, fun cls' (hcls' : cls'.turn < cls.turn) => ?_⟩
    -- a rule of an earlier turn stands before the one that was found, so it was tried
    have hmem := mem_tried_of_turn_lt (Nat.lt_of_lt_of_le hcls' (turn_le cls))
    have hp := pairwise_tried
    rw [hl, List.pairwise_append, List.pairwise_cons] at hp
    rw [hl, List.mem_append, List.mem_cons] at hmem
    rcases hmem with hmem | rfl | hmem
    · simpa using hbefore cls' hmem
    · exact absurd hcls' (Nat.lt_irrefl _)
    · exact absurd (hp.2.1.1 cls' hmem) (Nat.lt_asymm hcls')

theorem turn_injective {cls cls' : LexemeClass} (h : cls.turn = cls'.turn) : cls = cls' := by
  cases cls <;> cases cls' <;> first | rfl | cases h

theorem tail_first_append (c : Char) (s : List Char) :
    (first c s).tail ++ s.drop (first c s).tail.length = s :=
  (List.cons.inj (chars_first_append c s)).2

/-- The first lexeme of the lexer is the first at its place. -/
theorem isFirst_first (c : Char) (s : List Char) : (first c s).IsFirst (s.drop (first c s).tail.length) := by
  have happ := chars_first_append c s
  obtain ⟨hrule, hearlier⟩ := rule_measure c s
  obtain ⟨t, rest, rfl, hlen, ht⟩ := rule_eq_some_iff.1 hrule
  have htail : (first c (t ++ rest)).tail = t := by
    simp [first, ← hlen]
  refine ⟨?_, ?_⟩
  · rw [htail, List.drop_left, chars, htail]
    exact ht
  · intro cls hcls piece rest' he
    rw [happ] at he
    exact rule_eq_none_iff.1 (hearlier cls hcls) piece rest' he

/-- At each place only one lexeme is the first. -/
theorem IsFirst.eq_first {l : Lexeme} {rest : List Char} (h : l.IsFirst rest) : l = first l.head (l.tail ++ rest) := by
  obtain ⟨cls, c, t⟩ := l
  obtain ⟨hrule, hearlier⟩ := rule_measure c (t ++ rest)
  have hl : rule cls c (t ++ rest) = some t.length := rule_eq_some_iff.2 ⟨t, rest, rfl, rfl, h.takes⟩
  -- of two rules that find a piece, the one of the later turn is not the first
  have hcls : (measure c (t ++ rest)).1 = cls := by
    apply turn_injective
    rcases Nat.lt_trichotomy (measure c (t ++ rest)).1.turn cls.turn with hlt | heq | hgt
    · have hnone : rule (measure c (t ++ rest)).1 c (t ++ rest) = none := rule_eq_none_iff.2 (h.earlier _ hlt)
      exact absurd (hnone ▸ hrule) (by simp)
    · exact heq
    · exact absurd (hearlier cls hgt ▸ hl) (by simp)
  have hn : (measure c (t ++ rest)).2 = t.length := by
    rw [hcls, hl] at hrule
    exact (Option.some.inj hrule).symm
  have hm : measure c (t ++ rest) = (cls, t.length) := Prod.ext hcls hn
  simp [first, hm]

/-- A piece that a rule takes is the first lexeme, if the rules of earlier turns find nothing. -/
theorem first_of_takes {cls : LexemeClass} {c : Char} {s rest : List Char} (h : Takes cls (c :: s) rest)
    (hearlier : ∀ cls' : LexemeClass, cls'.turn < cls.turn → rule cls' c (s ++ rest) = none) :
    first c (s ++ rest) = ⟨cls, c, s⟩ := by
  have hfirst : IsFirst ⟨cls, c, s⟩ rest :=
    ⟨h, fun cls' hcls piece rest' he => rule_eq_none_iff.1 (hearlier cls' hcls) piece rest' he⟩
  exact hfirst.eq_first.symm

end Lexeme

/-- The lexemes of a text are its only cut. -/
theorem cuts_iff {s : List Char} {ls : List Lexeme} : Cuts s ls ↔ ls = lexemes s := by
  constructor
  · intro h
    induction h with
    | nil => rw [lexemes_nil]
    | @cons l rest ls hl hr ih =>
      rw [Lexeme.chars, List.cons_append, lexemes_cons, ← hl.eq_first, List.drop_left, ih]
  · rintro rfl
    exact cuts_lexemes s
where
  cuts_lexemes : (s : List Char) → Cuts s (lexemes s)
    | [] => by
      rw [lexemes_nil]
      exact .nil
    | c :: rest => by
      have h := Cuts.cons (Lexeme.isFirst_first c rest) (cuts_lexemes _)
      rwa [Lexeme.chars_first_append, ← lexemes_cons] at h
    termination_by s => s.length

/-- A lexeme gives no token exactly if it is a comment or white space. -/
theorem Lexeme.token?_eq_none_iff {l : Lexeme} : l.token? = none ↔ l.cls = .comment ∨ l.cls = .blank := by
  obtain ⟨cls, c, s⟩ := l
  cases cls <;> simp [token?]

/-- The value of a token is the text of its lexeme. -/
theorem Lexeme.value_of_token? {l : Lexeme} {t : Token} (h : l.token? = some t) : t.value = String.ofList l.chars := by
  obtain ⟨cls, c, s⟩ := l
  cases cls <;> simp_all [token?, eq_comm]

/-- The token of a lexeme has its text, and the kind of its class. -/
theorem Lexeme.token?_eq_some_iff {l : Lexeme} {t : Token} :
    l.token? = some t ↔ t.value = String.ofList l.chars ∧ l.cls.HasKind t.value t.kind := by
  constructor
  · intro h
    have hvalue := Lexeme.value_of_token? h
    refine ⟨hvalue, ?_⟩
    obtain ⟨cls, c, s⟩ := l
    cases cls with
    | comment | blank => simp [token?] at h
    | word =>
      obtain rfl := Option.some.inj h
      by_cases hk : keywords.contains (String.ofList (c :: s))
      · rw [chars, if_pos hk]
        exact .keyword (by simpa using hk)
      · rw [chars, if_neg hk]
        exact .identifier (by simpa using hk)
    | string | number | operator | punctuation | other =>
      obtain rfl := Option.some.inj h
      constructor
  · obtain ⟨cls, c, s⟩ := l
    obtain ⟨kind, value⟩ := t
    rintro ⟨rfl, hkind⟩
    cases hkind with
    | keyword h | identifier h => simp [token?, h]
    | _ => rfl

/-- No token of a text is empty. -/
theorem value_ne_empty_of_mem_tokenize {text : String} {t : Token} (h : t ∈ tokenize text) : t.value ≠ "" := by
  obtain ⟨l, -, hl⟩ := List.mem_filterMap.1 h
  rw [Lexeme.value_of_token? hl]
  simp [Lexeme.chars]

/-- Every text has exactly one cut, and its tokens are those of the lexemes in the cut: the text of each lexeme with
the kind of its class, except for comments and white space. -/
theorem existsUnique_cut (text : String) :
    (∃! ls, Cuts text.toList ls) ∧ ∀ ls, Cuts text.toList ls →
      ls.flatMap Lexeme.chars = text.toList ∧ tokenize text = ls.filterMap Lexeme.token? ∧
        ∀ l ∈ ls, l.chars ≠ [] ∧ (l.token? = none ↔ l.cls = .comment ∨ l.cls = .blank) ∧
          ∀ t, l.token? = some t ↔ t.value = String.ofList l.chars ∧ l.cls.HasKind t.value t.kind := by
  refine ⟨⟨lexemes text.toList, cuts_iff.2 rfl, fun ls h => cuts_iff.1 h⟩, fun ls h => ?_⟩
  obtain rfl := cuts_iff.1 h
  exact ⟨flatMap_chars_lexemes _, rfl, fun l _ => ⟨by simp [Lexeme.chars], Lexeme.token?_eq_none_iff,
    fun t => Lexeme.token?_eq_some_iff⟩⟩

example : tokenize "1./*/ a\n" = [⟨.literal, "1"⟩, ⟨.punctuation, "."⟩] := by decide +kernel

end Semblance

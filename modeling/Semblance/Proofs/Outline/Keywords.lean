import Mathlib.Data.List.Nodup
import Mathlib.Data.List.Zip
import Semblance.Proofs.Lexing.Kinds
import Semblance.Proofs.Outline.Brackets

/-!
# Keywords in outlines

No keyword gets lost on the way into an outline: it has a statement of its own, or it is the label of the block of the
next brace (`showsKeywords_ofTokens`).  Whether it gets a statement is decided by looking ahead, and a block finds its
label by looking back, so the two have to agree: behind a keyword with only punctuation up to the next brace, that
brace finds the keyword exactly if looking ahead finds the brace (`Focus.IsNextBrace.lastKeyword?_eq`).
-/

namespace Semblance

/-! ### Places of a token list -/

variable {tokens before rest between : List Token} {t : Token} {keyword keyword' brace brace' focus : Focus} {i j : Nat}

theorem nodup_focuses (before tokens : List Token) : (focuses before tokens).Nodup := by
  induction tokens generalizing before with
  | nil => exact List.nodup_nil
  | cons t rest ih =>
    refine List.nodup_cons.2 ⟨fun hmem => ?_, ih _⟩
    obtain ⟨done, hbefore, -⟩ := mem_focuses.1 hmem
    simpa using congrArg List.length hbefore

/-- A list is split in one way at the first entry that lacks a property. -/
theorem append_cons_inj_of_forall {α : Type} {p : α → Bool} {l l' r r' : List α} {x x' : α}
    (h : l ++ x :: r = l' ++ x' :: r') (hl : ∀ y ∈ l, p y) (hl' : ∀ y ∈ l', p y) (hx : ¬p x) (hx' : ¬p x') :
    l = l' ∧ x = x' ∧ r = r' := by
  have htake := congrArg (List.takeWhile p) h
  rw [List.takeWhile_append_of_pos hl, List.takeWhile_append_of_pos hl', List.takeWhile_cons_of_neg hx,
    List.takeWhile_cons_of_neg hx', List.append_nil, List.append_nil] at htake
  subst htake
  obtain ⟨rfl, rfl⟩ := List.cons.inj (List.append_cancel_left h)
  exact ⟨rfl, rfl, rfl⟩

/-! ### The next brace -/

namespace Focus

/-- The place of the next brace after a keyword, with nothing but punctuation between them. -/
def IsNextBrace (keyword brace : Focus) : Prop :=
  brace.token = ⟨.punctuation, "\x7b"⟩ ∧ ∃ between : List Token,
    brace.before = keyword.before ++ keyword.token :: between ∧
    keyword.after = between ++ brace.token :: brace.after ∧
    ∀ t ∈ between, t.kind = .punctuation ∧ t.value ≠ "\x7b"

/-- After a keyword, behind the punctuation that opens nothing, comes a brace. -/
def leadsBlock (keyword : Focus) : Bool :=
  (keyword.after.dropWhile fun t => t.kind = .punctuation && !t.isOpening).head? = some ⟨.punctuation, "\x7b"⟩

end Focus

theorem isOpening_iff : t.isOpening ↔ t.kind = .punctuation ∧ (t.value = "\x7b" ∨ t.value = "(" ∨ t.value = "[") := by
  simp only [Token.isOpening, closingDelimiter?, Bool.and_eq_true, decide_eq_true_eq]
  refine and_congr_right fun _ => ?_
  split
  · simp [*]
  · split
    · simp [*]
    · split <;> simp [*]

theorem isOpening_brace : Token.isOpening ⟨.punctuation, "\x7b"⟩ = true := by decide

theorem isOutlined_of_punctuation (h : t.kind = .punctuation) : t.isOutlined = false := by
  simp [Token.isOutlined, h]

theorem kind_of_isOutlined (h : t.isOutlined) : t.kind = .keyword := by
  simp only [Token.isOutlined, Bool.and_eq_true, decide_eq_true_eq] at h
  exact h.1

theorem not_isOpening_of_isOutlined (h : t.isOutlined) : ¬t.isOpening := fun hopening => by
  simp [isOutlined_eq_false (.inl hopening)] at h

/-- Looking ahead finds a brace behind the punctuation that opens nothing, where only punctuation is written as a
brace. -/
theorem opensBlock_eq (hbraces : ∀ t ∈ rest, t.value = "\x7b" → t = ⟨.punctuation, "\x7b"⟩) :
    opensBlock rest =
      decide ((rest.dropWhile fun t => t.kind = .punctuation && !t.isOpening).head? = some ⟨.punctuation, "\x7b"⟩) := by
  induction rest with
  | nil => rfl
  | cons t rest ih =>
    have ih := ih fun t ht => hbraces t (List.mem_cons_of_mem _ ht)
    have hbrace : t = ⟨.punctuation, "\x7b"⟩ ↔ t.value = "\x7b" :=
      ⟨fun h => by rw [h], hbraces t List.mem_cons_self⟩
    by_cases hkind : t.kind = .punctuation
    · by_cases hvalue : t.value = "\x7b"
      · have hopening : t.isOpening := isOpening_iff.2 ⟨hkind, .inl hvalue⟩
        simp [opensBlock, hkind, hvalue, hopening, hbrace]
      · by_cases hopening : t.isOpening
        · have hother := (isOpening_iff.1 hopening).2.resolve_left hvalue
          simp [opensBlock, hkind, hvalue, hopening, hother, hbrace]
        · have hother : ¬(t.value = "(" ∨ t.value = "[") := fun h => hopening (isOpening_iff.2 ⟨hkind, .inr h⟩)
          simp [opensBlock, hkind, hvalue, hopening, hother, ih]
    · simp [opensBlock, hkind, hbrace]

/-- Looking back over punctuation, the last keyword is hidden by an opening delimiter. -/
theorem lastKeyword?_append (h : ∀ t ∈ between, t.kind = .punctuation) (before : List Token) :
    lastKeyword? (before ++ between) = if between.any Token.isOpening then none else lastKeyword? before := by
  induction between generalizing before with
  | nil => simp
  | cons t rest ih =>
    have houtlined := isOutlined_of_punctuation (h t List.mem_cons_self)
    rw [List.append_cons, ih fun t ht => h t (List.mem_cons_of_mem _ ht), List.any_cons]
    by_cases hopening : t.isOpening
    · simp [lastKeyword?_concat_of_isOpening hopening, hopening]
    · simp [lastKeyword?_concat hopening, houtlined, hopening]

/-- Looking ahead over punctuation, the next brace is hidden by another opening delimiter. -/
theorem head?_dropWhile_append (h : ∀ t ∈ between, t.kind = .punctuation ∧ t.value ≠ "\x7b") (after : List Token) :
    ((between ++ ⟨.punctuation, "\x7b"⟩ :: after).dropWhile fun t => t.kind = .punctuation && !t.isOpening).head? =
      some ⟨.punctuation, "\x7b"⟩ ↔ between.any Token.isOpening = false := by
  induction between with
  | nil => simp [Token.isOpening, closingDelimiter?]
  | cons t rest ih =>
    obtain ⟨hkind, hvalue⟩ := h t List.mem_cons_self
    by_cases hopening : t.isOpening
    · have hne : t ≠ ⟨.punctuation, "\x7b"⟩ := fun heq => hvalue (by rw [heq])
      simp [hopening, hne]
    · simp [hkind, hopening, ih fun t ht => h t (List.mem_cons_of_mem _ ht)]

namespace Focus

/-- The next brace finds the keyword when it looks back exactly if it is found from the keyword when that looks ahead. -/
theorem IsNextBrace.lastKeyword?_eq (h : keyword.IsNextBrace brace) (hkeyword : keyword.token.isOutlined) :
    lastKeyword? brace.before = if keyword.leadsBlock then some keyword.token.value else none := by
  obtain ⟨hbrace, between, hbefore, hafter, hbetween⟩ := h
  have hleads : keyword.leadsBlock ↔ between.any Token.isOpening = false := by
    rw [leadsBlock, decide_eq_true_eq, hafter, hbrace, head?_dropWhile_append hbetween]
  rw [hbefore, List.append_cons, lastKeyword?_append fun t ht => (hbetween t ht).1,
    lastKeyword?_concat (not_isOpening_of_isOutlined hkeyword), if_pos hkeyword]
  cases hany : between.any Token.isOpening <;> simp [hleads, hany]

theorem exists_isNextBrace (h : keyword.leadsBlock) : ∃ brace, keyword.IsNextBrace brace := by
  obtain ⟨after, hafter⟩ := List.head?_eq_some_iff.1 (of_decide_eq_true h)
  refine ⟨⟨keyword.before ++ keyword.token ::
    keyword.after.takeWhile fun t => t.kind = .punctuation && !t.isOpening, ⟨.punctuation, "\x7b"⟩, after⟩, rfl, _, rfl,
    ?_, fun t ht => ?_⟩
  · rw [← hafter, List.takeWhile_append_dropWhile]
  · have hpunctuation := List.mem_takeWhile_imp ht
    simp only [Bool.and_eq_true, decide_eq_true_eq, Bool.not_eq_true'] at hpunctuation
    obtain ⟨hkind, hopening⟩ := hpunctuation
    refine ⟨hkind, fun hvalue => ?_⟩
    rw [isOpening_iff.2 ⟨hkind, .inl hvalue⟩] at hopening
    contradiction

theorem IsNextBrace.brace_unique (h : keyword.IsNextBrace brace) (h' : keyword.IsNextBrace brace') : brace = brace' := by
  obtain ⟨_, token, after⟩ := brace
  obtain ⟨_, token', after'⟩ := brace'
  obtain ⟨rfl, between, rfl, hafter, hbetween⟩ := h
  obtain ⟨rfl, between', rfl, hafter', hbetween'⟩ := h'
  obtain ⟨rfl, -, rfl⟩ := append_cons_inj_of_forall (p := fun t => t.value ≠ "\x7b") (hafter.symm.trans hafter')
    (fun t ht => by simpa using (hbetween t ht).2) (fun t ht => by simpa using (hbetween' t ht).2) (by simp) (by simp)
  rfl

theorem IsNextBrace.keyword_unique (h : keyword.IsNextBrace brace) (h' : keyword'.IsNextBrace brace)
    (hkind : keyword.token.kind = .keyword) (hkind' : keyword'.token.kind = .keyword) : keyword = keyword' := by
  obtain ⟨before, token, _⟩ := keyword
  obtain ⟨before', token', _⟩ := keyword'
  obtain ⟨-, between, hbefore, rfl, hbetween⟩ := h
  obtain ⟨-, between', hbefore', rfl, hbetween'⟩ := h'
  dsimp only at hkind hkind' hbefore hbefore'
  -- read backwards, the keyword is the first token that is no punctuation
  have hreverse : between.reverse ++ token :: before.reverse = between'.reverse ++ token' :: before'.reverse := by
    simpa using congrArg List.reverse (hbefore.symm.trans hbefore')
  obtain ⟨hbetween_eq, rfl, hbefore_eq⟩ := append_cons_inj_of_forall (p := fun t => t.kind = .punctuation) hreverse
    (fun t ht => by simpa using (hbetween t (List.mem_reverse.1 ht)).1)
    (fun t ht => by simpa using (hbetween' t (List.mem_reverse.1 ht)).1) (by simp [hkind]) (by simp [hkind'])
  obtain rfl := List.reverse_injective hbetween_eq
  obtain rfl := List.reverse_injective hbefore_eq
  rfl

end Focus

/-! ### Sources of nodes -/

theorem mem_nodeSources : focus ∈ nodeSources [] tokens ↔
    tokens = focus.before ++ focus.token :: focus.after ∧ focus.startsNode := by
  rw [nodeSources, List.mem_filter, mem_focuses_nil]

theorem nodup_nodeSources (tokens : List Token) : (nodeSources [] tokens).Nodup :=
  (nodup_focuses [] tokens).filter _

/-- Opening delimiters and keywords that open no block start a node each. -/
theorem length_nodeSources (before tokens : List Token) : (nodeSources before tokens).length =
    tokens.countP Token.isOpening +
      (focuses before tokens).countP fun focus => focus.token.isOutlined && !opensBlock focus.after := by
  induction tokens generalizing before with
  | nil => rfl
  | cons t rest ih =>
    rw [nodeSources_cons, focuses, List.countP_cons, List.countP_cons]
    by_cases hopening : t.isOpening
    · simp only [hopening, isOutlined_eq_false (.inl hopening), Bool.true_or, if_true, Bool.false_and,
        Bool.false_eq_true, if_false, List.length_cons, ih]
      omega
    · simp only [hopening, Bool.false_or, Bool.false_eq_true, if_false]
      split
      · rw [List.length_cons, ih]
        omega
      · rw [ih]
        omega

theorem exists_mem_zipIdx (h : focus ∈ nodeSources [] tokens) : ∃ i, (focus, i) ∈ (nodeSources [] tokens).zipIdx 1 := by
  rw [← List.zipIdx_map_fst 1 (nodeSources [] tokens)] at h
  obtain ⟨⟨_, i⟩, hmem, rfl⟩ := List.mem_map.1 h
  exact ⟨i, hmem⟩

theorem mem_nodeSources_of_mem_zipIdx (h : (focus, i) ∈ (nodeSources [] tokens).zipIdx 1) :
    focus ∈ nodeSources [] tokens :=
  List.fst_mem_of_mem_zipIdx h

theorem place_unique (h : (focus, i) ∈ (nodeSources [] tokens).zipIdx 1)
    (h' : (focus, j) ∈ (nodeSources [] tokens).zipIdx 1) : i = j := by
  obtain ⟨hi, hfocus⟩ := List.mk_mem_zipIdx_iff_le_and_getElem?_sub.1 h
  obtain ⟨hj, hfocus'⟩ := List.mk_mem_zipIdx_iff_le_and_getElem?_sub.1 h'
  have hlt := (List.getElem?_eq_some_iff.1 hfocus).1
  have := (List.getElem?_inj hlt (nodup_nodeSources tokens)).1 (hfocus.trans hfocus'.symm)
  omega

theorem source_unique (h : (brace, i) ∈ (nodeSources [] tokens).zipIdx 1)
    (h' : (brace', i) ∈ (nodeSources [] tokens).zipIdx 1) : brace = brace' := by
  have hsource := (List.mk_mem_zipIdx_iff_le_and_getElem?_sub.1 h).2
  have hsource' := (List.mk_mem_zipIdx_iff_le_and_getElem?_sub.1 h').2
  exact Option.some.inj (hsource.symm.trans hsource')

namespace Outline

theorem grows_ofTokens (tokens : List Token) : ({} : Outline).Grows (ofTokens tokens) (nodeSources [] tokens) :=
  grows_addTokens tokens ⟨Nat.one_pos, .root, rfl, rfl⟩

theorem length_ofTokens (tokens : List Token) : (ofTokens tokens).length = (nodeSources [] tokens).length := by
  rw [Outline.length, (grows_ofTokens tokens).size_eq]
  exact Nat.add_sub_cancel_left ..

theorem exists_node_of_mem_zipIdx (h : (focus, i) ∈ (nodeSources [] tokens).zipIdx 1) :
    ∃ node, (ofTokens tokens).nodes[i]? = some node ∧ focus.Gives node := by
  have hzip : (i, focus) ∈ (List.range' 1 (nodeSources [] tokens).length).zip (nodeSources [] tokens) := by
    rw [List.zipIdx_eq_zip_range'] at h
    rw [← List.zip_swap]
    exact List.mem_map_of_mem h
  obtain ⟨node, hnode, hgives, -⟩ := (List.forall₂_iff_zip.1 (grows_ofTokens tokens).comesFrom).2 hzip
  exact ⟨node, hnode, hgives⟩

/-! ### Keywords -/

/-- The node at `i` is the statement that a keyword starts. -/
def IsStatementOf (o : Outline) (tokens : List Token) (i : Nat) (keyword : Focus) : Prop :=
  (keyword, i) ∈ (nodeSources [] tokens).zipIdx 1 ∧
    ∃ node, o.nodes[i]? = some node ∧ node.kind = .statement ∧ node.label = some keyword.token.value

/-- The node at `i` is the block that the next brace after a keyword starts, with the keyword as its label. -/
def IsBlockOf (o : Outline) (tokens : List Token) (i : Nat) (keyword : Focus) : Prop :=
  ∃ brace : Focus, keyword.IsNextBrace brace ∧ (brace, i) ∈ (nodeSources [] tokens).zipIdx 1 ∧
    ∃ node, o.nodes[i]? = some node ∧ node.kind = .block ∧ node.delimiter = some "\x7b" ∧
      node.label = some keyword.token.value

/-- The node at `i` stands for a keyword. -/
def Shows (o : Outline) (tokens : List Token) (i : Nat) (keyword : Focus) : Prop :=
  o.IsStatementOf tokens i keyword ∨ o.IsBlockOf tokens i keyword

/-- No keyword gets lost: each has one node that stands for it, different keywords have different ones, and there are as
many nodes as opening delimiters and keywords without a block. -/
structure ShowsKeywords (o : Outline) (tokens : List Token) : Prop where
  shown : ∀ keyword ∈ focuses [] tokens, keyword.token.isOutlined → ∃! i, o.Shows tokens i keyword
  distinct : ∀ keyword ∈ focuses [] tokens, ∀ keyword' ∈ focuses [] tokens, keyword.token.isOutlined →
    keyword'.token.isOutlined → ∀ i, o.Shows tokens i keyword → o.Shows tokens i keyword' → keyword = keyword'
  length_eq : o.length = tokens.countP Token.isOpening +
    (focuses [] tokens).countP fun focus => focus.token.isOutlined && !focus.leadsBlock

/-- A keyword that starts a node is its statement. -/
theorem isStatementOf_iff (h : keyword.token.isOutlined) :
    (ofTokens tokens).IsStatementOf tokens i keyword ↔ (keyword, i) ∈ (nodeSources [] tokens).zipIdx 1 := by
  refine ⟨And.left, fun hmem => ⟨hmem, ?_⟩⟩
  obtain ⟨node, hnode, hgives⟩ := exists_node_of_mem_zipIdx hmem
  rw [Focus.Gives, if_neg (not_isOpening_of_isOutlined h)] at hgives
  exact ⟨node, hnode, hgives.1, hgives.2.1⟩

/-- A block has the keyword before it as its label exactly if the keyword finds the block when it looks ahead. -/
theorem isBlockOf_iff (h : keyword.token.isOutlined) : (ofTokens tokens).IsBlockOf tokens i keyword ↔
    keyword.leadsBlock ∧ ∃ brace : Focus, keyword.IsNextBrace brace ∧ (brace, i) ∈ (nodeSources [] tokens).zipIdx 1 := by
  have hnode {brace : Focus} (hbrace : keyword.IsNextBrace brace) (hmem : (brace, i) ∈ (nodeSources [] tokens).zipIdx 1) :
      ∃ node, (ofTokens tokens).nodes[i]? = some node ∧ node.kind = .block ∧ node.delimiter = some "\x7b" ∧
        node.label = some (if keyword.leadsBlock then keyword.token.value else "block") := by
    obtain ⟨node, hnode, hgives⟩ := exists_node_of_mem_zipIdx hmem
    rw [Focus.Gives, hbrace.1, if_pos isOpening_brace, hbrace.lastKeyword?_eq h] at hgives
    refine ⟨node, hnode, hgives.1, hgives.2.2, hgives.2.1.trans ?_⟩
    split <;> rfl
  constructor
  · rintro ⟨brace, hbrace, hmem, node, hi, -, -, hlabel⟩
    refine ⟨?_, brace, hbrace, hmem⟩
    obtain ⟨node', hi', -, -, hlabel'⟩ := hnode hbrace hmem
    obtain rfl := Option.some.inj (hi.symm.trans hi')
    -- without looking ahead to it, the block would have the label of a block without a keyword
    by_contra hleads
    rw [if_neg hleads, hlabel] at hlabel'
    have hmem := mem_outlineKeywords h
    rw [Option.some.inj hlabel'] at hmem
    exact absurd hmem (by decide)
  · rintro ⟨hleads, brace, hbrace, hmem⟩
    obtain ⟨node, hi, hkind, hdelimiter, hlabel⟩ := hnode hbrace hmem
    rw [if_pos hleads] at hlabel
    exact ⟨brace, hbrace, hmem, node, hi, hkind, hdelimiter, hlabel⟩

theorem mem_nodeSources_of_isNextBrace (h : keyword ∈ focuses [] tokens) (hbrace : keyword.IsNextBrace brace) :
    brace ∈ nodeSources [] tokens := by
  obtain ⟨htoken, between, hbefore, hafter, -⟩ := hbrace
  refine mem_nodeSources.2 ⟨?_, by simp [Focus.startsNode, htoken, isOpening_brace]⟩
  rw [mem_focuses_nil.1 h, hafter, hbefore]
  simp

/-- Where only punctuation is written as a brace, a keyword starts a node exactly if it leads no block. -/
theorem mem_nodeSources_iff (hbraces : ∀ t ∈ tokens, t.value = "\x7b" → t = ⟨.punctuation, "\x7b"⟩)
    (h : keyword ∈ focuses [] tokens) (hkeyword : keyword.token.isOutlined) :
    keyword ∈ nodeSources [] tokens ↔ keyword.leadsBlock = false := by
  have htokens := mem_focuses_nil.1 h
  have hahead : opensBlock keyword.after = keyword.leadsBlock :=
    opensBlock_eq fun t ht => hbraces t (by simp [htokens, ht])
  have hopening := not_isOpening_of_isOutlined hkeyword
  simp [mem_nodeSources, ← htokens, Focus.startsNode, hopening, hkeyword, hahead]

theorem existsUnique_shows (hbraces : ∀ t ∈ tokens, t.value = "\x7b" → t = ⟨.punctuation, "\x7b"⟩)
    (h : keyword ∈ focuses [] tokens) (hkeyword : keyword.token.isOutlined) :
    ∃! i, (ofTokens tokens).Shows tokens i keyword := by
  simp only [Shows, isStatementOf_iff hkeyword, isBlockOf_iff hkeyword]
  have hsource := mem_nodeSources_iff hbraces h hkeyword
  cases hleads : keyword.leadsBlock
  case false =>
    obtain ⟨i, hi⟩ := exists_mem_zipIdx (hsource.2 hleads)
    refine ⟨i, .inl hi, fun j hj => ?_⟩
    rcases hj with hj | ⟨hblock, -⟩
    · exact place_unique hj hi
    · exact absurd hblock (by decide)
  case true =>
    obtain ⟨brace, hbrace⟩ := Focus.exists_isNextBrace hleads
    obtain ⟨i, hi⟩ := exists_mem_zipIdx (mem_nodeSources_of_isNextBrace h hbrace)
    refine ⟨i, .inr ⟨rfl, brace, hbrace, hi⟩, fun j hj => ?_⟩
    rcases hj with hj | ⟨-, brace', hbrace', hj⟩
    · have := hsource.1 (mem_nodeSources_of_mem_zipIdx hj)
      rw [hleads] at this
      contradiction
    · obtain rfl := hbrace.brace_unique hbrace'
      exact place_unique hj hi

/-- A node stands for one keyword. -/
theorem Shows.keyword_unique (h : (ofTokens tokens).Shows tokens i keyword)
    (h' : (ofTokens tokens).Shows tokens i keyword') (hkeyword : keyword.token.isOutlined)
    (hkeyword' : keyword'.token.isOutlined) : keyword = keyword' := by
  have hkind := kind_of_isOutlined hkeyword
  have hkind' := kind_of_isOutlined hkeyword'
  -- the token that starts the node is a keyword or a brace
  rcases h with ⟨hi, -⟩ | ⟨brace, hbrace, hi, -⟩ <;> rcases h' with ⟨hi', -⟩ | ⟨brace', hbrace', hi', -⟩
  · exact source_unique hi hi'
  · obtain rfl := source_unique hi hi'
    rw [hbrace'.1] at hkind
    contradiction
  · obtain rfl := source_unique hi hi'
    rw [hbrace.1] at hkind'
    contradiction
  · obtain rfl := source_unique hi hi'
    exact hbrace.keyword_unique hbrace' hkind hkind'

/-- The outline of a text shows all keywords. -/
theorem showsKeywords_ofTokens (text : String) : (ofTokens (tokenize text)).ShowsKeywords (tokenize text) where
  shown _ h hkeyword := existsUnique_shows (fun _ => eq_brace_of_mem_tokenize) h hkeyword
  distinct _ _ _ _ hkeyword hkeyword' _ h h' := h.keyword_unique h' hkeyword hkeyword'
  length_eq := by
    rw [length_ofTokens, length_nodeSources]
    congr 1
    refine List.countP_congr fun focus hfocus => ?_
    have hmem {t : Token} (ht : t ∈ focus.after) : t ∈ tokenize text := by
      rw [mem_focuses_nil.1 hfocus]
      simp [ht]
    have hahead : opensBlock focus.after = focus.leadsBlock :=
      opensBlock_eq fun _ ht => eq_brace_of_mem_tokenize (hmem ht)
    rw [hahead]

end Outline

end Semblance

import Mathlib.Data.List.Forall2
import Semblance.Proofs.Outline.Forest

/-!
# Outlines mirror brackets

Where the nodes of an outline come from.  A `Focus` is a place in a token list; the opening delimiters and the keywords
that open no block start a node (`nodeSources`), and the nodes after the root are those of the sources, one each and in
their order.  A node lies as deep as there are open brackets before its token (`bracketDepth`), and a block has the last
keyword since the opening delimiter before it as its label (`lastKeyword?`).

The invariant of the run is `Stands`: inside the block that is open, the places of the blocks around it are the way up
to the root, as many as there are open brackets.  One lemma for each kind of token keeps it, and `grows_addTokens`
follows the whole run.
-/

namespace Semblance

/-! ### What the tokens say -/

/-- A place in a token list. -/
structure Focus where
  before : List Token
  token : Token
  after : List Token

/-- The number of open brackets after some tokens.  A closing delimiter of any shape closes one, if there is one. -/
def bracketDepth (tokens : List Token) : Nat :=
  tokens.foldl (fun depth t => if t.isOpening then depth + 1 else if t.isClosing then depth - 1 else depth) 0

/-- The last keyword after the last opening delimiter. -/
def lastKeyword? (tokens : List Token) : Option String :=
  ((tokens.reverse.takeWhile fun t => !t.isOpening).find? Token.isOutlined).map Token.value

namespace Focus

/-- An opening delimiter starts a block, a keyword that opens no block starts a statement. -/
def startsNode (focus : Focus) : Bool :=
  focus.token.isOpening || (focus.token.isOutlined && !opensBlock focus.after)

/-- The node is the one that the token starts, wherever it lies. -/
def Gives (focus : Focus) (node : OutlineNode) : Prop :=
  if focus.token.isOpening then
    node.kind = .block ∧ node.label = some ((lastKeyword? focus.before).getD "block") ∧
      node.delimiter = some focus.token.value
  else node.kind = .statement ∧ node.label = some focus.token.value ∧ node.delimiter = none

end Focus

/-- The places of a token list that follows the tokens `before`. -/
def focuses (before : List Token) : List Token → List Focus
  | [] => []
  | t :: rest => ⟨before, t, rest⟩ :: focuses (before ++ [t]) rest

theorem mem_focuses {focus : Focus} {before tokens : List Token} : focus ∈ focuses before tokens ↔
    ∃ done, focus.before = before ++ done ∧ tokens = done ++ focus.token :: focus.after := by
  induction tokens generalizing before with
  | nil => simp [focuses]
  | cons t rest ih =>
    rw [focuses, List.mem_cons, ih]
    constructor
    · rintro (rfl | ⟨done, hbefore, hrest⟩)
      · exact ⟨[], by simp, rfl⟩
      · exact ⟨t :: done, by simp [hbefore], by simp [hrest]⟩
    · rintro ⟨done, hbefore, htokens⟩
      cases done with
      | nil =>
        obtain ⟨rfl, rfl⟩ := List.cons.inj htokens
        rw [List.append_nil] at hbefore
        subst hbefore
        exact .inl rfl
      | cons u done =>
        obtain ⟨rfl, rfl⟩ := List.cons.inj htokens
        exact .inr ⟨done, by simp [hbefore], rfl⟩

theorem mem_focuses_nil {focus : Focus} {tokens : List Token} :
    focus ∈ focuses [] tokens ↔ tokens = focus.before ++ focus.token :: focus.after := by
  simp [mem_focuses]

/-- The places of a token list where a node starts. -/
def nodeSources (before tokens : List Token) : List Focus :=
  (focuses before tokens).filter Focus.startsNode

variable {t : Token} {before rest : List Token}

theorem isOutlined_eq_false (h : t.isOpening ∨ t.isClosing) : t.isOutlined = false := by
  simp only [Token.isOpening, Token.isClosing, Bool.and_eq_true, decide_eq_true_eq, ← and_or_left] at h
  simp [Token.isOutlined, h.1]

theorem bracketDepth_concat (before : List Token) (t : Token) : bracketDepth (before ++ [t]) =
    if t.isOpening then bracketDepth before + 1
    else if t.isClosing then bracketDepth before - 1 else bracketDepth before := by
  rw [bracketDepth, List.foldl_append, List.foldl_cons, List.foldl_nil, bracketDepth]

theorem lastKeyword?_concat_of_isOpening (h : t.isOpening) : lastKeyword? (before ++ [t]) = none := by
  simp [lastKeyword?, h]

theorem lastKeyword?_concat (h : ¬t.isOpening) :
    lastKeyword? (before ++ [t]) = if t.isOutlined then some t.value else lastKeyword? before := by
  have h : t.isOpening = false := by simpa using h
  cases houtlined : t.isOutlined <;> simp [lastKeyword?, h, houtlined]

theorem nodeSources_cons (before : List Token) (t : Token) (rest : List Token) : nodeSources before (t :: rest) =
    if t.isOpening || (t.isOutlined && !opensBlock rest) then ⟨before, t, rest⟩ :: nodeSources (before ++ [t]) rest
    else nodeSources (before ++ [t]) rest :=
  List.filter_cons

namespace Outline

variable {o o' : Outline} {current i : Nat} {outer : List Nat} {label : Option String}

/-! ### One token -/

/-- The node at a place is the one that a token starts, in as many blocks as are open before the token. -/
def ComesFrom (o : Outline) (i : Nat) (focus : Focus) : Prop :=
  ∃ node, o.nodes[i]? = some node ∧ focus.Gives node ∧
    ∃ outer, o.Ancestors i outer ∧ outer.length = bracketDepth focus.before + 1

theorem ComesFrom.of_extends {focus : Focus} (h : o.ComesFrom i focus) (he : o.Extends o') :
    o'.ComesFrom i focus := by
  obtain ⟨node, hi, hgives, outer, houter, hlength⟩ := h
  obtain ⟨children, hi'⟩ := he i node hi
  exact ⟨{ node with children }, hi', hgives, outer, houter.of_extends he, hlength⟩

/-- After the tokens `before`, inside the block `current` with the blocks `outer` around it and `label` to be given. -/
structure Stands (o : Outline) (before : List Token) (current : Nat) (outer : List Nat) (label : Option String) :
    Prop where
  size_pos : 0 < o.nodes.size
  ancestors : o.Ancestors current outer
  length : outer.length = bracketDepth before
  label : label = lastKeyword? before

theorem Stands.ancestors_add {node : OutlineNode} (h : o.Stands before current outer label)
    (hparent : node.parent = some (current : Int)) :
    (o.add node).2.Ancestors o.nodes.size (current :: outer) :=
  have hcurrent := h.ancestors.lt_size h.size_pos
  .step (getElem?_nodes_add_size hcurrent hparent) hparent (h.ancestors.of_extends (extends_add hcurrent hparent))

theorem Stands.comesFrom_add {node : OutlineNode} (h : o.Stands before current outer label)
    (hparent : node.parent = some (current : Int)) (hgives : (Focus.mk before t rest).Gives node) :
    (o.add node).2.ComesFrom o.nodes.size ⟨before, t, rest⟩ :=
  ⟨node, getElem?_nodes_add_size (h.ancestors.lt_size h.size_pos) hparent, hgives, _, h.ancestors_add hparent,
    congrArg (· + 1) h.length⟩

theorem Stands.block {node : OutlineNode} (h : o.Stands before current outer label) (ht : t.isOpening)
    (hparent : node.parent = some (current : Int)) :
    (o.add node).2.Stands (before ++ [t]) o.nodes.size (current :: outer) none where
  size_pos := by rw [size_nodes_add]; omega
  ancestors := h.ancestors_add hparent
  length := by rw [bracketDepth_concat, if_pos ht, List.length_cons, h.length]
  label := (lastKeyword?_concat_of_isOpening ht).symm

theorem Stands.close {next : Nat} {others : List Nat} (h : o.Stands before current (next :: others) label)
    (ht : ¬t.isOpening) (ht' : t.isClosing) :
    o.Stands (before ++ [t]) next others (if t.isOutlined then some t.value else label) where
  size_pos := h.size_pos
  ancestors := by
    cases h.ancestors with
    | step _ _ houter => exact houter
  length := by
    rw [bracketDepth_concat, if_neg ht, if_pos ht', ← h.length, List.length_cons, Nat.add_sub_cancel]
  label := by rw [lastKeyword?_concat ht, h.label]

/-- A token that neither opens nor closes a block, and a closing delimiter outside of all blocks. -/
theorem Stands.stay (h : o.Stands before current outer label) (ht : ¬t.isOpening) (ht' : t.isClosing → outer = []) :
    o.Stands (before ++ [t]) current outer (if t.isOutlined then some t.value else label) where
  size_pos := h.size_pos
  ancestors := h.ancestors
  length := by
    rw [bracketDepth_concat, if_neg ht, ← h.length]
    split
    · rename_i hclosing
      rw [ht' hclosing, List.length_nil]
    · rfl
  label := by rw [lastKeyword?_concat ht, h.label]

theorem Stands.of_extends (h : o.Stands before current outer label) (he : o.Extends o')
    (hsize : o.nodes.size ≤ o'.nodes.size) : o'.Stands before current outer label where
  size_pos := Nat.lt_of_lt_of_le h.size_pos hsize
  ancestors := h.ancestors.of_extends he
  length := h.length
  label := h.label

/-! ### The whole run -/

/-- Adding tokens keeps the nodes that are there and adds the nodes of the tokens. -/
structure Grows (o o' : Outline) (sources : List Focus) : Prop where
  keeps : o.Extends o'
  size_eq : o'.nodes.size = o.nodes.size + sources.length
  comesFrom : List.Forall₂ o'.ComesFrom (List.range' o.nodes.size sources.length) sources

theorem Grows.nil (o : Outline) : o.Grows o [] :=
  ⟨.refl o, rfl, .nil⟩

theorem Grows.cons {node : OutlineNode} {focus : Focus} {sources : List Focus} (hextends : o.Extends (o.add node).2)
    (hfocus : (o.add node).2.ComesFrom o.nodes.size focus) (h : (o.add node).2.Grows o' sources) :
    o.Grows o' (focus :: sources) where
  keeps := hextends.trans h.keeps
  size_eq := by rw [h.size_eq, size_nodes_add, List.length_cons]; omega
  comesFrom := by
    rw [List.length_cons, List.range'_succ]
    refine .cons (hfocus.of_extends h.keeps) ?_
    have hrest := h.comesFrom
    rwa [size_nodes_add] at hrest

theorem grows_addTokens (tokens : List Token) (h : o.Stands before current outer label) :
    o.Grows (addTokens o current outer label tokens) (nodeSources before tokens) := by
  induction tokens generalizing o before current outer label with
  | nil => exact .nil o
  | cons t rest ih =>
    -- one case for each branch of `addTokens`, with the lemma on `Stands` for its kind of token
    have hcurrent := h.ancestors.lt_size h.size_pos
    rw [nodeSources_cons]
    simp only [addTokens]
    by_cases hopening : t.isOpening
    · simp only [hopening, isOutlined_eq_false (.inl hopening), if_true, Bool.true_or, if_neg (Bool.false_ne_true)]
      refine .cons (extends_add hcurrent rfl) (h.comesFrom_add rfl ?_) (ih (h.block hopening rfl))
      rw [Focus.Gives, if_pos hopening, h.label]
      exact ⟨rfl, rfl, rfl⟩
    · simp only [hopening, if_false, Bool.false_or, Bool.false_eq_true]
      by_cases hclosing : t.isClosing
      · have houtlined := isOutlined_eq_false (.inr hclosing)
        simp only [hclosing, houtlined, if_true, Bool.false_and, Bool.false_eq_true, if_false]
        cases outer with
        | nil => simpa [houtlined] using ih (h.stay hopening fun _ => rfl)
        | cons next others => simpa [houtlined] using ih (h.close hopening hclosing)
      · have hstay := h.stay hopening fun hclosing' => absurd hclosing' hclosing
        simp only [hclosing, if_false, Bool.false_eq_true]
        split
        · have hextends : o.Extends (o.add (.statement t.value current)).2 := extends_add hcurrent rfl
          refine .cons hextends (h.comesFrom_add rfl ?_) (ih (hstay.of_extends hextends ?_))
          · rw [Focus.Gives, if_neg hopening]
            exact ⟨rfl, rfl, rfl⟩
          · rw [size_nodes_add]
            omega
        · exact ih hstay

/-! ### Outlines -/

/-- The nodes of an outline after the root, and the places where they start. -/
theorem comesFrom_ofTokens (tokens : List Token) : List.Forall₂ (ofTokens tokens).ComesFrom
    (List.range' 1 (ofTokens tokens).length) (nodeSources [] tokens) := by
  have hgrows : ({} : Outline).Grows (ofTokens tokens) (nodeSources [] tokens) :=
    grows_addTokens tokens ⟨Nat.one_pos, .root, rfl, rfl⟩
  have hlength : (ofTokens tokens).length = (nodeSources [] tokens).length := by
    rw [Outline.length, hgrows.size_eq]
    exact Nat.add_sub_cancel_left ..
  rw [hlength]
  exact hgrows.comesFrom

/-- The outline mirrors the brackets of the tokens.  It is a tree in preorder whose first node is the root; the other
nodes are those of the places where nodes start, and statements have nothing below them. -/
structure Mirrors (o : Outline) (tokens : List Token) : Prop where
  wellFormed : o.WellFormed
  ancestors : ∀ i < o.nodes.size, ∃! outer, o.Ancestors i outer
  preorder : o.Visits [0] (List.range o.nodes.size)
  leaf : ∀ node ∈ o.nodes, node.kind = .statement → node.children = #[]
  comesFrom : List.Forall₂ o.ComesFrom (List.range' 1 o.length) (nodeSources [] tokens)

theorem mirrors_ofTokens (tokens : List Token) : (ofTokens tokens).Mirrors tokens := by
  obtain ⟨f, hf⟩ := exists_ofTokens_eq tokens
  have hwell : (ofTokens tokens).WellFormed := hf ▸ wellFormed_ofForest f
  constructor
  case wellFormed => exact hwell
  case ancestors => exact fun i hi => hwell.existsUnique_ancestors hi
  case preorder => exact hf ▸ visits_ofForest f
  case leaf => exact fun node hnode hkind => children_eq_of_statement (hf ▸ hnode) hkind
  case comesFrom => exact comesFrom_ofTokens tokens

end Outline

end Semblance

import Semblance.Proofs.Outline.Arena

/-!
# Forests of blocks

The nested blocks of a program, without an arena: a `Forest` is a row of statements and blocks, each block with the
forest inside it.  `Outline.addForest` adds a forest to an arena block by block, and afterwards the arena holds it
(`holds_addForest`): the places of the forest follow each other in preorder, each node lists exactly its own children.
Every outline of a token list is that of a forest (`exists_ofTokens_eq`), so what outlines of forests have, it has.
-/

namespace Semblance

/-- A label in an outline: a keyword that it shows, or what stands for a missing one. -/
def Label : Type :=
  { label : String // label ∈ "block" :: outlineKeywords }

/-- What stands for a missing keyword. -/
def Label.block : Label :=
  ⟨"block", List.mem_cons_self⟩

/-- An opening delimiter. -/
def Delimiter : Type :=
  { delimiter : String // (closingDelimiter? delimiter).isSome }

/-- A row of statements and blocks. -/
inductive Forest where
  | nil
  | statement (label : Label) (rest : Forest)
  | block (label : Label) (delimiter : Delimiter) (inner rest : Forest)

namespace Forest

/-- The number of statements and blocks at all levels. -/
def size : Forest → Nat
  | nil => 0
  | statement _ rest => rest.size + 1
  | block _ _ inner rest => inner.size + rest.size + 1

/-- The places of the outermost statements and blocks in an arena that holds a forest from the place `start` on. -/
def roots (start : Nat) : Forest → List Nat
  | nil => []
  | statement _ rest => start :: roots (start + 1) rest
  | block _ _ inner rest => start :: roots (start + 1 + inner.size) rest

def append : Forest → Forest → Forest
  | nil, g => g
  | statement label rest, g => statement label (append rest g)
  | block label delimiter inner rest, g => block label delimiter inner (append rest g)

end Forest

def OutlineNode.statement (label : String) (parent : Nat) : OutlineNode :=
  { kind := .statement, label := some label, parent := some (parent : Int) }

def OutlineNode.block (label delimiter : String) (parent : Nat) : OutlineNode :=
  { kind := .block, label := some label, delimiter := some delimiter, parent := some (parent : Int) }

namespace Outline

variable {o : Outline} {current i : Nat}

/-- Adds a forest below the node at `current`. -/
def addForest (o : Outline) (current : Nat) : Forest → Outline
  | .nil => o
  | .statement label rest => addForest (o.add (.statement label.1 current)).2 current rest
  | .block label delimiter inner rest =>
    addForest (addForest (o.add (.block label.1 delimiter.1 current)).2 o.nodes.size inner) current rest

/-- The arena holds a forest from the place `start` on, below the node at `parent`. -/
def Holds (o : Outline) (parent start : Nat) : Forest → Prop
  | .nil => True
  | .statement label rest =>
    o.nodes[start]? = some (.statement label.1 parent) ∧ Holds o parent (start + 1) rest
  | .block label delimiter inner rest =>
    o.nodes[start]? =
        some { OutlineNode.block label.1 delimiter.1 parent with children := (inner.roots (start + 1)).toArray } ∧
      Holds o start (start + 1) inner ∧ Holds o parent (start + 1 + inner.size) rest

/-! ### Adding a forest -/

theorem size_nodes_addForest (o : Outline) (current : Nat) (f : Forest) :
    (o.addForest current f).nodes.size = o.nodes.size + f.size := by
  induction f generalizing o current with
  | nil => rfl
  | statement label rest ih =>
    rw [addForest, ih, size_nodes_add, Forest.size]
    omega
  | block label delimiter inner rest ihinner ihrest =>
    rw [addForest, ihrest, ihinner, size_nodes_add, Forest.size]
    omega

/-- Only the node that gets the forest changes. -/
theorem getElem?_addForest_of_ne (f : Forest) (hcurrent : current < o.nodes.size) (hi : i < o.nodes.size)
    (hne : i ≠ current) : (o.addForest current f).nodes[i]? = o.nodes[i]? := by
  induction f generalizing o current with
  | nil => rfl
  | statement label rest ih =>
    have hsize := size_nodes_add o (.statement label.1 current)
    rw [addForest, ih (by omega) (by omega) hne, getElem?_nodes_add_of_ne hcurrent rfl hi hne]
  | block label delimiter inner rest ihinner ihrest =>
    have hsize := size_nodes_add o (.block label.1 delimiter.1 current)
    have hsize' := size_nodes_addForest (o.add (.block label.1 delimiter.1 current)).2 o.nodes.size inner
    rw [addForest, ihrest (by omega) (by omega) hne, ihinner (by omega) (by omega) (by omega),
      getElem?_nodes_add_of_ne hcurrent rfl hi hne]

/-- The node that gets the forest has its outermost nodes as further children. -/
theorem getElem?_addForest_self (f : Forest) (hcurrent : current < o.nodes.size) :
    (o.addForest current f).nodes[current]? =
      (o.nodes[current]?).map fun n => { n with children := n.children ++ (f.roots o.nodes.size).toArray } := by
  induction f generalizing o with
  | nil => simp [addForest, Forest.roots]
  | statement label rest ih =>
    have hsize := size_nodes_add o (.statement label.1 current)
    rw [addForest, ih (by omega), getElem?_nodes_add_parent hcurrent rfl, hsize, Option.map_map]
    simp [Forest.roots, Function.comp_def]
  | block label delimiter inner rest ihinner ihrest =>
    have hsize := size_nodes_add o (.block label.1 delimiter.1 current)
    have hsize' := size_nodes_addForest (o.add (.block label.1 delimiter.1 current)).2 o.nodes.size inner
    rw [addForest, ihrest (by omega), getElem?_addForest_of_ne inner (by omega) (by omega) (by omega),
      getElem?_nodes_add_parent hcurrent rfl, hsize', hsize, Option.map_map]
    simp [Forest.roots, Function.comp_def]

/-- An arena that agrees on the places of a forest holds it as well. -/
theorem Holds.congr {o' : Outline} {parent start : Nat} {f : Forest} (h : o.Holds parent start f)
    (heq : ∀ i, start ≤ i → i < start + f.size → o'.nodes[i]? = o.nodes[i]?) : o'.Holds parent start f := by
  induction f generalizing parent start with
  | nil => trivial
  | statement label rest ih =>
    obtain ⟨hnode, hrest⟩ := h
    simp only [Forest.size] at heq
    refine ⟨(heq start (by omega) (by omega)).trans hnode, ih hrest fun i hi hi' => ?_⟩
    exact heq i (by omega) (by omega)
  | block label delimiter inner rest ihinner ihrest =>
    obtain ⟨hnode, hinner, hrest⟩ := h
    simp only [Forest.size] at heq
    refine ⟨(heq start (by omega) (by omega)).trans hnode, ihinner hinner fun i hi hi' => ?_,
      ihrest hrest fun i hi hi' => ?_⟩
    · exact heq i (by omega) (by omega)
    · exact heq i (by omega) (by omega)

theorem holds_addForest (f : Forest) (hcurrent : current < o.nodes.size) :
    (o.addForest current f).Holds current o.nodes.size f := by
  induction f generalizing o current with
  | nil => trivial
  | statement label rest ih =>
    have hsize := size_nodes_add o (.statement label.1 current)
    have hrest : (addForest _ current rest).Holds current _ rest :=
      ih (o := (o.add (.statement label.1 current)).2) (by omega)
    rw [hsize] at hrest
    refine ⟨?_, hrest⟩
    rw [addForest, getElem?_addForest_of_ne rest (by omega) (by omega) (by omega),
      getElem?_nodes_add_size hcurrent rfl]
  | block label delimiter inner rest ihinner ihrest =>
    have hsize := size_nodes_add o (.block label.1 delimiter.1 current)
    have hsize' := size_nodes_addForest (o.add (.block label.1 delimiter.1 current)).2 o.nodes.size inner
    have hinner : (addForest _ o.nodes.size inner).Holds o.nodes.size _ inner :=
      ihinner (o := (o.add (.block label.1 delimiter.1 current)).2) (by omega)
    have hrest : (addForest _ current rest).Holds current _ rest :=
      ihrest (o := (o.add (.block label.1 delimiter.1 current)).2.addForest o.nodes.size inner) (by omega)
    rw [hsize] at hinner
    rw [hsize', hsize] at hrest
    -- what comes after the block changes `current` alone, so the block and its inside stay
    refine ⟨?_, hinner.congr fun i hi hi' => ?_, hrest⟩
    · rw [addForest, getElem?_addForest_of_ne rest (by omega) (by omega) (by omega),
        getElem?_addForest_self inner (by omega), getElem?_nodes_add_size hcurrent rfl, hsize]
      simp [OutlineNode.block]
    · rw [addForest, getElem?_addForest_of_ne rest (by omega) (by omega) (by omega)]

/-! ### What an arena has that holds a forest -/

/-- The places of a forest follow each other in preorder. -/
theorem Holds.visits {parent start : Nat} {f : Forest} (h : o.Holds parent start f) :
    o.Visits (f.roots start) (List.range' start f.size) := by
  induction f generalizing parent start with
  | nil => exact .nil
  | statement label rest ih =>
    obtain ⟨hnode, hrest⟩ := h
    exact .cons hnode .nil (ih hrest)
  | block label delimiter inner rest ihinner ihrest =>
    obtain ⟨hnode, hinner, hrest⟩ := h
    have hrange : List.range' start (inner.size + rest.size + 1) =
        start :: (List.range' (start + 1) inner.size ++ List.range' (start + 1 + inner.size) rest.size) := by
      rw [List.range'_succ, List.range'_append_1]
    rw [Forest.roots, Forest.size, hrange]
    exact .cons hnode (ihinner hinner) (ihrest hrest)

/-- Statements have no children. -/
theorem Holds.children_eq {parent start : Nat} {f : Forest} (h : o.Holds parent start f) {node : OutlineNode}
    (hi : start ≤ i) (hi' : i < start + f.size) (hnode : o.nodes[i]? = some node) (hkind : node.kind = .statement) :
    node.children = #[] := by
  induction f generalizing parent start with
  | nil => exact absurd hi' (by simp [Forest.size]; omega)
  | statement label rest ih =>
    obtain ⟨hstart, hrest⟩ := h
    simp only [Forest.size] at hi'
    by_cases hstart' : i = start
    · subst hstart'
      obtain rfl := Option.some.inj (hnode.symm.trans hstart)
      rfl
    · exact ih hrest (by omega) (by omega)
  | block label delimiter inner rest ihinner ihrest =>
    obtain ⟨hstart, hinner, hrest⟩ := h
    simp only [Forest.size] at hi'
    by_cases hstart' : i = start
    · subst hstart'
      obtain rfl := Option.some.inj (hnode.symm.trans hstart)
      exact absurd hkind (by simp [OutlineNode.block])
    · by_cases hlast : i < start + 1 + inner.size
      · exact ihinner hinner (by omega) hlast
      · exact ihrest hrest (by omega) (by omega)

theorem WellFormed.addForest (h : o.WellFormed) (hcurrent : current < o.nodes.size) (f : Forest) :
    (o.addForest current f).WellFormed := by
  induction f generalizing o current with
  | nil => exact h
  | statement label rest ih =>
    have hsize := size_nodes_add o (.statement label.1 current)
    exact ih (h.add hcurrent rfl (by simp [OutlineNode.statement]) rfl) (by omega)
  | block label delimiter inner rest ihinner ihrest =>
    have hsize := size_nodes_add o (.block label.1 delimiter.1 current)
    have hsize' := size_nodes_addForest (o.add (.block label.1 delimiter.1 current)).2 o.nodes.size inner
    exact ihrest (ihinner (h.add hcurrent rfl (by simp [OutlineNode.block]) rfl) (by omega)) (by omega)

theorem addForest_append (o : Outline) (current : Nat) (f g : Forest) :
    o.addForest current (f.append g) = (o.addForest current f).addForest current g := by
  induction f generalizing o with
  | nil => rfl
  | statement label rest ih => exact ih _
  | block label delimiter inner rest _ ih => exact ih _

/-! ### Outlines of forests -/

def ofForest (f : Forest) : Outline :=
  addForest {} 0 f

theorem size_nodes_ofForest (f : Forest) : (ofForest f).nodes.size = f.size + 1 := by
  rw [ofForest, size_nodes_addForest, Nat.add_comm]
  rfl

theorem getElem?_ofForest_zero (f : Forest) : (ofForest f).nodes[0]? =
    some { kind := .root, label := some "root", children := (f.roots 1).toArray } := by
  rw [ofForest, getElem?_addForest_self f Nat.one_pos]
  simp

theorem holds_ofForest (f : Forest) : (ofForest f).Holds 0 1 f :=
  holds_addForest f Nat.one_pos

theorem wellFormed_ofForest (f : Forest) : (ofForest f).WellFormed :=
  wellFormed_default.addForest Nat.one_pos f

theorem visits_ofForest (f : Forest) : (ofForest f).Visits [0] (List.range (ofForest f).nodes.size) := by
  have hrange : List.range (ofForest f).nodes.size = 0 :: (List.range' 1 f.size ++ []) := by
    rw [size_nodes_ofForest, List.range_eq_range', List.range'_succ, List.append_nil]
  rw [hrange]
  exact .cons (getElem?_ofForest_zero f) (holds_ofForest f).visits .nil

theorem children_eq_of_statement {f : Forest} {node : OutlineNode} (hnode : node ∈ (ofForest f).nodes)
    (hkind : node.kind = .statement) : node.children = #[] := by
  obtain ⟨i, hi, rfl⟩ := Array.mem_iff_getElem.1 hnode
  have hi' := Array.getElem?_eq_getElem hi
  rcases Nat.eq_zero_or_pos i with rfl | hpos
  · rw [getElem?_ofForest_zero] at hi'
    rw [← Option.some.inj hi'] at hkind
    simp at hkind
  · rw [size_nodes_ofForest] at hi
    exact (holds_ofForest f).children_eq hpos (by omega) hi' hkind

/-! ### The forest of a token list -/

theorem mem_outlineKeywords {t : Token} (h : t.isOutlined) : t.value ∈ outlineKeywords := by
  simp only [Token.isOutlined, Bool.and_eq_true] at h
  exact List.contains_iff_mem.1 h.2

theorem isSome_closingDelimiter? {t : Token} (h : t.isOpening) : (closingDelimiter? t.value).isSome := by
  simp only [Token.isOpening, Bool.and_eq_true] at h
  exact h.2

/-- The label that waits for a block after a token. -/
theorem exists_label (label : Option Label) (t : Token) :
    ∃ label' : Option Label, (if t.isOutlined then some t.value else label.map (·.1)) = label'.map (·.1) := by
  split
  · rename_i h
    exact ⟨some ⟨t.value, List.mem_cons_of_mem _ (mem_outlineKeywords h)⟩, rfl⟩
  · exact ⟨label, rfl⟩

/-- Adding tokens inside a block comes to adding a forest below it.  Then the tokens are used up, or a closing delimiter
has left the block. -/
theorem exists_forest (label : Option Label) (tokens : List Token) : ∃ f : Forest,
    (∀ o current outer, addTokens o current outer (label.map (·.1)) tokens = o.addForest current f) ∨
    ∃ (label' : Option Label) (rest : List Token), rest.length < tokens.length ∧
      ∀ o current outer, addTokens o current outer (label.map (·.1)) tokens =
        addTokens (o.addForest current f) (outer.headD current) outer.tail (label'.map (·.1)) rest := by
  induction hn : tokens.length using Nat.strongRecOn generalizing label tokens with
  | _ n ih =>
  subst hn
  cases tokens with
  | nil => exact ⟨.nil, .inl fun _ _ _ => rfl⟩
  | cons t rest =>
    have hlt : rest.length < (t :: rest).length := Nat.lt_succ_self _
    obtain ⟨label', hlabel⟩ := exists_label label t
    simp only [addTokens, hlabel]
    by_cases hopening : t.isOpening
    · obtain ⟨delimiter, hdelimiter⟩ : ∃ d : Delimiter, d.1 = t.value := ⟨⟨_, isSome_closingDelimiter? hopening⟩, rfl⟩
      obtain ⟨top, htop⟩ : ∃ top : Label, top.1 = (label'.map (·.1)).getD "block" :=
        ⟨label'.getD .block, (Option.getD_map _ _ _).symm⟩
      simp only [if_pos hopening, ← htop, ← hdelimiter]
      obtain ⟨inner, hinner | ⟨label'', after, hafter, hinner⟩⟩ := ih rest.length hlt none rest rfl
      · exact ⟨.block top delimiter inner .nil, .inl fun o current outer => hinner _ _ _⟩
      · -- the block is closed, and what comes after it lies beside it
        obtain ⟨f, hf | ⟨label₃, last, hlast, hf⟩⟩ := ih after.length (Nat.lt_trans hafter hlt) label'' after rfl
        · exact ⟨.block top delimiter inner f, .inl fun o current outer => (hinner _ _ _).trans (hf _ _ _)⟩
        · exact ⟨.block top delimiter inner f, .inr ⟨label₃, last, Nat.lt_trans hlast (Nat.lt_trans hafter hlt),
            fun o current outer => (hinner _ _ _).trans (hf _ _ _)⟩⟩
    · simp only [if_neg hopening]
      by_cases hclosing : t.isClosing
      · simp only [if_pos hclosing]
        refine ⟨.nil, .inr ⟨label', rest, hlt, fun o current outer => ?_⟩⟩
        cases outer <;> rfl
      · simp only [if_neg hclosing]
        obtain ⟨f, hf⟩ := ih rest.length hlt label' rest rfl
        by_cases hstatement : (t.isOutlined && !opensBlock rest) = true
        · simp only [if_pos hstatement]
          have hvalue := mem_outlineKeywords (Bool.and_eq_true_iff.1 hstatement).1
          refine ⟨.statement ⟨t.value, List.mem_cons_of_mem _ hvalue⟩ f, ?_⟩
          rcases hf with hf | ⟨label'', after, hafter, hf⟩
          · exact .inl fun o current outer => hf _ _ _
          · exact .inr ⟨label'', after, Nat.lt_trans hafter hlt, fun o current outer => hf _ _ _⟩
        · simp only [if_neg hstatement]
          rcases hf with hf | ⟨label'', after, hafter, hf⟩
          · exact ⟨f, .inl hf⟩
          · exact ⟨f, .inr ⟨label'', after, Nat.lt_trans hafter hlt, hf⟩⟩

/-- The outline of a token list is that of a forest: outside of all blocks, closing delimiters are passed over. -/
theorem exists_ofTokens_eq (tokens : List Token) : ∃ f : Forest, ofTokens tokens = ofForest f := by
  suffices h : ∀ label : Option Label, ∃ f : Forest, ∀ o current,
      addTokens o current [] (label.map (·.1)) tokens = o.addForest current f by
    obtain ⟨f, hf⟩ := h none
    exact ⟨f, hf _ _⟩
  intro label
  induction hn : tokens.length using Nat.strongRecOn generalizing label tokens with
  | _ n ih =>
  subst hn
  obtain ⟨f, hf | ⟨label', rest, hrest, hf⟩⟩ := exists_forest label tokens
  · exact ⟨f, fun o current => hf _ _ _⟩
  · obtain ⟨g, hg⟩ := ih rest.length hrest rest label' rfl
    refine ⟨f.append g, fun o current => ?_⟩
    rw [hf, addForest_append]
    exact hg _ _

end Outline

end Semblance

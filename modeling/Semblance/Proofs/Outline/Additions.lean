import Semblance.Proofs.Outline.Reading

/-!
# Additions to outlines

What `Outline.add` makes of an arena that is a tree, for every parent that a new node can name.  The arena is a tree
again exactly if the parent is the place of a node that is there (`keepsTree_iff`), and so it stays one over a run of
such additions (`IsTree.addAll`).  Other parents break it, because the node is appended before its parent is looked up:
its own place and `-1` then mean the new node itself, and a parent out of range is noticed when the node is there.  A
negative number that means an older node breaks it as well, since the node does not name the place that lists it.

A tree can be rendered from each of its nodes in as many nested calls as it has nodes, since every step down leads to a
later place (`IsTree.render?_ne_tooDeep`); a block that is its own child cannot, in any number of calls.
-/

namespace Semblance

namespace Outline

variable {o : Outline} {node : OutlineNode} {i p q k l : Nat} {parent : Int}

/-! ### Trees -/

/-- The node at `p` has `i` as its child number `k`. -/
def Lists (o : Outline) (p k i : Nat) : Prop :=
  ∃ node, o.nodes[p]? = some node ∧ node.children[k]? = some i

/-- The parent that the node at a place names. -/
def parent? (o : Outline) (i : Nat) : Option Int :=
  (o.nodes[i]?).bind OutlineNode.parent

/-- The first node is the root, children are places of the arena after that of the node that lists them, no place is
listed twice, and a node is listed by its parent and by no other node. -/
structure IsTree (o : Outline) : Prop where
  root : ∃ node, o.nodes[0]? = some node ∧ node.kind = .root ∧ node.parent = none
  later : ∀ {p k i : Nat}, o.Lists p k i → p < i ∧ i < o.nodes.size
  once : ∀ {p q k l i : Nat}, o.Lists p k i → o.Lists q l i → p = q ∧ k = l
  linked : ∀ p i : Nat, (∃ k, o.Lists p k i) ↔ o.parent? i = some (p : Int)

theorem exists_lists_iff (h : o.nodes[p]? = some node) : (∃ k, o.Lists p k i) ↔ i ∈ node.children.toList := by
  constructor
  · rintro ⟨k, n, hn, hk⟩
    obtain rfl := Option.some.inj (h.symm.trans hn)
    exact Array.mem_toList_iff.2 (Array.mem_of_getElem? hk)
  · intro hi
    obtain ⟨k, hk⟩ := Array.mem_iff_getElem?.1 (Array.mem_toList_iff.1 hi)
    exact ⟨k, node, h, hk⟩

theorem WellFormed.lt_of_parent? (h : o.WellFormed) (hparent : o.parent? i = some (p : Int)) :
    p < i ∧ i < o.nodes.size := by
  obtain ⟨node, hnode, hp⟩ := Option.bind_eq_some_iff.1 hparent
  have hlt := (Array.getElem?_eq_some_iff.1 hnode).1
  rcases Nat.eq_zero_or_pos i with rfl | hpos
  · obtain ⟨_, hroot⟩ := h.root
    obtain rfl := Option.some.inj (hroot.symm.trans hnode)
    simp at hp
  · obtain ⟨-, q, hq, hq'⟩ := h.parent hnode hpos
    obtain rfl := Int.ofNat.inj (Option.some.inj (hq'.symm.trans hp))
    exact ⟨hq, hlt⟩

theorem WellFormed.isTree (h : o.WellFormed) : o.IsTree := by
  have hlinked (p i : Nat) : (∃ k, o.Lists p k i) ↔ o.parent? i = some (p : Int) := by
    cases hp : o.nodes[p]? with
    | none =>
      constructor
      · rintro ⟨k, n, hn, -⟩
        simp [hp] at hn
      · intro hparent
        have hlt := h.lt_of_parent? hparent
        rw [Array.getElem?_eq_getElem (by omega)] at hp
        contradiction
    | some node =>
      rw [exists_lists_iff hp, ← List.count_pos_iff, h.children hp i, parent?]
      split <;> simp_all
  constructor
  case root =>
    obtain ⟨children, hroot⟩ := h.root
    exact ⟨_, hroot, rfl, rfl⟩
  case later => exact fun hlists => h.lt_of_parent? ((hlinked _ _).1 ⟨_, hlists⟩)
  case once =>
    intro p q k l i hp hq
    have hparent := (hlinked p i).1 ⟨k, hp⟩
    have hparent' := (hlinked q i).1 ⟨l, hq⟩
    obtain rfl := Int.ofNat.inj (Option.some.inj (hparent.symm.trans hparent'))
    refine ⟨rfl, ?_⟩
    obtain ⟨node, hnode, hk⟩ := hp
    obtain ⟨node', hnode', hl⟩ := hq
    obtain rfl := Option.some.inj (hnode.symm.trans hnode')
    -- children in order are different from each other
    have hnodup : node.children.toList.Nodup := (h.order hnode).imp Nat.ne_of_lt
    rw [← Array.getElem?_toList] at hk hl
    exact (List.getElem?_inj (List.getElem?_eq_some_iff.1 hk).1 hnodup).1 (hk.trans hl.symm)
  case linked => exact hlinked

theorem isTree_ofTokens (tokens : List Token) : (ofTokens tokens).IsTree := by
  obtain ⟨f, hf⟩ := exists_ofTokens_eq tokens
  rw [hf]
  exact (wellFormed_ofForest f).isTree

/-! ### Rendering -/

/-- A computation fails in its first step or in what comes after it. -/
theorem bind_eq_error {α β ε : Type} {x : Except ε α} {f : α → Except ε β} {e : ε} (h : x >>= f = .error e) :
    x = .error e ∨ ∃ a, x = .ok a ∧ f a = .error e := by
  cases x with
  | error e' => exact .inl (congrArg Except.error (Except.error.inj h))
  | ok a => exact .inr ⟨a, rfl, h⟩

theorem exists_of_mapM_eq_error {α β ε : Type} {f : α → Except ε β} {xs : List α} {e : ε}
    (h : xs.mapM f = .error e) : ∃ x ∈ xs, f x = .error e := by
  induction xs with
  | nil => simp [pure, Except.pure] at h
  | cons x xs ih =>
    rw [List.mapM_cons] at h
    rcases bind_eq_error h with hx | ⟨y, -, h⟩
    · exact ⟨x, List.mem_cons_self, hx⟩
    · rcases bind_eq_error h with hxs | ⟨ys, -, h⟩
      · obtain ⟨x', hx', hf⟩ := ih hxs
        exact ⟨x', List.mem_cons_of_mem _ hx', hf⟩
      · simp [pure, Except.pure] at h

theorem place?_ne_tooDeep (o : Outline) (index : Int) : o.place? index ≠ .error .tooDeep := by
  unfold place?
  repeat' split
  all_goals simp

theorem node?_ne_tooDeep (o : Outline) (index : Int) : o.node? index ≠ .error .tooDeep := by
  intro h
  rcases bind_eq_error h with hplace | ⟨p, -, hnode⟩
  · exact place?_ne_tooDeep o index hplace
  · split at hnode
    · contradiction
    · simp at hnode

theorem exists_of_node?_eq_ok {index : Int} (h : o.node? index = .ok node) : ∃ p : Nat, o.nodes[p]? = some node := by
  simp only [node?, bind, Except.bind] at h
  split at h
  · contradiction
  · rename_i p _
    split at h
    · rename_i n hn
      obtain rfl := Except.ok.inj h
      exact ⟨p, hn⟩
    · contradiction

theorem checkIndent_ne_tooDeep (indent : Int) : checkIndent indent ≠ .error .tooDeep := by
  unfold checkIndent
  repeat' split
  all_goals simp

theorem entryLines_ne_tooDeep (pad : String) (child : OutlineNode) (inner : List String) :
    entryLines pad child inner ≠ .error .tooDeep := by
  unfold entryLines
  dsimp only
  repeat' split
  all_goals simp

/-- The lines of a child are too deep only if those below it are. -/
theorem below_eq_tooDeep {below : OutlineNode → Except OutlineError (List String)} {indent : Int}
    (hi : o.nodes[i]? = some node) (h : o.placeLines indent below i = .error .tooDeep) :
    below node = .error .tooDeep := by
  rw [placeLines, node?_natCast hi] at h
  rcases bind_eq_error h with h | ⟨child, hchild, h⟩
  · contradiction
  · obtain rfl := Except.ok.inj hchild
    dsimp only at h
    split at h
    · rcases bind_eq_error h with h | ⟨inner, -, h⟩
      · exact h
      · exact absurd h (entryLines_ne_tooDeep _ _ _)
    · exact absurd h (entryLines_ne_tooDeep _ _ _)

/-- Each step down leads to a later place, so the depth that is left suffices for the places that are left. -/
theorem IsTree.childLines_ne_tooDeep (h : o.IsTree) (depth : Nat) (hp : o.nodes[p]? = some node)
    (hdepth : o.nodes.size ≤ p + depth) (indent : Int) : o.childLines indent node depth ≠ .error .tooDeep := by
  induction depth generalizing p node indent with
  | zero =>
    have hlt := (Array.getElem?_eq_some_iff.1 hp).1
    omega
  | succ depth ih =>
    intro hlines
    rw [childLines] at hlines
    rcases bind_eq_error hlines with hgroups | ⟨groups, -, hpure⟩
    · obtain ⟨i, hi, hplace⟩ := exists_of_mapM_eq_error hgroups
      obtain ⟨k, hlists⟩ := (exists_lists_iff hp).2 hi
      obtain ⟨hpi, hsize⟩ := h.later hlists
      have hchild := Array.getElem?_eq_getElem hsize
      exact ih hchild (by omega) _ (below_eq_tooDeep hchild hplace)
    · simp [pure, Except.pure] at hpure

theorem IsTree.render?_ne_tooDeep (h : o.IsTree) {depth : Nat} (hdepth : o.nodes.size ≤ depth + 1)
    (index indent : Int) : o.render? depth index indent ≠ .error .tooDeep := by
  intro hrender
  rw [render?] at hrender
  rcases bind_eq_error hrender with hnode | ⟨node, hnode, hrender⟩
  · exact node?_ne_tooDeep o index hnode
  · obtain ⟨p, hp⟩ := exists_of_node?_eq_ok hnode
    split at hrender
    · simp [pure, Except.pure] at hrender
    · rcases bind_eq_error hrender with hindent | ⟨_, -, hrender⟩
      · exact checkIndent_ne_tooDeep indent hindent
      · rcases bind_eq_error hrender with hlines | ⟨_, -, hpure⟩
        · exact h.childLines_ne_tooDeep (depth + 1) hp (by omega) indent hlines
        · simp [pure, Except.pure] at hpure

/-- A block that is its only child is too deep for any number of calls. -/
theorem render?_eq_tooDeep (hi : o.nodes[i]? = some node) (hkind : node.kind = .block)
    (hchildren : node.children = #[i]) (depth : Nat) : o.render? depth i 0 = .error .tooDeep := by
  have hlines (depth : Nat) (indent : Int) : o.childLines indent node depth = .error .tooDeep := by
    induction depth generalizing indent with
    | zero => rfl
    | succ depth ih =>
      rw [childLines_succ, hchildren]
      simp [placeLines, node?_natCast hi, hkind, hchildren, ih, bind, Except.bind, Except.map]
  have hindent : checkIndent 0 = .ok () := by decide
  rw [render?, node?_natCast hi]
  simp [hchildren, hindent, hlines, bind, Except.bind]

/-! ### The place that a parent means -/

theorem place?_of_neg {index : Int} (hneg : index < 0) (h : 0 ≤ index + o.nodes.size) :
    o.place? index = .ok (index + o.nodes.size).toNat := by
  rw [place?, if_neg (by omega), if_pos ⟨hneg, h⟩]

theorem place?_of_outside {index : Int} (h : index + o.nodes.size < 0 ∨ o.nodes.size ≤ index) :
    o.place? index = .error (if isWord index then .outOfRange else .indexTooLarge) := by
  rw [place?, if_neg (by omega), if_neg (by omega)]
  split <;> rfl

theorem lt_size_of_place? {index : Int} (h : o.place? index = .ok p) : p < o.nodes.size := by
  unfold place? at h
  split at h
  · obtain rfl := Except.ok.inj h
    omega
  · split at h
    · obtain rfl := Except.ok.inj h
      omega
    · split at h <;> contradiction

/-! ### One addition -/

/-- The arena with a node at its end that no other node lists. -/
def push (o : Outline) (node : OutlineNode) : Outline :=
  ⟨o.nodes.push node⟩

theorem size_nodes_push (o : Outline) (node : OutlineNode) : (o.push node).nodes.size = o.nodes.size + 1 :=
  Array.size_push _

theorem add_of_error {e : OutlineError} (hparent : node.parent = some parent)
    (hplace : (o.push node).place? parent = .error e) : o.add node = (.error e, o.push node) := by
  rw [push] at hplace
  simp only [add, hparent, hplace, push]

theorem fst_add (hparent : node.parent = some parent) (hplace : (o.push node).place? parent = .ok p) :
    (o.add node).1 = .ok o.nodes.size := by
  rw [push] at hplace
  simp only [add, hparent, hplace]

theorem getElem?_add (hparent : node.parent = some parent) (hplace : (o.push node).place? parent = .ok p) (i : Nat) :
    (o.add node).2.nodes[i]? = ((o.push node).nodes[i]?).map fun n =>
      if i = p then { n with children := n.children.push o.nodes.size } else n := by
  rw [push] at hplace ⊢
  simp only [add, hparent, hplace, Array.getElem?_modify]
  by_cases hip : p = i
  · simp [hip]
  · simp [hip, Ne.symm hip]

theorem parent?_add (hparent : node.parent = some parent) (hplace : (o.push node).place? parent = .ok p) (i : Nat) :
    (o.add node).2.parent? i = if i = o.nodes.size then some parent else o.parent? i := by
  have hpush : (o.push node).parent? i = if i = o.nodes.size then some parent else o.parent? i := by
    rw [parent?, push, Array.getElem?_push]
    split
    · exact hparent
    · rfl
  rw [← hpush, parent?, parent?, getElem?_add hparent hplace]
  cases (o.push node).nodes[i]? with
  | none => rfl
  | some n =>
    rw [Option.map_some, Option.bind_some, Option.bind_some]
    split <;> rfl

theorem lists_push_iff (hchildren : node.children = #[]) : (o.push node).Lists q k i ↔ o.Lists q k i := by
  simp only [Lists, push, Array.getElem?_push]
  split
  · rename_i hq
    rw [getElem?_nodes_eq_none (Nat.le_of_eq hq.symm)]
    simp [hchildren]
  · rfl

/-- An addition makes the new place the last child of the node that the parent means, and changes no other child. -/
theorem lists_add_iff (hparent : node.parent = some parent) (hplace : (o.push node).place? parent = .ok p) :
    (o.add node).2.Lists q k i ↔ (o.push node).Lists q k i ∨
      q = p ∧ i = o.nodes.size ∧ ((o.push node).nodes[p]?).map (·.children.size) = some k := by
  simp only [Lists, getElem?_add hparent hplace]
  cases hq : (o.push node).nodes[q]? with
  | none =>
    have hne : q ≠ p := by
      rintro rfl
      rw [Array.getElem?_eq_getElem (lt_size_of_place? hplace)] at hq
      contradiction
    simp [hne]
  | some n =>
    by_cases hqp : q = p
    · subst hqp
      simp only [hq, Option.map_some, if_true, Option.some.injEq, exists_eq_left', Array.getElem?_push, true_and]
      split
      · rename_i hk
        simp [hk, eq_comm]
      · rename_i hk
        simp [Ne.symm hk]
    · simp [hqp]

/-- A new node below a node of a tree leaves a tree. -/
theorem IsTree.add (h : o.IsTree) (hchildren : node.children = #[]) (hp : p < o.nodes.size)
    (hparent : node.parent = some (p : Int)) : (o.add node).2.IsTree := by
  have hplace : (o.push node).place? p = .ok p := place?_natCast (by rw [size_nodes_push]; omega)
  have hlists {q k i : Nat} := lists_add_iff (q := q) (k := k) (i := i) hparent hplace
  simp only [lists_push_iff hchildren] at hlists
  have hold {q k i : Nat} (hi : o.Lists q k i) : i ≠ o.nodes.size := Nat.ne_of_lt (h.later hi).2
  constructor
  case root =>
    obtain ⟨root, hroot, hkind, hnone⟩ := h.root
    have hzero := (Array.getElem?_eq_some_iff.1 hroot).1
    rw [getElem?_nodes_add hp hparent, if_neg (by omega), hroot]
    refine ⟨_, rfl, ?_⟩
    split
    · exact ⟨hkind, hnone⟩
    · exact ⟨hkind, hnone⟩
  case later =>
    intro q k i hi
    rw [size_nodes_add]
    rcases hlists.1 hi with hi | ⟨rfl, rfl, -⟩
    · have := h.later hi
      omega
    · omega
  case once =>
    intro q r k l i hq hr
    rcases hlists.1 hq with hq | ⟨rfl, hi, hk⟩ <;> rcases hlists.1 hr with hr | ⟨rfl, hi', hl⟩
    · exact h.once hq hr
    · exact absurd hi' (hold hq)
    · exact absurd hi (hold hr)
    · exact ⟨rfl, Option.some.inj (hk.symm.trans hl)⟩
  case linked =>
    intro q i
    rw [parent?_add hparent hplace]
    simp only [hlists]
    split
    · rename_i hi
      subst hi
      constructor
      · rintro ⟨k, hk | ⟨rfl, -⟩⟩
        · exact absurd rfl (hold hk)
        · rfl
      · intro hpq
        obtain rfl := Int.ofNat.inj (Option.some.inj hpq)
        obtain ⟨n, hn⟩ : ∃ n, (o.push node).nodes[p]? = some n :=
          ⟨_, Array.getElem?_eq_getElem (lt_size_of_place? hplace)⟩
        exact ⟨n.children.size, .inr ⟨rfl, rfl, by rw [hn]; rfl⟩⟩
    · rename_i hi
      rw [← h.linked q i]
      simp [hi]

/-- Adds nodes one after another. -/
def addAll (o : Outline) (nodes : List OutlineNode) : Outline :=
  nodes.foldl (fun o node => (o.add node).2) o

/-- New nodes that each name a place that is there when their turn comes leave a tree. -/
theorem IsTree.addAll (h : o.IsTree) {nodes : List OutlineNode} (hnodes : ∀ k node, nodes[k]? = some node →
    node.children = #[] ∧ ∃ p : Nat, p < o.nodes.size + k ∧ node.parent = some (p : Int)) : (o.addAll nodes).IsTree := by
  induction nodes generalizing o with
  | nil => exact h
  | cons node rest ih =>
    obtain ⟨hchildren, p, hp, hparent⟩ := hnodes 0 node rfl
    refine ih (h.add hchildren hp hparent) fun k next hnext => ?_
    obtain ⟨hchildren', q, hq, hparent'⟩ := hnodes (k + 1) next hnext
    refine ⟨hchildren', q, ?_, hparent'⟩
    rw [size_nodes_add]
    omega

/-! ### All parents -/

/-- The new place is returned and the arena is a tree again, which can be rendered in as many nested calls as it has
nodes, or the addition fails and leaves the arena as it was. -/
def KeepsTree (o : Outline) (node : OutlineNode) : Prop :=
  ((o.add node).1 = .ok o.nodes.size ∧ (o.add node).2.IsTree ∧
    ∀ depth index indent, (o.add node).2.nodes.size ≤ depth + 1 →
      (o.add node).2.render? depth index indent ≠ .error .tooDeep) ∨
  (∃ e, (o.add node).1 = .error e) ∧ (o.add node).2 = o

/-- No addition leaves an arena as it was. -/
theorem add_ne_self (o : Outline) (node : OutlineNode) : (o.add node).2 ≠ o := by
  intro h
  have hsize := size_nodes_add o node
  rw [h] at hsize
  omega

theorem exists_lists_add (hparent : node.parent = some parent) (hplace : (o.push node).place? parent = .ok p) :
    ∃ k, (o.add node).2.Lists p k o.nodes.size := by
  obtain ⟨n, hn⟩ : ∃ n, (o.push node).nodes[p]? = some n := ⟨_, Array.getElem?_eq_getElem (lt_size_of_place? hplace)⟩
  exact ⟨n.children.size, (lists_add_iff hparent hplace).2 (.inr ⟨rfl, rfl, by rw [hn]; rfl⟩)⟩

/-- In a tree the parent of the new node is a place before it. -/
theorem parent_bounds_of_isTree (hparent : node.parent = some parent) (hok : (o.add node).1 = .ok o.nodes.size)
    (h : (o.add node).2.IsTree) : 0 ≤ parent ∧ parent < o.nodes.size := by
  cases hplace : (o.push node).place? parent with
  | error e =>
    rw [add_of_error hparent hplace] at hok
    contradiction
  | ok p =>
    obtain ⟨k, hlists⟩ := exists_lists_add hparent hplace
    have hlinked := (h.linked p o.nodes.size).1 ⟨k, hlists⟩
    rw [parent?_add hparent hplace, if_pos rfl] at hlinked
    obtain rfl := Option.some.inj hlinked
    exact ⟨Int.natCast_nonneg p, by exact_mod_cast (h.later hlists).1⟩

theorem own_children (hchildren : node.children = #[]) (hparent : node.parent = some parent)
    (hown : parent = o.nodes.size ∨ parent = -1) : (o.add node).1 = .ok o.nodes.size ∧
      (o.add node).2.nodes[o.nodes.size]? = some { node with children := #[o.nodes.size] } := by
  have hplace : (o.push node).place? parent = .ok o.nodes.size := by
    have hsize := size_nodes_push o node
    rcases hown with rfl | rfl
    · exact place?_natCast (by omega)
    · rw [place?_of_neg (by omega) (by omega), hsize]
      congr 1
      omega
  refine ⟨fst_add hparent hplace, ?_⟩
  rw [getElem?_add hparent hplace, push, Array.getElem?_push, if_pos rfl, Option.map_some, if_pos rfl, hchildren]
  rfl

/-- A new node leaves a tree, or fails without a trace, exactly if its parent is the place of a node that is there.  As
the parent its own place and `-1` make it its own child, so that as a block it cannot be rendered; another negative
number puts it below a node that it does not name; and out of range the addition fails, but the node stays. -/
theorem keepsTree_iff (h : o.IsTree) (hchildren : node.children = #[]) (hparent : node.parent = some parent) :
    (o.KeepsTree node ↔ 0 ≤ parent ∧ parent < o.nodes.size) ∧
    (parent = o.nodes.size ∨ parent = -1 → (o.add node).1 = .ok o.nodes.size ∧
      (o.add node).2.Lists o.nodes.size 0 o.nodes.size ∧
      (node.kind = .block → ∀ depth, (o.add node).2.render? depth o.nodes.size 0 = .error .tooDeep)) ∧
    (0 ≤ parent + (o.nodes.size + 1) ∧ parent < -1 → (o.add node).1 = .ok o.nodes.size ∧
      ∃ k, (o.add node).2.Lists (parent + (o.nodes.size + 1)).toNat k o.nodes.size) ∧
    (parent + (o.nodes.size + 1) < 0 ∨ o.nodes.size < parent →
      (o.add node).1 = .error (if isWord parent then .outOfRange else .indexTooLarge) ∧
        (o.add node).2.nodes = o.nodes.push node) := by
  have hsize := size_nodes_push o node
  refine ⟨⟨?bounds, ?tree⟩, ?own, ?negative, ?outside⟩
  case bounds =>
    rintro (⟨hok, htree, -⟩ | ⟨-, hsame⟩)
    · exact parent_bounds_of_isTree hparent hok htree
    · exact absurd hsame (add_ne_self o node)
  case tree =>
    rintro ⟨hnonneg, hlt⟩
    obtain ⟨p, rfl⟩ := Int.eq_ofNat_of_zero_le hnonneg
    have hp : p < o.nodes.size := by exact_mod_cast hlt
    have htree := h.add hchildren hp hparent
    exact .inl ⟨fst_add hparent (place?_natCast (by omega)), htree,
      fun depth index indent hdepth => htree.render?_ne_tooDeep hdepth index indent⟩
  case own =>
    intro hown
    obtain ⟨hok, hnode⟩ := own_children hchildren hparent hown
    exact ⟨hok, ⟨_, hnode, rfl⟩, fun hkind => render?_eq_tooDeep hnode hkind rfl⟩
  case negative =>
    rintro ⟨hlow, hhigh⟩
    have hplace : (o.push node).place? parent = .ok (parent + (o.nodes.size + 1)).toNat := by
      rw [place?_of_neg (by omega) (by omega), hsize]
      rfl
    exact ⟨fst_add hparent hplace, exists_lists_add hparent hplace⟩
  case outside =>
    intro hout
    rw [add_of_error hparent (place?_of_outside (by omega))]
    exact ⟨rfl, rfl⟩

theorem keepsTree_iff_nested :
    let o := ofTokens [⟨.punctuation, "\x7b"⟩, ⟨.punctuation, "("⟩]
    let node : OutlineNode := { kind := .statement, label := some "x", parent := some 1 }
    o.IsTree ∧ node.children = #[] ∧ node.parent = some 1 ∧ o.nodes.size = 3 ∧ o.KeepsTree node ∧
      ¬o.KeepsTree { node with parent := some (-2) } := by
  intro o node
  have htree : o.IsTree := isTree_ofTokens _
  have hsize : o.nodes.size = 3 := by decide
  refine ⟨htree, rfl, rfl, hsize, ?_, fun hkeeps => ?_⟩
  · exact (keepsTree_iff htree rfl rfl).1.2 ⟨by decide, by omega⟩
  · exact absurd ((keepsTree_iff htree rfl rfl).1.1 hkeeps).1 (by decide)

/-- A parent out of range is an error, but the node stays; the place of the new node itself is no error at all. -/
theorem not_keepsTree_of_missing_parent :
    ({} : Outline).IsTree ∧
      ¬({} : Outline).KeepsTree { kind := .block, label := some "x", delimiter := some "\x7b", parent := some 7 } ∧
      ¬({} : Outline).KeepsTree { kind := .block, label := some "x", delimiter := some "\x7b", parent := some 1 } := by
  refine ⟨wellFormed_default.isTree, ?_, ?_⟩
  · rintro (⟨hok, htree, -⟩ | ⟨-, hsame⟩)
    · exact absurd (parent_bounds_of_isTree rfl hok htree).2 (by decide)
    · exact add_ne_self _ _ hsame
  · rintro (⟨hok, htree, -⟩ | ⟨-, hsame⟩)
    · exact absurd (parent_bounds_of_isTree rfl hok htree).2 (by decide)
    · exact add_ne_self _ _ hsame

end Outline

end Semblance

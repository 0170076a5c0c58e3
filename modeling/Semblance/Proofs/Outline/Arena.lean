import Mathlib.Data.List.Basic
import Semblance.Outline

/-!
# Outlines as arenas

The nodes of an outline lie in one array and are linked in both directions: each node but the root names its parent,
and each node lists its children.  `Outline.WellFormed` says that both directions agree, and adding a node below a node
of the arena keeps it so (`WellFormed.add`).  An addition changes nothing about the nodes that are there but their
children (`Extends`), so the way from a node up to the root (`Ancestors`) stays.  `Visits` walks the tree in preorder.
-/

namespace Semblance

namespace Outline

variable {o o' o'' : Outline} {node : OutlineNode} {i p : Nat}

/-! ### Looking up and adding -/

theorem place?_natCast (h : i < o.nodes.size) : o.place? i = .ok i := by
  rw [place?, if_pos (by omega), Int.toNat_natCast]

theorem node?_natCast (h : o.nodes[i]? = some node) : o.node? i = .ok node := by
  obtain ⟨hi, -⟩ := Array.getElem?_eq_some_iff.1 h
  simp only [node?, place?_natCast hi, bind, Except.bind, h]

theorem getElem?_nodes_eq_none (h : o.nodes.size ≤ i) : o.nodes[i]? = none :=
  Array.getElem?_eq_none h

/-- A node that is added below the node at `p` comes to the end, and its place to the end of the children there. -/
theorem getElem?_nodes_add (hp : p < o.nodes.size) (hparent : node.parent = some (p : Int)) (i : Nat) :
    (o.add node).2.nodes[i]? = if i = o.nodes.size then some node else
      (o.nodes[i]?).map fun n => if i = p then { n with children := n.children.push o.nodes.size } else n := by
  have hplace : (⟨o.nodes.push node⟩ : Outline).place? p = .ok p :=
    place?_natCast (by rw [Array.size_push]; omega)
  simp only [add, hparent, hplace, Array.getElem?_modify, Array.getElem?_push]
  by_cases hip : p = i
  · subst hip
    rw [if_pos rfl, if_neg (Nat.ne_of_lt hp), if_neg (Nat.ne_of_lt hp)]
    simp
  · rw [if_neg hip]
    split
    · rfl
    · simp [Ne.symm hip]

theorem getElem?_nodes_add_size (hp : p < o.nodes.size) (hparent : node.parent = some (p : Int)) :
    (o.add node).2.nodes[o.nodes.size]? = some node := by
  rw [getElem?_nodes_add hp hparent, if_pos rfl]

theorem getElem?_nodes_add_parent (hp : p < o.nodes.size) (hparent : node.parent = some (p : Int)) :
    (o.add node).2.nodes[p]? =
      (o.nodes[p]?).map fun n => { n with children := n.children.push o.nodes.size } := by
  rw [getElem?_nodes_add hp hparent, if_neg (Nat.ne_of_lt hp)]
  simp

theorem getElem?_nodes_add_of_ne (hp : p < o.nodes.size) (hparent : node.parent = some (p : Int))
    (hi : i < o.nodes.size) (hip : i ≠ p) : (o.add node).2.nodes[i]? = o.nodes[i]? := by
  rw [getElem?_nodes_add hp hparent, if_neg (Nat.ne_of_lt hi)]
  simp [hip]

/-! ### Arenas that grow -/

/-- The nodes of an arena stay in another one, with their children possibly others. -/
def Extends (o o' : Outline) : Prop :=
  ∀ (i : Nat) (node : OutlineNode), o.nodes[i]? = some node →
    ∃ children, o'.nodes[i]? = some { node with children := children }

theorem Extends.refl (o : Outline) : o.Extends o := fun _ node h => ⟨node.children, h⟩

theorem Extends.trans (h : o.Extends o') (h' : o'.Extends o'') : o.Extends o'' := by
  intro i node hi
  obtain ⟨_, hi'⟩ := h i node hi
  obtain ⟨children, hi''⟩ := h' i _ hi'
  exact ⟨children, hi''⟩

theorem extends_add (hp : p < o.nodes.size) (hparent : node.parent = some (p : Int)) : o.Extends (o.add node).2 := by
  intro i n hi
  obtain ⟨hlt, -⟩ := Array.getElem?_eq_some_iff.1 hi
  by_cases hip : i = p
  · subst hip
    exact ⟨_, by rw [getElem?_nodes_add_parent hp hparent, hi]; rfl⟩
  · exact ⟨n.children, by rw [getElem?_nodes_add_of_ne hp hparent hlt hip, hi]⟩

/-- The places from the parent of a node up to the root, which is at `0`; as many as the node lies deep. -/
inductive Ancestors (o : Outline) : Nat → List Nat → Prop
  | root : o.Ancestors 0 []
  | step {i p : Nat} {node : OutlineNode} {outer : List Nat} (hi : o.nodes[i]? = some node)
      (hparent : node.parent = some (p : Int)) (h : o.Ancestors p outer) : o.Ancestors i (p :: outer)

theorem Ancestors.of_extends {outer : List Nat} (h : o.Ancestors i outer) (he : o.Extends o') :
    o'.Ancestors i outer := by
  induction h with
  | root => exact .root
  | step hi hparent _ ih =>
    obtain ⟨children, hi'⟩ := he _ _ hi
    exact .step hi' hparent ih

theorem Ancestors.lt_size {outer : List Nat} (h : o.Ancestors i outer) (hroot : 0 < o.nodes.size) :
    i < o.nodes.size := by
  cases h with
  | root => exact hroot
  | step hi => exact (Array.getElem?_eq_some_iff.1 hi).1

/-- A walk through the nodes at some places, each followed by all that lies below it: the places in the order of the
walk. -/
inductive Visits (o : Outline) : List Nat → List Nat → Prop
  | nil : o.Visits [] []
  | cons {i : Nat} {node : OutlineNode} {rest inner after : List Nat} (hi : o.nodes[i]? = some node)
      (hinner : o.Visits node.children.toList inner) (hrest : o.Visits rest after) :
      o.Visits (i :: rest) (i :: (inner ++ after))

/-! ### Well-formed arenas -/

/-- The first node is the only root, every other node comes after its parent, and the children of a node are the nodes
with that parent, each once and in order. -/
structure WellFormed (o : Outline) : Prop where
  root : ∃ children, o.nodes[0]? = some { kind := .root, label := some "root", children }
  parent : ∀ {i : Nat} {node : OutlineNode}, o.nodes[i]? = some node → 0 < i →
    node.kind ≠ .root ∧ ∃ p < i, node.parent = some (p : Int)
  children : ∀ {p : Nat} {node : OutlineNode}, o.nodes[p]? = some node → ∀ i,
    node.children.toList.count i = if (o.nodes[i]?).bind OutlineNode.parent = some (p : Int) then 1 else 0
  order : ∀ {p : Nat} {node : OutlineNode}, o.nodes[p]? = some node → node.children.toList.Pairwise (· < ·)

theorem getElem?_nodes_default (h : ({} : Outline).nodes[i]? = some node) :
    i = 0 ∧ node = { kind := .root, label := some "root" } := by
  obtain ⟨hi, hnode⟩ := Array.getElem?_eq_some_iff.1 h
  obtain rfl : i = 0 := Nat.lt_one_iff.1 hi
  exact ⟨rfl, hnode.symm⟩

/-- The arena of the root alone. -/
theorem wellFormed_default : ({} : Outline).WellFormed where
  root := ⟨#[], rfl⟩
  parent hi hpos := by
    obtain ⟨rfl, -⟩ := getElem?_nodes_default hi
    exact absurd hpos (Nat.lt_irrefl 0)
  children {p node} hp i := by
    obtain ⟨rfl, rfl⟩ := getElem?_nodes_default hp
    cases i with
    | zero => rfl
    | succ i => rfl
  order hp := by
    obtain ⟨-, rfl⟩ := getElem?_nodes_default hp
    exact .nil

theorem WellFormed.size_pos (h : o.WellFormed) : 0 < o.nodes.size := by
  obtain ⟨_, hroot⟩ := h.root
  exact (Array.getElem?_eq_some_iff.1 hroot).1

/-- The children of a node are places of the arena. -/
theorem WellFormed.lt_size_of_mem (h : o.WellFormed) (hp : o.nodes[p]? = some node) (hi : i ∈ node.children.toList) :
    i < o.nodes.size := by
  by_contra hlt
  have hcount := h.children hp i
  rw [getElem?_nodes_eq_none (Nat.not_lt.1 hlt)] at hcount
  exact absurd hi (List.count_eq_zero.1 hcount)

/-- From every node there is one way up to the root. -/
theorem WellFormed.existsUnique_ancestors (h : o.WellFormed) (hi : i < o.nodes.size) :
    ∃! outer, o.Ancestors i outer := by
  obtain ⟨_, hroot⟩ := h.root
  -- the parent of a node comes before it
  induction i using Nat.strongRecOn with
  | _ i ih =>
  rcases Nat.eq_zero_or_pos i with rfl | hpos
  · refine ⟨[], .root, fun outer houter => ?_⟩
    cases houter with
    | root => rfl
    | step hi hparent =>
      obtain rfl := Option.some.inj (hroot.symm.trans hi)
      simp at hparent
  · have hnode := Array.getElem?_eq_getElem hi
    obtain ⟨-, p, hp, hparent⟩ := h.parent hnode hpos
    obtain ⟨outer, houter, hunique⟩ := ih p hp (by omega)
    refine ⟨p :: outer, .step hnode hparent houter, fun outer' houter' => ?_⟩
    cases houter' with
    | root => exact absurd hpos (Nat.lt_irrefl 0)
    | step hi' hparent' houter' =>
      obtain rfl := Option.some.inj (hnode.symm.trans hi')
      obtain rfl := Int.ofNat.inj (Option.some.inj (hparent.symm.trans hparent'))
      rw [hunique _ houter']

/-- No node names a place outside the arena as its parent. -/
theorem WellFormed.bind_parent_ne (h : o.WellFormed) (i : Nat) :
    (o.nodes[i]?).bind OutlineNode.parent ≠ some (o.nodes.size : Int) := by
  intro hbind
  obtain ⟨node, hi, hparent⟩ := Option.bind_eq_some_iff.1 hbind
  obtain ⟨hlt, -⟩ := Array.getElem?_eq_some_iff.1 hi
  rcases Nat.eq_zero_or_pos i with rfl | hpos
  · obtain ⟨_, hroot⟩ := h.root
    rw [hroot] at hi
    obtain rfl := Option.some.inj hi
    simp at hparent
  · obtain ⟨-, q, hq, hparent'⟩ := h.parent hi hpos
    rw [hparent'] at hparent
    have := Option.some.inj hparent
    omega

/-- A node of the grown arena is the new one or an old one, with a child more if the new node is its child. -/
theorem node_add_cases (hp : p < o.nodes.size) (hparent : node.parent = some (p : Int)) {n : OutlineNode}
    (hi : (o.add node).2.nodes[i]? = some n) :
    (i = o.nodes.size ∧ n = node) ∨ (i ≠ o.nodes.size ∧ ∃ old, o.nodes[i]? = some old ∧
      n = if i = p then { old with children := old.children.push o.nodes.size } else old) := by
  rw [getElem?_nodes_add hp hparent] at hi
  split at hi
  · rename_i hsize
    exact .inl ⟨hsize, (Option.some.inj hi).symm⟩
  · rename_i hsize
    obtain ⟨old, hold, hn⟩ := Option.map_eq_some_iff.1 hi
    exact .inr ⟨hsize, old, hold, hn.symm⟩

/-- A new node below a node of the arena leaves the arena well-formed. -/
theorem WellFormed.add (h : o.WellFormed) (hp : p < o.nodes.size) (hparent : node.parent = some (p : Int))
    (hkind : node.kind ≠ .root) (hchildren : node.children = #[]) : (o.add node).2.WellFormed := by
  have hparents (i : Nat) : ((o.add node).2.nodes[i]?).bind OutlineNode.parent =
      if i = o.nodes.size then some (p : Int) else (o.nodes[i]?).bind OutlineNode.parent := by
    rw [getElem?_nodes_add hp hparent]
    split
    · exact hparent
    · cases o.nodes[i]? with
      | none => rfl
      | some old =>
        rw [Option.map_some, Option.bind_some, Option.bind_some]
        split <;> rfl
  have hnone : o.nodes[o.nodes.size]? = none := getElem?_nodes_eq_none (Nat.le_refl _)
  constructor
  case root =>
    obtain ⟨children, hroot⟩ := h.root
    rw [getElem?_nodes_add hp hparent, if_neg (Nat.ne_of_lt h.size_pos), hroot, Option.map_some]
    split
    · exact ⟨_, rfl⟩
    · exact ⟨_, rfl⟩
  case parent =>
    intro i n hi hpos
    rcases node_add_cases hp hparent hi with ⟨rfl, rfl⟩ | ⟨-, old, hold, rfl⟩
    · exact ⟨hkind, p, hp, hparent⟩
    · have := h.parent hold hpos
      split <;> exact this
  case children =>
    intro q n hq i
    rw [hparents]
    rcases node_add_cases hp hparent hq with ⟨rfl, rfl⟩ | ⟨hq', old, hold, rfl⟩
    · -- nobody has the new node as its parent yet
      rw [hchildren, List.count_nil, if_neg]
      split
      · intro heq
        have := Option.some.inj heq
        omega
      · exact h.bind_parent_ne i
    · have hcount := h.children hold i
      by_cases hi : i = o.nodes.size
      · subst hi
        rw [hnone, Option.bind_none, if_neg (by simp)] at hcount
        by_cases hqp : q = p
        · subst hqp
          simp [hcount]
        · have hne : (p : Int) ≠ q := by omega
          simp [hqp, hne, hcount]
      · rw [if_neg hi, ← hcount]
        split
        · simp [Ne.symm hi]
        · rfl
  case order =>
    intro q n hq
    rcases node_add_cases hp hparent hq with ⟨-, rfl⟩ | ⟨-, old, hold, rfl⟩
    · rw [hchildren]
      exact .nil
    · have hold' := h.order hold
      split
      · rw [Array.toList_push, List.pairwise_append]
        exact ⟨hold', List.pairwise_singleton _ _, fun i hi j hj => by
          rw [List.mem_singleton.1 hj]
          exact h.lt_size_of_mem hold hi⟩
      · exact hold'

end Outline

end Semblance

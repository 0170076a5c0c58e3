import Mathlib.Order.MinMax
import Semblance.Proofs.Outline.Brackets

/-!
# How deep outlines are nested

The height of a forest is the number of its levels.  In an arena that holds the forest, a node lies at each of these
levels and none lies deeper (`Holds.exists_ancestors_iff`).  As a node lies in as many blocks as brackets are open
before its token, the outline of a token list is higher than a bound exactly if a node starts inside more open brackets
(`lt_height_iff`).
-/

namespace Semblance

/-- The number of levels on which a forest has nodes. -/
def Forest.height : Forest → Nat
  | nil => 0
  | statement _ rest => max 1 rest.height
  | block _ _ inner rest => max (inner.height + 1) rest.height

theorem Forest.height_eq_zero_iff {f : Forest} : f.height = 0 ↔ f = .nil := by
  cases f <;> simp [height]

namespace Outline

variable {o : Outline} {parent start : Nat} {outer : List Nat} {f : Forest}

/-- A forest has a node at each level below its height. -/
theorem Holds.exists_ancestors (h : o.Holds parent start f) (hp : o.Ancestors parent outer) {k : Nat}
    (hk : k < f.height) : ∃ i, start ≤ i ∧ i < start + f.size ∧
      ∃ around, o.Ancestors i around ∧ around.length = outer.length + k + 1 := by
  induction f generalizing parent start outer k with
  | nil => exact absurd hk (Nat.not_lt_zero k)
  | statement label rest ih =>
    obtain ⟨hnode, hrest⟩ := h
    rw [Forest.height, lt_max_iff] at hk
    rw [Forest.size]
    rcases hk with hk | hk
    · obtain rfl := Nat.lt_one_iff.1 hk
      exact ⟨start, Nat.le_refl _, by omega, _, .step hnode rfl hp, rfl⟩
    · obtain ⟨i, hi, hi', hdeep⟩ := ih hrest hp hk
      exact ⟨i, by omega, by omega, hdeep⟩
  | block label delimiter inner rest ihinner ihrest =>
    obtain ⟨hnode, hinner, hrest⟩ := h
    have hstart : o.Ancestors start (parent :: outer) := .step hnode rfl hp
    rw [Forest.height, lt_max_iff] at hk
    rw [Forest.size]
    rcases hk with hk | hk
    · cases k with
      | zero => exact ⟨start, Nat.le_refl _, by omega, _, hstart, rfl⟩
      | succ k =>
        obtain ⟨i, hi, hi', around, haround, hlength⟩ := ihinner hinner hstart (Nat.lt_of_succ_lt_succ hk)
        rw [List.length_cons] at hlength
        exact ⟨i, by omega, by omega, around, haround, by omega⟩
    · obtain ⟨i, hi, hi', hdeep⟩ := ihrest hrest hp hk
      exact ⟨i, by omega, by omega, hdeep⟩

/-- No node of a forest lies deeper than its height. -/
theorem Holds.ancestors_le (h : o.Holds parent start f) (hp : o.Ancestors parent outer) {i : Nat} (hi : start ≤ i)
    (hi' : i < start + f.size) : ∃ around, o.Ancestors i around ∧ around.length ≤ outer.length + f.height := by
  induction f generalizing parent start outer with
  | nil => exact absurd hi' (by rw [Forest.size]; omega)
  | statement label rest ih =>
    obtain ⟨hnode, hrest⟩ := h
    rw [Forest.size] at hi'
    rw [Forest.height]
    by_cases hstart : i = start
    · subst hstart
      exact ⟨_, .step hnode rfl hp, by rw [List.length_cons]; omega⟩
    · obtain ⟨around, haround, hlength⟩ := ih hrest hp (by omega) (by omega)
      exact ⟨around, haround, by omega⟩
  | block label delimiter inner rest ihinner ihrest =>
    obtain ⟨hnode, hinner, hrest⟩ := h
    have hblock : o.Ancestors start (parent :: outer) := .step hnode rfl hp
    rw [Forest.size] at hi'
    rw [Forest.height]
    by_cases hstart : i = start
    · subst hstart
      exact ⟨_, hblock, by rw [List.length_cons]; omega⟩
    · by_cases hinside : i < start + 1 + inner.size
      · obtain ⟨around, haround, hlength⟩ := ihinner hinner hblock (by omega) hinside
        rw [List.length_cons] at hlength
        exact ⟨around, haround, by omega⟩
      · obtain ⟨around, haround, hlength⟩ := ihrest hrest hp (by omega) (by omega)
        exact ⟨around, haround, by omega⟩

/-- A forest is higher than `k` levels exactly if one of its nodes lies deeper than that. -/
theorem exists_deeper_iff (f : Forest) (k : Nat) :
    (∃ i around, 0 < i ∧ (ofForest f).Ancestors i around ∧ k < around.length) ↔ k < f.height := by
  have hwell := wellFormed_ofForest f
  have hsize := size_nodes_ofForest f
  constructor
  · rintro ⟨i, around, hpos, haround, hk⟩
    have hi := haround.lt_size (by omega)
    obtain ⟨around', haround', hlength⟩ := (holds_ofForest f).ancestors_le .root hpos (by omega)
    obtain rfl := (hwell.existsUnique_ancestors hi).unique haround haround'
    rw [List.length_nil, Nat.zero_add] at hlength
    omega
  · intro hk
    obtain ⟨i, hi, -, around, haround, hlength⟩ := (holds_ofForest f).exists_ancestors .root hk
    exact ⟨i, around, hi, haround, by rw [hlength]; omega⟩

/-- The outline of a token list is higher than one level for each of `k` brackets exactly if a node starts inside more
than `k` open brackets. -/
theorem lt_height_iff {tokens : List Token} (hf : ofTokens tokens = ofForest f) (k : Nat) :
    k + 1 < f.height ↔ ∃ focus ∈ nodeSources [] tokens, k < bracketDepth focus.before := by
  have hsources := comesFrom_ofTokens tokens
  have hwell := wellFormed_ofForest f
  have hsize := size_nodes_ofForest f
  rw [hf] at hsources
  have hlength : (ofForest f).length = f.size := by rw [Outline.length, hsize, Nat.add_sub_cancel]
  rw [hlength] at hsources
  rw [← exists_deeper_iff f (k + 1)]
  constructor
  · rintro ⟨i, around, hpos, haround, hk⟩
    have hi := haround.lt_size (by omega)
    have hmem : i ∈ List.range' 1 f.size := List.mem_range'_1.2 ⟨hpos, by omega⟩
    obtain ⟨j, hj, rfl⟩ := List.getElem_of_mem hmem
    have hj' : j < (nodeSources [] tokens).length := hsources.length_eq ▸ hj
    obtain ⟨node, -, -, outer, houter, hdepth⟩ := hsources.get hj hj'
    obtain rfl := (hwell.existsUnique_ancestors hi).unique haround houter
    exact ⟨_, List.getElem_mem hj', Nat.lt_of_succ_lt_succ (hk.trans_eq hdepth)⟩
  · rintro ⟨focus, hmem, hk⟩
    obtain ⟨j, hj, rfl⟩ := List.getElem_of_mem hmem
    have hj' : j < (List.range' 1 f.size).length := hsources.length_eq ▸ hj
    obtain ⟨node, -, -, outer, houter, hdepth⟩ := hsources.get hj' hj
    refine ⟨_, outer, ?_, houter, hdepth ▸ Nat.succ_lt_succ hk⟩
    rw [List.get_eq_getElem, List.getElem_range']
    omega

end Outline

end Semblance

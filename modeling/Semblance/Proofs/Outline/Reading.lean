import Semblance.Proofs.Outline.Nesting
import Semblance.Text.Lines

/-!
# Reading outlines

The text of an outline tells the outline: `Outline.ofText` reads the lines one by one and gives back the arena that
the text was made from (`ofText_text`), so two programs with the same text have the same outline.

The text of a forest is a list of lines (`Forest.lines`), and a reader needs no indents, since the line that closes a
block cannot be taken for a label.  `childLines_of_holds` finds these lines in an arena that holds the forest, and
`addLines_lines` reads them back, whatever lines come after.
-/

namespace Semblance

/-! ### The reader -/

/-- What a line of the text of an outline stands for. -/
inductive OutlineLine where
  | opening (label delimiter : String)
  | closing
  | statement (label : String)
  | empty
  deriving DecidableEq, Repr

/-- Reads a line, of which the indent is passed over. -/
def OutlineLine.ofChars (line : List Char) : OutlineLine :=
  let words := line.dropWhile (· = ' ')
  let label := String.ofList (words.takeWhile (· ≠ ' '))
  match words.dropWhile (· ≠ ' ') with
  | _ :: delimiter => opening label (String.ofList delimiter)
  | [] =>
    if label ∈ ["\x7d", ")", "]"] then closing
    else if label = "(empty)" then empty
    else statement label

namespace Outline

/-- Adds the nodes that the lines stand for inside the block `current`, which lies in the blocks `outer`. -/
def addLines (o : Outline) (current : Nat) (outer : List Nat) : List OutlineLine → Outline
  | [] => o
  | .opening label delimiter :: rest =>
    addLines (o.add (.block label delimiter current)).2 o.nodes.size (current :: outer) rest
  | .closing :: rest =>
    match outer with
    | [] => addLines o current [] rest
    | next :: others => addLines o next others rest
  | .statement label :: rest => addLines (o.add (.statement label current)).2 current outer rest
  | .empty :: rest => addLines o current outer rest

/-- The outline with a text. -/
def ofText (text : String) : Outline :=
  addLines {} 0 [] ((Text.lines text.toList).map OutlineLine.ofChars)

end Outline

/-! ### The lines of a forest -/

/-- The delimiter that closes what the opening one opens. -/
def Delimiter.closing (delimiter : Delimiter) : String :=
  (closingDelimiter? delimiter.1).get delimiter.2

namespace Forest

/-- The lines of a forest at a level. -/
def lines (indent : Int) : Forest → List String
  | nil => []
  | statement label rest => (Outline.pad indent ++ label.1) :: lines indent rest
  | block label delimiter inner rest =>
    (Outline.pad indent ++ label.1 ++ " " ++ delimiter.1) ::
      (lines (indent + 1) inner ++ (Outline.pad indent ++ delimiter.closing) :: lines indent rest)

def text : Forest → String
  | nil => "(empty)"
  | f => "\n".intercalate (f.lines 0)

theorem text_eq {f : Forest} (h : f ≠ nil) : f.text = "\n".intercalate (f.lines 0) := by
  cases f with
  | nil => exact absurd rfl h
  | statement label rest => rfl
  | block label delimiter inner rest => rfl

end Forest

namespace Outline

variable {o : Outline} {parent start : Nat}

theorem roots_eq_nil {f : Forest} (h : f.roots start = []) : f = .nil := by
  cases f with
  | nil => rfl
  | statement label rest => exact absurd h (List.cons_ne_nil _ _)
  | block label delimiter inner rest => exact absurd h (List.cons_ne_nil _ _)

theorem placeLines_statement {below : OutlineNode → Except OutlineError (List String)} {label : String}
    (indent : Int) (hnode : o.nodes[start]? = some (.statement label parent)) :
    o.placeLines indent below start = .ok [pad indent ++ label] := by
  rw [placeLines, node?_natCast hnode]
  rfl

/-- A block has the lines below it, if it shows any, between a line for its opening and one for its closing. -/
theorem placeLines_block {below : OutlineNode → Except OutlineError (List String)} {label : String}
    {delimiter : Delimiter} {node : OutlineNode} {children : Array Nat} (indent : Int)
    (hnode : o.nodes[start]? = some node)
    (hblock : node = { OutlineNode.block label delimiter.1 parent with children := children }) :
    o.placeLines indent below start = (if children = #[] then .ok [] else below node).map fun inner =>
      (pad indent ++ label ++ " " ++ delimiter.1) :: inner ++ [pad indent ++ delimiter.closing] := by
  have hclosing : closingDelimiter? delimiter.1 = some delimiter.closing := (Option.some_get _).symm
  have hentry (inner : List String) : entryLines (pad indent) node inner =
      .ok ((pad indent ++ label ++ " " ++ delimiter.1) :: inner ++ [pad indent ++ delimiter.closing]) := by
    simp [entryLines, hblock, OutlineNode.block, hclosing]
  have hkind : node.kind = .block := by rw [hblock]; rfl
  have hchildren : node.children = children := by rw [hblock]
  rw [placeLines, node?_natCast hnode]
  simp only [bind, Except.bind, hkind, hchildren, hentry, decide_true, Bool.true_and, Bool.not_eq_true',
    Array.isEmpty_eq_false_iff, ne_eq, ite_not]
  split
  · rfl
  · cases below node <;> rfl

theorem map_flatten_mapM_cons {α β ε : Type} (f : α → Except ε (List β)) (x : α) (xs : List α) :
    ((x :: xs).mapM f).map List.flatten =
      (f x).bind fun ys => ((xs.mapM f).map List.flatten).map fun zs => ys ++ zs := by
  rw [List.mapM_cons]
  cases f x with
  | error e => rfl
  | ok ys => cases xs.mapM f <;> rfl

theorem childLines_succ (o : Outline) (indent : Int) (node : OutlineNode) (depth : Nat) :
    o.childLines indent node (depth + 1) =
      (node.children.toList.mapM (o.placeLines indent fun child => o.childLines (indent + 1) child depth)).map
        List.flatten := by
  rw [childLines]
  cases node.children.toList.mapM (o.placeLines indent fun child => o.childLines (indent + 1) child depth) <;> rfl

/-- A level of the tree shows the lines of the forest that the arena holds there, if enough calls can be nested for the
levels of the forest. -/
theorem mapM_placeLines (f : Forest) (indent : Int) (depth : Nat) (h : o.Holds parent start f) :
    ((f.roots start).mapM (o.placeLines indent fun child => o.childLines (indent + 1) child depth)).map List.flatten =
      if f.height ≤ depth + 1 then .ok (f.lines indent) else .error .tooDeep := by
  induction f generalizing parent start indent depth with
  | nil => rfl
  | statement label rest ih =>
    obtain ⟨hnode, hrest⟩ := h
    rw [Forest.roots, map_flatten_mapM_cons, placeLines_statement indent hnode, ih indent depth hrest]
    simp only [Forest.height, Nat.max_le, Nat.le_add_left, true_and]
    split <;> rfl
  | block label delimiter inner rest ihinner ihrest =>
    obtain ⟨hnode, hinner, hrest⟩ := h
    -- only a block with something inside takes a call
    have hbelow (node : OutlineNode) (hchildren : node.children = (inner.roots (start + 1)).toArray) :
        (if (inner.roots (start + 1)).toArray = #[] then .ok [] else o.childLines (indent + 1) node depth) =
          if inner.height ≤ depth then .ok (inner.lines (indent + 1)) else .error .tooDeep := by
      by_cases hroots : inner.roots (start + 1) = []
      · obtain rfl := roots_eq_nil hroots
        rfl
      · rw [if_neg (by simpa using hroots)]
        cases depth with
        | zero =>
          have hheight : inner.height ≠ 0 := by
            rw [Ne, Forest.height_eq_zero_iff]
            rintro rfl
            exact hroots rfl
          rw [if_neg (by omega)]
          rfl
        | succ depth => rw [childLines_succ, hchildren, ihinner (indent + 1) depth hinner]
    rw [Forest.roots, map_flatten_mapM_cons, placeLines_block indent hnode rfl, hbelow _ rfl,
      ihrest indent depth hrest]
    simp only [Forest.height, Nat.max_le, Nat.add_le_add_iff_right, Forest.lines]
    by_cases hfits : inner.height ≤ depth
    · by_cases hafter : rest.height ≤ depth + 1
      · simp [hfits, hafter, Except.map, Except.bind]
      · simp [hfits, hafter, Except.map, Except.bind]
    · simp [hfits, Except.map, Except.bind]

/-! ### Writing and reading -/

/-- The outline of a forest is written if enough calls can be nested for the levels of the forest. -/
theorem render?_ofForest (f : Forest) (depth : Nat) : (ofForest f).render? depth 0 0 =
    if f.height ≤ depth + 1 then .ok f.text else .error .tooDeep := by
  have hroot := getElem?_ofForest_zero f
  have hlines : (ofForest f).childLines 0 { kind := .root, label := some "root", children := (f.roots 1).toArray }
      (depth + 1) = if f.height ≤ depth + 1 then .ok (f.lines 0) else .error .tooDeep := by
    rw [childLines_succ]
    exact mapM_placeLines f 0 depth (holds_ofForest f)
  have hindent : checkIndent 0 = .ok () := rfl
  rw [render?, ← Int.natCast_zero, node?_natCast hroot]
  by_cases hnil : f = .nil
  · subst hnil
    rfl
  · have hroots : (f.roots 1).isEmpty = false := by
      rw [List.isEmpty_eq_false_iff]
      exact fun h => hnil (roots_eq_nil h)
    simp only [bind, Except.bind, Int.natCast_zero, hlines, hindent, List.isEmpty_toArray, hroots, Bool.false_eq_true,
      if_false, Forest.text_eq hnil]
    by_cases hfits : f.height ≤ depth + 1 <;> simp [hfits, pure, Except.pure]

end Outline

theorem Delimiter.mem (delimiter : Delimiter) : delimiter.1 ∈ ["\x7b", "(", "["] := by
  obtain ⟨delimiter, hsome⟩ := delimiter
  unfold closingDelimiter? at hsome
  split at hsome
  · simp_all
  · split at hsome
    · simp_all
    · split at hsome
      · simp_all
      · simp at hsome

theorem Delimiter.closing_mem (delimiter : Delimiter) : delimiter.closing ∈ ["\x7d", ")", "]"] := by
  have hclosing : closingDelimiter? delimiter.1 = some delimiter.closing := (Option.some_get _).symm
  have hmem := delimiter.mem
  simp only [List.mem_cons, List.not_mem_nil, or_false] at hmem
  rcases hmem with h | h | h
  all_goals
    rw [h] at hclosing
    rw [← Option.some.inj hclosing]
    decide

namespace OutlineLine

theorem ofChars_pad (indent : Int) (line : String) :
    ofChars (Outline.pad indent ++ line).toList = ofChars line.toList := by
  have hdrop (n : Nat) : (List.replicate n ' ' ++ line.toList).dropWhile (· = ' ') =
      line.toList.dropWhile (· = ' ') := by
    induction n with
    | zero => rfl
    | succ n ih => rw [List.replicate_succ, List.cons_append, List.dropWhile_cons_of_pos rfl, ih]
  rw [Outline.pad, String.toList_append, String.toList_ofList, ofChars, ofChars, hdrop]

theorem ofChars_label (label : Label) : ofChars label.1.toList = .statement label.1 := by
  have h : ∀ l ∈ "block" :: outlineKeywords, ofChars l.toList = .statement l := by decide
  exact h _ label.2

theorem ofChars_opening (label : Label) (delimiter : Delimiter) :
    ofChars (label.1 ++ " " ++ delimiter.1).toList = .opening label.1 delimiter.1 := by
  have h : ∀ l ∈ "block" :: outlineKeywords, ∀ d ∈ ["\x7b", "(", "["],
      ofChars (l ++ " " ++ d).toList = .opening l d := by decide
  exact h _ label.2 _ delimiter.mem

theorem ofChars_closing (delimiter : Delimiter) : ofChars delimiter.closing.toList = .closing := by
  have h : ∀ d ∈ ["\x7d", ")", "]"], ofChars d.toList = .closing := by decide
  exact h _ delimiter.closing_mem

end OutlineLine

namespace Outline

theorem addLines_lines (f : Forest) (indent : Int) (o : Outline) (current : Nat) (outer : List Nat)
    (rest : List OutlineLine) :
    addLines o current outer ((f.lines indent).map (OutlineLine.ofChars ·.toList) ++ rest) =
      addLines (o.addForest current f) current outer rest := by
  induction f generalizing indent o current outer rest with
  | nil => rfl
  | statement label after ih =>
    rw [Forest.lines, List.map_cons, List.cons_append, OutlineLine.ofChars_pad, OutlineLine.ofChars_label, addLines, ih]
    rfl
  | block label delimiter inner after ihinner ihafter =>
    -- the closing line takes the reader out of the block, so the lines after it are read in `current` again
    rw [Forest.lines, List.map_cons, List.map_append, List.map_cons, String.append_assoc, String.append_assoc,
      OutlineLine.ofChars_pad, OutlineLine.ofChars_pad, ← String.append_assoc, OutlineLine.ofChars_opening,
      OutlineLine.ofChars_closing, List.cons_append, List.append_assoc, addLines, ihinner, List.cons_append, addLines,
      ihafter]
    rfl

end Outline

/-! ### The lines of a text -/

theorem isLine_pad {line : String} (h : Text.IsLine line.toList) (indent : Int) :
    Text.IsLine (Outline.pad indent ++ line).toList := by
  obtain ⟨hne, hbreak⟩ := h
  rw [Outline.pad, String.toList_append, String.toList_ofList]
  refine ⟨List.append_ne_nil_of_right_ne_nil _ hne, fun c hc => ?_⟩
  rcases List.mem_append.1 hc with hspace | hc
  · rw [List.eq_of_mem_replicate hspace]
    decide
  · exact hbreak c hc

theorem isLine_of_mem_lines {f : Forest} {indent : Int} {line : String} (h : line ∈ f.lines indent) :
    Text.IsLine line.toList := by
  have hlabel : ∀ l ∈ "block" :: outlineKeywords, Text.IsLine l.toList := by decide
  have hopening : ∀ l ∈ "block" :: outlineKeywords, ∀ d ∈ ["\x7b", "(", "["],
      Text.IsLine (l ++ (" " ++ d)).toList := by decide
  have hclosing : ∀ d ∈ ["\x7d", ")", "]"], Text.IsLine d.toList := by decide
  induction f generalizing indent with
  | nil => exact absurd h List.not_mem_nil
  | statement label rest ih =>
    rcases List.mem_cons.1 h with rfl | h
    · exact isLine_pad (hlabel _ label.2) indent
    · exact ih h
  | block label delimiter inner rest ihinner ihrest =>
    rcases List.mem_cons.1 h with rfl | h
    · rw [String.append_assoc, String.append_assoc]
      exact isLine_pad (hopening _ label.2 _ delimiter.mem) indent
    · rcases List.mem_append.1 h with h | h
      · exact ihinner h
      · rcases List.mem_cons.1 h with rfl | h
        · exact isLine_pad (hclosing _ delimiter.closing_mem) indent
        · exact ihrest h

theorem lines_text {f : Forest} (h : f ≠ .nil) : Text.lines f.text.toList = (f.lines 0).map String.toList := by
  rw [Forest.text_eq h, String.toList_intercalate]
  refine Text.lines_intercalate fun chars hchars => ?_
  obtain ⟨line, hline, rfl⟩ := List.mem_map.1 hchars
  exact isLine_of_mem_lines hline

namespace Outline

theorem ofText_text (f : Forest) : ofText f.text = ofForest f := by
  by_cases hf : f = .nil
  · subst hf
    decide
  · have hread := addLines_lines f 0 {} 0 [] []
    rw [List.append_nil] at hread
    rw [ofText, lines_text hf, List.map_map]
    exact hread

/-- An outline cannot be written exactly if one of its nodes starts inside more open brackets than calls can be
nested. -/
theorem render?_eq_tooDeep_iff (tokens : List Token) (depth : Nat) :
    (ofTokens tokens).render? depth 0 0 = .error .tooDeep ↔
      ∃ focus ∈ nodeSources [] tokens, depth < bracketDepth focus.before := by
  obtain ⟨f, hf⟩ := exists_ofTokens_eq tokens
  rw [← lt_height_iff hf, hf, render?_ofForest]
  split
  · rename_i hfits
    simpa using hfits
  · rename_i hdeep
    simpa using hdeep

/-- The text of a forest tells its outline. -/
theorem text_eq_iff {f g : Forest} : f.text = g.text ↔ ofForest f = ofForest g := by
  constructor
  · intro h
    rw [← ofText_text f, h, ofText_text]
  · intro h
    have hf := render?_ofForest f (f.height + g.height)
    have hg := render?_ofForest g (f.height + g.height)
    rw [if_pos (by omega)] at hf hg
    exact Except.ok.inj (hf.symm.trans (h ▸ hg))

/-- The text that is written is that of the forest, however many calls there are. -/
theorem eq_text_of_render? {tokens : List Token} {f : Forest} (hf : ofTokens tokens = ofForest f) {depth : Nat}
    {text : String} (h : (ofTokens tokens).render? depth 0 0 = .ok text) : text = f.text := by
  rw [hf, render?_ofForest] at h
  split at h
  · exact (Except.ok.inj h).symm
  · contradiction

/-- The outline of a token list is written unless one of its nodes starts inside more open brackets than calls can be
nested, and there is no other error.  What is written can be read back, so two outlines that are written have the same
text only if they are the same. -/
theorem render?_ofTokens_lossless (s t : List Token) (depth depth' : Nat) :
    ((ofTokens s).render? depth 0 0 = .error .tooDeep ↔
      ∃ focus ∈ nodeSources [] s, depth < bracketDepth focus.before) ∧
    (∀ e, (ofTokens s).render? depth 0 0 = .error e → e = .tooDeep) ∧
    (∀ text, (ofTokens s).render? depth 0 0 = .ok text → ofText text = ofTokens s) ∧
    ∀ text text', (ofTokens s).render? depth 0 0 = .ok text → (ofTokens t).render? depth' 0 0 = .ok text' →
      (text = text' ↔ ofTokens s = ofTokens t) := by
  obtain ⟨f, hf⟩ := exists_ofTokens_eq s
  obtain ⟨g, hg⟩ := exists_ofTokens_eq t
  refine ⟨render?_eq_tooDeep_iff s depth, fun e he => ?_, fun text htext => ?_, fun text text' htext htext' => ?_⟩
  · rw [hf, render?_ofForest] at he
    split at he
    · contradiction
    · exact (Except.error.inj he).symm
  · rw [eq_text_of_render? hf htext, ofText_text, hf]
  · rw [eq_text_of_render? hf htext, eq_text_of_render? hg htext', hf, hg, text_eq_iff]

/-! ### Open braces -/

theorem bracketDepth_replicate (n : Nat) : bracketDepth (List.replicate n ⟨.punctuation, "\x7b"⟩) = n := by
  induction n with
  | zero => rfl
  | succ n ih => rw [List.replicate_succ', bracketDepth_concat, if_pos (by decide), ih]

/-- Braces that are not closed are too deep for a number of calls if there are more than one for each call. -/
theorem render?_eq_tooDeep_of_lt {n depth : Nat} (h : depth + 1 < n) :
    (ofTokens (List.replicate n ⟨.punctuation, "\x7b"⟩)).render? depth 0 0 = .error .tooDeep := by
  obtain ⟨more, rfl⟩ := Nat.exists_eq_add_of_lt h
  rw [render?_eq_tooDeep_iff]
  refine ⟨⟨List.replicate (depth + 1) ⟨.punctuation, "\x7b"⟩, ⟨.punctuation, "\x7b"⟩,
    List.replicate more ⟨.punctuation, "\x7b"⟩⟩, List.mem_filter.2 ⟨?_, rfl⟩, ?_⟩
  · rw [mem_focuses]
    refine ⟨_, (List.nil_append _).symm, ?_⟩
    rw [← List.replicate_succ, List.replicate_append_replicate]
    rfl
  · rw [bracketDepth_replicate]
    exact Nat.lt_succ_self depth

/-- A program of `1200` opening braces is too deep for `1000` calls. -/
theorem render?_eq_tooDeep_braces :
    (ofTokens (List.replicate 1200 ⟨.punctuation, "\x7b"⟩)).render? 1000 0 0 = .error .tooDeep :=
  render?_eq_tooDeep_of_lt (by decide)

end Outline

end Semblance

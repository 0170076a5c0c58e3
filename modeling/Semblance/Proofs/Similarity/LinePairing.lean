import Mathlib.Data.List.Basic
import Semblance.Proofs.Text.Words
import Semblance.Similarity.SharedLines

/-!
# The pairing of shared lines

Seen from one line `c`, pairing is a zip: the numbers at which `c` stands in the first text meet those at which it
stands in the second, the first with the first and so on, until either side runs out (`filter_sharedLines`).  Lines
that differ from `c` neither take its numbers nor give them back.  All pairs together are in the order of the first
text, and no line of the second text is used twice (`sharedLines_pairing`).

What it means that a text has the line `c` at a number (`HasLine`) is also said by its lines and their words
(`hasLine_iff`).
-/

namespace Semblance

/-- A text has the significant line `c` at the number `n`. -/
def HasLine (text c : String) (n : Nat) : Prop :=
  1 ≤ n ∧ (∃ raw, (Text.lines text.toList)[n - 1]? = some raw ∧ Text.normalize (String.ofList raw) = c) ∧
    12 ≤ c.length ∧ ∃ t ∈ tokenize c, t.kind = .identifier ∨ t.kind = .keyword

/-- The numbers at which a text has the significant line `c`, in order. -/
def lineNumbers (text c : String) : List Nat :=
  ((significantLines text).filter (·.2 = c)).map (·.1)

/-- The pair of two equal lines. -/
def SharedLine.exact (c : String) (m n : Nat) : SharedLine :=
  ⟨m, n, c, some "EXACT"⟩

/-- The line at the number `n`, with its words one space apart, is `c`. -/
theorem hasLine_iff {text c : String} {n : Nat} :
    HasLine text c n ↔
      1 ≤ n ∧ (∃ ls raw words, Text.HasLines text.toList ls ∧ ls[n - 1]? = some raw ∧ Text.HasWords raw words ∧
          c.toList = [' '].intercalate words) ∧
        12 ≤ c.length ∧ ∃ t ∈ tokenize c, t.kind = .identifier ∨ t.kind = .keyword := by
  have hnormal {raw : List Char} {words : List (List Char)} (h : Text.HasWords raw words) :
      (Text.normalize (String.ofList raw)).toList = [' '].intercalate words :=
    Text.toList_normalize (by rwa [String.toList_ofList])
  constructor
  · rintro ⟨hn, ⟨raw, hraw, rfl⟩, hsignificant⟩
    obtain ⟨words, hwords⟩ := Text.exists_hasWords raw
    exact ⟨hn, ⟨_, raw, words, Text.hasLines_lines text.toList, hraw, hwords, hnormal hwords⟩, hsignificant⟩
  · rintro ⟨hn, ⟨ls, raw, words, hls, hraw, hwords, hc⟩, hsignificant⟩
    obtain rfl := Text.hasLines_iff.1 hls
    exact ⟨hn, ⟨raw, hraw, String.toList_injective ((hnormal hwords).trans hc.symm)⟩, hsignificant⟩

/-! ### Significant lines -/

theorem isSignificant_iff {c : String} :
    isSignificant c ↔ 12 ≤ c.length ∧ ∃ t ∈ tokenize c, t.kind = .identifier ∨ t.kind = .keyword := by
  simp [isSignificant, Token.isWord]

theorem mem_significantLines {text c : String} {n : Nat} : (n, c) ∈ significantLines text ↔ HasLine text c n := by
  rw [significantLines, List.mem_filterMap]
  constructor
  · rintro ⟨⟨raw, number⟩, hmem, h⟩
    rw [List.mk_mem_zipIdx_iff_le_and_getElem?_sub] at hmem
    obtain ⟨hle, hraw⟩ := hmem
    dsimp only at h
    split at h
    · rename_i hs
      obtain ⟨rfl, rfl⟩ : number = n ∧ Text.normalize (String.ofList raw) = c := by simpa using h
      exact ⟨hle, ⟨raw, hraw, rfl⟩, isSignificant_iff.1 hs⟩
    · simp at h
  · rintro ⟨hle, ⟨raw, hraw, rfl⟩, hs⟩
    refine ⟨(raw, n), List.mk_mem_zipIdx_iff_le_and_getElem?_sub.2 ⟨hle, hraw⟩, ?_⟩
    simp [isSignificant_iff.2 hs]

/-- Significant lines come in the order of their numbers. -/
theorem pairwise_significantLines (text : String) : (significantLines text).Pairwise fun x y => x.1 < y.1 := by
  have hnumbers : ((Text.lines text.toList).zipIdx 1).Pairwise fun x y => x.2 < y.2 := by
    rw [← List.pairwise_map, List.zipIdx_map_snd]
    exact List.pairwise_lt_range'
  rw [significantLines, List.pairwise_filterMap]
  refine hnumbers.imp ?_
  rintro ⟨raw, m⟩ ⟨raw', m'⟩ hlt x hx y hy
  dsimp only at hx hy hlt
  split at hx
  · split at hy
    · obtain rfl := Option.some.inj hx
      obtain rfl := Option.some.inj hy
      exact hlt
    · simp at hy
  · simp at hx

theorem pairwise_lineNumbers (text c : String) : (lineNumbers text c).Pairwise (· < ·) := by
  rw [lineNumbers, List.pairwise_map]
  exact (pairwise_significantLines text).filter _

theorem mem_lineNumbers {text c : String} {n : Nat} : n ∈ lineNumbers text c ↔ HasLine text c n := by
  rw [← mem_significantLines, lineNumbers, List.mem_map]
  constructor
  · rintro ⟨⟨m, d⟩, hfilter, rfl⟩
    obtain ⟨hmem, hd⟩ := List.mem_filter.1 hfilter
    have hdc : d = c := by simpa using hd
    exact hdc ▸ hmem
  · intro hmem
    exact ⟨(n, c), List.mem_filter.2 ⟨hmem, by simp⟩, rfl⟩

/-- No line number has two lines. -/
theorem line_unique {text c d : String} {n : Nat} (hc : n ∈ lineNumbers text c) (hd : n ∈ lineNumbers text d) :
    c = d := by
  obtain ⟨-, ⟨raw, hraw, rfl⟩, -⟩ := mem_lineNumbers.1 hc
  obtain ⟨-, ⟨raw', hraw', rfl⟩, -⟩ := mem_lineNumbers.1 hd
  rw [hraw] at hraw'
  rw [Option.some.inj hraw']

/-! ### Pairing -/

/-- The pairs of one line are zipped from its numbers and those that are free for it. -/
theorem filter_pairLines (free : Std.HashMap String (List Nat)) (lines : List (Nat × String)) (c : String) :
    (pairLines [] free lines).filter (·.content = c) =
      List.zipWith (SharedLine.exact c) ((lines.filter (·.2 = c)).map (·.1)) (free.getD c []) := by
  induction lines generalizing free with
  | nil => simp [pairLines]
  | cons entry rest ih =>
    obtain ⟨number, line⟩ := entry
    rw [pairLines]
    split
    · -- nothing is free for the line, so a line that equals `c` adds nothing to either side
      rename_i hfree
      rw [ih]
      by_cases hc : line = c
      · subst hc
        simp [hfree]
      · simp [hc]
    · rename_i partner others hfree
      rw [pairLines_eq, List.filter_append, ih, Std.HashMap.getD_insert]
      by_cases hc : line = c
      · subst hc
        simp [hfree, SharedLine.exact]
      · simp [hc]

theorem filter_sharedLines (a b c : String) :
    (sharedLines a b).filter (·.content = c) =
      List.zipWith (SharedLine.exact c) (lineNumbers a c) (lineNumbers b c) := by
  rw [sharedLines, filter_pairLines, getD_occurrences, lineNumbers, lineNumbers]

/-- Pairing goes through the lines of the first text in order. -/
theorem map_lineA_pairLines (free : Std.HashMap String (List Nat)) (lines : List (Nat × String)) :
    ((pairLines [] free lines).map SharedLine.lineA).Sublist (lines.map fun line => (line.1 : Int)) := by
  induction lines generalizing free with
  | nil => simp [pairLines]
  | cons entry rest ih =>
    rw [pairLines]
    split
    · exact (ih free).cons _
    · rw [pairLines_eq]
      exact (ih _).cons_cons _

theorem pairwise_lineA (a b : String) : ((sharedLines a b).map SharedLine.lineA).Pairwise (· < ·) := by
  refine List.Pairwise.sublist (map_lineA_pairLines _ _) ?_
  rw [List.pairwise_map]
  exact (pairwise_significantLines a).imp fun h => by exact_mod_cast h

/-- The line of the second text in a pair reads as the pair says. -/
theorem exists_lineB {a b : String} {m : SharedLine} (hm : m ∈ sharedLines a b) :
    ∃ n ∈ lineNumbers b m.content, m.lineB = n := by
  have hmem : m ∈ (sharedLines a b).filter (·.content = m.content) := List.mem_filter.2 ⟨hm, by simp⟩
  rw [filter_sharedLines, List.mem_iff_getElem] at hmem
  obtain ⟨k, hk, hget⟩ := hmem
  rw [List.length_zipWith] at hk
  refine ⟨(lineNumbers b m.content)[k], List.getElem_mem _, ?_⟩
  rw [List.getElem_zipWith] at hget
  exact congrArg SharedLine.lineB hget.symm

theorem nodup_lineB (a b : String) : ((sharedLines a b).map SharedLine.lineB).Nodup := by
  rw [List.Nodup, List.pairwise_map, List.pairwise_iff_forall_sublist]
  intro x y hs he
  obtain ⟨m, hm, hx⟩ := exists_lineB (hs.subset (by simp : x ∈ [x, y]))
  obtain ⟨n, hn, hy⟩ := exists_lineB (hs.subset (by simp : y ∈ [x, y]))
  -- two pairs with one line of the second text have one content, and within it the numbers increase
  obtain rfl : m = n := by omega
  have hcontent := line_unique hm hn
  have hboth := hs.filter (·.content = x.content)
  rw [List.filter_eq_self.2 (by simp [hcontent]), filter_sharedLines] at hboth
  have hlt : (List.zipWith (SharedLine.exact x.content) (lineNumbers a x.content)
      (lineNumbers b x.content)).Pairwise fun p q => p.lineB < q.lineB := by
    rw [List.pairwise_iff_getElem]
    intro i j hi hj hij
    rw [List.length_zipWith] at hi hj
    have := List.pairwise_iff_getElem.1 (pairwise_lineNumbers b x.content) i j (by omega) (by omega) hij
    simpa [SharedLine.exact] using this
  have := List.pairwise_pair.1 (hlt.sublist hboth)
  omega

/-- Each significant line is paired as often as both texts have it, the `k`-th time in one with the `k`-th time in
the other.  The pairs are in the order of the first text, and no line of the second is used twice. -/
theorem sharedLines_pairing (a b : String) :
    (∀ text c, (lineNumbers text c).Pairwise (· < ·) ∧ ∀ n, n ∈ lineNumbers text c ↔ HasLine text c n) ∧
      (∀ c, (sharedLines a b).filter (·.content = c) =
          List.zipWith (SharedLine.exact c) (lineNumbers a c) (lineNumbers b c) ∧
        ((sharedLines a b).filter (·.content = c)).length =
          min (lineNumbers a c).length (lineNumbers b c).length) ∧
      ((sharedLines a b).map SharedLine.lineA).Pairwise (· < ·) ∧ ((sharedLines a b).map SharedLine.lineB).Nodup := by
  refine ⟨fun text c => ⟨pairwise_lineNumbers text c, fun n => mem_lineNumbers⟩, fun c => ?_, pairwise_lineA a b,
    nodup_lineB a b⟩
  have hpairs := filter_sharedLines a b c
  refine ⟨hpairs, ?_⟩
  rw [hpairs, List.length_zipWith]

end Semblance

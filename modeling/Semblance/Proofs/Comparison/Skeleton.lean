import Semblance.Proofs.Lexing.Kinds
import Semblance.Proofs.Similarity.EditScript
import Semblance.Proofs.Text.UniqueDecoding

/-!
# Reading a skeleton

A skeleton is written without separators and still can be read in one way only.  Among the keywords and the
punctuation characters the one word that starts another is `in`, which starts `instanceof`; it leaves `stanceof` over,
and no word goes on from there.  So the skeleton of a text tells its marks (`skeleton_tokenize_eq_iff`).
-/

namespace Semblance

open InformationTheory

/-- The texts of the keywords and punctuation of a token list, in order. -/
def markValues (tokens : List Token) : List String :=
  (tokens.filter Token.isMark).map Token.value

/-- The texts that a mark of the lexer can have. -/
def markWords : List (List Char) :=
  keywords.map String.toList ++ punctuationMarks.toList.map ([·])

theorem isLeftover_markWords : IsLeftover markWords ["stanceof".toList] where
  nil_notMem_words := by decide
  nil_notMem_tails := by decide
  of_words := by decide +kernel
  of_tail_prefix := by decide +kernel
  of_word_prefix := by decide +kernel

theorem toList_skeleton (tokens : List Token) :
    (skeleton tokens).toList = ((markValues tokens).map String.toList).flatten := by
  rw [skeleton, String.toList_join, List.flatMap_def, markValues]

variable {a b : List Token}

theorem Token.IsLexed.mem_markWords {t : Token} (h : t.IsLexed) (hm : t.isMark) : t.value.toList ∈ markWords := by
  cases h with
  | keyword hw => exact List.mem_append_left _ (List.mem_map_of_mem hw)
  | punctuation hc =>
    rw [String.toList_ofList]
    exact List.mem_append_right _ (List.mem_map_of_mem hc)
  | _ => simp [isMark] at hm

theorem mem_markWords (ha : ∀ t ∈ a, t.IsLexed) : ∀ w ∈ (markValues a).map String.toList, w ∈ markWords := by
  intro w hw
  obtain ⟨value, hvalue, rfl⟩ := List.mem_map.1 hw
  obtain ⟨t, ht, rfl⟩ := List.mem_map.1 hvalue
  obtain ⟨hmem, hmark⟩ := List.mem_filter.1 ht
  exact (ha t hmem).mem_markWords hmark

theorem markValues_eq_of_skeleton_eq (ha : ∀ t ∈ a, t.IsLexed) (hb : ∀ t ∈ b, t.IsLexed)
    (h : skeleton a = skeleton b) : markValues a = markValues b := by
  have hflat : ((markValues a).map String.toList).flatten = ((markValues b).map String.toList).flatten := by
    rw [← toList_skeleton, ← toList_skeleton, h]
  have hwords := isLeftover_markWords.uniquelyDecodable _ _ (mem_markWords ha) (mem_markWords hb) hflat
  exact List.map_injective_iff.2 (fun _ _ => String.toList_inj.1) hwords

/-- No punctuation is a control keyword. -/
theorem contains_controlKeywords {c : Char} (hc : c ∈ punctuationMarks.toList) :
    controlKeywords.contains (String.ofList [c]) = false := by
  have hall : punctuationMarks.toList.all fun d => !controlKeywords.contains (String.ofList [d]) := by decide
  simpa using List.all_eq_true.1 hall c hc

theorem controlFlow_eq_filter (ha : ∀ t ∈ a, t.IsLexed) :
    controlFlow a = (markValues a).filter (controlKeywords.contains ·) := by
  have hcontrol {t : Token} (ht : t.IsLexed) :
      t.isControl = (t.isMark && controlKeywords.contains t.value) := by
    cases ht with
    | punctuation hc => simp only [Token.isControl, contains_controlKeywords hc, Bool.and_false]
    | _ => simp [Token.isControl, Token.isMark]
  rw [controlFlow, markValues, List.filter_map, List.filter_filter]
  congr 1
  apply List.filter_congr
  intro t ht
  rw [hcontrol (ha t ht), Bool.and_comm]
  rfl

/-- The skeletons of two texts are equal, and so at distance `0`, exactly if the texts have the same keywords and
punctuation in the same order; then they have the same control flow. -/
theorem skeleton_tokenize_eq_iff (a b : String) :
    (skeleton (tokenize a) = skeleton (tokenize b) ↔ markValues (tokenize a) = markValues (tokenize b)) ∧
    (editDistance (skeleton (tokenize a)).toList (skeleton (tokenize b)).toList = 0 ↔
      markValues (tokenize a) = markValues (tokenize b)) ∧
    (skeleton (tokenize a) = skeleton (tokenize b) → controlFlow (tokenize a) = controlFlow (tokenize b)) := by
  have ha : ∀ t ∈ tokenize a, t.IsLexed := fun t => isLexed_of_mem_tokenize
  have hb : ∀ t ∈ tokenize b, t.IsLexed := fun t => isLexed_of_mem_tokenize
  have hiff : skeleton (tokenize a) = skeleton (tokenize b) ↔
      markValues (tokenize a) = markValues (tokenize b) := by
    constructor
    · exact markValues_eq_of_skeleton_eq ha hb
    · intro h
      exact congrArg String.join h
  refine ⟨hiff, ?_, ?_⟩
  · rw [editDistance_eq_zero_iff, String.toList_inj]
    exact hiff
  · intro h
    rw [controlFlow_eq_filter ha, controlFlow_eq_filter hb, hiff.1 h]

-- a keyword `stanceof` would make skeletons ambiguous
example : skeleton [⟨.keyword, "in"⟩, ⟨.keyword, "stanceof"⟩] = skeleton [⟨.keyword, "instanceof"⟩] := by decide

end Semblance

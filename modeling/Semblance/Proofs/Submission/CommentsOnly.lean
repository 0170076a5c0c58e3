import Semblance.Proofs.Similarity.WordSets
import Semblance.Proofs.Submission.Announced
import Semblance.Proofs.Submission.BlankFiles

/-!
# Submissions of comments only

A submission without tokens consists of comments and white space.  It always has too few tokens, and its ratio of
comment lines is that of the lines that are not overlooked, so it is one if all comments are announced
(`validate_of_tokenize_eq_nil`).  Where they are not, there may be no warning about comments at all
(`highCommentRatio_missing`).
-/

namespace Semblance

open Lexeme Text

theorem commentRatio_eq (content : String) :
    commentRatio content =
      ratio ((writtenLines content.toList).length - overlooked (writtenLines content.toList))
        (writtenLines content.toList).length := by
  have hall := countCommentLines_add_overlooked (writtenLines content.toList)
  rw [← Nat.eq_sub_of_add_eq hall]
  rfl

/-- What is odd about a text without tokens that is neither blank nor too large: it has no tokens, and a high ratio of
comment lines unless enough lines are overlooked.  No line is overlooked if all comments are announced, and in a text
with plain comments only then. -/
theorem validate_of_tokenize_eq_nil {content : String} {limit : Number} (hwritten : isBlankText content = false)
    (hsize : limit.isBelow content.utf8ByteSize = false) (htokens : tokenize content = []) :
    let ls := writtenLines content.toList
    let share := ratio (ls.length - overlooked ls) ls.length
    validate content (.ok limit) =
        .ok (.fewTokens 0 :: if nearest (4 / 5) < share then [.highCommentRatio share] else []) ∧
      (AnnouncesComments content.toList →
        overlooked ls = 0 ∧ validate content (.ok limit) = .ok [.fewTokens 0, .highCommentRatio 1]) ∧
      (HasPlainComments content.toList → overlooked ls = 0 → AnnouncesComments content.toList) := by
  intro ls share
  have hvalidate : validate content (.ok limit) =
      .ok (.fewTokens 0 :: if nearest (4 / 5) < share then [.highCommentRatio share] else []) := by
    rw [validate_ok, anomalies, if_neg (by simp [hwritten]), if_neg (by simp [hsize]), htokens, commentRatio_eq]
    rfl
  refine ⟨hvalidate, fun h => ?_, announcesComments_of_overlooked htokens⟩
  have hzero : overlooked ls = 0 := overlooked_eq_zero htokens h
  have hne : ls ≠ [] := by
    rw [Ne, writtenLines_eq_nil_iff, ← isBlankText_iff, hwritten]
    simp
  have hshare : share = 1 := by
    simp only [share, hzero, Nat.sub_zero]
    exact ratio_self (List.length_pos_of_ne_nil hne)
  have hhigh : nearest (4 / 5) < 1 := by decide +kernel
  exact ⟨hzero, by rw [hvalidate, hshare, if_pos hhigh]⟩

/-- Comments of both kinds, one of them over four lines with a blank one and with a mark of a line comment in it. -/
theorem validate_of_tokenize_eq_nil_licence :
    let content := "// a /* b\n  /* c * d\n\n  e // f\r\n */ // g\n/* h */ /* i */"
    isBlankText content = false ∧ tokenize content = [] ∧
      validate content (.ok (.whole 80)) = .ok [.fewTokens 0, .highCommentRatio 1] := by
  intro content
  have hwritten : isBlankText content = false := by decide +kernel
  have htokens : tokenize content = [] := by decide +kernel
  have hsize : (Number.whole 80).isBelow content.utf8ByteSize = false := by decide +kernel
  have hall := validate_of_tokenize_eq_nil hwritten hsize htokens
  exact ⟨hwritten, htokens, (hall.2.1 (by decide +kernel)).2⟩

/-- A comment that begins behind another one is not announced, and its second line is overlooked. -/
theorem highCommentRatio_missing :
    let content := "/* a */ /* b\nc */"
    isBlankText content = false ∧ tokenize content = [] ∧ HasPlainComments content.toList ∧
      validate content (.ok (.whole 80)) = .ok [.fewTokens 0] := by
  intro content
  have hfound : anomalies content (.whole 80) = [.fewTokens 0] := by decide +kernel
  exact ⟨by decide +kernel, by decide +kernel, by decide +kernel, by rw [validate_ok, hfound]⟩

/-- A mark that is followed by a slash, and a line comment with a line separator in it. -/
example : ∀ content ∈ ["/*/\nx */", "// a\u2028b"],
    tokenize content = [] ∧ anomalies content (.whole 80) = [.fewTokens 0] := by decide +kernel

end Semblance

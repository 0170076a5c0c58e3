import Semblance.Proofs.Comparison.FastPath
import Semblance.Proofs.Submission.Headers
import Semblance.Submission.Anomaly

/-!
# Blank files

Files in which there is nothing but white space are not blank any more once they are joined: their headers stay.  The
joined text has the normal form of the headers alone (`normal_content`), and no tokens if no name has a line feed
(`tokenize_content`).  So two submissions of blank files are identical exactly if their headers are.
-/

namespace Semblance

open Lexeme Text

/-- Files, given as paths with their texts, that have nothing but white space. -/
def AllBlank (files : List (RawText × String)) : Prop :=
  ∀ f ∈ files, isBlankText f.2

/-- The header lines of some files. -/
def headers (files : List (RawText × String)) : List Char :=
  files.flatMap fun f => headerLine f.1 ++ ['\n']

/-- What a submission of files is compared with: the joined files without white space at the ends. -/
def contentOf (files : List (RawText × String)) : String :=
  Text.trimmed (joined files)

/-- A content that can be encoded is the joined files. -/
theorem rawContent_eq_of_isText {files : List (RawText × String)} (h : (rawContent files).IsText) :
    rawContent files = ↑(contentOf files) := by
  rw [contentOf, ← text_rawContent, h.ofString_text]

theorem isBlankText_iff {text : String} : isBlankText text ↔ ∀ c ∈ text.toList, isBlank c := by
  simp [isBlankText]

variable {files : List (RawText × String)}

/-! ### The content of blank files -/

theorem headers_ne_blank (h : files ≠ []) : ¬ ∀ c ∈ headers files, isBlank c := by
  obtain ⟨f, files, rfl⟩ := List.exists_cons_of_ne_nil h
  intro hall
  have hslash : isBlank '/' := hall '/' (by simp [headers, headerLine])
  exact absurd hslash (by decide)

theorem squeeze_joined (h : AllBlank files) : squeeze (joined files).toList = squeeze (headers files) := by
  induction files with
  | nil => rfl
  | cons f files ih =>
    have hf : ∀ c ∈ f.2.toList, isBlank c := isBlankText_iff.1 (h f (by simp))
    have hnewline : isBlank '\n' := by decide
    cases files with
    | nil =>
      have hend : squeeze ('\n' :: (f.2.toList ++ ['\n'])) = squeeze ['\n', '\n'] :=
        squeeze_cons_append_of_isBlank hnewline hf ['\n']
      rw [toList_joined_singleton, headers, List.flatMap_singleton, squeeze_append_congr _ hend]
      exact squeeze_append_congr _ (squeeze_cons_append_of_isBlank hnewline (w := ['\n']) (by simpa) [])
    | cons g files =>
      have hmiddle : ∀ c ∈ f.2.toList ++ ['\n', '\n'], isBlank c := by
        simpa [or_imp, forall_and, hnewline] using hf
      have hrest : squeeze ('\n' :: (f.2.toList ++ '\n' :: '\n' :: (joined (g :: files)).toList)) =
          squeeze ('\n' :: (joined (g :: files)).toList) := by
        have hrun := squeeze_cons_append_of_isBlank hnewline hmiddle (joined (g :: files)).toList
        rw [List.append_assoc] at hrun
        exact hrun
      rw [toList_joined_cons f (by simp), squeeze_append_congr _ hrest, headers, List.flatMap_cons, List.append_assoc]
      exact squeeze_append_congr _ (squeeze_append_congr ['\n'] (ih fun g hg => h g (.tail _ hg)))

theorem normal_content (h : AllBlank files) : normal (contentOf files).toList = normal (headers files) := by
  rw [contentOf, Text.trimmed, String.toList_ofList, normal_trim, normal_eq_of_squeeze (squeeze_joined h)]

/-- The content of files is not blank, because of the headers. -/
theorem isBlankText_contentOf (h : files ≠ []) : isBlankText (contentOf files) = false := by
  obtain ⟨f, files, rfl⟩ := List.exists_cons_of_ne_nil h
  rw [← Bool.not_eq_true, isBlankText_iff, ← normal_eq_nil_iff, contentOf, trimmed, String.toList_ofList, normal_trim,
    normal_eq_nil_iff]
  intro hall
  have hmem : '/' ∈ (joined (f :: files)).toList := by
    cases files with
    | nil => simp [toList_joined_singleton, headerLine]
    | cons g files => simp [toList_joined_cons f, headerLine]
  have hslash : isBlank '/' := hall '/' hmem
  exact absurd hslash (by decide)

/-- Blank files give no tokens, if no name has a line feed. -/
theorem tokenize_content (h : AllBlank files) (hn : ∀ f ∈ files, HasPlainName f.1) :
    tokenize (contentOf files) = [] := by
  have hsealed : ∀ f ∈ files.dropLast, Sealed f.2.toList := by
    intro f hf l hl
    rw [solidLexemes_of_isBlank (isBlankText_iff.1 (h f (List.mem_of_mem_dropLast hf)))] at hl
    simp at hl
  rw [contentOf, tokenize_trimmed, tokens_joined hn hsealed, separateTokens, List.flatMap_eq_nil_iff]
  intro f hf
  rw [tokenize_eq_tokens, tokens_of_isBlank (isBlankText_iff.1 (h f hf))]

/-! ### Comparing blank files -/

variable {files' : List (RawText × String)}

/-- Submissions of blank files with one sequence of headers, up to white space, are plagiarized. -/
theorem compareTexts_of_headers_eq (p : Policy) (hne : files ≠ []) (h : AllBlank files) (h' : AllBlank files')
    (heq : normal (headers files) = normal (headers files')) :
    (compareTexts p (contentOf files) (contentOf files')).overall = 100 ∧
      (compareTexts p (contentOf files) (contentOf files')).verdict = .plagiarized := by
  have hnormal : Text.normalize (contentOf files) = Text.normalize (contentOf files') := by
    rw [normalize_eq_iff, normal_content h, normal_content h', heq]
  have hblank : Text.normalize (contentOf files) ≠ "" := by
    rw [Ne, normalize_eq_empty_iff, ← normal_eq_nil_iff, normal_content h, normal_eq_nil_iff]
    exact headers_ne_blank hne
  exact compareTexts_of_normalize_eq p hblank hnormal

/-- Submissions of blank files with other headers are original, if no name has a line feed. -/
theorem compareTexts_of_headers_ne (p : Policy) (h : AllBlank files) (h' : AllBlank files')
    (hn : ∀ f ∈ files, HasPlainName f.1) (hne : normal (headers files) ≠ normal (headers files')) :
    (compareTexts p (contentOf files) (contentOf files')).overall = 0 ∧
      (compareTexts p (contentOf files) (contentOf files')).verdict = .original := by
  have hnormal : Text.normalize (contentOf files) ≠ Text.normalize (contentOf files') := by
    rwa [Ne, normalize_eq_iff, normal_content h, normal_content h']
  have hroute : Route.of (contentOf files) (contentOf files') = .empty 0 (tokenize (contentOf files')).length := by
    rw [Route.of, if_neg (by simp [hnormal])]
    simp [tokenize_content h hn]
  rw [compareTexts, hroute]
  exact ⟨rfl, rfl⟩

/-! ### Loading blank files -/

/-- The files are too large: together, or with their headers. -/
def Oversized (cap : Number) (files : List (RawText × String)) : Prop :=
  cap.isBelow (totalSize files) ∨ cap.isBelow (contentOf files).utf8ByteSize

instance (cap : Number) (files : List (RawText × String)) : Decidable (Oversized cap files) :=
  inferInstanceAs (Decidable (_ ∨ _))

theorem ofOutcomes_excess {limit : Number} (h : limit.isBelow (totalSize files)) :
    Loaded.ofOutcomes limit (files.map fun f => (f.1, .ok f.2)) =
      ⟨[], [], some s!"Submission is {totalSize files} bytes (limit {limit.text})"⟩ := by
  rw [totalSize] at h
  simp [Loaded.ofOutcomes, List.filterMap_map, Except.toOption, h, totalSize]

theorem loadSubmission_of_excess {d : Disk} {limit : Number}
    (hread : ∀ f ∈ files, readSource d f.1 (.ok limit) = .ok (.ok f.2)) (h : limit.isBelow (totalSize files)) :
    loadSubmission d (files.map Prod.fst) (.ok limit) =
      .ok ⟨[], [], some s!"Submission is {totalSize files} bytes (limit {limit.text})"⟩ := by
  have hall : ∀ o ∈ files.map fun f => ((f.1, .ok f.2) : RawText × Except RawText String),
      readSource d o.1 (.ok limit) = .ok o.2 := List.forall_mem_map.2 hread
  have hload := loadSubmission_eq_ok hall
  rw [ofOutcomes_excess h, List.map_map] at hload
  exact hload

/-- The anomalies of a content that is not blank never say that it is empty, and only its size is an error. -/
theorem anomalies_of_not_blank {text : String} (cap : Number) (h : isBlankText text = false) :
    .emptyFile ∉ anomalies text cap ∧ ((∃ a ∈ anomalies text cap, a.isError) ↔ cap.isBelow text.utf8ByteSize) := by
  rw [anomalies, if_neg (by simp [h])]
  by_cases hsize : cap.isBelow text.utf8ByteSize
  · rw [if_pos hsize]
    simp [Anomaly.isError, hsize]
  · rw [if_neg hsize]
    dsimp only
    split <;> split <;> simp [Anomaly.isError, hsize]

end Semblance

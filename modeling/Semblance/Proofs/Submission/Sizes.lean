import Semblance.Proofs.Submission.BlankFiles
import Semblance.Proofs.Text.Encoding

/-!
# Sizes of submissions

A limit is held against a submission three times: against the bytes of each file, against the texts of all files that
pass, and against the content that is put together from them.  The content has a header line for each file, so files
that pass the first two may fail the third: it is too large exactly if the texts with their headers, without the white
space at the end, are (`loadSubmission_tooLarge_iff`).
-/

namespace Semblance

open Text

/-! ### The size of the content -/

/-- What a file adds to a submission besides its text, in bytes: its header line, and a line feed before and after the
text. -/
def frameSize (path : RawText) : Nat :=
  (Path.baseName path).text.utf8ByteSize + 14

/-- The white space that is cut from the end of a submission, given the text of its last file. -/
def looseEnd (text : String) : String :=
  String.ofList (('\n' :: (text.toList ++ ['\n'])).rtakeWhile isBlank)

/-- The size of a submission in bytes, from the sizes of its files: their texts and what the headers add, without the
white space at the end. -/
def framedSize (files : List (RawText × String)) : Nat :=
  match files.getLast? with
  | none => 0
  | some last => totalSize files + (files.map fun f => frameSize f.1).sum - ((looseEnd last.2).utf8ByteSize + 1)

theorem totalSize_eq_sum (files : List (RawText × String)) :
    totalSize files = (files.map fun f => f.2.utf8ByteSize).sum := by
  rw [totalSize, List.sum_eq_foldl]

theorem utf8ByteSize_withHeader (path : RawText) (text : String) :
    (withHeader path text).text.utf8ByteSize + 1 = text.utf8ByteSize + frameSize path := by
  have hopen : "// --- ".utf8ByteSize = 7 := by decide
  have hclose : " ---\n".utf8ByteSize = 5 := by decide
  have hend : "\n".utf8ByteSize = 1 := by decide
  simp only [withHeader, toString, RawText.text_append, RawText.text_ofString, String.utf8ByteSize_append, hopen,
    hclose, hend, frameSize]
  omega

theorem utf8ByteSize_joined {files : List (RawText × String)} (h : files ≠ []) :
    (joined files).utf8ByteSize + 1 = totalSize files + (files.map fun f => frameSize f.1).sum := by
  have hfeed : "\n".utf8ByteSize = 1 := by decide
  induction files with
  | nil => exact absurd rfl h
  | cons f files ih =>
    have hheader := utf8ByteSize_withHeader f.1 f.2
    rw [totalSize_eq_sum] at ih ⊢
    rw [List.map_cons, List.map_cons, List.sum_cons, List.sum_cons]
    cases files with
    | nil =>
      rw [joined, List.map_singleton, String.intercalate_singleton]
      simpa using hheader
    | cons g files =>
      have hrest := ih (by simp)
      rw [joined, List.map_cons, String.intercalate_cons_of_ne_nil (by simp), String.utf8ByteSize_append,
        String.utf8ByteSize_append, hfeed, ← joined]
      omega

/-- White space is cut off up to the last character that is none. -/
theorem rtakeWhile_append_cons {c : Char} (hc : isBlank c = false) (s t : List Char) :
    (s ++ c :: t).rtakeWhile isBlank = t.rtakeWhile isBlank := by
  induction t using List.reverseRecOn with
  | nil => rw [List.rtakeWhile_concat_neg _ _ _ (by simp [hc]), List.rtakeWhile_nil]
  | append_singleton t x ih =>
    rw [← List.cons_append, ← List.append_assoc, List.rtakeWhile_concat, List.rtakeWhile_concat, ih]

theorem exists_toList_joined (before : List (RawText × String)) (last : RawText × String) :
    ∃ s, (joined (before ++ [last])).toList = '/' :: (s ++ '-' :: '\n' :: (last.2.toList ++ ['\n'])) := by
  induction before with
  | nil =>
    refine ⟨'/' :: (" --- ".toList ++ (Path.baseName last.1).text.toList ++ " --".toList), ?_⟩
    rw [List.nil_append, toList_joined_singleton, headerLine]
    simp
  | cons f before ih =>
    obtain ⟨s, hs⟩ := ih
    rw [List.cons_append, toList_joined_cons f (by simp), hs, headerLine]
    refine ⟨'/' :: (" --- ".toList ++ (Path.baseName f.1).text.toList ++ " ---".toList ++
      '\n' :: (f.2.toList ++ '\n' :: '\n' :: '/' :: s)), ?_⟩
    simp

/-- Nothing is cut from the start of a submission, and only white space after its last header from its end. -/
theorem joined_eq_append (before : List (RawText × String)) (last : RawText × String) :
    joined (before ++ [last]) = contentOf (before ++ [last]) ++ looseEnd last.2 := by
  obtain ⟨s, hs⟩ := exists_toList_joined before last
  have hslash : isBlank '/' = false := by decide
  have hdash : isBlank '-' = false := by decide
  have hloose : (joined (before ++ [last])).toList.rtakeWhile isBlank = (looseEnd last.2).toList := by
    rw [hs, ← List.cons_append, rtakeWhile_append_cons hdash, looseEnd, String.toList_ofList]
  have htrim : trim (joined (before ++ [last])).toList = (joined (before ++ [last])).toList.rdropWhile isBlank := by
    rw [hs]
    change (List.dropWhile isBlank _).rdropWhile isBlank = _
    rw [List.dropWhile_cons_of_neg (by simp [hslash])]
  apply String.toList_inj.1
  rw [String.toList_append, contentOf, trimmed, String.toList_ofList, htrim, ← hloose,
    List.rdropWhile_append_rtakeWhile]

/-- The size of the content of files in bytes. -/
theorem utf8ByteSize_contentOf (files : List (RawText × String)) :
    (contentOf files).utf8ByteSize = framedSize files := by
  rcases List.eq_nil_or_concat files with rfl | ⟨before, last, rfl⟩
  · decide
  · rw [List.concat_eq_append]
    have hne : before ++ [last] ≠ [] := by simp
    have hjoined := utf8ByteSize_joined hne
    rw [joined_eq_append, String.utf8ByteSize_append] at hjoined
    rw [framedSize, List.getLast?_concat]
    dsimp only
    omega

/-! ### What passes the limits -/

/-- Files, given as paths with their bytes, that are on a disk. -/
def AreStored (d : Disk) (files : List (RawText × List UInt8)) : Prop :=
  ∀ f ∈ files, d.find f.1 = .ok (.file f.2)

/-- The texts of all files. -/
def storedTexts (files : List (RawText × List UInt8)) : List (RawText × String) :=
  files.map fun f => (f.1, readBytes f.2)

/-- The files that have no more bytes than the limit. -/
def withinLimit (cap : Number) (files : List (RawText × List UInt8)) : List (RawText × List UInt8) :=
  files.filter fun f => !cap.isBelow f.2.length

theorem Number.isBelow_mono {m n : Int} (h : m ≤ n) {x : Number} (hx : x.isBelow m) : x.isBelow n := by
  cases x with
  | whole k =>
    rw [Number.isBelow_whole, decide_eq_true_eq] at hx ⊢
    omega
  | real x =>
    cases x with
    | finite q =>
      have hmn : (m : Rat) ≤ n := by exact_mod_cast h
      simp only [Number.isBelow, decide_eq_true_eq] at hx ⊢
      exact hx.trans_le hmn
    | negativeZero =>
      simp only [Number.isBelow, decide_eq_true_eq] at hx ⊢
      omega
    | infinity negative => exact hx
    | undefined => exact hx

section Stored

variable {d : Disk} {cap : Number} {files : List (RawText × List UInt8)}

/-- Reading a stored file gives its text, unless it has more bytes than the limit. -/
theorem readSource_of_find {path : RawText} {bytes : List UInt8} (h : d.find path = .ok (.file bytes)) :
    readSource d path (.ok cap) = .ok (if cap.isBelow bytes.length
      then .error (Path.baseName path ++ s!" is {bytes.length} bytes (limit {cap.text})")
      else .ok (readBytes bytes)) := by
  unfold readSource
  rw [h]
  simp only [FileTree.size, SizeLimit.get_ok, bind, Except.bind, pure, Except.pure]
  exact (apply_ite Except.ok _ _ _).symm

/-- Loading stored files puts those together that are within the limit, unless they are too large together. -/
theorem exists_loadSubmission_of_stored (cap : Number) (h : AreStored d files) :
    ∃ loaded, loadSubmission d (files.map Prod.fst) (.ok cap) = .ok loaded ∧
      loaded.content = if cap.isBelow (totalSize (storedTexts (withinLimit cap files))) then []
        else rawContent (storedTexts (withinLimit cap files)) := by
  let outcome (f : RawText × List UInt8) : Except RawText String :=
    if cap.isBelow f.2.length then .error (Path.baseName f.1 ++ s!" is {f.2.length} bytes (limit {cap.text})")
    else .ok (readBytes f.2)
  have hread : ∀ o ∈ files.map fun f => (f.1, outcome f), readSource d o.1 (.ok cap) = .ok o.2 :=
    List.forall_mem_map.2 fun f hf => readSource_of_find (h f hf)
  have htexts : readTexts (files.map fun f => (f.1, outcome f)) = storedTexts (withinLimit cap files) := by
    rw [readTexts, storedTexts, withinLimit, ← List.filterMap_eq_filter, List.map_filterMap, List.filterMap_map]
    apply List.filterMap_congr
    intro f _
    cases hsize : cap.isBelow f.2.length <;> simp [outcome, hsize, Except.toOption]
  have hload := loadSubmission_eq_ok hread
  rw [List.map_map] at hload
  exact ⟨_, hload, by rw [content_ofOutcomes, htexts]⟩

/-- What is within the limit is no more than all files together. -/
theorem totalSize_withinLimit_le (cap : Number) (files : List (RawText × List UInt8)) :
    totalSize (storedTexts (withinLimit cap files)) ≤ totalSize (storedTexts files) := by
  rw [totalSize_eq_sum, totalSize_eq_sum]
  have hsub : (storedTexts (withinLimit cap files)).Sublist (storedTexts files) := List.filter_sublist.map _
  exact (hsub.map _).sum_le_sum fun _ _ => Nat.zero_le _

theorem exists_tooLarge_iff (content : String) :
    (∃ size limit, .tooLarge size limit ∈ anomalies content cap) ↔
      isBlankText content = false ∧ cap.isBelow content.utf8ByteSize := by
  unfold anomalies
  split
  · rename_i hblank
    simp [hblank]
  split
  · rename_i hblank hsize
    simp [hblank, hsize]
  · rename_i hblank hsize
    refine ⟨?_, fun h => absurd h.2 hsize⟩
    rintro ⟨size, limit, hmem⟩
    -- what is left are the warnings
    dsimp only at hmem
    split at hmem <;> split at hmem <;> simp at hmem

end Stored

/-! ### Submissions that are too large -/

/-- Stored files whose texts are not too large together can be checked exactly if the names of those that are read can
be encoded.  They are too large as a submission exactly if their texts with the headers are. -/
theorem loadSubmission_tooLarge_iff {d : Disk} {cap : Number} {files : List (RawText × List UInt8)}
    (h : AreStored d files) (hfit : cap.isBelow (totalSize (storedTexts files)) = false) :
    ∃ loaded, loadSubmission d (files.map Prod.fst) (.ok cap) = .ok loaded ∧
      ((∃ found, validate loaded.content (.ok cap) = .ok found) ↔
        ∀ f ∈ withinLimit cap files, (Path.baseName f.1).IsText) ∧
      ∀ found, validate loaded.content (.ok cap) = .ok found →
        ((∃ size limit, .tooLarge size limit ∈ found) ↔
          cap.isBelow (framedSize (storedTexts (withinLimit cap files)))) := by
  obtain ⟨loaded, hload, hcontent⟩ := exists_loadSubmission_of_stored cap h
  have hle := totalSize_withinLimit_le cap files
  have hkept : cap.isBelow (totalSize (storedTexts (withinLimit cap files))) = false := by
    rw [← Bool.not_eq_true] at hfit ⊢
    exact mt (Number.isBelow_mono (Int.ofNat_le.2 hle)) hfit
  rw [if_neg (by simp [hkept])] at hcontent
  refine ⟨loaded, hload, ?_, fun found hfound => ?_⟩
  · simp only [validate_eq_ok_iff, exists_and_left, exists_eq, and_true]
    rw [hcontent, isText_rawContent, storedTexts, List.forall_mem_map]
  obtain ⟨-, rfl⟩ := validate_eq_ok_iff.1 hfound
  rw [hcontent, text_rawContent, ← contentOf, exists_tooLarge_iff, utf8ByteSize_contentOf]
  by_cases hnil : storedTexts (withinLimit cap files) = []
  · -- nothing is within the limit, and an empty content is not too large
    rw [hnil] at hkept ⊢
    have hblank : isBlankText (contentOf []) := by decide
    simpa [hblank, framedSize, totalSize] using hkept
  · rw [isBlankText_contentOf hnil]
    simp

/-- Two source files of `6` bytes: a line of text, and a letter before empty lines. -/
def smallFiles : List (RawText × List UInt8) :=
  [("1.js", encode "x = 1;"), ("2.js", encode "y\n\n\n\n\n")]

/-- A disk with the two small files. -/
def smallDisk : Disk where
  tree := .folder (smallFiles.map fun f => (f.1, .file f.2))

theorem areStored_smallFiles : AreStored smallDisk smallFiles := by
  simp only [AreStored, smallFiles, List.forall_mem_cons]
  exact ⟨by rfl, by rfl, by simp⟩

theorem loadSubmission_tooLarge_iff_small :
    ∃ loaded found, loadSubmission smallDisk ["1.js", "2.js"] (.ok (.whole 41)) = .ok loaded ∧
      validate loaded.content (.ok (.whole 41)) = .ok found ∧ ¬ ∃ size limit, .tooLarge size limit ∈ found := by
  have hfit : (Number.whole 41).isBelow (totalSize (storedTexts smallFiles)) = false := by decide +kernel
  have hframed : (Number.whole 41).isBelow (framedSize (storedTexts (withinLimit (.whole 41) smallFiles))) = false := by
    decide +kernel
  obtain ⟨loaded, hload, hchecked, hiff⟩ := loadSubmission_tooLarge_iff areStored_smallFiles hfit
  obtain ⟨found, hfound⟩ := hchecked.2 (by decide +kernel)
  exact ⟨loaded, found, hload, hfound, by rw [hiff found hfound, hframed]; decide⟩

/-- Files of `12` bytes together are too large for a limit of `40` bytes. -/
theorem loadSubmission_tooLarge_of_fitting :
    AreStored smallDisk smallFiles ∧ totalSize (storedTexts smallFiles) = 12 ∧
      ∃ loaded, loadSubmission smallDisk ["1.js", "2.js"] (.ok (.whole 40)) = .ok loaded ∧
        validate loaded.content (.ok (.whole 40)) = .ok [.tooLarge 41 (.whole 40)] := by
  have hkept : withinLimit (.whole 40) smallFiles = smallFiles := by decide +kernel
  have hsize : totalSize (storedTexts smallFiles) = 12 := by decide +kernel
  have hframed : framedSize (storedTexts smallFiles) = 41 := by decide +kernel
  obtain ⟨loaded, hload, hcontent⟩ := exists_loadSubmission_of_stored (.whole 40) areStored_smallFiles
  rw [hkept, if_neg (by rw [hsize]; decide)] at hcontent
  refine ⟨areStored_smallFiles, hsize, loaded, hload, validate_eq_ok_iff.2 ⟨?_, ?_⟩⟩
  · rw [hcontent, isText_rawContent]
    decide +kernel
  · rw [hcontent, text_rawContent, ← contentOf, anomalies,
      if_neg (by rw [isBlankText_contentOf (by decide)]; decide), utf8ByteSize_contentOf, hframed]
    rfl

end Semblance

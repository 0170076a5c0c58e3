import Semblance.Proofs.Lexing.Trimming
import Semblance.Proofs.Submission.Loading
import Semblance.Proofs.Text.Strays

/-!
# Headers and files

The files of a submission are joined with a header line before each of them (`joined`).  Headers give no tokens and
files do not mix if no name of a file has a line feed and no file but the last has an open lexeme
(`tokens_joined`).  Neither condition can be spared: a line feed in a name lets the rest of the header be read as
program text, and an open comment or a single back quote hides the next header and what follows it
(`tokens_joined_empty_iff`, `tokens_joined_backtick_iff`).
-/

namespace Semblance

open Lexeme Text

/-- The files of a submission, given as paths with their texts, one after the other and each under its header. -/
def joined (files : List (RawText × String)) : String :=
  "\n".intercalate (files.map fun f => (withHeader f.1 f.2).text)

/-- The tokens of each file by itself. -/
def separateTokens (files : List (RawText × String)) : List Token :=
  files.flatMap fun f => tokenize f.2

/-- The size of all texts in bytes. -/
def totalSize (files : List (RawText × String)) : Nat :=
  (files.map fun f => f.2.utf8ByteSize).foldl (· + ·) 0

/-- The name of a file has no line feed. -/
def HasPlainName (path : RawText) : Prop :=
  RawChar.char '\n' ∉ Path.baseName path

/-- A file that keeps apart from the files after it: its name has no line feed, and no lexeme of its text is open. -/
def Contained (f : RawText × String) : Prop :=
  HasPlainName f.1 ∧ Sealed f.2.toList

/-- The header of a file without the line feed after it. -/
def headerLine (path : RawText) : List Char :=
  '/' :: '/' :: (" --- ".toList ++ (Path.baseName path).text.toList ++ " ---".toList)

theorem toList_withHeader (path : RawText) (content : String) :
    (withHeader path content).text.toList = headerLine path ++ '\n' :: (content.toList ++ ['\n']) := by
  simp [withHeader, headerLine, String.toList_append, toString]

theorem toList_joined_singleton (f : RawText × String) :
    (joined [f]).toList = headerLine f.1 ++ '\n' :: (f.2.toList ++ ['\n']) := by
  rw [joined, List.map_singleton, String.intercalate_singleton, toList_withHeader]

theorem toList_joined_cons (f : RawText × String) {files : List (RawText × String)} (h : files ≠ []) :
    (joined (f :: files)).toList =
      headerLine f.1 ++ '\n' :: (f.2.toList ++ '\n' :: '\n' :: (joined files).toList) := by
  rw [joined, List.map_cons, String.intercalate_cons_of_ne_nil (by simpa using h), String.toList_append,
    String.toList_append, toList_withHeader, ← joined]
  simp

theorem slash_notMem_baseName (path : RawText) : '/' ∉ (Path.baseName path).text.toList := by
  rw [RawText.mem_text_iff (by decide)]
  intro h
  rw [Path.baseName, List.mem_reverse] at h
  have hne : RawChar.char '/' ≠ Path.slash := by simpa using List.mem_takeWhile_imp h
  exact hne rfl

/-! ### Files that keep apart -/

/-- A header without a line feed in the name gives no token. -/
theorem tokens_headerLine {path : RawText} (h : HasPlainName path) (s : List Char) :
    tokens (headerLine path ++ '\n' :: s) = tokens s := by
  have hname : '\n' ∉ (Path.baseName path).text.toList := by rwa [RawText.mem_text_iff (by decide)]
  rw [headerLine, tokens_of_comment (.lineComment (by simpa using hname) (by simp)),
    tokens_cons_of_isBlank (by decide)]

theorem tokens_joined_singleton {f : RawText × String} (h : HasPlainName f.1) :
    tokens (joined [f]).toList = tokenize f.2 := by
  have hblank : ∀ c ∈ ['\n'], isBlank c := List.forall_mem_singleton.2 (by decide)
  rw [toList_joined_singleton, tokens_headerLine h, tokens_append_of_isBlank hblank, tokenize_eq_tokens]

theorem tokens_joined_cons {f : RawText × String} {files : List (RawText × String)} (h : files ≠ [])
    (hn : HasPlainName f.1) (hs : Sealed f.2.toList) :
    tokens (joined (f :: files)).toList = tokenize f.2 ++ tokens (joined files).toList := by
  rw [toList_joined_cons f h, tokens_headerLine hn, tokens_append_newline hs (.inr rfl),
    tokens_cons_of_isBlank (by decide), tokenize_eq_tokens]

/-- Files without line feeds in their names and without open lexemes keep apart from all files after them. -/
theorem tokens_joined_append {before files : List (RawText × String)} (h : files ≠ [])
    (hbefore : ∀ f ∈ before, Contained f) :
    tokens (joined (before ++ files)).toList = separateTokens before ++ tokens (joined files).toList := by
  induction before with
  | nil => simp [separateTokens]
  | cons f before ih =>
    obtain ⟨hn, hs⟩ := hbefore f (by simp)
    rw [List.cons_append, tokens_joined_cons (by simp [h]) hn hs, ih fun g hg => hbefore g (.tail _ hg),
      separateTokens, separateTokens, List.flatMap_cons, List.append_assoc]

/-- The tokens of joined files are those of each file by itself, if no name has a line feed and all files but the last
are sealed. -/
theorem tokens_joined {files : List (RawText × String)} (hn : ∀ f ∈ files, HasPlainName f.1)
    (hs : ∀ f ∈ files.dropLast, Sealed f.2.toList) : tokens (joined files).toList = separateTokens files := by
  rcases List.eq_nil_or_concat files with rfl | ⟨before, last, rfl⟩
  · simp [joined, separateTokens]
  · rw [List.concat_eq_append] at hn hs ⊢
    rw [List.dropLast_concat] at hs
    have hbefore : ∀ f ∈ before, Contained f :=
      fun f hf => ⟨hn f (by simp [hf]), hs f hf⟩
    rw [tokens_joined_append (by simp) hbefore, tokens_joined_singleton (hn last (by simp))]
    simp [separateTokens]

/-! ### Files that do not -/

/-- A line feed in a name lets the dashes at the end of the header be read as tokens. -/
theorem tokens_joined_ne_nil {path : RawText} (h : '\n' ∈ (Path.baseName path).text.toList) :
    tokens (joined [(path, "")]).toList ≠ [] := by
  -- the comment ends at the first line feed of the name
  obtain ⟨before, after, hname, hbefore⟩ := List.eq_append_cons_of_mem h
  have hcomment : Takes .comment ('/' :: '/' :: (" --- ".toList ++ before))
      ('\n' :: (after ++ " ---".toList ++ ['\n', '\n'])) := .lineComment (by simp [hbefore]) (by simp)
  have hsplit : (joined [(path, "")]).toList =
      '/' :: '/' :: (" --- ".toList ++ before) ++ '\n' :: (after ++ " ---".toList ++ ['\n', '\n']) := by
    rw [toList_joined_singleton, headerLine, hname]
    simp
  rw [hsplit, tokens_of_comment hcomment]
  intro hnil
  have hslash : '/' ∉ after := fun hm => slash_notMem_baseName path (by simp [hname, hm])
  have := isBlank_of_tokens_eq_nil (by simp [hslash]) hnil '-' (by simp)
  exact absurd this (by decide)

/-- An open lexeme hides a header and the back quote after it, or that back quote ends a string. -/
theorem tokens_ne_of_isOpen {c : Char} {s : List Char} (h : (first c s).IsOpen) (path : RawText) :
    tokens (c :: (s ++ '\n' :: '\n' :: (joined [(path, "\x60")]).toList)) ≠
      tokens (c :: s) ++ [⟨.operator, "\x60"⟩] := by
  have hjoined : '\n' :: '\n' :: (joined [(path, "\x60")]).toList =
      '\n' :: '\n' :: headerLine path ++ ['\n', '\x60', '\n'] := by
    rw [toList_joined_singleton]
    simp
  rw [hjoined]
  rcases h.cases with ⟨block, hblock, hb⟩ | ⟨rfl, hs⟩
  · -- the comment takes the header and the back quote
    have hheader : ¬ ['*', '/'] <:+: '\n' :: '\n' :: headerLine path ++ ['\n', '\x60', '\n'] := by
      simp only [headerLine, List.cons_append, infix_cons_iff_of_close, not_or]
      refine ⟨by simp, by simp, by simp, by simp, not_close_of_notMem ?_⟩
      simp [slash_notMem_baseName]
    have hall := tokens_of_comment (.openComment hb)
    have hmore := tokens_of_comment (.openComment (not_close_append hb hheader (by simp)))
    rw [List.append_nil, tokens_nil] at hall hmore
    rw [← List.cons_append, hblock, List.cons_append, List.cons_append, hmore, hall]
    simp
  · -- the back quote starts a string now, and is no longer an operator
    have hclosed := isSome_closing? (by decide : '\n' ≠ '\\') (by decide : '\x60' ≠ '\\') 0
      (s ++ '\n' :: '\n' :: headerLine path) ['\n']
    obtain ⟨m, hm⟩ := Option.isSome_iff_exists.1 hclosed
    obtain ⟨inner, rest, hsplit, -, hi⟩ := exists_of_closing? hm
    have htext : s ++ ('\n' :: '\n' :: headerLine path ++ ['\n', '\x60', '\n']) = inner ++ '\x60' :: rest := by
      rw [← hsplit, List.append_assoc]
    rw [htext, tokens_cons, tokens_cons, first_of_template hi, first_backtick hs]
    simp [token?]

/-- An empty last file keeps apart from contained files exactly if its name has no line feed. -/
theorem tokens_joined_empty_iff {before : List (RawText × String)} {path : RawText}
    (hbefore : ∀ f ∈ before, Contained f) :
    tokens (joined (before ++ [(path, "")])).toList = separateTokens (before ++ [(path, "")]) ↔
      HasPlainName path := by
  have hempty : tokenize "" = [] := by simp [tokenize_eq_tokens]
  rw [tokens_joined_append (by simp) hbefore, separateTokens, separateTokens, List.flatMap_append,
    List.append_cancel_left_eq]
  simp only [List.flatMap_cons, List.flatMap_nil, List.append_nil, hempty]
  constructor
  · intro h hmem
    exact tokens_joined_ne_nil ((RawText.mem_text_iff (by decide)).2 hmem) h
  · intro h
    rw [tokens_joined_singleton (f := (path, "")) h, hempty]

/-- A last file that is a single back quote keeps apart from the file before it, which follows contained files,
exactly if that one is sealed. -/
theorem tokens_joined_backtick_iff {before : List (RawText × String)} {path next : RawText} {content : String}
    (hbefore : ∀ f ∈ before, Contained f) (hn : HasPlainName path) (hnext : HasPlainName next) :
    tokens (joined (before ++ [(path, content), (next, "\x60")])).toList =
      separateTokens (before ++ [(path, content), (next, "\x60")]) ↔ Sealed content.toList := by
  have hop : tokenize "\x60" = [⟨.operator, "\x60"⟩] := by decide +kernel
  rw [tokens_joined_append (by simp) hbefore, separateTokens, separateTokens, List.flatMap_append,
    List.append_cancel_left_eq]
  simp only [List.flatMap_cons, List.flatMap_nil, List.append_nil, hop]
  constructor
  · intro h
    -- up to the first open lexeme both sides are the same, and there they differ
    rcases sealed_or_open ('\n' :: (joined [(next, "\x60")]).toList) content.toList (.inr rfl) with
      ⟨hs, -⟩ | ⟨ls, c, s, ho, hl, hr⟩
    · exact hs
    · rw [toList_joined_cons _ (by simp), tokens_headerLine hn, tokenize_eq_tokens, tokens_eq_filterMap_solid,
        tokens_eq_filterMap_solid content.toList, hr, hl, List.filterMap_append, List.filterMap_append,
        List.append_assoc, List.append_cancel_left_eq, ← tokens_eq_filterMap_solid,
        ← tokens_eq_filterMap_solid] at h
      exact absurd h (tokens_ne_of_isOpen ho next)
  · intro hs
    rw [tokens_joined_cons (f := (path, content)) (by simp) hn hs,
      tokens_joined_singleton (f := (next, "\x60")) hnext, hop]

/-! ### Loaded files -/

theorem tokenize_trimmed (text : String) : tokenize (Text.trimmed text) = tokens text.toList := by
  rw [tokenize_eq_tokens, Text.trimmed, String.toList_ofList, tokens_trim]

/-- The content of a submission of files. -/
def rawContent (files : List (RawText × String)) : RawText :=
  RawText.trimmed (("\n" : RawText).intercalate (files.map fun f => withHeader f.1 f.2))

theorem text_rawContent (files : List (RawText × String)) :
    (rawContent files).text = Text.trimmed (joined files) := by
  rw [rawContent, RawText.text_trimmed, RawText.text_intercalate, RawText.text_ofString, List.map_map, joined]
  rfl

/-- A content can be encoded exactly if the names in the headers can. -/
theorem isText_rawContent {files : List (RawText × String)} :
    (rawContent files).IsText ↔ ∀ f ∈ files, (Path.baseName f.1).IsText := by
  rw [rawContent, RawText.isText_trimmed, RawText.isText_intercalate (RawText.isText_ofString _), List.forall_mem_map]
  simp [withHeader, RawText.isText_append, RawText.isText_ofString]

/-- The files that were read, with their texts. -/
def readTexts (outcomes : List (RawText × Except RawText String)) : List (RawText × String) :=
  outcomes.filterMap fun o => o.2.toOption.map fun text => (o.1, text)

/-- The texts of the files that were read are joined, unless they are too large together. -/
theorem content_ofOutcomes (cap : Number) (outcomes : List (RawText × Except RawText String)) :
    (Loaded.ofOutcomes cap outcomes).content =
      if cap.isBelow (totalSize (readTexts outcomes)) then [] else rawContent (readTexts outcomes) := by
  unfold Loaded.ofOutcomes
  dsimp only
  rw [apply_ite Loaded.content]
  rfl

/-- Texts that are not too large together are joined. -/
theorem ofOutcomes_ok {limit : Number} {files : List (RawText × String)}
    (hfit : limit.isBelow (totalSize files) = false) :
    Loaded.ofOutcomes limit (files.map fun f => (f.1, .ok f.2)) = ⟨rawContent files, [], none⟩ := by
  rw [totalSize] at hfit
  simp [Loaded.ofOutcomes, List.filterMap_map, Except.toOption, hfit, rawContent]

/-- Loading files that can be read, and that are not too large together, joins their texts. -/
theorem loadSubmission_of_read {d : Disk} {limit : Number} {files : List (RawText × String)}
    (hread : ∀ f ∈ files, readSource d f.1 (.ok limit) = .ok (.ok f.2))
    (hfit : limit.isBelow (totalSize files) = false) :
    loadSubmission d (files.map Prod.fst) (.ok limit) = .ok ⟨rawContent files, [], none⟩ := by
  have hall : ∀ o ∈ files.map fun f => ((f.1, .ok f.2) : RawText × Except RawText String),
      readSource d o.1 (.ok limit) = .ok o.2 := List.forall_mem_map.2 hread
  have hload := loadSubmission_eq_ok hall
  rw [ofOutcomes_ok hfit, List.map_map] at hload
  exact hload

theorem loadSubmission_of_read_one {d : Disk} {limit : Number} {path : RawText} {content : String}
    (hread : readSource d path (.ok limit) = .ok (.ok content)) (hfit : limit.isBelow content.utf8ByteSize = false) :
    loadSubmission d [path] (.ok limit) = .ok ⟨rawContent [(path, content)], [], none⟩ := by
  have hall : ∀ f ∈ [(path, content)], readSource d f.1 (.ok limit) = .ok (.ok f.2) := by simpa using hread
  exact loadSubmission_of_read hall (by simpa [totalSize] using hfit)

/-- Loading files gives the tokens of each file by itself, if no name has a line feed and all files but the last are
sealed.  Both are needed: after contained files, an empty last file keeps apart exactly if its name has no line feed,
and a file before a last single back quote exactly if it is sealed. -/
theorem loadSubmission_separate {d : Disk} {limit : Number} {files : List (RawText × String)}
    (hread : ∀ f ∈ files, readSource d f.1 (.ok limit) = .ok (.ok f.2))
    (hfit : limit.isBelow (totalSize files) = false) :
    ∃ loaded, loadSubmission d (files.map Prod.fst) (.ok limit) = .ok loaded ∧ loaded.errors = [] ∧
      ((∀ f ∈ files, HasPlainName f.1) → (∀ f ∈ files.dropLast, Sealed f.2.toList) →
        tokenize loaded.content.text = separateTokens files) ∧
      (∀ before path, (∀ f ∈ before, Contained f) → files = before ++ [(path, "")] →
        (tokenize loaded.content.text = separateTokens files ↔ HasPlainName path)) ∧
      ∀ before path content next, (∀ f ∈ before, Contained f) → HasPlainName path → HasPlainName next →
        files = before ++ [(path, content), (next, "\x60")] →
          (tokenize loaded.content.text = separateTokens files ↔ Sealed content.toList) := by
  refine ⟨_, loadSubmission_of_read hread hfit, rfl, ?_⟩
  rw [text_rawContent, tokenize_trimmed]
  refine ⟨tokens_joined, ?_, ?_⟩
  · rintro before path hbefore rfl
    exact tokens_joined_empty_iff hbefore
  · rintro before path content next hbefore hn hnext rfl
    exact tokens_joined_backtick_iff hbefore hn hnext

theorem loadSubmission_separate_strings :
    let d : Disk := { tree := .folder [("1.js", .file (Text.encode "it's")), ("2.js", .file (Text.encode "\x60x"))] }
    ∃ loaded, loadSubmission d ["1.js", "2.js"] (.ok defaultLimit) = .ok loaded ∧
      tokenize loaded.content.text = tokenize "it's" ++ tokenize "\x60x" := by
  intro d
  let files : List (RawText × String) := [("1.js", "it's"), ("2.js", "\x60x")]
  have hread : ∀ f ∈ files, readSource d f.1 (.ok defaultLimit) = .ok (.ok f.2) := by
    simp only [files, List.forall_mem_cons]
    refine ⟨by rfl, by rfl, by simp⟩
  obtain ⟨loaded, hload, -, htokens, -⟩ := loadSubmission_separate hread (by decide +kernel)
  have hs : Sealed "it's".toList := by decide +kernel
  have hn : ∀ f ∈ files, HasPlainName f.1 := by
    simp only [HasPlainName]
    decide +kernel
  exact ⟨loaded, hload, by simpa [separateTokens, files] using htokens hn (by simpa [files] using hs)⟩

/-- A single back quote hides the header after it. -/
theorem loadSubmission_mixes :
    let d : Disk :=
      { tree := .folder [("1.js", .file (Text.encode "\x60")), ("2.js", .file (Text.encode "\x60x\x60"))] }
    let files : List (RawText × String) := [("1.js", "\x60"), ("2.js", "\x60x\x60")]
    (∀ f ∈ files, readSource d f.1 (.ok defaultLimit) = .ok (.ok f.2)) ∧
      defaultLimit.isBelow (totalSize files) = false ∧
      ∃ loaded, loadSubmission d (files.map Prod.fst) (.ok defaultLimit) = .ok loaded ∧
        tokenize loaded.content.text ≠ separateTokens files := by
  intro d files
  have hread : ∀ f ∈ files, readSource d f.1 (.ok defaultLimit) = .ok (.ok f.2) := by
    simp only [files, List.forall_mem_cons]
    exact ⟨by rfl, by rfl, by simp⟩
  have hfit : defaultLimit.isBelow (totalSize files) = false := by decide +kernel
  exact ⟨hread, hfit, _, loadSubmission_of_read hread hfit, by decide +kernel⟩

end Semblance

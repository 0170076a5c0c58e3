import Semblance.Comparison
import Semblance.Proofs.Report.Markup
import Semblance.Report.Page
import Semblance.Request

/-!
# Data on a page

What is reported cannot change the markup of a page (`marks_text`), and nothing of it is lost: what was reported of a
pair can be read from the hidden data of its row, as the window of the page reads it (`shown?_text`).  Reading comes
down to two searches for a tag.  The tag before the data of a pair is nowhere before its row (`exists_toList_text`),
and in the data each tag comes after texts in markup and other tags only (`exists_hidden_eq`).
-/

namespace Semblance

open Text

namespace Page

/-! ### Lines of a fragment -/

theorem toList_fragment (indent : Nat) {lines : List String} (h : lines ≠ []) :
    (fragment indent lines).toList =
      lines.flatMap (fun line => '\n' :: line.toList) ++ '\n' :: List.replicate indent ' ' := by
  have hlines : ['\n'] ++ ['\n'].intercalate (lines.map String.toList) =
      lines.flatMap fun line => '\n' :: line.toList := by
    induction lines with
    | nil => exact absurd rfl h
    | cons line more ih =>
      cases more with
      | nil => simp
      | cons next more =>
        have := ih (by simp)
        simp_all [List.intercalate_cons_cons]
  simp [fragment, String.toList_intercalate, ← hlines]

theorem marks_fragment (indent : Nat) {lines : List String} (h : lines ≠ []) :
    marks (fragment indent lines).toList = lines.flatMap fun line => marks line.toList := by
  have hspaces : marks ('\n' :: List.replicate indent ' ') = [] := by
    rw [marks_eq_nil_iff]
    simp [markChars]
  rw [toList_fragment indent h, marks_append, hspaces, List.append_nil, marks_flatMap]
  rfl

theorem avoids_fragment {name : List Char} (indent : Nat) {lines : List String} (hne : lines ≠ [])
    (h : ∀ line ∈ lines, Avoids ('<' :: name) line.toList) : Avoids ('<' :: name) (fragment indent lines).toList := by
  have hbreak : Avoids ('<' :: name) ['\n'] := avoids_of_not_mem (by decide)
  rw [toList_fragment indent hne]
  refine .append (avoids_flatMap fun line hline => hbreak.append (h line hline)) (avoids_of_not_mem ?_)
  simp

/-! ### The markup of a page -/

theorem marks_opening (title title' : String) {threshold threshold' : String} (h : marks threshold.toList = [])
    (h' : marks threshold'.toList = []) (pairs pairs' : List (ComparedPair String)) :
    marks (opening title threshold pairs).toList = marks (opening title' threshold' pairs').toList := by
  simp only [opening, marks_fragment _ (List.append_ne_nil_of_right_ne_nil _ (List.cons_ne_nil _ _)),
    List.flatMap_append, List.flatMap_cons, List.flatMap_nil, String.toList_append, marks_append, marks_markup, h, h',
    marks_repr_nat, toString]

theorem marks_warning (submitter submitter' : String) (messages messages' : List String) :
    marks (warning submitter messages).toList = marks (warning submitter' messages').toList := by
  simp only [warning, marks_fragment _ (List.cons_ne_nil _ _), List.flatMap_cons, List.flatMap_nil,
    String.toList_append, marks_append, marks_markup, toString]

theorem marks_row (i j : Nat) (pair pair' : ComparedPair String) :
    marks (row i pair).toList = marks (row j pair').toList := by
  have hstyle (v : Verdict) : marks (verdictStyle v).1.toList = [] ∧ marks (verdictStyle v).2.toList = [] ∧
      marks v.name.toList = [] := by cases v <;> simp [verdictStyle, Verdict.name, marks, markChars]
  simp only [row, marks_fragment _ (List.cons_ne_nil _ _), List.flatMap_cons, List.flatMap_nil,
    String.toList_append, marks_append, marks_markup, marks_repr_nat, marks_repr_int, hstyle, toString]

theorem marks_warningSection {warnings warnings' : List (String × List String)}
    (h : warnings.length = warnings'.length) :
    marks (warningSection warnings).toList = marks (warningSection warnings').toList := by
  have hitems : (warnings.flatMap fun e => marks (warning e.1 e.2).toList) =
      warnings'.flatMap fun e => marks (warning e.1 e.2).toList := by
    induction warnings generalizing warnings' with
    | nil => rw [List.eq_nil_of_length_eq_zero h.symm]
    | cons e warnings ih =>
      obtain ⟨e', warnings', rfl⟩ := List.exists_cons_of_length_eq_add_one h.symm
      rw [List.flatMap_cons, List.flatMap_cons, marks_warning e.1 e'.1 e.2 e'.2, ih (Nat.succ.inj h)]
  have hempty : warnings.isEmpty = warnings'.isEmpty := by
    rw [Bool.eq_iff_iff, List.isEmpty_iff_length_eq_zero, List.isEmpty_iff_length_eq_zero, h]
  rw [warningSection, warningSection, hempty]
  split
  · rfl
  · simp only [marks_fragment _ (List.cons_ne_nil _ _), List.flatMap_cons, List.flatMap_nil, String.toList_append,
      String.toList_join, List.flatMap_map, marks_append, marks_flatMap, marks_repr_nat, hitems, toString]

theorem marks_rows {pairs pairs' : List (ComparedPair String)} (h : pairs.length = pairs'.length) (i j : Nat) :
    ((pairs.zipIdx i).flatMap fun e => marks (row e.2 e.1).toList) =
      (pairs'.zipIdx j).flatMap fun e => marks (row e.2 e.1).toList := by
  induction pairs generalizing pairs' i j with
  | nil =>
    rw [List.eq_nil_of_length_eq_zero h.symm]
    rfl
  | cons pair pairs ih =>
    obtain ⟨pair', pairs', rfl⟩ := List.exists_cons_of_length_eq_add_one h.symm
    rw [List.zipIdx_cons, List.zipIdx_cons, List.flatMap_cons, List.flatMap_cons, marks_row i j pair pair',
      ih (Nat.succ.inj h)]

/-- The markup of a page does not depend on what is reported, only on how many pairs and warnings there are. -/
theorem marks_text {title title' threshold threshold' : String} {pairs pairs' : List (ComparedPair String)}
    {warnings warnings' : List (String × List String)} (ht : marks threshold.toList = [])
    (ht' : marks threshold'.toList = []) (hp : pairs.length = pairs'.length)
    (hw : warnings.length = warnings'.length) :
    marks (text title threshold pairs warnings).toList = marks (text title' threshold' pairs' warnings').toList := by
  simp only [text, String.toList_append, String.toList_join, List.flatMap_map, marks_append, marks_flatMap,
    marks_opening title title' ht ht' pairs pairs', marks_warningSection hw, marks_rows hp 0 0]

/-! ### Reading a page -/

/-- The start of the tag before the hidden data of the pair at a place. -/
def dataTag (i : Nat) : String :=
  s!"<div id=\"data-{i}\""

/-- The tag that opens an element with hidden data. -/
def classTag (name : String) : String :=
  s!"<div class=\"{name}\">"

/-- The start of the tag before the hidden data of any pair, after its bracket. -/
def dataStart : List Char :=
  ['d', 'i', 'v', ' ', 'i', 'd', '=', '"', 'd', 'a', 't', 'a', '-']

/-- The start of the tag that opens any element with hidden data, after its bracket. -/
def classStart : List Char :=
  ['d', 'i', 'v', ' ', 'c', 'l', 'a', 's', 's', '=', '"']

/-- A search for the tag before any hidden data passes over a text. -/
abbrev AvoidsData (s : List Char) : Prop :=
  Avoids ('<' :: dataStart) s

/-- What a page shows in an element with hidden data of the pair at a place: the text between the tag that opens it and
the next tag that closes one, with its entities taken back. -/
def shown? (page : String) (i : Nat) (name : String) : Option String := do
  let (_, data) ← page.toList.dropInfix? (dataTag i).toList
  let (_, element) ← data.dropInfix? (classTag name).toList
  let (inside, _) ← element.dropInfix? "</div>".toList
  return String.ofList (unescape inside)

/-- The names of the elements with the hidden data of a pair, and what is written to them. -/
def hidden (pair : ComparedPair String) : List (String × String) :=
  [("student1", pair.submitter1), ("student2", pair.submitter2), ("code1", pair.source1), ("code2", pair.source2),
    ("explanation-text", pair.report.explanation.getD ""), ("report-json", pair.report.toJson.compact)]

theorem toList_dataTag (i : Nat) : (dataTag i).toList = '<' :: dataStart ++ i.repr.toList ++ ['"'] := by
  have hstart : "<div id=\"data-".toList = '<' :: dataStart := String.toList_ofList
  unfold dataTag
  simp only [toString, String.toList_append, hstart]
  rfl

theorem toList_classTag (name : String) :
    (classTag name).toList = '<' :: classStart ++ name.toList ++ ['"'] ++ ['>'] := by
  have hstart : "<div class=\"".toList = '<' :: classStart := String.toList_ofList
  unfold classTag
  simp only [toString, String.toList_append, hstart, List.append_assoc]
  rfl

theorem toList_closing : "</div>".toList = '<' :: ['/', 'd', 'i', 'v', '>'] :=
  String.toList_ofList

/-! ### The row of a pair -/

/-- A row ends with its hidden data, and has no tag for hidden data before that. -/
theorem exists_row_eq (i : Nat) (pair : ComparedPair String) : ∃ cells : List String,
    (∀ line ∈ cells, AvoidsData line.toList) ∧
    row i pair = fragment 8 (cells ++ s!"            <div id=\"data-{i}\" style=\"display:none;\">" ::
      ((hidden pair).map fun field => "                " ++ classTag field.1 ++ markup field.2 ++ "</div>") ++
      ["            </div>"]) := by
  have hopen : ["                <div class=\"student1\">", "                <div class=\"student2\">",
      "                <div class=\"code1\">", "                <div class=\"code2\">",
      "                <div class=\"explanation-text\">", "                <div class=\"report-json\">"] =
      (hidden pair).map fun field => "                " ++ classTag field.1 := by
    simp [hidden, ← String.toList_inj, toList_classTag, classStart]
  simp only [hidden, List.map_cons, List.map_nil, List.cons.injEq, and_true] at hopen
  obtain ⟨h1, h2, h3, h4, h5, h6⟩ := hopen
  simp only [hidden, List.map_cons, List.map_nil, ← h1, ← h2, ← h3, ← h4, ← h5, ← h6]
  -- twelve lines come before the hidden data; each is put together from fixed texts and values without marks
  refine ⟨[_, _, _, _, _, _, _, _, _, _, _, _], ?_, rfl⟩
  simp only [List.forall_mem_cons, List.not_mem_nil, IsEmpty.forall_iff, implies_true, and_true, toString,
    String.toList_append]
  repeat' with_reducible first | apply And.intro | apply Avoids.append
  all_goals first
    | with_reducible exact avoids_of_marks_eq_nil (marks_markup _)
    | with_reducible exact avoids_of_marks_eq_nil (marks_repr_nat _)
    | with_reducible exact avoids_of_marks_eq_nil (marks_repr_int _)
    | with_reducible exact avoids_ofList (by decide)
    | skip
  all_goals
    refine avoids_of_not_mem ?_
    cases pair.report.verdict <;> simp [Verdict.name]

/-- An element with hidden data, on a line of its own. -/
def hiddenElement (field : String × String) : List Char :=
  '\n' :: "                ".toList ++ (classTag field.1).toList ++ (markup field.2).toList ++ "</div>".toList

theorem exists_toList_row (i : Nat) (pair : ComparedPair String) : ∃ cells : List Char, AvoidsData cells ∧
    (row i pair).toList = cells ++ (dataTag i).toList ++ (" style=\"display:none;\">".toList ++
      (hidden pair).flatMap hiddenElement ++
      '\n' :: ("            </div>".toList ++ '\n' :: List.replicate 8 ' ')) := by
  obtain ⟨cells, hcells, hrow⟩ := exists_row_eq i pair
  have hbreak : AvoidsData ['\n'] := avoids_of_not_mem (by decide)
  refine ⟨cells.flatMap (fun line => '\n' :: line.toList) ++ '\n' :: "            ".toList, ?_, ?_⟩
  · refine (avoids_flatMap fun line hline => hbreak.append (hcells line hline)).append (avoids_of_not_mem ?_)
    simp
  · have hdata : "            <div id=\"data-".toList = "            ".toList ++ '<' :: dataStart := by
      simp [dataStart]
    have hstyle : "\" style=\"display:none;\">".toList = '"' :: " style=\"display:none;\">".toList := by
      simp
    have helement (field : String × String) :
        '\n' :: ("                " ++ classTag field.1 ++ markup field.2 ++ "</div>").toList =
          hiddenElement field := by
      unfold hiddenElement
      simp only [String.toList_append, List.cons_append]
    rw [hrow, toList_fragment 8 (by simp), toList_dataTag]
    simp only [List.flatMap_append, List.flatMap_cons, List.flatMap_nil, List.flatMap_map, helement]
    simp only [toString, String.toList_append, hdata, hstyle, List.append_assoc, List.cons_append, List.nil_append]

theorem marks_of_mem_hidden {pair : ComparedPair String} {field : String × String} (h : field ∈ hidden pair) :
    marks field.1.toList = [] := by
  have hnames : ∀ name ∈ (hidden pair).map Prod.fst, marks name.toList = [] := by
    simp [hidden, marks, markChars]
  exact hnames _ (List.mem_map_of_mem h)

theorem nodup_hidden (pair : ComparedPair String) : ((hidden pair).map Prod.fst).Nodup := by
  simp only [hidden, List.map_cons, List.map_nil]
  decide

theorem avoids_hiddenElement {name : List Char} {field : String × String}
    (htag : Avoids ('<' :: name) (classTag field.1).toList) (hend : Avoids ('<' :: name) "</div>".toList) :
    Avoids ('<' :: name) (hiddenElement field) := by
  have hspaces : '<' ∉ '\n' :: "                ".toList := by simp
  exact (((avoids_of_not_mem hspaces).append htag).append (avoids_of_marks_eq_nil (marks_markup _))).append hend

theorem avoids_dataTag {s : List Char} (h : AvoidsData s) (i : Nat) : Avoids (dataTag i).toList s := by
  rw [toList_dataTag]
  exact (h.of_append _).of_append _

/-- The tag before the data of a pair is in no other row. -/
theorem avoids_row {i j : Nat} (h : i ≠ j) (pair : ComparedPair String) :
    Avoids (dataTag i).toList (row j pair).toList := by
  obtain ⟨cells, hcells, hrow⟩ := exists_toList_row j pair
  have hne : i.repr.toList ≠ j.repr.toList := by
    intro heq
    rw [Nat.repr_eq_ofList_toDigits, Nat.repr_eq_ofList_toDigits, String.toList_ofList, String.toList_ofList] at heq
    have hvalue := congrArg (Nat.ofDigitChars 10 · 0) heq
    exact h (by simpa using hvalue)
  have htag : Avoids (dataTag i).toList (dataTag j).toList := by
    rw [toList_dataTag, toList_dataTag]
    exact avoids_of_value_ne (by decide) (marks_repr_nat i) (marks_repr_nat j) hne
  have hhidden : AvoidsData ((hidden pair).flatMap hiddenElement) := by
    refine avoids_flatMap fun field hfield => avoids_hiddenElement ?_ (toList_closing ▸ by decide)
    rw [toList_classTag]
    refine ((Avoids.append ?_ (avoids_of_marks_eq_nil (marks_of_mem_hidden hfield))).append ?_).append ?_
    all_goals decide
  have hstyle : AvoidsData " style=\"display:none;\">".toList := avoids_ofList (by decide)
  have hlast : AvoidsData (['\n'] ++ ("            </div>".toList ++ '\n' :: List.replicate 8 ' ')) :=
    .append (avoids_of_not_mem (by decide)) ((avoids_ofList (by decide)).append (avoids_of_not_mem (by decide)))
  rw [hrow]
  exact ((avoids_dataTag hcells i).append htag).append (avoids_dataTag ((hstyle.append hhidden).append hlast) i)

/-- A search for the tag of an element with hidden data ends before its text. -/
theorem exists_hidden_eq {fields : List (String × String)} (hnodup : (fields.map Prod.fst).Nodup)
    (hplain : ∀ field ∈ fields, marks field.1.toList = []) {field : String × String} (h : field ∈ fields) :
    ∃ before after, Avoids (classTag field.1).toList before ∧ fields.flatMap hiddenElement =
      before ++ (classTag field.1).toList ++ ((markup field.2).toList ++ "</div>".toList ++ after) := by
  induction fields with
  | nil => cases h
  | cons first fields ih =>
    rw [List.map_cons, List.nodup_cons] at hnodup
    rw [List.forall_mem_cons] at hplain
    rcases List.mem_cons.1 h with rfl | h
    · refine ⟨'\n' :: "                ".toList, fields.flatMap hiddenElement, ?_, ?_⟩
      · rw [toList_classTag]
        exact avoids_of_not_mem (by simp)
      · unfold hiddenElement
        simp only [List.flatMap_cons, List.append_assoc]
    · obtain ⟨before, after, hbefore, heq⟩ := ih hnodup.2 hplain.2 h
      refine ⟨hiddenElement first ++ before, after, .append ?_ hbefore, ?_⟩
      · have hne : field.1.toList ≠ first.1.toList := fun hname =>
          hnodup.1 (String.toList_injective hname ▸ List.mem_map_of_mem h)
        have hclass : '<' ∉ classStart := by decide
        have hvalue := avoids_of_value_ne hclass (hplain.2 _ h) hplain.1 hne
        have hend : Avoids ('<' :: classStart) "</div>".toList := toList_closing ▸ by decide
        rw [toList_classTag]
        refine avoids_hiddenElement ?_ (((hend.of_append _).of_append _).of_append _)
        rw [toList_classTag]
        exact (hvalue.of_append _).append (avoids_of_not_mem (by decide))
      · rw [List.flatMap_cons, heq]
        simp only [List.append_assoc]

/-! ### The page up to a row -/

theorem avoids_styleLines {name : List Char} {line : String} (h : line ∈ styleLines) :
    Avoids ('<' :: name) line.toList := by
  have hofList {c : Char} {s : List Char} (hs : c ∉ s) : c ∉ (String.ofList s).toList := by
    rwa [String.toList_ofList]
  have hstyles : ∀ e ∈ styles, '<' ∉ e.1.toList ∧ '<' ∉ e.2.toList := by
    simp only [styles, List.forall_mem_cons, List.not_mem_nil, IsEmpty.forall_iff, implies_true, and_true,
      String.toList_append, List.mem_append, not_or]
    repeat' with_reducible apply And.intro
    all_goals exact hofList (by decide)
  obtain ⟨e, he, rfl⟩ := List.mem_map.1 h
  obtain ⟨hselector, hdeclarations⟩ := hstyles e he
  refine avoids_of_not_mem ?_
  simp [hselector, hdeclarations]

theorem avoids_opening {title threshold : String} (h : marks threshold.toList = [])
    (pairs : List (ComparedPair String)) :
    AvoidsData (opening title threshold pairs).toList := by
  refine avoids_fragment 4 (List.append_ne_nil_of_right_ne_nil _ (List.cons_ne_nil _ _)) ?_
  simp only [List.forall_mem_append, List.forall_mem_cons, List.not_mem_nil, IsEmpty.forall_iff, implies_true,
    and_true, toString, String.toList_append]
  repeat' with_reducible first | apply And.intro | apply Avoids.append
  all_goals first
    | with_reducible exact avoids_of_marks_eq_nil (marks_markup _)
    | with_reducible exact avoids_of_marks_eq_nil (marks_repr_nat _)
    | with_reducible exact avoids_of_marks_eq_nil h
    | with_reducible exact fun _ => avoids_styleLines
    | with_reducible exact avoids_ofList (by decide)

theorem avoids_warning (submitter : String) (messages : List String) :
    AvoidsData (warning submitter messages).toList := by
  refine avoids_fragment 12 (List.cons_ne_nil _ _) ?_
  simp only [List.forall_mem_cons, List.not_mem_nil, IsEmpty.forall_iff, implies_true, and_true, toString,
    String.toList_append]
  repeat' with_reducible apply Avoids.append
  all_goals first
    | with_reducible exact avoids_of_marks_eq_nil (marks_markup _)
    | with_reducible exact avoids_ofList (by decide)

theorem avoids_warningSection (warnings : List (String × List String)) :
    AvoidsData (warningSection warnings).toList := by
  rw [warningSection]
  split
  · exact avoids_nil _
  · rw [String.toList_append, String.toList_append, String.toList_join, List.flatMap_map]
    refine (Avoids.append ?_ (avoids_flatMap ?_)).append ?_
    case refine_2 =>
      rintro ⟨submitter, messages⟩ -
      exact avoids_warning submitter messages
    all_goals
      refine avoids_fragment 8 (List.cons_ne_nil _ _) ?_
      simp only [List.forall_mem_cons, List.not_mem_nil, IsEmpty.forall_iff, implies_true, and_true, toString,
        String.toList_append]
      repeat' with_reducible first | apply And.intro | apply Avoids.append
      all_goals first
        | with_reducible exact avoids_of_marks_eq_nil (marks_repr_nat _)
        | with_reducible exact avoids_ofList (by decide)

theorem avoids_tableHead : AvoidsData tableHead.toList := by
  refine avoids_fragment 4 (List.cons_ne_nil _ _) ?_
  simp only [List.forall_mem_cons, List.not_mem_nil, IsEmpty.forall_iff, implies_true, and_true]
  repeat' with_reducible apply And.intro
  all_goals exact avoids_ofList (by decide)

/-- A search for the tag before the data of a pair ends in its row. -/
theorem exists_toList_text (title : String) {threshold : String} (ht : marks threshold.toList = [])
    (front back : List (ComparedPair String)) (pair : ComparedPair String) (warnings : List (String × List String)) :
    ∃ top rest, Avoids (dataTag front.length).toList top ∧
      (text title threshold (front ++ pair :: back) warnings).toList = top ++ (dataTag front.length).toList ++
        (" style=\"display:none;\">".toList ++ (hidden pair).flatMap hiddenElement ++ rest) := by
  obtain ⟨cells, hcells, hrow⟩ := exists_toList_row front.length pair
  have htop : AvoidsData ((opening title threshold (front ++ pair :: back)).toList ++
      (warningSection warnings).toList ++ tableHead.toList) :=
    ((avoids_opening ht _).append (avoids_warningSection warnings)).append avoids_tableHead
  have hfront : Avoids (dataTag front.length).toList (front.zipIdx.flatMap fun e => (row e.2 e.1).toList) :=
    avoids_flatMap fun e he => avoids_row (List.mem_zipIdx' he).1.ne' e.1
  refine ⟨_, '\n' :: ("            </div>".toList ++ '\n' :: List.replicate 8 ' ') ++
    ((back.zipIdx (front.length + 1)).flatMap fun e => (row e.2 e.1).toList) ++ closing.toList,
    ((avoids_dataTag htop _).append hfront).append (avoids_dataTag hcells _), ?_⟩
  rw [text, List.zipIdx_append, List.zipIdx_cons]
  simp only [String.toList_append, String.toList_join, List.map_append, List.map_cons, List.flatMap_append,
    List.flatMap_cons, List.flatMap_map, hrow, List.append_assoc, List.cons_append, Nat.zero_add]

/-- The hidden data of a pair is shown as it was reported. -/
theorem shown?_text (title : String) {threshold : String} (ht : marks threshold.toList = [])
    {pairs : List (ComparedPair String)} (warnings : List (String × List String)) {i : Nat} {pair : ComparedPair String}
    (h : pairs[i]? = some pair) {field : String × String} (hfield : field ∈ hidden pair) :
    shown? (text title threshold pairs warnings) i field.1 = some field.2 := by
  obtain ⟨front, back, rfl, rfl⟩ : ∃ front back, pairs = front ++ pair :: back ∧ front.length = i := by
    obtain ⟨hi, rfl⟩ := List.getElem?_eq_some_iff.1 h
    exact ⟨pairs.take i, pairs.drop (i + 1), by simp, by simp [hi.le]⟩
  obtain ⟨top, rest, htop, hpage⟩ := exists_toList_text title ht front back pair warnings
  obtain ⟨before, after, hbefore, hhidden⟩ :=
    exists_hidden_eq (nodup_hidden pair) (fun _ => marks_of_mem_hidden) hfield
  have hdata : " style=\"display:none;\">".toList ++ (hidden pair).flatMap hiddenElement ++ rest =
      " style=\"display:none;\">".toList ++ before ++ (classTag field.1).toList ++
        ((markup field.2).toList ++ "</div>".toList ++ (after ++ rest)) := by
    simp only [hhidden, List.append_assoc]
  have hclass : Avoids (classTag field.1).toList (" style=\"display:none;\">".toList ++ before) := by
    refine .append ?_ hbefore
    rw [toList_classTag]
    exact avoids_of_not_mem (by simp)
  have hend : Avoids "</div>".toList (markup field.2).toList := by
    rw [toList_closing]
    exact avoids_of_marks_eq_nil (marks_markup _)
  unfold shown?
  rw [hpage, hdata]
  simp only [dropInfix?_of_avoids htop, dropInfix?_of_avoids hclass, dropInfix?_of_avoids hend, Option.bind_eq_bind,
    Option.bind_some, unescape_markup, String.ofList_toList, pure]

/-- What is reported changes nothing in the markup of a page but the number of rows and of warnings, and all of it is
shown in the row of its pair. -/
theorem text_isolates_data (title title' : String) (n n' : Int) (pairs pairs' : List (ComparedPair String))
    (warnings warnings' : List (String × List String)) :
    (pairs.length = pairs'.length → warnings.length = warnings'.length →
      marks (text title (Json.ofInt n).shown pairs warnings).toList =
        marks (text title' (Json.ofInt n').shown pairs' warnings').toList) ∧
    ∀ i pair, pairs[i]? = some pair → ∀ field ∈ hidden pair,
      shown? (text title (Json.ofInt n).shown pairs warnings) i field.1 = some field.2 := by
  have hthreshold (n : Int) : marks (Json.ofInt n).shown.toList = [] := by
    rw [Json.shown_ofInt]
    exact marks_repr_int n
  exact ⟨marks_text (hthreshold n) (hthreshold n'), fun i pair h field => shown?_text title (hthreshold n) warnings h⟩

theorem text_isolates_data_script :
    let source := "<script>alert(1)</script>"
    let pair : ComparedPair String := ⟨"<a>", "b", compareTexts .adaptive source "x", source, "x"⟩
    let plain : ComparedPair String := ⟨"a", "b", compareTexts .adaptive "y" "x", "y", "x"⟩
    let page := text "CodeGuard" (Json.ofInt 0).shown [pair] []
    shown? page 0 "student1" = some "<a>" ∧ shown? page 0 "code1" = some source ∧
      marks page.toList = marks (text "CodeGuard" (Json.ofInt 0).shown [plain] []).toList := by
  intro source pair plain page
  obtain ⟨hmarks, hshown⟩ := text_isolates_data "CodeGuard" "CodeGuard" 0 0 [pair] [plain] [] []
  exact ⟨hshown 0 pair rfl ("student1", "<a>") (.head _),
    hshown 0 pair rfl ("code1", source) (.tail _ (.tail _ (.head _))), hmarks rfl rfl⟩

end Page

end Semblance

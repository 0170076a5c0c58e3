import Mathlib.Data.List.DropRight
import Semblance.Proofs.Text.RawOrder
import Semblance.Submission.Anomaly

/-!
# Texts without stray bytes

A text can be encoded exactly if it has no stray bytes.  Whether it has any is not changed by putting it together with
other texts or cutting white space from its ends, since stray bytes are no white space.  Nor is it any matter for
`RawText.text`, which shows stray bytes by another character: it goes through all these operations (`text_trimmed`).
-/

namespace Semblance

namespace RawText

/-- A text that can be encoded. -/
def IsText (t : RawText) : Prop :=
  ∃ s : String, t = ↑s

variable {t u : RawText}

theorem isText_ofString (s : String) : IsText ↑s :=
  ⟨s, rfl⟩

theorem isText_nil : IsText [] :=
  ⟨"", rfl⟩

theorem isText_iff : t.IsText ↔ ∀ c ∈ t, c.isStray = false := by
  constructor
  · rintro ⟨s, rfl⟩ c hc
    obtain ⟨c, -, rfl⟩ := List.mem_map.1 hc
    rfl
  · intro h
    induction t with
    | nil => exact isText_nil
    | cons c t ih =>
      obtain ⟨hc, ht⟩ := List.forall_mem_cons.1 h
      obtain ⟨s, rfl⟩ := ih ht
      cases c with
      | char c => exact ⟨String.ofList (c :: s.toList), by simp [ofString]⟩
      | stray b => cases hc

instance (t : RawText) : Decidable t.IsText :=
  decidable_of_iff _ isText_iff.symm

theorem IsText.ofString_text (h : t.IsText) : ↑t.text = t := by
  obtain ⟨s, rfl⟩ := h
  rw [text_ofString]

theorem decoded_eq_ok_iff_isText {s : String} : t.decoded = .ok s ↔ t.IsText ∧ s = t.text := by
  rw [decoded_eq_ok_iff]
  constructor
  · rintro rfl
    exact ⟨isText_ofString s, (text_ofString s).symm⟩
  · rintro ⟨h, rfl⟩
    exact h.ofString_text.symm

/-- All characters but the one for stray bytes are shown where they are. -/
theorem mem_text_iff {c : Char} (hc : c ≠ '\ufffd') : c ∈ t.text.toList ↔ .char c ∈ t := by
  rw [text, shown, String.toList_ofList, List.mem_map]
  constructor
  · rintro ⟨c | b, hmem, rfl⟩
    · exact hmem
    · exact absurd rfl hc
  · exact fun hmem => ⟨_, hmem, rfl⟩

theorem isText_append : (t ++ u).IsText ↔ t.IsText ∧ u.IsText := by
  simp [isText_iff, or_imp, forall_and]

theorem isText_intercalate {ts : List RawText} (ht : t.IsText) :
    IsText (t.intercalate ts) ↔ ∀ u ∈ ts, u.IsText := by
  induction ts with
  | nil => simp [isText_iff]
  | cons u ts ih =>
    cases ts with
    | nil => simp
    | cons v ts =>
      rw [List.intercalate_cons_cons, isText_append, isText_append, ih, List.forall_mem_cons]
      simp [ht]

/-! ### Cutting white space -/

/-- The character that is shown for stray bytes is no white space either. -/
private theorem isBlank_shown (c : RawChar) : Text.isBlank (c.shown fun _ => '\ufffd') = c.isBlank := by
  cases c with
  | char c => rfl
  | stray b => exact (by decide : Text.isBlank '\ufffd' = false)

theorem isText_of_isBlank (h : t.isBlank) : t.IsText := by
  refine isText_iff.2 fun c hc => ?_
  cases c with
  | char c => rfl
  | stray b => exact absurd (List.all_eq_true.1 h _ hc) Bool.false_ne_true

theorem text_trimmed : t.trimmed.text = Text.trimmed t.text := by
  have hdrop (t : RawText) : (t.dropWhile RawChar.isBlank).map (RawChar.shown fun _ => '\ufffd') =
      (t.map (RawChar.shown fun _ => '\ufffd')).dropWhile Text.isBlank := by
    rw [List.dropWhile_map]
    congr 2
    exact funext fun c => (isBlank_shown c).symm
  simp [trimmed, text, shown, Text.trimmed, Text.trim, hdrop, List.map_reverse]

private theorem forall_dropWhile_iff {p q : RawChar → Bool} (h : ∀ c, p c = true → q c = false) (t : RawText) :
    (∀ c ∈ t.dropWhile p, q c = false) ↔ ∀ c ∈ t, q c = false := by
  refine ⟨fun hall c hc => ?_, fun hall c hc => hall c ((List.dropWhile_suffix p).mem hc)⟩
  rw [← List.takeWhile_append_dropWhile (p := p) (l := t), List.mem_append] at hc
  exact hc.elim (fun hc => h c (List.mem_takeWhile_imp hc)) (hall c)

/-- No stray bytes are cut off. -/
theorem isText_trimmed : t.trimmed.IsText ↔ t.IsText := by
  have hblank : ∀ c : RawChar, c.isBlank = true → c.isStray = false := by
    intro c hc
    cases c with
    | char c => rfl
    | stray b => cases hc
  simp only [isText_iff, trimmed, List.mem_reverse, forall_dropWhile_iff hblank]

theorem text_intercalate (ts : List RawText) : text (t.intercalate ts) = t.text.intercalate (ts.map text) := by
  induction ts with
  | nil => rfl
  | cons u ts ih =>
    cases ts with
    | nil => simp
    | cons v ts =>
      have hcons : t.text.intercalate ((u :: v :: ts).map text) =
          u.text ++ t.text ++ t.text.intercalate ((v :: ts).map text) :=
        String.intercalate_cons_of_ne_nil (by simp)
      rw [List.intercalate_cons_cons, text_append, text_append, ih, hcons]

end RawText

/-! ### Anomalies -/

/-- A content is checked exactly if it can be encoded. -/
theorem validate_eq_ok_iff {content : RawText} {cap : Number} {found : List Anomaly} :
    validate content (.ok cap) = .ok found ↔ content.IsText ∧ found = anomalies content.text cap := by
  constructor
  · intro h
    have htext : content.IsText := by
      unfold validate at h
      split at h
      · rename_i hblank
        exact RawText.isText_of_isBlank hblank
      · cases hd : content.decoded with
        | ok s => exact (RawText.decoded_eq_ok_iff_isText.1 hd).1
        | error run => simp [hd, Except.mapError, bind, Except.bind] at h
    obtain ⟨s, rfl⟩ := htext
    rw [validate_ok] at h
    exact ⟨RawText.isText_ofString s, by rw [RawText.text_ofString, Except.ok.inj h]⟩
  · rintro ⟨⟨s, rfl⟩, rfl⟩
    rw [validate_ok, RawText.text_ofString]

end Semblance

import Semblance.Phase
import Semblance.Proofs.Lexing.Kinds
import Semblance.Proofs.Similarity.WindowSets

/-!
# Windows of traits

The trait of a token is its spelling for a keyword and its class for any other token.  The lexical phase compares
traits by name: keywords stand for themselves, classes have names in capitals, and the names in a window are joined
with spaces.  No keyword looks like the name of a class and no name has a space in it, so windows with the same text
have the same traits (`windowText_inj`), and the overlap of the texts is that of the sets of windows
(`lexical_counts_windows`).
-/

namespace Semblance

/-- What a token counts as when names and literals do not count. -/
inductive Trait where
  | keyword (spelling : String)
  | kind (k : TokenKind)
  deriving DecidableEq

def Token.trait (t : Token) : Trait :=
  if t.kind = .keyword then .keyword t.value else .kind t.kind

namespace Trait

/-- A class has the sign of its tokens. -/
def text : Trait → String
  | keyword spelling => spelling
  | kind k => (⟨k, ""⟩ : Token).sign

def windowText (window : List Trait) : String :=
  " ".intercalate (window.map text)

/-- The traits of the tokens that the lexer gives. -/
def all : List Trait :=
  keywords.map keyword ++ [kind .identifier, kind .operator, kind .literal, kind .punctuation]

theorem nodup_map_text_all : (all.map text).Nodup := by decide +kernel

theorem space_notMem_text : ∀ r ∈ all, ' ' ∉ r.text.toList := by decide +kernel

theorem map_text_inj {u v : List Trait} (hu : ∀ r ∈ u, r ∈ all) (hv : ∀ r ∈ v, r ∈ all)
    (h : u.map text = v.map text) : u = v := by
  induction u generalizing v with
  | nil => exact (List.map_eq_nil_iff.1 h.symm).symm
  | cons r u ih =>
    cases v with
    | nil => simp at h
    | cons s v =>
      rw [List.map_cons, List.map_cons, List.cons.injEq] at h
      have hrs : r = s := List.inj_on_of_nodup_map nodup_map_text_all (hu r (by simp)) (hv s (by simp)) h.1
      have huv : u = v :=
        ih (fun x hx => hu x (List.mem_cons_of_mem r hx)) (fun x hx => hv x (List.mem_cons_of_mem s hx)) h.2
      rw [hrs, huv]

theorem windowText_inj {u v : List Trait} (hu : ∀ r ∈ u, r ∈ all) (hv : ∀ r ∈ v, r ∈ all) (hune : u ≠ [])
    (hvne : v ≠ []) (h : windowText u = windowText v) : u = v := by
  have hspace {w : List Trait} (hw : ∀ r ∈ w, r ∈ all) : ∀ name ∈ w.map text, ' ' ∉ name.toList := by
    intro name hname
    obtain ⟨r, hr, rfl⟩ := List.mem_map.1 hname
    exact space_notMem_text r (hw r hr)
  have hmap : u.map text = v.map text :=
    intercalate_inj (hspace hu) (hspace hv) (by simpa using hune) (by simpa using hvne) h
  exact map_text_inj hu hv hmap

end Trait

theorem Token.text_trait (t : Token) : t.trait.text = t.sign := by
  obtain ⟨k, value⟩ := t
  cases k <;> rfl

theorem Token.IsLexed.trait_mem_all {t : Token} (h : t.IsLexed) : t.trait ∈ Trait.all := by
  cases h with
  | keyword hw => exact List.mem_append_left _ (List.mem_map_of_mem hw)
  | _ =>
    apply List.mem_append_right
    simp [Token.trait]

/-! ### The windows of a token list -/

/-- The runs of `n` neighbouring traits of a token list. -/
def traitWindows (n : Nat) (tokens : List Token) : Finset (List Trait) :=
  windowSet n (tokens.map Token.trait)

variable {n : Nat} {a b : List Token}

theorem signature_eq_map_text (tokens : List Token) : signature tokens = (tokens.map Token.trait).map Trait.text := by
  rw [signature, List.map_map]
  exact List.map_congr_left fun t _ => t.text_trait.symm

/-- The windows that the lexical phase compares are the texts of the windows of traits. -/
theorem toFinset_distinctWindows (hn : 0 < n) (tokens : List Token) :
    (distinctWindows n (signature tokens)).toFinset = (traitWindows n tokens).image Trait.windowText := by
  have hpos : (0 : Int) < n := by exact_mod_cast hn
  rw [distinctWindows, if_pos hpos, toFinset_distinct, Int.toNat_natCast, toFinset_windows, signature_eq_map_text,
    windowSet_map, Finset.image_image]
  rfl

theorem ne_nil_of_mem_traitWindows (hn : 0 < n) {w : List Trait} (hw : w ∈ traitWindows n a) : w ≠ [] := by
  have hlen : w.length = n := (mem_windowSet.1 hw).1
  exact List.ne_nil_of_length_pos (by omega)

theorem mem_all_of_mem_traitWindows (ha : ∀ t ∈ a, t.IsLexed) {w : List Trait} (hw : w ∈ traitWindows n a) :
    ∀ r ∈ w, r ∈ Trait.all := by
  intro r hr
  obtain ⟨t, ht, rfl⟩ := List.mem_map.1 ((mem_windowSet.1 hw).2.subset hr)
  exact (ha t ht).trait_mem_all

/-- No two different windows of two texts have the same text. -/
theorem injOn_windowText (hn : 0 < n) (ha : ∀ t ∈ a, t.IsLexed) (hb : ∀ t ∈ b, t.IsLexed) :
    Set.InjOn Trait.windowText (traitWindows n a ∪ traitWindows n b : Finset (List Trait)) := by
  have hwindow {w : List Trait} (hw : w ∈ traitWindows n a ∪ traitWindows n b) : w ≠ [] ∧ ∀ r ∈ w, r ∈ Trait.all := by
    rcases Finset.mem_union.1 hw with h | h
    · exact ⟨ne_nil_of_mem_traitWindows hn h, mem_all_of_mem_traitWindows ha h⟩
    · exact ⟨ne_nil_of_mem_traitWindows hn h, mem_all_of_mem_traitWindows hb h⟩
  intro u hu v hv h
  obtain ⟨hune, hu⟩ := hwindow hu
  obtain ⟨hvne, hv⟩ := hwindow hv
  exact Trait.windowText_inj hu hv hune hvne h

/-- The overlap of the texts of windows is the share of the common windows. -/
theorem overlap_distinctWindows (hn : 0 < n) (ha : ∀ t ∈ a, t.IsLexed) (hb : ∀ t ∈ b, t.IsLexed) :
    overlap (distinctWindows n (signature a)) (distinctWindows n (signature b)) =
      ratio (traitWindows n a ∩ traitWindows n b).card (traitWindows n a ∪ traitWindows n b).card := by
  have hinj := injOn_windowText hn ha hb
  -- no two windows become one text, so texts and windows are equally many on both sides of the fraction
  have hinter : Set.InjOn Trait.windowText (traitWindows n a ∩ traitWindows n b : Finset (List Trait)) :=
    hinj.mono (Finset.coe_subset.2 Finset.inter_subset_union)
  rw [overlap_eq_ratio_card, toFinset_distinctWindows hn, toFinset_distinctWindows hn, ← Finset.image_union,
    Finset.card_image_of_injOn hinj, ← Finset.image_inter_of_injOn _ _ (by simpa using hinj),
    Finset.card_image_of_injOn hinter]

/-- The lexical phase of two texts with tokens has windows on both sides, and scores the share that the common windows
of traits have of all windows of traits; different windows have different texts. -/
theorem lexical_counts_windows {a b : String} (ha : tokenize a ≠ []) (hb : tokenize b ≠ []) :
    ∃ n : Nat, windowSize (tokenize a).length (tokenize b).length = n ∧
      0 < n ∧ n ≤ (tokenize a).length ∧ n ≤ (tokenize b).length ∧
      let A := traitWindows n (tokenize a)
      let B := traitWindows n (tokenize b)
      let textsA := distinctWindows n (signature (tokenize a))
      let textsB := distinctWindows n (signature (tokenize b))
      textsA ≠ [] ∧ textsB ≠ [] ∧ overlap textsA textsB = ratio (A ∩ B).card (A ∪ B).card ∧
        (Phase.lexical (tokenize a) (tokenize b)).score = percent (ratio (A ∩ B).card (A ∪ B).card) ∧
        ∀ u ∈ A ∪ B, ∀ v ∈ A ∪ B, Trait.windowText u = Trait.windowText v → u = v := by
  have hlexa : ∀ t ∈ tokenize a, t.IsLexed := fun t => isLexed_of_mem_tokenize
  have hlexb : ∀ t ∈ tokenize b, t.IsLexed := fun t => isLexed_of_mem_tokenize
  obtain ⟨hpos, hlea, hleb⟩ := windowSize_bounds (List.length_pos_of_ne_nil ha) (List.length_pos_of_ne_nil hb)
  obtain ⟨n, hn⟩ := Int.eq_ofNat_of_zero_le hpos.le
  rw [hn] at hpos hlea hleb
  have hsiga : (n : Int) ≤ (signature (tokenize a)).length := by simpa [signature] using hlea
  have hsigb : (n : Int) ≤ (signature (tokenize b)).length := by simpa [signature] using hleb
  have htextsa := distinctWindows_ne_nil hpos hsiga
  have htextsb := distinctWindows_ne_nil hpos hsigb
  have hpos' : 0 < n := by exact_mod_cast hpos
  have hoverlap := overlap_distinctWindows hpos' hlexa hlexb
  refine ⟨n, hn, hpos', by exact_mod_cast hlea, by exact_mod_cast hleb, htextsa, htextsb, hoverlap, ?_, ?_⟩
  · simp only [Phase.lexical, hn, hoverlap]
    simp [htextsa, htextsb]
  · intro u hu v hv h
    exact injOn_windowText hpos' hlexa hlexb hu hv h

/-- Six of thirteen pairs of neighbours are common; a quoted keyword counts as a literal. -/
theorem lexical_counts_windows_pairs :
    let a := "if (a > 1) return x; else x += 'if';"
    let b := "while (a < 2) x = y; return 'while';"
    tokenize a ≠ [] ∧ tokenize b ≠ [] ∧
      (Phase.lexical (tokenize a) (tokenize b)).score = percent (ratio 6 13) := by
  intro a b
  have ha : tokenize a ≠ [] := by decide +kernel
  have hb : tokenize b ≠ [] := by decide +kernel
  obtain ⟨n, hn, -, -, -, -, -, -, hscore, -⟩ := lexical_counts_windows ha hb
  have htwo : n = 2 := by
    have hsize : windowSize (tokenize a).length (tokenize b).length = 2 := by decide +kernel
    omega
  have hcommon : (traitWindows 2 (tokenize a) ∩ traitWindows 2 (tokenize b)).card = 6 := by decide +kernel
  have hall : (traitWindows 2 (tokenize a) ∪ traitWindows 2 (tokenize b)).card = 13 := by decide +kernel
  refine ⟨ha, hb, ?_⟩
  rw [hscore, htwo, hcommon, hall]

end Semblance

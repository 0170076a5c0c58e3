import Mathlib.Data.List.TakeWhile
import Semblance.Proofs.Files.Reach

/-!
# Chains of names

Joining the names of a chain one after the other gives the path of what the chain leads to.  Of a path that came about
in this way the chain can be read off (`along_injective`), and the last name of the chain decides the extension
(`extension_along`).
-/

namespace Semblance

namespace Path

/-- The path of what a chain of names leads to from a folder that is shown as `shown`. -/
def along (shown : RawText) (names : List RawText) : RawText :=
  names.foldl join shown

@[simp] theorem along_nil (shown : RawText) : along shown [] = shown := rfl

@[simp] theorem along_cons (shown name : RawText) (rest : List RawText) :
    along shown (name :: rest) = along (join shown name) rest := rfl

theorem along_concat (shown : RawText) (names : List RawText) (name : RawText) :
    along shown (names ++ [name]) = join (along shown names) name := by
  simp [along]

theorem along_ne_nil {shown : RawText} (hs : shown ≠ []) (names : List RawText) : along shown names ≠ [] := by
  induction names generalizing shown with
  | nil => exact hs
  | cons name rest ih => exact ih (join_ne_nil hs name)

theorem isTooLong_of_along {shown : RawText} {names : List RawText} (h : isTooLong (along shown names) = false) :
    isTooLong shown = false := by
  induction names generalizing shown with
  | nil => exact h
  | cons name rest ih => exact isTooLong_of_join (ih h)

/-- What stands before the names in paths of entries of a folder. -/
def opening (shown : RawText) : RawText :=
  if shown.getLast? = some slash then shown else shown ++ [slash]

theorem getLast?_opening (shown : RawText) : (opening shown).getLast? = some slash := by
  unfold opening
  split
  · assumption
  · simp

variable {shown : RawText} {names names' : List RawText}

theorem join_eq_append (hs : shown ≠ []) (name : RawText) : join shown name = opening shown ++ name := by
  unfold join opening
  by_cases h : shown.getLast? = some slash
  · simp [h]
  · simp [h, hs]

theorem IsEntryName.opening_join {name : RawText} (hn : IsEntryName name) (hs : shown ≠ []) :
    opening (join shown name) = opening shown ++ name ++ [slash] := by
  have hlast : (join shown name).getLast? ≠ some slash := by
    rw [join_eq_append hs, List.getLast?_append_of_ne_nil _ hn.ne_nil]
    exact fun h => hn.no_slash (List.mem_of_mem_getLast? h)
  rw [opening, if_neg hlast, join_eq_append hs]

/-- The path of a chain has the names of the chain between slashes. -/
theorem along_eq_append (hs : shown ≠ []) (hne : names ≠ []) (hn : ∀ n ∈ names, IsEntryName n) :
    along shown names = opening shown ++ [slash].intercalate names := by
  induction names generalizing shown with
  | nil => exact absurd rfl hne
  | cons name rest ih =>
    obtain ⟨hname, hrest⟩ := List.forall_mem_cons.1 hn
    cases rest with
    | nil => simp [join_eq_append hs]
    | cons next rest =>
      rw [along_cons, ih (join_ne_nil hs name) (List.cons_ne_nil next rest) hrest, hname.opening_join hs]
      simp [List.intercalate_cons_cons]

/-- Different chains have different paths. -/
theorem along_injective (hs : shown ≠ []) (hne : names ≠ []) (hne' : names' ≠ []) (hn : ∀ n ∈ names, IsEntryName n)
    (hn' : ∀ n ∈ names', IsEntryName n) (h : along shown names = along shown names') : names = names' := by
  rw [along_eq_append hs hne hn, along_eq_append hs hne' hn', List.append_cancel_left_eq] at h
  have hsplit := congrArg (List.splitOn slash) h
  rwa [List.splitOn_intercalate _ (fun n hm => (hn n hm).no_slash) hne,
    List.splitOn_intercalate _ (fun n hm => (hn' n hm).no_slash) hne'] at hsplit

/-- The extension of a path is that of its last name. -/
theorem IsEntryName.extension_join {name : RawText} (hn : IsEntryName name) (hs : shown ≠ []) :
    extension (join shown name) = extension name := by
  have hin : ∀ c ∈ name.reverse, decide (c ≠ slash) = true := by
    intro c hc
    simpa using fun he : c = slash => hn.no_slash (he ▸ List.mem_reverse.1 hc)
  obtain ⟨front, hfront⟩ := List.getLast?_eq_some_iff.1 (getLast?_opening shown)
  have hjoin : (join shown name).reverse.takeWhile (· ≠ slash) = name.reverse := by
    rw [join_eq_append hs, hfront, List.reverse_append, List.takeWhile_append_of_pos hin]
    simp
  have hname : name.reverse.takeWhile (· ≠ slash) = name.reverse := List.takeWhile_eq_self_iff.2 hin
  rw [extension, extension, hjoin, hname]

theorem extension_along (hs : shown ≠ []) {name : RawText} (hn : IsEntryName name) (names : List RawText) :
    extension (along shown (names ++ [name])) = extension name := by
  rw [along_concat, hn.extension_join (along_ne_nil hs names)]

end Path

namespace FileTree

/-- A chain of names leads to a file. -/
def HasFile (t : FileTree) (names : List RawText) : Prop :=
  ∃ u, t.at? names = some u ∧ u.isFolder = false

theorem IsProper.isEntryName_of_hasFile {t : FileTree} (h : t.IsProper) {names : List RawText} (hf : t.HasFile names) :
    ∀ n ∈ names, Path.IsEntryName n := by
  obtain ⟨u, hu, -⟩ := hf
  induction names generalizing t with
  | nil => simp
  | cons name rest ih =>
    obtain ⟨next, hnext, hrest⟩ := Option.bind_eq_some_iff.1 hu
    obtain ⟨before, after, hentries, -⟩ := List.lookup_eq_some_iff.1 hnext
    obtain ⟨hname, hproper⟩ := h.of_mem_entries (name, next) (by simp [hentries])
    exact List.forall_mem_cons.2 ⟨hname, ih hproper hrest⟩

end FileTree

end Semblance

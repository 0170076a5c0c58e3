import Mathlib.Data.List.Forall2
import Semblance.Proofs.Files.SoundTree
import Semblance.Submission.Loading

/-!
# Loading succeeds

Loading with a limit that is a number gives a result whatever the files are, unless a path has a null character
(`exists_loadSubmission`).
-/

namespace Semblance

/-- A list is mapped successfully exactly if each entry is. -/
theorem mapM_eq_ok_iff {α β ε : Type} {f : α → Except ε β} {xs : List α} {ys : List β} :
    xs.mapM f = .ok ys ↔ List.Forall₂ (fun x y => f x = .ok y) xs ys := by
  induction xs generalizing ys with
  | nil => simp [pure, Except.pure, eq_comm]
  | cons x xs ih =>
    rw [List.mapM_cons, List.forall₂_cons_left_iff]
    cases hx : f x with
    | error e => simp [bind, Except.bind]
    | ok y =>
      simp only [bind, Except.bind, ← ih]
      cases xs.mapM f with
      | error e => simp
      | ok rest => simp [pure, Except.pure, eq_comm]

theorem exists_mapM_eq_ok {α β ε : Type} {f : α → Except ε β} {xs : List α} (h : ∀ x ∈ xs, ∃ y, f x = .ok y) :
    ∃ ys, xs.mapM f = .ok ys := by
  induction xs with
  | nil => exact ⟨[], rfl⟩
  | cons x xs ih =>
    obtain ⟨y, hy⟩ := h x (by simp)
    obtain ⟨ys, hys⟩ := ih fun x' hx' => h x' (.tail _ hx')
    exact ⟨y :: ys, mapM_eq_ok_iff.2 (.cons hy (mapM_eq_ok_iff.1 hys))⟩

theorem mapM_congr {α β ε : Type} {f g : α → Except ε β} {xs : List α} (h : ∀ x ∈ xs, f x = g x) :
    xs.mapM f = xs.mapM g := by
  induction xs with
  | nil => rfl
  | cons x xs ih => rw [List.mapM_cons, List.mapM_cons, h x (by simp), ih fun x' hx' => h x' (.tail _ hx')]

/-- Mapping what is left of a list gives what is left of the results. -/
theorem mapM_filter_eq_ok {α β ε : Type} {f : α → Except ε β} {p : α → Bool} {q : β → Bool} {xs : List α} {ys : List β}
    (h : xs.mapM f = .ok ys) (hpq : ∀ x y, f x = .ok y → p x = q y) : (xs.filter p).mapM f = .ok (ys.filter q) := by
  rw [mapM_eq_ok_iff] at h ⊢
  apply List.rel_filter _ h
  intro x y hxy
  simp [hpq x y hxy]

/-- A path without a null character gives a text or an error for its file. -/
theorem exists_readSource (d : Disk) {path : RawText} (h : Path.hasNull path = false) (limit : Number) :
    ∃ outcome, readSource d path (.ok limit) = .ok outcome := by
  have hnull := Disk.find_ne_nullInPath (d := d) h
  unfold readSource
  cases hf : d.find path with
  | error e =>
    cases e with
    | nullInPath => exact absurd hf hnull
    | refused problem path => exact ⟨_, rfl⟩
  | ok found =>
    simp only [SizeLimit.get_ok, bind, Except.bind, pure, Except.pure]
    cases found <;> dsimp only <;> split <;> exact ⟨_, rfl⟩

/-- Reading several files gives an outcome for each path. -/
theorem mapM_readSource_eq_ok_iff {d : Disk} {limit : Number} {paths : List RawText}
    {outcomes : List (RawText × Except RawText String)} :
    (paths.mapM fun path => do return (path, ← readSource d path (.ok limit))) = .ok outcomes ↔
      outcomes.map Prod.fst = paths ∧ ∀ o ∈ outcomes, readSource d o.1 (.ok limit) = .ok o.2 := by
  rw [mapM_eq_ok_iff]
  constructor
  · intro h
    induction h with
    | nil => simp
    | @cons path o paths outcomes ho _ ih =>
      obtain ⟨rfl, hreads⟩ := ih
      cases hpath : readSource d path (.ok limit) with
      | error e => simp [hpath, bind, Except.bind] at ho
      | ok outcome =>
        obtain rfl : (path, outcome) = o := by simpa [hpath, bind, Except.bind, pure, Except.pure] using ho
        exact ⟨rfl, List.forall_mem_cons.2 ⟨hpath, hreads⟩⟩
  · rintro ⟨rfl, h⟩
    rw [List.forall₂_map_left_iff, List.forall₂_same]
    intro o ho
    rw [h o ho]
    rfl

/-- Loading puts together what reading each file gives. -/
theorem loadSubmission_eq_ok {d : Disk} {limit : Number} {outcomes : List (RawText × Except RawText String)}
    (h : ∀ o ∈ outcomes, readSource d o.1 (.ok limit) = .ok o.2) :
    loadSubmission d (outcomes.map Prod.fst) (.ok limit) = .ok (.ofOutcomes limit outcomes) := by
  rw [loadSubmission, mapM_readSource_eq_ok_iff.2 ⟨rfl, h⟩]
  rfl

/-- What loading gives was put together from what reading each file gave. -/
theorem exists_outcomes_of_loadSubmission {d : Disk} {limit : Number} {paths : List RawText} {loaded : Loaded}
    (h : loadSubmission d paths (.ok limit) = .ok loaded) :
    ∃ outcomes : List (RawText × Except RawText String), outcomes.map Prod.fst = paths ∧
      (∀ o ∈ outcomes, readSource d o.1 (.ok limit) = .ok o.2) ∧ loaded = .ofOutcomes limit outcomes := by
  unfold loadSubmission at h
  cases hread : paths.mapM fun path => do return (path, ← readSource d path (.ok limit)) with
  | error e =>
    rw [hread] at h
    cases h
  | ok outcomes =>
    rw [hread] at h
    obtain ⟨hpaths, hreads⟩ := mapM_readSource_eq_ok_iff.1 hread
    exact ⟨outcomes, hpaths, hreads, (Except.ok.inj h).symm⟩

/-- Loading files gives a result, unless a path has a null character. -/
theorem exists_loadSubmission (d : Disk) {paths : List RawText} (h : ∀ path ∈ paths, Path.hasNull path = false)
    (limit : Number) : ∃ loaded, loadSubmission d paths (.ok limit) = .ok loaded := by
  have hread : ∃ outcomes,
      (paths.mapM fun path => do return (path, ← readSource d path (.ok limit))) = .ok outcomes := by
    apply exists_mapM_eq_ok
    intro path hp
    obtain ⟨outcome, ho⟩ := exists_readSource d (h path hp) limit
    rw [ho]
    exact ⟨(path, outcome), rfl⟩
  obtain ⟨outcomes, hread⟩ := hread
  rw [loadSubmission, hread]
  exact ⟨_, rfl⟩

end Semblance

/-
Reading what was written. A file that is written holds the bytes written, and whatever led to a place in the tree before
leads there still: directories are never written over. Main statement: `read_of_write`.
-/
import Verdicts.Host.Files
import Verdicts.Proofs.Text.Keyed

namespace Verdicts

namespace Files

/-! ## Putting an entry -/

/-- What is at a place is replaced where it is. -/
theorem lookup_replaced (place : Place) (entry : Entry) (other : Place) (entries : List (Place × Entry)) :
    (entries.map fun e => if e.1 = place then (place, entry) else e).lookup other =
      if other = place then (entries.lookup place).map fun _ => entry else entries.lookup other := by
  induction entries with
  | nil =>
    show none = _
    split <;> rfl
  | cons e entries ih =>
    rw [List.map_cons, Keyed.lookup_cons_eq, Keyed.lookup_cons_eq, Keyed.lookup_cons_eq, ih]
    by_cases hplace : e.1 = place
    · subst hplace
      rw [if_pos rfl, if_pos rfl]
      split <;> rfl
    · rw [if_neg hplace, if_neg (Ne.symm hplace)]
      by_cases hother : other = e.1
      · rw [if_pos hother, if_neg (hother ▸ hplace), if_pos hother]
      · rw [if_neg hother, if_neg hother]

theorem lookup_put (f : Files) (place : Place) (entry : Entry) (other : Place) :
    (f.put place entry).entries.lookup other = if other = place then some entry else f.entries.lookup other := by
  unfold put
  cases hfound : f.entries.lookup place with
  | some old =>
    show (f.entries.map _).lookup other = _
    rw [lookup_replaced, hfound, Option.map_some]
  | none =>
    show (f.entries ++ [(place, entry)]).lookup other = _
    rw [List.lookup_append, Keyed.lookup_cons_eq]
    by_cases hother : other = place
    · rw [if_pos hother, if_pos hother, hother, hfound, Option.none_or]
    · rw [if_neg hother, if_neg hother, List.lookup_nil, Option.or_none]

theorem at?_put_self (f : Files) {place : Place} (hplace : place ≠ []) (entry : Entry) :
    (f.put place entry).at? place = some entry := by
  unfold at?
  rw [if_neg (by simp [hplace]), lookup_put, if_pos rfl]

theorem at?_put_of_ne (f : Files) {place other : Place} (hne : other ≠ place) (entry : Entry) :
    (f.put place entry).at? other = f.at? other := by
  unfold at?
  rw [lookup_put, if_neg hne]

/-! ## Following paths -/

/-- A path leads to the same place where there are directories on its way, whatever else there is. -/
theorem follow_congr {f f' : Files} (h : ∀ place, f.at? place = some .directory → f'.at? place = some .directory)
    {parts : List String} {start place : Place} (hfollow : f.follow start parts = .ok place) :
    f'.follow start parts = .ok place := by
  induction parts generalizing start with
  | nil => exact hfollow
  | cons part rest ih =>
    unfold follow at hfollow ⊢
    split at hfollow
    · cases hfollow
    · rename_i hdirectory
      rw [h start hdirectory]
      simp only
      split
      · rw [if_pos ‹_›] at hfollow
        exact ih hfollow
      · rw [if_neg ‹_›] at hfollow
        split
        · rw [if_pos ‹_›] at hfollow
          exact ih hfollow
        · rw [if_neg ‹_›] at hfollow
          exact ih hfollow
    · cases hfollow

/-! ## Writing -/

/-- What a write does that succeeds: it puts the file where the path leads to, or leaves its bytes to a device. -/
theorem exists_of_write {f f' : Files} {p : Path} {bytes : Bytes} (h : f.write p bytes = .ok f') :
    ∃ place, f.locate p = .ok place ∧ f.at? place ≠ some .directory ∧
      (f' = f ∧ f.at? place = some .sink ∨ f' = f.put place (.file bytes)) := by
  unfold write at h
  split at h
  · cases h
  · rename_i place hlocate
    have hdirectory : f.at? place ≠ some .directory := by
      intro hdirectory
      rw [hdirectory] at h
      cases h
    split at h
    · cases h
    · cases h
    · split at h
      · rename_i hslashes
        rw [hslashes] at hlocate
        refine ⟨place, hlocate, hdirectory, ?_⟩
        split at h
        · cases h
          exact .inl ⟨rfl, ‹_›⟩
        · cases h
          exact .inr rfl
      · cases h
    · cases h

/-- A file that was written holds the bytes written, if it is a file and not a device. -/
theorem read_of_write {f f' : Files} {p : Path} {bytes : Bytes} (h : f.write p bytes = .ok f')
    (hfile : f'.isFile p = true) : f'.read p = .ok bytes := by
  obtain ⟨place, hlocate, hdirectory, hwritten⟩ := exists_of_write h
  rcases hwritten with ⟨rfl, hsink⟩ | rfl
  · unfold isFile find at hfile
    rw [hlocate] at hfile
    simp only [hsink] at hfile
    cases hfile
  · have hplace : place ≠ [] := by
      rintro rfl
      exact hdirectory rfl
    have hlocate' : (f.put place (.file bytes)).locate p = .ok place := by
      unfold locate at hlocate ⊢
      split at hlocate
      · cases hlocate
      · rw [if_neg ‹_›]
        have hparts : (f.put place (.file bytes)).workingDirectory = f.workingDirectory := by
          unfold put
          split <;> rfl
        rw [hparts]
        refine follow_congr (fun other hother => ?_) hlocate
        have hne : other ≠ place := by
          rintro rfl
          exact hdirectory hother
        rw [at?_put_of_ne f hne]
        exact hother
    unfold read find
    rw [hlocate']
    simp only [at?_put_self f hplace]

end Files

end Verdicts

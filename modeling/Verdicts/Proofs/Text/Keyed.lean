/-
Entries under keys: looking one up, and putting several in the order of their keys. Under different keys it does not
matter what is put first.
-/
import Mathlib.Data.List.Nodup
import Verdicts.Text.Keyed

namespace Verdicts.Keyed

/-! ## Looking up -/

section Lookup

variable {κ α : Type} [BEq κ] [LawfulBEq κ] [DecidableEq κ]

theorem lookup_cons_eq (entry : κ × α) (entries : List (κ × α)) (key : κ) :
    (entry :: entries).lookup key = if key = entry.1 then some entry.2 else entries.lookup key := by
  rw [List.lookup_cons]
  by_cases h : key = entry.1
  · rw [if_pos h, beq_iff_eq.2 h]
  · rw [if_neg h, beq_eq_false_iff_ne.2 h]

theorem lookup_eq_none {entries : List (κ × α)} {key : κ} : entries.lookup key = none ↔ key ∉ entries.map (·.1) := by
  induction entries with
  | nil => simp
  | cons entry rest ih =>
    rw [lookup_cons_eq, List.map_cons, List.mem_cons, not_or, ← ih]
    by_cases h : key = entry.1
    · simp [h]
    · simp [h]

theorem mem_of_lookup {entries : List (κ × α)} {key : κ} {value : α} (h : entries.lookup key = some value) :
    (key, value) ∈ entries := by
  induction entries with
  | nil => cases h
  | cons entry rest ih =>
    rw [lookup_cons_eq] at h
    split at h
    · rename_i hkey
      cases h
      exact hkey ▸ List.mem_cons_self ..
    · exact List.mem_cons_of_mem _ (ih h)

end Lookup

/-! ## Putting -/

variable {α : Type}

/-- A key finds the value that was put last under it, and what is put under one key changes no other. -/
theorem get?_put (key key' : String) (value : α) (entries : Keyed α) :
    (put key value entries).get? key' = if key' = key then some value else entries.get? key' := by
  induction entries with
  | nil => rw [put, get?, lookup_cons_eq, get?]
  | cons entry rest ih =>
    obtain ⟨k, v⟩ := entry
    simp only [get?] at ih ⊢
    rw [put]
    split
    · rw [lookup_cons_eq]
    · split
      · rename_i hkey
        subst hkey
        simp only [lookup_cons_eq]
        split <;> rfl
      · rename_i hne
        rw [lookup_cons_eq, ih, lookup_cons_eq]
        by_cases hk : key' = k
        · rw [if_pos hk, if_pos hk, if_neg fun heq => hne (heq.symm.trans hk)]
        · rw [if_neg hk, if_neg hk]

theorem put_comm {key key' : String} (h : key ≠ key') (value value' : α) (entries : Keyed α) :
    put key value (put key' value' entries) = put key' value' (put key value entries) := by
  induction entries with
  | nil => grind [put]
  | cons entry rest ih =>
    obtain ⟨k, v⟩ := entry
    -- each of the two keys is below `k`, equal to it or above it
    grind [put]

theorem ofList_perm {entries entries' : List (String × α)} (hdistinct : (entries.map (·.1)).Nodup)
    (h : entries.Perm entries') : ofList entries = ofList entries' := by
  refine h.foldl_eq' ?_ []
  rintro ⟨key, value⟩ hentry ⟨key', value'⟩ hentry' kept
  by_cases hkey : key = key'
  · have heq := List.inj_on_of_nodup_map hdistinct hentry hentry' hkey
    rw [heq]
  · exact put_comm (Ne.symm hkey) value' value kept

end Verdicts.Keyed

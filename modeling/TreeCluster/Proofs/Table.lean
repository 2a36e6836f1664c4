import Mathlib
import TreeCluster.Table

/-! # What a table holds

Looking up a key and going through the entries tell the same of a table that holds every key at
most once. -/

namespace TreeCluster.Table

variable {α β : Type} [DecidableEq α]

theorem contains_eq_true_iff (t : Table α β) (key : α) :
    t.contains key = true ↔ ∃ value, t.get? key = some value := by
  simp [contains, Option.isSome_iff_exists]

theorem isEmpty_eq_true_iff (t : Table α β) :
    t.isEmpty = true ↔ ∀ key, t.get? key = none := by
  obtain ⟨entries⟩ := t
  cases entries with
  | nil => simp [isEmpty, get?, find]
  | cons e rest =>
      have : find e.1 (e :: rest) ≠ none := by simp [find]
      simpa [isEmpty, get?] using ⟨e.1, this⟩

theorem get?_of_mem_entries {t : Table α β} (nodup : t.keys.Nodup) {e : α × β}
    (inside : e ∈ t.entries) : t.get? e.1 = some e.2 := by
  obtain ⟨entries⟩ := t
  simp only [keys, get?] at *
  induction entries with
  | nil => cases inside
  | cons x rest ih =>
      obtain ⟨foreign, nodup⟩ := List.nodup_cons.mp nodup
      rcases List.mem_cons.mp inside with rfl | inside
      · simp [find]
      · have : x.1 ≠ e.1 := fun same => foreign (same ▸ List.mem_map_of_mem inside)
        simpa [find, this] using ih nodup inside

theorem mem_entries_of_get? {t : Table α β} {key : α} {value : β} (h : t.get? key = some value) :
    (key, value) ∈ t.entries := by
  obtain ⟨entries⟩ := t
  simp only [get?] at h
  induction entries with
  | nil => cases h
  | cons e rest ih =>
      by_cases same : e.1 = key
      · simp only [find, same, if_true, Option.some.injEq] at h
        subst h same
        exact List.mem_cons_self ..
      · simp only [find, same, if_false] at h
        exact List.mem_cons_of_mem _ (ih h)

theorem mem_keys_iff {t : Table α β} (nodup : t.keys.Nodup) (key : α) :
    key ∈ t.keys ↔ ∃ value, t.get? key = some value := by
  constructor
  · intro h
    obtain ⟨e, inside, rfl⟩ := List.mem_map.mp h
    exact ⟨e.2, get?_of_mem_entries nodup inside⟩
  · rintro ⟨value, h⟩
    exact List.mem_map_of_mem (mem_entries_of_get? h)

theorem size_eq_encard {t : Table α β} (nodup : t.keys.Nodup) :
    (t.size : ℕ∞) = {key | ∃ value, t.get? key = some value}.encard := by
  have found : {key | ∃ value, t.get? key = some value} = (t.keys.toFinset : Set α) := by
    ext key
    simp [mem_keys_iff nodup]
  rw [found, Set.encard_coe_eq_coe_finsetCard, List.toFinset_card_of_nodup nodup, keys,
    List.length_map, size]

end TreeCluster.Table

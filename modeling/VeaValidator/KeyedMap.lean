import VeaValidator.Keyed
import Mathlib.Data.Finmap

/-!
Keyed tables as finite maps.

A table without two entries of one key stands for the map from the keys to their entries. What
`Keyed` has for the change of a table is then the operation of the map.
-/

namespace Keyed

variable {α κ : Type} [DecidableEq κ] (key : α → κ)

/-- The table has the entries of the map, each once. -/
structure Holds (l : List α) (m : Finmap fun _ : κ => α) : Prop where
  nodup : (l.map key).Nodup
  lookup_eq : ∀ k, lookup key k l = m.lookup k

variable {key} {l : List α} {m : Finmap fun _ : κ => α} {k k' : κ} {a : α} {f : α → α}

lemma holds_nil : Holds key [] ∅ := by
  refine ⟨List.nodup_nil, fun k => ?_⟩
  rw [Finmap.lookup_empty]
  rfl

lemma lookup_isSome : (lookup key k l).isSome ↔ ∃ a ∈ l, key a = k := by
  rw [lookup, List.find?_isSome]
  simp

namespace Holds

lemma entries_eq (h : Holds key l m) (k : κ) : entries key k l = (m.lookup k).toList := by
  rw [entries_eq_toList h.nodup, h.lookup_eq]

lemma mem_iff (h : Holds key l m) : k ∈ m ↔ ∃ a ∈ l, key a = k := by
  rw [← Finmap.lookup_isSome, ← h.lookup_eq, lookup_isSome]

/-- A new key comes at the end of the table. -/
lemma append (h : Holds key l m) (hnew : key a ∉ m) : Holds key (l ++ [a]) (m.insert (key a) a) := by
  have hnone : lookup key (key a) l = none := by
    rw [h.lookup_eq, Finmap.lookup_eq_none]
    exact hnew
  constructor
  · have hnot : key a ∉ l.map key := by
      intro hm
      obtain ⟨b, hb, hba⟩ := List.mem_map.mp hm
      exact hnew (h.mem_iff.mpr ⟨b, hb, hba⟩)
    rw [List.map_append, List.map_singleton]
    exact h.nodup.append (List.nodup_singleton _) (List.disjoint_singleton.mpr hnot)
  · intro k
    rw [lookup_append_singleton]
    by_cases hk : key a = k
    · subst hk
      rw [hnone, Option.none_or, if_pos rfl, Finmap.lookup_insert]
    · rw [if_neg hk, Option.or_none, h.lookup_eq, Finmap.lookup_insert_of_ne _ (Ne.symm hk)]

/-- An update of the first entry of a key is the only update there is. -/
lemma update (h : Holds key l m) (hf : ∀ a, key (f a) = key a) (ha : m.lookup k = some a) :
    Holds key (Keyed.update key k f l) (m.insert k (f a)) := by
  constructor
  · rw [map_key_update hf]
    exact h.nodup
  · intro k'
    rw [lookup_update hf]
    by_cases hk : k' = k
    · subst hk
      rw [if_pos rfl, h.lookup_eq, ha, Option.map_some, Finmap.lookup_insert]
    · rw [if_neg hk, h.lookup_eq, Finmap.lookup_insert_of_ne _ hk]

lemma erase (h : Holds key l m) : Holds key (Keyed.erase key k l) (m.erase k) := by
  constructor
  · exact h.nodup.sublist (List.Sublist.map _ List.filter_sublist)
  · intro k'
    rw [lookup_erase]
    by_cases hk : k' = k
    · subst hk
      rw [if_pos rfl, Finmap.lookup_erase]
    · rw [if_neg hk, h.lookup_eq, Finmap.lookup_erase_ne hk]

end Holds

end Keyed

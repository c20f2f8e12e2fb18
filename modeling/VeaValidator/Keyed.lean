import Mathlib.Data.List.Basic

/-!
Lists as keyed tables: the first entry with a key, an update of it, and the removal of all
entries with a key.
-/

namespace Keyed

variable {α κ : Type*} [DecidableEq κ] (key : α → κ)

/-- The first entry with key `k`. -/
def lookup (k : κ) (l : List α) : Option α := l.find? fun a => key a = k

/-- All entries with key `k`. -/
def entries (k : κ) (l : List α) : List α := l.filter fun a => key a = k

/-- The table without the entries with key `k`. -/
def erase (k : κ) (l : List α) : List α := l.filter fun a => key a ≠ k

/-- The table with `f` applied to the first entry with key `k`. -/
def update (k : κ) (f : α → α) : List α → List α
  | [] => []
  | a :: l => if key a = k then f a :: l else a :: update k f l

variable {key} {k k' : κ} {l : List α} {a b : α} {f : α → α}

@[simp] lemma lookup_nil : lookup key k [] = none := rfl

lemma lookup_append_singleton :
    lookup key k (l ++ [a]) = (lookup key k l).or (if key a = k then some a else none) := by
  rw [lookup, List.find?_append]
  by_cases h : key a = k <;> simp [lookup, h]

lemma lookup_erase : lookup key k' (erase key k l) = if k' = k then none else lookup key k' l := by
  unfold lookup erase
  rw [List.find?_filter]
  split
  · next h =>
    subst h
    simp
  · next h =>
    congr 1
    funext a
    by_cases ha : key a = k'
    · simp [ha, h]
    · simp [ha]

lemma lookup_update (hf : ∀ a, key (f a) = key a) :
    lookup key k' (update key k f l) =
      if k' = k then (lookup key k l).map f else lookup key k' l := by
  induction l with
  | nil => simp [update]
  | cons a l ih =>
    by_cases ha : key a = k
    · by_cases hk : k' = k
      · simp [update, lookup, ha, hf, hk]
      · simp [update, lookup, ha, hf, hk, Ne.symm hk]
    · by_cases hk : k' = k
      · have ih' := ih
        simp only [hk, if_true] at ih' ⊢
        simpa [update, lookup, ha] using ih'
      · by_cases ha' : key a = k'
        · simp [update, lookup, hk, ha']
        · simp only [hk, if_false] at ih ⊢
          simpa [update, lookup, ha, ha'] using ih

lemma mem_update (h : b ∈ update key k f l) : ∃ a ∈ l, b = a ∨ b = f a := by
  induction l with
  | nil => cases h
  | cons a l ih =>
    rw [update] at h
    split at h
    · rcases List.mem_cons.mp h with rfl | h
      · exact ⟨a, List.mem_cons_self, .inr rfl⟩
      · exact ⟨b, List.mem_cons_of_mem a h, .inl rfl⟩
    · rcases List.mem_cons.mp h with rfl | h
      · exact ⟨b, List.mem_cons_self, .inl rfl⟩
      · obtain ⟨c, hc, hb⟩ := ih h
        exact ⟨c, List.mem_cons_of_mem a hc, hb⟩

/-- What an update has changed had the key. -/
lemma mem_update_key (h : b ∈ update key k f l) : b ∈ l ∨ ∃ a ∈ l, key a = k ∧ b = f a := by
  induction l with
  | nil => cases h
  | cons a l ih =>
    rw [update] at h
    split at h
    · next hk =>
      rcases List.mem_cons.mp h with rfl | h
      · exact .inr ⟨a, List.mem_cons_self, hk, rfl⟩
      · exact .inl (List.mem_cons_of_mem a h)
    · rcases List.mem_cons.mp h with rfl | h
      · exact .inl List.mem_cons_self
      · rcases ih h with hb | ⟨c, hc, hk, hb⟩
        · exact .inl (List.mem_cons_of_mem a hb)
        · exact .inr ⟨c, List.mem_cons_of_mem a hc, hk, hb⟩

lemma map_key_update (hf : ∀ a, key (f a) = key a) : (update key k f l).map key = l.map key := by
  induction l with
  | nil => rfl
  | cons a l ih => by_cases h : key a = k <;> simp [update, h, hf, ih]

/-- An update is lost when its key is erased. -/
lemma erase_update (hf : ∀ a, key (f a) = key a) :
    erase key k (update key k f l) = erase key k l := by
  induction l with
  | nil => rfl
  | cons a l ih =>
    unfold erase at ih ⊢
    by_cases h : key a = k
    · simp only [update, h, if_true, List.filter_cons, hf, ne_eq, not_true_eq_false,
        decide_false, Bool.false_eq_true, if_false]
    · simp only [update, h, if_false, List.filter_cons, ih]

lemma mem_keys_erase : k' ∈ (erase key k l).map key ↔ k' ∈ l.map key ∧ k' ≠ k := by
  simp only [erase, List.mem_map, List.mem_filter, decide_eq_true_eq]
  constructor
  · rintro ⟨a, ⟨ha, hk⟩, rfl⟩
    exact ⟨⟨a, ha, rfl⟩, hk⟩
  · rintro ⟨⟨a, ha, rfl⟩, hk⟩
    exact ⟨a, ⟨ha, hk⟩, rfl⟩

lemma entries_eq_nil_iff : entries key k l = [] ↔ lookup key k l = none := by
  simp [entries, lookup]

lemma lookup_eq_head?_entries : lookup key k l = (entries key k l).head? := by
  rw [lookup, entries, List.head?_filter]

lemma entries_append_singleton :
    entries key k (l ++ [a]) = entries key k l ++ if key a = k then [a] else [] := by
  rw [entries, List.filter_append]
  by_cases h : key a = k <;> simp [entries, h]

/-- Where no two entries have one key, there is at most one of each. -/
lemma entries_eq_toList (h : (l.map key).Nodup) : entries key k l = (lookup key k l).toList := by
  induction l with
  | nil => rfl
  | cons a l ih =>
    obtain ⟨hnot, hl⟩ := List.nodup_cons.mp h
    have ih' := ih hl
    unfold entries lookup at ih' ⊢
    by_cases ha : key a = k
    · have hnone : ∀ b ∈ l, key b ≠ k := fun b hb hk =>
        hnot (List.mem_map.mpr ⟨b, hb, hk.trans ha.symm⟩)
      rw [List.filter_cons_of_pos (by simpa using ha), List.find?_cons_of_pos (by simpa using ha),
        List.filter_eq_nil_iff.mpr fun b hb => by simpa using hnone b hb]
      rfl
    · rw [List.filter_cons_of_neg (by simpa using ha), List.find?_cons_of_neg (by simpa using ha)]
      exact ih'

/-- The only entry of a key is the one an update of the key changes. -/
lemma entries_update_of_singleton (hf : ∀ a, key (f a) = key a) (h : entries key k l = [a]) :
    entries key k (update key k f l) = [f a] := by
  induction l with
  | nil => cases h
  | cons b l ih =>
    unfold entries at h ih ⊢
    by_cases hb : key b = k
    · rw [List.filter_cons_of_pos (by simpa using hb), List.cons.injEq] at h
      obtain ⟨rfl, hl⟩ := h
      rw [update, if_pos hb, List.filter_cons_of_pos (by simp [hf, hb]), hl]
    · rw [List.filter_cons_of_neg (by simpa using hb)] at h
      rw [update, if_neg hb, List.filter_cons_of_neg (by simpa using hb)]
      exact ih h

/-! ### The entries of a coarser key -/

section
variable {κ' : Type*} [DecidableEq κ'] {key' : α → κ'} {g : κ → κ'} {j : κ'}

lemma entries_erase (hkey : ∀ a, key' a = g (key a)) : entries key' j (erase key k l) =
    if g k = j then erase key k (entries key' j l) else entries key' j l := by
  unfold entries erase
  rw [List.filter_filter]
  by_cases hj : g k = j
  · rw [if_pos hj, List.filter_filter]
    exact List.filter_congr fun a _ => Bool.and_comm _ _
  · rw [if_neg hj]
    refine List.filter_congr fun a _ => ?_
    by_cases ha : key' a = j
    · have hne : key a ≠ k := fun hk => hj (by rw [← hk, ← hkey, ha])
      simp [ha, hne]
    · simp [ha]

lemma entries_update (hkey : ∀ a, key' a = g (key a)) (hf : ∀ a, key (f a) = key a) :
    entries key' j (update key k f l) =
      if g k = j then update key k f (entries key' j l) else entries key' j l := by
  have hf' : ∀ a, key' (f a) = key' a := fun a => by rw [hkey, hkey, hf]
  unfold entries
  induction l with
  | nil => simp [update]
  | cons a l ih =>
    by_cases ha : key a = k
    · have ha' : key' a = g k := by rw [hkey, ha]
      by_cases hj : g k = j
      · simp [update, ha, ha', hf', hj]
      · simp [update, ha, ha', hf', hj]
    · rw [update, if_neg ha]
      by_cases ha' : key' a = j
      · rw [List.filter_cons_of_pos (by simpa using ha'),
          List.filter_cons_of_pos (by simpa using ha'), ih]
        split
        · rw [update, if_neg ha]
        · rfl
      · rw [List.filter_cons_of_neg (by simpa using ha'),
          List.filter_cons_of_neg (by simpa using ha'), ih]

end

end Keyed

import Mathlib.Data.List.Pairwise
import Mathlib.Order.Lattice
import Mathlib.Order.Defs.LinearOrder

/-!
# Ordered maps

`OrdMap κ α` is `std::map`: a list of entries with strictly ascending keys, the order in which the
map is iterated. Lookup determines the map (`OrdMap.ext_find`), so maps are compared by what they
hold (`find_insert`, `find_erase`, `find_modify`).
-/

set_option autoImplicit false

namespace Lib

structure OrdMap (κ α : Type) [LinearOrder κ] where
  entries : List (κ × α)
  sorted : entries.Pairwise fun a b => a.1 < b.1

namespace OrdMap

variable {κ α β : Type} [LinearOrder κ]

/-! ## Entry lists -/

def findEntry (k : κ) : List (κ × α) → Option α
  | [] => none
  | (k', a) :: es => if k = k' then some a else findEntry k es

def insertEntry (k : κ) (a : α) : List (κ × α) → List (κ × α)
  | [] => [(k, a)]
  | (k', a') :: es =>
    if k < k' then (k, a) :: (k', a') :: es
    else if k = k' then (k, a) :: es
    else (k', a') :: insertEntry k a es

theorem mem_insertEntry {k : κ} {a : α} {e : κ × α} :
    ∀ {es : List (κ × α)}, e ∈ insertEntry k a es → e = (k, a) ∨ e ∈ es
  | [], h => .inl (List.mem_singleton.1 h)
  | (k', a') :: es, h => by
    unfold insertEntry at h
    split at h
    · rcases List.mem_cons.1 h with h | h
      · exact .inl h
      · exact .inr h
    · split at h
      · rcases List.mem_cons.1 h with h | h
        · exact .inl h
        · exact .inr (List.mem_cons_of_mem _ h)
      · rcases List.mem_cons.1 h with rfl | h
        · exact .inr List.mem_cons_self
        · rcases mem_insertEntry h with h | h
          · exact .inl h
          · exact .inr (List.mem_cons_of_mem _ h)

theorem sorted_insertEntry (k : κ) (a : α) :
    ∀ {es : List (κ × α)}, es.Pairwise (fun a b => a.1 < b.1) →
      (insertEntry k a es).Pairwise fun a b => a.1 < b.1
  | [], _ => List.pairwise_singleton _ _
  | (k', a') :: es, h => by
    obtain ⟨hhead, htail⟩ := List.pairwise_cons.1 h
    unfold insertEntry
    split
    · rename_i hlt
      refine List.pairwise_cons.2 ⟨fun e he => ?_, h⟩
      rcases List.mem_cons.1 he with rfl | he
      · exact hlt
      · exact hlt.trans (hhead e he)
    · rename_i hnlt
      split
      · rename_i heq
        subst heq
        exact List.pairwise_cons.2 ⟨hhead, htail⟩
      · rename_i hne
        refine List.pairwise_cons.2 ⟨fun e he => ?_, sorted_insertEntry k a htail⟩
        rcases mem_insertEntry he with rfl | he
        · exact lt_of_le_of_ne (not_lt.1 hnlt) (Ne.symm hne)
        · exact hhead e he

theorem findEntry_insertEntry (k : κ) (a : α) (k₀ : κ) :
    ∀ es : List (κ × α),
      findEntry k₀ (insertEntry k a es) = if k₀ = k then some a else findEntry k₀ es
  | [] => rfl
  | (k', a') :: es => by
    unfold insertEntry
    split
    · rfl
    · split
      · rename_i heq
        subst heq
        simp only [findEntry]
        split <;> rfl
      · rename_i hne
        simp only [findEntry, findEntry_insertEntry k a k₀ es]
        by_cases hk : k₀ = k'
        · subst hk
          simp [Ne.symm hne]
        · simp [hk]

theorem findEntry_none {k : κ} :
    ∀ {es : List (κ × α)}, (∀ e ∈ es, k ≠ e.1) → findEntry k es = none
  | [], _ => rfl
  | (k', a) :: es, h => by
    rw [findEntry, if_neg (h (k', a) List.mem_cons_self)]
    exact findEntry_none fun e he => h e (List.mem_cons_of_mem _ he)

theorem findEntry_filter (k : κ) (p : κ × α → Bool) (hp : ∀ a b, p (k, a) = p (k, b)) :
    ∀ es : List (κ × α), findEntry k (es.filter p) = (findEntry k es).filter fun a => p (k, a)
  | [] => rfl
  | (k', a) :: es => by
    have ih := findEntry_filter k p hp es
    by_cases hk : k = k'
    · subst hk
      cases hpa : p (k, a) with
      | true => simp [List.filter_cons_of_pos, hpa, findEntry, Option.filter]
      | false =>
        rw [List.filter_cons_of_neg (by simp [hpa]), ih]
        cases hf : findEntry k es with
        | none => simp [findEntry, Option.filter, hpa]
        | some b => simp [findEntry, Option.filter, hp b a, hpa]
    · cases hpa : p (k', a) with
      | true => rw [List.filter_cons_of_pos hpa, findEntry, if_neg hk, ih, findEntry, if_neg hk]
      | false => rw [List.filter_cons_of_neg (by simp [hpa]), ih, findEntry, if_neg hk]

theorem mem_of_findEntry {k : κ} {a : α} :
    ∀ {es : List (κ × α)}, findEntry k es = some a → (k, a) ∈ es
  | [], h => by cases h
  | (k', a') :: es, h => by
    unfold findEntry at h
    split at h
    · rename_i hk
      subst hk
      cases h
      exact List.mem_cons_self
    · exact List.mem_cons_of_mem _ (mem_of_findEntry h)

theorem findEntry_of_mem {k : κ} {a : α} :
    ∀ {es : List (κ × α)}, es.Pairwise (fun a b => a.1 < b.1) → (k, a) ∈ es →
      findEntry k es = some a
  | [], _, h => by cases h
  | (k', a') :: es, hs, h => by
    obtain ⟨hhead, htail⟩ := List.pairwise_cons.1 hs
    rcases List.mem_cons.1 h with he | h
    · cases he
      rw [findEntry, if_pos rfl]
    · have hlt := hhead _ h
      rw [findEntry, if_neg (ne_of_gt hlt)]
      exact findEntry_of_mem htail h

/-! ## Maps -/

def empty : OrdMap κ α := ⟨[], .nil⟩

def find (m : OrdMap κ α) (k : κ) : Option α := findEntry k m.entries

/-- `m[k] = a` -/
def insert (m : OrdMap κ α) (k : κ) (a : α) : OrdMap κ α :=
  ⟨insertEntry k a m.entries, sorted_insertEntry k a m.sorted⟩

def erase (m : OrdMap κ α) (k : κ) : OrdMap κ α :=
  ⟨m.entries.filter fun e => e.1 ≠ k, m.sorted.filter _⟩

/-- Change the value at `k`, if there is one. -/
def modify (m : OrdMap κ α) (k : κ) (f : α → α) : OrdMap κ α :=
  match m.find k with
  | some a => m.insert k (f a)
  | none => m

def keys (m : OrdMap κ α) : List κ := m.entries.map (·.1)

@[simp] theorem find_empty (k : κ) : (empty : OrdMap κ α).find k = none := rfl

@[simp] theorem find_insert (m : OrdMap κ α) (k : κ) (a : α) (k₀ : κ) :
    (m.insert k a).find k₀ = if k₀ = k then some a else m.find k₀ :=
  findEntry_insertEntry k a k₀ m.entries

@[simp] theorem find_erase (m : OrdMap κ α) (k k₀ : κ) :
    (m.erase k).find k₀ = if k₀ = k then none else m.find k₀ := by
  unfold find erase
  rw [findEntry_filter k₀ _ fun _ _ => rfl]
  by_cases h : k₀ = k
  · subst h
    cases findEntry k₀ m.entries <;> simp [Option.filter]
  · cases findEntry k₀ m.entries <;> simp [Option.filter, h]

@[simp] theorem find_modify (m : OrdMap κ α) (k : κ) (f : α → α) (k₀ : κ) :
    (m.modify k f).find k₀ = if k₀ = k then (m.find k).map f else m.find k₀ := by
  unfold modify
  cases hf : m.find k with
  | none =>
    by_cases h : k₀ = k
    · subst h
      simp [hf]
    · simp [h]
  | some a => simp

theorem mem_entries_iff {m : OrdMap κ α} {k : κ} {a : α} :
    (k, a) ∈ m.entries ↔ m.find k = some a :=
  ⟨findEntry_of_mem m.sorted, mem_of_findEntry⟩

theorem mem_keys_iff {m : OrdMap κ α} {k : κ} : k ∈ m.keys ↔ (m.find k).isSome := by
  rw [keys, List.mem_map, Option.isSome_iff_exists]
  constructor
  · rintro ⟨⟨k', a⟩, he, rfl⟩
    exact ⟨a, mem_entries_iff.1 he⟩
  · rintro ⟨a, ha⟩
    exact ⟨(k, a), mem_entries_iff.2 ha, rfl⟩

theorem entries_erase_head {m : OrdMap κ α} {e : κ × α} {es : List (κ × α)}
    (h : m.entries = e :: es) : (m.erase e.1).entries = es := by
  have hs := m.sorted
  rw [h] at hs
  obtain ⟨hhead, -⟩ := List.pairwise_cons.1 hs
  have hne : ∀ e' ∈ es, e'.1 ≠ e.1 := fun e' he' => ne_of_gt (hhead e' he')
  simp only [erase, h]
  rw [List.filter_cons_of_neg (by simp), List.filter_eq_self]
  simpa using hne

/-- **Lookup determines the map.** -/
theorem ext_find {m m' : OrdMap κ α} (h : ∀ k, m.find k = m'.find k) : m = m' := by
  have hmem : ∀ e, e ∈ m.entries ↔ e ∈ m'.entries := by
    rintro ⟨k, a⟩
    rw [mem_entries_iff, mem_entries_iff, h]
  have hirr : ∀ {es : List (κ × α)}, es.Pairwise (fun a b => a.1 < b.1) → es.Nodup := fun hs =>
    hs.imp fun hlt he => absurd hlt (by rw [he]; exact lt_irrefl _)
  have hperm := (List.perm_ext_iff_of_nodup (hirr m.sorted) (hirr m'.sorted)).2 hmem
  have heq := hperm.eq_of_pairwise (fun a b _ _ hab hba => absurd hab (not_lt.2 hba.le))
    m.sorted m'.sorted
  cases m
  cases m'
  simp only [OrdMap.mk.injEq]
  exact heq

/-! ## New keys -/

theorem insertEntry_last {k : κ} (a : α) :
    ∀ {es : List (κ × α)}, (∀ e ∈ es, e.1 < k) → insertEntry k a es = es ++ [(k, a)]
  | [], _ => rfl
  | (k', a') :: es, h => by
    have hlt := h (k', a') List.mem_cons_self
    rw [insertEntry, if_neg (not_lt.2 hlt.le), if_neg (ne_of_gt hlt),
      insertEntry_last a fun e he => h e (List.mem_cons_of_mem _ he), List.cons_append]

theorem entries_insert_last {m : OrdMap κ α} {k : κ} (h : ∀ k' ∈ m.keys, k' < k) (a : α) :
    (m.insert k a).entries = m.entries ++ [(k, a)] :=
  insertEntry_last a fun e he => h e.1 (List.mem_map_of_mem he)

theorem modify_insert (m : OrdMap κ α) (k : κ) (a : α) (f : α → α) :
    (m.insert k a).modify k f = m.insert k (f a) := by
  refine ext_find fun k₀ => ?_
  rw [find_modify, find_insert, find_insert, find_insert]
  split
  · rw [if_pos rfl, Option.map_some]
  · rfl

end OrdMap

end Lib

/-
# Counting dictionaries

A tally is a dictionary that keeps, for each key it holds, how many times the
key was counted.  A key is dropped when its last count goes, so the keys are
exactly what is counted at least once (`Positive`), and the total is the sum of
the values.  The dictionary is Mathlib's `AList`: its keys are distinct by
construction.
-/

import Mathlib.Algebra.GroupWithZero.Nat
import Mathlib.Data.List.AList

/-- A dictionary from keys to counts. -/
abbrev Tally (κ : Type*) := AList fun _ : κ => ℕ

namespace Tally

variable {κ : Type*} [DecidableEq κ]

/-- The count of a key, `0` for a key that is not held. -/
def count (t : Tally κ) (k : κ) : ℕ := (t.lookup k).getD 0

/-- The sum of the values. -/
def total (t : Tally κ) : ℕ := (t.entries.map Sigma.snd).sum

/-- No key is held with the count `0`. -/
def Positive (t : Tally κ) : Prop := ∀ k n, t.lookup k = some n → 0 < n

@[simp] theorem count_empty (k : κ) : count (∅ : Tally κ) k = 0 := rfl

theorem positive_empty : Positive (∅ : Tally κ) := by
  intro k n h
  simp at h

theorem count_insert (t : Tally κ) (k j : κ) (n : ℕ) :
    count (t.insert k n) j = if j = k then n else count t j := by
  unfold count
  split_ifs with h
  · subst h
    simp
  · rw [AList.lookup_insert_ne h]

theorem count_erase (t : Tally κ) (k j : κ) :
    count (t.erase k) j = if j = k then 0 else count t j := by
  unfold count
  split_ifs with h
  · subst h
    simp
  · rw [AList.lookup_erase_ne h]

/-- A held key is counted at least once. -/
theorem count_pos_iff {t : Tally κ} (ht : t.Positive) {k : κ} : 0 < count t k ↔ k ∈ t := by
  rw [← AList.lookup_isSome]
  unfold count
  cases h : t.lookup k with
  | none => simp
  | some n => simpa using ht k n h

/-- Taking a key out takes its count off the total. -/
theorem total_eq_count_add_erase (t : Tally κ) (k : κ) :
    t.total = t.count k + total (t.erase k) := by
  by_cases hk : k ∈ t
  · obtain ⟨n, l₁, l₂, -, hl, he⟩ := List.exists_of_kerase (AList.mem_keys.1 hk)
    have hn : t.lookup k = some n :=
      AList.mem_lookup_iff.2 (by rw [hl]; simp)
    have he' : (t.erase k).entries = l₁ ++ l₂ := he
    unfold total count
    rw [hn, he', hl]
    simp only [List.map_append, List.map_cons, List.sum_append, List.sum_cons, Option.getD_some]
    omega
  · have he : t.erase k = t := AList.ext (List.kerase_of_notMem_keys (mt AList.mem_keys.2 hk))
    have hn : t.count k = 0 := by
      unfold count
      rw [AList.lookup_eq_none.2 hk]
      rfl
    rw [he, hn, Nat.zero_add]

theorem total_insert (t : Tally κ) (k : κ) (n : ℕ) :
    total (t.insert k n) = n + total (t.erase k) := by
  unfold total
  rw [AList.entries_insert]
  rfl

theorem Positive.insert {t : Tally κ} (ht : t.Positive) (k : κ) {n : ℕ} (hn : 0 < n) :
    Positive (t.insert k n) := by
  intro j m h
  by_cases hj : j = k
  · subst hj
    rw [AList.lookup_insert] at h
    cases h
    exact hn
  · rw [AList.lookup_insert_ne hj] at h
    exact ht j m h

theorem Positive.erase {t : Tally κ} (ht : t.Positive) (k : κ) : Positive (t.erase k) := by
  intro j m h
  by_cases hj : j = k
  · subst hj
    simp at h
  · rw [AList.lookup_erase_ne hj] at h
    exact ht j m h

/-- A positive tally is empty exactly when no key is counted. -/
theorem total_eq_zero_iff {t : Tally κ} (ht : t.Positive) :
    t.total = 0 ↔ ∀ k, t.count k = 0 := by
  constructor
  · intro h k
    have := t.total_eq_count_add_erase k
    omega
  · intro h
    have hempty : t.entries = [] := by
      rw [List.eq_nil_iff_forall_not_mem]
      rintro ⟨k, n⟩ hk
      have hlk : t.lookup k = some n := AList.mem_lookup_iff.2 hk
      have hc := h k
      have := ht k n hlk
      rw [count, hlk] at hc
      simp at hc
      omega
    simp [total, hempty]

end Tally

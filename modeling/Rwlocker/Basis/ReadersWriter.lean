/-
# The readers–writer discipline

What a readers–writer lock is for, without a word on how it does it.  Every
owner holds a number of read acquisitions and a number of write acquisitions
(`Holds`).  A read may be granted while nobody else writes, a write while nobody
else holds anything; what is held may be given back one by one, and a write
hold may be turned into a read hold (`Grant`).

Exclusion (`Holds.Exclusive`) is an invariant of this system: while one owner
writes, nobody else reads or writes.
-/

import Mathlib.Data.Nat.Notation
import Mathlib.Logic.Function.Basic

namespace ReadersWriter

variable {κ : Type*} [DecidableEq κ]

/-- The outstanding acquisitions of every owner. -/
@[ext] structure Holds (κ : Type*) where
  reads : κ → ℕ
  writes : κ → ℕ

namespace Holds

/-- Nobody holds anything. -/
def free : Holds κ := ⟨fun _ => 0, fun _ => 0⟩

/-- One more read hold for `k`. -/
def addRead (h : Holds κ) (k : κ) : Holds κ :=
  { h with reads := Function.update h.reads k (h.reads k + 1) }

/-- One more write hold for `k`. -/
def addWrite (h : Holds κ) (k : κ) : Holds κ :=
  { h with writes := Function.update h.writes k (h.writes k + 1) }

/-- One read hold of `k` given back. -/
def dropRead (h : Holds κ) (k : κ) : Holds κ :=
  { h with reads := Function.update h.reads k (h.reads k - 1) }

/-- One write hold of `k` given back. -/
def dropWrite (h : Holds κ) (k : κ) : Holds κ :=
  { h with writes := Function.update h.writes k (h.writes k - 1) }

/-- One write hold of `k` turned into a read hold. -/
def downgrade (h : Holds κ) (k : κ) : Holds κ := (h.dropWrite k).addRead k

/-! ### The holds after each operation, owner by owner -/

@[simp] theorem addRead_reads (h : Holds κ) (k j : κ) :
    (h.addRead k).reads j = if j = k then h.reads k + 1 else h.reads j :=
  Function.update_apply ..

@[simp] theorem addRead_writes (h : Holds κ) (k : κ) : (h.addRead k).writes = h.writes := rfl

@[simp] theorem addWrite_reads (h : Holds κ) (k : κ) : (h.addWrite k).reads = h.reads := rfl

@[simp] theorem addWrite_writes (h : Holds κ) (k j : κ) :
    (h.addWrite k).writes j = if j = k then h.writes k + 1 else h.writes j :=
  Function.update_apply ..

@[simp] theorem dropRead_reads (h : Holds κ) (k j : κ) :
    (h.dropRead k).reads j = if j = k then h.reads k - 1 else h.reads j :=
  Function.update_apply ..

/-- Giving back a read hold gives nobody a new one. -/
theorem dropRead_reads_le (h : Holds κ) (k j : κ) : (h.dropRead k).reads j ≤ h.reads j := by
  rw [dropRead_reads]
  split
  case isTrue hj => exact hj ▸ Nat.sub_le ..
  case isFalse => exact Nat.le_refl _

@[simp] theorem dropRead_writes (h : Holds κ) (k : κ) : (h.dropRead k).writes = h.writes := rfl

@[simp] theorem dropWrite_reads (h : Holds κ) (k : κ) : (h.dropWrite k).reads = h.reads := rfl

@[simp] theorem dropWrite_writes (h : Holds κ) (k j : κ) :
    (h.dropWrite k).writes j = if j = k then h.writes k - 1 else h.writes j :=
  Function.update_apply ..

@[simp] theorem downgrade_reads (h : Holds κ) (k j : κ) :
    (h.downgrade k).reads j = if j = k then h.reads k + 1 else h.reads j := by
  simp [downgrade]

@[simp] theorem downgrade_writes (h : Holds κ) (k j : κ) :
    (h.downgrade k).writes j = if j = k then h.writes k - 1 else h.writes j := by
  simp [downgrade]

omit [DecidableEq κ] in
/-- Nobody holds a free lock. -/
@[simp] theorem free_reads (k : κ) : (free : Holds κ).reads k = 0 := rfl

omit [DecidableEq κ] in
@[simp] theorem free_writes (k : κ) : (free : Holds κ).writes k = 0 := rfl

/-- **Exclusion.**  While one owner writes, no other owner reads or writes. -/
def Exclusive (h : Holds κ) : Prop :=
  ∀ k j, 0 < h.writes k → j ≠ k → h.reads j = 0 ∧ h.writes j = 0

omit [DecidableEq κ] in
/-- A free lock is exclusive: nobody writes. -/
theorem exclusive_free : (free : Holds κ).Exclusive := fun _ _ hk => absurd hk (Nat.lt_irrefl 0)

end Holds

/-- What a readers–writer lock may do. -/
inductive Grant : Holds κ → Holds κ → Prop
  | acquireRead {h : Holds κ} (k : κ) (hk : ∀ j, j ≠ k → h.writes j = 0) :
      Grant h (h.addRead k)
  | acquireWrite {h : Holds κ} (k : κ) (hk : ∀ j, j ≠ k → h.reads j = 0 ∧ h.writes j = 0) :
      Grant h (h.addWrite k)
  | releaseRead {h : Holds κ} (k : κ) (hk : 0 < h.reads k) : Grant h (h.dropRead k)
  | releaseWrite {h : Holds κ} (k : κ) (hk : 0 < h.writes k) : Grant h (h.dropWrite k)
  | downgrade {h : Holds κ} (k : κ) (hk : 0 < h.writes k) : Grant h (h.downgrade k)

/-- **Every grant keeps exclusion.** -/
theorem Grant.exclusive {h h' : Holds κ} (hex : h.Exclusive) (hg : Grant h h') :
    h'.Exclusive := by
  intro i j hi hj
  cases hg with
  | acquireRead k hk =>
      have hik : i = k := by
        by_contra hne
        have := hk i hne
        simp at hi
        omega
      subst hik
      simpa [hj] using hex i j (by simpa using hi) hj
  | acquireWrite k hk =>
      by_cases hik : i = k
      · subst hik
        simpa [hj] using hk j hj
      · have := (hk i hik).2
        simp [hik] at hi
        omega
  | releaseRead k hk =>
      have := hex i j (by simpa using hi) hj
      simp only [Holds.dropRead_reads, Holds.dropRead_writes]
      grind
  | releaseWrite k hk =>
      have hi' : 0 < h.writes i := by
        simp only [Holds.dropWrite_writes] at hi
        grind
      have := hex i j hi' hj
      simp only [Holds.dropWrite_reads, Holds.dropWrite_writes]
      grind
  | downgrade k hk =>
      have hi' : 0 < h.writes i := by
        simp only [Holds.downgrade_writes] at hi
        grind
      have := hex i j hi' hj
      have hjk : j ≠ k := by
        rintro rfl
        omega
      simpa [hjk] using this

end ReadersWriter

/-
# What a caller can ask of a lock

`locked()` of a proxy, and `acquire(blocking=False)`, which never waits.

Neither sees more than it says: `locked()` is true exactly while somebody holds the lock in
the mode of the proxy, and a refused call leaves the lock as it was.  A call that holds
nothing succeeds only on a lock that is not locked against it, and always succeeds there if
nobody waits (`probes_exact`).

That is so while callers release only what they hold (`System.HolderReachable`).  A plain
lock lets anybody release the write lock; after that it is not locked any more, and the
writer still believes it holds it.
-/

import Rwlocker.NestedWait
import Rwlocker.Restore

namespace Rwlocker

open ReadersWriter (Holds)

variable {τ : Type} [DecidableEq τ]

namespace LockClass

/-- `locked()` of a proxy.  `RWLockBase.locked` and those of a condition pass it on. -/
def locked (cls : LockClass) (s : RWLock τ) : Mode → Bool
  | .read => s.isReadLocked
  | .write => cls.isWriteLocked s

/-- The lock is not locked against a caller that holds nothing. -/
def Available (cls : LockClass) (s : RWLock τ) (m : Mode) : Prop :=
  cls.locked s .write = false ∧ (m = .write → cls.locked s .read = false)

end LockClass

variable {rt : Runtime} {cls : LockClass} {s : RWLock τ} {pc : τ → Pc} {t : τ} {m : Mode}

theorem Books.locked_write_iff (h : Books cls s) :
    cls.locked s .write = false ↔ cls.owner s = none := by
  rw [← Bool.not_eq_true, ← not_iff_not, not_not]
  exact h.isWriteLocked_iff

theorem Books.locked_read_iff (h : Books cls s) :
    cls.locked s .read = false ↔ s.readersActive = 0 := by
  have := h.readersActive_nonneg
  simp only [LockClass.locked, RWLock.isReadLocked, decide_eq_false_iff_not]
  omega

/-- Whoever is admitted finds the lock available. -/
theorem Books.available_of_can (h : Books cls s) (hr : s.readerOwners.count (some t) = 0)
    (ho : cls.owner s ≠ some t) (hcan : cls.canAcquire m s (some t) false none = true) :
    cls.Available s m := by
  cases m with
  | read =>
      refine ⟨h.locked_write_iff.2 ?_, by simp⟩
      rcases (h.canRead_iff (by simp) false none).1 hcan with hadm | hown | hown
      · exact hadm.1
      · exact absurd hown.2 ho
      · omega
  | write =>
      have hadm := ((h.canWrite_iff (by simp) false none).1 hcan).resolve_right
        fun hown => ho hown.2
      exact ⟨h.locked_write_iff.2 hadm.1, fun _ => h.locked_read_iff.2 hadm.2.1⟩

/-- An available lock that nobody waits for admits everybody. -/
theorem Books.can_of_available (h : Books cls s) (hslots : cls.policy = .fair → Slots s pc)
    (hwait : ∀ m, (s.proxy m).thoseWaiting = 0) (hidle : ∀ m t, ¬ InFlight pc m t)
    (hfree : cls.Available s m) : cls.canAcquire m s (some t) false none = true := by
  have ho := h.locked_write_iff.1 hfree.1
  have hw : s.write.thoseWaiting = 0 := hwait .write
  have hr : s.read.thoseWaiting = 0 := hwait .read
  cases m with
  | read =>
      refine (h.canRead_iff (by simp) false none).2 (.inl ⟨ho, ?_⟩)
      cases cls.policy with
      | write => exact hw
      | read => trivial
      | readerPhaseFair => exact .inr hw
      | fair => exact .inl hw
  | write =>
      refine (h.canWrite_iff (by simp) false none).2
        (.inl ⟨ho, h.locked_read_iff.1 (hfree.2 rfl), ?_⟩)
      cases hp : cls.policy with
      | write => trivial
      | read => exact hr
      | readerPhaseFair =>
          rintro ⟨-, hpos⟩
          omega
      | fair =>
          rintro ⟨hturn, hpos⟩
          -- a slot belongs to somebody who waits
          obtain ⟨F, hF, hcard⟩ := (hslots hp).on hturn
          obtain ⟨u, hu⟩ := Finset.card_pos.1 (show 0 < F.card by omega)
          obtain ⟨seq, timed, i, hpc, -⟩ := (hF u).1 hu
          exact hidle .read u ⟨seq, timed, i, hpc⟩

namespace System

variable {c : System τ}

/-- **`locked()` tells who holds the lock.** -/
theorem HolderReachable.locked_iff (h : HolderReachable rt cls c) :
    (cls.locked c.lock .read = true ↔ ∃ k, 0 < c.holds.reads k) ∧
      (cls.locked c.lock .write = true ↔ ∃ k, 0 < c.holds.writes k) := by
  constructor
  · rw [← not_iff_not, Bool.not_eq_true, h.books.locked_read_iff,
      h.books.readersActive_eq_zero_iff]
    simp only [h.ledger.reads, not_exists, Nat.pos_iff_ne_zero, not_not]
  · have hlocked : cls.locked c.lock .write = true ↔ cls.owner c.lock ≠ none :=
      h.books.isWriteLocked_iff
    rw [hlocked]
    constructor
    · intro ho
      obtain ⟨t, ht⟩ := Option.ne_none_iff_exists'.1 ho
      exact ⟨some t, h.ledger.writes_pos h.books ht⟩
    · rintro ⟨k, hk⟩ ho
      have hown := h.ledger.owner_of_writes hk
      rw [ho] at hown
      subst hown
      have := h.ledger.noneWrites
      omega

/-- **A lock answers exactly**, while callers release only what they hold.  `locked()` of a
proxy is true exactly while somebody holds the lock in its mode.  `acquire(blocking=False)`
by a caller that holds nothing returns at once: `True` with the lock, which was not locked
against it, or `False` with the lock as it was; and `True` for certain if the lock is not
locked against it and nobody waits. -/
theorem probes_exact {expired : Bool} (h : HolderReachable rt cls c) (hpc : c.pc t = .idle)
    (hno : NoHold c.holds (some t)) :
    ((cls.locked c.lock .read = true ↔ ∃ k, 0 < c.holds.reads k) ∧
      (cls.locked c.lock .write = true ↔ ∃ k, 0 < c.holds.writes k)) ∧
    ∃ o c', c.step rt cls (.acquire t m .nonblocking expired) = some (o, c') ∧
      (o = .acquired m ∧ cls.Available c.lock m ∧ cls.locked c'.lock m = true ∨
        o = .refused ∧ c' = c) ∧
      ((∀ m u, ¬ InFlight c.pc m u) → cls.Available c.lock m → o = .acquired m) := by
  have hw := h.reachable.wellFormed
  have hcount : c.lock.readerOwners.count (some t) = 0 := (h.ledger.reads _).trans hno.1
  have hown : cls.owner c.lock ≠ some t := fun ho => by
    have := h.ledger.writes_pos h.books ho
    have := hno.2
    omega
  have hst : c.step rt cls (.acquire t m .nonblocking expired) =
      some (c.acquire rt cls t m .nonblocking expired) := by
    simp [step, hpc]
  generalize c.acquire rt cls t m .nonblocking expired = r at hst
  obtain ⟨o, c'⟩ := r
  have hdeed := step_deed hw hst rfl
  refine ⟨h.locked_iff, o, c', hst, ?_, fun hidle hfree => ?_⟩
  · cases hdeed with
    | rejected _ hraise =>
        simp [LockClass.beforeAcquire, LockClass.checkWriteAcquireAllowed,
          RWLock.isCurrentReader, hcount] at hraise
    | enters _ hcan =>
        have hheld := (h.step hst (by simp [Action.caller]) trivial).locked_iff
        refine .inl ⟨rfl, h.books.available_of_can hcount hown hcan, ?_⟩
        rw [succeed_holds] at hheld
        cases m with
        | read => exact hheld.1.2 ⟨some t, by simp [grant]⟩
        | write => exact hheld.2.2 ⟨some t, by simp [grant]⟩
    | refused => exact .inr ⟨rfl, rfl⟩
    | waits _ hp => exact absurd rfl hp
  · have hwait : ∀ m, (c.lock.proxy m).thoseWaiting = 0 := fun m => by
      by_contra hne
      have := hw.thoseWaiting_nonneg m
      obtain ⟨u, hu⟩ := hw.exists_inFlight (m := m) (by omega)
      exact hidle m u hu
    have hcan := h.books.can_of_available (t := t) (fun hp => h.reachable.slots hp) hwait hidle
      hfree
    cases hdeed with
    | rejected _ hraise =>
        simp [LockClass.beforeAcquire, LockClass.checkWriteAcquireAllowed,
          RWLock.isCurrentReader, hcount] at hraise
    | enters => rfl
    | refused _ hno => cases hno.symm.trans hcan
    | waits _ hp => exact absurd rfl hp

/-- A downgraded lock is locked for reading, and lets a second reader in. -/
theorem probes_exact_downgraded : ∃ c : System ℕ, c.lock.downgraded = some 0 ∧
    ((LockClass.fair.locked c.lock .read = true ↔ ∃ k, 0 < c.holds.reads k) ∧
      (LockClass.fair.locked c.lock .write = true ↔ ∃ k, 0 < c.holds.writes k)) ∧
    ∃ o c', c.step .thread .fair (.acquire 1 .read .nonblocking false) = some (o, c') ∧
      (o = .acquired .read ∧ LockClass.fair.Available c.lock .read ∧
        LockClass.fair.locked c'.lock .read = true ∨ o = .refused ∧ c' = c) ∧
      ((∀ m u, ¬ InFlight c.pc m u) → LockClass.fair.Available c.lock .read →
        o = .acquired .read) := by
  have hrun : ((Transition.replay (next (fun c a => InTask c a ∧ ByHolder c a) .thread .fair)
      ({} : System ℕ) [.acquire 0 .write .forever false, .clear 0, .downgrade (some 0)]).map
        fun c => (c.lock.downgraded, c.pc 1, c.holds.reads (some 1), c.holds.writes (some 1))) =
      some (some 0, .idle, 0, 0) := by
    decide
  obtain ⟨c, hc, hval⟩ := Option.map_eq_some_iff.1 hrun
  simp only [Prod.mk.injEq] at hval
  obtain ⟨hmark, hpc, hr, hw⟩ := hval
  exact ⟨c, hmark, probes_exact ⟨_, _, rfl, run_of_replay hc⟩ hpc ⟨hr, hw⟩⟩

end System

end Rwlocker

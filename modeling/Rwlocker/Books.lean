/-
# The books of a lock

What ties the fields of a lock together in every state threads or tasks can
reach, whoever releases what (`Books`): the active readers are the sum of the
recorded holds, no recorded hold is empty, the write count is positive exactly
while there is an owner, and while there is one the only reader it tolerates is
itself, in a reentrant class.

Under the books each core method has one description for all eight classes: it
raises and changes nothing, or it makes one bookkeeping move (`enterReader`,
`dropReader`, `ownWriter`, `freeWriter`) followed by signals.
-/

import Mathlib.Tactic.SplitIfs
import Rwlocker.Signals

namespace Rwlocker

variable {τ : Type} [DecidableEq τ]

namespace RWLock

/-- The bookkeeping of a read release: one recorded hold of `me` less. -/
def dropReader (s : RWLock τ) (me : Option τ) : RWLock τ :=
  { s with
    readerOwners :=
      if s.readerOwners.count me = 1 then s.readerOwners.erase me
      else s.readerOwners.insert me (s.readerOwners.count me - 1)
    readersActive := s.readersActive - 1 }

/-- The bookkeeping of a final write release or a downgrade. -/
def freeWriter (s : RWLock τ) : RWLock τ :=
  { s with writerActive := false, writerOwner := none, writerId := none, writeCount := 0 }

/-- The bookkeeping of a write acquisition. -/
def ownWriter (s : RWLock τ) (cls : LockClass) (me : Option τ) : RWLock τ :=
  if cls.reentrant then { s with writerId := me, writeCount := s.writeCount + 1 }
  else { s with writerActive := true, writerOwner := me }

omit [DecidableEq τ] in
/-- A write acquisition changes the write side only. -/
theorem ownWriter_frame (s : RWLock τ) (cls : LockClass) (me : Option τ) :
    ∃ active owner id count, s.ownWriter cls me = { s with
      writerActive := active, writerOwner := owner, writerId := id, writeCount := count } := by
  unfold ownWriter
  split_ifs
  · exact ⟨s.writerActive, s.writerOwner, me, s.writeCount + 1, rfl⟩
  · exact ⟨true, me, s.writerId, s.writeCount, rfl⟩

/-- The count of each owner after a reader entered. -/
theorem count_enterReader (s : RWLock τ) (me k : Option τ) :
    (s.enterReader me).readerOwners.count k =
      if k = me then s.readerOwners.count me + 1 else s.readerOwners.count k :=
  Tally.count_insert ..

/-- The count of each owner after a reader left. -/
theorem count_dropReader (s : RWLock τ) (me k : Option τ) :
    (s.dropReader me).readerOwners.count k =
      if k = me then s.readerOwners.count me - 1 else s.readerOwners.count k := by
  unfold dropReader
  dsimp only
  split_ifs with h₁ h₂ h₂ <;> simp [Tally.count_insert, Tally.count_erase, h₁, h₂]

/-- A reader without a recorded count is turned away; any other leaves. -/
theorem leaveReader_eq (after : RWLock τ → RWLock τ) (s : RWLock τ) (me : Option τ) :
    s.leaveReader after me =
      if s.readerOwners.count me = 0 then .error .readNotHeld
      else .ok (after (s.dropReader me)) := by
  unfold leaveReader recordReaderRelease dropReader
  by_cases h₀ : s.readerOwners.count me = 0
  · simp [h₀]
  · by_cases h₁ : s.readerOwners.count me = 1 <;> simp [h₀, h₁]

end RWLock

omit [DecidableEq τ] in
/-- A registered reader has a slot while the turn is on, if it registered before
the phase began and a slot is left. -/
theorem RWLockFairMixin.isReservedReader_iff (s : RWLock τ) (seq : ℕ) :
    isReservedReader s true (some seq) = true ↔
      s.readersTurn = true ∧ seq ≤ s.readerPhaseCutoff ∧ 0 < s.readerPhasePending := by
  cases h : s.readersTurn <;> simp [isReservedReader, h]

namespace LockClass

/-- A registered reader with no hold of its own would be admitted. -/
def AdmitsReader (cls : LockClass) (s : RWLock τ) (waiting : Bool) (waiterSeq : Option ℕ) :
    Prop :=
  cls.owner s = none ∧
    match cls.policy with
    | .write => s.write.thoseWaiting = 0
    | .read => True
    | .readerPhaseFair => s.readersTurn = true ∨ s.write.thoseWaiting = 0
    | .fair => s.write.thoseWaiting = 0 ∨
        s.readersTurn = true ∧ RWLockFairMixin.isReservedReader s waiting waiterSeq = true

/-- A writer with no hold of its own would be admitted. -/
def AdmitsWriter (cls : LockClass) (s : RWLock τ) : Prop :=
  cls.owner s = none ∧ s.readersActive = 0 ∧
    match cls.policy with
    | .write => True
    | .read => s.read.thoseWaiting = 0
    | .readerPhaseFair => ¬ (s.readersTurn = true ∧ 0 < s.read.thoseWaiting)
    | .fair => ¬ (s.readersTurn = true ∧ 0 < s.readerPhasePending)

/-- A caller registered as waiter `seq` of a proxy, with no hold of its own, would
be admitted. -/
def Admits (cls : LockClass) : Mode → RWLock τ → ℕ → Prop
  | .read, s, seq => cls.AdmitsReader s true (some seq)
  | .write, s, _ => cls.AdmitsWriter s

end LockClass

/-- The books of a lock (module doc). -/
structure Books (cls : LockClass) (s : RWLock τ) : Prop where
  total : s.readersActive = s.readerOwners.total
  positive : s.readerOwners.Positive
  plain : cls.reentrant = false →
    s.writerId = none ∧ s.writeCount = 0 ∧ (s.writerActive = true ↔ s.writerOwner ≠ none)
  reentrant : cls.reentrant = true →
    s.writerActive = false ∧ s.writerOwner = none ∧ 0 ≤ s.writeCount ∧
      (s.writeCount = 0 ↔ s.writerId = none)
  exclusive : ∀ k, 0 < s.readerOwners.count k →
    cls.owner s = none ∨ cls.reentrant = true ∧ cls.owner s = k
  noneReads : s.readerOwners.count none = 0

/-- The books of a new lock are empty. -/
theorem Books.init (cls : LockClass) : Books cls ({} : RWLock τ) where
  total := rfl
  positive := Tally.positive_empty
  plain _ := ⟨rfl, rfl, by simp⟩
  reentrant _ := ⟨rfl, rfl, by simp, by simp⟩
  exclusive k hk := absurd hk (by simp)
  noneReads := rfl

namespace Books

variable {cls : LockClass} {s s' : RWLock τ} {me : Option τ}

/-! ### Reading the books -/

/-- The active readers are a sum of counts. -/
theorem readersActive_nonneg (h : Books cls s) : 0 ≤ s.readersActive := by
  rw [h.total]
  omega

/-- Nobody reads exactly when no reader is active. -/
theorem readersActive_eq_zero_iff (h : Books cls s) :
    s.readersActive = 0 ↔ ∀ k, s.readerOwners.count k = 0 := by
  rw [h.total, ← Tally.total_eq_zero_iff h.positive]
  omega

/-- Whoever is recorded as a reader is an active one. -/
theorem readersActive_pos (h : Books cls s) {k : Option τ} (hk : 0 < s.readerOwners.count k) :
    0 < s.readersActive := by
  have h₀ := h.readersActive_nonneg
  have h₁ := mt h.readersActive_eq_zero_iff.1 fun hall => by
    have := hall k
    omega
  omega

/-- A lock is write-locked while it has an owner. -/
theorem isWriteLocked_iff (h : Books cls s) :
    cls.isWriteLocked s = true ↔ cls.owner s ≠ none := by
  unfold LockClass.isWriteLocked LockClass.owner
  cases hc : cls.reentrant with
  | false => simpa [hc] using (h.plain hc).2.2
  | true => simp

/-- The number of write acquisitions is never negative. -/
theorem depth_nonneg (h : Books cls s) : 0 ≤ cls.depth s := by
  unfold LockClass.depth
  cases hc : cls.reentrant with
  | false =>
      simp only [Bool.false_eq_true, if_false]
      split_ifs <;> omega
  | true => simpa [hc] using (h.reentrant hc).2.2.1

/-- The write lock is held at least once exactly while it has an owner. -/
theorem depth_eq_zero_iff (h : Books cls s) : cls.depth s = 0 ↔ cls.owner s = none := by
  unfold LockClass.depth LockClass.owner
  cases hc : cls.reentrant with
  | false =>
      have := (h.plain hc).2.2
      cases ha : s.writerActive <;> simp_all
  | true => simpa [hc] using (h.reentrant hc).2.2.2

/-- An owner has acquired at least once. -/
theorem depth_pos (h : Books cls s) (ho : cls.owner s ≠ none) : 0 < cls.depth s := by
  have h₀ := h.depth_nonneg
  have h₁ := mt h.depth_eq_zero_iff.1 ho
  omega

omit [DecidableEq τ] in
/-- A plain class counts to one. -/
theorem depth_le_one (hc : cls.reentrant = false) (s : RWLock τ) : cls.depth s ≤ 1 := by
  unfold LockClass.depth
  simp only [hc, Bool.false_eq_true, if_false]
  split_ifs <;> omega

/-- A lock without an owner has no active writer. -/
theorem writerActive_of_owner (h : Books cls s) (ho : cls.owner s = none) :
    s.writerActive = false := by
  cases hc : cls.reentrant with
  | false =>
      have := (h.plain hc).2.2
      simp only [LockClass.owner, hc, Bool.false_eq_true, if_false] at ho
      simpa [ho] using this
  | true => exact (h.reentrant hc).1

/-! ### Who is admitted -/

/-- **Who may write:** a caller the lock admits, or its owner in a reentrant
class. -/
theorem canWrite_iff (h : Books cls s) (hme : me ≠ none) (waiting : Bool)
    (waiterSeq : Option ℕ) :
    cls.canWrite s me waiting waiterSeq = true ↔
      cls.AdmitsWriter s ∨ cls.reentrant = true ∧ cls.owner s = me := by
  obtain ⟨t, rfl⟩ := Option.ne_none_iff_exists'.1 hme
  have hra := h.readersActive_nonneg
  have hpos : s.readersActive ≤ 0 ↔ s.readersActive = 0 := by omega
  cases cls with
  | write | read | readerPhaseFair | fair =>
      have hact := (h.plain rfl).2.2
      cases ha : s.writerActive <;> cases ht : s.readersTurn <;>
        simp_all [LockClass.canWrite, LockClass.AdmitsWriter, LockClass.owner, LockClass.policy,
          LockClass.reentrant, RWLockWriteMixin.canWrite, RWLockReadMixin.canWrite,
          RWLockReaderPhaseFairMixin.canWrite, RWLockFairMixin.canWrite]
  | writeReentrantWriter | readReentrantWriter | readerPhaseFairReentrantWriter
  | fairReentrantWriter =>
      by_cases hid : s.writerId = none <;> cases ht : s.readersTurn <;>
        simp_all [LockClass.canWrite, LockClass.AdmitsWriter, LockClass.owner, LockClass.policy,
          LockClass.reentrant, RWLockWriteReentrantWriterMixin.canWrite,
          RWLockReadReentrantWriterMixin.canWrite,
          RWLockReaderPhaseFairReentrantWriterMixin.canWrite,
          RWLockFairReentrantWriterMixin.canWrite]

/-- **Who may read:** a caller the lock admits, its owner in a reentrant class,
and whoever reads already. -/
theorem canRead_iff (h : Books cls s) (hme : me ≠ none) (waiting : Bool)
    (waiterSeq : Option ℕ) :
    cls.canRead s me waiting waiterSeq = true ↔
      cls.AdmitsReader s waiting waiterSeq ∨ cls.reentrant = true ∧ cls.owner s = me ∨
        cls.owner s = none ∧ 0 < s.readerOwners.count me := by
  obtain ⟨t, rfl⟩ := Option.ne_none_iff_exists'.1 hme
  have hcur : (decide (0 < s.readersActive) && s.isCurrentReader (some t)) =
      decide (0 < s.readerOwners.count (some t)) := by
    by_cases hk : 0 < s.readerOwners.count (some t)
    · simp [RWLock.isCurrentReader, hk, h.readersActive_pos hk]
    · simp [RWLock.isCurrentReader, hk]
  cases cls with
  | write | read | readerPhaseFair | fair =>
      have hact := (h.plain rfl).2.2
      simp only [LockClass.canRead, RWLockWriteMixin.canRead, RWLockReadMixin.canRead,
        RWLockReaderPhaseFairMixin.canRead, RWLockFairMixin.canRead, hcur]
      cases ha : s.writerActive <;>
        simp_all [LockClass.AdmitsReader, LockClass.owner, LockClass.policy,
          LockClass.reentrant, or_assoc]
  | writeReentrantWriter | readReentrantWriter | readerPhaseFairReentrantWriter
  | fairReentrantWriter =>
      simp only [LockClass.canRead, RWLockWriteReentrantWriterMixin.canRead,
        RWLockReadReentrantWriterMixin.canRead, RWLockReaderPhaseFairReentrantWriterMixin.canRead,
        RWLockFairReentrantWriterMixin.canRead, hcur]
      by_cases hid : s.writerId = none <;>
        simp_all [LockClass.AdmitsReader, LockClass.owner, LockClass.policy,
          LockClass.reentrant, or_assoc]

/-! ### The books through a move -/

/-- Two locks with the same owners and counts have the same books. -/
theorem congr (h : Books cls s) (hra : s'.readersActive = s.readersActive)
    (hro : s'.readerOwners = s.readerOwners) (hwa : s'.writerActive = s.writerActive)
    (hwo : s'.writerOwner = s.writerOwner) (hid : s'.writerId = s.writerId)
    (hwc : s'.writeCount = s.writeCount) : Books cls s' where
  total := by rw [hra, hro, h.total]
  positive := hro ▸ h.positive
  plain hc := by
    rw [hid, hwc, hwa, hwo]
    exact h.plain hc
  reentrant hc := by
    rw [hid, hwc, hwa, hwo]
    exact h.reentrant hc
  exclusive k hk := by
    rw [LockClass.owner, hid, hwo]
    exact h.exclusive k (hro ▸ hk)
  noneReads := hro ▸ h.noneReads

/-- Signals do not touch the books. -/
theorem signals (h : Books cls s) (hs : RWLock.Signals s s') : Books cls s' :=
  h.congr hs.readersActive hs.readerOwners hs.writerActive hs.writerOwner hs.writerId
    hs.writeCount

/-- Nor do the proxies. -/
theorem onProxy (h : Books cls s) (m : Mode) (f : Proxy τ → Proxy τ) : Books cls (s.onProxy m f) :=
  h.congr rfl rfl rfl rfl rfl rfl

/-- Nor does the downgrade marker. -/
theorem marker (h : Books cls s) (k : Option τ) : Books cls { s with downgraded := k } :=
  h.congr rfl rfl rfl rfl rfl rfl

/-- A reader enters a lock that nobody else owns. -/
theorem enterReader (h : Books cls s) (hme : me ≠ none)
    (ho : cls.owner s = none ∨ cls.reentrant = true ∧ cls.owner s = me) :
    Books cls (s.enterReader me) where
  total := by
    have h₁ := Tally.total_insert s.readerOwners me (s.readerOwners.count me + 1)
    have h₂ := Tally.total_eq_count_add_erase s.readerOwners me
    have h₃ := h.total
    simp only [RWLock.enterReader, RWLock.recordReaderAcquire]
    omega
  positive := h.positive.insert me (Nat.succ_pos _)
  plain := h.plain
  reentrant := h.reentrant
  exclusive k hk := by
    rw [RWLock.count_enterReader] at hk
    split_ifs at hk with hkm
    · subst hkm
      exact ho
    · exact h.exclusive k hk
  noneReads := by
    rw [RWLock.count_enterReader, if_neg hme.symm]
    exact h.noneReads

/-- A recorded reader leaves. -/
theorem dropReader (h : Books cls s) (hk : 0 < s.readerOwners.count me) :
    Books cls (s.dropReader me) where
  total := by
    have h₁ := Tally.total_insert s.readerOwners me (s.readerOwners.count me - 1)
    have h₂ := Tally.total_eq_count_add_erase s.readerOwners me
    have h₃ := h.total
    simp only [RWLock.dropReader]
    split_ifs <;> omega
  positive := by
    simp only [RWLock.dropReader]
    split_ifs
    · exact h.positive.erase me
    · exact h.positive.insert me (by omega)
  plain := h.plain
  reentrant := h.reentrant
  exclusive k hk' := by
    rw [RWLock.count_dropReader] at hk'
    split_ifs at hk' with hkm
    · exact h.exclusive k (hkm ▸ hk)
    · exact h.exclusive k hk'
  noneReads := by
    rw [RWLock.count_dropReader]
    split_ifs with hn
    · have := h.noneReads
      rw [hn] at this
      omega
    · exact h.noneReads

/-- The owner leaves. -/
theorem freeWriter (h : Books cls s) : Books cls s.freeWriter where
  total := h.total
  positive := h.positive
  plain _ := ⟨rfl, rfl, by simp [RWLock.freeWriter]⟩
  reentrant _ := ⟨rfl, rfl, by simp [RWLock.freeWriter], by simp [RWLock.freeWriter]⟩
  exclusive _ _ := .inl (by simp [LockClass.owner, RWLock.freeWriter])
  noneReads := h.noneReads

/-- A writer enters a lock that is free, or its own. -/
theorem ownWriter (h : Books cls s) (hme : me ≠ none)
    (hadm : cls.AdmitsWriter s ∨ cls.reentrant = true ∧ cls.owner s = me) :
    Books cls (s.ownWriter cls me) := by
  have hreads : ∀ k, 0 < s.readerOwners.count k → cls.reentrant = true ∧ k = me := by
    intro k hk
    rcases hadm with hadm | ⟨hc, ho⟩
    · have := h.readersActive_eq_zero_iff.1 hadm.2.1 k
      omega
    · rcases h.exclusive k hk with hn | ⟨-, hk'⟩
      · exact absurd (ho.symm.trans hn) hme
      · exact ⟨hc, hk'.symm.trans ho⟩
  cases hc : cls.reentrant with
  | false =>
      have hown : s.ownWriter cls me = { s with writerActive := true, writerOwner := me } := by
        simp [RWLock.ownWriter, hc]
      rw [hown]
      refine ⟨h.total, h.positive, fun _ => ?_, fun h' => ?_, fun k hk => ?_, h.noneReads⟩
      · exact ⟨(h.plain hc).1, (h.plain hc).2.1, by simp [hme]⟩
      · rw [hc] at h'
        cases h'
      · have := (hreads k hk).1
        rw [hc] at this
        cases this
  | true =>
      have hown : s.ownWriter cls me =
          { s with writerId := me, writeCount := s.writeCount + 1 } := by
        simp [RWLock.ownWriter, hc]
      rw [hown]
      have hr := h.reentrant hc
      refine ⟨h.total, h.positive, fun h' => ?_, fun _ => ?_, fun k hk => ?_, h.noneReads⟩
      · rw [hc] at h'
        cases h'
      · refine ⟨hr.1, hr.2.1, by simp only; omega, ?_⟩
        simp only [hme, iff_false]
        omega
      · exact .inr ⟨hc, by simpa [LockClass.owner, hc] using (hreads k hk).2.symm⟩

/-- A nested release takes one off the write count. -/
theorem countDown (h : Books cls s) (hc : cls.reentrant = true) (hd : 1 < s.writeCount) :
    Books cls { s with writeCount := s.writeCount - 1 } where
  total := h.total
  positive := h.positive
  plain hp := by
    rw [hc] at hp
    cases hp
  reentrant _ := by
    obtain ⟨h₁, h₂, h₃, h₄⟩ := h.reentrant hc
    refine ⟨h₁, h₂, by simp only; omega, ?_⟩
    rw [← h₄]
    simp only
    omega
  exclusive := h.exclusive
  noneReads := h.noneReads

end Books

/-! ### The core methods as moves -/

namespace LockClass

variable {cls : LockClass} {s s' : RWLock τ} {me : Option τ}

@[simp] theorem owner_enterReader (s : RWLock τ) (me : Option τ) :
    cls.owner (s.enterReader me) = cls.owner s := rfl

@[simp] theorem depth_enterReader (s : RWLock τ) (me : Option τ) :
    cls.depth (s.enterReader me) = cls.depth s := rfl

@[simp] theorem owner_dropReader (s : RWLock τ) (me : Option τ) :
    cls.owner (s.dropReader me) = cls.owner s := rfl

@[simp] theorem depth_dropReader (s : RWLock τ) (me : Option τ) :
    cls.depth (s.dropReader me) = cls.depth s := rfl

omit [DecidableEq τ] in
@[simp] theorem owner_freeWriter (s : RWLock τ) : cls.owner s.freeWriter = none := by
  simp [owner, RWLock.freeWriter]

omit [DecidableEq τ] in
@[simp] theorem depth_freeWriter (s : RWLock τ) : cls.depth s.freeWriter = 0 := by
  simp [depth, RWLock.freeWriter]

omit [DecidableEq τ] in
@[simp] theorem owner_ownWriter (s : RWLock τ) (me : Option τ) :
    cls.owner (s.ownWriter cls me) = me := by
  unfold owner RWLock.ownWriter
  cases cls.reentrant <;> simp

/-- A write acquisition adds one to the depth. -/
theorem depth_ownWriter (h : Books cls s)
    (hadm : cls.AdmitsWriter s ∨ cls.reentrant = true ∧ cls.owner s = me) :
    cls.depth (s.ownWriter cls me) = cls.depth s + 1 := by
  cases hc : cls.reentrant with
  | false =>
      have ho : cls.owner s = none := by
        rcases hadm with hadm | ⟨hr, -⟩
        · exact hadm.1
        · rw [hc] at hr
          cases hr
      rw [h.depth_eq_zero_iff.2 ho]
      simp [depth, RWLock.ownWriter, hc]
  | true => simp [depth, RWLock.ownWriter, hc]

omit [DecidableEq τ] in
/-- `_acquire_write_core` is one move. -/
theorem acquireWriteCore_eq (s : RWLock τ) (me : Option τ) (waiting : Bool)
    (waiterSeq : Option ℕ) : cls.acquireWriteCore s me waiting waiterSeq = s.ownWriter cls me := by
  cases hc : cls.reentrant with
  | false => simp [acquireWriteCore_of_plain hc, RWLock.ownWriter, hc, RWLock.acquirePlainWriter]
  | true => simp [acquireWriteCore_of_reentrant hc, RWLock.ownWriter, hc]

/-- `_release_read_core` raises for a caller without a read hold, and else drops
one and signals. -/
theorem releaseReadCore_spec (cls : LockClass) (s : RWLock τ) (me : Option τ) :
    cls.releaseReadCore s me =
      if s.readerOwners.count me = 0 then .error .readNotHeld
      else .ok (cls.onReaderLeave (s.dropReader me)) := by
  rw [releaseReadCore_eq, RWLock.leaveReader_eq]

/-- The error of a write release. -/
def releaseError (cls : LockClass) : RuntimeError :=
  if cls.reentrant then .permissionDenied else .unacquiredWrite

/-- **A write release** raises when nobody owns the lock or, in a reentrant class,
when the caller does not; a nested one takes one off the count; the last one
frees the lock and hands it on. -/
theorem releaseWriteCore_spec (h : Books cls s) (hme : me ≠ none) :
    cls.releaseWriteCore s me =
      if cls.owner s = none ∨ cls.reentrant = true ∧ cls.owner s ≠ me then
        .error cls.releaseError
      else if 1 < cls.depth s then .ok { s with writeCount := s.writeCount - 1 }
      else .ok (cls.onWriterAbort s.freeWriter none) := by
  cases hc : cls.reentrant with
  | false =>
      obtain ⟨hid, hwc, hact⟩ := h.plain hc
      rw [releaseWriteCore_of_plain hc]
      have hfree : s.freeWriter = { s with writerActive := false, writerOwner := none } := by
        rw [RWLock.freeWriter, ← hid, ← hwc]
      have hd := Books.depth_le_one hc s
      simp only [RWLock.releasePlainWriter, owner, hc, releaseError]
      cases ha : s.writerActive with
      | false =>
          have : s.writerOwner = none := by simpa [ha] using hact
          simp [this]
      | true =>
          have : s.writerOwner ≠ none := hact.1 ha
          simp [this, hfree, show ¬ 1 < cls.depth s by omega]
  | true =>
      obtain ⟨hwa, hwo, hnn, hz⟩ := h.reentrant hc
      rw [releaseWriteCore_of_reentrant hc]
      simp only [RWLockReentrantWriterCoreMixin.releaseWriteCore, owner, depth, hc, if_true,
        releaseError, true_and]
      by_cases ho : s.writerId = me
      · have hne : s.writerId ≠ none := ho ▸ hme
        have hpos : s.writeCount ≠ 0 := mt hz.1 hne
        by_cases hd : 1 < s.writeCount
        · simp [ho, hme, hd, show s.writeCount - 1 ≠ 0 by omega]
        · have hone : s.writeCount = 1 := by omega
          have hfree : s.freeWriter = { s with writeCount := 0, writerId := none } := by
            rw [RWLock.freeWriter, ← hwa, ← hwo]
          simp [ho, hme, hone, hfree]
      · simp [ho]

/-- The error of a downgrade. -/
def downgradeError (cls : LockClass) (s : RWLock τ) (me : Option τ) : RuntimeError :=
  if cls.reentrant then
    if cls.owner s = me then .downgradeNested else .permissionDenied
  else if cls.owner s = none then .downgradeUnlocked else .permissionDenied

/-- **A downgrade** raises unless the caller owns the lock exactly once, and else
frees the write side, records a read hold and signals. -/
theorem downgradeCore_spec (h : Books cls s) (hme : me ≠ none) :
    cls.downgradeCore s me =
      if cls.owner s = me ∧ cls.depth s = 1 then
        .ok (cls.onDowngrade (s.freeWriter.enterReader me))
      else .error (cls.downgradeError s me) := by
  cases hc : cls.reentrant with
  | false =>
      obtain ⟨hid, hwc, hact⟩ := h.plain hc
      rw [downgradeCore_of_plain hc]
      have hfree : s.freeWriter = { s with writerActive := false, writerOwner := none } := by
        rw [RWLock.freeWriter, ← hid, ← hwc]
      simp only [RWLock.downgradePlainWriter, owner, depth, hc, downgradeError]
      cases ha : s.writerActive with
      | false =>
          have : s.writerOwner = none := by simpa [ha] using hact
          simp [this]
      | true =>
          have : s.writerOwner ≠ none := hact.1 ha
          by_cases ho : s.writerOwner = me <;> simp [this, hfree, ho]
  | true =>
      obtain ⟨hwa, hwo, hnn, hz⟩ := h.reentrant hc
      rw [downgradeCore_of_reentrant hc]
      simp only [RWLockReentrantWriterCoreMixin.downgradeWriter, owner, depth, hc, if_true,
        downgradeError]
      by_cases ho : s.writerId = me
      · have hne : s.writerId ≠ none := ho ▸ hme
        have hpos : s.writeCount ≠ 0 := mt hz.1 hne
        have hfree : s.freeWriter = { s with writeCount := 0, writerId := none } := by
          rw [RWLock.freeWriter, ← hwa, ← hwo]
        by_cases hd : 1 < s.writeCount
        · simp [ho, hd, show s.writeCount ≠ 1 by omega]
        · simp [ho, hfree, show s.writeCount = 1 by omega]
      · simp [ho]

end LockClass

end Rwlocker

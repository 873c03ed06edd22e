/-
# The eight lock classes

`RWLockWrite`, `RWLockRead`, `RWLockReaderPhaseFair`, `RWLockFair` and their
`ReentrantWriter` variants, thread and async.  A class is a choice of methods:
each dispatch table below follows the class's method resolution order.

The second half puts the eight classes in one shape.  `owner` and `depth` read
the write side whichever fields it lives in, and every operation is bookkeeping
common to all classes followed by the signals of the class (`onReaderEnter`,
`onReaderLeave`, `onDowngrade` and the two abort hooks).
-/

import Rwlocker.Mixins

namespace Rwlocker

/-- The concrete lock classes. -/
inductive LockClass
  | write
  | writeReentrantWriter
  | read
  | readReentrantWriter
  | readerPhaseFair
  | readerPhaseFairReentrantWriter
  | fair
  | fairReentrantWriter
  deriving DecidableEq, Repr

/-- The scheduling policy of a class. -/
inductive Policy
  | write
  | read
  | readerPhaseFair
  | fair
  deriving DecidableEq, Repr

namespace LockClass

/-- The strategy of a class. -/
def policy : LockClass → Policy
  | write | writeReentrantWriter => .write
  | read | readReentrantWriter => .read
  | readerPhaseFair | readerPhaseFairReentrantWriter => .readerPhaseFair
  | fair | fairReentrantWriter => .fair

/-- The class has the fields `_writer_id` and `_write_count`. -/
def reentrant : LockClass → Bool
  | write | read | readerPhaseFair | fair => false
  | writeReentrantWriter | readReentrantWriter | readerPhaseFairReentrantWriter
  | fairReentrantWriter => true

variable {τ : Type} [DecidableEq τ]

/-! ### Method resolution -/

/-- `_can_read`. -/
def canRead : LockClass → RWLock τ → Option τ → Bool → Option ℕ → Bool
  | write => RWLockWriteMixin.canRead
  | writeReentrantWriter => RWLockWriteReentrantWriterMixin.canRead
  | read => RWLockReadMixin.canRead
  | readReentrantWriter => RWLockReadReentrantWriterMixin.canRead
  | readerPhaseFair => RWLockReaderPhaseFairMixin.canRead
  | readerPhaseFairReentrantWriter => RWLockReaderPhaseFairReentrantWriterMixin.canRead
  | fair => RWLockFairMixin.canRead
  | fairReentrantWriter => RWLockFairReentrantWriterMixin.canRead

/-- `_can_write`. -/
def canWrite : LockClass → RWLock τ → Option τ → Bool → Option ℕ → Bool
  | write => RWLockWriteMixin.canWrite
  | writeReentrantWriter => RWLockWriteReentrantWriterMixin.canWrite
  | read => RWLockReadMixin.canWrite
  | readReentrantWriter => RWLockReadReentrantWriterMixin.canWrite
  | readerPhaseFair => RWLockReaderPhaseFairMixin.canWrite
  | readerPhaseFairReentrantWriter => RWLockReaderPhaseFairReentrantWriterMixin.canWrite
  | fair => RWLockFairMixin.canWrite
  | fairReentrantWriter => RWLockFairReentrantWriterMixin.canWrite

/-- `_acquire_read_core`. -/
def acquireReadCore : LockClass → RWLock τ → Option τ → Bool → Option ℕ → RWLock τ
  | write | writeReentrantWriter => RWLockWriteMixin.acquireReadCore
  | read | readReentrantWriter => RWLockReadMixin.acquireReadCore
  | readerPhaseFair | readerPhaseFairReentrantWriter => RWLockReaderPhaseFairMixin.acquireReadCore
  | fair | fairReentrantWriter => RWLockFairMixin.acquireReadCore

/-- `_acquire_write_core`. -/
def acquireWriteCore : LockClass → RWLock τ → Option τ → Bool → Option ℕ → RWLock τ
  | write => RWLockWriteMixin.acquireWriteCore
  | read => RWLockReadMixin.acquireWriteCore
  | readerPhaseFair | fair => RWLockReaderPhaseFairMixin.acquireWriteCore
  | writeReentrantWriter | readReentrantWriter | readerPhaseFairReentrantWriter
  | fairReentrantWriter => RWLockReentrantWriterCoreMixin.acquireWriteCore

/-- `_release_read_core`; the strict fair mixin inherits it. -/
def releaseReadCore : LockClass → RWLock τ → Option τ → Except RuntimeError (RWLock τ)
  | write | writeReentrantWriter => RWLockWriteMixin.releaseReadCore
  | read | readReentrantWriter => RWLockReadMixin.releaseReadCore
  | readerPhaseFair | readerPhaseFairReentrantWriter =>
      RWLockReaderPhaseFairMixin.releaseReadCore
        RWLockReaderPhaseFairMixin.finishOrContinueReaderPhase
  | fair | fairReentrantWriter =>
      RWLockReaderPhaseFairMixin.releaseReadCore RWLockFairMixin.finishOrContinueReaderPhase

/-- `_on_reader_abort`. -/
def onReaderAbort : LockClass → RWLock τ → Option ℕ → RWLock τ
  | write | writeReentrantWriter => RWLockWriteMixin.onReaderAbort
  | read | readReentrantWriter => RWLockReadMixin.onReaderAbort
  | readerPhaseFair | readerPhaseFairReentrantWriter => RWLockReaderPhaseFairMixin.onReaderAbort
  | fair | fairReentrantWriter => RWLockFairMixin.onReaderAbort

/-- `_on_writer_abort`; the strict fair mixin inherits it. -/
def onWriterAbort : LockClass → RWLock τ → Option ℕ → RWLock τ
  | write | writeReentrantWriter => RWLockWriteMixin.onWriterAbort
  | read | readReentrantWriter => RWLockReadMixin.onWriterAbort
  | readerPhaseFair | readerPhaseFairReentrantWriter =>
      RWLockReaderPhaseFairMixin.onWriterAbort RWLockReaderPhaseFairMixin.startReaderPhase
  | fair | fairReentrantWriter =>
      RWLockReaderPhaseFairMixin.onWriterAbort RWLockFairMixin.startReaderPhase

/-- `_release_write_core`. -/
def releaseWriteCore : LockClass → RWLock τ → Option τ → Except RuntimeError (RWLock τ)
  | write => RWLockWriteMixin.releaseWriteCore
  | read => RWLockReadMixin.releaseWriteCore
  | readerPhaseFair =>
      RWLockReaderPhaseFairMixin.releaseWriteCore RWLockReaderPhaseFairMixin.startReaderPhase
  | fair => RWLockReaderPhaseFairMixin.releaseWriteCore RWLockFairMixin.startReaderPhase
  | writeReentrantWriter =>
      RWLockReentrantWriterCoreMixin.releaseWriteCore
        fun s => writeReentrantWriter.onWriterAbort s none
  | readReentrantWriter =>
      RWLockReentrantWriterCoreMixin.releaseWriteCore
        fun s => readReentrantWriter.onWriterAbort s none
  | readerPhaseFairReentrantWriter =>
      RWLockReentrantWriterCoreMixin.releaseWriteCore
        fun s => readerPhaseFairReentrantWriter.onWriterAbort s none
  | fairReentrantWriter =>
      RWLockReentrantWriterCoreMixin.releaseWriteCore
        fun s => fairReentrantWriter.onWriterAbort s none

/-- `_downgrade_core`. -/
def downgradeCore : LockClass → RWLock τ → Option τ → Except RuntimeError (RWLock τ)
  | write => RWLockWriteMixin.downgradeCore
  | read => RWLockReadMixin.downgradeCore
  | readerPhaseFair =>
      RWLockReaderPhaseFairMixin.downgradeCore RWLockReaderPhaseFairMixin.startReaderPhase
  | fair => RWLockReaderPhaseFairMixin.downgradeCore RWLockFairMixin.startReaderPhase
  | writeReentrantWriter => RWLockWriteReentrantWriterMixin.downgradeCore
  | readReentrantWriter => RWLockReadReentrantWriterMixin.downgradeCore
  | readerPhaseFairReentrantWriter => RWLockReaderPhaseFairReentrantWriterMixin.downgradeCore
  | fairReentrantWriter => RWLockFairReentrantWriterMixin.downgradeCore

/-- `_is_write_locked`. -/
def isWriteLocked (cls : LockClass) (s : RWLock τ) : Bool :=
  if cls.reentrant then s.writerId != none else s.writerActive

/-- `_is_current_writer`: the classes with a `_writer_id` compare that, the
others the recorded `_writer_owner`. -/
def isCurrentWriter (cls : LockClass) (s : RWLock τ) (me : Option τ) : Bool :=
  if cls.reentrant then s.writerId == me else s.writerOwner == me

/-- `_check_write_acquire_allowed`. -/
def checkWriteAcquireAllowed (cls : LockClass) (s : RWLock τ) (me : Option τ) :
    Except RuntimeError Unit :=
  if decide (0 < s.readersActive) && s.isCurrentReader me && !cls.isCurrentWriter s me then
    .error .upgrade
  else .ok ()

/-! ### The eight classes in one shape -/

/-- Who owns the write lock. -/
def owner (cls : LockClass) (s : RWLock τ) : Option τ :=
  if cls.reentrant then s.writerId else s.writerOwner

/-- How often the owner acquired the write lock. -/
def depth (cls : LockClass) (s : RWLock τ) : ℤ :=
  if cls.reentrant then s.writeCount else if s.writerActive then 1 else 0

/-- The signals of `_acquire_read_core`, after the bookkeeping. -/
def onReaderEnter (cls : LockClass) (waiting : Bool) (waiterSeq : Option ℕ) (s : RWLock τ) :
    RWLock τ :=
  match cls.policy with
  | .write | .read => s
  | .readerPhaseFair =>
      if s.readersTurn && decide (0 < s.read.thoseWaiting) then
        RWLockReaderPhaseFairMixin.wakeWaitingReader s
      else s
  | .fair =>
      let s := RWLockFairMixin.consumeReaderPhaseSlot s waiting waiterSeq
      if s.readersTurn && decide (0 < s.readerPhasePending) then
        RWLockFairMixin.wakeWaitingReader s
      else s

/-- The signals of `_release_read_core`, after the bookkeeping. -/
def onReaderLeave (cls : LockClass) (s : RWLock τ) : RWLock τ :=
  match cls.policy with
  | .write | .read => RWLockWriteMixin.notifyWriterIfFree s
  | .readerPhaseFair =>
      if s.readersActive == 0 then RWLockReaderPhaseFairMixin.finishOrContinueReaderPhase s else s
  | .fair => if s.readersActive == 0 then RWLockFairMixin.finishOrContinueReaderPhase s else s

/-- The signals of `_downgrade_core`, after the bookkeeping. -/
def onDowngrade (cls : LockClass) (s : RWLock τ) : RWLock τ :=
  match cls.policy with
  | .write =>
      if s.write.thoseWaiting == 0 && s.read.condition.hasWaiters then s.notifyAll .read else s
  | .read => if s.read.condition.hasWaiters then s.notifyAll .read else s
  | .readerPhaseFair => RWLockReaderPhaseFairMixin.startReaderPhase s
  | .fair => RWLockFairMixin.startReaderPhase s

/-- A reader enters, and the hook of its class decides whom that wakes. -/
theorem acquireReadCore_eq (cls : LockClass) (s : RWLock τ) (me : Option τ) (waiting : Bool)
    (waiterSeq : Option ℕ) :
    cls.acquireReadCore s me waiting waiterSeq =
      cls.onReaderEnter waiting waiterSeq (s.enterReader me) := by
  cases cls with
  | write | writeReentrantWriter | read | readReentrantWriter | readerPhaseFair
  | readerPhaseFairReentrantWriter => rfl
  | fair | fairReentrantWriter =>
      simp only [acquireReadCore, onReaderEnter, policy, RWLockFairMixin.acquireReadCore]
      have hcomm : (RWLockFairMixin.consumeReaderPhaseSlot s waiting waiterSeq).enterReader me =
          RWLockFairMixin.consumeReaderPhaseSlot (s.enterReader me) waiting waiterSeq := by
        unfold RWLockFairMixin.consumeReaderPhaseSlot
        rw [show RWLockFairMixin.isReservedReader (s.enterReader me) waiting waiterSeq =
          RWLockFairMixin.isReservedReader s waiting waiterSeq from rfl]
        split <;> rfl
      rw [hcomm]

omit [DecidableEq τ] in
/-- A reentrant class knows its writer by `_writer_id`. -/
theorem owner_of_reentrant {cls : LockClass} (hc : cls.reentrant = true) (s : RWLock τ) :
    cls.owner s = s.writerId :=
  if_pos hc

/-- A reader leaves, and the hook of its class decides whom that wakes. -/
theorem releaseReadCore_eq (cls : LockClass) (s : RWLock τ) (me : Option τ) :
    cls.releaseReadCore s me = s.leaveReader cls.onReaderLeave me := by
  cases cls <;> rfl

/-- What a reader-phase fair class does when a reader gives up. -/
theorem onReaderAbort_of_readerPhaseFair {cls : LockClass} (hp : cls.policy = .readerPhaseFair)
    (s : RWLock τ) (waiterSeq : Option ℕ) :
    cls.onReaderAbort s waiterSeq = RWLockReaderPhaseFairMixin.onReaderAbort s waiterSeq := by
  cases cls <;> first | rfl | cases hp

/-- What a strict fair class does when a reader gives up. -/
theorem onReaderAbort_of_fair {cls : LockClass} (hp : cls.policy = .fair) (s : RWLock τ)
    (waiterSeq : Option ℕ) :
    cls.onReaderAbort s waiterSeq = RWLockFairMixin.onReaderAbort s waiterSeq := by
  cases cls <;> first | rfl | cases hp

/-- What a reader-phase fair class does when a writer gives up or releases. -/
theorem onWriterAbort_of_readerPhaseFair {cls : LockClass} (hp : cls.policy = .readerPhaseFair)
    (s : RWLock τ) (waiterSeq : Option ℕ) :
    cls.onWriterAbort s waiterSeq = RWLockReaderPhaseFairMixin.onWriterAbort
      RWLockReaderPhaseFairMixin.startReaderPhase s waiterSeq := by
  cases cls <;> first | rfl | cases hp

/-- What a strict fair class does when a writer gives up or releases. -/
theorem onWriterAbort_of_fair {cls : LockClass} (hp : cls.policy = .fair) (s : RWLock τ)
    (waiterSeq : Option ℕ) :
    cls.onWriterAbort s waiterSeq =
      RWLockReaderPhaseFairMixin.onWriterAbort RWLockFairMixin.startReaderPhase s waiterSeq := by
  cases cls <;> first | rfl | cases hp

/-- A plain class asks only whether somebody writes. -/
theorem releaseWriteCore_of_plain {cls : LockClass} (hc : cls.reentrant = false) (s : RWLock τ)
    (me : Option τ) :
    cls.releaseWriteCore s me = s.releasePlainWriter fun s => cls.onWriterAbort s none := by
  cases cls <;> first | rfl | cases hc

/-- A reentrant class asks who releases, and counts. -/
theorem releaseWriteCore_of_reentrant {cls : LockClass} (hc : cls.reentrant = true)
    (s : RWLock τ) (me : Option τ) :
    cls.releaseWriteCore s me =
      RWLockReentrantWriterCoreMixin.releaseWriteCore (fun s => cls.onWriterAbort s none) s me := by
  cases cls <;> first | rfl | cases hc

/-- In a reentrant class `_release_write_core` raises for whoever fails the
ownership test. -/
theorem releaseWriteCore_of_ne {cls : LockClass} (hc : cls.reentrant = true) {s : RWLock τ}
    {k : Option τ} (hk : s.writerId ≠ k) :
    cls.releaseWriteCore s k = .error .permissionDenied := by
  rw [releaseWriteCore_of_reentrant hc, RWLockReentrantWriterCoreMixin.releaseWriteCore, if_pos hk]

/-- A callback of the event loop is not told from the owner of a lock that nobody owns. -/
theorem releaseWriteCore_unowned {cls : LockClass} (hc : cls.reentrant = true) {s : RWLock τ}
    (hs : s.writerId = none) : ∃ s', cls.releaseWriteCore s none = .ok s' := by
  rw [releaseWriteCore_of_reentrant hc, RWLockReentrantWriterCoreMixin.releaseWriteCore,
    if_neg (not_not_intro hs)]
  dsimp only
  split_ifs
  · exact ⟨_, rfl⟩
  · exact ⟨_, rfl⟩

/-- The downgrade of a plain class. -/
theorem downgradeCore_of_plain {cls : LockClass} (hc : cls.reentrant = false) (s : RWLock τ)
    (me : Option τ) : cls.downgradeCore s me = s.downgradePlainWriter cls.onDowngrade me := by
  cases cls <;> first | rfl | cases hc

/-- The downgrade of a reentrant class. -/
theorem downgradeCore_of_reentrant {cls : LockClass} (hc : cls.reentrant = true) (s : RWLock τ)
    (me : Option τ) :
    cls.downgradeCore s me =
      RWLockReentrantWriterCoreMixin.downgradeWriter cls.onDowngrade s me := by
  cases cls <;> first | rfl | cases hc

/-- Nobody else downgrades the lock of a reentrant class. -/
theorem downgradeCore_of_ne {cls : LockClass} (hc : cls.reentrant = true) {s : RWLock τ}
    {k : Option τ} (hk : s.writerId ≠ k) : cls.downgradeCore s k = .error .permissionDenied := by
  rw [downgradeCore_of_reentrant hc, RWLockReentrantWriterCoreMixin.downgradeWriter, if_pos hk]

omit [DecidableEq τ] in
/-- The write acquisition of a plain class. -/
theorem acquireWriteCore_of_plain {cls : LockClass} (hc : cls.reentrant = false) (s : RWLock τ)
    (me : Option τ) (waiting : Bool) (waiterSeq : Option ℕ) :
    cls.acquireWriteCore s me waiting waiterSeq = s.acquirePlainWriter me := by
  cases cls <;> first | rfl | cases hc

omit [DecidableEq τ] in
/-- The write acquisition of a reentrant class. -/
theorem acquireWriteCore_of_reentrant {cls : LockClass} (hc : cls.reentrant = true)
    (s : RWLock τ) (me : Option τ) (waiting : Bool) (waiterSeq : Option ℕ) :
    cls.acquireWriteCore s me waiting waiterSeq =
      { s with writerId := me, writeCount := s.writeCount + 1 } := by
  cases cls <;> first | rfl | cases hc

end LockClass

end Rwlocker

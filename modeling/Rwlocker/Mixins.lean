/-
# The strategy mixins

`rwlocker/mixins.py`.  Each mixin holds the state machine of one strategy: who
is admitted, what an acquire, a release or a downgrade records, and whom it
wakes.  A method that calls a method the concrete class may override takes the
override as an argument (`onWriterAbort`, `startReaderPhase`,
`finishOrContinueReaderPhase`, `wakeWaitingReader`).

`waiting` and `waiterSeq` are the arguments of `_can_read` and its relatives:
`False, None` on the fast path, `True, seq` for a registered waiter.
-/

import Rwlocker.State

namespace Rwlocker

variable {τ : Type} [DecidableEq τ]

namespace RWLock

/-- `self._readers_active += 1; self._record_reader_acquire()`. -/
def enterReader (s : RWLock τ) (me : Option τ) : RWLock τ :=
  ({ s with readersActive := s.readersActive + 1 }).recordReaderAcquire me

/-- `self._record_reader_release(); self._readers_active -= 1`, and then `after`. -/
def leaveReader (after : RWLock τ → RWLock τ) (s : RWLock τ) (me : Option τ) :
    Except RuntimeError (RWLock τ) :=
  match s.recordReaderRelease me with
  | .error e => .error e
  | .ok s => .ok (after { s with readersActive := s.readersActive - 1 })

/-- The `_acquire_write_core` of the plain mixins. -/
def acquirePlainWriter (s : RWLock τ) (me : Option τ) : RWLock τ :=
  { s with writerActive := true, writerOwner := me }

/-- The `_release_write_core` of the plain mixins. -/
def releasePlainWriter (onWriterAbort : RWLock τ → RWLock τ) (s : RWLock τ) :
    Except RuntimeError (RWLock τ) :=
  if s.writerActive = false then .error .unacquiredWrite
  else .ok (onWriterAbort { s with writerActive := false, writerOwner := none })

/-- The `_downgrade_core` of the plain mixins; `wake` is its last statement. -/
def downgradePlainWriter (wake : RWLock τ → RWLock τ) (s : RWLock τ) (me : Option τ) :
    Except RuntimeError (RWLock τ) :=
  if s.writerActive = false then .error .downgradeUnlocked
  else if s.writerOwner ≠ me then .error .permissionDenied
  else .ok (wake ({ s with writerActive := false, writerOwner := none }.enterReader me))

end RWLock

/-! ### Write-preferring -/

namespace RWLockWriteMixin

/-- `_can_read`: not while a writer waits, unless the caller reads already. -/
def canRead (s : RWLock τ) (me : Option τ) (_waiting : Bool) (_waiterSeq : Option ℕ) : Bool :=
  if s.writerActive then false
  else s.write.thoseWaiting == 0 || (decide (0 < s.readersActive) && s.isCurrentReader me)

/-- `_acquire_read_core`. -/
def acquireReadCore (s : RWLock τ) (me : Option τ) (_waiting : Bool) (_waiterSeq : Option ℕ) :
    RWLock τ :=
  s.enterReader me

/-- The end of `_release_read_core`: the last reader wakes a writer. -/
def notifyWriterIfFree (s : RWLock τ) : RWLock τ :=
  if s.readersActive == 0 && s.write.condition.hasWaiters then s.notify .write 1 else s

/-- `_release_read_core`. -/
def releaseReadCore (s : RWLock τ) (me : Option τ) : Except RuntimeError (RWLock τ) :=
  s.leaveReader notifyWriterIfFree me

/-- `_on_reader_abort` does nothing: no writer waits for a waiting reader. -/
def onReaderAbort (s : RWLock τ) (_waiterSeq : Option ℕ) : RWLock τ := s

/-- `_can_write`: nobody writes and nobody reads. -/
def canWrite (s : RWLock τ) (_me : Option τ) (_waiting : Bool) (_waiterSeq : Option ℕ) : Bool :=
  !s.writerActive && s.readersActive == 0

/-- `_acquire_write_core`. -/
def acquireWriteCore (s : RWLock τ) (me : Option τ) (_waiting : Bool) (_waiterSeq : Option ℕ) :
    RWLock τ :=
  s.acquirePlainWriter me

/-- `_on_writer_abort`: a waiting writer comes before the readers. -/
def onWriterAbort (s : RWLock τ) (_waiterSeq : Option ℕ) : RWLock τ :=
  if decide (0 < s.write.thoseWaiting) && s.write.condition.hasWaiters then s.notify .write 1
  else if s.read.condition.hasWaiters then s.notifyAll .read
  else s

/-- `_release_write_core`, which ends with `_on_writer_abort`. -/
def releaseWriteCore (s : RWLock τ) (_me : Option τ) : Except RuntimeError (RWLock τ) :=
  s.releasePlainWriter fun s => onWriterAbort s none

/-- `_downgrade_core`: the readers are woken if no writer waits. -/
def downgradeCore (s : RWLock τ) (me : Option τ) : Except RuntimeError (RWLock τ) :=
  s.downgradePlainWriter (fun s =>
    if s.write.thoseWaiting == 0 && s.read.condition.hasWaiters then s.notifyAll .read else s) me

end RWLockWriteMixin

/-! ### Read-preferring -/

namespace RWLockReadMixin

/-- `_can_read`: a waiting writer does not keep readers out. -/
def canRead (s : RWLock τ) (_me : Option τ) (_waiting : Bool) (_waiterSeq : Option ℕ) : Bool :=
  !s.writerActive

/-- `_acquire_read_core`. -/
def acquireReadCore (s : RWLock τ) (me : Option τ) (_waiting : Bool) (_waiterSeq : Option ℕ) :
    RWLock τ :=
  s.enterReader me

/-- `_release_read_core`: the last reader wakes a writer. -/
def releaseReadCore (s : RWLock τ) (me : Option τ) : Except RuntimeError (RWLock τ) :=
  s.leaveReader RWLockWriteMixin.notifyWriterIfFree me

/-- `_on_reader_abort`: the last reader that gives up lets a writer try. -/
def onReaderAbort (s : RWLock τ) (_waiterSeq : Option ℕ) : RWLock τ :=
  if s.read.thoseWaiting == 0 && s.readersActive == 0 && s.write.condition.hasWaiters then
    s.notify .write 1
  else s

/-- `_can_write`: not while a reader waits. -/
def canWrite (s : RWLock τ) (_me : Option τ) (_waiting : Bool) (_waiterSeq : Option ℕ) : Bool :=
  !s.writerActive && s.readersActive == 0 && s.read.thoseWaiting == 0

/-- `_acquire_write_core`. -/
def acquireWriteCore (s : RWLock τ) (me : Option τ) (_waiting : Bool) (_waiterSeq : Option ℕ) :
    RWLock τ :=
  s.acquirePlainWriter me

/-- `_on_writer_abort`: all waiting readers come before a writer. -/
def onWriterAbort (s : RWLock τ) (_waiterSeq : Option ℕ) : RWLock τ :=
  if decide (0 < s.read.thoseWaiting) && s.read.condition.hasWaiters then s.notifyAll .read
  else if s.write.condition.hasWaiters then s.notify .write 1
  else s

/-- `_release_write_core`, which ends with `_on_writer_abort`. -/
def releaseWriteCore (s : RWLock τ) (_me : Option τ) : Except RuntimeError (RWLock τ) :=
  s.releasePlainWriter fun s => onWriterAbort s none

/-- `_downgrade_core`: all waiting readers are woken. -/
def downgradeCore (s : RWLock τ) (me : Option τ) : Except RuntimeError (RWLock τ) :=
  s.downgradePlainWriter (fun s =>
    if s.read.condition.hasWaiters then s.notifyAll .read else s) me

end RWLockReadMixin

/-! ### Reader-phase fair -/

namespace RWLockReaderPhaseFairMixin

/-- `_wake_waiting_reader` wakes all of them. -/
def wakeWaitingReader (s : RWLock τ) : RWLock τ :=
  if !s.writerActive && decide (0 < s.read.thoseWaiting) && s.read.condition.hasWaiters then
    s.notifyAll .read
  else s

/-- `_start_reader_phase`: the readers have the turn. -/
def startReaderPhase (s : RWLock τ) : RWLock τ :=
  wakeWaitingReader { s with readersTurn := true }

/-- `_finish_or_continue_reader_phase`: the turn goes on while a reader waits, and then goes to
a writer. -/
def finishOrContinueReaderPhase (s : RWLock τ) : RWLock τ :=
  if s.readersTurn && decide (0 < s.read.thoseWaiting) then wakeWaitingReader s
  else
    let s := { s with readersTurn := false }
    if decide (0 < s.write.thoseWaiting) && s.write.condition.hasWaiters then s.notify .write 1
    else s

/-- `_can_read`: a waiting writer keeps a reader out unless the readers have the turn, or the
caller reads already. -/
def canRead (s : RWLock τ) (me : Option τ) (_waiting : Bool) (_waiterSeq : Option ℕ) : Bool :=
  if s.writerActive then false
  else s.readersTurn || s.write.thoseWaiting == 0 ||
    (decide (0 < s.readersActive) && s.isCurrentReader me)

/-- `_acquire_read_core`: whoever enters during the turn lets the other waiting readers in. -/
def acquireReadCore (s : RWLock τ) (me : Option τ) (_waiting : Bool) (_waiterSeq : Option ℕ) :
    RWLock τ :=
  let s := s.enterReader me
  if s.readersTurn && decide (0 < s.read.thoseWaiting) then wakeWaitingReader s else s

/-- `_release_read_core`: the last reader ends the turn or passes it on. -/
def releaseReadCore (finishOrContinueReaderPhase : RWLock τ → RWLock τ) (s : RWLock τ)
    (me : Option τ) : Except RuntimeError (RWLock τ) :=
  s.leaveReader
    (fun s => if s.readersActive == 0 then finishOrContinueReaderPhase s else s) me

/-- `_on_reader_abort`: so does a reader that gives up when nobody reads. -/
def onReaderAbort (s : RWLock τ) (_waiterSeq : Option ℕ) : RWLock τ :=
  if s.readersTurn && s.readersActive == 0 then finishOrContinueReaderPhase s else s

/-- `_can_write`: not while readers read, or have the turn and wait. -/
def canWrite (s : RWLock τ) (_me : Option τ) (_waiting : Bool) (_waiterSeq : Option ℕ) : Bool :=
  if s.writerActive || decide (0 < s.readersActive) then false
  else if s.readersTurn && decide (0 < s.read.thoseWaiting) then false
  else true

/-- `_acquire_write_core`. -/
def acquireWriteCore (s : RWLock τ) (me : Option τ) (_waiting : Bool) (_waiterSeq : Option ℕ) :
    RWLock τ :=
  s.acquirePlainWriter me

/-- `_on_writer_abort`: readers in the queue get the turn, and else a writer is woken. -/
def onWriterAbort (startReaderPhase : RWLock τ → RWLock τ) (s : RWLock τ)
    (_waiterSeq : Option ℕ) : RWLock τ :=
  if decide (0 < s.read.thoseWaiting) && s.read.condition.hasWaiters then startReaderPhase s
  else if s.write.condition.hasWaiters then s.notify .write 1
  else s

/-- `_release_write_core`, which ends with `_on_writer_abort`. -/
def releaseWriteCore (startReaderPhase : RWLock τ → RWLock τ) (s : RWLock τ) (_me : Option τ) :
    Except RuntimeError (RWLock τ) :=
  s.releasePlainWriter fun s => onWriterAbort startReaderPhase s none

/-- `_downgrade_core`: the readers get the turn. -/
def downgradeCore (startReaderPhase : RWLock τ → RWLock τ) (s : RWLock τ) (me : Option τ) :
    Except RuntimeError (RWLock τ) :=
  s.downgradePlainWriter startReaderPhase me

end RWLockReaderPhaseFairMixin

/-! ### Strict fair -/

namespace RWLockFairMixin

/-- `_wake_waiting_reader` wakes as many as there are slots. -/
def wakeWaitingReader (s : RWLock τ) : RWLock τ :=
  if s.writerActive || decide (s.readerPhasePending ≤ 0) || decide (s.read.thoseWaiting ≤ 0) ||
      !s.read.condition.hasWaiters then s
  else s.notify .read (min s.read.thoseWaiting s.readerPhasePending)

/-- `_start_reader_phase`: a slot for each waiting reader, and the newest of their numbers is
the cutoff. -/
def startReaderPhase (s : RWLock τ) : RWLock τ :=
  let pending := s.read.thoseWaiting
  let s := { s with
    readersTurn := decide (0 < pending)
    readerPhasePending := pending
    readerPhaseCutoff := s.read.waiterSeq }
  if s.readersTurn then wakeWaitingReader s else s

/-- `_finish_or_continue_reader_phase`: the phase goes on while a slot is left, and then ends. -/
def finishOrContinueReaderPhase (s : RWLock τ) : RWLock τ :=
  if s.readersTurn && decide (0 < s.readerPhasePending) then wakeWaitingReader s
  else
    let s := { s with readersTurn := false, readerPhaseCutoff := 0, readerPhasePending := 0 }
    if decide (0 < s.write.thoseWaiting) && s.write.condition.hasWaiters then s.notify .write 1
    else s

/-- `_is_reserved_reader`: the caller waited when the phase began, and a slot is left. -/
def isReservedReader (s : RWLock τ) (waiting : Bool) (waiterSeq : Option ℕ) : Bool :=
  match waiterSeq with
  | none => false
  | some seq =>
      if !s.readersTurn || !waiting then false
      else decide (seq ≤ s.readerPhaseCutoff) && decide (0 < s.readerPhasePending)

/-- `_consume_reader_phase_slot`. -/
def consumeReaderPhaseSlot (s : RWLock τ) (waiting : Bool) (waiterSeq : Option ℕ) : RWLock τ :=
  if isReservedReader s waiting waiterSeq then
    { s with readerPhasePending := s.readerPhasePending - 1 }
  else s

/-- `_can_read`: a waiting writer keeps a reader out unless it has a slot, or reads already. -/
def canRead (s : RWLock τ) (me : Option τ) (waiting : Bool) (waiterSeq : Option ℕ) : Bool :=
  if s.writerActive then false
  else if s.write.thoseWaiting == 0 then true
  else if s.readersTurn && isReservedReader s waiting waiterSeq then true
  else decide (0 < s.readersActive) && s.isCurrentReader me

/-- `_acquire_read_core`: whoever enters spends its slot, and wakes those whose slots are left. -/
def acquireReadCore (s : RWLock τ) (me : Option τ) (waiting : Bool) (waiterSeq : Option ℕ) :
    RWLock τ :=
  let s := (consumeReaderPhaseSlot s waiting waiterSeq).enterReader me
  if s.readersTurn && decide (0 < s.readerPhasePending) then wakeWaitingReader s else s

/-- `_on_reader_abort`: whoever gives up spends its slot, too; the test of the slot is written
out and does not ask whether the caller waits. -/
def onReaderAbort (s : RWLock τ) (waiterSeq : Option ℕ) : RWLock τ :=
  let s :=
    if s.readersTurn && (waiterSeq.any fun seq => decide (seq ≤ s.readerPhaseCutoff)) &&
        decide (0 < s.readerPhasePending) then
      { s with readerPhasePending := s.readerPhasePending - 1 }
    else s
  if s.readersTurn && decide (0 < s.readerPhasePending) then wakeWaitingReader s
  else if s.readersTurn && s.readersActive == 0 then finishOrContinueReaderPhase s
  else s

/-- `_can_write`: not while readers read, or a slot is left. -/
def canWrite (s : RWLock τ) (_me : Option τ) (_waiting : Bool) (_waiterSeq : Option ℕ) : Bool :=
  if s.writerActive || decide (0 < s.readersActive) then false
  else if s.readersTurn && decide (0 < s.readerPhasePending) then false
  else true

end RWLockFairMixin

/-! ### Writer reentrancy -/

namespace RWLockReentrantWriterCoreMixin

/-- `_acquire_write_core`: one more write acquisition of the caller. -/
def acquireWriteCore (s : RWLock τ) (me : Option τ) (_waiting : Bool) (_waiterSeq : Option ℕ) :
    RWLock τ :=
  { s with writerId := me, writeCount := s.writeCount + 1 }

/-- `_release_write_core`: the owner counts down, and frees the lock at zero. -/
def releaseWriteCore (onWriterAbort : RWLock τ → RWLock τ) (s : RWLock τ) (me : Option τ) :
    Except RuntimeError (RWLock τ) :=
  if s.writerId ≠ me then .error .permissionDenied
  else
    let s := { s with writeCount := s.writeCount - 1 }
    if s.writeCount = 0 then .ok (onWriterAbort { s with writerId := none }) else .ok s

/-- The common part of the two `_downgrade_to_…` methods; `wake` is their last
statement. -/
def downgradeWriter (wake : RWLock τ → RWLock τ) (s : RWLock τ) (me : Option τ) :
    Except RuntimeError (RWLock τ) :=
  if s.writerId ≠ me then .error .permissionDenied
  else if 1 < s.writeCount then .error .downgradeNested
  else .ok (wake ({ s with writerId := none, writeCount := 0 }.enterReader me))

/-- `_downgrade_to_read_notify_all`. -/
def downgradeToReadNotifyAll (notifyWaitingReaders : Bool) (s : RWLock τ) (me : Option τ) :
    Except RuntimeError (RWLock τ) :=
  downgradeWriter (fun s =>
    if notifyWaitingReaders && s.read.condition.hasWaiters then s.notifyAll .read else s) s me

/-- `_downgrade_to_reader_phase`. -/
def downgradeToReaderPhase (startReaderPhase : RWLock τ → RWLock τ) (s : RWLock τ)
    (me : Option τ) : Except RuntimeError (RWLock τ) :=
  downgradeWriter startReaderPhase s me

end RWLockReentrantWriterCoreMixin

namespace RWLockWriteReentrantWriterMixin

/-- `_can_read`: only the owner while there is one, and else as without reentrancy. -/
def canRead (s : RWLock τ) (me : Option τ) (_waiting : Bool) (_waiterSeq : Option ℕ) : Bool :=
  if s.writerId ≠ none then s.writerId == me
  else s.write.thoseWaiting == 0 || (decide (0 < s.readersActive) && s.isCurrentReader me)

/-- `_can_write`: the owner enters again. -/
def canWrite (s : RWLock τ) (me : Option τ) (_waiting : Bool) (_waiterSeq : Option ℕ) : Bool :=
  if s.writerId ≠ none then s.writerId == me
  else s.readersActive == 0

/-- `_downgrade_core`: the readers are woken if no writer waits. -/
def downgradeCore (s : RWLock τ) (me : Option τ) : Except RuntimeError (RWLock τ) :=
  RWLockReentrantWriterCoreMixin.downgradeToReadNotifyAll (s.write.thoseWaiting == 0) s me

end RWLockWriteReentrantWriterMixin

namespace RWLockReadReentrantWriterMixin

/-- `_can_read`: only the owner while there is one. -/
def canRead (s : RWLock τ) (me : Option τ) (_waiting : Bool) (_waiterSeq : Option ℕ) : Bool :=
  if s.writerId ≠ none then s.writerId == me
  else true

/-- `_can_write`: the owner enters again. -/
def canWrite (s : RWLock τ) (me : Option τ) (_waiting : Bool) (_waiterSeq : Option ℕ) : Bool :=
  if s.writerId ≠ none then s.writerId == me
  else s.readersActive == 0 && s.read.thoseWaiting == 0

/-- `_downgrade_core`: all waiting readers are woken. -/
def downgradeCore (s : RWLock τ) (me : Option τ) : Except RuntimeError (RWLock τ) :=
  RWLockReentrantWriterCoreMixin.downgradeToReadNotifyAll true s me

end RWLockReadReentrantWriterMixin

namespace RWLockReaderPhaseFairReentrantWriterMixin

/-- `_can_read`: only the owner while there is one, and else as without reentrancy. -/
def canRead (s : RWLock τ) (me : Option τ) (_waiting : Bool) (_waiterSeq : Option ℕ) : Bool :=
  if s.writerId ≠ none then s.writerId == me
  else s.readersTurn || s.write.thoseWaiting == 0 ||
    (decide (0 < s.readersActive) && s.isCurrentReader me)

/-- `_can_write`: the owner enters again. -/
def canWrite (s : RWLock τ) (me : Option τ) (_waiting : Bool) (_waiterSeq : Option ℕ) : Bool :=
  if s.writerId ≠ none then s.writerId == me
  else if 0 < s.readersActive then false
  else if s.readersTurn && decide (0 < s.read.thoseWaiting) then false
  else true

/-- `_downgrade_core`: the readers get the turn. -/
def downgradeCore (s : RWLock τ) (me : Option τ) : Except RuntimeError (RWLock τ) :=
  RWLockReentrantWriterCoreMixin.downgradeToReaderPhase
    RWLockReaderPhaseFairMixin.startReaderPhase s me

end RWLockReaderPhaseFairReentrantWriterMixin

namespace RWLockFairReentrantWriterMixin

/-- `_can_read`: only the owner while there is one, and else as without reentrancy. -/
def canRead (s : RWLock τ) (me : Option τ) (waiting : Bool) (waiterSeq : Option ℕ) : Bool :=
  if s.writerId ≠ none then s.writerId == me
  else if s.write.thoseWaiting == 0 then true
  else if s.readersTurn && RWLockFairMixin.isReservedReader s waiting waiterSeq then true
  else decide (0 < s.readersActive) && s.isCurrentReader me

/-- `_can_write`: the owner enters again. -/
def canWrite (s : RWLock τ) (me : Option τ) (_waiting : Bool) (_waiterSeq : Option ℕ) : Bool :=
  if s.writerId ≠ none then s.writerId == me
  else if 0 < s.readersActive then false
  else if s.readersTurn && decide (0 < s.readerPhasePending) then false
  else true

/-- `_downgrade_core`: a phase begins. -/
def downgradeCore (s : RWLock τ) (me : Option τ) : Except RuntimeError (RWLock τ) :=
  RWLockReentrantWriterCoreMixin.downgradeToReaderPhase RWLockFairMixin.startReaderPhase s me

end RWLockFairReentrantWriterMixin

end Rwlocker

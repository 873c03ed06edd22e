/-
# The state of a lock

`RWLockWithProxyBase` and its two proxies (`rwlocker/thread_rwlock.py`,
`rwlocker/async_rwlock.py`).  One record holds the fields of all eight
strategies; a strategy that lacks a field never touches it, so the field keeps
its default.

Whoever calls a method is a value of `Option τ`: `some t` is the thread
`threading.current_thread()` (or its `get_ident()`: the threads of a run are
alive together, so their idents differ) or the task `asyncio.current_task()`,
and `none` is the `None` that `asyncio.current_task()` returns in a callback of
the event loop.  The owner fields `_writer_owner`, `_writer_id` and the
downgrade marker use the same `None` for "nobody".
-/

import Rwlocker.Basis.Tally
import Rwlocker.Queues

namespace Rwlocker

/-- Which library the lock is built on. -/
inductive Runtime
  /-- `thread_rwlock.py`. -/
  | thread
  /-- `async_rwlock.py`. -/
  | async
  deriving DecidableEq, Repr

/-- The proxy a caller goes through, `.read` or `.write`. -/
inductive Mode
  | read
  | write
  deriving DecidableEq, Repr

/-- The `RuntimeError`s the locks and conditions raise, one for each message. -/
inductive RuntimeError
  | readNotHeld
  | unacquiredWrite
  | downgradeUnlocked
  | permissionDenied
  | downgradeNested
  | upgrade
  | waitUnacquired
  | waitNested
  | notifyUnacquired
  deriving DecidableEq, Repr

/-- `RWLockProxy`: the waiting counter, the queue and the sequence counter. -/
structure Proxy (τ : Type) where
  thoseWaiting : ℤ := 0
  waiterSeq : ℕ := 0
  condition : WaitQueue τ := {}

/-- The fields of a lock, its proxies, and the downgrade marker of the writer
proxy (`_downgraded_thread_id`, `_downgraded_task`). -/
structure RWLock (τ : Type) where
  writerActive : Bool := false
  writerOwner : Option τ := none
  writerId : Option τ := none
  writeCount : ℤ := 0
  readersActive : ℤ := 0
  readerOwners : Tally (Option τ) := ∅
  readersTurn : Bool := false
  readerPhaseCutoff : ℕ := 0
  readerPhasePending : ℤ := 0
  proxy : Mode → Proxy τ := fun _ => {}
  downgraded : Option τ := none

namespace RWLock

variable {τ : Type}

/-- `lock.read`. -/
abbrev read (s : RWLock τ) : Proxy τ := s.proxy .read

/-- `lock.write`. -/
abbrev write (s : RWLock τ) : Proxy τ := s.proxy .write

/-- Changes one proxy. -/
def onProxy (s : RWLock τ) (m : Mode) (f : Proxy τ → Proxy τ) : RWLock τ :=
  { s with proxy := Function.update s.proxy m (f (s.proxy m)) }

/-- Changes the queue of one proxy. -/
def onQueue (s : RWLock τ) (m : Mode) (f : WaitQueue τ → WaitQueue τ) : RWLock τ :=
  s.onProxy m fun p => { p with condition := f p.condition }

variable [DecidableEq τ]

/-- `self.<m>.condition.notify(n)`. -/
def notify (s : RWLock τ) (m : Mode) (n : ℤ) : RWLock τ := s.onQueue m fun q => q.notify n

/-- `self.<m>.condition.notify_all()`. -/
def notifyAll (s : RWLock τ) (m : Mode) : RWLock τ := s.onQueue m fun q => q.notifyAll

/-- `_record_reader_acquire`. -/
def recordReaderAcquire (s : RWLock τ) (me : Option τ) : RWLock τ :=
  { s with readerOwners := s.readerOwners.insert me (s.readerOwners.count me + 1) }

/-- `_record_reader_release`. -/
def recordReaderRelease (s : RWLock τ) (me : Option τ) : Except RuntimeError (RWLock τ) :=
  let count := s.readerOwners.count me
  if count = 0 then .error .readNotHeld
  else if count = 1 then .ok { s with readerOwners := s.readerOwners.erase me }
  else .ok { s with readerOwners := s.readerOwners.insert me (count - 1) }

/-- `_is_current_reader`. -/
def isCurrentReader (s : RWLock τ) (me : Option τ) : Bool := 0 < s.readerOwners.count me

section frame

omit [DecidableEq τ]

variable (s : RWLock τ) (m : Mode) (f : Proxy τ → Proxy τ)

@[simp] theorem onProxy_writerActive : (s.onProxy m f).writerActive = s.writerActive := rfl
@[simp] theorem onProxy_writerOwner : (s.onProxy m f).writerOwner = s.writerOwner := rfl
@[simp] theorem onProxy_writerId : (s.onProxy m f).writerId = s.writerId := rfl
@[simp] theorem onProxy_writeCount : (s.onProxy m f).writeCount = s.writeCount := rfl
@[simp] theorem onProxy_readersActive : (s.onProxy m f).readersActive = s.readersActive := rfl
@[simp] theorem onProxy_readerOwners : (s.onProxy m f).readerOwners = s.readerOwners := rfl
@[simp] theorem onProxy_readersTurn : (s.onProxy m f).readersTurn = s.readersTurn := rfl
@[simp] theorem onProxy_readerPhaseCutoff :
    (s.onProxy m f).readerPhaseCutoff = s.readerPhaseCutoff := rfl
@[simp] theorem onProxy_readerPhasePending :
    (s.onProxy m f).readerPhasePending = s.readerPhasePending := rfl
@[simp] theorem onProxy_downgraded : (s.onProxy m f).downgraded = s.downgraded := rfl

theorem onProxy_proxy (m' : Mode) :
    (s.onProxy m f).proxy m' = if m' = m then f (s.proxy m) else s.proxy m' :=
  Function.update_apply ..

@[simp] theorem onProxy_proxy_self : (s.onProxy m f).proxy m = f (s.proxy m) :=
  Function.update_self ..

end frame

end RWLock

end Rwlocker

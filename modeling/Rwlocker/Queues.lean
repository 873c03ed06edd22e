/-
# Waiter queues

`rwlocker/queues.py`.  A queue is a `deque` of waiter objects.  The object is a
`threading.Lock` that its creator has already acquired (`ThreadWaitQueue`,
`ThreadConditionQueue`) or an `asyncio.Future` (`AsyncWaitQueue`,
`AsyncConditionQueue`); waking it is `waiter.release()` or
`waiter.set_result(True)`.  The four classes share `WakeQueueBase`, and differ
in when a wake reports failure: on an unlocked lock (`RuntimeError`), or on a
future that is `done()`, be it resolved or cancelled.

A waiter object is created by one call and dropped when that call returns, so
it is named here by whoever waits on it (`ω`).  `state` says what became of the
object: `gone` before it is created and after it is dropped.
-/

import Rwlocker.Basis.WakeLoop

namespace Rwlocker

/-- The life of a waiter object. -/
inductive Waiter
  /-- No such object. -/
  | gone
  /-- The lock is held by its creator; the future is not done. -/
  | pending
  /-- The lock was released; the future has its result. -/
  | woken
  /-- The future was cancelled. -/
  | cancelled
  deriving DecidableEq, Repr

/-- `_wake_waiter` succeeds: the lock is locked, the future is not `done()`. -/
def Waiter.live : Waiter → Bool
  | .pending => true
  | _ => false

/-- The life of an `asyncio.Future`. -/
inductive Future
  | pending
  /-- `set_result` was called. -/
  | finished
  | cancelled
  deriving DecidableEq, Repr

/-- `done()`. -/
def Future.done : Future → Bool
  | .pending => false
  | _ => true

/-- `WakeQueueBase`: the deque `_waiters`, and the objects it refers to. -/
structure WaitQueue (ω : Type) where
  waiters : List ω := []
  state : ω → Waiter := fun _ => .gone

namespace WaitQueue

variable {ω : Type}

/-- `has_waiters`. -/
def hasWaiters (q : WaitQueue ω) : Bool := !q.waiters.isEmpty

variable [DecidableEq ω]

/-- `_wake_waiter`: `release()` on the lock, `set_result(True)` on the future. -/
def wakeWaiter : ω → (ω → Waiter) → Bool × (ω → Waiter) :=
  WakeLoop.wake Waiter.live fun _ => .woken

/-- `_append_waiter` of a waiter object created for `w`. -/
def appendWaiter (q : WaitQueue ω) (w : ω) : WaitQueue ω :=
  { waiters := q.waiters ++ [w], state := Function.update q.state w .pending }

/-- `_discard_waiter`: `deque.remove`, with its `ValueError` swallowed. -/
def discardWaiter (q : WaitQueue ω) (w : ω) : WaitQueue ω :=
  { q with waiters := q.waiters.erase w }

/-- The waiter object of `w` is dropped when the call that made it returns. -/
def dropWaiter (q : WaitQueue ω) (w : ω) : WaitQueue ω :=
  { q with state := Function.update q.state w .gone }

/-- `future.cancel()`: cancels a future that is not done. -/
def cancelWaiter (q : WaitQueue ω) (w : ω) : WaitQueue ω :=
  if q.state w = .pending then { q with state := Function.update q.state w .cancelled } else q

/-- `notify`, that is `_notify_unlocked(n)`. -/
def notify (q : WaitQueue ω) (n : ℤ) : WaitQueue ω :=
  let r := WakeLoop.wakeLoop wakeWaiter q.waiters n q.state
  { waiters := r.1, state := r.2 }

/-- `notify_all`, that is `_notify_unlocked(len(self._waiters))`. -/
def notifyAll (q : WaitQueue ω) : WaitQueue ω := q.notify q.waiters.length

/-- The waiters a wake would succeed on, in arrival order. -/
def liveWaiters (q : WaitQueue ω) : List ω := q.waiters.filter fun w => (q.state w).live

/-- The calls of `_wake_waiter` that `_notify_unlocked(n)` makes, with their results. -/
def wakeCalls (q : WaitQueue ω) (n : ℤ) : List (ω × Bool) :=
  WakeLoop.wakeCalls wakeWaiter q.waiters n q.state

/-- The waiters that `_notify_unlocked(n)` takes out of the deque, in order. -/
def poppedBy (q : WaitQueue ω) (n : ℤ) : List ω := (q.wakeCalls n).map (·.1)

/-- The waiters that `_notify_unlocked(n)` wakes, in order. -/
def wokenBy (q : WaitQueue ω) (n : ℤ) : List ω := WakeLoop.woken (q.wakeCalls n)

omit [DecidableEq ω] in
@[simp] theorem hasWaiters_iff (q : WaitQueue ω) : q.hasWaiters = true ↔ q.waiters ≠ [] := by
  simp [hasWaiters]

omit [DecidableEq ω] in
theorem not_hasWaiters_iff (q : WaitQueue ω) : q.hasWaiters = false ↔ q.waiters = [] := by
  simp [hasWaiters]

@[simp] theorem cancelWaiter_waiters (q : WaitQueue ω) (w : ω) :
    (q.cancelWaiter w).waiters = q.waiters := by
  unfold cancelWaiter
  split_ifs <;> rfl

theorem cancelWaiter_state (q : WaitQueue ω) (w v : ω) :
    (q.cancelWaiter w).state v =
      if v = w ∧ q.state w = .pending then .cancelled else q.state v := by
  unfold cancelWaiter
  by_cases hp : q.state w = .pending
  · simp [hp, Function.update_apply]
  · simp [hp]

theorem Waiter.not_live_woken : ∀ v : Waiter, Waiter.live ((fun _ => Waiter.woken) v) = false :=
  fun _ => rfl

theorem notify_suffix (q : WaitQueue ω) (n : ℤ) : (q.notify n).waiters <:+ q.waiters :=
  WakeLoop.wakeLoop_suffix ..

/-- A notify leaves a waiter alone or wakes a pending one of the queue. -/
theorem notify_state (q : WaitQueue ω) (n : ℤ) (w : ω) :
    (q.notify n).state w = q.state w ∨
      q.state w = .pending ∧ w ∈ q.waiters ∧ (q.notify n).state w = .woken := by
  rcases WakeLoop.wakeLoop_state Waiter.not_live_woken q.waiters n q.state w with h | ⟨hl, hm, h⟩
  · exact .inl h
  · refine .inr ⟨?_, hm, h⟩
    cases hs : q.state w <;> simp_all [Waiter.live]

/-- A waiter that was popped is not pending any more. -/
theorem notify_popped {q : WaitQueue ω} {n : ℤ} {w : ω} (hw : w ∈ q.waiters)
    (hw' : w ∉ (q.notify n).waiters) : (q.notify n).state w ≠ .pending := by
  intro hs
  have := WakeLoop.wakeLoop_popped Waiter.not_live_woken hw hw'
  rw [show (WakeLoop.wakeLoop (WakeLoop.wake Waiter.live fun _ => Waiter.woken)
    q.waiters n q.state).2 w = .pending from hs] at this
  exact absurd this (by decide)

/-- A waiter that stays in the queue keeps its state. -/
theorem notify_kept {q : WaitQueue ω} (hnd : q.waiters.Nodup) {n : ℤ} {w : ω}
    (hw : w ∈ (q.notify n).waiters) : (q.notify n).state w = q.state w :=
  WakeLoop.wakeLoop_kept Waiter.not_live_woken hnd hw

/-- A notify with a positive budget wakes somebody, if anybody is pending. -/
theorem notify_wakes {q : WaitQueue ω} {n : ℤ} (hn : 0 < n)
    (h : ∃ w ∈ q.waiters, q.state w = .pending) :
    ∃ w ∈ q.waiters, q.state w = .pending ∧ (q.notify n).state w = .woken := by
  obtain ⟨w, hw, hs⟩ := h
  have hlive : Waiter.live (q.state w) = true := by rw [hs]; rfl
  obtain ⟨v, hv, hl, h⟩ := WakeLoop.wakeLoop_marks Waiter.not_live_woken hn ⟨w, hw, hlive⟩
  refine ⟨v, hv, ?_, h⟩
  cases hs : q.state v <;> simp_all [Waiter.live]

/-- **A notify wakes the first `n` live waiters**, and nobody else. -/
theorem notify_state_eq {q : WaitQueue ω} (hnd : q.waiters.Nodup) (n : ℤ) (w : ω) :
    (q.notify n).state w = if w ∈ q.liveWaiters.take n.toNat then .woken else q.state w :=
  WakeLoop.wakeLoop_take Waiter.not_live_woken hnd n q.state w

/-- A notify of one wakes the head of a queue in which everybody is pending. -/
theorem notify_one_state {q : WaitQueue ω} (hnd : q.waiters.Nodup)
    (hpend : ∀ w ∈ q.waiters, q.state w = .pending) (w : ω) :
    (q.notify 1).state w = if q.waiters.head? = some w then .woken else q.state w := by
  have hlive : q.liveWaiters = q.waiters :=
    List.filter_eq_self.2 fun w hw => by rw [hpend w hw]; rfl
  rw [notify_state_eq hnd, hlive]
  have hiff : w ∈ q.waiters.take (1 : ℤ).toNat ↔ q.waiters.head? = some w := by
    cases q.waiters with
    | nil => simp
    | cons v vs => simp [eq_comm]
  simp only [hiff]

/-- A notify with a budget of at least the queue's length empties the queue. -/
theorem notify_waiters_of_length_le {q : WaitQueue ω} {n : ℤ} (hn : (q.waiters.length : ℤ) ≤ n) :
    (q.notify n).waiters = [] :=
  WakeLoop.wakeLoop_all _ hn

@[simp] theorem notifyAll_waiters (q : WaitQueue ω) : q.notifyAll.waiters = [] :=
  notify_waiters_of_length_le (Int.le_refl _)

/-! ### The wake of each class -/

/-- `ThreadWaitQueue._wake_waiter` and `ThreadConditionQueue._wake_waiter`: `release()` on
the lock, which raises a swallowed `RuntimeError` if it is not `locked`. -/
def wakeLock (w : ω) (locked : ω → Bool) : Bool × (ω → Bool) :=
  if locked w then (true, Function.update locked w false) else (false, locked)

/-- `AsyncWaitQueue._wake_waiter` and `AsyncConditionQueue._wake_waiter`: nothing on a
future that is `done()`, else `set_result(True)`. -/
def wakeFuture (w : ω) (future : ω → Future) : Bool × (ω → Future) :=
  if (future w).done then (false, future)
  else (true, Function.update future w .finished)

/-- The lock of a thread, as a waiter. -/
def Waiter.ofLock : Bool → Waiter
  | true => .pending
  | false => .woken

/-- The future of a task, as a waiter. -/
def Waiter.ofFuture : Future → Waiter
  | .pending => .pending
  | .finished => .woken
  | .cancelled => .cancelled

theorem wakeWaiter_ofLock (w : ω) (locked : ω → Bool) :
    wakeWaiter w (Waiter.ofLock ∘ locked) =
      ((wakeLock w locked).1, Waiter.ofLock ∘ (wakeLock w locked).2) := by
  cases h : locked w with
  | true =>
      simp [wakeWaiter, WakeLoop.wake, wakeLock, h, Waiter.ofLock, Waiter.live,
        Function.comp_update]
  | false => simp [wakeWaiter, WakeLoop.wake, wakeLock, h, Waiter.ofLock, Waiter.live]

theorem wakeWaiter_ofFuture (w : ω) (future : ω → Future) :
    wakeWaiter w (Waiter.ofFuture ∘ future) =
      ((wakeFuture w future).1, Waiter.ofFuture ∘ (wakeFuture w future).2) := by
  cases h : future w <;>
    simp [wakeWaiter, WakeLoop.wake, wakeFuture, h, Waiter.ofFuture, Waiter.live, Future.done,
      Function.comp_update]

/-- **The loop of a thread queue is `notify`** on the waiters its locks stand for. -/
theorem notify_ofLock (ws : List ω) (n : ℤ) (locked : ω → Bool) :
    notify ⟨ws, Waiter.ofLock ∘ locked⟩ n =
      ⟨(WakeLoop.wakeLoop wakeLock ws n locked).1,
        Waiter.ofLock ∘ (WakeLoop.wakeLoop wakeLock ws n locked).2⟩ := by
  have h := (WakeLoop.wakeLoop_map wakeWaiter_ofLock ws n locked).1
  simp only [notify, h]

/-- **The loop of an asyncio queue is `notify`** on the waiters its futures stand for. -/
theorem notify_ofFuture (ws : List ω) (n : ℤ) (future : ω → Future) :
    notify ⟨ws, Waiter.ofFuture ∘ future⟩ n =
      ⟨(WakeLoop.wakeLoop wakeFuture ws n future).1,
        Waiter.ofFuture ∘ (WakeLoop.wakeLoop wakeFuture ws n future).2⟩ := by
  have h := (WakeLoop.wakeLoop_map wakeWaiter_ofFuture ws n future).1
  simp only [notify, h]

end WaitQueue

end Rwlocker

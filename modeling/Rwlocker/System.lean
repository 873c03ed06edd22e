/-
# Threads and tasks sharing one lock

`RWLockProxy`, `RWLockWriterProxy` and their async twins, as a transition
system over any number of threads or tasks.

A thread runs the body of `acquire`, `release` or `downgrade` under the internal
lock `self._lock`, which it gives up only inside `self.condition.wait()`; a task
runs until its next `await`, and `await self.condition.wait()` is the only one.
One step is therefore one such critical section:

* `acquire`: a call, up to its return or to the first park;
* `resume`: a parked call that was signalled, timed out or cancelled takes the
  internal lock again (or is scheduled) and goes on to its return or to the
  next park;
* `interrupt`: the `timeout` of a parked thread passes, or a parked task is
  cancelled;
* `clear`: `RWLockWriterProxy.acquire` clears the downgrade marker, in the
  thread version after `super().acquire` has left the critical section;
* `release` and `downgrade`.

`holds` records the acquisitions each caller has been granted and not given
back.  No method reads it: it is what the theorems compare the lock with.
-/

import Mathlib.Tactic.SplitIfs
import Rwlocker.Basis.ReadersWriter
import Rwlocker.Basis.Transition
import Rwlocker.LockClass

namespace Rwlocker

open ReadersWriter (Holds)

namespace LockClass

variable {τ : Type} [DecidableEq τ]

/-- `_can_acquire` of a proxy. -/
def canAcquire (cls : LockClass) : Mode → RWLock τ → Option τ → Bool → Option ℕ → Bool
  | .read => cls.canRead
  | .write => cls.canWrite

/-- `_acquire_core` of a proxy. -/
def acquireCore (cls : LockClass) : Mode → RWLock τ → Option τ → Bool → Option ℕ → RWLock τ
  | .read => cls.acquireReadCore
  | .write => cls.acquireWriteCore

/-- `_on_abort` of a proxy. -/
def onAbort (cls : LockClass) : Mode → RWLock τ → Option ℕ → RWLock τ
  | .read => cls.onReaderAbort
  | .write => cls.onWriterAbort

/-- `_before_acquire` of a proxy. -/
def beforeAcquire (cls : LockClass) : Mode → RWLock τ → Option τ → Except RuntimeError Unit
  | .read => fun _ _ => .ok ()
  | .write => cls.checkWriteAcquireAllowed

/-- A call that raised leaves the state it was called in. -/
def orUnchanged (s : RWLock τ) :
    Except RuntimeError (RWLock τ) → Except RuntimeError Unit × RWLock τ
  | .ok s' => (.ok (), s')
  | .error e => (.error e, s)

/-- `RWLockProxy.release` and `RWLockWriterProxy.release`. -/
def release (cls : LockClass) (s : RWLock τ) (me : Option τ) :
    Mode → Except RuntimeError Unit × RWLock τ
  | .read => orUnchanged s (cls.releaseReadCore s me)
  | .write =>
      if s.downgraded = me then
        let s := { s with downgraded := none }
        match cls.releaseReadCore s me with
        | .ok s' => (.ok (), s')
        | .error _ => orUnchanged s (cls.releaseWriteCore s me)
      else orUnchanged s (cls.releaseWriteCore s me)

/-- `RWLockWriterProxy.downgrade`. -/
def downgrade (cls : LockClass) (s : RWLock τ) (me : Option τ) :
    Except RuntimeError Unit × RWLock τ :=
  match cls.downgradeCore s me with
  | .ok s' => (.ok (), { s' with downgraded := me })
  | .error e => (.error e, s)

end LockClass

namespace RWLock

variable {τ : Type}

/-- `self._waiter_seq += 1; self.those_waiting += 1`. -/
def startWaiting (s : RWLock τ) (m : Mode) : RWLock τ :=
  s.onProxy m fun p =>
    { p with waiterSeq := p.waiterSeq + 1, thoseWaiting := p.thoseWaiting + 1 }

/-- `self.those_waiting -= 1`. -/
def stopWaiting (s : RWLock τ) (m : Mode) : RWLock τ :=
  s.onProxy m fun p => { p with thoseWaiting := p.thoseWaiting - 1 }

end RWLock

/-- Where a thread or task is. -/
inductive Pc
  /-- Not in a call of the lock. -/
  | idle
  /-- In `acquire`, registered as waiter `seq`.  `timed`: a `timeout` was given.
  `interrupted`: it has passed, or the task was cancelled, since the park. -/
  | waiting (m : Mode) (seq : ℕ) (timed : Bool) (interrupted : Bool)
  /-- In `RWLockWriterProxy.acquire`, before it clears the downgrade marker. -/
  | clearing
  deriving DecidableEq, Repr

/-- How long a call of `acquire` is willing to wait. -/
inductive Patience
  /-- `blocking=False`. -/
  | nonblocking
  /-- No timeout. -/
  | forever
  /-- `timeout ≥ 0`. -/
  | timed
  deriving DecidableEq, Repr

/-- The steps of a run.  `expired` says whether the deadline of a timed call has
passed when its wait loop asks for the remaining time. -/
inductive Action (τ : Type)
  | acquire (t : τ) (m : Mode) (p : Patience) (expired : Bool)
  | resume (t : τ) (expired : Bool)
  | interrupt (t : τ)
  | clear (t : τ)
  | release (k : Option τ) (m : Mode)
  | downgrade (k : Option τ)
  deriving DecidableEq, Repr

/-- Whose step it is. -/
def Action.caller {τ : Type} : Action τ → Option τ
  | .acquire t _ _ _ | .resume t _ | .interrupt t | .clear t => some t
  | .release k _ | .downgrade k => k

/-- What a step shows its caller. -/
inductive Outcome
  | acquired (m : Mode)
  | refused
  | parked
  | cancelled
  | interrupted
  | cleared
  | released
  | downgraded
  | raised (e : RuntimeError)
  deriving DecidableEq, Repr

/-- A lock and its users. -/
structure System (τ : Type) where
  lock : RWLock τ := {}
  pc : τ → Pc := fun _ => .idle
  holds : Holds (Option τ) := .free

namespace System

variable {τ : Type} [DecidableEq τ]

/-- `t` goes on at `p`, with the lock in state `s`. -/
def put (c : System τ) (s : RWLock τ) (t : τ) (p : Pc) : System τ :=
  { c with lock := s, pc := Function.update c.pc t p }

@[simp] theorem put_lock (c : System τ) (s : RWLock τ) (t : τ) (p : Pc) :
    (c.put s t p).lock = s := rfl

@[simp] theorem put_pc (c : System τ) (s : RWLock τ) (t : τ) (p : Pc) :
    (c.put s t p).pc = Function.update c.pc t p := rfl

/-- The acquisition granted to `k`. -/
def grant (h : Holds (Option τ)) (k : Option τ) : Mode → Holds (Option τ)
  | .read => h.addRead k
  | .write => h.addWrite k

/-- The acquisition `k` gives back: a write hold goes back through `.write`
while there is one, and after a downgrade so does a read hold. -/
def giveBack (h : Holds (Option τ)) (k : Option τ) : Mode → Holds (Option τ)
  | .read => h.dropRead k
  | .write => if 0 < h.writes k then h.dropWrite k else h.dropRead k

/-- The write hold `k` turns into a read hold, if it has one. -/
def convert (h : Holds (Option τ)) (k : Option τ) : Holds (Option τ) :=
  if 0 < h.writes k then h.downgrade k else h

/-- `acquire` returns `True` after leaving the lock in state `s`.  The async
writer proxy clears the marker in the same step. -/
def succeed (rt : Runtime) (c : System τ) (t : τ) (s : RWLock τ) : Mode → Outcome × System τ
  | .read => (.acquired .read, { c.put s t .idle with holds := grant c.holds (some t) .read })
  | .write =>
      (.acquired .write,
        { (match rt with
            | .thread => c.put s t .clearing
            | .async => c.put { s with downgraded := none } t .idle) with
          holds := grant c.holds (some t) .write })

/-- The `finally` block of an `acquire` that did not succeed. -/
def abort (cls : LockClass) (c : System τ) (t : τ) (m : Mode) (seq : ℕ) : System τ :=
  c.put (cls.onAbort m (c.lock.stopWaiting m) (some seq)) t .idle

/-- The registration of an `acquire` that is not admitted at once. -/
def register (c : System τ) (t : τ) (m : Mode) (timed : Bool) : System τ :=
  c.put (c.lock.startWaiting m) t
    (.waiting m ((c.lock.proxy m).waiterSeq + 1) timed false)

/-- The wait loop of `acquire`, from a test of `_can_acquire` on. -/
def acquireLoop (rt : Runtime) (cls : LockClass) (c : System τ) (t : τ) (m : Mode) (seq : ℕ)
    (timed expired : Bool) : Outcome × System τ :=
  if cls.canAcquire m c.lock (some t) true (some seq) then
    c.succeed rt t ((cls.acquireCore m c.lock (some t) true (some seq)).stopWaiting m) m
  else if timed && expired then (.refused, c.abort cls t m seq)
  else
    (.parked,
      c.put (c.lock.onQueue m fun q => q.appendWaiter t) t (.waiting m seq timed false))

/-- `RWLockProxy.acquire`, up to its return or its first park. -/
def acquire (rt : Runtime) (cls : LockClass) (c : System τ) (t : τ) (m : Mode) (p : Patience)
    (expired : Bool) : Outcome × System τ :=
  match cls.beforeAcquire m c.lock (some t) with
  | .error e => (.raised e, c)
  | .ok () =>
      if cls.canAcquire m c.lock (some t) false none then
        c.succeed rt t (cls.acquireCore m c.lock (some t) false none) m
      else if p = .nonblocking then (.refused, c)
      else
        (c.register t m (p = .timed)).acquireLoop rt cls t m
          ((c.lock.proxy m).waiterSeq + 1) (p = .timed) expired

/-- The end of `condition.wait()`: an interrupted call discards its waiter. -/
def endWait (c : System τ) (t : τ) (m : Mode) (interrupted : Bool) : System τ :=
  { c with
    lock := c.lock.onQueue m fun q =>
      (if interrupted then q.discardWaiter t else q).dropWaiter t }

/-- A parked `acquire` goes on.  A cancelled task raises `CancelledError`; a
thread tests `_can_acquire` once more, even when its `timeout` has passed. -/
def resume (rt : Runtime) (cls : LockClass) (c : System τ) (t : τ) (m : Mode) (seq : ℕ)
    (timed interrupted expired : Bool) : Outcome × System τ :=
  let c := c.endWait t m interrupted
  if rt = .async ∧ interrupted = true then (.cancelled, c.abort cls t m seq)
  else c.acquireLoop rt cls t m seq timed expired

/-- `release` through the proxy `m`. -/
def release (cls : LockClass) (c : System τ) (k : Option τ) (m : Mode) : Outcome × System τ :=
  match cls.release c.lock k m with
  | (.ok (), s) => (.released, { c with lock := s, holds := giveBack c.holds k m })
  | (.error e, s) => (.raised e, { c with lock := s })

/-- `write.downgrade()`. -/
def downgrade (cls : LockClass) (c : System τ) (k : Option τ) : Outcome × System τ :=
  match cls.downgrade c.lock k with
  | (.ok (), s) => (.downgraded, { c with lock := s, holds := convert c.holds k })
  | (.error e, s) => (.raised e, { c with lock := s })

/-- `k` is free to make a call: a thread or task between calls, or a callback of
the event loop. -/
def canCall (rt : Runtime) (c : System τ) : Option τ → Bool
  | some t => c.pc t = .idle
  | none => rt = .async

/-- One step, `none` when it is not enabled. -/
def step (rt : Runtime) (cls : LockClass) (c : System τ) : Action τ → Option (Outcome × System τ)
  | .acquire t m p expired =>
      if c.pc t = .idle ∧ (rt = .async → p ≠ .timed) then some (c.acquire rt cls t m p expired)
      else none
  | .resume t expired =>
      match c.pc t with
      | .waiting m seq timed interrupted =>
          if (c.lock.proxy m).condition.state t = .pending ∧ interrupted = false then none
          else some (c.resume rt cls t m seq timed interrupted expired)
      | _ => none
  | .interrupt t =>
      match c.pc t, rt with
      | .waiting m seq true false, .thread =>
          if (c.lock.proxy m).condition.state t = .pending then
            some (.interrupted, c.put c.lock t (.waiting m seq true true))
          else none
      | .waiting m seq timed false, .async =>
          some (.interrupted,
            c.put (c.lock.onQueue m fun q => q.cancelWaiter t) t (.waiting m seq timed true))
      | _, _ => none
  | .clear t =>
      if c.pc t = .clearing then some (.cleared, c.put { c.lock with downgraded := none } t .idle)
      else none
  | .release k m => if c.canCall rt k then some (c.release cls k m) else none
  | .downgrade k => if c.canCall rt k then some (c.downgrade cls k) else none

/-- The step relation. -/
def Step (rt : Runtime) (cls : LockClass) (c : System τ) (a : Action τ) (c' : System τ) : Prop :=
  ∃ o, c.step rt cls a = some (o, c')

/-- A step leaves no choice. -/
theorem Step.unique {rt : Runtime} {cls : LockClass} {c c₁ c₂ : System τ} {a : Action τ}
    (h₁ : Step rt cls c a c₁) (h₂ : Step rt cls c a c₂) : c₁ = c₂ := by
  obtain ⟨o₁, h₁⟩ := h₁
  obtain ⟨o₂, h₂⟩ := h₂
  rw [h₁] at h₂
  cases h₂
  rfl

/-- A fresh lock, nobody in a call. -/
def Init (c : System τ) : Prop := c = {}

/-- The step is made by a thread or a task, not by a callback of the event loop. -/
def InTask (_ : System τ) (a : Action τ) : Prop := a.caller ≠ none

/-- `k` holds the lock for reading or for writing. -/
def Holding (h : Holds (Option τ)) (k : Option τ) : Prop := 0 < h.writes k ∨ 0 < h.reads k

/-- A release is made by a caller that holds what it releases.  After a
downgrade that is a read hold, also for a release through `.write`. -/
def ByHolder (c : System τ) : Action τ → Prop
  | .release k .read => 0 < c.holds.reads k
  | .release k .write => Holding c.holds k
  | _ => True

instance (c : System τ) (a : Action τ) : Decidable (InTask c a) :=
  inferInstanceAs (Decidable (a.caller ≠ none))

instance (h : Holds (Option τ)) (k : Option τ) : Decidable (Holding h k) :=
  inferInstanceAs (Decidable (_ ∨ _))

instance (c : System τ) : (a : Action τ) → Decidable (ByHolder c a)
  | .release k .read => inferInstanceAs (Decidable (0 < c.holds.reads k))
  | .release k .write => inferInstanceAs (Decidable (Holding c.holds k))
  | .acquire _ _ _ _ | .resume _ _ | .interrupt _ | .clear _ | .downgrade _ => isTrue trivial

/-- The state after a step that keeps the promise `P`. -/
def next (P : System τ → Action τ → Prop) [∀ c a, Decidable (P c a)] (rt : Runtime)
    (cls : LockClass) (c : System τ) (a : Action τ) : Option (System τ) :=
  if P c a then (c.step rt cls a).map Prod.snd else none

theorem next_step {P : System τ → Action τ → Prop} [∀ c a, Decidable (P c a)] {rt : Runtime}
    {cls : LockClass} {c c' : System τ} {a : Action τ} (h : next P rt cls c a = some c') :
    Transition.restrict P (Step rt cls) c a c' := by
  unfold next at h
  split_ifs at h with hP
  obtain ⟨⟨o, s⟩, ho, rfl⟩ := Option.map_eq_some_iff.1 h
  exact ⟨hP, o, ho⟩

/-- A list of actions that replays is a run. -/
theorem run_of_replay {P : System τ → Action τ → Prop} [∀ c a, Decidable (P c a)]
    {rt : Runtime} {cls : LockClass} {as : List (Action τ)} {c c' : System τ}
    (h : Transition.replay (next P rt cls) c as = some c') :
    Transition.Run (Transition.restrict P (Step rt cls)) c as c' :=
  Transition.Run.of_replay (fun _ _ _ => next_step) h

/-- The states that threads or tasks can reach, whatever they call. -/
def Reachable (rt : Runtime) (cls : LockClass) : System τ → Prop :=
  Transition.Reachable (Transition.restrict InTask (Step rt cls)) Init

/-- The states that threads or tasks can reach when each releases only what it
holds. -/
def HolderReachable (rt : Runtime) (cls : LockClass) : System τ → Prop :=
  Transition.Reachable
    (Transition.restrict (fun c a => InTask c a ∧ ByHolder c a) (Step rt cls)) Init

theorem HolderReachable.reachable {rt : Runtime} {cls : LockClass} {c : System τ}
    (h : HolderReachable rt cls c) : Reachable rt cls c :=
  Transition.Reachable.mono (fun _ _ _ hst => ⟨hst.1.1, hst.2⟩) h

theorem HolderReachable.step {rt : Runtime} {cls : LockClass} {c c' : System τ} {a : Action τ}
    {o : Outcome} (h : HolderReachable rt cls c) (hst : c.step rt cls a = some (o, c'))
    (ha : a.caller ≠ none) (hby : ByHolder c a) : HolderReachable rt cls c' :=
  h.tail ⟨⟨ha, hby⟩, o, hst⟩

end System

end Rwlocker

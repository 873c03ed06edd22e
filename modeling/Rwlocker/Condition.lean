/-
# A condition and its users

`_RWConditionMixin`, and `wait`, `wait_for`, `notify` and `notify_all` of
`RWConditionProxy` and its async twin, over any number of threads or tasks that
share one condition.

A call of `wait()` is cut where a thread is outside every critical section:

* `wait`: the two checks and `_add_waiter`;
* `leave`: `self.release()`;
* `wake`: `waiter.acquire()` returns, or `await waiter` is over;
* `reacquire`: `self.acquire()` up to its return or its first park.  From there
  it goes on by steps of the lock;
* `finish`: the rest of the `finally` block.

A task does `wait` and `leave` in one step: there is no `await` in between.  At
the other cuts the model lets tasks run where the event loop would not, which
only adds runs.

A waiter object is named by the number of the `wait()` call that made it.
`cancelled`, `ended` and `unannounced` record the history: no method reads them.
-/

import Rwlocker.Books
import Rwlocker.System

namespace Rwlocker

namespace LockClass

variable {τ : Type} [DecidableEq τ]

/-- `_is_owned_read` and `_is_owned_write`. -/
def isOwned (cls : LockClass) (s : RWLock τ) (me : Option τ) : Mode → Bool
  | .read => s.isCurrentReader me
  | .write => cls.isCurrentWriter s me

/-- `_get_owned_lock_depth`. -/
def ownedLockDepth (cls : LockClass) (s : RWLock τ) (me : Option τ) : ℤ :=
  s.readerOwners.count me +
    if cls.isCurrentWriter s me then if cls.reentrant then s.writeCount else 1 else 0

/-- The two checks of `wait`. -/
def checkWait (cls : LockClass) (s : RWLock τ) (me : Option τ) (m : Mode) :
    Except RuntimeError Unit :=
  if cls.isOwned s me m = false then .error .waitUnacquired
  else if cls.ownedLockDepth s me ≠ 1 then .error .waitNested
  else .ok ()

variable {cls : LockClass} {s : RWLock τ} {m : Mode}

theorem isCurrentWriter_iff (cls : LockClass) (s : RWLock τ) (me : Option τ) :
    cls.isCurrentWriter s me = true ↔ cls.owner s = me := by
  unfold isCurrentWriter owner
  split_ifs <;> simp

theorem checkWait_eq_ok {me : Option τ} :
    cls.checkWait s me m = .ok () ↔ cls.isOwned s me m = true ∧ cls.ownedLockDepth s me = 1 := by
  unfold checkWait
  split_ifs with ho hd
  · simp [ho]
  · simp [hd]
  · exact ⟨fun _ => ⟨by simpa using ho, by simpa using hd⟩, fun _ => rfl⟩

/-- The owned depth is what the owner acquired for reading and for writing. -/
theorem ownedLockDepth_eq (hb : Books cls s) (t : τ) :
    cls.ownedLockDepth s (some t) =
      s.readerOwners.count (some t) + if cls.owner s = some t then cls.depth s else 0 := by
  unfold ownedLockDepth
  congr 1
  by_cases ho : cls.owner s = some t
  · have hd := hb.depth_pos (by simp [ho])
    rw [if_pos ((cls.isCurrentWriter_iff s _).2 ho), if_pos ho]
    cases hc : cls.reentrant with
    | true => simp [depth, hc]
    | false =>
        have := Books.depth_le_one hc s
        simp only [Bool.false_eq_true, if_false]
        omega
  · rw [if_neg (mt (cls.isCurrentWriter_iff s _).1 ho), if_neg ho]

end LockClass

/-- A call of `wait()` that has a waiter object.  `inLoop`: `wait_for` made it. -/
structure WaitCall where
  call : ℕ
  mode : Mode
  timed : Bool
  inLoop : Bool
  deriving DecidableEq, Repr

/-- Where a thread or task is in `wait()` and `wait_for()`. -/
inductive Phase
  | out
  /-- In `wait_for`, whose predicate was just found false. -/
  | tested (m : Mode) (timed : Bool)
  /-- In `wait_for`, whose `wait()` has returned. -/
  | again (m : Mode) (timed : Bool)
  /-- Before `self.release()`. -/
  | queued (w : WaitCall)
  /-- In `waiter.acquire()` or `await waiter`.  `interrupted`: the `timeout` has
  passed, or the task was cancelled. -/
  | sleeping (w : WaitCall) (interrupted : Bool)
  /-- Before `self.acquire()`.  `err`: an earlier one was cancelled. -/
  | woken (w : WaitCall) (gotit err : Bool)
  /-- In `self.acquire()`, or after it. -/
  | reacquiring (w : WaitCall) (gotit err : Bool)
  deriving DecidableEq, Repr

/-- The call of `wait()` in progress. -/
def Phase.wait? : Phase → Option WaitCall
  | .queued w | .sleeping w _ | .woken w _ _ | .reacquiring w _ _ => some w
  | .out | .tested _ _ | .again _ _ => none

/-- How a call of `wait()` ended. -/
inductive Ending
  | returned (gotit : Bool)
  | cancelledError
  | raised (e : RuntimeError)
  deriving DecidableEq, Repr

/-- What the caller of `wait()` does next. -/
def WaitCall.next (w : WaitCall) : Ending → Phase
  | .returned _ => if w.inLoop then .again w.mode w.timed else .out
  | .cancelledError | .raised _ => .out

/-- The steps of a run. -/
inductive CondAction (τ σ : Type)
  | lock (a : Action τ)
  | change (t : τ) (s : σ)
  | notify (k : Option τ) (m : Mode) (n : ℤ)
  | notifyAll (k : Option τ) (m : Mode)
  | test (t : τ) (m : Mode) (timed expired : Bool)
  | wait (t : τ) (m : Mode) (timed : Bool)
  | leave (t : τ)
  | interrupt (t : τ)
  | wake (t : τ)
  | reacquire (t : τ)
  | finish (t : τ)
  deriving DecidableEq, Repr

/-- What a step shows its caller. -/
inductive CondOutcome
  | lock (o : Outcome)
  | changed
  | notified
  | tested (result : Bool)
  | queued
  | interrupted
  | woken
  | finished (e : Ending)
  | raised (e : RuntimeError)
  deriving DecidableEq, Repr

/-- A condition, its lock, and its users.  `shared` is the state that the
predicates read; `unannounced t` says that `t` changed it since its last
`notify_all()`. -/
structure CondSystem (τ σ : Type) where
  sys : System τ := {}
  queue : WaitQueue ℕ := {}
  phase : τ → Phase := fun _ => .out
  shared : σ
  calls : ℕ := 0
  cancelled : ℕ → Bool := fun _ => false
  ended : ℕ → Option Ending := fun _ => none
  unannounced : τ → Bool := fun _ => false

namespace CondSystem

variable {τ σ : Type} [DecidableEq τ]

/-- `t` goes on at `p`. -/
def goto (c : CondSystem τ σ) (t : τ) (p : Phase) : CondSystem τ σ :=
  { c with phase := Function.update c.phase t p }

@[simp] theorem goto_phase_self (c : CondSystem τ σ) (t : τ) (p : Phase) :
    (c.goto t p).phase t = p := Function.update_self ..

theorem goto_phase_of_ne (c : CondSystem τ σ) {t u : τ} (hu : u ≠ t) (p : Phase) :
    (c.goto t p).phase u = c.phase u := Function.update_of_ne hu ..

/-- `_remove_waiter`. -/
def removeWaiter (c : CondSystem τ σ) (w : WaitCall) : CondSystem τ σ :=
  { c with queue := c.queue.discardWaiter w.call }

/-- The call `w` of `wait()` by `t` ends. -/
def endWait (c : CondSystem τ σ) (t : τ) (w : WaitCall) (e : Ending) : CondSystem τ σ :=
  { c.goto t (w.next e) with ended := Function.update c.ended w.call (some e) }

/-- The call `w` of `t` is cancelled. -/
def cancelCall (c : CondSystem τ σ) (w : WaitCall) : CondSystem τ σ :=
  { c with cancelled := Function.update c.cancelled w.call true }

/-- A step of the lock, and what its caller makes of it. -/
def onLock (rt : Runtime) (cls : LockClass) (c : CondSystem τ σ) (a : Action τ)
    (f : Outcome → CondSystem τ σ → CondOutcome × CondSystem τ σ) :
    Option (CondOutcome × CondSystem τ σ) :=
  (c.sys.step rt cls a).map fun r => f r.1 { c with sys := r.2 }

/-- `self.release()` in `wait()`; when it raises, the waiter is removed. -/
def leave (rt : Runtime) (cls : LockClass) (c : CondSystem τ σ) (t : τ) (w : WaitCall) :
    Option (CondOutcome × CondSystem τ σ) :=
  c.onLock rt cls (.release (some t) w.mode) fun
    | .raised e, c => (.raised e, (c.removeWaiter w).endWait t w (.raised e))
    | o, c => (.lock o, c.goto t (.sleeping w false))

/-- `_add_waiter`, for the call `w` that is about to leave the lock. -/
def enqueue (c : CondSystem τ σ) (t : τ) (w : WaitCall) : CondSystem τ σ :=
  { c.goto t (.queued w) with calls := c.calls + 1, queue := c.queue.appendWaiter w.call }

/-- `wait()`, up to its `self.release()`, which a task makes at once. -/
def wait (rt : Runtime) (cls : LockClass) (c : CondSystem τ σ) (t : τ) (m : Mode)
    (timed inLoop : Bool) : Option (CondOutcome × CondSystem τ σ) :=
  match cls.checkWait c.sys.lock (some t) m with
  | .error e => some (.raised e, c.goto t .out)
  | .ok () =>
      let w : WaitCall := { call := c.calls, mode := m, timed := timed, inLoop := inLoop }
      match rt with
      | .thread => some (.queued, c.enqueue t w)
      | .async => (c.enqueue t w).leave .async cls t w

/-- `waiter.acquire()` returns, or `await waiter` is over; a cancelled task removes
its waiter at once. -/
def wake (rt : Runtime) (c : CondSystem τ σ) (t : τ) (w : WaitCall) (interrupted : Bool) :
    CondOutcome × CondSystem τ σ :=
  (.woken, (if rt = .async ∧ interrupted = true then c.removeWaiter w else c).goto t
    (.woken w (!interrupted) false))

/-- `self.acquire()` in the `finally` block. -/
def reacquire (rt : Runtime) (cls : LockClass) (c : CondSystem τ σ) (t : τ) (w : WaitCall)
    (gotit err : Bool) : Option (CondOutcome × CondSystem τ σ) :=
  c.onLock rt cls (.acquire t w.mode .forever false) fun
    | .raised e, c => (.raised e, c.endWait t w (.raised e))
    | o, c => (.lock o, c.goto t (.reacquiring w gotit err))

/-- A step of that `self.acquire()`.  A cancelled one is made again. -/
def goOn (rt : Runtime) (cls : LockClass) (c : CondSystem τ σ) (t : τ) (w : WaitCall)
    (gotit : Bool) : Action τ → Option (CondOutcome × CondSystem τ σ)
  | .resume _ expired =>
      c.onLock rt cls (.resume t expired) fun
        | .cancelled, c => (.lock .cancelled, c.goto t (.woken w gotit true))
        | o, c => (.lock o, c)
  | .interrupt _ => c.onLock rt cls (.interrupt t) fun o c => (.lock o, c.cancelCall w)
  | .clear _ => c.onLock rt cls (.clear t) fun o c => (.lock o, c)
  | .acquire _ _ _ _ | .release _ _ | .downgrade _ => none

/-- What `wait()` returns or raises in the end. -/
def ending : Runtime → Bool → Bool → Ending
  | .thread, gotit, _ => .returned gotit
  | .async, gotit, err => if gotit && !err then .returned true else .cancelledError

/-- The end of the `finally` block: a thread that was not woken removes its waiter. -/
def finish (rt : Runtime) (c : CondSystem τ σ) (t : τ) (w : WaitCall) (gotit err : Bool) :
    CondOutcome × CondSystem τ σ :=
  (.finished (ending rt gotit err),
    (if rt = .thread ∧ gotit = false then c.removeWaiter w else c).endWait t w
      (ending rt gotit err))

/-- `notify(n)`. -/
def notify (cls : LockClass) (c : CondSystem τ σ) (k : Option τ) (m : Mode) (n : ℤ) :
    CondOutcome × CondSystem τ σ :=
  if cls.isOwned c.sys.lock k m then (.notified, { c with queue := c.queue.notify n })
  else (.raised .notifyUnacquired, c)

/-- `notify_all()`. -/
def notifyAll (cls : LockClass) (c : CondSystem τ σ) (k : Option τ) (m : Mode) :
    CondOutcome × CondSystem τ σ :=
  if cls.isOwned c.sys.lock k m then
    (.notified, { c with
      queue := c.queue.notifyAll
      unannounced := fun t => c.unannounced t && k != some t })
  else (.raised .notifyUnacquired, c)

/-- `wait_for` tests its predicate; `expired` says that the `timeout` has passed when
it looks, which it does before every `wait()` but the first. -/
def test (pred : σ → Bool) (c : CondSystem τ σ) (t : τ) (m : Mode) (timed expired : Bool) :
    CondOutcome × CondSystem τ σ :=
  if pred c.shared then (.tested true, c.goto t .out)
  else if timed && expired then (.tested false, c.goto t .out)
  else (.tested false, c.goto t (.tested m timed))

/-- `t` is outside every call. -/
def free (c : CondSystem τ σ) (t : τ) : Prop := c.phase t = .out ∧ c.sys.pc t = .idle

instance (c : CondSystem τ σ) (t : τ) : Decidable (c.free t) :=
  inferInstanceAs (Decidable (_ ∧ _))

/-- `k` is free to make a call. -/
def canCall (rt : Runtime) (c : CondSystem τ σ) : Option τ → Bool
  | some t => c.free t
  | none => rt = .async

/-- One step, `none` when it is not enabled. -/
def step (rt : Runtime) (cls : LockClass) (pred : σ → Bool) (c : CondSystem τ σ) :
    CondAction τ σ → Option (CondOutcome × CondSystem τ σ)
  | .lock a =>
      match a.caller.map c.phase with
      | none | some .out => c.onLock rt cls a fun o c => (.lock o, c)
      | some (.reacquiring w gotit _) =>
          a.caller.bind fun t => c.goOn rt cls t w gotit a
      | _ => none
  | .change t s =>
      if c.free t then
        some (.changed,
          { c with shared := s, unannounced := Function.update c.unannounced t true })
      else none
  | .notify k m n => if c.canCall rt k then some (c.notify cls k m n) else none
  | .notifyAll k m => if c.canCall rt k then some (c.notifyAll cls k m) else none
  | .test t m timed expired =>
      if c.phase t = .again m timed then some (c.test pred t m timed expired)
      else if c.free t ∧ (rt = .async → timed = false) then some (c.test pred t m timed false)
      else none
  | .wait t m timed =>
      if c.phase t = .tested m timed then c.wait rt cls t m timed true
      else if c.free t ∧ (rt = .async → timed = false) then c.wait rt cls t m timed false
      else none
  | .leave t =>
      match c.phase t, rt with
      | .queued w, .thread => c.leave .thread cls t w
      | _, _ => none
  | .interrupt t =>
      match c.phase t, rt with
      | .sleeping w false, .thread =>
          if w.timed ∧ c.queue.state w.call = .pending then
            some (.interrupted, c.goto t (.sleeping w true))
          else none
      | .sleeping w false, .async =>
          some (.interrupted,
            { (c.cancelCall w).goto t (.sleeping w true) with
              queue := c.queue.cancelWaiter w.call })
      | _, _ => none
  | .wake t =>
      match c.phase t with
      | .sleeping w interrupted =>
          if c.queue.state w.call = .pending ∧ interrupted = false then none
          else some (c.wake rt t w interrupted)
      | _ => none
  | .reacquire t =>
      match c.phase t with
      | .woken w gotit err => c.reacquire rt cls t w gotit err
      | _ => none
  | .finish t =>
      match c.phase t with
      | .reacquiring w gotit err =>
          if c.sys.pc t = .idle then some (c.finish rt t w gotit err) else none
      | _ => none

/-- The step relation. -/
def Step (rt : Runtime) (cls : LockClass) (pred : σ → Bool) (c : CondSystem τ σ)
    (a : CondAction τ σ) (c' : CondSystem τ σ) : Prop :=
  ∃ o, c.step rt cls pred a = some (o, c')

/-- A fresh condition over a fresh lock, nobody in a call. -/
def Init (c : CondSystem τ σ) : Prop := c = { shared := c.shared }

/-- The locks are used by threads and tasks, not by callbacks of the event loop. -/
def InTask (_ : CondSystem τ σ) : CondAction τ σ → Prop
  | .lock a => a.caller ≠ none
  | _ => True

instance (c : CondSystem τ σ) : (a : CondAction τ σ) → Decidable (InTask c a)
  | .lock a => inferInstanceAs (Decidable (a.caller ≠ none))
  | .change _ _ | .notify _ _ _ | .notifyAll _ _ | .test _ _ _ _ | .wait _ _ _ | .leave _
  | .interrupt _ | .wake _ | .reacquire _ | .finish _ => isTrue trivial

/-- The states that threads or tasks can reach, whatever they call. -/
def Reachable (rt : Runtime) (cls : LockClass) (pred : σ → Bool) : CondSystem τ σ → Prop :=
  Transition.Reachable (Transition.restrict InTask (Step rt cls pred)) Init

/-- The state after a step that keeps the promise `P`. -/
def next (P : CondSystem τ σ → CondAction τ σ → Prop) [∀ c a, Decidable (P c a)] (rt : Runtime)
    (cls : LockClass) (pred : σ → Bool) (c : CondSystem τ σ) (a : CondAction τ σ) :
    Option (CondSystem τ σ) :=
  if P c a then (c.step rt cls pred a).map Prod.snd else none

/-- A list of actions that replays is a run. -/
theorem run_of_replay {P : CondSystem τ σ → CondAction τ σ → Prop} [∀ c a, Decidable (P c a)]
    {rt : Runtime} {cls : LockClass} {pred : σ → Bool} {as : List (CondAction τ σ)}
    {c c' : CondSystem τ σ} (h : Transition.replay (next P rt cls pred) c as = some c') :
    Transition.Run (Transition.restrict P (Step rt cls pred)) c as c' := by
  refine Transition.Run.of_replay ?_ h
  intro s a s' hs
  unfold next at hs
  split_ifs at hs with hP
  obtain ⟨⟨o, s''⟩, ho, rfl⟩ := Option.map_eq_some_iff.1 hs
  exact ⟨hP, o, ho⟩

end CondSystem

end Rwlocker

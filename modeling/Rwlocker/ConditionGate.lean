/-
# The ownership gate of a condition

`notify`, `notify_all` and `wait` of an async condition ask `_is_owned_read` or
`_is_owned_write` first.  The callers are tasks and callbacks of the event loop, where
`asyncio.current_task()` is `None`.

The write side compares the recorded owner with the current context by `is`, and the
owner of an unowned lock is `None` too.  So a callback passes the gate of `.write`
whenever nobody owns the lock: `notify` and `notify_all` wake waiters there
(`condition_gate`, `condition_gate_callback`).  `wait` asks more and raises all the same.
-/

import Rwlocker.Calls

namespace Rwlocker

variable {τ σ : Type} [DecidableEq τ]

/-- The context `k` has a read hold on record, or the write lock. -/
def Owns (cls : LockClass) (s : RWLock τ) (k : Option τ) : Mode → Prop
  | .read => 0 < s.readerOwners.count k
  | .write => ∃ t, k = some t ∧ cls.owner s = some t

namespace CondSystem

/-- `wait()` called in the context `k`, up to its first suspension.  A callback that drives
the coroutine itself releases the lock as nobody. -/
def waitIn (cls : LockClass) (c : CondSystem τ σ) :
    Option τ → Mode → Option (CondOutcome × CondSystem τ σ)
  | some t, m => c.wait .async cls t m false false
  | none, m =>
      match cls.checkWait c.sys.lock none m with
      | .error e => some (.raised e, c)
      | .ok () =>
          match c.sys.release cls none m with
          | (.raised e, sys) =>
              some (.raised e, { c with
                sys := sys
                calls := c.calls + 1
                queue := (c.queue.appendWaiter c.calls).discardWaiter c.calls })
          | (o, sys) =>
              some (.lock o, { c with
                sys := sys
                calls := c.calls + 1
                queue := c.queue.appendWaiter c.calls })

/-- The condition queue and the lock are as they were. -/
structure Unmoved (c c' : CondSystem τ σ) : Prop where
  lock : c'.sys.lock = c.sys.lock
  waiters : c'.queue.waiters = c.queue.waiters
  state : ∀ w ∈ c.queue.waiters, c'.queue.state w = c.queue.state w

/-- The call came out as `r`: it raised, and moved nothing. -/
def Denied (c : CondSystem τ σ) (r : Option (CondOutcome × CondSystem τ σ)) : Prop :=
  ∃ e c', r = some (.raised e, c') ∧ Unmoved c c'

/-- `notify`, `notify_all` and `wait` are denied to the context `k`. -/
def GateHolds (cls : LockClass) (pred : σ → Bool) (c : CondSystem τ σ) (k : Option τ)
    (m : Mode) : Prop :=
  (∀ n, Denied c (c.step .async cls pred (.notify k m n))) ∧
    Denied c (c.step .async cls pred (.notifyAll k m)) ∧ Denied c (c.waitIn cls k m)

variable {cls : LockClass} {pred : σ → Bool} {c : CondSystem τ σ} {k : Option τ} {m : Mode}

/-! ### Who passes the gate -/

omit [DecidableEq τ] in
theorem unmoved_refl (c : CondSystem τ σ) : Unmoved c c := ⟨rfl, rfl, fun _ _ => rfl⟩

/-- The gate lets in whoever owns the lock and, on the write side of an unowned lock, a
callback. -/
theorem isOwned_iff (cls : LockClass) (s : RWLock τ) (k : Option τ) (m : Mode) :
    cls.isOwned s k m = true ↔
      Owns cls s k m ∨ m = .write ∧ k = none ∧ cls.owner s = none := by
  cases m with
  | read => simp [LockClass.isOwned, RWLock.isCurrentReader, Owns]
  | write =>
      rw [LockClass.isOwned, LockClass.isCurrentWriter_iff]
      cases k with
      | none => simp [Owns]
      | some t => simp [Owns]

/-- Whoever the gate keeps out is denied all three calls. -/
theorem gateHolds_of_kept_out (hcall : c.canCall .async k = true)
    (hk : cls.isOwned c.sys.lock k m = false) : GateHolds cls pred c k m := by
  have hwait : cls.checkWait c.sys.lock k m = .error .waitUnacquired := if_pos hk
  refine ⟨fun n => ⟨.notifyUnacquired, c, ?_, unmoved_refl c⟩,
    ⟨.notifyUnacquired, c, ?_, unmoved_refl c⟩, .waitUnacquired, ?_⟩
  · simp [step, hcall, notify, hk]
  · simp [step, hcall, notifyAll, hk]
  · cases k with
    | none => exact ⟨c, by simp only [waitIn, hwait], unmoved_refl c⟩
    | some t =>
        exact ⟨c.goto t .out, by simp only [waitIn, wait, hwait], rfl, rfl, fun _ _ => rfl⟩

/-- Whoever the gate lets in notifies. -/
theorem not_gateHolds_of_let_in (hcall : c.canCall .async k = true)
    (hk : cls.isOwned c.sys.lock k m = true) : ¬ GateHolds cls pred c k m := by
  rintro ⟨-, ⟨e, c', hst, -⟩, -⟩
  simp only [step, hcall, notifyAll, hk, if_true] at hst
  cases hst

/-! ### A callback that waits -/

/-- A write release by nobody raises and changes nothing while nobody owns a plain lock. -/
theorem release_none_plain (hc : cls.reentrant = false) {s : RWLock τ} (hb : Books cls s)
    (ho : cls.owner s = none) : ∃ e, cls.release s none .write = (.error e, s) := by
  have hinactive := hb.writerActive_of_owner ho
  have hcore : ∀ s : RWLock τ, s.writerActive = false →
      cls.releaseWriteCore s none = .error .unacquiredWrite := by
    intro s hs
    rw [LockClass.releaseWriteCore_of_plain hc]
    exact if_pos hs
  by_cases hm : s.downgraded = none
  · have hun : { s with downgraded := none } = s := by rw [← hm]
    refine ⟨.unacquiredWrite, ?_⟩
    simp only [LockClass.release, hm, if_true, hun, LockClass.releaseReadCore_spec, hb.noneReads,
      hcore s hinactive, LockClass.orUnchanged]
  · exact ⟨.unacquiredWrite, by
      simp only [LockClass.release, hm, if_false, hcore s hinactive, LockClass.orUnchanged]⟩

/-- A waiter that was just appended is discarded without a trace. -/
theorem discard_append {q : WaitQueue ℕ} {i : ℕ} (hi : i ∉ q.waiters) :
    ((q.appendWaiter i).discardWaiter i).waiters = q.waiters ∧
      ∀ w ∈ q.waiters, ((q.appendWaiter i).discardWaiter i).state w = q.state w := by
  refine ⟨?_, fun w hw => ?_⟩
  · simp [WaitQueue.discardWaiter, WaitQueue.appendWaiter, List.erase_append_right, hi]
  · have hwi : w ≠ i := fun h => hi (h ▸ hw)
    simp [WaitQueue.discardWaiter, WaitQueue.appendWaiter, hwi]

/-- **`wait` is denied to every callback.** -/
theorem wait_denied_callback (h : Reachable .async cls pred c) (m : Mode) :
    Denied c (c.waitIn cls none m) := by
  obtain ⟨hr, hcalls, -⟩ := h.of_move (I := fun _ => True) (fun _ => trivial)
    fun _ _ _ _ _ _ => trivial
  have hb := hr.wellFormed.books
  cases hcheck : cls.checkWait c.sys.lock none m with
  | error e => exact ⟨e, c, by simp only [waitIn, hcheck], unmoved_refl c⟩
  | ok v =>
      -- the checks are passed on the write side of a plain lock that nobody owns
      obtain ⟨hown, hdepth⟩ := LockClass.checkWait_eq_ok.1 hcheck
      have hside := (isOwned_iff cls c.sys.lock none m).1 hown
      obtain ⟨rfl, -, ho⟩ : m = .write ∧ (none : Option τ) = none ∧
          cls.owner c.sys.lock = none := by
        refine hside.resolve_left fun howns => ?_
        cases m with
        | read => simp [Owns, hb.noneReads] at howns
        | write => simp [Owns] at howns
      have hc : cls.reentrant = false := by
        cases hc : cls.reentrant with
        | false => rfl
        | true =>
            have hz : c.sys.lock.writeCount = 0 := (hb.reentrant hc).2.2.2.2 (by
              simpa [LockClass.owner, hc] using ho)
            have hcur := (cls.isCurrentWriter_iff c.sys.lock none).2 ho
            simp [LockClass.ownedLockDepth, hb.noneReads, hcur, hc, hz] at hdepth
      obtain ⟨e, hrel⟩ := release_none_plain hc hb ho
      have hsys : c.sys.release cls none .write = (.raised e, c.sys) := by
        simp only [System.release, hrel]
      obtain ⟨hwaiters, hstate⟩ := discard_append (hcalls.unborn c.calls le_rfl).1
      exact ⟨e, { c with
        calls := c.calls + 1
        queue := (c.queue.appendWaiter c.calls).discardWaiter c.calls },
        by simp only [waitIn, hcheck, hsys], rfl, hwaiters, hstate⟩

/-- **Where the gate holds**, in any state.  A context that does not own the lock in the
mode of the proxy is denied `notify`, `notify_all` and `wait`, unless it is a callback
at the write proxy of a lock that nobody owns.  `wait` is denied there too in every
state that tasks can reach. -/
theorem condition_gate (hcall : c.canCall .async k = true) (hno : ¬ Owns cls c.sys.lock k m) :
    (GateHolds cls pred c k m ↔ ¬ (m = .write ∧ k = none ∧ cls.owner c.sys.lock = none)) ∧
      (Reachable .async cls pred c → Denied c (c.waitIn cls k m)) := by
  have hiff := isOwned_iff cls c.sys.lock k m
  constructor
  · constructor
    · intro hgate hopen
      exact not_gateHolds_of_let_in hcall (hiff.2 (.inr hopen)) hgate
    · intro hclosed
      refine gateHolds_of_kept_out hcall (Bool.eq_false_iff.2 fun hin => ?_)
      exact (hiff.1 hin).elim hno hclosed
  · intro h
    cases k with
    | none => exact wait_denied_callback h m
    | some t =>
        have hout : cls.isOwned c.sys.lock (some t) m = false :=
          Bool.eq_false_iff.2 fun hin => (hiff.1 hin).elim hno (by simp)
        have hgate : GateHolds cls pred c (some t) m := gateHolds_of_kept_out hcall hout
        exact hgate.2.2

/-- Task `1` waits on the condition, task `0` reads: a callback is denied the read proxy. -/
theorem condition_gate_read : ∃ c : CondSystem ℕ Bool,
    Reachable .async .write id c ∧ c.queue.waiters = [0] ∧
      (GateHolds .write id c none .read ↔ ¬ (Mode.read = .write ∧ (none : Option ℕ) = none ∧
        LockClass.write.owner c.sys.lock = none)) ∧
      (Reachable .async .write id c → Denied c (c.waitIn .write none .read)) := by
  have hrun : ((Transition.replay (next InTask .async .write id)
      ({ shared := false } : CondSystem ℕ Bool)
      [.lock (.acquire 1 .write .forever false), .wait 1 .write false,
        .lock (.acquire 0 .read .forever false)]).map fun c =>
        (c.queue.waiters, c.sys.lock.readerOwners.count none)) = some ([0], 0) := by
    decide
  obtain ⟨c, hc, hval⟩ := Option.map_eq_some_iff.1 hrun
  simp only [Prod.mk.injEq] at hval
  obtain ⟨hq, hz⟩ := hval
  have hreach : Reachable .async .write id c :=
    ⟨{ shared := false }, _, rfl, run_of_replay hc⟩
  exact ⟨c, hreach, hq, condition_gate rfl (by simp [Owns, hz])⟩

/-- Task `1` waits on the condition and has left the lock: a callback that owns nothing
wakes it through the write proxy. -/
theorem condition_gate_callback : ∃ c c' : CondSystem ℕ Bool,
    Reachable .async .write id c ∧ ¬ Owns .write c.sys.lock none .write ∧
      c.canCall .async none = true ∧
      c.step .async .write id (.notify none .write 1) = some (.notified, c') ∧
      c.queue.state 0 = .pending ∧ c'.queue.state 0 = .woken ∧
      ¬ GateHolds .write id c none .write := by
  have hrun : ((Transition.replay (next InTask .async .write id)
      ({ shared := false } : CondSystem ℕ Bool)
      [.lock (.acquire 1 .write .forever false), .wait 1 .write false]).bind fun c =>
      (c.step .async .write id (.notify none .write 1)).map fun r =>
        (r.1, c.queue.state 0, r.2.queue.state 0)) = some (.notified, .pending, .woken) := by
    decide
  obtain ⟨c, hc, hrun⟩ := Option.bind_eq_some_iff.1 hrun
  obtain ⟨⟨o, c'⟩, hst, hval⟩ := Option.map_eq_some_iff.1 hrun
  simp only [Prod.mk.injEq] at hval
  obtain ⟨rfl, hpend, hwoken⟩ := hval
  refine ⟨c, c', ⟨{ shared := false }, _, rfl, run_of_replay hc⟩, by simp [Owns], rfl, hst, hpend,
    hwoken, ?_⟩
  rintro ⟨hnotify, -⟩
  obtain ⟨e, c'', hst', -⟩ := hnotify 1
  rw [hst] at hst'
  cases hst'

end CondSystem

end Rwlocker

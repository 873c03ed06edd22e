/-
# What each call comes to

`Move` says what a step leaves behind and forgets whose call it was and how it came
out.  `Deed` keeps both: it lists, action by action, every outcome a step of a thread
or task can show, with the facts that decide it and the state after it
(`System.step_deed`).  The wait loop of `acquire`, which two actions run, has its own
list (`Looped`).

Between steps a call in flight is parked: it has a waiter object
(`System.Reachable.parked`).  Within a step it may have none.
-/

import Rwlocker.Effects
import Rwlocker.NoLostWakeup

namespace Rwlocker

open ReadersWriter (Holds)

variable {τ : Type} [DecidableEq τ]

/-- A caller that is not named by the marker leaves it; the one that is clears it. -/
def RWLock.unmark (s : RWLock τ) (k : Option τ) : RWLock τ :=
  if s.downgraded = k then { s with downgraded := none } else s

/-- Nothing but the marker changes. -/
theorem RWLock.unmark_frame (s : RWLock τ) (k : Option τ) :
    ∃ k', s.unmark k = { s with downgraded := k' } := by
  unfold unmark
  split_ifs
  · exact ⟨none, rfl⟩
  · exact ⟨s.downgraded, rfl⟩

/-- How the wait loop of `acquire` comes out, for a caller that is registered as waiter
`seq` and has no waiter object. -/
inductive Looped (rt : Runtime) (cls : LockClass) (c : System τ) (t : τ) (m : Mode) (seq : ℕ)
    (timed : Bool) : Outcome → System τ → Prop
  | enters (hadm : cls.Admits m c.lock seq) :
      Looped rt cls c t m seq timed (.acquired m)
        (c.succeed rt t
          ((cls.acquireCore m c.lock (some t) true (some seq)).stopWaiting m) m).2
  | givesUp (htimed : timed = true) (hno : ¬ cls.Admits m c.lock seq) :
      Looped rt cls c t m seq timed .refused (c.abort cls t m seq)
  | parks (hno : ¬ cls.Admits m c.lock seq) :
      Looped rt cls c t m seq timed .parked
        (c.put (c.lock.onQueue m fun q => q.appendWaiter t) t (.waiting m seq timed false))

/-- What a step of `t` comes to (module doc). -/
inductive Deed (rt : Runtime) (cls : LockClass) (c : System τ) (t : τ) :
    Action τ → Outcome → System τ → Prop
  /-- `_before_acquire` raises. -/
  | rejected {p : Patience} {expired : Bool} {e : RuntimeError} (hpc : c.pc t = .idle)
      (hno : cls.beforeAcquire .write c.lock (some t) = .error e) :
      Deed rt cls c t (.acquire t .write p expired) (.raised e) c
  /-- `acquire` enters on the fast path. -/
  | enters {m : Mode} {p : Patience} {expired : Bool} (hpc : c.pc t = .idle)
      (hcan : cls.canAcquire m c.lock (some t) false none = true) :
      Deed rt cls c t (.acquire t m p expired) (.acquired m)
        (c.succeed rt t (cls.acquireCore m c.lock (some t) false none) m).2
  /-- `acquire(blocking=False)` is refused. -/
  | refused {m : Mode} {expired : Bool} (hpc : c.pc t = .idle)
      (hno : cls.canAcquire m c.lock (some t) false none = false) :
      Deed rt cls c t (.acquire t m .nonblocking expired) .refused c
  /-- `acquire` registers and runs its wait loop. -/
  | waits {m : Mode} {p : Patience} {expired : Bool} {o : Outcome} {c' : System τ}
      (hpc : c.pc t = .idle) (hp : p ≠ .nonblocking)
      (hno : cls.canAcquire m c.lock (some t) false none = false)
      (hst : c.lock.readerOwners.count (some t) = 0 ∧
        ¬ (cls.reentrant = true ∧ cls.owner c.lock = some t))
      (hloop : Looped rt cls (c.register t m (p = .timed)) t m ((c.lock.proxy m).waiterSeq + 1)
        (p = .timed) o c') :
      Deed rt cls c t (.acquire t m p expired) o c'
  /-- A parked call goes on with its wait loop. -/
  | goesOn {m : Mode} {seq : ℕ} {timed i expired : Bool} {o : Outcome} {c' : System τ}
      (hpc : c.pc t = .waiting m seq timed i)
      (hon : c.lock.waiter m t = .pending → i = true) (hrt : rt = .async → i = false)
      (hloop : Looped rt cls (c.endWait t m i) t m seq timed o c') :
      Deed rt cls c t (.resume t expired) o c'
  /-- A cancelled call raises `CancelledError`. -/
  | cancelled {m : Mode} {seq : ℕ} {timed expired : Bool} (hrt : rt = .async)
      (hpc : c.pc t = .waiting m seq timed true) :
      Deed rt cls c t (.resume t expired) .cancelled ((c.endWait t m true).abort cls t m seq)
  /-- The timeout of a parked thread passes. -/
  | timesOut {m : Mode} {seq : ℕ} (hrt : rt = .thread)
      (hpc : c.pc t = .waiting m seq true false) (hpend : c.lock.waiter m t = .pending) :
      Deed rt cls c t (.interrupt t) .interrupted (c.put c.lock t (.waiting m seq true true))
  /-- A parked task is cancelled. -/
  | isCancelled {m : Mode} {seq : ℕ} {timed : Bool} (hrt : rt = .async)
      (hpc : c.pc t = .waiting m seq timed false) :
      Deed rt cls c t (.interrupt t) .interrupted
        (c.put (c.lock.onQueue m fun q => q.cancelWaiter t) t (.waiting m seq timed true))
  | clears (hpc : c.pc t = .clearing) :
      Deed rt cls c t (.clear t) .cleared (c.put { c.lock with downgraded := none } t .idle)
  /-- A read release. -/
  | leaves (hpc : c.pc t = .idle) (hcount : 0 < c.lock.readerOwners.count (some t)) :
      Deed rt cls c t (.release (some t) .read) .released { c with
        lock := cls.onReaderLeave (c.lock.dropReader (some t))
        holds := System.giveBack c.holds (some t) .read }
  | leaveRaises (hpc : c.pc t = .idle) (hcount : c.lock.readerOwners.count (some t) = 0) :
      Deed rt cls c t (.release (some t) .read) (.raised .readNotHeld) c
  /-- A write release routed to the read side. -/
  | routed (hpc : c.pc t = .idle) (hm : c.lock.downgraded = some t)
      (hcount : 0 < c.lock.readerOwners.count (some t)) :
      Deed rt cls c t (.release (some t) .write) .released { c with
        lock := cls.onReaderLeave ((c.lock.unmark (some t)).dropReader (some t))
        holds := System.giveBack c.holds (some t) .write }
  /-- A write release that is not the owner's last. -/
  | countsDown (hpc : c.pc t = .idle) (hc : cls.reentrant = true)
      (ho : cls.owner c.lock = some t) (hd : 1 < cls.depth c.lock) :
      Deed rt cls c t (.release (some t) .write) .released { c with
        lock := { c.lock.unmark (some t) with writeCount := c.lock.writeCount - 1 }
        holds := System.giveBack c.holds (some t) .write }
  /-- The last write release; a plain class takes it from anybody. -/
  | frees (hpc : c.pc t = .idle) (ho : cls.owner c.lock ≠ none)
      (hr : cls.reentrant = true → cls.owner c.lock = some t) (hd : cls.depth c.lock = 1) :
      Deed rt cls c t (.release (some t) .write) .released { c with
        lock := cls.onWriterAbort (c.lock.unmark (some t)).freeWriter none
        holds := System.giveBack c.holds (some t) .write }
  | freeRaises (hpc : c.pc t = .idle)
      (ho : cls.owner c.lock = none ∨ cls.reentrant = true ∧ cls.owner c.lock ≠ some t)
      (hcount : c.lock.downgraded = some t → c.lock.readerOwners.count (some t) = 0) :
      Deed rt cls c t (.release (some t) .write) (.raised cls.releaseError)
        { c with lock := c.lock.unmark (some t) }
  | downgrades (hpc : c.pc t = .idle) (ho : cls.owner c.lock = some t)
      (hd : cls.depth c.lock = 1) :
      Deed rt cls c t (.downgrade (some t)) .downgraded { c with
        lock := { cls.onDowngrade (c.lock.freeWriter.enterReader (some t)) with
          downgraded := some t }
        holds := System.convert c.holds (some t) }
  | downgradeRaises (hpc : c.pc t = .idle)
      (ho : ¬ (cls.owner c.lock = some t ∧ cls.depth c.lock = 1)) :
      Deed rt cls c t (.downgrade (some t)) (.raised (cls.downgradeError c.lock (some t))) c

namespace System

variable {rt : Runtime} {cls : LockClass} {c c' : System τ} {t u : τ} {m : Mode} {seq : ℕ}
  {timed i : Bool} {a : Action τ} {o : Outcome}

/-! ### Every step is a deed -/

omit [DecidableEq τ] in
/-- A granted call returns `True`. -/
theorem succeed_fst (rt : Runtime) (c : System τ) [DecidableEq τ] (t : τ) (s : RWLock τ)
    (m : Mode) : (c.succeed rt t s m).1 = .acquired m := by
  cases m <;> rfl

/-- The wait loop comes out as `Looped` says. -/
theorem acquireLoop_looped (rt : Runtime) (h : WellFormed cls c.lock c.pc)
    (hpc : InFlight c.pc m t) (seq : ℕ) (timed expired : Bool) :
    Looped rt cls c t m seq timed (c.acquireLoop rt cls t m seq timed expired).1
      (c.acquireLoop rt cls t m seq timed expired).2 := by
  have hiff := canAcquire_iff h hpc seq
  unfold acquireLoop
  split_ifs with hcan hexp
  · rw [succeed_fst]
    exact .enters (hiff.1 hcan)
  · exact .givesUp (Bool.and_eq_true_iff.1 hexp).1 (mt hiff.2 hcan)
  · exact .parks (mt hiff.2 hcan)

/-- Every call of `acquire` is a deed. -/
theorem acquire_deed (rt : Runtime) (h : WellFormed cls c.lock c.pc) (hpc : c.pc t = .idle)
    (p : Patience) (expired : Bool) :
    Deed rt cls c t (.acquire t m p expired) (c.acquire rt cls t m p expired).1
      (c.acquire rt cls t m p expired).2 := by
  unfold acquire
  cases hb : cls.beforeAcquire m c.lock (some t) with
  | error e =>
      cases m with
      | read => cases hb
      | write => exact .rejected hpc hb
  | ok v =>
      dsimp only
      by_cases hcan : cls.canAcquire m c.lock (some t) false none = true
      · rw [if_pos hcan, succeed_fst]
        exact .enters hpc hcan
      · rw [if_neg hcan]
        by_cases hp : p = .nonblocking
        · rw [if_pos hp, hp]
          exact .refused hpc (by simpa using hcan)
        · rw [if_neg hp]
          have hst := stranger_of_refused h.books hb hcan
          have hreg : Move (fun _ _ => True) rt cls c (c.register t m (p = .timed)) :=
            .register m _ hpc hst
          exact .waits hpc hp (by simpa using hcan) hst
            (acquireLoop_looped rt (hreg.wellFormed h) ⟨_, _, _, Function.update_self ..⟩ _ _ _)

/-- Every parked call that goes on is a deed. -/
theorem resume_deed (rt : Runtime) (h : WellFormed cls c.lock c.pc)
    (hpc : c.pc t = .waiting m seq timed i) (hon : c.lock.waiter m t = .pending → i = true)
    (expired : Bool) :
    Deed rt cls c t (.resume t expired) (c.resume rt cls t m seq timed i expired).1
      (c.resume rt cls t m seq timed i expired).2 := by
  unfold resume
  dsimp only
  split_ifs with hi
  · obtain ⟨hrt, rfl⟩ := hi
    exact .cancelled hrt hpc
  · have hend : Move (fun _ _ => True) rt cls c (c.endWait t m i) := .endWait hpc hon
    exact .goesOn hpc hon (fun hrt => by simpa [hrt] using hi)
      (acquireLoop_looped rt (hend.wellFormed h) ⟨_, _, _, hpc⟩ _ _ _)

/-- Clearing the marker changes nothing else. -/
theorem unmark_spec (hb : Books cls c.lock) (k : Option τ) :
    Books cls (c.lock.unmark k) ∧ cls.owner (c.lock.unmark k) = cls.owner c.lock ∧
      cls.depth (c.lock.unmark k) = cls.depth c.lock ∧
      (c.lock.unmark k).writeCount = c.lock.writeCount := by
  obtain ⟨k', hunmark⟩ := c.lock.unmark_frame k
  rw [hunmark]
  exact ⟨hb.marker k', rfl, rfl, rfl⟩

/-- Every release is a deed. -/
theorem release_deed (rt : Runtime) (hb : Books cls c.lock) (hpc : c.pc t = .idle) (m : Mode) :
    Deed rt cls c t (.release (some t) m) (c.release cls (some t) m).1
      (c.release cls (some t) m).2 := by
  cases m with
  | read =>
      simp only [release, LockClass.release, LockClass.releaseReadCore_spec]
      by_cases hk : c.lock.readerOwners.count (some t) = 0
      · simp only [if_pos hk, LockClass.orUnchanged]
        exact .leaveRaises hpc hk
      · simp only [if_neg hk, LockClass.orUnchanged]
        exact .leaves hpc (by omega)
  | write =>
      -- a release that is not routed goes to the write core of the unmarked lock
      have hwrite : (c.lock.downgraded = some t → c.lock.readerOwners.count (some t) = 0) →
          cls.release c.lock (some t) .write =
            LockClass.orUnchanged (c.lock.unmark (some t))
              (cls.releaseWriteCore (c.lock.unmark (some t)) (some t)) := by
        intro hz
        unfold RWLock.unmark
        by_cases hm : c.lock.downgraded = some t
        · simp [LockClass.release, hm, LockClass.releaseReadCore_spec, hz hm]
        · simp [LockClass.release, hm]
      by_cases hr : c.lock.downgraded = some t ∧ 0 < c.lock.readerOwners.count (some t)
      · have hne : c.lock.readerOwners.count (some t) ≠ 0 := by omega
        have hout : cls.release c.lock (some t) .write =
            (.ok (), cls.onReaderLeave ((c.lock.unmark (some t)).dropReader (some t))) := by
          simp [LockClass.release, hr.1, LockClass.releaseReadCore_spec, hne, RWLock.unmark]
        simp only [release, hout]
        exact .routed hpc hr.1 hr.2
      · have hz : c.lock.downgraded = some t → c.lock.readerOwners.count (some t) = 0 :=
          fun hm => by
            by_contra hne
            exact hr ⟨hm, by omega⟩
        obtain ⟨hb', ho', hd', hcount'⟩ := unmark_spec hb (some t)
        have hspec := LockClass.releaseWriteCore_spec hb' (show some t ≠ none by simp)
        rw [ho', hd', hcount'] at hspec
        simp only [release, hwrite hz, hspec]
        by_cases he : cls.owner c.lock = none ∨
            cls.reentrant = true ∧ cls.owner c.lock ≠ some t
        · rw [if_pos he]
          exact .freeRaises hpc he hz
        · rw [if_neg he]
          push Not at he
          by_cases hd : 1 < cls.depth c.lock
          · have hc : cls.reentrant = true := by
              by_contra hc
              have := Books.depth_le_one (by simpa using hc) c.lock
              omega
            rw [if_pos hd]
            exact .countsDown hpc hc (he.2 hc) hd
          · have := hb.depth_pos he.1
            rw [if_neg hd]
            exact .frees hpc he.1 he.2 (by omega)

/-- Every downgrade is a deed. -/
theorem downgrade_deed (rt : Runtime) (hb : Books cls c.lock) (hpc : c.pc t = .idle) :
    Deed rt cls c t (.downgrade (some t)) (c.downgrade cls (some t)).1
      (c.downgrade cls (some t)).2 := by
  simp only [downgrade, LockClass.downgrade,
    LockClass.downgradeCore_spec hb (show some t ≠ none by simp)]
  by_cases ho : cls.owner c.lock = some t ∧ cls.depth c.lock = 1
  · rw [if_pos ho]
    exact .downgrades hpc ho.1 ho.2
  · rw [if_neg ho]
    exact .downgradeRaises hpc ho

/-- **Every step of a thread or task is a deed.** -/
theorem step_deed (h : WellFormed cls c.lock c.pc) (hst : c.step rt cls a = some (o, c'))
    (ha : a.caller = some t) : Deed rt cls c t a o c' := by
  cases a with
  | acquire u m p expired =>
      obtain rfl : u = t := Option.some.inj ha
      simp only [step] at hst
      split_ifs at hst with hg
      have hd := acquire_deed rt (m := m) h hg.1 p expired
      rwa [Option.some.inj hst] at hd
  | resume u expired =>
      obtain rfl : u = t := Option.some.inj ha
      simp only [step] at hst
      split at hst
      · rename_i m seq timed i hpc
        split_ifs at hst with hp
        have hd := resume_deed rt h hpc (fun hw => by simpa [hw] using hp) expired
        rwa [Option.some.inj hst] at hd
      · cases hst
  | interrupt u =>
      obtain rfl : u = t := Option.some.inj ha
      simp only [step] at hst
      split at hst
      · rename_i m seq hpc
        split_ifs at hst with hp
        cases hst
        exact .timesOut rfl hpc hp
      · rename_i m seq timed hpc
        cases hst
        exact .isCancelled rfl hpc
      · cases hst
  | clear u =>
      obtain rfl : u = t := Option.some.inj ha
      simp only [step] at hst
      split_ifs at hst with hpc
      cases hst
      exact .clears hpc
  | release k m =>
      obtain rfl : k = some t := ha
      simp only [step] at hst
      split_ifs at hst with hcall
      have hd := release_deed rt h.books (show c.pc t = .idle by simpa [canCall] using hcall) m
      rwa [Option.some.inj hst] at hd
  | downgrade k =>
      obtain rfl : k = some t := ha
      simp only [step] at hst
      split_ifs at hst with hcall
      have hd := downgrade_deed rt h.books
        (show c.pc t = .idle by simpa [canCall] using hcall)
      rwa [Option.some.inj hst] at hd

/-! ### Parked calls -/

/-- Every call in flight has a waiter object. -/
def Parked (c : System τ) : Prop :=
  ∀ m t, InFlight c.pc m t → c.lock.waiter m t ≠ .gone

/-- A grant touches no waiter object. -/
theorem succeed_waiter (rt : Runtime) (c : System τ) (t : τ) (s : RWLock τ) (m m' : Mode)
    (u : τ) : (c.succeed rt t s m).2.lock.waiter m' u = s.waiter m' u := by
  cases m with
  | read => rfl
  | write => cases rt <;> rfl

/-- A grant is one hold more for its caller. -/
theorem succeed_holds (rt : Runtime) (c : System τ) (t : τ) (s : RWLock τ) (m : Mode) :
    (c.succeed rt t s m).2.holds = grant c.holds (some t) m := by
  cases m with
  | read => rfl
  | write => cases rt <;> rfl

/-- Whoever was granted the lock is out of `acquire`. -/
theorem not_inFlight_succeed (rt : Runtime) (c : System τ) (t : τ) (s : RWLock τ) (m m' : Mode) :
    ¬ InFlight (c.succeed rt t s m).2.pc m' t := by
  cases m with
  | read => exact not_inFlight_update (by simp) m'
  | write => cases rt <;> exact not_inFlight_update (by simp) m'

end System

/-- Nobody but `t` loses a waiter object between `s` and `s'`. -/
def KeepsWaiters (t : τ) (s s' : RWLock τ) : Prop :=
  ∀ m u, u ≠ t → s'.waiter m u = .gone → s.waiter m u = .gone

namespace KeepsWaiters

variable {cls : LockClass} {t : τ} {s s' s'' : RWLock τ}

omit [DecidableEq τ] in
/-- The proxies stay as they are. -/
theorem of_eq (h : s'.proxy = s.proxy) : KeepsWaiters t s s' := fun m u _ hg => by
  rwa [RWLock.waiter, h] at hg

omit [DecidableEq τ] in
/-- Waiter objects kept twice. -/
theorem trans (h : KeepsWaiters t s s') (h' : KeepsWaiters t s' s'') : KeepsWaiters t s s'' :=
  fun m u hu hg => h m u hu (h' m u hu hg)

omit [DecidableEq τ] in
/-- A signal destroys no waiter object. -/
theorem signals (hs : RWLock.Signals s s') : KeepsWaiters t s s' := fun m u _ hg => by
  rcases hs.waiter m u with h | ⟨-, -, h⟩
  · rwa [h] at hg
  · rw [h] at hg
    cases hg

omit [DecidableEq τ] in
/-- A change of a queue that keeps the waiter objects of the others. -/
theorem onQueue (s : RWLock τ) (m : Mode) {f : WaitQueue τ → WaitQueue τ}
    (hf : ∀ (q : WaitQueue τ) u, u ≠ t → (f q).state u = .gone → q.state u = .gone) :
    KeepsWaiters t s (s.onQueue m f) := fun m' u hu hg => by
  rw [RWLock.waiter_onQueue] at hg
  split_ifs at hg with hm
  · exact hm ▸ hf _ u hu hg
  · exact hg

omit [DecidableEq τ] in
/-- A registration destroys no waiter object. -/
theorem startWaiting (s : RWLock τ) (m : Mode) : KeepsWaiters t s (s.startWaiting m) :=
  fun m' u _ hg => by simpa using hg

omit [DecidableEq τ] in
/-- Nor does the end of a call. -/
theorem stopWaiting (s : RWLock τ) (m : Mode) : KeepsWaiters t s (s.stopWaiting m) :=
  fun m' u _ hg => by simpa using hg

/-- Nor does an acquisition. -/
theorem acquireCore (s : RWLock τ) (m : Mode) (k : Option τ) (waiting : Bool)
    (waiterSeq : Option ℕ) : KeepsWaiters t s (cls.acquireCore m s k waiting waiterSeq) := by
  cases m with
  | read =>
      rw [LockClass.acquireCore, LockClass.acquireReadCore_eq]
      have henter : KeepsWaiters t s (s.enterReader k) := .of_eq rfl
      exact henter.trans (.signals (cls.signals_onReaderEnter waiting waiterSeq _))
  | write =>
      obtain ⟨_, _, _, _, hf⟩ := s.ownWriter_frame cls k
      rw [LockClass.acquireCore, LockClass.acquireWriteCore_eq, hf]
      exact .of_eq rfl

end KeepsWaiters

section Parking

variable {rt : Runtime} {cls : LockClass} {c c' : System τ} {t : τ} {m : Mode} {seq : ℕ}
  {timed i : Bool} {a : Action τ} {o : Outcome}

/-- The wait loop destroys no waiter object but its caller's. -/
theorem Looped.keepsWaiters (h : Looped rt cls c t m seq timed o c') :
    KeepsWaiters t c.lock c'.lock := by
  cases h with
  | enters =>
      intro m' u hu hg
      rw [System.succeed_waiter] at hg
      exact ((KeepsWaiters.acquireCore c.lock m _ _ _).trans (.stopWaiting _ m)) m' u hu hg
  | givesUp =>
      exact (KeepsWaiters.stopWaiting c.lock m).trans (.signals (cls.signals_onAbort m _ _))
  | parks =>
      refine KeepsWaiters.onQueue c.lock m (f := fun q => q.appendWaiter t) fun q u hu hg => ?_
      simpa [WaitQueue.appendWaiter, hu] using hg

/-- The end of a wait destroys the waiter object of its caller alone. -/
theorem System.endWait_keepsWaiters (c : System τ) (t : τ) (m : Mode) (i : Bool) :
    KeepsWaiters t c.lock (c.endWait t m i).lock := by
  refine KeepsWaiters.onQueue c.lock m
    (f := fun q => (if i then q.discardWaiter t else q).dropWaiter t) fun q u hu hg => ?_
  cases i <;> simpa [WaitQueue.dropWaiter, WaitQueue.discardWaiter, hu] using hg

/-- A step destroys no waiter object but its caller's. -/
theorem Deed.keepsWaiters (h : Deed rt cls c t a o c') : KeepsWaiters t c.lock c'.lock := by
  have hunmark : KeepsWaiters t c.lock (c.lock.unmark (some t)) := by
    obtain ⟨k', hk⟩ := c.lock.unmark_frame (some t)
    rw [hk]
    exact .of_eq rfl
  cases h with
  | rejected | refused | timesOut | leaveRaises | downgradeRaises | clears => exact .of_eq rfl
  | @enters m p expired hpc hcan =>
      intro m' u hu hg
      rw [System.succeed_waiter] at hg
      exact KeepsWaiters.acquireCore c.lock m _ _ _ m' u hu hg
  | waits _ _ _ _ hloop => exact (KeepsWaiters.startWaiting c.lock _).trans hloop.keepsWaiters
  | goesOn _ _ _ hloop => exact (c.endWait_keepsWaiters t _ _).trans hloop.keepsWaiters
  | @cancelled m seq =>
      exact (c.endWait_keepsWaiters t m true).trans ((KeepsWaiters.stopWaiting _ m).trans
        (.signals (cls.signals_onAbort m _ _)))
  | @isCancelled m =>
      refine KeepsWaiters.onQueue c.lock m (f := fun q => q.cancelWaiter t) fun q u hu hg => ?_
      rwa [WaitQueue.cancelWaiter_state, if_neg (by simp [hu])] at hg
  | leaves =>
      have hdrop : KeepsWaiters t c.lock (c.lock.dropReader (some t)) := .of_eq rfl
      exact hdrop.trans (.signals (cls.signals_onReaderLeave _))
  | routed =>
      have hdrop : KeepsWaiters t (c.lock.unmark (some t))
          ((c.lock.unmark (some t)).dropReader (some t)) := .of_eq rfl
      exact (hunmark.trans hdrop).trans (.signals (cls.signals_onReaderLeave _))
  | countsDown => exact hunmark.trans (.of_eq rfl)
  | frees =>
      have hfree : KeepsWaiters t (c.lock.unmark (some t))
          (c.lock.unmark (some t)).freeWriter := .of_eq rfl
      exact (hunmark.trans hfree).trans (.signals (cls.signals_onWriterAbort _ none))
  | freeRaises => exact hunmark
  | downgrades =>
      have henter : KeepsWaiters t c.lock (c.lock.freeWriter.enterReader (some t)) := .of_eq rfl
      have hsig : KeepsWaiters t (c.lock.freeWriter.enterReader (some t)) (cls.onDowngrade
        (c.lock.freeWriter.enterReader (some t))) := .signals (cls.signals_onDowngrade _)
      exact (henter.trans hsig).trans (.of_eq rfl)

/-- A loop that leaves its caller waiting leaves it with a waiter object. -/
theorem Looped.parked (h : Looped rt cls c t m seq timed o c') {m' : Mode}
    (ht : InFlight c'.pc m' t) : c'.lock.waiter m' t ≠ .gone := by
  cases h with
  | enters => exact absurd ht (System.not_inFlight_succeed _ _ _ _ _ _)
  | givesUp => exact absurd ht (not_inFlight_update (by simp) m')
  | parks =>
      obtain rfl := inFlight_update_waiting.1 ht
      simp [System.put, RWLock.waiter_onQueue, WaitQueue.appendWaiter]

/-- A step leaves its caller outside every call or with a waiter object. -/
theorem Deed.parked (h : Deed rt cls c t a o c') (hc : System.Parked c) (m : Mode)
    (ht : InFlight c'.pc m t) : c'.lock.waiter m t ≠ .gone := by
  cases h with
  | rejected hpc | refused hpc | leaves hpc | leaveRaises hpc | routed hpc | countsDown hpc
  | frees hpc | freeRaises hpc | downgrades hpc | downgradeRaises hpc =>
      exact absurd ht (not_inFlight_of_idle hpc m)
  | enters => exact absurd ht (System.not_inFlight_succeed _ _ _ _ _ _)
  | waits _ _ _ _ hloop | goesOn _ _ _ hloop => exact hloop.parked ht
  | cancelled | clears => exact absurd ht (not_inFlight_update (by simp) m)
  | timesOut _ hpc =>
      obtain rfl := inFlight_update_waiting.1 ht
      exact hc m t ⟨_, _, _, hpc⟩
  | isCancelled _ hpc =>
      obtain rfl := inFlight_update_waiting.1 ht
      have := hc m t ⟨_, _, _, hpc⟩
      simp only [System.put_lock, RWLock.waiter_onQueue, if_true, WaitQueue.cancelWaiter_state]
      split_ifs
      · simp
      · exact this

end Parking

namespace System

variable {rt : Runtime} {cls : LockClass} {c : System τ}

/-- **Between steps a call in flight is parked.** -/
theorem Reachable.parked (h : Reachable rt cls c) : Parked c := by
  refine (Transition.Reachable.invariant
    (I := fun c => WellFormed cls c.lock c.pc ∧ Parked c) ?_ ?_ h).2
  · rintro c rfl
    refine ⟨.init cls, fun m t ht => ?_⟩
    obtain ⟨_, _, _, ht⟩ := ht
    cases ht
  · rintro c a c' ⟨hw, hc⟩ ⟨hin, o, hst⟩
    refine ⟨(Step.moves (P := fun _ _ => True) ⟨o, hst⟩ hw hin fun _ _ => trivial).wellFormed hw,
      fun m u hu => ?_⟩
    obtain ⟨t, ht⟩ := Option.ne_none_iff_exists'.1 hin
    have hdeed := step_deed hw hst ht
    by_cases hut : u = t
    · subst hut
      exact hdeed.parked hc m hu
    · have hpc := (step_untouched hw.books hst hin (by simpa [ht] using Ne.symm hut)).pc
      refine fun hg => hc m u ?_ (hdeed.keepsWaiters m u hut hg)
      simpa only [InFlight, hpc] using hu

/-- A step of a thread or task stays among the reachable states. -/
theorem Reachable.step {c c' : System τ} {a : Action τ} {o : Outcome} (h : Reachable rt cls c)
    (hst : c.step rt cls a = some (o, c')) (ha : a.caller ≠ none) : Reachable rt cls c' :=
  h.tail ⟨ha, o, hst⟩

/-- The last release of the write lock. -/
def LastRelease (cls : LockClass) (c : System τ) (o : Outcome) (c' : System τ) : Prop :=
  o = .released ∧ cls.owner c.lock ≠ none ∧ cls.owner c'.lock = none

instance (cls : LockClass) (c : System τ) (o : Outcome) (c' : System τ) :
    Decidable (LastRelease cls c o c') :=
  inferInstanceAs (Decidable (_ ∧ _))

/-- The last release is a call of `write.release()`, in a reentrant class by the owner; it
frees the lock and hands it on. -/
theorem lastRelease_frees {a : Action τ} {o : Outcome} {c' : System τ} {t : τ}
    (hw : WellFormed cls c.lock c.pc) (hst : c.step rt cls a = some (o, c'))
    (ha : a.caller = some t) (h : LastRelease cls c o c') :
    c.pc t = .idle ∧ (cls.reentrant = true → cls.owner c.lock = some t) ∧
      c' = { c with
        lock := cls.onWriterAbort (c.lock.unmark (some t)).freeWriter none
        holds := giveBack c.holds (some t) .write } := by
  obtain ⟨rfl, ho, ho'⟩ := h
  have hunmark := (unmark_spec hw.books (some t)).2.1
  have hleave : ∀ s : RWLock τ, cls.owner s = cls.owner c.lock →
      cls.owner (cls.onReaderLeave (s.dropReader (some t))) = cls.owner c.lock := fun s hs =>
    ((cls.signals_onReaderLeave _).owner cls).trans hs
  cases step_deed hw hst ha with
  | waits _ _ _ _ hloop | goesOn _ _ _ hloop => cases hloop
  | leaves => exact absurd ((hleave _ rfl).symm.trans ho') ho
  | routed => exact absurd ((hleave _ hunmark).symm.trans ho') ho
  | countsDown => exact absurd (hunmark.symm.trans ho') ho
  | frees hpc _ hr => exact ⟨hpc, hr, rfl⟩

/-- The lock after a last release. -/
theorem lock_lastRelease {a : Action τ} {o : Outcome} {c' : System τ} {t : τ}
    (hw : WellFormed cls c.lock c.pc) (hst : c.step rt cls a = some (o, c'))
    (ha : a.caller = some t) (h : LastRelease cls c o c') :
    c'.lock = cls.onWriterAbort (c.lock.unmark (some t)).freeWriter none := by
  obtain ⟨-, -, rfl⟩ := lastRelease_frees hw hst ha h
  rfl

/-! ### Waiter numbers -/

/-- A caller's move leaves the waits of the others. -/
theorem waits_put_of_ne (s : RWLock τ) (p : Pc) {m : Mode} {t u : τ} {seq : ℕ} (hu : u ≠ t) :
    Waits (c.put s t p) m u seq ↔ Waits c m u seq := by
  simp [Waits, hu]

/-- A caller put in the wait loop waits there, under its number. -/
theorem waits_put {s : RWLock τ} {m m' : Mode} {t : τ} {seq seq' : ℕ} {timed i : Bool} :
    Waits (c.put s t (.waiting m seq timed i)) m' t seq' ↔ m' = m ∧ seq' = seq := by
  simp only [Waits, put_pc, Function.update_self, Pc.waiting.injEq]
  constructor
  · rintro ⟨timed', i', rfl, rfl, -, -⟩
    exact ⟨rfl, rfl⟩
  · rintro ⟨rfl, rfl⟩
    exact ⟨timed, i, rfl, rfl, rfl, rfl⟩

omit [DecidableEq τ] in
/-- Whoever waits is in a call. -/
theorem Waits.inFlight {m : Mode} {t : τ} {seq : ℕ} (h : Waits c m t seq) :
    InFlight c.pc m t := by
  obtain ⟨timed, i, h⟩ := h
  exact ⟨seq, timed, i, h⟩

/-- A loop that leaves its caller waiting has parked it, under its number. -/
theorem looped_waits {t : τ} {m m' : Mode} {seq seq' : ℕ} {timed : Bool} {o : Outcome}
    {c' : System τ} (h : Looped rt cls c t m seq timed o c') (ht : Waits c' m' t seq') :
    m' = m ∧ seq' = seq ∧ o = .parked := by
  cases h with
  | enters => exact absurd ht.inFlight (not_inFlight_succeed _ _ _ _ _ _)
  | givesUp => exact absurd ht.inFlight (not_inFlight_update (by simp) m')
  | parks =>
      obtain ⟨hm, hseq⟩ := waits_put.1 ht
      exact ⟨hm, hseq, rfl⟩

/-- **A call in flight keeps its number**, and a call that registers gets the next one. -/
theorem step_waits {a : Action τ} {o : Outcome} {c' : System τ} {m : Mode} {u : τ} {seq : ℕ}
    (hw : WellFormed cls c.lock c.pc) (hst : c.step rt cls a = some (o, c'))
    (ha : a.caller ≠ none) (hu : Waits c' m u seq) :
    Waits c m u seq ∨ a.caller = some u ∧ c.pc u = .idle ∧ o = .parked ∧
      seq = (c.lock.proxy m).waiterSeq + 1 := by
  obtain ⟨t, ht⟩ := Option.ne_none_iff_exists'.1 ha
  by_cases hut : u = t
  · subst hut
    cases step_deed hw hst ht with
    | rejected | refused | leaves | leaveRaises | routed | countsDown | frees | freeRaises
    | downgrades | downgradeRaises => exact .inl hu
    | enters => exact absurd hu.inFlight (not_inFlight_succeed _ _ _ _ _ _)
    | waits hpc _ _ _ hloop =>
        obtain ⟨rfl, rfl, rfl⟩ := looped_waits hloop hu
        exact .inr ⟨ht, hpc, rfl, rfl⟩
    | goesOn hpc _ _ hloop =>
        obtain ⟨rfl, rfl, -⟩ := looped_waits hloop hu
        exact .inl ⟨_, _, hpc⟩
    | cancelled | clears => exact absurd hu.inFlight (not_inFlight_update (by simp) m)
    | timesOut _ hpc =>
        obtain ⟨rfl, rfl⟩ := waits_put.1 hu
        exact .inl ⟨_, _, hpc⟩
    | isCancelled _ hpc =>
        obtain ⟨rfl, rfl⟩ := waits_put.1 hu
        exact .inl ⟨_, _, hpc⟩
  · have hpc := (step_untouched hw.books hst ha (by simpa [ht] using Ne.symm hut)).pc
    refine .inl ?_
    unfold Waits at hu ⊢
    rwa [hpc] at hu

/-- A step that acquires is a call, or goes on with a call that waits for just that. -/
theorem step_acquired {a : Action τ} {c' : System τ} {m : Mode} {t : τ}
    (hw : WellFormed cls c.lock c.pc) (hst : c.step rt cls a = some (.acquired m, c'))
    (ha : a.caller = some t) : c.pc t = .idle ∨ InFlight c.pc m t := by
  cases step_deed hw hst ha with
  | enters hpc | waits hpc => exact .inl hpc
  | goesOn hpc _ _ hloop =>
      cases hloop with
      | enters => exact .inr ⟨_, _, _, hpc⟩

end System

end Rwlocker

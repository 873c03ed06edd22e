/-
# Whom a reader phase wakes

The two fair policies wake readers in phases, and `_wake_waiting_reader` is guarded: a
reader is not to be signalled while a writer is active.  The guard reads
`_writer_active`.  The `ReentrantWriter` variants inherit it and keep their owner in
`_writer_id`, so there it never holds anybody back.

What protects their readers is the turn.  It is off whenever a writer enters, and while
one owns the lock only a waiting writer that gives up can switch it on, when readers
queue (`AbortsBehindWriter`).  In a run without such a step nobody is signalled
behind a writer (`readers_signalled_when_free`); in a run with one somebody is
(`readers_signalled_behind_writer`).
-/

import Rwlocker.LateReaders

namespace Rwlocker

variable {τ : Type} [DecidableEq τ]

open RWLock (Signals)

/-- No reader is woken between `s` and `s'`. -/
def WakesNoReader (s s' : RWLock τ) : Prop :=
  ∀ u, s'.waiter .read u = .woken → s.waiter .read u = .woken

/-- A phase wakes nobody here: the guard of `_wake_waiting_reader` fails, or the turn is
off. -/
def Hush (s : RWLock τ) : Prop := s.writerActive = true ∨ s.readersTurn = false

/-- From `s` to `s'` no reader is woken and, in a reentrant class, no turn begins. -/
structure Hushed (cls : LockClass) (s s' : RWLock τ) : Prop where
  wakesNone : WakesNoReader s s'
  turn : cls.reentrant = true → s'.readersTurn = true → s.readersTurn = true

variable {cls : LockClass} {s s' s'' : RWLock τ}

/-! ### Hooks that wake no reader -/

namespace RWLock

omit [DecidableEq τ] in
theorem read_onProxy_write (s : RWLock τ) (f : Proxy τ → Proxy τ) :
    (s.onProxy .write f).read = s.read := by
  rw [read, onProxy_proxy, if_neg (by simp)]

theorem read_notify_write (s : RWLock τ) (n : ℤ) : (s.notify .write n).read = s.read :=
  s.read_onProxy_write fun p => { p with condition := p.condition.notify n }

end RWLock

theorem RWLockReaderPhaseFairMixin.read_wakeWaitingReader (h : s.writerActive = true) :
    (wakeWaitingReader s).read = s.read := by
  simp [wakeWaitingReader, h]

theorem RWLockFairMixin.read_wakeWaitingReader (h : s.writerActive = true) :
    (wakeWaitingReader s).read = s.read := by
  simp [wakeWaitingReader, h]

/-- A phase that has its turn off ends without a reader; one behind a plain writer waits. -/
theorem RWLockReaderPhaseFairMixin.read_finishOrContinueReaderPhase (h : Hush s) :
    (finishOrContinueReaderPhase s).read = s.read := by
  unfold finishOrContinueReaderPhase
  dsimp only
  split_ifs with hcont hw
  · rcases h with h | h
    · exact read_wakeWaitingReader h
    · simp [h] at hcont
  · exact RWLock.read_notify_write _ 1
  · rfl

theorem RWLockFairMixin.read_finishOrContinueReaderPhase (h : Hush s) :
    (finishOrContinueReaderPhase s).read = s.read := by
  unfold finishOrContinueReaderPhase
  dsimp only
  split_ifs with hcont hw
  · rcases h with h | h
    · exact read_wakeWaitingReader h
    · simp [h] at hcont
  · exact RWLock.read_notify_write _ 1
  · rfl

theorem RWLockFairMixin.read_startReaderPhase (h : s.writerActive = true) :
    (startReaderPhase s).read = s.read := by
  unfold startReaderPhase
  dsimp only
  split_ifs
  · exact read_wakeWaitingReader h
  · rfl

/-- The lock is one of the two fair policies'. -/
def Phased (cls : LockClass) : Prop := cls.policy = .readerPhaseFair ∨ cls.policy = .fair

theorem read_onReaderEnter (hp : Phased cls) (h : Hush s) (waiting : Bool)
    (waiterSeq : Option ℕ) : (cls.onReaderEnter waiting waiterSeq s).read = s.read := by
  unfold LockClass.onReaderEnter
  rcases hp with hp | hp <;> simp only [hp]
  · split_ifs with hturn
    · rcases h with h | h
      · exact RWLockReaderPhaseFairMixin.read_wakeWaitingReader h
      · simp [h] at hturn
    · rfl
  · have hslot : (RWLockFairMixin.consumeReaderPhaseSlot s waiting waiterSeq).read = s.read ∧
        Hush (RWLockFairMixin.consumeReaderPhaseSlot s waiting waiterSeq) := by
      unfold RWLockFairMixin.consumeReaderPhaseSlot
      split_ifs
      · exact ⟨rfl, h⟩
      · exact ⟨rfl, h⟩
    obtain ⟨hread, h⟩ := hslot
    split_ifs with hturn
    · rcases h with h | h
      · exact (RWLockFairMixin.read_wakeWaitingReader h).trans hread
      · simp [h] at hturn
    · exact hread

theorem read_onReaderLeave (hp : Phased cls) (h : Hush s) :
    (cls.onReaderLeave s).read = s.read := by
  unfold LockClass.onReaderLeave
  rcases hp with hp | hp <;> simp only [hp] <;> split_ifs
  · exact RWLockReaderPhaseFairMixin.read_finishOrContinueReaderPhase h
  · rfl
  · exact RWLockFairMixin.read_finishOrContinueReaderPhase h
  · rfl

theorem RWLockFairMixin.read_onReaderAbort (h : Hush s) (waiterSeq : Option ℕ) :
    (onReaderAbort s waiterSeq).read = s.read := by
  have hgo : ∀ s : RWLock τ, Hush s →
      (if s.readersTurn && decide (0 < s.readerPhasePending) then wakeWaitingReader s
        else if s.readersTurn && s.readersActive == 0 then finishOrContinueReaderPhase s
        else s).read = s.read := by
    intro s h
    split_ifs with hturn
    · rcases h with h | h
      · exact read_wakeWaitingReader h
      · simp [h] at hturn
    · exact read_finishOrContinueReaderPhase h
    · rfl
  refine (hgo _ ?_).trans ?_
  · split_ifs
    · exact h
    · exact h
  · split_ifs
    · rfl
    · rfl

theorem read_onReaderAbort (hp : Phased cls) (h : Hush s) (waiterSeq : Option ℕ) :
    (cls.onReaderAbort s waiterSeq).read = s.read := by
  cases cls with
  | write | writeReentrantWriter | read | readReentrantWriter =>
      simp [Phased, LockClass.policy] at hp
  | readerPhaseFair | readerPhaseFairReentrantWriter =>
      show (RWLockReaderPhaseFairMixin.onReaderAbort s waiterSeq).read = s.read
      unfold RWLockReaderPhaseFairMixin.onReaderAbort
      split_ifs
      · exact RWLockReaderPhaseFairMixin.read_finishOrContinueReaderPhase h
      · rfl
  | fair | fairReentrantWriter => exact RWLockFairMixin.read_onReaderAbort h waiterSeq

/-- A writer that gives up with no reader queued begins no phase. -/
theorem read_onWriterAbort_of_empty (hp : Phased cls)
    (h : s.read.condition.hasWaiters = false) (waiterSeq : Option ℕ) :
    (cls.onWriterAbort s waiterSeq).read = s.read ∧
      (cls.onWriterAbort s waiterSeq).readersTurn = s.readersTurn := by
  have habort : ∀ start : RWLock τ → RWLock τ,
      (RWLockReaderPhaseFairMixin.onWriterAbort start s waiterSeq).read = s.read ∧
        (RWLockReaderPhaseFairMixin.onWriterAbort start s waiterSeq).readersTurn =
          s.readersTurn := by
    intro start
    unfold RWLockReaderPhaseFairMixin.onWriterAbort
    rw [if_neg (by simp [h])]
    split_ifs
    · exact ⟨RWLock.read_notify_write s 1, rfl⟩
    · exact ⟨rfl, rfl⟩
  cases cls with
  | write | writeReentrantWriter | read | readReentrantWriter =>
      simp [Phased, LockClass.policy] at hp
  | readerPhaseFair | readerPhaseFairReentrantWriter | fair | fairReentrantWriter => exact habort _

/-- Behind a plain writer the phase begins without waking anybody. -/
theorem read_onWriterAbort_of_active (hp : Phased cls) (h : s.writerActive = true)
    (waiterSeq : Option ℕ) : (cls.onWriterAbort s waiterSeq).read = s.read := by
  have habort : ∀ start : RWLock τ → RWLock τ, (start s).read = s.read →
      (RWLockReaderPhaseFairMixin.onWriterAbort start s waiterSeq).read = s.read := by
    intro start hstart
    unfold RWLockReaderPhaseFairMixin.onWriterAbort
    split_ifs
    · exact hstart
    · exact RWLock.read_notify_write s 1
    · rfl
  cases cls with
  | write | writeReentrantWriter | read | readReentrantWriter =>
      simp [Phased, LockClass.policy] at hp
  | readerPhaseFair | readerPhaseFairReentrantWriter =>
      exact habort _ (RWLockReaderPhaseFairMixin.read_wakeWaitingReader (s := { s with
        readersTurn := true }) h)
  | fair | fairReentrantWriter => exact habort _ (RWLockFairMixin.read_startReaderPhase h)

/-! ### Steps that wake no reader -/

namespace Hushed

omit [DecidableEq τ] in
/-- Nothing happens. -/
theorem refl (cls : LockClass) (s : RWLock τ) : Hushed cls s s := ⟨fun _ h => h, fun _ h => h⟩

omit [DecidableEq τ] in
/-- No reader is woken, and none again. -/
theorem trans (h : Hushed cls s s') (h' : Hushed cls s' s'') : Hushed cls s s'' where
  wakesNone u hu := h.wakesNone u (h'.wakesNone u hu)
  turn hc ht := h.turn hc (h'.turn hc ht)

omit [DecidableEq τ] in
/-- The read queue stays, and no turn begins. -/
theorem of_queue (hread : s'.read.condition = s.read.condition)
    (hturn : cls.reentrant = true → s'.readersTurn = true → s.readersTurn = true) :
    Hushed cls s s' where
  wakesNone u hu := by rwa [RWLock.waiter, hread] at hu
  turn := hturn

omit [DecidableEq τ] in
/-- A change of one proxy wakes nobody if its queue does not. -/
theorem onProxy (cls : LockClass) (s : RWLock τ) (m : Mode) {f : Proxy τ → Proxy τ}
    (hf : ∀ p u, (f p).condition.state u = .woken → p.condition.state u = .woken) :
    Hushed cls s (s.onProxy m f) where
  wakesNone u hu := by
    rw [RWLock.waiter, RWLock.onProxy_proxy] at hu
    split_ifs at hu with hm
    · subst hm
      exact hf _ u hu
    · exact hu
  turn _ ht := ht

omit [DecidableEq τ] in
/-- A registration wakes nobody. -/
theorem startWaiting (cls : LockClass) (s : RWLock τ) (m : Mode) :
    Hushed cls s (s.startWaiting m) :=
  .onProxy cls s m fun _ _ h => h

omit [DecidableEq τ] in
/-- Nor does the end of a call. -/
theorem stopWaiting (cls : LockClass) (s : RWLock τ) (m : Mode) :
    Hushed cls s (s.stopWaiting m) :=
  .onProxy cls s m fun _ _ h => h

/-- Nor does a waiter that lies down. -/
theorem appendWaiter (cls : LockClass) (s : RWLock τ) (m : Mode) (t : τ) :
    Hushed cls s (s.onQueue m fun q => q.appendWaiter t) := by
  refine .onProxy cls s m fun p u hu => ?_
  simp only [WaitQueue.appendWaiter, Function.update_apply] at hu
  split_ifs at hu
  exact hu

/-- Nor does one that is cancelled. -/
theorem cancelWaiter (cls : LockClass) (s : RWLock τ) (m : Mode) (t : τ) :
    Hushed cls s (s.onQueue m fun q => q.cancelWaiter t) := by
  refine .onProxy cls s m fun p u hu => ?_
  rw [WaitQueue.cancelWaiter_state] at hu
  split_ifs at hu
  exact hu

/-- Nor does one that gets up. -/
theorem endWait (cls : LockClass) (c : System τ) (t : τ) (m : Mode) (i : Bool) :
    Hushed cls c.lock (c.endWait t m i).lock := by
  refine Hushed.onProxy cls c.lock m (f := fun p => { p with
    condition := (if i then p.condition.discardWaiter t else p.condition).dropWaiter t })
    fun p u hu => ?_
  simp only [WaitQueue.dropWaiter, Function.update_apply] at hu
  split_ifs at hu
  · exact hu
  · exact hu

theorem onReaderLeave (hp : Phased cls) (h : Hush s) : Hushed cls s (cls.onReaderLeave s) :=
  .of_queue (congrArg _ (read_onReaderLeave hp h)) fun _ ht => (cls.shrinks_onReaderLeave s ht).1

theorem onReaderAbort (hp : Phased cls) (h : Hush s) (waiterSeq : Option ℕ) :
    Hushed cls s (cls.onReaderAbort s waiterSeq) :=
  .of_queue (congrArg _ (read_onReaderAbort hp h waiterSeq))
    fun _ ht => (cls.shrinks_onReaderAbort s waiterSeq ht).1

/-- A reader that enters wakes no other here. -/
theorem acquireReadCore (hp : Phased cls) (h : Hush s) (k : Option τ) (waiting : Bool)
    (waiterSeq : Option ℕ) : Hushed cls s (cls.acquireReadCore s k waiting waiterSeq) := by
  rw [LockClass.acquireReadCore_eq]
  have henter : Hush (s.enterReader k) := h
  exact .of_queue (congrArg _ (read_onReaderEnter hp henter waiting waiterSeq))
    fun _ ht => (cls.shrinks_onReaderEnter waiting waiterSeq _ ht).1

/-- A writer gives up behind a plain writer, or while no reader is queued. -/
theorem onWriterAbort (hp : Phased cls)
    (h : cls.reentrant = false ∧ s.writerActive = true ∨ s.read.condition.hasWaiters = false)
    (waiterSeq : Option ℕ) : Hushed cls s (cls.onWriterAbort s waiterSeq) := by
  rcases h with ⟨hc, h⟩ | h
  · exact .of_queue (congrArg _ (read_onWriterAbort_of_active hp h waiterSeq)) (by simp [hc])
  · obtain ⟨hread, hturn⟩ := read_onWriterAbort_of_empty hp h waiterSeq
    exact .of_queue (congrArg _ hread) fun _ ht => hturn ▸ ht

/-- Nor does the downgrade marker. -/
theorem unmark (cls : LockClass) (s : RWLock τ) (k : Option τ) : Hushed cls s (s.unmark k) := by
  obtain ⟨k', hk⟩ := s.unmark_frame k
  rw [hk]
  exact .of_queue rfl fun _ h => h

/-- A writer enters without a signal. -/
theorem succeed_write (rt : Runtime) (c : System τ) (t : τ) {s' : RWLock τ}
    (h : Hushed cls s s') : Hushed cls s (c.succeed rt t s' .write).2.lock := by
  cases rt with
  | thread => exact h
  | async => exact h.trans (.of_queue rfl fun _ h => h)

omit [DecidableEq τ] in
/-- Nor does a writer that enters. -/
theorem acquireWriteCore (cls : LockClass) (s : RWLock τ) (k : Option τ) (waiting : Bool)
    (waiterSeq : Option ℕ) : Hushed cls s (cls.acquireWriteCore s k waiting waiterSeq) := by
  obtain ⟨_, _, _, _, hf⟩ := s.ownWriter_frame cls k
  rw [LockClass.acquireWriteCore_eq, hf]
  exact .of_queue rfl fun _ h => h

end Hushed

namespace System

variable {rt : Runtime} {c c' : System τ} {t u : τ} {m : Mode} {seq : ℕ} {timed : Bool}
  {a : Action τ} {o : Outcome}

/-- The step is that of a waiting writer that gives up unless it gets in: its deadline
has passed, or it was cancelled. -/
def writerGivesUp (rt : Runtime) (cls : LockClass) (c : System τ) : Action τ → Bool
  | .acquire t .write .timed expired => expired && cls.owner c.lock != some t
  | .resume t expired =>
      match c.pc t with
      | .waiting .write _ timed interrupted =>
          (rt == .async && interrupted) || (timed && expired)
      | _ => false
  | _ => false

/-- In a `ReentrantWriter` class, a waiting writer gives up while the write lock is held
and the read queue is not empty. -/
def AbortsBehindWriter (rt : Runtime) (cls : LockClass) (c : System τ) (a : Action τ) : Prop :=
  cls.reentrant = true ∧ cls.owner c.lock ≠ none ∧
    c.lock.read.condition.hasWaiters = true ∧ writerGivesUp rt cls c a = true

instance (rt : Runtime) (cls : LockClass) (c : System τ) (a : Action τ) :
    Decidable (AbortsBehindWriter rt cls c a) :=
  inferInstanceAs (Decidable (_ ∧ _))

/-- While a writer owns the lock a phase wakes nobody. -/
def Guarded (cls : LockClass) (c : System τ) : Prop := cls.owner c.lock ≠ none → Hush c.lock

/-- The wait loop wakes no reader behind a writer. -/
theorem looped_hushed (hp : Phased cls) (h : Looped rt cls c t m seq timed o c')
    (hguard : Guarded cls c) (howned : cls.owner c'.lock ≠ none)
    (habort : m = .write → o = .refused → cls.owner c.lock ≠ none →
      cls.reentrant = false ∧ c.lock.writerActive = true ∨
        c.lock.read.condition.hasWaiters = false) : Hushed cls c.lock c'.lock := by
  cases h with
  | enters hadm =>
      cases m with
      | read =>
          have hsig := cls.signals_onReaderEnter true (some seq) (c.lock.enterReader (some t))
          rw [← LockClass.acquireReadCore_eq] at hsig
          exact absurd ((hsig.owner cls).trans hadm.1) howned
      | write =>
          exact .succeed_write rt c t
            ((Hushed.acquireWriteCore cls c.lock _ _ _).trans (.stopWaiting cls _ .write))
  | givesUp =>
      have hsig := cls.signals_onAbort m (c.lock.stopWaiting m) (some seq)
      have howned' : cls.owner c.lock ≠ none := fun ho => howned ((hsig.owner cls).trans ho)
      have hstop := Hushed.stopWaiting cls c.lock m
      cases m with
      | read =>
          have hhush : Hush (c.lock.stopWaiting .read) := hguard howned'
          exact hstop.trans (.onReaderAbort hp hhush _)
      | write =>
          refine hstop.trans (.onWriterAbort hp ?_ _)
          rw [RWLock.stopWaiting, RWLock.read_onProxy_write]
          exact habort rfl rfl howned'
  | parks => exact .appendWaiter cls c.lock m t

/-- The wait loop is not cancelled, and gives up at an expired deadline only. -/
theorem acquireLoop_failed {expired : Bool}
    (h : c.acquireLoop rt cls t m seq timed expired = (o, c'))
    (ho : o = .refused ∨ o = .cancelled) : timed = true ∧ expired = true := by
  unfold acquireLoop at h
  split_ifs at h with hcan hexp
  · have hfst := succeed_fst rt c t
      ((cls.acquireCore m c.lock (some t) true (some seq)).stopWaiting m) m
    rw [h] at hfst
    simp only at hfst
    simp [hfst] at ho
  · simpa using hexp
  · cases h
    simp at ho

/-- A waiting writer fails in a step in which it gives up. -/
theorem writerGivesUp_of_failed (hw : WellFormed cls c.lock c.pc) (hc : cls.reentrant = true)
    (hst : c.step rt cls a = some (o, c')) (ho : o = .refused ∨ o = .cancelled)
    (hwait : WriterWaits c a) : writerGivesUp rt cls c a = true := by
  cases a with
  | acquire t m p expired =>
      obtain ⟨rfl, hp⟩ := hwait
      have hdeed := step_deed hw hst rfl
      simp only [step] at hst
      split_ifs at hst with hg
      replace hst := Option.some.inj hst
      unfold acquire at hst
      cases hb : cls.beforeAcquire .write c.lock (some t) with
      | error e =>
          rw [hb] at hst
          cases hst
          simp at ho
      | ok v =>
          rw [hb] at hst
          dsimp only at hst
          split_ifs at hst with hcan
          · cases rt <;> cases hst <;> simp at ho
          · obtain ⟨htimed, hexp⟩ := acquireLoop_failed hst ho
            have hown : cls.owner c.lock ≠ some t := by
              cases hdeed with
              | rejected => simp at ho
              | enters _ hcan' => exact absurd hcan' hcan
              | refused => exact absurd rfl hp
              | waits _ _ _ hstranger => exact fun hown => hstranger.2 ⟨hc, hown⟩
            obtain rfl : p = .timed := by simpa using htimed
            simp [writerGivesUp, hexp, hown]
  | resume t expired =>
      obtain ⟨seq, timed, i, hpc⟩ := hwait
      simp only [step, hpc] at hst
      split_ifs at hst with hpend
      replace hst := Option.some.inj hst
      unfold resume at hst
      dsimp only at hst
      split_ifs at hst with hcancel
      · obtain ⟨rfl, rfl⟩ := hcancel
        simp [writerGivesUp, hpc]
      · obtain ⟨htimed, hexp⟩ := acquireLoop_failed hst ho
        simp [writerGivesUp, hpc, htimed, hexp]
  | interrupt | clear | release | downgrade => exact hwait.elim

theorem read_endWait_write (c : System τ) (t : τ) (i : Bool) :
    (c.endWait t .write i).lock.read = c.lock.read :=
  c.lock.read_onProxy_write fun p => { p with
    condition := (if i then p.condition.discardWaiter t else p.condition).dropWaiter t }

/-- Where a waiting writer fails, no reader can be signalled. -/
theorem not_abortsBehindWriter (hw : WellFormed cls c.lock c.pc)
    (hst : c.step rt cls a = some (o, c')) (hno : ¬ AbortsBehindWriter rt cls c a)
    (ho : o = .refused ∨ o = .cancelled) (hwait : WriterWaits c a)
    (howned : cls.owner c.lock ≠ none) :
    cls.reentrant = false ∧ c.lock.writerActive = true ∨
      c.lock.read.condition.hasWaiters = false := by
  cases hc : cls.reentrant with
  | false =>
      have hactive := (hw.books.plain hc).2.2
      simp only [LockClass.owner, hc] at howned
      exact .inl ⟨rfl, hactive.2 howned⟩
  | true =>
      refine .inr (Bool.eq_false_iff.2 fun hqueue => ?_)
      exact hno ⟨hc, howned, hqueue, writerGivesUp_of_failed hw hc hst ho hwait⟩

/-- **A step that ends with the lock held wakes no reader**, as long as no waiting
writer gives up behind the owner. -/
theorem step_hushed (hp : Phased cls) (hw : WellFormed cls c.lock c.pc) (hguard : Guarded cls c)
    (hst : c.step rt cls a = some (o, c')) (ha : a.caller = some t)
    (hno : ¬ AbortsBehindWriter rt cls c a) (howned : cls.owner c'.lock ≠ none) :
    Hushed cls c.lock c'.lock := by
  have habort := not_abortsBehindWriter hw hst hno
  have hleave : ∀ s : RWLock τ, cls.owner s = cls.owner c.lock → (Hush c.lock → Hush s) →
      cls.owner (cls.onReaderLeave (s.dropReader (some t))) ≠ none →
      Hushed cls s (cls.onReaderLeave (s.dropReader (some t))) := by
    intro s hs hhush hne
    have hdrop : Hushed cls s (s.dropReader (some t)) := .of_queue rfl fun _ h => h
    have hsig := cls.signals_onReaderLeave (s.dropReader (some t))
    refine hdrop.trans (.onReaderLeave hp (hhush (hguard fun ho => hne ?_)))
    exact (hsig.owner cls).trans (hs.trans ho)
  cases step_deed hw hst ha with
  | rejected | refused | timesOut | leaveRaises | downgradeRaises => exact .refl cls c.lock
  | @enters m =>
      cases m with
      | read =>
          have hsig := cls.signals_onReaderEnter false none (c.lock.enterReader (some t))
          rw [← LockClass.acquireReadCore_eq] at hsig
          refine .acquireReadCore hp (hguard fun ho => howned ?_) _ _ _
          exact (hsig.owner cls).trans ho
      | write => exact .succeed_write rt c t (.acquireWriteCore cls c.lock _ _ _)
  | @waits m p _ _ _ _ hpatient _ _ hloop =>
      have hreg : Guarded cls (c.register t m (p = .timed)) := hguard
      have hread : (c.lock.startWaiting m).read.condition = c.lock.read.condition := by
        rw [RWLock.read, RWLock.startWaiting, RWLock.onProxy_proxy]
        split_ifs with hm
        · rw [← hm]
        · rfl
      refine (Hushed.startWaiting cls c.lock m).trans (looped_hushed hp hloop hreg howned ?_)
      rintro rfl rfl ho
      rw [← hread] at habort
      exact habort (.inl rfl) ⟨rfl, hpatient⟩ ho
  | @goesOn m _ _ i _ _ _ hpc _ _ hloop =>
      have hend : Guarded cls (c.endWait t m i) := hguard
      refine (Hushed.endWait cls c t m i).trans (looped_hushed hp hloop hend howned ?_)
      rintro rfl rfl ho
      rw [read_endWait_write]
      exact habort (.inl rfl) ⟨_, _, _, hpc⟩ ho
  | @cancelled m seq _ _ _ hpc =>
      have hstop := (Hushed.endWait cls c t m true).trans (.stopWaiting cls _ m)
      have hsig := cls.signals_onAbort m ((c.endWait t m true).lock.stopWaiting m) (some seq)
      have howned' : cls.owner c.lock ≠ none := fun ho => howned ((hsig.owner cls).trans ho)
      cases m with
      | read =>
          have hhush : Hush ((c.endWait t .read true).lock.stopWaiting .read) := hguard howned'
          exact hstop.trans (.onReaderAbort hp hhush _)
      | write =>
          refine hstop.trans (.onWriterAbort hp ?_ _)
          rw [RWLock.stopWaiting, RWLock.read_onProxy_write, read_endWait_write]
          exact habort (.inr rfl) ⟨_, _, _, hpc⟩ howned'
  | isCancelled => exact .cancelWaiter cls c.lock _ t
  | clears => exact .of_queue rfl fun _ h => h
  | leaves => exact hleave c.lock rfl id howned
  | routed =>
      obtain ⟨k', hk⟩ := c.lock.unmark_frame (some t)
      refine (Hushed.unmark cls c.lock (some t)).trans (hleave _ ?_ ?_ howned)
      · rw [hk]
        rfl
      · rw [hk]
        exact id
  | countsDown =>
      exact (Hushed.unmark cls c.lock (some t)).trans (.of_queue rfl fun _ h => h)
  | frees =>
      have hsig := cls.signals_onWriterAbort (c.lock.unmark (some t)).freeWriter none
      exact absurd ((hsig.owner cls).trans (by simp)) howned
  | freeRaises => exact .unmark cls c.lock (some t)
  | downgrades =>
      have hsig := cls.signals_onDowngrade (c.lock.freeWriter.enterReader (some t))
      exact absurd ((hsig.owner cls).trans (by simp)) howned

/-! ### Runs in which no reader is woken behind a writer -/

/-- A writer enters a free lock in a step that acquires it. -/
theorem admitsWriter_of_acquired (hw : WellFormed cls c.lock c.pc)
    (hst : c.step rt cls a = some (.acquired .write, c')) (ha : a.caller = some t)
    (hfree : cls.owner c.lock = none) : cls.AdmitsWriter c.lock := by
  cases step_deed hw hst ha with
  | enters _ hcan =>
      refine ((hw.books.canWrite_iff (by simp) false none).1 hcan).resolve_right fun hown => ?_
      simp [hfree] at hown
  | waits _ _ _ _ hloop =>
      cases hloop with
      | enters hadm => exact LockClass.AdmitsWriter.of_startWaiting (hw.thoseWaiting_nonneg _) hadm
  | goesOn _ _ _ hloop =>
      cases hloop with
      | enters hadm => exact LockClass.admitsWriter_onQueue.1 hadm

/-- A lock is taken by a write acquisition. -/
theorem acquired_of_owned (hb : Books cls c.lock) (hst : c.step rt cls a = some (o, c'))
    (ha : a.caller = some t) (hfree : cls.owner c.lock = none)
    (howned : cls.owner c'.lock ≠ none) : o = .acquired .write := by
  have hatt : ∀ {m}, Attempt rt cls c t c' m o → o = .acquired .write := by
    intro m h
    cases h with
    | fails hs => exact absurd (hs.owner.trans hfree) howned
    | reads hs => exact absurd (hs.owner.trans hfree) howned
    | writes => rfl
  cases step_effect hb hst ha with
  | acquire _ h => exact hatt h
  | resume _ h => exact hatt h
  | interrupt _ _ hs => exact absurd (hs.owner.trans hfree) howned
  | clear => exact absurd hfree howned
  | release _ hgb => exact absurd (hgb.owner.elim (fun h => h.trans hfree) id) howned
  | downgrade _ _ _ hnone => exact absurd hnone howned
  | downgradeRaised => exact absurd hfree howned

/-- **The guard lasts**, as long as no waiting writer gives up behind the owner. -/
theorem Guarded.step (hp : Phased cls) (h : Reachable rt cls c) (hguard : Guarded cls c)
    (hst : c.step rt cls a = some (o, c')) (ha : a.caller = some t)
    (hno : ¬ AbortsBehindWriter rt cls c a) : Guarded cls c' := by
  intro howned
  have hhushed := step_hushed hp h.wellFormed hguard hst ha hno howned
  cases hc : cls.reentrant with
  | false =>
      have hbooks := (h.step hst (by simp [ha])).wellFormed.books
      simp only [LockClass.owner, hc] at howned
      exact .inl ((hbooks.plain hc).2.2.2 howned)
  | true =>
      have hinactive := (h.wellFormed.books.reentrant hc).1
      have hoff : c.lock.readersTurn = false := by
        by_cases hfree : cls.owner c.lock = none
        · obtain rfl := acquired_of_owned h.wellFormed.books hst ha hfree howned
          exact h.turnServed.turn_off hp (admitsWriter_of_acquired h.wellFormed hst ha hfree)
        · exact (hguard hfree).resolve_left (by simp [hinactive])
      refine .inr (Bool.eq_false_iff.2 fun hturn => ?_)
      rw [hhushed.turn hc hturn] at hoff
      cases hoff

/-- A sleeping reader is woken in this step. -/
def SignalsReader (c c' : System τ) (u : τ) : Prop :=
  c.lock.waiter .read u = .pending ∧ c'.lock.waiter .read u = .woken

/-- **Readers are signalled while nobody owns the lock.**  In a run of a fair lock in which
no waiting writer gives up behind a `ReentrantWriter` owner while readers queue, every step
that wakes a sleeping reader ends with the lock free; a step that ends with it
held wakes none. -/
theorem readers_signalled_when_free (hp : Phased cls) {as : List (Action τ)}
    (hrun : Transition.Run (Transition.restrict
      (fun c a => InTask c a ∧ ¬ AbortsBehindWriter rt cls c a) (Step rt cls)) {} as c)
    (hin : a.caller ≠ none) (hno : ¬ AbortsBehindWriter rt cls c a)
    (hst : c.step rt cls a = some (o, c')) (hsig : SignalsReader c c' u) :
    cls.owner c'.lock = none := by
  have hinv : Reachable rt cls c ∧ Guarded cls c := by
    refine hrun.invariant (I := fun c => Reachable rt cls c ∧ Guarded cls c) ?_
      ⟨.start rfl, fun ho => absurd (by simp [LockClass.owner]) ho⟩
    rintro c a c' ⟨h, hguard⟩ ⟨⟨hin, hno⟩, o, hst⟩
    obtain ⟨t, ht⟩ := Option.ne_none_iff_exists'.1 (show a.caller ≠ none from hin)
    exact ⟨h.step hst hin, hguard.step hp h hst ht hno⟩
  obtain ⟨t, ht⟩ := Option.ne_none_iff_exists'.1 hin
  by_contra howned
  have hhushed := step_hushed hp hinv.1.wellFormed hinv.2 hst ht hno howned
  have := hhushed.wakesNone u hsig.2
  rw [hsig.1] at this
  cases this

/-- A writer gives up before a reader queues; the owner's release wakes the reader. -/
theorem readers_signalled_when_free_release : ∃ c c' : System ℕ,
    SignalsReader c c' 1 ∧ LockClass.fairReentrantWriter.owner c'.lock = none := by
  have hrun : ((Transition.replay (next (fun c a => InTask c a ∧
        ¬ AbortsBehindWriter .thread .fairReentrantWriter c a) .thread .fairReentrantWriter)
      ({} : System ℕ)
      [.acquire 0 .write .forever false, .clear 0, .acquire 2 .write .timed false, .interrupt 2,
        .resume 2 true, .acquire 1 .read .forever false]).bind fun c =>
        (c.step .thread .fairReentrantWriter (.release (some 0) .write)).map fun r =>
          (decide (AbortsBehindWriter .thread .fairReentrantWriter c (.release (some 0) .write)),
            c.lock.waiter .read 1, r.2.lock.waiter .read 1)) =
      some (false, .pending, .woken) := by
    decide
  obtain ⟨c, hc, hrun⟩ := Option.bind_eq_some_iff.1 hrun
  obtain ⟨⟨o, c'⟩, hst, hval⟩ := Option.map_eq_some_iff.1 hrun
  simp only [Prod.mk.injEq] at hval
  obtain ⟨hno, hpend, hwoken⟩ := hval
  exact ⟨c, c', ⟨hpend, hwoken⟩, readers_signalled_when_free (.inr rfl) (run_of_replay hc)
    (by simp [Action.caller]) (of_decide_eq_false hno) hst ⟨hpend, hwoken⟩⟩

/-- Writer `2` times out while thread `0` owns the lock: reader `1` is signalled, wakes,
and parks again behind reader `3`. -/
theorem readers_signalled_behind_writer : ∃ c c' c'' : System ℕ,
    Reachable .thread .fairReentrantWriter c ∧
      c.step .thread .fairReentrantWriter (.resume 2 true) = some (.refused, c') ∧
      LockClass.fairReentrantWriter.owner c.lock = some 0 ∧
      LockClass.fairReentrantWriter.owner c'.lock = some 0 ∧
      1 ∈ c.lock.queue .read ∧ 1 ∉ c'.lock.queue .read ∧ SignalsReader c c' 1 ∧
      Transition.Run (Transition.restrict InTask (Step .thread .fairReentrantWriter)) c'
        [.acquire 3 .read .forever false, .resume 1 false] c'' ∧
      c''.lock.queue .read = [3, 1] := by
  have hrun : ((Transition.replay (next InTask .thread .fairReentrantWriter) ({} : System ℕ)
      [.acquire 0 .write .forever false, .clear 0, .acquire 1 .read .forever false,
        .acquire 2 .write .timed false, .interrupt 2]).bind fun c =>
      (c.step .thread .fairReentrantWriter (.resume 2 true)).bind fun r =>
        (Transition.replay (next InTask .thread .fairReentrantWriter) r.2
          [.acquire 3 .read .forever false, .resume 1 false]).map fun c'' =>
            ((r.1, LockClass.fairReentrantWriter.owner c.lock,
                LockClass.fairReentrantWriter.owner r.2.lock),
              (c.lock.queue .read, r.2.lock.queue .read, c''.lock.queue .read),
              c.lock.waiter .read 1, r.2.lock.waiter .read 1)) =
      some ((.refused, some 0, some 0), ([1], [], [3, 1]), .pending, .woken) := by
    decide
  obtain ⟨c, hc, hrun⟩ := Option.bind_eq_some_iff.1 hrun
  obtain ⟨⟨o, c'⟩, hst, hrun⟩ := Option.bind_eq_some_iff.1 hrun
  obtain ⟨c'', hc'', hval⟩ := Option.map_eq_some_iff.1 hrun
  simp only [Prod.mk.injEq] at hval
  obtain ⟨⟨rfl, ho, ho'⟩, ⟨hq, hq', hq''⟩, hpend, hwoken⟩ := hval
  exact ⟨c, c', c'', ⟨_, _, rfl, run_of_replay hc⟩, hst, ho, ho', by simp [hq], by simp [hq'],
    ⟨hpend, hwoken⟩, run_of_replay hc'', hq''⟩

end System

end Rwlocker

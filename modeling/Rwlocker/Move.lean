/-
# What a step can do

`Move` lists, once, everything a thread or task can do to a lock: register,
park, end a wait, enter or give up, be timed out or cancelled, clear the marker,
release, downgrade.  Each constructor says when the move happens and what it
leaves behind; the guards are the facts the invariants need, already freed from
the eight `_can_…` methods.

A step of a thread or task is at most two moves, or changes nothing
(`System.Step.moves`).  So a property that every move keeps holds in every
reachable state, and no later proof unfolds a step.
-/

import Rwlocker.WellFormed

namespace Rwlocker

open ReadersWriter (Holds)

variable {τ : Type} [DecidableEq τ]

/-- One move of a thread or task (module doc).  `P` is what the callers promise of
whoever makes a write release. -/
inductive Move (P : Holds (Option τ) → Option τ → Prop) (rt : Runtime) (cls : LockClass)
    (c : System τ) : System τ → Prop
  /-- `acquire` is not admitted at once and registers. -/
  | register {t : τ} (m : Mode) (timed : Bool) (hpc : c.pc t = .idle)
      (hst : c.lock.readerOwners.count (some t) = 0 ∧
        ¬ (cls.reentrant = true ∧ cls.owner c.lock = some t)) :
      Move P rt cls c (c.register t m timed)
  /-- `condition.wait()` returns or raises. -/
  | endWait {t : τ} {m : Mode} {seq : ℕ} {timed i : Bool}
      (hpc : c.pc t = .waiting m seq timed i)
      (hon : c.lock.waiter m t = .pending → i = true) :
      Move P rt cls c (c.endWait t m i)
  /-- The wait loop parks. -/
  | park {t : τ} {m : Mode} {seq : ℕ} {timed i : Bool} (hpc : c.pc t = .waiting m seq timed i)
      (hgone : c.lock.waiter m t = .gone)
      (hno : cls.canAcquire m c.lock (some t) true (some seq) = false) :
      Move P rt cls c
        (c.put (c.lock.onQueue m fun q => q.appendWaiter t) t (.waiting m seq timed false))
  /-- The wait loop gives up. -/
  | abort {t : τ} {m : Mode} {seq : ℕ} {timed i : Bool} (hpc : c.pc t = .waiting m seq timed i)
      (hgone : c.lock.waiter m t = .gone) :
      Move P rt cls c (c.abort cls t m seq)
  /-- A reader enters on the fast path. -/
  | enterRead {t : τ} (hpc : c.pc t = .idle)
      (ho : cls.owner c.lock = none ∨ cls.reentrant = true ∧ cls.owner c.lock = some t) :
      Move P rt cls c
        (c.succeed rt t (cls.onReaderEnter false none (c.lock.enterReader (some t))) .read).2
  /-- A waiting reader enters. -/
  | enterReadWaiting {t : τ} {seq : ℕ} {timed i : Bool}
      (hpc : c.pc t = .waiting .read seq timed i) (hgone : c.lock.waiter .read t = .gone)
      (hadm : cls.AdmitsReader c.lock true (some seq)) :
      Move P rt cls c
        (c.succeed rt t ((cls.onReaderEnter true (some seq)
          (c.lock.enterReader (some t))).stopWaiting .read) .read).2
  /-- A writer enters on the fast path. -/
  | enterWrite {t : τ} (hpc : c.pc t = .idle)
      (hadm : cls.AdmitsWriter c.lock ∨
        cls.reentrant = true ∧ cls.owner c.lock = some t) :
      Move P rt cls c (c.succeed rt t (c.lock.ownWriter cls (some t)) .write).2
  /-- A waiting writer enters. -/
  | enterWriteWaiting {t : τ} {seq : ℕ} {timed i : Bool}
      (hpc : c.pc t = .waiting .write seq timed i) (hgone : c.lock.waiter .write t = .gone)
      (hadm : cls.AdmitsWriter c.lock) :
      Move P rt cls c
        (c.succeed rt t ((c.lock.ownWriter cls (some t)).stopWaiting .write) .write).2
  /-- The timeout of a parked thread passes. -/
  | timeout {t : τ} {m : Mode} {seq : ℕ} (hpc : c.pc t = .waiting m seq true false) :
      Move P rt cls c (c.put c.lock t (.waiting m seq true true))
  /-- A parked task is cancelled. -/
  | cancel {t : τ} {m : Mode} {seq : ℕ} {timed : Bool}
      (hpc : c.pc t = .waiting m seq timed false) :
      Move P rt cls c
        (c.put (c.lock.onQueue m fun q => q.cancelWaiter t) t (.waiting m seq timed true))
  /-- A writer that entered clears the downgrade marker. -/
  | clear {t : τ} (hpc : c.pc t = .clearing) :
      Move P rt cls c (c.put { c.lock with downgraded := none } t .idle)
  /-- A write release whose marker points nowhere clears it. -/
  | unmark {t : τ} (hpc : c.pc t = .idle) (hm : c.lock.downgraded = some t)
      (hcount : c.lock.readerOwners.count (some t) = 0) (hP : P c.holds (some t)) :
      Move P rt cls c { c with lock := { c.lock with downgraded := none } }
  /-- A read release. -/
  | releaseRead {t : τ} (hpc : c.pc t = .idle)
      (hcount : 0 < c.lock.readerOwners.count (some t)) :
      Move P rt cls c
        { c with
          lock := cls.onReaderLeave (c.lock.dropReader (some t))
          holds := System.giveBack c.holds (some t) .read }
  /-- A write release routed to the read side by the downgrade marker. -/
  | releaseRouted {t : τ} (hpc : c.pc t = .idle) (hm : c.lock.downgraded = some t)
      (hcount : 0 < c.lock.readerOwners.count (some t)) (hP : P c.holds (some t)) :
      Move P rt cls c
        { c with
          lock := cls.onReaderLeave
            (({ c.lock with downgraded := none } : RWLock τ).dropReader (some t))
          holds := System.giveBack c.holds (some t) .write }
  /-- A write release that is not the owner's last. -/
  | releaseNested {t : τ} (hpc : c.pc t = .idle) (hc : cls.reentrant = true)
      (ho : cls.owner c.lock = some t) (hd : 1 < cls.depth c.lock) (hP : P c.holds (some t)) :
      Move P rt cls c
        { c with
          lock := { c.lock with writeCount := c.lock.writeCount - 1 }
          holds := System.giveBack c.holds (some t) .write }
  /-- The last write release; a plain class takes it from anybody. -/
  | releaseFinal {t : τ} (hpc : c.pc t = .idle) (ho : cls.owner c.lock ≠ none)
      (hr : cls.reentrant = true → cls.owner c.lock = some t) (hd : cls.depth c.lock = 1)
      (hP : P c.holds (some t)) :
      Move P rt cls c
        { c with
          lock := cls.onWriterAbort c.lock.freeWriter none
          holds := System.giveBack c.holds (some t) .write }
  /-- A downgrade. -/
  | downgrade {t : τ} (hpc : c.pc t = .idle) (ho : cls.owner c.lock = some t)
      (hd : cls.depth c.lock = 1) :
      Move P rt cls c
        { c with
          lock := { cls.onDowngrade (c.lock.freeWriter.enterReader (some t)) with
            downgraded := some t }
          holds := System.convert c.holds (some t) }

/-- What a step does: nothing, a move, or two of which the first grants and gives
back nothing. -/
inductive Moves (P : Holds (Option τ) → Option τ → Prop) (rt : Runtime) (cls : LockClass)
    (c c' : System τ) : Prop
  | none (h : c' = c)
  | one (h : Move P rt cls c c')
  | two {c₁ : System τ} (h : Move P rt cls c c₁) (hh : c₁.holds = c.holds)
      (h' : Move P rt cls c₁ c')

variable {P : Holds (Option τ) → Option τ → Prop} {rt : Runtime} {cls : LockClass}
  {c c' : System τ}

omit [DecidableEq τ] in
theorem not_inFlight_of_idle {pc : τ → Pc} {t : τ} (h : pc t = .idle) (m : Mode) :
    ¬ InFlight pc m t :=
  not_inFlight h (by simp) m

namespace WellFormed

variable {s s' : RWLock τ} {pc : τ → Pc} {t : τ}

/-- A bookkeeping move of a caller that is not in flight: it must not hand
anything to the others. -/
theorem move_of_idle (h : WellFormed cls s pc) (ht : ∀ m, ¬ InFlight pc m t)
    (hproxy : s'.proxy = s.proxy) (hb : Books cls s')
    (hcount : ∀ u, u ≠ t → s'.readerOwners.count (some u) ≤ s.readerOwners.count (some u))
    (hown : ∀ u, u ≠ t → cls.owner s' = some u → cls.owner s = some u) :
    WellFormed cls s' pc := by
  refine h.books_move hproxy hb fun m u hu => ?_
  have hut : u ≠ t := by
    rintro rfl
    exact ht m hu
  obtain ⟨h₀, h₁⟩ := h.stranger m u hu
  have := hcount u hut
  exact ⟨by omega, fun ⟨hc, ho⟩ => h₁ ⟨hc, hown u hut ho⟩⟩

theorem enterReader (h : WellFormed cls s pc) (ht : ∀ m, ¬ InFlight pc m t)
    (ho : cls.owner s = none ∨ cls.reentrant = true ∧ cls.owner s = some t) :
    WellFormed cls (s.enterReader (some t)) pc :=
  h.move_of_idle ht rfl (h.books.enterReader (by simp) ho)
    (fun u hu => by simp [RWLock.count_enterReader, hu]) fun _ _ ho => ho

theorem dropReader (h : WellFormed cls s pc) (ht : ∀ m, ¬ InFlight pc m t)
    (hk : 0 < s.readerOwners.count (some t)) : WellFormed cls (s.dropReader (some t)) pc :=
  h.move_of_idle ht rfl (h.books.dropReader hk)
    (fun u hu => by simp [RWLock.count_dropReader, hu]) fun _ _ ho => ho

theorem ownWriter (h : WellFormed cls s pc) (ht : ∀ m, ¬ InFlight pc m t)
    (hadm : cls.AdmitsWriter s ∨ cls.reentrant = true ∧ cls.owner s = some t) :
    WellFormed cls (s.ownWriter cls (some t)) pc := by
  refine h.move_of_idle ht ?_ (h.books.ownWriter (by simp) hadm) (fun u hu => ?_) fun u hu ho => ?_
  · unfold RWLock.ownWriter
    split_ifs <;> rfl
  · unfold RWLock.ownWriter
    split_ifs <;> exact le_rfl
  · rw [LockClass.owner_ownWriter] at ho
    exact absurd (Option.some.inj ho).symm hu

theorem freeWriter (h : WellFormed cls s pc) : WellFormed cls s.freeWriter pc :=
  h.books_move rfl h.books.freeWriter fun m u hu =>
    ⟨(h.stranger m u hu).1, fun ⟨_, ho⟩ => by simp at ho⟩

theorem marker (h : WellFormed cls s pc) (k : Option τ) :
    WellFormed cls { s with downgraded := k } pc :=
  h.books_move rfl (h.books.marker k) h.stranger

theorem countDown (h : WellFormed cls s pc) (hc : cls.reentrant = true)
    (hd : 1 < cls.depth s) : WellFormed cls { s with writeCount := s.writeCount - 1 } pc :=
  h.books_move rfl (h.books.countDown hc (by simpa [LockClass.depth, hc] using hd)) h.stranger

/-- `wait()` ends: the waiter object is gone, and so is its place in the queue. -/
theorem endWait {m : Mode} {seq : ℕ} {timed i : Bool} (h : WellFormed cls s pc)
    (hpc : pc t = .waiting m seq timed i) (hon : s.waiter m t = .pending → i = true) :
    WellFormed cls
      (s.onQueue m fun q => (if i then q.discardWaiter t else q).dropWaiter t) pc := by
  refine h.requeue ⟨seq, timed, i, hpc⟩ ?_ (fun u hu => ?_) (fun u hu => ?_) (fun ht => ?_)
    (fun hp => ?_) fun _ _ _ _ hc => ?_
  · cases i
    · exact h.nodup m
    · exact (h.nodup m).erase t
  · cases i
    · exact Iff.rfl
    · exact List.mem_erase_of_ne hu
  · cases i <;> exact Function.update_of_ne hu ..
  · cases i
    · rcases h.queued m t ht with hp | hc
      · exact absurd (hon hp) (by decide)
      · exact absurd (h.cancelled m t _ _ _ hpc hc) (by decide)
    · exact absurd ht (h.nodup m).not_mem_erase
  · cases i <;> simp [WaitQueue.dropWaiter] at hp
  · cases i <;> simp [WaitQueue.dropWaiter] at hc

/-- A call whose waiter object is gone is in no queue. -/
theorem not_mem_of_gone {m : Mode} (h : WellFormed cls s pc) (hg : s.waiter m t = .gone) :
    t ∉ s.queue m := by
  intro ht
  rcases h.queued m t ht with h' | h' <;> rw [hg] at h' <;> cases h'

/-- A call parks: a fresh waiter object at the end of the queue. -/
theorem park {m : Mode} {seq : ℕ} {timed i : Bool} (h : WellFormed cls s pc)
    (hpc : pc t = .waiting m seq timed i) (hg : s.waiter m t = .gone) :
    WellFormed cls (s.onQueue m fun q => q.appendWaiter t)
      (Function.update pc t (.waiting m seq timed false)) := by
  have hflag := h.reflag (j := false) hpc (by rw [hg]; decide)
  have hpc' : Function.update pc t (.waiting m seq timed false) t = .waiting m seq timed false :=
    Function.update_self ..
  refine hflag.requeue ⟨_, _, _, hpc'⟩ ?_ (fun u hu => ?_) (fun u hu => ?_) (fun _ => .inl ?_)
    (fun _ => ?_) fun _ _ _ _ hc => ?_
  · exact List.nodup_append.2 ⟨h.nodup m, List.nodup_singleton t, by
      rintro a ha b hb rfl
      exact h.not_mem_of_gone hg (List.mem_singleton.1 hb ▸ ha)⟩
  · simp [WaitQueue.appendWaiter, hu]
  · exact Function.update_of_ne hu ..
  · exact Function.update_self ..
  · simp [WaitQueue.appendWaiter]
  · simp [WaitQueue.appendWaiter] at hc

/-- A parked task is cancelled. -/
theorem cancel {m : Mode} {seq : ℕ} {timed : Bool} (h : WellFormed cls s pc)
    (hpc : pc t = .waiting m seq timed false) :
    WellFormed cls (s.onQueue m fun q => q.cancelWaiter t)
      (Function.update pc t (.waiting m seq timed true)) := by
  have hflag := h.reflag (j := true) hpc fun _ => rfl
  have hpc' : Function.update pc t (.waiting m seq timed true) t = .waiting m seq timed true :=
    Function.update_self ..
  by_cases hp : s.waiter m t = .pending
  · have hcan : (s.proxy m).condition.cancelWaiter t =
        { (s.proxy m).condition with
          state := Function.update (s.proxy m).condition.state t .cancelled } := if_pos hp
    refine hflag.requeue ⟨_, _, _, hpc'⟩ ?_ (fun u hu => ?_) (fun u hu => ?_) (fun _ => .inr ?_)
      (fun hp' => ?_) fun seq' timed' i' hw _ => ?_ <;> simp only [hcan] at *
    · exact h.nodup m
    · exact Function.update_of_ne hu ..
    · exact Function.update_self ..
    · simp at hp'
    · rw [hpc'] at hw
      cases hw
      rfl
  · have hcan : (s.proxy m).condition.cancelWaiter t = (s.proxy m).condition := if_neg hp
    refine hflag.requeue ⟨_, _, _, hpc'⟩ ?_ (fun u hu => ?_) (fun u hu => ?_) (fun ht => ?_)
      (fun hp' => ?_) fun seq' timed' i' hw _ => ?_ <;> simp only [hcan] at *
    · exact h.nodup m
    · exact h.queued m t ht
    · exact absurd hp' hp
    · rw [hpc'] at hw
      cases hw
      rfl

end WellFormed

omit [DecidableEq τ] in
theorem RWLock.stopWaiting_ownWriter (s : RWLock τ) (m : Mode) (k : Option τ) :
    (s.ownWriter cls k).stopWaiting m = (s.stopWaiting m).ownWriter cls k := by
  unfold RWLock.ownWriter
  split_ifs <;> rfl

omit [DecidableEq τ] in
/-- A writer's admission does not depend on how many writers wait. -/
theorem LockClass.AdmitsWriter.stopWaiting_write {s : RWLock τ} (h : cls.AdmitsWriter s) :
    cls.AdmitsWriter (s.stopWaiting .write) := by
  refine ⟨h.1, h.2.1, ?_⟩
  have h' := h.2.2
  cases hp : cls.policy with
  | write => trivial
  | read | readerPhaseFair | fair =>
      simpa [hp, RWLock.stopWaiting, RWLock.onProxy_proxy] using h'

/-- **Every move keeps the waiters in order.** -/
theorem Move.wellFormed (hmv : Move P rt cls c c') (h : WellFormed cls c.lock c.pc) :
    WellFormed cls c'.lock c'.pc := by
  cases hmv with
  | register m timed hpc hst => exact h.register (not_inFlight_of_idle hpc) hst timed
  | endWait hpc hon => exact h.endWait hpc hon
  | park hpc hgone hno => exact h.park hpc hgone
  | @abort t m seq timed i hpc hgone =>
      have hl := h.leave ⟨_, _, _, hpc⟩ hgone (p := .idle) (by simp)
      cases m with
      | read => exact hl.signals (cls.signals_onReaderAbort _ _)
      | write => exact hl.signals (cls.signals_onWriterAbort _ _)
  | enterRead hpc ho =>
      have ht := not_inFlight_of_idle hpc
      exact ((h.enterReader ht ho).goto ht (by simp)).signals (cls.signals_onReaderEnter ..)
  | @enterReadWaiting t seq timed i hpc hgone hadm =>
      have hl := h.leave ⟨_, _, _, hpc⟩ hgone (p := .idle) (by simp)
      have ht := not_inFlight_of_idle (Function.update_self t Pc.idle c.pc)
      exact (hl.enterReader ht (.inl hadm.1)).signals
        ((cls.signals_onReaderEnter true (some seq) (c.lock.enterReader (some t))).stopWaiting
          .read)
  | enterWrite hpc hadm =>
      have ht := not_inFlight_of_idle hpc
      cases rt with
      | thread => exact (h.ownWriter ht hadm).goto ht (by simp)
      | async => exact ((h.ownWriter ht hadm).goto ht (by simp)).marker none
  | @enterWriteWaiting t seq timed i hpc hgone hadm =>
      have hl := h.leave ⟨_, _, _, hpc⟩ hgone (p := .idle) (by simp)
      have ht := not_inFlight_of_idle (Function.update_self t Pc.idle c.pc)
      have hw := hl.ownWriter ht (.inl (hadm.stopWaiting_write))
      rw [← RWLock.stopWaiting_ownWriter] at hw
      cases rt with
      | thread =>
          have := hw.goto ht (p := .clearing) (by simp)
          rwa [Function.update_idem] at this
      | async => exact hw.marker none
  | timeout hpc => exact h.reflag hpc fun _ => rfl
  | cancel hpc => exact h.cancel hpc
  | clear hpc => exact (h.goto (not_inFlight hpc (by simp)) (by simp)).marker none
  | unmark hpc hm hcount hP => exact h.marker none
  | releaseRead hpc hcount =>
      exact (h.dropReader (not_inFlight_of_idle hpc) hcount).signals (cls.signals_onReaderLeave _)
  | releaseRouted hpc hm hcount hP =>
      exact ((h.marker none).dropReader (not_inFlight_of_idle hpc) hcount).signals
        (cls.signals_onReaderLeave _)
  | releaseNested hpc hc ho hd hP => exact h.countDown hc hd
  | releaseFinal hpc ho hr hd hP => exact h.freeWriter.signals (cls.signals_onWriterAbort _ _)
  | downgrade hpc ho hd =>
      exact ((h.freeWriter.enterReader (not_inFlight_of_idle hpc) (.inl (by simp))).signals
        (cls.signals_onDowngrade _)).marker _

/-- What every move keeps, besides the order of the waiters, a step keeps. -/
theorem Moves.invariant {I : System τ → Prop}
    (hmove : ∀ c c', WellFormed cls c.lock c.pc → I c → Move P rt cls c c' → I c')
    (hmv : Moves P rt cls c c') (hw : WellFormed cls c.lock c.pc) (hI : I c) : I c' := by
  cases hmv with
  | none h => exact h ▸ hI
  | one h => exact hmove _ _ hw hI h
  | two h _ h' => exact hmove _ _ (h.wellFormed hw) (hmove _ _ hw hI h) h'

theorem Moves.wellFormed (hmv : Moves P rt cls c c') (h : WellFormed cls c.lock c.pc) :
    WellFormed cls c'.lock c'.pc :=
  hmv.invariant (I := fun c => WellFormed cls c.lock c.pc) (fun _ _ _ h hmv => hmv.wellFormed h)
    h h

/-! ### Every step is a sequence of moves -/

namespace System

variable {t : τ} {m : Mode} {seq : ℕ} {timed i : Bool}

/-- A test of `_can_acquire` in the wait loop is a test of the lock alone: the
caller holds nothing. -/
theorem canAcquire_iff (h : WellFormed cls c.lock c.pc) (ht : InFlight c.pc m t) (seq : ℕ) :
    cls.canAcquire m c.lock (some t) true (some seq) = true ↔ cls.Admits m c.lock seq := by
  obtain ⟨hcount, hown⟩ := h.stranger m t ht
  cases m with
  | read =>
      refine (h.books.canRead_iff (by simp) true (some seq)).trans ?_
      simp [LockClass.Admits, hcount, hown]
  | write =>
      refine (h.books.canWrite_iff (by simp) true (some seq)).trans ?_
      simp [LockClass.Admits, hown]

/-- The wait loop enters, gives up or parks. -/
theorem acquireLoop_move (h : WellFormed cls c.lock c.pc)
    (hpc : c.pc t = .waiting m seq timed i) (hgone : c.lock.waiter m t = .gone)
    (expired : Bool) : Move P rt cls c (c.acquireLoop rt cls t m seq timed expired).2 := by
  unfold acquireLoop
  by_cases hcan : cls.canAcquire m c.lock (some t) true (some seq) = true
  · rw [if_pos hcan]
    have hadm := (canAcquire_iff h ⟨_, _, _, hpc⟩ seq).1 hcan
    cases m with
    | read =>
        have hmv : Move P rt cls c _ := .enterReadWaiting hpc hgone hadm
        rwa [← LockClass.acquireReadCore_eq] at hmv
    | write =>
        have hmv : Move P rt cls c _ := .enterWriteWaiting hpc hgone hadm
        rwa [← LockClass.acquireWriteCore_eq c.lock (some t) true (some seq)] at hmv
  · rw [if_neg hcan]
    by_cases hexp : (timed && expired) = true
    · rw [if_pos hexp]
      exact .abort hpc hgone
    · rw [if_neg hexp]
      exact .park hpc hgone (by simpa using hcan)

/-- A call that may not enter at once is a stranger to the lock. -/
theorem stranger_of_refused (h : Books cls c.lock)
    (hb : cls.beforeAcquire m c.lock (some t) = .ok ())
    (hcan : ¬ cls.canAcquire m c.lock (some t) false none = true) :
    c.lock.readerOwners.count (some t) = 0 ∧
      ¬ (cls.reentrant = true ∧ cls.owner c.lock = some t) := by
  cases m with
  | read =>
      have hno : ¬ cls.canRead c.lock (some t) false none = true := hcan
      rw [h.canRead_iff (by simp)] at hno
      simp only [not_or] at hno
      refine ⟨?_, hno.2.1⟩
      by_contra hk
      rcases h.exclusive (some t) (by omega) with ho | ho
      · exact hno.2.2 ⟨ho, by omega⟩
      · exact hno.2.1 ho
  | write =>
      have hno : ¬ cls.canWrite c.lock (some t) false none = true := hcan
      rw [h.canWrite_iff (by simp)] at hno
      simp only [not_or] at hno
      refine ⟨?_, hno.2⟩
      by_contra hk
      have hk' : 0 < c.lock.readerOwners.count (some t) := by omega
      have ho : cls.owner c.lock = none := (h.exclusive (some t) hk').resolve_right hno.2
      have hw : cls.isCurrentWriter c.lock (some t) = false := by
        unfold LockClass.isCurrentWriter
        unfold LockClass.owner at ho
        split_ifs at ho ⊢ <;> simp [ho]
      simp [LockClass.beforeAcquire, LockClass.checkWriteAcquireAllowed, h.readersActive_pos hk',
        RWLock.isCurrentReader, hk', hw] at hb

/-- A call of `acquire` raises, enters, is refused, or registers and runs its
wait loop. -/
theorem acquire_moves (h : WellFormed cls c.lock c.pc) (hpc : c.pc t = .idle) (p : Patience)
    (expired : Bool) : Moves P rt cls c (c.acquire rt cls t m p expired).2 := by
  unfold acquire
  cases hb : cls.beforeAcquire m c.lock (some t) with
  | error e => exact .none rfl
  | ok u =>
      dsimp only
      by_cases hcan : cls.canAcquire m c.lock (some t) false none = true
      · rw [if_pos hcan]
        cases m with
        | read =>
            have ho : cls.owner c.lock = none ∨
                cls.reentrant = true ∧ cls.owner c.lock = some t := by
              rcases (h.books.canRead_iff (by simp) false none).1 hcan with ho | ho | ho
              · exact .inl ho.1
              · exact .inr ho
              · exact .inl ho.1
            have hmv : Move P rt cls c _ := .enterRead hpc ho
            rw [← LockClass.acquireReadCore_eq] at hmv
            exact .one hmv
        | write =>
            have hadm := (h.books.canWrite_iff (by simp) false none).1 hcan
            have hmv : Move P rt cls c _ := .enterWrite hpc hadm
            rw [← LockClass.acquireWriteCore_eq c.lock (some t) false none] at hmv
            exact .one hmv
      · rw [if_neg hcan]
        by_cases hp : p = .nonblocking
        · rw [if_pos hp]
          exact .none rfl
        · rw [if_neg hp]
          have hst := stranger_of_refused h.books hb hcan
          have hreg : Move P rt cls c (c.register t m (p = .timed)) := .register m _ hpc hst
          have hgone : (c.register t m (p = .timed)).lock.waiter m t = .gone := by
            by_contra hg
            refine not_inFlight_of_idle hpc m (h.live m t ?_)
            simpa [register, put] using hg
          exact .two hreg rfl
            (acquireLoop_move (hreg.wellFormed h) (Function.update_self ..) hgone expired)

/-- A parked call that goes on ends its wait, and gives up or runs its wait loop. -/
theorem resume_moves (h : WellFormed cls c.lock c.pc) (hpc : c.pc t = .waiting m seq timed i)
    (hon : c.lock.waiter m t = .pending → i = true) (expired : Bool) :
    Moves P rt cls c (c.resume rt cls t m seq timed i expired).2 := by
  have hend : Move P rt cls c (c.endWait t m i) := .endWait hpc hon
  have hgone : (c.endWait t m i).lock.waiter m t = .gone := by
    simp only [endWait, RWLock.waiter_onQueue, if_true]
    cases i <;> simp [WaitQueue.dropWaiter]
  unfold resume
  dsimp only
  split_ifs
  · exact .two hend rfl (.abort hpc hgone)
  · exact .two hend rfl (acquireLoop_move (hend.wellFormed h) hpc hgone expired)

/-- `_release_write_core` moves the lock or leaves it alone. -/
theorem releaseWriteCore_moves (rt : Runtime) (h : Books cls c.lock) (hpc : c.pc t = .idle)
    (hP : P c.holds (some t)) :
    (∃ e, cls.releaseWriteCore c.lock (some t) = .error e) ∨
      ∃ s, cls.releaseWriteCore c.lock (some t) = .ok s ∧
        Move P rt cls c { c with lock := s, holds := giveBack c.holds (some t) .write } := by
  rw [LockClass.releaseWriteCore_spec h (by simp)]
  split_ifs with he hd
  · exact .inl ⟨_, rfl⟩
  · simp only [not_or, not_and, not_not] at he
    have hc : cls.reentrant = true := by
      by_contra hc
      have := Books.depth_le_one (by simpa using hc) c.lock
      omega
    exact .inr ⟨_, rfl, .releaseNested hpc hc (he.2 hc) hd hP⟩
  · simp only [not_or, not_and, not_not] at he
    have := h.depth_pos he.1
    exact .inr ⟨_, rfl, .releaseFinal hpc he.1 he.2 (by omega) hP⟩

theorem release_moves (h : WellFormed cls c.lock c.pc) (hpc : c.pc t = .idle)
    (hP : m = .write → P c.holds (some t)) :
    Moves P rt cls c (c.release cls (some t) m).2 := by
  unfold release
  cases m with
  | read =>
      simp only [LockClass.release, LockClass.releaseReadCore_spec]
      split_ifs with hk
      · exact .none rfl
      · exact .one (.releaseRead hpc (by omega))
  | write =>
      simp only [LockClass.release]
      by_cases hm : c.lock.downgraded = some t
      · simp only [if_pos hm, LockClass.releaseReadCore_spec]
        by_cases hk : c.lock.readerOwners.count (some t) = 0
        · have hun : Move P rt cls c _ := .unmark hpc hm hk (hP rfl)
          rw [if_pos hk]
          rcases releaseWriteCore_moves rt (hun.wellFormed h).books hpc (hP rfl) with
            ⟨e, he⟩ | ⟨s, hs, hmv⟩
          · rw [he]
            exact .one hun
          · rw [hs]
            exact .two hun rfl hmv
        · rw [if_neg hk]
          exact .one (.releaseRouted hpc hm (by omega) (hP rfl))
      · simp only [if_neg hm]
        rcases releaseWriteCore_moves rt h.books hpc (hP rfl) with ⟨e, he⟩ | ⟨s, hs, hmv⟩
        · rw [he]
          exact .none rfl
        · rw [hs]
          exact .one hmv

theorem downgrade_moves (h : Books cls c.lock) (hpc : c.pc t = .idle) :
    Moves P rt cls c (c.downgrade cls (some t)).2 := by
  simp only [downgrade, LockClass.downgrade,
    LockClass.downgradeCore_spec h (show some t ≠ none by simp)]
  split_ifs with ho
  · exact .one (.downgrade hpc ho.1 ho.2)
  · exact .none rfl

/-- **Every step of a thread or task is at most two moves.** -/
theorem Step.moves {a : Action τ} (hst : Step rt cls c a c') (h : WellFormed cls c.lock c.pc)
    (ha : a.caller ≠ none) (hP : ∀ k, a = .release k .write → P c.holds k) :
    Moves P rt cls c c' := by
  obtain ⟨o, hst⟩ := hst
  cases a with
  | acquire t m p expired =>
      simp only [step] at hst
      split_ifs at hst with hg
      obtain rfl : (c.acquire rt cls t m p expired).2 = c' := by
        rw [Option.some.inj hst]
      exact acquire_moves h hg.1 p expired
  | resume t expired =>
      simp only [step] at hst
      split at hst
      · rename_i m seq timed i hpc
        split_ifs at hst with hp
        obtain rfl : (c.resume rt cls t m seq timed i expired).2 = c' := by
          rw [Option.some.inj hst]
        exact resume_moves h hpc (fun hw => by simpa [hw] using hp) expired
      · cases hst
  | interrupt t =>
      simp only [step] at hst
      split at hst
      · rename_i m seq _ hpc
        split_ifs at hst
        cases hst
        exact .one (.timeout hpc)
      · rename_i m seq timed _ hpc
        cases hst
        exact .one (.cancel hpc)
      · cases hst
  | clear t =>
      simp only [step] at hst
      split_ifs at hst with hpc
      cases hst
      exact .one (.clear hpc)
  | release k m =>
      obtain ⟨t, rfl⟩ := Option.ne_none_iff_exists'.1 ha
      simp only [step] at hst
      split_ifs at hst with hpc
      obtain rfl : (c.release cls (some t) m).2 = c' := by
        rw [Option.some.inj hst]
      exact release_moves h (by simpa [canCall] using hpc) fun hm => hP _ (by rw [hm])
  | downgrade k =>
      obtain ⟨t, rfl⟩ := Option.ne_none_iff_exists'.1 ha
      simp only [step] at hst
      split_ifs at hst with hpc
      obtain rfl : (c.downgrade cls (some t)).2 = c' := by
        rw [Option.some.inj hst]
      exact downgrade_moves h.books (by simpa [canCall] using hpc)

/-- **The waiters are in order in every reachable state.** -/
theorem Reachable.wellFormed (h : Reachable rt cls c) : WellFormed cls c.lock c.pc := by
  refine Transition.Reachable.invariant (I := fun c => WellFormed cls c.lock c.pc) ?_ ?_ h
  · rintro c rfl
    exact .init cls
  · exact fun c a c' h hst =>
      (hst.2.moves (P := fun _ _ => True) h hst.1 fun _ _ => trivial).wellFormed h

/-- **The move rule.**  What holds initially and is kept by every move holds in
every reachable state. -/
theorem Reachable.of_move {I : System τ → Prop} (hinit : I {})
    (hmove : ∀ c c', WellFormed cls c.lock c.pc → I c →
      Move (fun _ _ => True) rt cls c c' → I c')
    (h : Reachable rt cls c) : I c := by
  refine (Transition.Reachable.invariant
    (I := fun c => WellFormed cls c.lock c.pc ∧ I c) ?_ ?_ h).2
  · rintro c rfl
    exact ⟨.init cls, hinit⟩
  · rintro c a c' ⟨hw, hI⟩ hst
    have hmv := hst.2.moves (P := fun _ _ => True) hw hst.1 fun _ _ => trivial
    exact ⟨hmv.wellFormed hw, hmv.invariant hmove hw hI⟩

/-- The move rule for runs in which each releases only what it holds. -/
theorem HolderReachable.of_move {I : System τ → Prop} (hinit : I {})
    (hmove : ∀ c c', WellFormed cls c.lock c.pc → I c → Move Holding rt cls c c' → I c')
    (h : HolderReachable rt cls c) : I c := by
  refine (Transition.Reachable.invariant
    (I := fun c => WellFormed cls c.lock c.pc ∧ I c) ?_ ?_ h).2
  · rintro c rfl
    exact ⟨.init cls, hinit⟩
  · rintro c a c' ⟨hw, hI⟩ hst
    have hmv := hst.2.moves (P := Holding) hw hst.1.1 fun k hk => by
      have := hst.1.2
      rwa [hk] at this
    exact ⟨hmv.wellFormed hw, hmv.invariant hmove hw hI⟩

end System

end Rwlocker

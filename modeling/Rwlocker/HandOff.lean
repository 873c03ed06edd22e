/-
# Handing the lock on

No wakeup is lost when two things hold in every reachable state.

* `WriterCovered`: while a writer sleeps, the lock admits no writer, or some
  waiting writer is on its way to run and will look.
* `ReaderCovered`: no sleeping reader could be admitted.

A waiter goes to sleep only after the lock refused it, so what has to be shown
is that whatever lets the lock admit again wakes somebody.  That is the work of
five hooks: `onWriterAbort` (also the last statement of a write release),
`onReaderAbort`, `onReaderLeave`, `onDowngrade` and `onReaderEnter`.  Each has
its lemma, by policy.
-/

import Rwlocker.Move

namespace Rwlocker

open ReadersWriter (Holds)
open RWLock (Signals)

variable {τ : Type} [DecidableEq τ]

/-- While a writer sleeps, the lock admits none or a waiting writer is on its way. -/
def WriterCovered (cls : LockClass) (s : RWLock τ) (pc : τ → Pc) : Prop :=
  (∃ t, Asleep s pc .write t) → ¬ cls.AdmitsWriter s ∨ ∃ u, OnWay s pc .write u

/-- No sleeping reader would be admitted. -/
def ReaderCovered (cls : LockClass) (s : RWLock τ) (pc : τ → Pc) : Prop :=
  ∀ t seq timed i, Asleep s pc .read t → pc t = .waiting .read seq timed i →
    ¬ cls.AdmitsReader s true (some seq)

/-- The reader phase goes on or ends: no turn begins and no slot appears. -/
def PhaseShrinks (s s' : RWLock τ) : Prop :=
  s'.readersTurn = true → s.readersTurn = true ∧
    s'.readerPhaseCutoff = s.readerPhaseCutoff ∧ s'.readerPhasePending ≤ s.readerPhasePending

variable {cls : LockClass} {s s' s'' : RWLock τ} {pc pc' : τ → Pc} {m : Mode} {t u : τ} {p : Pc}

/-! ### Sleepers through a step -/

omit [DecidableEq τ] in
/-- Whoever sleeps is in a call. -/
theorem Asleep.inFlight (h : Asleep s pc m t) : InFlight pc m t := by
  obtain ⟨-, seq, timed, h⟩ := h
  exact ⟨seq, timed, false, h⟩

/-- A sleeper is counted and queued. -/
theorem WellFormed.hasWaiters_of_asleep (h : WellFormed cls s pc) (ht : Asleep s pc m t) :
    0 < (s.proxy m).thoseWaiting ∧ (s.proxy m).condition.hasWaiters = true := by
  refine ⟨h.thoseWaiting_pos ht.inFlight, (WaitQueue.hasWaiters_iff _).2 ?_⟩
  exact List.ne_nil_of_mem (h.mem_of_asleep ht)

omit [DecidableEq τ] in
/-- Whoever sleeps after a signal slept before it. -/
theorem RWLock.Signals.asleep (hs : Signals s s') (ht : Asleep s' pc m t) : Asleep s pc m t :=
  ⟨hs.pending ht.1, ht.2⟩

/-- A caller that leaves or stays outside `acquire` does not sleep; the others
sleep on. -/
theorem Asleep.of_update (hp : ∀ m seq timed i, p ≠ .waiting m seq timed i)
    (h : Asleep s (Function.update pc t p) m u) :
    Asleep s pc m u ∧ Function.update pc t p u = pc u := by
  have hut : u ≠ t := by
    rintro rfl
    exact not_inFlight_update hp m h.inFlight
  obtain ⟨hw, seq, timed, hpc⟩ := h
  rw [Function.update_of_ne hut] at hpc
  exact ⟨⟨hw, seq, timed, hpc⟩, Function.update_of_ne hut ..⟩

/-- A move of somebody else leaves a caller on its way. -/
theorem OnWay.update (hu : OnWay s pc m u) (hut : u ≠ t) :
    OnWay s (Function.update pc t p) m u := by
  refine ⟨(inFlight_update_of_ne p hut m).2 hu.1, fun ⟨hw, seq, timed, hpc⟩ => hu.2 ?_⟩
  rw [Function.update_of_ne hut] at hpc
  exact ⟨hw, seq, timed, hpc⟩

/-- **A notify wakes somebody** if anybody sleeps. -/
theorem WellFormed.onWay_notify (h : WellFormed cls s pc) (ht : Asleep s pc m t) {n : ℤ}
    (hn : 0 < n) : ∃ u, OnWay (s.notify m n) pc m u := by
  obtain ⟨u, hu, -, hw⟩ := WaitQueue.notify_wakes hn ⟨t, h.mem_of_asleep ht, ht.1⟩
  have hwoken : (s.notify m n).waiter m u = .woken := by
    rwa [RWLock.notify, RWLock.waiter_onQueue, if_pos rfl]
  refine ⟨u, h.inFlight_of_mem hu, ?_⟩
  rintro ⟨hp, -⟩
  rw [hwoken] at hp
  cases hp

/-- An empty queue has no sleepers. -/
theorem WellFormed.not_asleep (h : WellFormed cls s pc) (hq : s.queue m = []) :
    ¬ Asleep s pc m t := fun ht => by
  have := h.mem_of_asleep ht
  rw [hq] at this
  exact List.not_mem_nil this

/-! ### Sufficient conditions -/

omit [DecidableEq τ] in
/-- An owned lock admits no writer. -/
theorem WriterCovered.of_owner (ho : cls.owner s ≠ none) : WriterCovered cls s pc :=
  fun _ => .inl fun h => ho h.1

omit [DecidableEq τ] in
/-- A lock that is read admits no writer. -/
theorem WriterCovered.of_reading (hra : s.readersActive ≠ 0) : WriterCovered cls s pc :=
  fun _ => .inl fun h => hra h.2.1

/-- Nobody sleeps where nobody waits. -/
theorem WriterCovered.of_not_waiting (h : WellFormed cls s pc)
    (hno : ¬ (0 < s.write.thoseWaiting ∧ s.write.condition.hasWaiters = true)) :
    WriterCovered cls s pc :=
  fun ⟨_, ht⟩ => absurd (h.hasWaiters_of_asleep ht) hno

/-- One notify covers the writers. -/
theorem WriterCovered.notify (h : WellFormed cls s pc) :
    WriterCovered cls (s.notify .write 1) pc := fun ⟨_, ht⟩ =>
  .inr (h.onWay_notify ((RWLock.Signals.notify s .write 1).asleep ht) Int.one_pos)

omit [DecidableEq τ] in
/-- The writers stay covered if nobody falls asleep, nobody on its way vanishes
and the lock does not open. -/
theorem WriterCovered.mono (h : WriterCovered cls s pc)
    (hsub : ∀ u, Asleep s' pc' .write u → Asleep s pc .write u)
    (hway : ∀ u, OnWay s pc .write u → OnWay s' pc' .write u)
    (hadm : cls.AdmitsWriter s' → cls.AdmitsWriter s) : WriterCovered cls s' pc' := by
  rintro ⟨t, ht⟩
  rcases h ⟨t, hsub t ht⟩ with hno | ⟨u, hu⟩
  · exact .inl (mt hadm hno)
  · exact .inr ⟨u, hway u hu⟩

omit [DecidableEq τ] in
/-- An owned lock admits no reader. -/
theorem ReaderCovered.of_owner (ho : cls.owner s ≠ none) : ReaderCovered cls s pc :=
  fun _ _ _ _ _ _ h => ho h.1

/-- With an empty queue nobody sleeps. -/
theorem ReaderCovered.of_empty (h : WellFormed cls s pc) (hq : s.queue .read = []) :
    ReaderCovered cls s pc :=
  fun _ _ _ _ ht _ => absurd ht (h.not_asleep hq)

omit [DecidableEq τ] in
/-- The readers stay covered if nobody falls asleep and the lock does not open. -/
theorem ReaderCovered.mono (h : ReaderCovered cls s pc)
    (hsub : ∀ u, Asleep s' pc' .read u → Asleep s pc .read u ∧ pc' u = pc u)
    (hadm : ∀ seq, cls.AdmitsReader s' true (some seq) → cls.AdmitsReader s true (some seq)) :
    ReaderCovered cls s' pc' := by
  intro u seq timed i hu hpc
  obtain ⟨hu, heq⟩ := hsub u hu
  exact mt (hadm seq) (h u seq timed i hu (heq ▸ hpc))

/-! ### The phase through a signal -/

omit [DecidableEq τ] in
/-- Nothing happens to the phase. -/
theorem PhaseShrinks.refl (s : RWLock τ) : PhaseShrinks s s := fun h => ⟨h, rfl, le_rfl⟩

omit [DecidableEq τ] in
/-- The phase shrinks, and shrinks again. -/
theorem PhaseShrinks.trans (h : PhaseShrinks s s') (h' : PhaseShrinks s' s'') :
    PhaseShrinks s s'' := by
  intro ht
  obtain ⟨h₁, h₂, h₃⟩ := h' ht
  obtain ⟨h₄, h₅, h₆⟩ := h h₁
  exact ⟨h₄, h₂.trans h₅, h₃.trans h₆⟩

omit [DecidableEq τ] in
/-- The phase shrinks on both branches of a test. -/
theorem PhaseShrinks.ite {q : Prop} [Decidable q] (h : PhaseShrinks s s')
    (h' : PhaseShrinks s s'') : PhaseShrinks s (if q then s' else s'') := by
  split_ifs
  · exact h
  · exact h'

omit [DecidableEq τ] in
/-- The turn ends. -/
theorem PhaseShrinks.off (h : s'.readersTurn = false) : PhaseShrinks s s' := fun ht => by
  rw [h] at ht
  cases ht

/-- A notify leaves the phase alone. -/
theorem PhaseShrinks.notify (s : RWLock τ) (m : Mode) (n : ℤ) : PhaseShrinks s (s.notify m n) :=
  .refl s

omit [DecidableEq τ] in
/-- A lock whose phase shrinks does not open to waiting readers. -/
theorem LockClass.AdmitsReader.of_shrinks (hs : RWLock.Signals s s') (hph : PhaseShrinks s s')
    {seq : ℕ} (h : cls.AdmitsReader s' true (some seq)) :
    cls.AdmitsReader s true (some seq) := by
  refine ⟨(hs.owner cls).symm.trans h.1, ?_⟩
  have h' := h.2
  have hw := hs.thoseWaiting .write
  cases hp : cls.policy with
  | write => simpa [hp, hw] using h'
  | read => trivial
  | readerPhaseFair =>
      simp only [hp, hw] at h' ⊢
      exact h'.imp_left fun ht => (hph ht).1
  | fair =>
      simp only [hp, hw] at h' ⊢
      refine h'.imp_right fun ⟨ht, hr⟩ => ?_
      obtain ⟨h₁, h₂, h₃⟩ := hph ht
      rw [RWLockFairMixin.isReservedReader_iff] at hr ⊢
      rw [h₂] at hr
      exact ⟨h₁, h₁, hr.2.1, by omega⟩

/-! ### The hooks only shrink the phase, except where a phase begins -/

/-- Waking the readers leaves the turn on. -/
theorem RWLockReaderPhaseFairMixin.shrinks_wakeWaitingReader (s : RWLock τ) :
    PhaseShrinks s (wakeWaitingReader s) :=
  .ite (.notify s .read _) (.refl s)

/-- The turn goes on or ends. -/
theorem RWLockReaderPhaseFairMixin.shrinks_finishOrContinueReaderPhase (s : RWLock τ) :
    PhaseShrinks s (finishOrContinueReaderPhase s) :=
  .ite (shrinks_wakeWaitingReader s)
    ((PhaseShrinks.off rfl).trans (.ite (.notify _ .write 1) (.refl _)))

/-- Waking the readers leaves the phase alone. -/
theorem RWLockFairMixin.shrinks_wakeWaitingReader (s : RWLock τ) :
    PhaseShrinks s (wakeWaitingReader s) :=
  .ite (.refl s) (.notify s .read _)

/-- The phase goes on or ends. -/
theorem RWLockFairMixin.shrinks_finishOrContinueReaderPhase (s : RWLock τ) :
    PhaseShrinks s (finishOrContinueReaderPhase s) :=
  .ite (shrinks_wakeWaitingReader s)
    ((PhaseShrinks.off rfl).trans (.ite (.notify _ .write 1) (.refl _)))

omit [DecidableEq τ] in
/-- Spending a slot shrinks the phase. -/
theorem PhaseShrinks.spend (s : RWLock τ) :
    PhaseShrinks s { s with readerPhasePending := s.readerPhasePending - 1 } :=
  fun h => ⟨h, rfl, by dsimp only; omega⟩

namespace LockClass

/-- A reader that enters begins no phase. -/
theorem shrinks_onReaderEnter (cls : LockClass) (waiting : Bool) (waiterSeq : Option ℕ)
    (s : RWLock τ) : PhaseShrinks s (cls.onReaderEnter waiting waiterSeq s) := by
  unfold onReaderEnter
  cases cls.policy with
  | write | read => exact .refl s
  | readerPhaseFair =>
      exact .ite (RWLockReaderPhaseFairMixin.shrinks_wakeWaitingReader s) (.refl s)
  | fair =>
      exact (PhaseShrinks.ite (.spend s) (.refl s)).trans
        (.ite (RWLockFairMixin.shrinks_wakeWaitingReader _) (.refl _))

/-- A reader that leaves begins no phase. -/
theorem shrinks_onReaderLeave (cls : LockClass) (s : RWLock τ) :
    PhaseShrinks s (cls.onReaderLeave s) := by
  unfold onReaderLeave
  cases cls.policy with
  | write | read => exact .ite (.notify s .write 1) (.refl s)
  | readerPhaseFair =>
      exact .ite (RWLockReaderPhaseFairMixin.shrinks_finishOrContinueReaderPhase s) (.refl s)
  | fair => exact .ite (RWLockFairMixin.shrinks_finishOrContinueReaderPhase s) (.refl s)

/-- A reader that gives up begins no phase. -/
theorem shrinks_onReaderAbort (cls : LockClass) (s : RWLock τ) (waiterSeq : Option ℕ) :
    PhaseShrinks s (cls.onReaderAbort s waiterSeq) := by
  cases cls with
  | write | writeReentrantWriter => exact .refl s
  | read | readReentrantWriter => exact .ite (.notify s .write 1) (.refl s)
  | readerPhaseFair | readerPhaseFairReentrantWriter =>
      exact .ite (RWLockReaderPhaseFairMixin.shrinks_finishOrContinueReaderPhase s) (.refl s)
  | fair | fairReentrantWriter =>
      exact (PhaseShrinks.ite (.spend s) (.refl s)).trans
        (.ite (RWLockFairMixin.shrinks_wakeWaitingReader _)
          (.ite (RWLockFairMixin.shrinks_finishOrContinueReaderPhase _) (.refl _)))

end LockClass

/-! ### What each hook hands on -/

/-- Notifying a writer if one waits covers the writers. -/
theorem WriterCovered.notifyIfWaiting (h : WellFormed cls s pc) :
    WriterCovered cls
      (if decide (0 < s.write.thoseWaiting) && s.write.condition.hasWaiters then s.notify .write 1
        else s) pc := by
  split_ifs with hw
  · exact .notify h
  · exact .of_not_waiting h (by simpa using hw)

/-- Waiting readers come first: they are served by `X`, or nobody waits to read
and a writer is notified. -/
theorem covered_readersFirst {X : RWLock τ} (h : WellFormed cls s pc)
    (hX : 0 < s.read.thoseWaiting → WriterCovered cls X pc ∧ ReaderCovered cls X pc) :
    WriterCovered cls
      (if decide (0 < s.read.thoseWaiting) && s.read.condition.hasWaiters then X
        else if s.write.condition.hasWaiters then s.notify .write 1 else s) pc ∧
    ReaderCovered cls
      (if decide (0 < s.read.thoseWaiting) && s.read.condition.hasWaiters then X
        else if s.write.condition.hasWaiters then s.notify .write 1 else s) pc := by
  split_ifs with hr hw
  · exact hX (by simpa using (Bool.and_eq_true_iff.1 hr).1)
  · refine ⟨.notify h, fun u seq timed i hu _ => ?_⟩
    have := h.hasWaiters_of_asleep ((RWLock.Signals.notify s .write 1).asleep hu)
    simp [this] at hr
  · refine ⟨.of_not_waiting h fun hno => hw hno.2, fun u seq timed i hu _ => ?_⟩
    have := h.hasWaiters_of_asleep hu
    simp [this] at hr

namespace RWLockReaderPhaseFairMixin

theorem readersTurn_wakeWaitingReader (s : RWLock τ) :
    (wakeWaitingReader s).readersTurn = s.readersTurn := by
  unfold wakeWaitingReader
  split_ifs <;> rfl

theorem readersTurn_startReaderPhase (s : RWLock τ) : (startReaderPhase s).readersTurn = true :=
  readersTurn_wakeWaitingReader _

omit [DecidableEq τ] in
/-- A turn with a waiting reader keeps the writers out. -/
theorem covered_of_turn (hp : cls.policy = .readerPhaseFair) (ht : s.readersTurn = true)
    (hw : 0 < s.read.thoseWaiting) : WriterCovered cls s pc := fun _ => .inl fun hadm => by
  have := hadm.2.2
  simp only [hp] at this
  exact this ⟨ht, hw⟩

/-- The last reader of a phase hands on to a writer, or the phase goes on. -/
theorem covered_finishOrContinueReaderPhase (hp : cls.policy = .readerPhaseFair)
    (h : WellFormed cls s pc) : WriterCovered cls (finishOrContinueReaderPhase s) pc := by
  unfold finishOrContinueReaderPhase
  split_ifs with ht
  · simp only [Bool.and_eq_true, decide_eq_true_eq] at ht
    refine covered_of_turn hp ((readersTurn_wakeWaitingReader s).trans ht.1) ?_
    rw [RWLock.read, (signals_wakeWaitingReader s).thoseWaiting]
    exact ht.2
  · exact .notifyIfWaiting (h.signals (.phase s false s.readerPhaseCutoff s.readerPhasePending))

/-- A phase that begins wakes every sleeping reader. -/
theorem queue_startReaderPhase (h : WellFormed cls s pc) (ho : cls.owner s = none) :
    (startReaderPhase s).queue .read = [] := by
  have hwa := h.books.writerActive_of_owner ho
  have hlen : ((s.queue .read).length : ℤ) ≤ s.read.thoseWaiting := h.length_le .read
  unfold startReaderPhase wakeWaitingReader
  split_ifs with hw
  · rw [RWLock.notifyAll, RWLock.queue_onQueue, if_pos rfl]
    exact WaitQueue.notifyAll_waiters _
  · by_contra hne
    have hpos : 0 < (s.queue .read).length := List.length_pos_iff.2 hne
    have hwait : 0 < s.read.thoseWaiting := by omega
    refine hw ?_
    simp only [hwa, Bool.not_false, Bool.true_and, Bool.and_eq_true, decide_eq_true_eq,
      WaitQueue.hasWaiters_iff]
    exact ⟨hwait, hne⟩

theorem covered_startReaderPhase (hp : cls.policy = .readerPhaseFair)
    (h : WellFormed cls s pc) (ho : cls.owner s = none) (hr : 0 < s.read.thoseWaiting) :
    WriterCovered cls (startReaderPhase s) pc ∧ ReaderCovered cls (startReaderPhase s) pc := by
  have hs := signals_startReaderPhase s
  refine ⟨covered_of_turn hp (readersTurn_startReaderPhase s) ?_,
    .of_empty (h.signals hs) (queue_startReaderPhase h ho)⟩
  rw [RWLock.read, hs.thoseWaiting]
  exact hr

end RWLockReaderPhaseFairMixin

namespace RWLockFairMixin

theorem readersTurn_wakeWaitingReader (s : RWLock τ) :
    (wakeWaitingReader s).readersTurn = s.readersTurn := by
  unfold wakeWaitingReader
  split_ifs <;> rfl

theorem readerPhasePending_wakeWaitingReader (s : RWLock τ) :
    (wakeWaitingReader s).readerPhasePending = s.readerPhasePending := by
  unfold wakeWaitingReader
  split_ifs <;> rfl

theorem readersTurn_startReaderPhase (s : RWLock τ) :
    (startReaderPhase s).readersTurn = decide (0 < s.read.thoseWaiting) := by
  unfold startReaderPhase
  dsimp only
  split_ifs
  · exact readersTurn_wakeWaitingReader _
  · rfl

theorem readerPhasePending_startReaderPhase (s : RWLock τ) :
    (startReaderPhase s).readerPhasePending = s.read.thoseWaiting := by
  unfold startReaderPhase
  dsimp only
  split_ifs
  · exact readerPhasePending_wakeWaitingReader _
  · rfl

omit [DecidableEq τ] in
/-- An open slot keeps the writers out. -/
theorem covered_of_slot (hp : cls.policy = .fair) (ht : s.readersTurn = true)
    (hw : 0 < s.readerPhasePending) : WriterCovered cls s pc := fun _ => .inl fun hadm => by
  have := hadm.2.2
  simp only [hp] at this
  exact this ⟨ht, hw⟩

theorem covered_wakeWaitingReader (hp : cls.policy = .fair)
    (ht : (s.readersTurn && decide (0 < s.readerPhasePending)) = true) :
    WriterCovered cls (wakeWaitingReader s) pc := by
  simp only [Bool.and_eq_true, decide_eq_true_eq] at ht
  refine covered_of_slot hp ((readersTurn_wakeWaitingReader s).trans ht.1) ?_
  rw [readerPhasePending_wakeWaitingReader]
  exact ht.2

/-- The last reader of a phase hands on to a writer, or the phase goes on. -/
theorem covered_finishOrContinueReaderPhase (hp : cls.policy = .fair)
    (h : WellFormed cls s pc) : WriterCovered cls (finishOrContinueReaderPhase s) pc := by
  unfold finishOrContinueReaderPhase
  split_ifs with ht
  · exact covered_wakeWaitingReader hp ht
  · exact .notifyIfWaiting (h.signals (.phase s false 0 0))

/-- Whoever finds a phase after a reader gave up continues or finishes it. -/
theorem covered_continueReaderPhase (hp : cls.policy = .fair) (h : WellFormed cls s pc)
    (hprev : s.readersTurn = false → WriterCovered cls s pc) :
    WriterCovered cls
      (if s.readersTurn && decide (0 < s.readerPhasePending) then wakeWaitingReader s
        else if s.readersTurn && s.readersActive == 0 then finishOrContinueReaderPhase s
        else s) pc := by
  split_ifs with ht hra
  · exact covered_wakeWaitingReader hp ht
  · exact covered_finishOrContinueReaderPhase hp h
  · cases hturn : s.readersTurn with
    | false => exact hprev hturn
    | true => exact .of_reading (by simpa [hturn] using hra)

/-- A phase that begins has a slot for every waiting reader and wakes them all. -/
theorem queue_startReaderPhase (h : WellFormed cls s pc) (ho : cls.owner s = none) :
    (startReaderPhase s).queue .read = [] := by
  have hwa := h.books.writerActive_of_owner ho
  have hlen : ((s.queue .read).length : ℤ) ≤ s.read.thoseWaiting := h.length_le .read
  unfold startReaderPhase
  dsimp only
  split_ifs with hturn
  · unfold wakeWaitingReader
    split_ifs with hno
    · simp only [decide_eq_true_eq] at hturn
      simp only [hwa, Bool.false_or, Bool.or_eq_true, decide_eq_true_eq, Bool.not_eq_true',
        WaitQueue.not_hasWaiters_iff] at hno
      rcases hno with (hno | hno) | hno
      · exact absurd hturn (Int.not_lt.2 hno)
      · exact absurd hturn (Int.not_lt.2 hno)
      · exact hno
    · rw [RWLock.notify, RWLock.queue_onQueue, if_pos rfl]
      refine WaitQueue.notify_waiters_of_length_le ?_
      rw [min_self]
      exact hlen
  · have hnil : (s.queue .read).length = 0 := by
      simp only [decide_eq_true_eq] at hturn
      omega
    exact List.length_eq_zero_iff.1 hnil

theorem covered_startReaderPhase (hp : cls.policy = .fair) (h : WellFormed cls s pc)
    (ho : cls.owner s = none) (hr : 0 < s.read.thoseWaiting) :
    WriterCovered cls (startReaderPhase s) pc ∧ ReaderCovered cls (startReaderPhase s) pc := by
  refine ⟨covered_of_slot hp ?_ ?_,
    .of_empty (h.signals (signals_startReaderPhase s)) (queue_startReaderPhase h ho)⟩
  · rw [readersTurn_startReaderPhase]
    exact decide_eq_true hr
  · rw [readerPhasePending_startReaderPhase]
    exact hr

end RWLockFairMixin

namespace LockClass

/-- **A writer that gives up or releases hands the lock on**, be it to a writer or
to the readers. -/
theorem covered_onWriterAbort (h : WellFormed cls s pc) (ho : cls.owner s = none)
    (waiterSeq : Option ℕ) :
    WriterCovered cls (cls.onWriterAbort s waiterSeq) pc ∧
      ReaderCovered cls (cls.onWriterAbort s waiterSeq) pc := by
  cases cls with
  | write | writeReentrantWriter =>
      show WriterCovered _ (RWLockWriteMixin.onWriterAbort s waiterSeq) pc ∧
        ReaderCovered _ (RWLockWriteMixin.onWriterAbort s waiterSeq) pc
      unfold RWLockWriteMixin.onWriterAbort
      split_ifs with hw hr
      · simp only [Bool.and_eq_true, decide_eq_true_eq] at hw
        refine ⟨.notify h, fun u seq timed i _ _ hadm => ?_⟩
        have hz : (s.notify .write 1).write.thoseWaiting = 0 := hadm.2
        rw [RWLock.write, (Signals.notify s .write 1).thoseWaiting] at hz
        exact absurd hz hw.1.ne'
      · have hs := Signals.notifyAll s .read
        refine ⟨.of_not_waiting (h.signals hs) ?_, .of_empty (h.signals hs) ?_⟩
        · rw [RWLock.write, hs.thoseWaiting]
          simpa [RWLock.notifyAll, RWLock.notify, RWLock.onQueue, RWLock.onProxy_proxy] using hw
        · rw [RWLock.notifyAll, RWLock.queue_onQueue, if_pos rfl]
          exact WaitQueue.notifyAll_waiters _
      · refine ⟨.of_not_waiting h (by simpa using hw), .of_empty h ?_⟩
        simpa using hr
  | read | readReentrantWriter =>
      refine covered_readersFirst h fun hr => ?_
      have hs := Signals.notifyAll s .read
      refine ⟨fun _ => .inl fun hadm => ?_, .of_empty (h.signals hs) ?_⟩
      · have hz : (s.notifyAll .read).read.thoseWaiting = 0 := hadm.2.2
        rw [RWLock.read, hs.thoseWaiting] at hz
        exact absurd hz hr.ne'
      · rw [RWLock.notifyAll, RWLock.queue_onQueue, if_pos rfl]
        exact WaitQueue.notifyAll_waiters _
  | readerPhaseFair | readerPhaseFairReentrantWriter =>
      exact covered_readersFirst h fun hr =>
        RWLockReaderPhaseFairMixin.covered_startReaderPhase rfl h ho hr
  | fair | fairReentrantWriter =>
      exact covered_readersFirst h fun hr => RWLockFairMixin.covered_startReaderPhase rfl h ho hr

/-- The last reader hands the lock on. -/
theorem covered_onReaderLeave (h : WellFormed cls s pc) :
    WriterCovered cls (cls.onReaderLeave s) pc := by
  unfold onReaderLeave
  cases hp : cls.policy with
  | write | read =>
      dsimp only
      unfold RWLockWriteMixin.notifyWriterIfFree
      split_ifs with hw
      · exact .notify h
      · rintro ⟨t, ht⟩
        refine .inl fun hadm => hw ?_
        simp [hadm.2.1, (h.hasWaiters_of_asleep ht).2]
  | readerPhaseFair =>
      dsimp only
      split_ifs with hra
      · exact RWLockReaderPhaseFairMixin.covered_finishOrContinueReaderPhase hp h
      · exact .of_reading (by simpa using hra)
  | fair =>
      dsimp only
      split_ifs with hra
      · exact RWLockFairMixin.covered_finishOrContinueReaderPhase hp h
      · exact .of_reading (by simpa using hra)

/-- A reader that gives up hands on what its registration kept from the writers. -/
theorem covered_onReaderAbort (h : WellFormed cls s pc) (waiterSeq : Option ℕ)
    (hprev : cls.policy ≠ .read → (cls.policy = .readerPhaseFair → s.readersTurn = false) →
      WriterCovered cls s pc) :
    WriterCovered cls (cls.onReaderAbort s waiterSeq) pc := by
  cases cls with
  | write | writeReentrantWriter => exact hprev (by decide) nofun
  | read | readReentrantWriter =>
      show WriterCovered _ (RWLockReadMixin.onReaderAbort s waiterSeq) pc
      unfold RWLockReadMixin.onReaderAbort
      split_ifs with hw
      · exact .notify h
      · rintro ⟨t, ht⟩
        refine .inl fun hadm => hw ?_
        have hz : s.read.thoseWaiting = 0 := hadm.2.2
        simp [hadm.2.1, (h.hasWaiters_of_asleep ht).2, hz]
  | readerPhaseFair | readerPhaseFairReentrantWriter =>
      show WriterCovered _ (RWLockReaderPhaseFairMixin.onReaderAbort s waiterSeq) pc
      unfold RWLockReaderPhaseFairMixin.onReaderAbort
      split_ifs with hw
      · exact RWLockReaderPhaseFairMixin.covered_finishOrContinueReaderPhase rfl h
      · by_cases ht : s.readersTurn = true
        · exact .of_reading (by simpa [ht] using hw)
        · exact hprev (by decide) fun _ => by simpa using ht
  | fair | fairReentrantWriter =>
      show WriterCovered _ (RWLockFairMixin.onReaderAbort s waiterSeq) pc
      have hsp : Signals s (if s.readersTurn &&
          (waiterSeq.any fun seq => decide (seq ≤ s.readerPhaseCutoff)) &&
          decide (0 < s.readerPhasePending) then
            { s with readerPhasePending := s.readerPhasePending - 1 } else s) :=
        .ite (.phase s s.readersTurn s.readerPhaseCutoff (s.readerPhasePending - 1)) (.refl s)
      refine RWLockFairMixin.covered_continueReaderPhase rfl (h.signals hsp) fun ht => ?_
      split_ifs with hspent
      · rw [if_pos hspent] at ht
        simp [show s.readersTurn = false from ht] at hspent
      · exact hprev (by decide) nofun

/-- A downgrade leaves no reader asleep that it could admit. -/
theorem covered_onDowngrade (h : WellFormed cls s pc) (ho : cls.owner s = none) :
    ReaderCovered cls (cls.onDowngrade s) pc := by
  have hs := cls.signals_onDowngrade s
  unfold onDowngrade at hs ⊢
  cases hp : cls.policy with
  | write =>
      simp only [hp] at hs ⊢
      split_ifs at hs ⊢ with hw
      · refine .of_empty (h.signals hs) ?_
        rw [RWLock.notifyAll, RWLock.queue_onQueue, if_pos rfl]
        exact WaitQueue.notifyAll_waiters _
      · intro u seq timed i hu _ hadm
        have hz := hadm.2
        simp only [hp] at hz
        simp [hz, (h.hasWaiters_of_asleep hu).2] at hw
  | read =>
      simp only [hp] at hs ⊢
      split_ifs at hs ⊢ with hw
      · refine .of_empty (h.signals hs) ?_
        rw [RWLock.notifyAll, RWLock.queue_onQueue, if_pos rfl]
        exact WaitQueue.notifyAll_waiters _
      · exact .of_empty h (by simpa using hw)
  | readerPhaseFair =>
      simp only [hp] at hs ⊢
      exact .of_empty (h.signals hs) (RWLockReaderPhaseFairMixin.queue_startReaderPhase h ho)
  | fair =>
      simp only [hp] at hs ⊢
      exact .of_empty (h.signals hs) (RWLockFairMixin.queue_startReaderPhase h ho)

/-- A writer that gives up hands the lock on, or leaves it to its owner. -/
theorem covered_onWriterAbort' (h : WellFormed cls s pc) (waiterSeq : Option ℕ) :
    WriterCovered cls (cls.onWriterAbort s waiterSeq) pc ∧
      ReaderCovered cls (cls.onWriterAbort s waiterSeq) pc := by
  by_cases ho : cls.owner s = none
  · exact covered_onWriterAbort h ho waiterSeq
  · have ho' : cls.owner (cls.onWriterAbort s waiterSeq) ≠ none := by
      rwa [(cls.signals_onWriterAbort s waiterSeq).owner]
    exact ⟨.of_owner ho', .of_owner ho'⟩

end LockClass

end Rwlocker

/-
# The hand-off through a move

Every move keeps the sleepers covered (`Move.covered`).  A move that only touches
its own caller needs no hook (`covered_touch`): what it may not do is let the lock
admit somebody, or take a caller that is on its way off the way.  The other moves
run one of the five hooks, whose lemmas need no more than a well-formed lock.
-/

import Rwlocker.HandOff

namespace Rwlocker

open ReadersWriter (Holds)
open RWLock (Signals)

variable {τ : Type} [DecidableEq τ] {cls : LockClass} {s s' s'' : RWLock τ} {pc pc' : τ → Pc}
  {m : Mode} {t u : τ} {p : Pc}

/-! ### One caller moves -/

/-- Nothing changes for anybody but `t`. -/
def OnlyTouches (t : τ) (s : RWLock τ) (pc : τ → Pc) (s' : RWLock τ) (pc' : τ → Pc) : Prop :=
  ∀ u, u ≠ t → pc' u = pc u ∧ ∀ m, s'.waiter m u = s.waiter m u

section touch

omit [DecidableEq τ]

theorem OnlyTouches.asleep_iff (h : OnlyTouches t s pc s' pc') (hu : u ≠ t) :
    Asleep s' pc' m u ↔ Asleep s pc m u := by
  obtain ⟨hpc, hw⟩ := h u hu
  rw [Asleep, Asleep, hpc, hw]

theorem OnlyTouches.onWay_iff (h : OnlyTouches t s pc s' pc') (hu : u ≠ t) :
    OnWay s' pc' m u ↔ OnWay s pc m u := by
  rw [OnWay, OnWay, h.asleep_iff hu, InFlight, InFlight, (h u hu).1]

/-- A change of one waiter object touches nobody else. -/
theorem OnlyTouches.onQueue {f : WaitQueue τ → WaitQueue τ} (hpc : ∀ u, u ≠ t → pc' u = pc u)
    (hstate : ∀ u, u ≠ t → (f (s.proxy m).condition).state u = s.waiter m u) :
    OnlyTouches t s pc (s.onQueue m f) pc' := by
  refine fun u hu => ⟨hpc u hu, fun m' => ?_⟩
  rw [RWLock.waiter_onQueue]
  split_ifs with hm
  · subst hm
    exact hstate u hu
  · rfl

/-- The writers stay covered when one thread moves, does not fall asleep and
stays on its way if it was. -/
theorem WriterCovered.touch (h : WriterCovered cls s pc) (hf : OnlyTouches t s pc s' pc')
    (hsleep : ¬ Asleep s' pc' .write t)
    (hway : OnWay s pc .write t → OnWay s' pc' .write t)
    (hadm : cls.AdmitsWriter s' → cls.AdmitsWriter s) : WriterCovered cls s' pc' := by
  refine h.mono (fun u hu => ?_) (fun u hu => ?_) hadm
  · exact (hf.asleep_iff fun hut => hsleep (hut ▸ hu)).1 hu
  · by_cases hut : u = t
    · subst hut
      exact hway hu
    · exact (hf.onWay_iff hut).2 hu

theorem ReaderCovered.touch (h : ReaderCovered cls s pc) (hf : OnlyTouches t s pc s' pc')
    (hsleep : ¬ Asleep s' pc' .read t)
    (hadm : ∀ seq, cls.AdmitsReader s' true (some seq) → cls.AdmitsReader s true (some seq)) :
    ReaderCovered cls s' pc' := by
  refine h.mono (fun u hu => ?_) hadm
  have hut : u ≠ t := fun hut => hsleep (hut ▸ hu)
  exact ⟨(hf.asleep_iff hut).1 hu, (hf u hut).1⟩

theorem Asleep.mode_eq {m' : Mode} (h : Asleep s pc m t) (h' : InFlight pc m' t) : m = m' :=
  h.inFlight.mode_eq h'

theorem not_asleep_of_gone (h : ∀ m, s.waiter m t = .gone) : ¬ Asleep s pc m t := by
  rintro ⟨hp, -⟩
  rw [h m] at hp
  cases hp

end touch

namespace LockClass

omit [DecidableEq τ]

/-- Who writes is a matter of the owner, the readers and the phase. -/
theorem AdmitsWriter.congr (h : cls.AdmitsWriter s') (ho : cls.owner s' = cls.owner s)
    (hra : s'.readersActive = s.readersActive) (hturn : s'.readersTurn = s.readersTurn)
    (hpend : s'.readerPhasePending = s.readerPhasePending)
    (hw : s'.read.thoseWaiting = s.read.thoseWaiting) : cls.AdmitsWriter s := by
  unfold AdmitsWriter at h ⊢
  rwa [← ho, ← hra, ← hturn, ← hpend, ← hw]

theorem AdmitsReader.congr {waiting : Bool} {waiterSeq : Option ℕ}
    (h : cls.AdmitsReader s' waiting waiterSeq) (ho : cls.owner s' = cls.owner s)
    (hturn : s'.readersTurn = s.readersTurn)
    (hcut : s'.readerPhaseCutoff = s.readerPhaseCutoff)
    (hpend : s'.readerPhasePending = s.readerPhasePending)
    (hw : s'.write.thoseWaiting = s.write.thoseWaiting) : cls.AdmitsReader s waiting waiterSeq := by
  unfold AdmitsReader RWLockFairMixin.isReservedReader at h ⊢
  rwa [← ho, ← hturn, ← hcut, ← hpend, ← hw]

/-- Queues do not matter to who is admitted. -/
theorem admitsWriter_onQueue {f : WaitQueue τ → WaitQueue τ} :
    cls.AdmitsWriter (s.onQueue m f) ↔ cls.AdmitsWriter s := by
  constructor <;> intro h <;> exact h.congr rfl rfl rfl rfl (by simp)

theorem admitsReader_onQueue {f : WaitQueue τ → WaitQueue τ} {waiting : Bool}
    {waiterSeq : Option ℕ} : cls.AdmitsReader (s.onQueue m f) waiting waiterSeq ↔
      cls.AdmitsReader s waiting waiterSeq := by
  constructor <;> intro h <;> exact h.congr rfl rfl rfl rfl (by simp)

/-- A registration does not open the lock. -/
theorem AdmitsWriter.of_startWaiting (hnn : 0 ≤ s.read.thoseWaiting)
    (h : cls.AdmitsWriter (s.startWaiting m)) : cls.AdmitsWriter s := by
  refine ⟨h.1, h.2.1, ?_⟩
  have h' := h.2.2
  have hw := s.thoseWaiting_startWaiting m .read
  cases hp : cls.policy with
  | write => trivial
  | read =>
      simp only [hp, RWLock.read] at h' hnn ⊢
      rw [hw] at h'
      split_ifs at h' <;> omega
  | readerPhaseFair =>
      simp only [hp] at h' ⊢
      refine fun ⟨ht, hr⟩ => h' ⟨ht, ?_⟩
      simp only [RWLock.read] at hr ⊢
      rw [hw]
      split_ifs <;> omega
  | fair =>
      simp only [hp] at h' ⊢
      exact h'

theorem AdmitsReader.of_startWaiting {seq : ℕ} (hnn : 0 ≤ s.write.thoseWaiting)
    (h : cls.AdmitsReader (s.startWaiting m) true (some seq)) :
    cls.AdmitsReader s true (some seq) := by
  refine ⟨h.1, ?_⟩
  have h' := h.2
  have hz : (s.startWaiting m).write.thoseWaiting = 0 → s.write.thoseWaiting = 0 := by
    have hw := s.thoseWaiting_startWaiting m .write
    rw [RWLock.write, RWLock.write, hw]
    simp only [RWLock.write] at hnn
    split_ifs <;> omega
  cases hp : cls.policy with
  | write => simpa only [hp] using hz (by simpa only [hp] using h')
  | read => trivial
  | readerPhaseFair =>
      simp only [hp] at h' ⊢
      exact h'.imp_right hz
  | fair =>
      simp only [hp] at h' ⊢
      exact h'.imp_left hz

end LockClass

omit [DecidableEq τ] in
/-- After a bookkeeping step and its signals the readers stay covered, if the phase
only shrank. -/
theorem ReaderCovered.shrink {b : RWLock τ} (h : ReaderCovered cls s pc) (hs : Signals b s')
    (hph : PhaseShrinks b s') (hb : ∀ u, b.waiter .read u = s.waiter .read u)
    (hadm : ∀ seq, cls.AdmitsReader b true (some seq) → cls.AdmitsReader s true (some seq)) :
    ReaderCovered cls s' pc := by
  refine h.mono (fun u hu => ⟨?_, rfl⟩) fun seq hseq => hadm seq (hseq.of_shrinks hs hph)
  have := hs.asleep hu
  exact ⟨(hb u).symm.trans this.1, this.2⟩

omit [DecidableEq τ] in
theorem ReaderCovered.stopWaiting (h : ReaderCovered cls s pc) :
    ReaderCovered cls (s.stopWaiting .read) pc := by
  refine h.mono (fun u hu => ⟨?_, rfl⟩) fun seq hadm => ?_
  · rwa [Asleep, RWLock.waiter_stopWaiting] at hu
  · exact hadm.congr rfl rfl rfl rfl (by simp [RWLock.thoseWaiting_stopWaiting])

/-- Whoever leaves the slow path takes no sleeper along. -/
theorem ReaderCovered.update (h : ReaderCovered cls s pc)
    (hp : ∀ m seq timed i, p ≠ .waiting m seq timed i) :
    ReaderCovered cls s (Function.update pc t p) :=
  h.mono (fun _ hu => hu.of_update hp) fun _ => id

/-- A call that was timed out or cancelled does not sleep. -/
theorem not_asleep_of_interrupted (m : Mode) (seq : ℕ) (timed : Bool) (m' : Mode) :
    ¬ Asleep s (Function.update pc t (.waiting m seq timed true)) m' t := by
  rintro ⟨-, seq', timed', hpc⟩
  rw [Function.update_self] at hpc
  cases hpc

theorem inFlight_reflag {m' : Mode} {seq : ℕ} {timed i j : Bool}
    (hpc : pc t = .waiting m seq timed i) (h : InFlight pc m' t) :
    InFlight (Function.update pc t (.waiting m seq timed j)) m' t :=
  inFlight_update_waiting.2 (h.mode_eq ⟨_, _, _, hpc⟩)

/-! ### Moves -/

omit [DecidableEq τ] in
/-- A move that only touches its caller hands nothing on, and need not. -/
theorem covered_touch (hw : WriterCovered cls s pc) (hr : ReaderCovered cls s pc)
    (hf : OnlyTouches t s pc s' pc') (hsleep : ∀ m, ¬ Asleep s' pc' m t)
    (hway : OnWay s pc .write t → InFlight pc' .write t)
    (hadm : cls.AdmitsWriter s' → cls.AdmitsWriter s)
    (hadm' : ∀ seq, cls.AdmitsReader s' true (some seq) → cls.AdmitsReader s true (some seq)) :
    WriterCovered cls s' pc' ∧ ReaderCovered cls s' pc' :=
  ⟨hw.touch hf (hsleep .write) (fun h => ⟨hway h, hsleep .write⟩) hadm,
    hr.touch hf (hsleep .read) hadm'⟩

/-- A caller falls asleep only after the lock refused it. -/
theorem covered_park {c : System τ} (h : WellFormed cls c.lock c.pc)
    (hw : WriterCovered cls c.lock c.pc) (hr : ReaderCovered cls c.lock c.pc) {seq : ℕ}
    {timed i : Bool} (hpc : c.pc t = .waiting m seq timed i)
    (hno : cls.canAcquire m c.lock (some t) true (some seq) = false) :
    WriterCovered cls (c.lock.onQueue m fun q => q.appendWaiter t)
        (Function.update c.pc t (.waiting m seq timed false)) ∧
      ReaderCovered cls (c.lock.onQueue m fun q => q.appendWaiter t)
        (Function.update c.pc t (.waiting m seq timed false)) := by
  have hf : OnlyTouches t c.lock c.pc (c.lock.onQueue m fun q => q.appendWaiter t)
      (Function.update c.pc t (.waiting m seq timed false)) :=
    .onQueue (fun u hu => Function.update_of_ne hu ..) fun u hu => Function.update_of_ne hu ..
  have hfl : InFlight (Function.update c.pc t (.waiting m seq timed false)) m t :=
    inFlight_update_waiting.2 rfl
  have hrefused := mt (System.canAcquire_iff h ⟨_, _, _, hpc⟩ seq).2 (by simp [hno])
  cases m with
  | read =>
      refine ⟨hw.touch hf (fun ht => ?_) (fun hway => ?_) LockClass.admitsWriter_onQueue.1,
        fun u seq' timed' i' hu hpcu => mt LockClass.admitsReader_onQueue.1 ?_⟩
      · cases ht.mode_eq hfl
      · cases hway.1.mode_eq ⟨_, _, _, hpc⟩
      · by_cases hut : u = t
        · subst hut
          rw [Function.update_self] at hpcu
          cases hpcu
          exact hrefused
        · rw [Function.update_of_ne hut] at hpcu
          exact hr u seq' timed' i' ((hf.asleep_iff hut).1 hu) hpcu
  | write =>
      exact ⟨fun _ => .inl (mt LockClass.admitsWriter_onQueue.1 hrefused),
        hr.touch hf (fun ht => by cases ht.mode_eq hfl)
          fun _ => LockClass.admitsReader_onQueue.1⟩

/-- A reader gives up.  It may have been the one that the writers waited for. -/
theorem covered_abort_read (h : WellFormed cls s pc) (hw : WriterCovered cls s pc)
    (hr : ReaderCovered cls s pc) {seq : ℕ} {timed i : Bool}
    (hpc : pc t = .waiting .read seq timed i) (hgone : s.waiter .read t = .gone) :
    WriterCovered cls (cls.onReaderAbort (s.stopWaiting .read) (some seq))
        (Function.update pc t .idle) ∧
      ReaderCovered cls (cls.onReaderAbort (s.stopWaiting .read) (some seq))
        (Function.update pc t .idle) := by
  have hl := h.leave ⟨_, _, _, hpc⟩ hgone (p := .idle) (by simp)
  refine ⟨LockClass.covered_onReaderAbort hl (some seq) fun hpol hturn => ?_, ?_⟩
  · refine hw.mono (fun u hu => ?_) (fun u hu => ?_) fun hadm => ?_
    · have := (hu.of_update (by simp)).1
      rwa [Asleep, RWLock.waiter_stopWaiting] at this
    · have hut : u ≠ t := by
        rintro rfl
        cases hu.1.mode_eq ⟨_, _, _, hpc⟩
      have := hu.update (p := .idle) hut
      rwa [OnWay, Asleep, ← RWLock.waiter_stopWaiting _ .read] at this
    · refine ⟨hadm.1, hadm.2.1, ?_⟩
      have hadm := hadm.2.2
      cases hp : cls.policy with
      | write => trivial
      | read => exact absurd hp hpol
      | readerPhaseFair =>
          rintro ⟨ht, -⟩
          rw [show s.readersTurn = false from hturn hp] at ht
          cases ht
      | fair =>
          simp only [hp] at hadm ⊢
          exact hadm
  · refine ReaderCovered.update (hr.shrink (cls.signals_onReaderAbort _ _)
      (cls.shrinks_onReaderAbort _ _) (fun _ => RWLock.waiter_stopWaiting ..)
      fun seq hadm => ?_) (by simp)
    exact hadm.congr rfl rfl rfl rfl (by simp [RWLock.thoseWaiting_stopWaiting])

variable {P : Holds (Option τ) → Option τ → Prop} {rt : Runtime} {c c' : System τ}

/-- **Every move hands the lock on.** -/
theorem Move.covered (hmv : Move P rt cls c c') (h : WellFormed cls c.lock c.pc)
    (hw : WriterCovered cls c.lock c.pc) (hr : ReaderCovered cls c.lock c.pc) :
    WriterCovered cls c'.lock c'.pc ∧ ReaderCovered cls c'.lock c'.pc := by
  have hra := h.books.readersActive_nonneg
  cases hmv with
  | @register t m timed hpc hst =>
      have hgone : ∀ m', (c.lock.startWaiting m).waiter m' t = .gone := by
        intro m'
        rw [RWLock.waiter_startWaiting]
        by_contra hg
        exact not_inFlight_of_idle hpc m' (h.live m' t hg)
      refine covered_touch hw hr (t := t)
        (fun u hu => ⟨Function.update_of_ne hu .., fun m' => RWLock.waiter_startWaiting ..⟩)
        (fun _ => not_asleep_of_gone hgone) (fun hway => ?_)
        (.of_startWaiting (h.thoseWaiting_nonneg .read))
        fun seq => .of_startWaiting (h.thoseWaiting_nonneg .write)
      exact absurd hway.1 (not_inFlight_of_idle hpc .write)
  | @endWait t m seq timed i hpc hon =>
      have hf : OnlyTouches t c.lock c.pc (c.lock.onQueue m fun q =>
          (if i then q.discardWaiter t else q).dropWaiter t) c.pc := by
        refine .onQueue (fun _ _ => rfl) fun u hu => ?_
        cases i <;> exact Function.update_of_ne hu ..
      refine covered_touch hw hr hf (fun m' ht => ?_) (fun hway => hway.1)
        LockClass.admitsWriter_onQueue.1 fun _ => LockClass.admitsReader_onQueue.1
      obtain rfl := ht.mode_eq ⟨_, _, _, hpc⟩
      have hp := ht.1
      simp only [System.endWait, RWLock.waiter_onQueue, if_true] at hp
      cases i <;> simp [WaitQueue.dropWaiter] at hp
  | park hpc hgone hno => exact covered_park h hw hr hpc hno
  | @abort t m seq timed i hpc hgone =>
      cases m with
      | read => exact covered_abort_read h hw hr hpc hgone
      | write =>
          exact LockClass.covered_onWriterAbort'
            (h.leave ⟨_, _, _, hpc⟩ hgone (p := .idle) (by simp)) (some seq)
  | @enterRead t hpc ho =>
      have hs := cls.signals_onReaderEnter false none (c.lock.enterReader (some t))
      refine ⟨.of_reading ?_, ReaderCovered.update (hr.shrink hs
        (cls.shrinks_onReaderEnter _ _ _) (fun _ => rfl) fun _ => id) (by simp)⟩
      show (cls.onReaderEnter false none (c.lock.enterReader (some t))).readersActive ≠ 0
      rw [hs.readersActive]
      show c.lock.readersActive + 1 ≠ 0
      omega
  | @enterReadWaiting t seq timed i hpc hgone hadm =>
      have hs := cls.signals_onReaderEnter true (some seq) (c.lock.enterReader (some t))
      refine ⟨.of_reading ?_, ReaderCovered.update ?_ (by simp)⟩
      · show (cls.onReaderEnter true (some seq) (c.lock.enterReader (some t))).readersActive ≠ 0
        rw [hs.readersActive]
        show c.lock.readersActive + 1 ≠ 0
        omega
      · exact (hr.shrink hs (cls.shrinks_onReaderEnter _ _ _) (fun _ => rfl)
          fun _ => id).stopWaiting
  | @enterWrite t hpc hadm =>
      have ho : cls.owner (c.lock.ownWriter cls (some t)) ≠ none := by simp
      cases rt <;> exact ⟨.of_owner ho, .of_owner ho⟩
  | @enterWriteWaiting t seq timed i hpc hgone hadm =>
      have ho : cls.owner (c.lock.ownWriter cls (some t)) ≠ none := by simp
      cases rt <;> exact ⟨.of_owner ho, .of_owner ho⟩
  | @timeout t m seq hpc =>
      exact covered_touch hw hr (t := t)
        (fun u hu => ⟨Function.update_of_ne hu .., fun _ => rfl⟩)
        (not_asleep_of_interrupted m seq true) (fun hway => inFlight_reflag hpc hway.1) id
        fun _ => id
  | @cancel t m seq timed hpc =>
      have hf : OnlyTouches t c.lock c.pc (c.lock.onQueue m fun q => q.cancelWaiter t)
          (Function.update c.pc t (.waiting m seq timed true)) := by
        refine .onQueue (fun u hu => Function.update_of_ne hu ..) fun u hu => ?_
        unfold WaitQueue.cancelWaiter
        split_ifs
        · exact Function.update_of_ne hu ..
        · rfl
      exact covered_touch hw hr hf (not_asleep_of_interrupted m seq timed)
        (fun hway => inFlight_reflag hpc hway.1) LockClass.admitsWriter_onQueue.1
        fun _ => LockClass.admitsReader_onQueue.1
  | @clear t hpc =>
      have hno := not_inFlight_of_idle (Function.update_self t Pc.idle c.pc)
      refine covered_touch hw hr (t := t)
        (fun u hu => ⟨Function.update_of_ne hu .., fun _ => rfl⟩)
        (fun m ht => hno m ht.inFlight) (fun hway => ?_) id fun _ => id
      exact absurd hway.1 (not_inFlight hpc (by simp) _)
  | unmark hpc hm hcount hP => exact ⟨hw, hr⟩
  | @releaseRead t hpc hcount =>
      refine ⟨LockClass.covered_onReaderLeave (h.dropReader (not_inFlight_of_idle hpc) hcount), ?_⟩
      exact hr.shrink (cls.signals_onReaderLeave _) (cls.shrinks_onReaderLeave _)
        (fun _ => rfl) fun _ => id
  | @releaseRouted t hpc hm hcount hP =>
      refine ⟨LockClass.covered_onReaderLeave
        ((h.marker none).dropReader (not_inFlight_of_idle hpc) hcount), ?_⟩
      exact hr.shrink (cls.signals_onReaderLeave _) (cls.shrinks_onReaderLeave _)
        (fun _ => rfl) fun _ => id
  | @releaseNested t hpc hc ho hd hP =>
      have ho' : cls.owner { c.lock with writeCount := c.lock.writeCount - 1 } ≠ none := by
        show cls.owner c.lock ≠ none
        simp [ho]
      exact ⟨.of_owner ho', .of_owner ho'⟩
  | releaseFinal => exact LockClass.covered_onWriterAbort' h.freeWriter none
  | @downgrade t hpc ho hd =>
      have hs := cls.signals_onDowngrade (c.lock.freeWriter.enterReader (some t))
      refine ⟨.of_reading ?_, LockClass.covered_onDowngrade
        (h.freeWriter.enterReader (not_inFlight_of_idle hpc) (.inl (by simp))) (by simp)⟩
      show (cls.onDowngrade (c.lock.freeWriter.enterReader (some t))).readersActive ≠ 0
      rw [hs.readersActive]
      show c.lock.readersActive + 1 ≠ 0
      omega

end Rwlocker

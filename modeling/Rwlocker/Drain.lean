/-
# Draining the waiting readers

A reader that waits when the write lock is handed over is served before the next
writer if the phase that is then on includes it (`Placed`): the turn is on, and in a
strict fair lock its number is not past the cutoff.  Such a reader keeps its place
until it enters or gives up (`Move.placed`), and as long as one waits nobody acquires
the write lock.

What is left is whether the handover gives every waiting reader a place.  A downgrade
always begins a phase.  A release begins one only if the read queue is not empty, and
readers that were signalled are in no queue.  In a reader-phase fair lock the turn
is on while such a reader waits (`Called`).  In a strict fair lock a signalled reader
may have come too late for the phase (`LeftOut`).
-/

import Rwlocker.Deed
import Rwlocker.Downgrade

namespace Rwlocker

open ReadersWriter (Holds)
open RWLock (Signals)

variable {τ : Type} [DecidableEq τ]

/-- Nobody owns the lock, and the phase that is on includes waiter `seq`. -/
structure Placed (cls : LockClass) (s : RWLock τ) (seq : ℕ) : Prop where
  owner : cls.owner s = none
  turn : s.readersTurn = true
  cutoff : cls.policy = .fair → seq ≤ s.readerPhaseCutoff

/-- The phase that is on has a waiting reader to serve. -/
structure Serving (cls : LockClass) (s : RWLock τ) : Prop where
  turn : s.readersTurn = true
  waiting : cls.policy = .readerPhaseFair → 0 < s.read.thoseWaiting
  pending : cls.policy = .fair → 0 < s.readerPhasePending

variable {cls : LockClass} {s s' : RWLock τ} {pc : τ → Pc} {t : τ} {seq : ℕ}

/-! ### The hooks keep the turn -/

/-- The turn goes on while a reader waits. -/
theorem RWLockReaderPhaseFairMixin.turn_finishOrContinue (hturn : s.readersTurn = true)
    (hw : 0 < s.read.thoseWaiting) : (finishOrContinueReaderPhase s).readersTurn = true := by
  have hgo : (s.readersTurn && decide (0 < s.read.thoseWaiting)) = true := by simp [hturn, hw]
  rw [finishOrContinueReaderPhase, if_pos hgo, readersTurn_wakeWaitingReader, hturn]

/-- The phase goes on while a slot is left. -/
theorem RWLockFairMixin.turn_finishOrContinue (hturn : s.readersTurn = true)
    (hpend : 0 < s.readerPhasePending) :
    (finishOrContinueReaderPhase s).readersTurn = true := by
  have hgo : (s.readersTurn && decide (0 < s.readerPhasePending)) = true := by
    simp [hturn, hpend]
  rw [finishOrContinueReaderPhase, if_pos hgo, readersTurn_wakeWaitingReader, hturn]

/-- A phase that begins includes every number given out so far. -/
theorem RWLockFairMixin.readerPhaseCutoff_startReaderPhase (s : RWLock τ) :
    (startReaderPhase s).readerPhaseCutoff = s.read.waiterSeq := by
  unfold startReaderPhase wakeWaitingReader
  dsimp only
  split_ifs <;> rfl

namespace LockClass

/-- A reader that enters leaves the turn as it is. -/
theorem turn_onReaderEnter (cls : LockClass) (waiting : Bool) (waiterSeq : Option ℕ)
    (s : RWLock τ) : (cls.onReaderEnter waiting waiterSeq s).readersTurn = s.readersTurn := by
  unfold onReaderEnter
  cases cls.policy with
  | write | read => rfl
  | readerPhaseFair =>
      dsimp only
      split_ifs
      · exact RWLockReaderPhaseFairMixin.readersTurn_wakeWaitingReader s
      · rfl
  | fair =>
      have hspend : (RWLockFairMixin.consumeReaderPhaseSlot s waiting waiterSeq).readersTurn =
          s.readersTurn := by
        unfold RWLockFairMixin.consumeReaderPhaseSlot
        split_ifs <;> rfl
      dsimp only
      split_ifs
      · rw [RWLockFairMixin.readersTurn_wakeWaitingReader, hspend]
      · exact hspend

/-- A reader that leaves does not end a turn with somebody to serve. -/
theorem turn_onReaderLeave (h : Serving cls s) : (cls.onReaderLeave s).readersTurn = true := by
  unfold onReaderLeave
  cases hp : cls.policy with
  | write | read =>
      dsimp only [RWLockWriteMixin.notifyWriterIfFree]
      split_ifs <;> exact h.turn
  | readerPhaseFair =>
      dsimp only
      split_ifs
      · exact RWLockReaderPhaseFairMixin.turn_finishOrContinue h.turn (h.waiting hp)
      · exact h.turn
  | fair =>
      dsimp only
      split_ifs
      · exact RWLockFairMixin.turn_finishOrContinue h.turn (h.pending hp)
      · exact h.turn

/-- A reader that gives up leaves the turn on, if somebody else is left to serve. -/
theorem turn_onReaderAbort (hturn : s.readersTurn = true)
    (hw : cls.policy = .readerPhaseFair → 0 < s.read.thoseWaiting)
    (hpend : cls.policy = .fair →
      0 < (RWLockFairMixin.consumeReaderPhaseSlot s true (some seq)).readerPhasePending) :
    (cls.onReaderAbort s (some seq)).readersTurn = true := by
  cases cls with
  | write | writeReentrantWriter => exact hturn
  | read | readReentrantWriter =>
      show (RWLockReadMixin.onReaderAbort s (some seq)).readersTurn = true
      unfold RWLockReadMixin.onReaderAbort
      split_ifs <;> exact hturn
  | readerPhaseFair | readerPhaseFairReentrantWriter =>
      show (RWLockReaderPhaseFairMixin.onReaderAbort s (some seq)).readersTurn = true
      unfold RWLockReaderPhaseFairMixin.onReaderAbort
      split_ifs
      · exact RWLockReaderPhaseFairMixin.turn_finishOrContinue hturn (hw rfl)
      · exact hturn
  | fair | fairReentrantWriter =>
      show (RWLockFairMixin.onReaderAbort s (some seq)).readersTurn = true
      rw [RWLockFairMixin.onReaderAbort_eq]
      have hturn' : (RWLockFairMixin.consumeReaderPhaseSlot s true (some seq)).readersTurn =
          true := by
        unfold RWLockFairMixin.consumeReaderPhaseSlot
        split_ifs <;> exact hturn
      dsimp only
      rw [if_pos (by simp [hturn', hpend rfl]), RWLockFairMixin.readersTurn_wakeWaitingReader,
        hturn']

/-- A writer that gives up or releases leaves the turn on. -/
theorem turn_onWriterAbort (hturn : s.readersTurn = true) (waiterSeq : Option ℕ) :
    (cls.onWriterAbort s waiterSeq).readersTurn = true := by
  cases cls with
  | write | writeReentrantWriter =>
      show (RWLockWriteMixin.onWriterAbort s waiterSeq).readersTurn = true
      unfold RWLockWriteMixin.onWriterAbort
      split_ifs <;> exact hturn
  | read | readReentrantWriter =>
      show (RWLockReadMixin.onWriterAbort s waiterSeq).readersTurn = true
      unfold RWLockReadMixin.onWriterAbort
      split_ifs <;> exact hturn
  | readerPhaseFair | readerPhaseFairReentrantWriter =>
      show (RWLockReaderPhaseFairMixin.onWriterAbort _ s waiterSeq).readersTurn = true
      unfold RWLockReaderPhaseFairMixin.onWriterAbort
      split_ifs
      · exact RWLockReaderPhaseFairMixin.readersTurn_startReaderPhase s
      · exact hturn
      · exact hturn
  | fair | fairReentrantWriter =>
      show (RWLockReaderPhaseFairMixin.onWriterAbort _ s waiterSeq).readersTurn = true
      unfold RWLockReaderPhaseFairMixin.onWriterAbort
      split_ifs with hr
      · rw [RWLockFairMixin.readersTurn_startReaderPhase]
        exact (Bool.and_eq_true_iff.1 hr).1
      · exact hturn
      · exact hturn

/-- A phase that begins includes everybody who has a number. -/
theorem le_cutoff_onWriterAbort (hcut : seq ≤ s.readerPhaseCutoff)
    (hle : seq ≤ s.read.waiterSeq) (waiterSeq : Option ℕ) :
    seq ≤ (cls.onWriterAbort s waiterSeq).readerPhaseCutoff := by
  cases cls with
  | write | writeReentrantWriter =>
      show seq ≤ (RWLockWriteMixin.onWriterAbort s waiterSeq).readerPhaseCutoff
      unfold RWLockWriteMixin.onWriterAbort
      split_ifs <;> exact hcut
  | read | readReentrantWriter =>
      show seq ≤ (RWLockReadMixin.onWriterAbort s waiterSeq).readerPhaseCutoff
      unfold RWLockReadMixin.onWriterAbort
      split_ifs <;> exact hcut
  | readerPhaseFair | readerPhaseFairReentrantWriter =>
      show seq ≤ (RWLockReaderPhaseFairMixin.onWriterAbort _ s waiterSeq).readerPhaseCutoff
      unfold RWLockReaderPhaseFairMixin.onWriterAbort
        RWLockReaderPhaseFairMixin.startReaderPhase RWLockReaderPhaseFairMixin.wakeWaitingReader
      split_ifs <;> exact hcut
  | fair | fairReentrantWriter =>
      show seq ≤ (RWLockReaderPhaseFairMixin.onWriterAbort _ s waiterSeq).readerPhaseCutoff
      unfold RWLockReaderPhaseFairMixin.onWriterAbort
      split_ifs
      · rw [RWLockFairMixin.readerPhaseCutoff_startReaderPhase]
        exact hle
      · exact hcut
      · exact hcut

end LockClass

/-! ### A waiting reader keeps its place -/

omit [DecidableEq τ] in
/-- A place depends on the owner and the phase alone. -/
theorem Placed.congr (h : Placed cls s seq) (ho : cls.owner s' = cls.owner s)
    (hturn : s'.readersTurn = s.readersTurn)
    (hcut : s'.readerPhaseCutoff = s.readerPhaseCutoff) : Placed cls s' seq :=
  ⟨ho.trans h.owner, hturn.trans h.turn, fun hp => hcut ▸ h.cutoff hp⟩

omit [DecidableEq τ] in
/-- A phase that goes on goes on for the same readers. -/
theorem Placed.signals (h : Placed cls s seq) (hs : Signals s s') (hph : PhaseShrinks s s')
    (hturn : s'.readersTurn = true) : Placed cls s' seq :=
  ⟨(hs.owner cls).trans h.owner, hturn, fun hp => (hph hturn).2.1 ▸ h.cutoff hp⟩

omit [DecidableEq τ] in
/-- A placed reader that waits has a slot. -/
theorem Placed.slot (h : Placed cls s seq) (hp : cls.policy = .fair) (hs : Slots s pc)
    {timed i : Bool} (ht : pc t = .waiting .read seq timed i) : 0 < s.readerPhasePending := by
  obtain ⟨F, hF, hcard⟩ := hs.on h.turn
  have := Finset.card_pos.2 ⟨t, (hF t).2 ⟨seq, timed, i, ht, h.cutoff hp⟩⟩
  omega

/-- A reader with a place is somebody to serve. -/
theorem Placed.serving (h : Placed cls s seq) (hw : WellFormed cls s pc)
    (hs : cls.policy = .fair → Slots s pc) {timed i : Bool}
    (ht : pc t = .waiting .read seq timed i) : Serving cls s :=
  ⟨h.turn, fun _ => hw.thoseWaiting_pos ⟨_, _, _, ht⟩, fun hp => h.slot hp (hs hp) ht⟩

omit [DecidableEq τ] in
/-- A phase with somebody to serve keeps the writers out. -/
theorem Serving.not_admitsWriter (h : Serving cls s)
    (hp : cls.policy = .readerPhaseFair ∨ cls.policy = .fair) : ¬ cls.AdmitsWriter s := by
  rintro ⟨-, -, hadm⟩
  rcases hp with hp | hp
  · simp only [hp] at hadm
    exact hadm ⟨h.turn, h.waiting hp⟩
  · simp only [hp] at hadm
    exact hadm ⟨h.turn, h.pending hp⟩

variable {P : Holds (Option τ) → Option τ → Prop} {rt : Runtime} {c c' : System τ}

/-- **A waiting reader keeps its place** through every move that it waits through. -/
theorem Move.placed (hp : cls.policy = .readerPhaseFair ∨ cls.policy = .fair)
    (hmv : Move P rt cls c c') (hw : WellFormed cls c.lock c.pc)
    (hs : cls.policy = .fair → Slots c.lock c.pc) (hle : seq ≤ c.lock.read.waiterSeq)
    (ht : System.Waits c .read t seq) (ht' : System.Waits c' .read t seq)
    (h : Placed cls c.lock seq) : Placed cls c'.lock seq := by
  obtain ⟨timed, i, ht⟩ := ht
  obtain ⟨timed', i', ht'⟩ := ht'
  have hserve := h.serving hw hs ht
  have hno := hserve.not_admitsWriter hp
  have hown : ∀ k, cls.owner c.lock = some k → False := fun k hk => by
    rw [h.owner] at hk
    cases hk
  cases hmv with
  | register | endWait | park | timeout | cancel | clear | unmark => exact h.congr rfl rfl rfl
  | @abort u m seq' timed'' j hpc hgone =>
      have hl := hw.leave ⟨_, _, _, hpc⟩ hgone (p := .idle) (by simp)
      have hstop : Placed cls (c.lock.stopWaiting m) seq := h.congr rfl rfl rfl
      cases m with
      | read =>
          refine hstop.signals (cls.signals_onReaderAbort _ _) (cls.shrinks_onReaderAbort _ _)
            (LockClass.turn_onReaderAbort hstop.turn (fun _ => ?_) fun hf => ?_)
          · exact hl.thoseWaiting_pos ⟨_, _, _, ht'⟩
          · have hslots : Slots (c.lock.stopWaiting .read) c.pc :=
              (hs hf).congr rfl rfl rfl (by simp) fun _ => Iff.rfl
            have hspent := hslots.spend hpc (p := .idle) (by simp)
            have hplaced : Placed cls (RWLockFairMixin.consumeReaderPhaseSlot
                (c.lock.stopWaiting .read) true (some seq')) seq := by
              unfold RWLockFairMixin.consumeReaderPhaseSlot
              split_ifs <;> exact h.congr rfl rfl rfl
            exact hplaced.slot hf hspent ht'
      | write =>
          refine ⟨((cls.signals_onWriterAbort _ _).owner cls).trans h.owner,
            LockClass.turn_onWriterAbort hstop.turn _, fun hf => ?_⟩
          exact LockClass.le_cutoff_onWriterAbort (hstop.cutoff hf) (by simpa using hle) _
  | @enterRead u hpc ho =>
      have hin : Placed cls (c.lock.enterReader (some u)) seq := h.congr rfl rfl rfl
      exact hin.signals (cls.signals_onReaderEnter _ _ _) (cls.shrinks_onReaderEnter _ _ _)
        ((cls.turn_onReaderEnter _ _ _).trans hin.turn)
  | @enterReadWaiting u seq' timed'' j hpc hgone hadm =>
      have hin : Placed cls (c.lock.enterReader (some u)) seq := h.congr rfl rfl rfl
      exact (hin.signals (cls.signals_onReaderEnter true (some seq') _)
        (cls.shrinks_onReaderEnter _ _ _)
        ((cls.turn_onReaderEnter _ _ _).trans hin.turn)).congr rfl rfl rfl
  | enterWrite hpc hadm =>
      rcases hadm with hadm | hadm
      · exact absurd hadm hno
      · exact (hown _ hadm.2).elim
  | enterWriteWaiting hpc hgone hadm => exact absurd hadm hno
  | @releaseRead u hpc hcount =>
      have hout : Placed cls (c.lock.dropReader (some u)) seq := h.congr rfl rfl rfl
      exact hout.signals (cls.signals_onReaderLeave _) (cls.shrinks_onReaderLeave _)
        (LockClass.turn_onReaderLeave ⟨hserve.turn, hserve.waiting, hserve.pending⟩)
  | @releaseRouted u hpc hm hcount hP =>
      have hout : Placed cls
          (({ c.lock with downgraded := none } : RWLock τ).dropReader (some u)) seq :=
        h.congr rfl rfl rfl
      exact hout.signals (cls.signals_onReaderLeave _) (cls.shrinks_onReaderLeave _)
        (LockClass.turn_onReaderLeave ⟨hserve.turn, hserve.waiting, hserve.pending⟩)
  | releaseNested _ _ ho => exact (hown _ ho).elim
  | releaseFinal _ ho => exact absurd h.owner ho
  | downgrade _ ho => exact (hown _ ho).elim

/-! ### One reader followed through a run -/

/-- A move hands out waiter numbers in order. -/
theorem Move.waiterSeq_le (hmv : Move P rt cls c c') (m : Mode) :
    (c.lock.proxy m).waiterSeq ≤ (c'.lock.proxy m).waiterSeq := by
  have hsig : ∀ s s' : RWLock τ, Signals s s' → (s.proxy m).waiterSeq = (c.lock.proxy m).waiterSeq →
      (c.lock.proxy m).waiterSeq ≤ (s'.proxy m).waiterSeq := by
    intro s s' hs heq
    rw [hs.waiterSeq, heq]
  cases hmv with
  | @register t m' =>
      show _ ≤ ((c.lock.startWaiting m').proxy m).waiterSeq
      rw [RWLock.waiterSeq_startWaiting]
      exact Nat.le_add_right ..
  | endWait | park | cancel => simp [System.endWait]
  | @abort t m' seq => exact hsig _ _ (cls.signals_onAbort m' _ (some seq)) (by simp)
  | enterRead => exact hsig _ _ (cls.signals_onReaderEnter false none _) rfl
  | @enterReadWaiting t seq =>
      exact hsig _ _ ((cls.signals_onReaderEnter true (some seq) _).stopWaiting .read)
        (RWLock.waiterSeq_stopWaiting _ _ _)
  | @enterWrite t =>
      obtain ⟨_, _, _, _, hf⟩ := c.lock.ownWriter_frame cls (some t)
      rw [hf]
      cases rt <;> exact le_rfl
  | @enterWriteWaiting t =>
      obtain ⟨_, _, _, _, hf⟩ := c.lock.ownWriter_frame cls (some t)
      rw [hf]
      cases rt <;> exact (RWLock.waiterSeq_stopWaiting _ _ _).ge
  | timeout | clear | unmark | releaseNested => exact le_rfl
  | releaseRead | releaseRouted => exact hsig _ _ (cls.signals_onReaderLeave _) rfl
  | releaseFinal => exact hsig _ _ (cls.signals_onWriterAbort _ none) rfl
  | @downgrade t =>
      exact hsig (c.lock.freeWriter.enterReader (some t)) (cls.onDowngrade _)
        (cls.signals_onDowngrade _) rfl

/-- Whoever waits after a move waited before it, or got the next number. -/
theorem Move.waits (hmv : Move P rt cls c c') {m : Mode} (ht : System.Waits c' m t seq) :
    System.Waits c m t seq ∨ seq = (c.lock.proxy m).waiterSeq + 1 := by
  have hgoto : ∀ (s : RWLock τ) (u : τ) (p : Pc) (h : Holds (Option τ)),
      (∀ m seq timed i, p ≠ .waiting m seq timed i) →
      System.Waits { c.put s u p with holds := h } m t seq → System.Waits c m t seq := by
    intro s u p h hp ht
    have hut : t ≠ u := by
      rintro rfl
      exact not_inFlight_update hp m ht.inFlight
    exact (System.waits_put_of_ne s p hut).1 ht
  have hflag : ∀ (s : RWLock τ) (u : τ) (m' : Mode) (seq' : ℕ) (timed i j : Bool),
      c.pc u = .waiting m' seq' timed i →
      System.Waits (c.put s u (.waiting m' seq' timed j)) m t seq → System.Waits c m t seq := by
    intro s u m' seq' timed i j hpc ht
    by_cases hut : t = u
    · subst hut
      obtain ⟨rfl, rfl⟩ := System.waits_put.1 ht
      exact ⟨_, _, hpc⟩
    · exact (System.waits_put_of_ne s _ hut).1 ht
  cases hmv with
  | @register u m' =>
      by_cases hut : t = u
      · subst hut
        obtain ⟨rfl, rfl⟩ := System.waits_put.1 ht
        exact .inr rfl
      · exact .inl ((System.waits_put_of_ne _ _ hut).1 ht)
  | endWait | unmark | releaseRead | releaseRouted | releaseNested | releaseFinal | downgrade =>
      exact .inl ht
  | park hpc => exact .inl (hflag _ _ _ _ _ _ _ hpc ht)
  | timeout hpc => exact .inl (hflag _ _ _ _ _ _ _ hpc ht)
  | cancel hpc => exact .inl (hflag _ _ _ _ _ _ _ hpc ht)
  | abort => exact .inl (hgoto _ _ _ _ (by simp) ht)
  | enterRead => exact .inl (hgoto _ _ _ _ (by simp) ht)
  | enterReadWaiting => exact .inl (hgoto _ _ _ _ (by simp) ht)
  | enterWrite => cases rt <;> exact .inl (hgoto _ _ _ _ (by simp) ht)
  | enterWriteWaiting => cases rt <;> exact .inl (hgoto _ _ _ _ (by simp) ht)
  | clear => exact .inl (hgoto _ _ _ _ (by simp) ht)

/-! ### Signalled readers of a reader-phase fair lock -/

/-- A reader with a waiter object is in the queue, or the turn is on. -/
def Called (s : RWLock τ) : Prop :=
  ∀ t, s.waiter .read t ≠ .gone → t ∈ s.queue .read ∨ s.readersTurn = true

namespace Called

omit [DecidableEq τ] in
/-- While the turn is on everybody is called. -/
theorem of_turn (h : s.readersTurn = true) : Called s := fun _ _ => .inr h

omit [DecidableEq τ] in
/-- It depends on the read queue and the turn alone. -/
theorem congr (h : Called s) (hproxy : s'.read.condition = s.read.condition)
    (hturn : s'.readersTurn = s.readersTurn) : Called s' := fun t ht => by
  rw [RWLock.waiter, hproxy] at ht
  rw [RWLock.queue, hproxy, hturn]
  exact h t ht

omit [DecidableEq τ] in
/-- Counters and numbers do not matter. -/
theorem onProxy (h : Called s) {m : Mode} {f : Proxy τ → Proxy τ}
    (hf : (f (s.proxy m)).condition = (s.proxy m).condition) : Called (s.onProxy m f) := by
  refine h.congr ?_ rfl
  rw [RWLock.read, RWLock.onProxy_proxy]
  split_ifs with hm
  · rw [hf, ← hm]
  · rfl

omit [DecidableEq τ] in
/-- A registration creates no waiter object. -/
theorem startWaiting (h : Called s) (m : Mode) : Called (s.startWaiting m) := h.onProxy rfl

omit [DecidableEq τ] in
/-- The end of a call is none for the waiter object. -/
theorem stopWaiting (h : Called s) (m : Mode) : Called (s.stopWaiting m) := h.onProxy rfl

omit [DecidableEq τ] in
/-- Whoever has a waiter object after the queue changed is in it, or had one and did
not leave the queue. -/
theorem onQueue (h : Called s) {m : Mode} {f : WaitQueue τ → WaitQueue τ}
    (hf : ∀ q t, (f q).state t ≠ .gone → t ∈ (f q).waiters ∨
      q.state t ≠ .gone ∧ (t ∈ q.waiters → t ∈ (f q).waiters)) : Called (s.onQueue m f) := by
  intro t ht
  rw [RWLock.waiter_onQueue] at ht
  rw [RWLock.queue_onQueue]
  split_ifs at ht ⊢ with hm
  · subst hm
    rcases hf _ t ht with hmem | ⟨hg, hmem⟩
    · exact .inl hmem
    · exact (h t hg).imp_left hmem
  · exact h t ht

/-- A signal to writers calls no reader. -/
theorem notify_write (h : Called s) (n : ℤ) : Called (s.notify .write n) :=
  h.congr (by simp [RWLock.notify, RWLock.onQueue, RWLock.onProxy_proxy]) rfl

/-- The turn ends when no reader waits. -/
theorem finishOrContinue (h : Called s) (hw : WellFormed cls s pc) :
    Called (RWLockReaderPhaseFairMixin.finishOrContinueReaderPhase s) := by
  unfold RWLockReaderPhaseFairMixin.finishOrContinueReaderPhase
  by_cases hgo : (s.readersTurn && decide (0 < s.read.thoseWaiting)) = true
  · rw [if_pos hgo]
    refine .of_turn ((RWLockReaderPhaseFairMixin.readersTurn_wakeWaitingReader s).trans ?_)
    exact (Bool.and_eq_true_iff.1 hgo).1
  · rw [if_neg hgo]
    have hoff : Called { s with readersTurn := false } := by
      intro t ht
      refine (h t ht).imp_right fun hturn => absurd ?_ hgo
      simp [hturn, hw.thoseWaiting_pos (hw.live .read t ht)]
    dsimp only
    split_ifs
    · exact hoff.notify_write 1
    · exact hoff

/-- Whoever is woken is woken while the turn is on. -/
theorem wakeWaitingReader (hturn : s.readersTurn = true) :
    Called (RWLockReaderPhaseFairMixin.wakeWaitingReader s) :=
  .of_turn ((RWLockReaderPhaseFairMixin.readersTurn_wakeWaitingReader s).trans hturn)

/-- The hook of an entering reader. -/
theorem onReaderEnter (hp : cls.policy = .readerPhaseFair) (h : Called s) (waiting : Bool)
    (waiterSeq : Option ℕ) : Called (cls.onReaderEnter waiting waiterSeq s) := by
  unfold LockClass.onReaderEnter
  simp only [hp]
  split_ifs with hgo
  · exact .wakeWaitingReader (Bool.and_eq_true_iff.1 hgo).1
  · exact h

/-- The hook of a leaving reader. -/
theorem onReaderLeave (hp : cls.policy = .readerPhaseFair) (h : Called s)
    (hw : WellFormed cls s pc) : Called (cls.onReaderLeave s) := by
  unfold LockClass.onReaderLeave
  simp only [hp]
  split_ifs
  · exact h.finishOrContinue hw
  · exact h

/-- The hook of a reader that gives up. -/
theorem onReaderAbort (hp : cls.policy = .readerPhaseFair) (h : Called s)
    (hw : WellFormed cls s pc) (waiterSeq : Option ℕ) :
    Called (cls.onReaderAbort s waiterSeq) := by
  rw [LockClass.onReaderAbort_of_readerPhaseFair hp, RWLockReaderPhaseFairMixin.onReaderAbort]
  split_ifs
  · exact h.finishOrContinue hw
  · exact h

/-- The hook of a writer that gives up or releases. -/
theorem onWriterAbort (hp : cls.policy = .readerPhaseFair) (h : Called s)
    (waiterSeq : Option ℕ) : Called (cls.onWriterAbort s waiterSeq) := by
  rw [LockClass.onWriterAbort_of_readerPhaseFair hp, RWLockReaderPhaseFairMixin.onWriterAbort]
  split_ifs
  · exact .of_turn (RWLockReaderPhaseFairMixin.readersTurn_startReaderPhase s)
  · exact h.notify_write 1
  · exact h

end Called

/-- **A reader-phase fair lock keeps the turn on while a signalled reader waits.** -/
theorem Move.called (hp : cls.policy = .readerPhaseFair) (hmv : Move P rt cls c c')
    (hw : WellFormed cls c.lock c.pc) (h : Called c.lock) : Called c'.lock := by
  cases hmv with
  | register m => exact h.startWaiting m
  | timeout | clear | unmark | releaseNested => exact h.congr rfl rfl
  | @endWait t m seq timed i hpc hon =>
      refine Called.onQueue h
        (f := fun q => (if i then q.discardWaiter t else q).dropWaiter t) fun q u hu => .inr ?_
      have hut : u ≠ t := by
        rintro rfl
        simp [WaitQueue.dropWaiter] at hu
      cases i
      · simpa [WaitQueue.dropWaiter, hut] using hu
      · simpa [WaitQueue.dropWaiter, WaitQueue.discardWaiter, hut] using hu
  | @park t m =>
      refine Called.onQueue h (f := fun q => q.appendWaiter t) fun q u hu => ?_
      by_cases hut : u = t
      · subst hut
        exact .inl (by simp [WaitQueue.appendWaiter])
      · exact .inr ⟨by simpa [WaitQueue.appendWaiter, hut] using hu, List.mem_append_left _⟩
  | @cancel t m =>
      refine Called.onQueue h (f := fun q => q.cancelWaiter t) fun q u hu => .inr ?_
      rw [WaitQueue.cancelWaiter_waiters]
      refine ⟨fun hg => hu ?_, id⟩
      have hno : ¬ (u = t ∧ q.state t = .pending) := by
        rintro ⟨rfl, hp⟩
        rw [hg] at hp
        cases hp
      rw [WaitQueue.cancelWaiter_state, if_neg hno, hg]
  | @abort t m seq timed i hpc hgone =>
      have hl := hw.leave ⟨_, _, _, hpc⟩ hgone (p := .idle) (by simp)
      have hstop := h.stopWaiting m
      cases m with
      | read => exact hstop.onReaderAbort hp hl _
      | write => exact hstop.onWriterAbort hp _
  | @enterRead t =>
      have hin : Called (c.lock.enterReader (some t)) := h.congr rfl rfl
      exact hin.onReaderEnter hp false none
  | @enterReadWaiting t seq =>
      have hin : Called (c.lock.enterReader (some t)) := h.congr rfl rfl
      exact (hin.onReaderEnter hp true (some seq)).stopWaiting .read
  | @enterWrite t =>
      obtain ⟨_, _, _, _, hf⟩ := c.lock.ownWriter_frame cls (some t)
      rw [hf]
      cases rt <;> exact h.congr rfl rfl
  | @enterWriteWaiting t =>
      obtain ⟨_, _, _, _, hf⟩ := c.lock.ownWriter_frame cls (some t)
      have hstop : Called ((c.lock.ownWriter cls (some t)).stopWaiting .write) := by
        rw [hf]
        exact Called.stopWaiting (h.congr rfl rfl) .write
      cases rt <;> exact hstop.congr rfl rfl
  | @releaseRead t hpc hcount =>
      have hdrop : Called (c.lock.dropReader (some t)) := h.congr rfl rfl
      exact hdrop.onReaderLeave hp (hw.dropReader (not_inFlight_of_idle hpc) hcount)
  | @releaseRouted t hpc hm hcount =>
      have hdrop : Called
          (({ c.lock with downgraded := none } : RWLock τ).dropReader (some t)) :=
        h.congr rfl rfl
      exact hdrop.onReaderLeave hp ((hw.marker none).dropReader (not_inFlight_of_idle hpc) hcount)
  | releaseFinal =>
      have hfree : Called c.lock.freeWriter := h.congr rfl rfl
      exact hfree.onWriterAbort hp none
  | @downgrade t =>
      refine .of_turn ?_
      show (cls.onDowngrade (c.lock.freeWriter.enterReader (some t))).readersTurn = true
      unfold LockClass.onDowngrade
      simp only [hp]
      exact RWLockReaderPhaseFairMixin.readersTurn_startReaderPhase _

namespace System

variable {c₀ c₁ : System τ} {a : Action τ} {o : Outcome} {u : τ}

/-- From `c₁` on, whatever the callers do, nobody acquires the write lock while a call
of `read.acquire()` that waited in `c₀` still waits. -/
def DrainsFirst (rt : Runtime) (cls : LockClass) (c₀ c₁ : System τ) : Prop :=
  ∀ as c a c', Transition.Run (Transition.restrict InTask (Step rt cls)) c₁ as c → InTask c a →
    c.step rt cls a = some (.acquired .write, c') →
    ∀ t seq, Waits c₀ .read t seq → ¬ Waits c .read t seq

/-- `t` waits in `c` only if the phase includes it. -/
structure Follows (cls : LockClass) (t : τ) (seq : ℕ) (c : System τ) : Prop where
  slots : cls.policy = .fair → Slots c.lock c.pc
  numbered : seq ≤ c.lock.read.waiterSeq
  placed : Waits c .read t seq → Placed cls c.lock seq

/-- A reader with a place is followed through a step. -/
theorem Follows.step (hp : cls.policy = .readerPhaseFair ∨ cls.policy = .fair)
    (hw : WellFormed cls c.lock c.pc) (h : Follows cls t seq c)
    (hst : c.step rt cls a = some (o, c')) (ha : a.caller ≠ none) : Follows cls t seq c' := by
  have hmoves := Step.moves (P := fun _ _ => True) ⟨o, hst⟩ hw ha fun _ _ => trivial
  refine hmoves.invariant (fun c c' hw h hmv => ?_) hw h
  refine ⟨fun hf => hmv.slots hf hw (h.slots hf), h.numbered.trans (hmv.waiterSeq_le .read),
    fun ht' => ?_⟩
  have hnum := h.numbered
  rcases hmv.waits ht' with ht | rfl
  · exact hmv.placed hp hw h.slots hnum ht ht' (h.placed ht)
  · exact absurd hnum (by simp)

/-- **Placed readers are drained first.** -/
theorem drainsFirst_of_placed (hp : cls.policy = .readerPhaseFair ∨ cls.policy = .fair)
    (h₀ : Reachable rt cls c₀) (hst₀ : c₀.step rt cls a = some (o, c₁)) (ha : a.caller ≠ none)
    (hplaced : ∀ t seq, Waits c₀ .read t seq → Placed cls c₁.lock seq) :
    DrainsFirst rt cls c₀ c₁ := by
  intro as c b c' hrun hb hst t seq ht₀ ht
  have h₁ := h₀.step hst₀ ha
  have hfollows : Reachable rt cls c ∧ Follows cls t seq c := by
    refine hrun.invariant (I := fun c => Reachable rt cls c ∧ Follows cls t seq c) ?_ ⟨h₁, ?_⟩
    · rintro c a c' ⟨h, hf⟩ ⟨ha, o, hst⟩
      exact ⟨h.step hst ha, hf.step hp h.wellFormed hst ha⟩
    · refine ⟨fun hf => h₁.slots hf, ?_, fun _ => hplaced t seq ht₀⟩
      obtain ⟨timed, i, hpc⟩ := ht₀
      have hmoves := Step.moves (P := fun _ _ => True) ⟨o, hst₀⟩ h₀.wellFormed ha
        fun _ _ => trivial
      exact hmoves.invariant (I := fun c => seq ≤ c.lock.read.waiterSeq)
        (fun _ _ _ hle hmv => hle.trans (hmv.waiterSeq_le .read)) h₀.wellFormed
        (h₀.wellFormed.seq_le .read t seq timed i hpc)
  obtain ⟨h, hf⟩ := hfollows
  have hw := h.wellFormed
  -- the reader is not the caller, so it still waits when the writer is in
  have htc : b.caller ≠ some t := by
    intro hbt
    rcases step_acquired hw hst hbt with hidle | hwrite
    · exact not_inFlight_of_idle hidle .read ht.inFlight
    · cases hwrite.mode_eq ht.inFlight
  have ht' : Waits c' .read t seq := by
    have hpc := (step_untouched hw.books hst hb htc).pc
    unfold Waits at ht ⊢
    rwa [hpc]
  exact step_acquired_write hw.books hb hst ((hf.step hp hw hst hb).placed ht').owner

/-! ### Who has a place after a handover -/

/-- A reader-phase fair lock keeps the turn on for those it signalled. -/
theorem Reachable.called (hp : cls.policy = .readerPhaseFair) (h : Reachable rt cls c) :
    Called c.lock :=
  h.of_move (I := fun c => Called c.lock) (fun _ ht => absurd rfl ht)
    fun _ _ hw hc hmv => hmv.called hp hw hc

/-- A release that finds a reader in the queue begins a phase for all who wait. -/
theorem placed_of_queued (hp : cls.policy = .readerPhaseFair ∨ cls.policy = .fair)
    (ho : cls.owner s = none) (hw : 0 < s.read.thoseWaiting) (hq : s.queue .read ≠ [])
    (hle : seq ≤ s.read.waiterSeq) : Placed cls (cls.onWriterAbort s none) seq := by
  have hgo : (decide (0 < s.read.thoseWaiting) && s.read.condition.hasWaiters) = true := by
    simp [hw, hq]
  refine ⟨((cls.signals_onWriterAbort s none).owner cls).trans ho, ?_, fun hf => ?_⟩
  · cases cls with
    | write | writeReentrantWriter | read | readReentrantWriter =>
        rcases hp with hp | hp <;> cases hp
    | readerPhaseFair | readerPhaseFairReentrantWriter =>
        exact (congrArg RWLock.readersTurn (if_pos hgo)).trans
          (RWLockReaderPhaseFairMixin.readersTurn_startReaderPhase s)
    | fair | fairReentrantWriter =>
        exact (congrArg RWLock.readersTurn (if_pos hgo)).trans
          ((RWLockFairMixin.readersTurn_startReaderPhase s).trans (decide_eq_true hw))
  · cases cls with
    | write | writeReentrantWriter | read | readReentrantWriter | readerPhaseFair
    | readerPhaseFairReentrantWriter => cases hf
    | fair | fairReentrantWriter =>
        refine hle.trans_eq (Eq.symm ?_)
        exact (congrArg RWLock.readerPhaseCutoff (if_pos hgo)).trans
          (RWLockFairMixin.readerPhaseCutoff_startReaderPhase s)

/-- A release leaves a phase that is on to those it includes. -/
theorem placed_of_turn (ho : cls.owner s = none) (hturn : s.readersTurn = true)
    (hcut : cls.policy = .fair → seq ≤ s.readerPhaseCutoff) (hle : seq ≤ s.read.waiterSeq) :
    Placed cls (cls.onWriterAbort s none) seq :=
  ⟨((cls.signals_onWriterAbort s none).owner cls).trans ho, LockClass.turn_onWriterAbort hturn _,
    fun hf => LockClass.le_cutoff_onWriterAbort (hcut hf) hle _⟩

/-- What the last release hands on: the lock before it, without its writer. -/
theorem unmark_freeWriter_fields (s : RWLock τ) (k : Option τ) :
    (s.unmark k).freeWriter.proxy = s.proxy ∧
      (s.unmark k).freeWriter.readersTurn = s.readersTurn ∧
      (s.unmark k).freeWriter.readerPhaseCutoff = s.readerPhaseCutoff := by
  obtain ⟨k', hk⟩ := s.unmark_frame k
  rw [hk]
  exact ⟨rfl, rfl, rfl⟩

/-- **In a reader-phase fair lock every last release and every downgrade drains the
waiting readers first.** -/
theorem readerPhaseFair_drains (hp : cls.policy = .readerPhaseFair) (h₀ : Reachable rt cls c₀)
    (hst : c₀.step rt cls a = some (o, c₁)) (ha : a.caller ≠ none)
    (hover : LastRelease cls c₀ o c₁ ∨ o = .downgraded) : DrainsFirst rt cls c₀ c₁ := by
  obtain ⟨u, hu⟩ := Option.ne_none_iff_exists'.1 ha
  have hw := h₀.wellFormed
  refine drainsFirst_of_placed (.inl hp) h₀ hst ha fun t seq ht => ?_
  obtain ⟨timed, i, hpc⟩ := ht
  have hfl : InFlight c₀.pc .read t := ⟨_, _, _, hpc⟩
  have hle := hw.seq_le .read t seq timed i hpc
  rcases hover with hlast | rfl
  · obtain ⟨hproxy, hturn, hcut⟩ := unmark_freeWriter_fields c₀.lock (some u)
    rw [lock_lastRelease hw hst hu hlast]
    by_cases hq : c₀.lock.queue .read = []
    · refine placed_of_turn (by simp) ?_ (fun hf => ?_) (by rwa [RWLock.read, hproxy])
      · rw [hturn]
        refine (h₀.called hp t (h₀.parked .read t hfl)).resolve_left ?_
        rw [hq]
        exact List.not_mem_nil
      · rw [hp] at hf
        cases hf
    · refine placed_of_queued (.inl hp) (by simp) ?_ ?_ (by rwa [RWLock.read, hproxy])
      · rw [RWLock.read, hproxy]
        exact hw.thoseWaiting_pos hfl
      · rwa [RWLock.queue, hproxy]
  · cases step_deed hw hst hu with
    | waits _ _ _ _ hloop | goesOn _ _ _ hloop => cases hloop
    | downgrades =>
        have hdown : cls.onDowngrade (c₀.lock.freeWriter.enterReader (some u)) =
            RWLockReaderPhaseFairMixin.startReaderPhase
              (c₀.lock.freeWriter.enterReader (some u)) := by
          unfold LockClass.onDowngrade
          simp only [hp]
        refine ⟨((cls.signals_onDowngrade _).owner cls).trans (by simp), ?_, fun hf => ?_⟩
        · exact (congrArg RWLock.readersTurn hdown).trans
            (RWLockReaderPhaseFairMixin.readersTurn_startReaderPhase _)
        · rw [hp] at hf
          cases hf

/-- A cancelled writer has signalled the waiting reader while the owner still writes. -/
theorem readerPhaseFair_drains_signalled : ∃ c₀ c₁ : System ℕ,
    Waits c₀ .read 1 1 ∧ c₀.lock.queue .read = [] ∧
      DrainsFirst .async .readerPhaseFairReentrantWriter c₀ c₁ := by
  have hrun : ((Transition.replay (next InTask .async .readerPhaseFairReentrantWriter)
      ({} : System ℕ) [.acquire 0 .write .forever false, .acquire 1 .read .forever false,
        .acquire 2 .write .forever false, .interrupt 2, .resume 2 false]).bind fun c₀ =>
        (c₀.step .async .readerPhaseFairReentrantWriter (.release (some 0) .write)).map fun r =>
          (c₀.pc 1, c₀.lock.queue .read, decide (LastRelease .readerPhaseFairReentrantWriter
            c₀ r.1 r.2))) =
      some (.waiting .read 1 false false, [], true) := by
    decide
  obtain ⟨c₀, h₀, hrun⟩ := Option.bind_eq_some_iff.1 hrun
  obtain ⟨⟨o, c₁⟩, h₁, hval⟩ := Option.map_eq_some_iff.1 hrun
  simp only [Prod.mk.injEq] at hval
  obtain ⟨hpc, hq, hlast⟩ := hval
  exact ⟨c₀, c₁, ⟨_, _, hpc⟩, hq, readerPhaseFair_drains rfl ⟨_, _, rfl, run_of_replay h₀⟩ h₁
    (by simp [Action.caller]) (.inl (of_decide_eq_true hlast))⟩

end System

end Rwlocker

/-
# Reader phases

The two fair policies serve readers in phases.  A phase that is on always has
somebody to serve (`TurnServed`): an active reader, or a waiting one
(reader-phase fair), or an open slot (strict fair).

In the strict fair policy the slots are counted (`Slots`): while the turn is on,
`_reader_phase_pending` is the number of read acquires in flight that registered
before the phase began, that is, with a sequence number of at most
`_reader_phase_cutoff`; while it is off there is no slot.
-/

import Rwlocker.HandOffMove

namespace Rwlocker

open ReadersWriter (Holds)
open RWLock (Signals)

variable {τ : Type} [DecidableEq τ]

/-- A phase that is on has somebody to serve. -/
def TurnServed (cls : LockClass) (s : RWLock τ) : Prop :=
  s.readersTurn = true → 0 < s.readersActive ∨
    match cls.policy with
    | .write | .read => True
    | .readerPhaseFair => 0 < s.read.thoseWaiting
    | .fair => 0 < s.readerPhasePending

omit [DecidableEq τ] in
/-- A writer is admitted while the turn is off only: a phase that is on has readers to
serve. -/
theorem TurnServed.turn_off {cls : LockClass}
    (hp : cls.policy = .readerPhaseFair ∨ cls.policy = .fair) {s : RWLock τ}
    (hs : TurnServed cls s) (hadm : cls.AdmitsWriter s) : s.readersTurn = false := by
  obtain ⟨-, hidle, hphase⟩ := hadm
  by_contra hturn
  have hon : s.readersTurn = true := by simpa using hturn
  have hserved := (hs hon).resolve_left (by omega)
  rcases hp with hp | hp
  · simp only [hp] at hserved hphase
    exact hphase ⟨hon, hserved⟩
  · simp only [hp] at hserved hphase
    exact hphase ⟨hon, hserved⟩

/-- `t` is in flight and registered before the phase with this cutoff began. -/
def Reserved (pc : τ → Pc) (cutoff : ℕ) (t : τ) : Prop :=
  ∃ seq timed i, pc t = .waiting .read seq timed i ∧ seq ≤ cutoff

/-- The slots of a strict fair phase (module doc). -/
structure Slots (s : RWLock τ) (pc : τ → Pc) : Prop where
  cutoff_le : s.readerPhaseCutoff ≤ s.read.waiterSeq
  off : s.readersTurn = false → s.readerPhasePending = 0
  on : s.readersTurn = true → ∃ F : Finset τ,
    (∀ t, t ∈ F ↔ Reserved pc s.readerPhaseCutoff t) ∧ s.readerPhasePending = F.card

variable {cls : LockClass} {s s' : RWLock τ} {pc pc' : τ → Pc} {m : Mode} {t : τ} {p : Pc}

/-! ### Somebody to serve -/

namespace TurnServed

omit [DecidableEq τ] in
/-- A reader in the lock is one to serve. -/
theorem of_reading (h : 0 < s.readersActive) : TurnServed cls s := fun _ => .inl h

omit [DecidableEq τ] in
/-- A turn that is off serves nobody. -/
theorem of_off (h : s.readersTurn = false) : TurnServed cls s := fun ht => by
  rw [h] at ht
  cases ht

omit [DecidableEq τ] in
/-- The turn, the readers and the slots are all that matters, and a waiting
reader more does no harm. -/
theorem mono (h : TurnServed cls s) (hturn : s'.readersTurn = s.readersTurn)
    (hra : s'.readersActive = s.readersActive)
    (hpend : s'.readerPhasePending = s.readerPhasePending)
    (hw : s.read.thoseWaiting ≤ s'.read.thoseWaiting) : TurnServed cls s' := by
  intro ht
  rw [hra, hpend]
  refine (h (hturn ▸ ht)).imp_right fun h => ?_
  cases hp : cls.policy with
  | write | read => trivial
  | readerPhaseFair =>
      simp only [hp] at h ⊢
      omega
  | fair => simpa only [hp] using h

/-- A notify leaves the turn alone. -/
theorem notify (h : TurnServed cls s) (m : Mode) (n : ℤ) : TurnServed cls (s.notify m n) :=
  h.mono rfl rfl rfl ((Signals.notify s m n).thoseWaiting .read).ge

/-- Whatever a last reader leaves behind is served. -/
theorem finishOrContinue (s : RWLock τ) :
    (cls.policy = .readerPhaseFair →
      TurnServed cls (RWLockReaderPhaseFairMixin.finishOrContinueReaderPhase s)) ∧
    (cls.policy = .fair → TurnServed cls (RWLockFairMixin.finishOrContinueReaderPhase s)) := by
  constructor
  · intro hp
    unfold RWLockReaderPhaseFairMixin.finishOrContinueReaderPhase
    split_ifs with ht
    · simp only [Bool.and_eq_true, decide_eq_true_eq] at ht
      refine fun _ => .inr ?_
      simp only [hp]
      rw [RWLock.read, (RWLockReaderPhaseFairMixin.signals_wakeWaitingReader s).thoseWaiting]
      exact ht.2
    · exact .of_off (by dsimp only; split_ifs <;> rfl)
  · intro hp
    unfold RWLockFairMixin.finishOrContinueReaderPhase
    split_ifs with ht
    · simp only [Bool.and_eq_true, decide_eq_true_eq] at ht
      refine fun _ => .inr ?_
      simp only [hp]
      rw [RWLockFairMixin.readerPhasePending_wakeWaitingReader]
      exact ht.2
    · exact .of_off (by dsimp only; split_ifs <;> rfl)

/-- The last reader ends a turn with nobody left to serve. -/
theorem onReaderLeave (hra : 0 ≤ s.readersActive) : TurnServed cls (cls.onReaderLeave s) := by
  have hs := cls.signals_onReaderLeave s
  by_cases hz : s.readersActive = 0
  · unfold LockClass.onReaderLeave
    cases hp : cls.policy with
    | write | read =>
        refine fun _ => .inr ?_
        simp only [hp]
    | readerPhaseFair =>
        simp only [hz, beq_self_eq_true, if_true]
        exact (finishOrContinue s).1 hp
    | fair =>
        simp only [hz, beq_self_eq_true, if_true]
        exact (finishOrContinue s).2 hp
  · refine .of_reading ?_
    rw [hs.readersActive]
    omega

/-- Whoever finds a strict fair phase after a reader gave up leaves it served. -/
theorem continueReaderPhase (hp : cls.policy = .fair) (hz : s.readersActive = 0) :
    TurnServed cls
      (if s.readersTurn && decide (0 < s.readerPhasePending) then
          RWLockFairMixin.wakeWaitingReader s
        else if s.readersTurn && s.readersActive == 0 then
          RWLockFairMixin.finishOrContinueReaderPhase s
        else s) := by
  split_ifs with ht hra
  · simp only [Bool.and_eq_true, decide_eq_true_eq] at ht
    refine fun _ => .inr ?_
    simp only [hp]
    rw [RWLockFairMixin.readerPhasePending_wakeWaitingReader]
    exact ht.2
  · exact (finishOrContinue s).2 hp
  · exact .of_off (by simpa [hz] using hra)

/-- So does a reader that gives up when nobody reads. -/
theorem onReaderAbort (hra : 0 ≤ s.readersActive) (waiterSeq : Option ℕ) :
    TurnServed cls (cls.onReaderAbort s waiterSeq) := by
  have hs := cls.signals_onReaderAbort s waiterSeq
  by_cases hz : s.readersActive = 0
  · cases cls with
    | write | writeReentrantWriter | read | readReentrantWriter => exact fun _ => .inr trivial
    | readerPhaseFair | readerPhaseFairReentrantWriter =>
        show TurnServed _ (RWLockReaderPhaseFairMixin.onReaderAbort s waiterSeq)
        unfold RWLockReaderPhaseFairMixin.onReaderAbort
        split_ifs with ht
        · exact (finishOrContinue s).1 rfl
        · exact .of_off (by simpa [hz] using ht)
    | fair | fairReentrantWriter =>
        show TurnServed _ (RWLockFairMixin.onReaderAbort s waiterSeq)
        refine continueReaderPhase rfl ?_
        split_ifs <;> exact hz
  · refine .of_reading ?_
    rw [hs.readersActive]
    omega

/-- A turn that begins has waiting readers to serve. -/
theorem onWriterAbort (h : TurnServed cls s) (waiterSeq : Option ℕ) :
    TurnServed cls (cls.onWriterAbort s waiterSeq) := by
  cases cls with
  | write | writeReentrantWriter | read | readReentrantWriter => exact fun _ => .inr trivial
  | readerPhaseFair | readerPhaseFairReentrantWriter =>
      show TurnServed _ (RWLockReaderPhaseFairMixin.onWriterAbort _ s waiterSeq)
      unfold RWLockReaderPhaseFairMixin.onWriterAbort
      split_ifs with hr
      · refine fun _ => .inr ?_
        simp only [LockClass.policy]
        rw [RWLock.read, (RWLockReaderPhaseFairMixin.signals_startReaderPhase s).thoseWaiting]
        simpa using (Bool.and_eq_true_iff.1 hr).1
      · exact h.notify .write 1
      · exact h
  | fair | fairReentrantWriter =>
      show TurnServed _ (RWLockReaderPhaseFairMixin.onWriterAbort _ s waiterSeq)
      unfold RWLockReaderPhaseFairMixin.onWriterAbort
      split_ifs with hr
      · refine fun _ => .inr ?_
        simp only [LockClass.policy]
        rw [RWLockFairMixin.readerPhasePending_startReaderPhase]
        simpa using (Bool.and_eq_true_iff.1 hr).1
      · exact h.notify .write 1
      · exact h

end TurnServed

variable {P : Holds (Option τ) → Option τ → Prop} {rt : Runtime} {c c' : System τ}

/-- **Every move leaves a phase that is on with somebody to serve.** -/
theorem Move.turnServed (hmv : Move P rt cls c c') (h : WellFormed cls c.lock c.pc)
    (hs : TurnServed cls c.lock) : TurnServed cls c'.lock := by
  have hra := h.books.readersActive_nonneg
  cases hmv with
  | @register t m timed hpc hst =>
      refine hs.mono rfl rfl rfl ?_
      have := c.lock.thoseWaiting_startWaiting m .read
      show (c.lock.proxy .read).thoseWaiting ≤ ((c.lock.startWaiting m).proxy .read).thoseWaiting
      rw [this]
      split_ifs <;> omega
  | endWait | park | cancel => exact hs.mono rfl rfl rfl (by simp [System.endWait])
  | @abort t m seq timed i hpc hgone =>
      cases m with
      | read => exact TurnServed.onReaderAbort (s := c.lock.stopWaiting .read) hra _
      | write =>
          refine TurnServed.onWriterAbort (s := c.lock.stopWaiting .write)
            (hs.mono rfl rfl rfl ?_) _
          simp [RWLock.thoseWaiting_stopWaiting]
  | @enterRead t hpc ho =>
      refine .of_reading ?_
      show 0 < (cls.onReaderEnter false none (c.lock.enterReader (some t))).readersActive
      rw [(cls.signals_onReaderEnter _ _ _).readersActive]
      show 0 < c.lock.readersActive + 1
      omega
  | @enterReadWaiting t seq timed i hpc hgone hadm =>
      refine .of_reading ?_
      show 0 < (cls.onReaderEnter true (some seq) (c.lock.enterReader (some t))).readersActive
      rw [(cls.signals_onReaderEnter _ _ _).readersActive]
      show 0 < c.lock.readersActive + 1
      omega
  | @enterWrite t hpc hadm =>
      have hown : TurnServed cls (c.lock.ownWriter cls (some t)) := by
        obtain ⟨_, _, _, _, h⟩ := c.lock.ownWriter_frame cls (some t)
        rw [h]
        exact hs
      cases rt <;> exact hown
  | @enterWriteWaiting t seq timed i hpc hgone hadm =>
      have hown : TurnServed cls ((c.lock.ownWriter cls (some t)).stopWaiting .write) := by
        obtain ⟨_, _, _, _, h⟩ := c.lock.ownWriter_frame cls (some t)
        rw [h]
        exact hs.mono rfl rfl rfl (by simp [RWLock.thoseWaiting_stopWaiting])
      cases rt <;> exact hown
  | timeout | clear | unmark | releaseNested => exact hs
  | releaseRead hpc hcount =>
      refine .onReaderLeave ?_
      show 0 ≤ c.lock.readersActive - 1
      have := h.books.readersActive_pos hcount
      omega
  | releaseRouted hpc hm hcount hP =>
      refine .onReaderLeave ?_
      show 0 ≤ c.lock.readersActive - 1
      have := h.books.readersActive_pos hcount
      omega
  | releaseFinal =>
      exact TurnServed.onWriterAbort (s := c.lock.freeWriter) hs none
  | @downgrade t hpc ho hd =>
      refine .of_reading ?_
      show 0 < (cls.onDowngrade (c.lock.freeWriter.enterReader (some t))).readersActive
      rw [(cls.signals_onDowngrade _).readersActive]
      show 0 < c.lock.readersActive + 1
      omega

/-- **A turn that is on has somebody to serve**, in every reachable state. -/
theorem System.Reachable.turnServed (h : System.Reachable rt cls c) : TurnServed cls c.lock :=
  h.of_move (I := fun c => TurnServed cls c.lock) (.of_off rfl)
    fun _ _ hw hs hmv => hmv.turnServed hw hs

/-! ### The slots of a strict fair phase -/

/-- A reader that gives up spends its slot like one that enters, and then continues or
finishes the phase. -/
theorem RWLockFairMixin.onReaderAbort_eq (s : RWLock τ) (seq : ℕ) :
    onReaderAbort s (some seq) =
      let s := consumeReaderPhaseSlot s true (some seq)
      if s.readersTurn && decide (0 < s.readerPhasePending) then wakeWaitingReader s
      else if s.readersTurn && s.readersActive == 0 then finishOrContinueReaderPhase s
      else s := by
  have hspent : (if s.readersTurn && ((some seq).any fun seq => decide (seq ≤ s.readerPhaseCutoff))
      && decide (0 < s.readerPhasePending) then
        { s with readerPhasePending := s.readerPhasePending - 1 } else s) =
      consumeReaderPhaseSlot s true (some seq) := by
    unfold consumeReaderPhaseSlot
    refine if_congr ?_ rfl rfl
    rw [isReservedReader_iff]
    simp [and_assoc]
  rw [onReaderAbort, hspent]

omit [DecidableEq τ] in
/-- Whoever has a slot is in a call. -/
theorem Reserved.inFlight {cutoff : ℕ} (h : Reserved pc cutoff t) : InFlight pc .read t := by
  obtain ⟨seq, timed, i, h, -⟩ := h
  exact ⟨seq, timed, i, h⟩

/-- A caller's move leaves the slots of the others. -/
theorem reserved_update_of_ne {cutoff : ℕ} {u : τ} (hu : u ≠ t) :
    Reserved (Function.update pc t p) cutoff u ↔ Reserved pc cutoff u := by
  simp [Reserved, hu]

namespace Slots

omit [DecidableEq τ] in
/-- A new lock has no phase. -/
theorem init : Slots ({} : RWLock τ) fun _ => .idle where
  cutoff_le := le_rfl
  off _ := rfl
  on h := by cases h

omit [DecidableEq τ] in
/-- The phase fields stay, and so does everybody with a slot. -/
theorem congr (h : Slots s pc) (hturn : s'.readersTurn = s.readersTurn)
    (hcut : s'.readerPhaseCutoff = s.readerPhaseCutoff)
    (hpend : s'.readerPhasePending = s.readerPhasePending)
    (hseq : s.read.waiterSeq ≤ s'.read.waiterSeq)
    (hres : ∀ t, Reserved pc' s.readerPhaseCutoff t ↔ Reserved pc s.readerPhaseCutoff t) :
    Slots s' pc' where
  cutoff_le := by
    rw [hcut]
    exact h.cutoff_le.trans hseq
  off ht := by
    rw [hpend]
    exact h.off (hturn ▸ ht)
  on ht := by
    obtain ⟨F, hF, hcard⟩ := h.on (hturn ▸ ht)
    refine ⟨F, fun t => ?_, hpend.trans hcard⟩
    rw [hF, hcut, hres]

omit [DecidableEq τ] in
/-- The marker is no part of the phase. -/
theorem marker (h : Slots s pc) (k : Option τ) : Slots { s with downgraded := k } pc :=
  h.congr rfl rfl rfl le_rfl fun _ => Iff.rfl

/-- A caller without a slot moves. -/
theorem goto (h : Slots s pc) (ht : ¬ Reserved pc s.readerPhaseCutoff t)
    (ht' : ¬ Reserved (Function.update pc t p) s.readerPhaseCutoff t) :
    Slots s (Function.update pc t p) := by
  refine h.congr rfl rfl rfl le_rfl fun u => ?_
  by_cases hut : u = t
  · subst hut
    exact iff_of_false ht' ht
  · exact reserved_update_of_ne hut

/-- Signals that leave the phase fields alone leave the slots alone. -/
theorem notify (h : Slots s pc) (m : Mode) (n : ℤ) : Slots (s.notify m n) pc :=
  h.congr rfl rfl rfl ((Signals.notify s m n).waiterSeq .read).ge fun _ => Iff.rfl

/-- Waking the readers leaves the slots. -/
theorem wakeWaitingReader (h : Slots s pc) :
    Slots (RWLockFairMixin.wakeWaitingReader s) pc := by
  unfold RWLockFairMixin.wakeWaitingReader
  split_ifs
  · exact h
  · exact h.notify .read _

omit [DecidableEq τ] in
/-- A phase that is over has no slots. -/
theorem closed (hturn : s.readersTurn = false) (hcut : s.readerPhaseCutoff = 0)
    (hpend : s.readerPhasePending = 0) : Slots s pc where
  cutoff_le := by
    rw [hcut]
    exact Nat.zero_le _
  off _ := hpend
  on ht := by
    rw [hturn] at ht
    cases ht

/-- A phase that ends has no slots. -/
theorem finishOrContinueReaderPhase (h : Slots s pc) :
    Slots (RWLockFairMixin.finishOrContinueReaderPhase s) pc := by
  unfold RWLockFairMixin.finishOrContinueReaderPhase
  dsimp only
  split_ifs
  · exact h.wakeWaitingReader
  · exact .closed rfl rfl rfl
  · exact .closed rfl rfl rfl

/-- **A phase that begins has one slot for each reader in flight.** -/
theorem startReaderPhase (h : WellFormed cls s pc) :
    Slots (RWLockFairMixin.startReaderPhase s) pc := by
  have hbegin : Slots { s with
      readersTurn := decide (0 < s.read.thoseWaiting)
      readerPhasePending := s.read.thoseWaiting
      readerPhaseCutoff := s.read.waiterSeq } pc := by
    refine ⟨le_rfl, fun ht => ?_, fun _ => ?_⟩
    · have hnn := h.thoseWaiting_nonneg .read
      simp only [decide_eq_false_iff_not] at ht
      simp only [RWLock.read] at ht ⊢
      omega
    · obtain ⟨F, hF, hcard⟩ := h.flight .read
      refine ⟨F, fun t => (hF t).trans ⟨?_, Reserved.inFlight⟩, hcard⟩
      rintro ⟨seq, timed, i, hpc⟩
      exact ⟨seq, timed, i, hpc, h.seq_le .read t seq timed i hpc⟩
  unfold RWLockFairMixin.startReaderPhase
  dsimp only
  split_ifs
  · exact hbegin.wakeWaitingReader
  · exact hbegin

/-- **A registered reader takes its slot along**, when it enters and when it gives
up. -/
theorem spend {seq : ℕ} {timed i : Bool} (h : Slots s pc)
    (hpc : pc t = .waiting .read seq timed i) (hp : ∀ m seq timed i, p ≠ .waiting m seq timed i) :
    Slots (RWLockFairMixin.consumeReaderPhaseSlot s true (some seq)) (Function.update pc t p) := by
  have hgone : ∀ cutoff, ¬ Reserved (Function.update pc t p) cutoff t := fun _ hr =>
    not_inFlight_update hp .read hr.inFlight
  have hres : Reserved pc s.readerPhaseCutoff t ↔ seq ≤ s.readerPhaseCutoff := by
    constructor
    · rintro ⟨seq', timed', i', h', hle⟩
      rw [hpc] at h'
      cases h'
      exact hle
    · exact fun hle => ⟨seq, timed, i, hpc, hle⟩
  unfold RWLockFairMixin.consumeReaderPhaseSlot
  split_ifs with hr
  · obtain ⟨hturn, hle, hpos⟩ := (RWLockFairMixin.isReservedReader_iff s seq).1 hr
    refine ⟨h.cutoff_le, fun ht => ?_, fun _ => ?_⟩
    · rw [show s.readersTurn = false from ht] at hturn
      cases hturn
    · obtain ⟨F, hF, hcard⟩ := h.on hturn
      have htF := (hF t).2 (hres.2 hle)
      refine ⟨F.erase t, fun u => ?_, ?_⟩
      · rw [Finset.mem_erase, hF]
        by_cases hut : u = t
        · subst hut
          exact iff_of_false (fun h => h.1 rfl) (hgone _)
        · rw [reserved_update_of_ne hut]
          exact and_iff_right hut
      · have := Finset.card_pos.2 ⟨t, htF⟩
        rw [Finset.card_erase_of_mem htF]
        simp only
        omega
  · cases hturn : s.readersTurn with
    | false =>
        refine ⟨h.cutoff_le, fun _ => h.off hturn, fun ht => ?_⟩
        rw [hturn] at ht
        cases ht
    | true =>
        refine h.goto (fun hresv => hr ?_) (hgone _)
        obtain ⟨F, hF, hcard⟩ := h.on hturn
        have := Finset.card_pos.2 ⟨t, (hF t).2 hresv⟩
        exact (RWLockFairMixin.isReservedReader_iff s seq).2 ⟨hturn, hres.1 hresv, by omega⟩

/-- A reader that enters gives its slot back. -/
theorem onReaderEnter (hp : cls.policy = .fair) {waiterSeq : Option ℕ} {waiting : Bool}
    (h : Slots (RWLockFairMixin.consumeReaderPhaseSlot s waiting waiterSeq) pc) :
    Slots (cls.onReaderEnter waiting waiterSeq s) pc := by
  unfold LockClass.onReaderEnter
  simp only [hp]
  split_ifs
  · exact h.wakeWaitingReader
  · exact h

/-- A reader that leaves ends the phase or leaves the slots. -/
theorem onReaderLeave (hp : cls.policy = .fair) (h : Slots s pc) :
    Slots (cls.onReaderLeave s) pc := by
  unfold LockClass.onReaderLeave
  simp only [hp]
  split_ifs
  · exact h.finishOrContinueReaderPhase
  · exact h

/-- A reader that gives up gives its slot back. -/
theorem onReaderAbort (hp : cls.policy = .fair) {seq : ℕ}
    (h : Slots (RWLockFairMixin.consumeReaderPhaseSlot s true (some seq)) pc) :
    Slots (cls.onReaderAbort s (some seq)) pc := by
  rw [LockClass.onReaderAbort_of_fair hp, RWLockFairMixin.onReaderAbort_eq]
  dsimp only
  split_ifs
  · exact h.wakeWaitingReader
  · exact h.finishOrContinueReaderPhase
  · exact h

/-- A handover begins a phase with a slot for each, or leaves the slots. -/
theorem onWriterAbort (hp : cls.policy = .fair) (hw : WellFormed cls s pc) (h : Slots s pc)
    (waiterSeq : Option ℕ) : Slots (cls.onWriterAbort s waiterSeq) pc := by
  rw [LockClass.onWriterAbort_of_fair hp, RWLockReaderPhaseFairMixin.onWriterAbort]
  split_ifs
  · exact startReaderPhase hw
  · exact h.notify .write 1
  · exact h

omit [DecidableEq τ] in
/-- Whoever is not a waiting reader has no slot. -/
theorem not_reserved {cutoff : ℕ} (h : ∀ seq timed i, pc t ≠ .waiting .read seq timed i) :
    ¬ Reserved pc cutoff t := by
  rintro ⟨seq, timed, i, hpc, -⟩
  exact h seq timed i hpc

/-- A caller that does not wait to read goes on. -/
theorem leave (h : Slots s pc) (t : τ) (p : Pc)
    (ht : ∀ seq timed i, pc t ≠ .waiting .read seq timed i)
    (hp : ∀ seq timed i, p ≠ .waiting .read seq timed i) : Slots s (Function.update pc t p) :=
  h.goto (not_reserved ht) (not_reserved (by simpa using hp))

/-- New flags leave the slots alone. -/
theorem reflag {seq : ℕ} {timed i j : Bool} (h : Slots s pc)
    (hpc : pc t = .waiting m seq timed i) :
    Slots s (Function.update pc t (.waiting m seq timed j)) := by
  refine h.congr rfl rfl rfl le_rfl fun u => ?_
  by_cases hut : u = t
  · subst hut
    simp only [Reserved, Function.update_self, hpc, Pc.waiting.injEq]
    constructor <;> rintro ⟨seq', timed', i', ⟨rfl, rfl, rfl, rfl⟩, hle⟩
    · exact ⟨_, _, _, ⟨rfl, rfl, rfl, rfl⟩, hle⟩
    · exact ⟨_, _, _, ⟨rfl, rfl, rfl, rfl⟩, hle⟩
  · exact reserved_update_of_ne hut

end Slots

/-- **Every move keeps the slots of a strict fair lock.** -/
theorem Move.slots (hp : cls.policy = .fair) (hmv : Move P rt cls c c')
    (hw : WellFormed cls c.lock c.pc) (h : Slots c.lock c.pc) : Slots c'.lock c'.pc := by
  have hw' := hmv.wellFormed hw
  cases hmv with
  | @register t m timed hpc hst =>
      have hreg : Slots (c.lock.startWaiting m) c.pc :=
        h.congr rfl rfl rfl (by
          show _ ≤ ((c.lock.startWaiting m).proxy .read).waiterSeq
          rw [RWLock.waiterSeq_startWaiting]
          exact Nat.le_add_right ..) fun _ => Iff.rfl
      refine hreg.goto (Slots.not_reserved (by simp [hpc])) ?_
      rintro ⟨seq, timed', i, hpc', hle⟩
      rw [Function.update_self] at hpc'
      cases hpc'
      have := h.cutoff_le
      exact absurd (hle.trans this) (by simp)
  | endWait => exact h.congr rfl rfl rfl (by simp [System.endWait]) fun _ => Iff.rfl
  | park hpc hgone hno =>
      exact Slots.reflag (h.congr rfl rfl rfl (by simp) fun _ => Iff.rfl) hpc
  | @abort t m seq timed i hpc hgone =>
      have hl := hw.leave ⟨_, _, _, hpc⟩ hgone (p := .idle) (by simp)
      have hstop : Slots (c.lock.stopWaiting m) c.pc :=
        h.congr rfl rfl rfl (by simp) fun _ => Iff.rfl
      cases m with
      | read => exact .onReaderAbort hp (hstop.spend hpc (by simp))
      | write =>
          exact .onWriterAbort hp hl (hstop.leave t .idle (by simp [hpc]) (by simp)) _
  | @enterRead t hpc ho =>
      have hin : Slots (c.lock.enterReader (some t)) c.pc :=
        h.congr rfl rfl rfl le_rfl fun _ => Iff.rfl
      have henter : Slots (cls.onReaderEnter false none (c.lock.enterReader (some t))) c.pc :=
        .onReaderEnter hp hin
      exact henter.leave t .idle (by simp [hpc]) (by simp)
  | @enterReadWaiting t seq timed i hpc hgone hadm =>
      have hin : Slots (c.lock.enterReader (some t)) c.pc :=
        h.congr rfl rfl rfl le_rfl fun _ => Iff.rfl
      have henter := Slots.onReaderEnter hp (hin.spend (p := .idle) hpc (by simp))
      exact henter.congr rfl rfl rfl (by simp [System.succeed]) fun _ => Iff.rfl
  | @enterWrite t hpc hadm =>
      have hown : Slots (c.lock.ownWriter cls (some t)) c.pc := by
        obtain ⟨_, _, _, _, hf⟩ := c.lock.ownWriter_frame cls (some t)
        rw [hf]
        exact h.congr rfl rfl rfl le_rfl fun _ => Iff.rfl
      cases rt with
      | thread => exact hown.leave t .clearing (by simp [hpc]) (by simp)
      | async => exact (hown.leave t .idle (by simp [hpc]) (by simp)).marker none
  | @enterWriteWaiting t seq timed i hpc hgone hadm =>
      have hown : Slots ((c.lock.ownWriter cls (some t)).stopWaiting .write) c.pc := by
        obtain ⟨_, _, _, _, hf⟩ := c.lock.ownWriter_frame cls (some t)
        rw [hf]
        exact h.congr rfl rfl rfl (by simp) fun _ => Iff.rfl
      cases rt with
      | thread => exact hown.leave t .clearing (by simp [hpc]) (by simp)
      | async => exact (hown.leave t .idle (by simp [hpc]) (by simp)).marker none
  | timeout hpc => exact h.reflag hpc
  | cancel hpc => exact Slots.reflag (h.congr rfl rfl rfl (by simp) fun _ => Iff.rfl) hpc
  | @clear t hpc => exact (h.leave t .idle (by simp [hpc]) (by simp)).marker none
  | unmark | releaseNested => exact h.congr rfl rfl rfl le_rfl fun _ => Iff.rfl
  | @releaseRead t hpc hcount =>
      have hout : Slots (c.lock.dropReader (some t)) c.pc :=
        h.congr rfl rfl rfl le_rfl fun _ => Iff.rfl
      exact hout.onReaderLeave hp
  | @releaseRouted t hpc hm hcount hP =>
      have hout :
          Slots (({ c.lock with downgraded := none } : RWLock τ).dropReader (some t)) c.pc :=
        h.congr rfl rfl rfl le_rfl fun _ => Iff.rfl
      exact hout.onReaderLeave hp
  | releaseFinal =>
      have hfree : Slots c.lock.freeWriter c.pc := h.congr rfl rfl rfl le_rfl fun _ => Iff.rfl
      exact .onWriterAbort hp hw.freeWriter hfree none
  | @downgrade t hpc ho hd =>
      have hdown : cls.onDowngrade (c.lock.freeWriter.enterReader (some t)) =
          RWLockFairMixin.startReaderPhase (c.lock.freeWriter.enterReader (some t)) := by
        unfold LockClass.onDowngrade
        simp only [hp]
      have hstart := Slots.startReaderPhase
        (hw.freeWriter.enterReader (not_inFlight_of_idle hpc) (.inl (by simp)))
      rw [← hdown] at hstart
      exact hstart.congr rfl rfl rfl le_rfl fun _ => Iff.rfl

/-- **The slots are right in every reachable state** of a strict fair lock. -/
theorem System.Reachable.slots (hp : cls.policy = .fair) (h : System.Reachable rt cls c) :
    Slots c.lock c.pc :=
  h.of_move (I := fun c => Slots c.lock c.pc) .init fun _ _ hw hs hmv => hmv.slots hp hw hs

/-- **The slot accounting of a strict fair phase never drifts.**  While the turn is on,
`_reader_phase_pending` counts the read acquires in flight that registered before the
phase began, and there is such a one or an active reader; while it is off, there is no
slot. -/
theorem System.slot_accounting (hp : cls.policy = .fair) (h : System.Reachable rt cls c) :
    (c.lock.readersTurn = true →
      (∃ F : Finset τ, (∀ t, t ∈ F ↔ Reserved c.pc c.lock.readerPhaseCutoff t) ∧
        c.lock.readerPhasePending = F.card) ∧
      (0 < c.lock.readerPhasePending ∨ 0 < c.lock.readersActive)) ∧
    (c.lock.readersTurn = false → c.lock.readerPhasePending = 0) := by
  have hslots := h.slots hp
  refine ⟨fun hturn => ⟨hslots.on hturn, ?_⟩, hslots.off⟩
  have hserved := h.turnServed hturn
  simp only [hp] at hserved
  exact hserved.symm

/-- A writer gives up while the lock is held and two readers wait: the phase it opens has
a slot for each. -/
theorem System.slot_accounting_abort : ∃ c : System ℕ,
    c.lock.readersTurn = true ∧ c.lock.readerPhasePending = 2 ∧
      (c.lock.readersTurn = true →
        (∃ F : Finset ℕ, (∀ t, t ∈ F ↔ Reserved c.pc c.lock.readerPhaseCutoff t) ∧
          c.lock.readerPhasePending = F.card) ∧
        (0 < c.lock.readerPhasePending ∨ 0 < c.lock.readersActive)) ∧
      (c.lock.readersTurn = false → c.lock.readerPhasePending = 0) := by
  have hrun : ((Transition.replay (next InTask .thread .fair) ({} : System ℕ)
      [.acquire 0 .write .forever false, .clear 0, .acquire 1 .read .forever false,
        .acquire 2 .read .forever false, .acquire 3 .write .timed false, .interrupt 3,
        .resume 3 true]).map fun c =>
        (c.lock.readersTurn, c.lock.readerPhasePending)) = some (true, 2) := by
    decide
  obtain ⟨c, hc, hval⟩ := Option.map_eq_some_iff.1 hrun
  simp only [Prod.mk.injEq] at hval
  exact ⟨c, hval.1, hval.2, System.slot_accounting rfl ⟨_, _, rfl, System.run_of_replay hc⟩⟩

end Rwlocker

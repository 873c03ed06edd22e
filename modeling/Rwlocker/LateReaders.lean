/-
# Late readers and waiting writers

A strict fair lock opens a reader phase only where the write lock is handed over: at
the last write release, at a downgrade, and where a waiting writer gives up
(`HandsOver`).  Between two such steps the phase can only shrink
(`quiet_shrinks`): no reader gets a slot that had none.

While a writer waits, a caller that holds nothing reads by spending a slot.  So
along a run without a handover and with a writer waiting, such acquisitions number at
most the slots there were, and each is made by a reader that registered before the
phase began.
-/

import Rwlocker.Deed

namespace Rwlocker

variable {τ : Type} [DecidableEq τ]

namespace System

/-- A call of `write.acquire()` that has registered, or registers in this very step. -/
def WriterWaits (c : System τ) : Action τ → Prop
  | .acquire _ m p _ => m = .write ∧ p ≠ .nonblocking
  | .resume t _ => InFlight c.pc .write t
  | .interrupt _ | .clear _ | .release _ _ | .downgrade _ => False

/-- The step hands the write lock over: the last write release, a downgrade, or a waiting
writer that gives up. -/
def HandsOver (cls : LockClass) (c : System τ) (a : Action τ) (o : Outcome) (c' : System τ) :
    Prop :=
  LastRelease cls c o c' ∨ o = .downgraded ∨ (o = .refused ∨ o = .cancelled) ∧ WriterWaits c a

instance (c : System τ) : (a : Action τ) → Decidable (WriterWaits c a)
  | .acquire _ m p _ => inferInstanceAs (Decidable (m = .write ∧ p ≠ .nonblocking))
  | .resume t _ => inferInstanceAs (Decidable (InFlight c.pc .write t))
  | .interrupt _ | .clear _ | .release _ _ | .downgrade _ => isFalse id

instance (cls : LockClass) (c : System τ) (a : Action τ) (o : Outcome) (c' : System τ) :
    Decidable (HandsOver cls c a o c') :=
  inferInstanceAs (Decidable (_ ∨ _))

/-- A step of a thread or task that does not hand the write lock over. -/
def Quiet (rt : Runtime) (cls : LockClass) (c : System τ) (a : Action τ) : Prop :=
  InTask c a ∧ ∀ r ∈ c.step rt cls a, ¬ HandsOver cls c a r.1 r.2

/-- A quiet step while a writer waits. -/
def Segment (rt : Runtime) (cls : LockClass) (c : System τ) (a : Action τ) : Prop :=
  Quiet rt cls c a ∧ 0 < c.lock.write.thoseWaiting

instance (rt : Runtime) (cls : LockClass) (c : System τ) (a : Action τ) :
    Decidable (Quiet rt cls c a) :=
  inferInstanceAs (Decidable (_ ∧ _))

instance (rt : Runtime) (cls : LockClass) (c : System τ) (a : Action τ) :
    Decidable (Segment rt cls c a) :=
  inferInstanceAs (Decidable (_ ∧ _))

/-- The lock has no hold of `t` on record. -/
def Newcomer (cls : LockClass) (c : System τ) (t : τ) : Prop :=
  c.lock.readerOwners.count (some t) = 0 ∧ cls.owner c.lock ≠ some t

instance (cls : LockClass) (c : System τ) (t : τ) : Decidable (Newcomer cls c t) :=
  inferInstanceAs (Decidable (_ ∧ _))

/-- The step is the read acquisition of a newcomer. -/
def LetsIn (rt : Runtime) (cls : LockClass) (c : System τ) (a : Action τ) : Prop :=
  (c.step rt cls a).map Prod.fst = some (.acquired .read) ∧ ∃ t ∈ a.caller, Newcomer cls c t

instance (rt : Runtime) (cls : LockClass) (c : System τ) (a : Action τ) :
    Decidable (LetsIn rt cls c a) :=
  inferInstanceAs (Decidable (_ ∧ _))

/-- How many read acquisitions of newcomers a list of actions makes. -/
def newReads (rt : Runtime) (cls : LockClass) : System τ → List (Action τ) → ℕ :=
  Transition.cost (fun c a => (c.step rt cls a).map Prod.snd)
    fun c a => if LetsIn rt cls c a then 1 else 0

variable {rt : Runtime} {cls : LockClass} {c c' c₀ : System τ} {t : τ} {m : Mode} {seq : ℕ}
  {timed : Bool} {a : Action τ} {o : Outcome}

/-! ### A quiet step opens no phase -/

omit [DecidableEq τ] in
/-- The phase fields stay. -/
theorem shrinks_of_eq {s s' : RWLock τ} (hturn : s'.readersTurn = s.readersTurn)
    (hcut : s'.readerPhaseCutoff = s.readerPhaseCutoff)
    (hpend : s'.readerPhasePending = s.readerPhasePending) : PhaseShrinks s s' :=
  fun ht => ⟨hturn ▸ ht, hcut, hpend.le⟩

/-- An acquisition begins no phase. -/
theorem shrinks_acquireCore (cls : LockClass) (m : Mode) (s : RWLock τ) (k : Option τ)
    (waiting : Bool) (waiterSeq : Option ℕ) :
    PhaseShrinks s (cls.acquireCore m s k waiting waiterSeq) := by
  cases m with
  | read =>
      rw [LockClass.acquireCore, LockClass.acquireReadCore_eq]
      exact (shrinks_of_eq rfl rfl rfl).trans
        (cls.shrinks_onReaderEnter waiting waiterSeq (s.enterReader k))
  | write =>
      obtain ⟨_, _, _, _, hf⟩ := s.ownWriter_frame cls k
      rw [LockClass.acquireCore, LockClass.acquireWriteCore_eq, hf]
      exact shrinks_of_eq rfl rfl rfl

/-- Nor does a grant. -/
theorem shrinks_succeed (rt : Runtime) (c : System τ) (t : τ) (s : RWLock τ) (m : Mode) :
    PhaseShrinks s (c.succeed rt t s m).2.lock := by
  cases m with
  | read => exact .refl s
  | write => cases rt <;> exact shrinks_of_eq rfl rfl rfl

/-- Nor does the wait loop, unless a writer gives up. -/
theorem looped_shrinks (h : Looped rt cls c t m seq timed o c')
    (hno : m = .write → o ≠ .refused) : PhaseShrinks c.lock c'.lock := by
  cases h with
  | enters =>
      have hstop : PhaseShrinks (cls.acquireCore m c.lock (some t) true (some seq))
          ((cls.acquireCore m c.lock (some t) true (some seq)).stopWaiting m) :=
        shrinks_of_eq rfl rfl rfl
      exact ((shrinks_acquireCore cls m c.lock (some t) true (some seq)).trans hstop).trans
        (shrinks_succeed rt c t _ m)
  | givesUp =>
      cases m with
      | read =>
          have hstop : PhaseShrinks c.lock (c.lock.stopWaiting .read) := shrinks_of_eq rfl rfl rfl
          exact hstop.trans (cls.shrinks_onReaderAbort _ (some seq))
      | write => exact absurd rfl (hno rfl)
  | parks => exact shrinks_of_eq rfl rfl rfl

/-- Nor does the marker. -/
theorem unmark_shrinks (s : RWLock τ) (k : Option τ) : PhaseShrinks s (s.unmark k) := by
  obtain ⟨k', hk⟩ := s.unmark_frame k
  rw [hk]
  exact shrinks_of_eq rfl rfl rfl

/-- **A quiet step only shrinks the phase.** -/
theorem quiet_shrinks (hw : WellFormed cls c.lock c.pc)
    (hst : c.step rt cls a = some (o, c')) (ha : a.caller = some t)
    (hq : ¬ HandsOver cls c a o c') : PhaseShrinks c.lock c'.lock := by
  have hdrop : ∀ s : RWLock τ, PhaseShrinks s (cls.onReaderLeave (s.dropReader (some t))) := by
    intro s
    have h : PhaseShrinks s (s.dropReader (some t)) := shrinks_of_eq rfl rfl rfl
    exact h.trans (cls.shrinks_onReaderLeave _)
  cases step_deed hw hst ha with
  | rejected | refused | timesOut | isCancelled | clears | leaveRaises | downgradeRaises =>
      exact shrinks_of_eq rfl rfl rfl
  | @enters m =>
      exact (shrinks_acquireCore cls m c.lock (some t) false none).trans
        (shrinks_succeed rt c t _ m)
  | @waits m p _ _ _ _ hp _ _ hloop =>
      have hreg : PhaseShrinks c.lock (c.register t m (p = .timed)).lock :=
        shrinks_of_eq rfl rfl rfl
      refine hreg.trans (looped_shrinks hloop ?_)
      rintro rfl rfl
      exact hq (.inr (.inr ⟨.inl rfl, rfl, hp⟩))
  | @goesOn m _ _ i _ _ _ hpc _ _ hloop =>
      have hend : PhaseShrinks c.lock (c.endWait t m i).lock := shrinks_of_eq rfl rfl rfl
      refine hend.trans (looped_shrinks hloop ?_)
      rintro rfl rfl
      exact hq (.inr (.inr ⟨.inl rfl, _, _, _, hpc⟩))
  | @cancelled m seq timed _ _ hpc =>
      cases m with
      | read =>
          have hend : PhaseShrinks c.lock ((c.endWait t .read true).lock.stopWaiting .read) :=
            shrinks_of_eq rfl rfl rfl
          exact hend.trans (cls.shrinks_onReaderAbort _ (some seq))
      | write => exact absurd (.inr (.inr ⟨.inr rfl, _, _, _, hpc⟩)) hq
  | leaves => exact hdrop c.lock
  | routed => exact (unmark_shrinks c.lock (some t)).trans (hdrop _)
  | countsDown => exact (unmark_shrinks c.lock (some t)).trans (shrinks_of_eq rfl rfl rfl)
  | frees _ ho =>
      refine absurd (.inl ⟨rfl, ho, ?_⟩) hq
      exact ((cls.signals_onWriterAbort _ none).owner cls).trans (by simp)
  | freeRaises => exact unmark_shrinks c.lock (some t)
  | downgrades => exact absurd (.inr (.inl rfl)) hq

/-! ### A newcomer spends a slot -/

/-- A reader with a slot spends it. -/
theorem pending_onReaderEnter (hp : cls.policy = .fair) (s : RWLock τ)
    (hr : RWLockFairMixin.isReservedReader s true (some seq) = true) :
    (cls.onReaderEnter true (some seq) s).readerPhasePending = s.readerPhasePending - 1 := by
  have hspent : RWLockFairMixin.consumeReaderPhaseSlot s true (some seq) =
      { s with readerPhasePending := s.readerPhasePending - 1 } := if_pos hr
  unfold LockClass.onReaderEnter
  simp only [hp, hspent]
  split_ifs
  · exact RWLockFairMixin.readerPhasePending_wakeWaitingReader _
  · rfl

/-- **While a writer waits, a newcomer reads on a slot** that it got when the phase
began. -/
theorem newcomer_spends (hp : cls.policy = .fair) (hw : WellFormed cls c.lock c.pc)
    (hs : Slots c.lock c.pc) (hwait : 0 < c.lock.write.thoseWaiting)
    (hst : c.step rt cls a = some (.acquired .read, c')) (ha : a.caller = some t)
    (hnew : Newcomer cls c t) :
    ∃ seq, Waits c .read t seq ∧ c.lock.readersTurn = true ∧ seq ≤ c.lock.readerPhaseCutoff ∧
      0 < c.lock.readerPhasePending ∧
      c'.lock.readerPhasePending = c.lock.readerPhasePending - 1 := by
  have hreserved : ∀ s : RWLock τ, ∀ waiting seq, 0 < s.write.thoseWaiting →
      cls.AdmitsReader s waiting seq →
      RWLockFairMixin.isReservedReader s waiting seq = true := by
    intro s waiting seq hpos hadm
    have hadm := hadm.2
    simp only [hp] at hadm
    rcases hadm with hz | hadm
    · omega
    · exact hadm.2
  cases step_deed hw hst ha with
  | enters _ hcan =>
      rcases (hw.books.canRead_iff (by simp) false none).1 hcan with hadm | hadm | hadm
      · cases hreserved _ _ _ hwait hadm
      · exact absurd hadm.2 hnew.2
      · have := hnew.1
        omega
  | waits _ _ _ _ hloop =>
      cases hloop with
      | enters hadm =>
          have hr := hreserved _ _ _ (by
            show 0 < ((c.lock.startWaiting .read).proxy .write).thoseWaiting
            rw [RWLock.thoseWaiting_startWaiting]
            simpa using hwait) hadm
          have hle := ((RWLockFairMixin.isReservedReader_iff _ _).1 hr).2.1
          have hcut := hs.cutoff_le
          exact absurd (hle.trans hcut) (by simp)
  | @goesOn _ seq timed i _ _ _ hpc _ _ hloop =>
      cases hloop with
      | enters hadm =>
          have hr := hreserved _ _ _ (by simpa [endWait] using hwait) hadm
          obtain ⟨hturn, hle, hpos⟩ := (RWLockFairMixin.isReservedReader_iff _ _).1 hr
          refine ⟨seq, ⟨_, _, hpc⟩, hturn, hle, hpos, ?_⟩
          have hpend := pending_onReaderEnter hp
            ((c.endWait t .read i).lock.enterReader (some t)) hr
          rw [← LockClass.acquireReadCore_eq] at hpend
          exact hpend

/-! ### Along a run -/

/-- Whoever has a slot of the phase in `c` waited in `c₀` already, under the same
number. -/
def Early (c₀ c : System τ) : Prop :=
  c.lock.readersTurn = true → ∀ t seq, Waits c .read t seq → seq ≤ c.lock.readerPhaseCutoff →
    Waits c₀ .read t seq

/-- A step gives a slot to nobody that did not wait before it: whoever registers in it
comes after the phase began. -/
theorem early_step (hp : cls.policy = .fair) (h : Reachable rt cls c)
    (hst : c.step rt cls a = some (o, c')) (ha : a.caller ≠ none) : Early c c' := by
  intro hturn u seq hu hle
  have hw := h.wellFormed
  rcases step_waits hw hst ha hu with hu | ⟨ht, -, rfl, rfl⟩
  · exact hu
  · have hshrink := quiet_shrinks hw hst ht (by simp [HandsOver, LastRelease])
    have hcut := (h.slots hp).cutoff_le
    rw [(hshrink hturn).2.1] at hle
    exact absurd (hle.trans hcut) (by simp)

/-- A quiet step begins no phase. -/
theorem Quiet.shrinks (h : Reachable rt cls c) (hq : Quiet rt cls c a)
    (hst : c.step rt cls a = some (o, c')) : PhaseShrinks c.lock c'.lock := by
  obtain ⟨t, ht⟩ := Option.ne_none_iff_exists'.1 hq.1
  exact quiet_shrinks h.wellFormed hst ht (hq.2 (o, c') hst)

/-- Along a quiet run the slots stay with those who waited before it. -/
theorem Early.run (hp : cls.policy = .fair) {as : List (Action τ)} (hearly : Early c₀ c)
    (h : Reachable rt cls c)
    (hrun : Transition.Run (Transition.restrict (Quiet rt cls) (Step rt cls)) c as c') :
    Reachable rt cls c' ∧ Early c₀ c' := by
  refine hrun.invariant (I := fun c => Reachable rt cls c ∧ Early c₀ c) ?_ ⟨h, hearly⟩
  rintro c a c' ⟨h, hearly⟩ ⟨hq, o, hst⟩
  refine ⟨h.step hst hq.1, fun hturn u seq hu hle => ?_⟩
  have hu₀ := early_step hp h hst hq.1 hturn u seq hu hle
  obtain ⟨hturn₀, hcut, -⟩ := hq.shrinks h hst hturn
  exact hearly hturn₀ u seq hu₀ (hcut ▸ hle)

/-- **Every step of a segment pays for its read acquisition with a slot.** -/
theorem segment_pays (hp : cls.policy = .fair) (h : Reachable rt cls c)
    (hseg : Segment rt cls c a) (hst : c.step rt cls a = some (o, c')) :
    (if LetsIn rt cls c a then 1 else 0) + c'.lock.readerPhasePending.toNat ≤
      c.lock.readerPhasePending.toNat := by
  have hslots' := (h.step hst hseg.1.1).slots hp
  have hshrink := hseg.1.shrinks h hst
  have hle : c'.lock.readerPhasePending.toNat ≤ c.lock.readerPhasePending.toNat := by
    cases hturn : c'.lock.readersTurn with
    | false => simp [hslots'.off hturn]
    | true =>
        have := (hshrink hturn).2.2
        omega
  split_ifs with hin
  · obtain ⟨ho, t, ht, hnew⟩ := hin
    obtain rfl : o = .acquired .read := by simpa [hst] using ho
    obtain ⟨_, -, -, -, hpos, hpend⟩ :=
      newcomer_spends hp h.wellFormed (h.slots hp) hseg.2 hst ht hnew
    omega
  · omega

/-- **Late readers cannot pass a waiting writer** in a strict fair lock.  Let `a₀` be any
step, the one that began the last phase for instance, with only quiet steps after it.
From any later point on, as long as a writer waits and no step hands the write lock
over, newcomers read at most as often as there are slots; and each of these
acquisitions is made by a call that was waiting before `a₀`. -/
theorem late_readers_wait {c₁ d : System τ} {a₀ : Action τ} {as₀ as : List (Action τ)}
    (hp : cls.policy = .fair) (h₀ : Reachable rt cls c₀)
    (hst₀ : Transition.restrict InTask (Step rt cls) c₀ a₀ c₁)
    (hquiet : Transition.Run (Transition.restrict (Quiet rt cls) (Step rt cls)) c₁ as₀ c)
    (hseg : Transition.Run (Transition.restrict (Segment rt cls) (Step rt cls)) c as d) :
    (newReads rt cls c as : ℤ) ≤ c.lock.readerPhasePending ∧
      (c.lock.readersTurn = false → newReads rt cls c as = 0) ∧
      ∀ a t d', Segment rt cls d a → a.caller = some t → Newcomer cls d t →
        d.step rt cls a = some (.acquired .read, d') →
        ∃ seq, Waits c₀ .read t seq ∧ Waits d .read t seq := by
  obtain ⟨ha₀, o₀, hst₀⟩ := hst₀
  obtain ⟨hc, hearly⟩ := (early_step hp h₀ hst₀ ha₀).run hp (h₀.step hst₀ ha₀) hquiet
  have hcount : newReads rt cls c as + d.lock.readerPhasePending.toNat ≤
      c.lock.readerPhasePending.toNat := by
    refine hseg.cost_le (I := Reachable rt cls)
      (Φ := fun c => c.lock.readerPhasePending.toNat) ?_ ?_ hc
    · rintro c a c' ⟨-, o, hst⟩
      simp [hst]
    · rintro c a c' h ⟨hseg, o, hst⟩
      exact ⟨h.step hst hseg.1.1, segment_pays hp h hseg hst⟩
  have hslots := hc.slots hp
  refine ⟨?_, fun hturn => ?_, fun a t d' hsegd ha hnew hst => ?_⟩
  · have hnn : 0 ≤ c.lock.readerPhasePending := by
      cases hturn : c.lock.readersTurn with
      | false => rw [hslots.off hturn]
      | true =>
          obtain ⟨F, -, hcard⟩ := hslots.on hturn
          omega
    omega
  · have := hslots.off hturn
    omega
  · obtain ⟨hd, hearlyd⟩ := hearly.run hp hc (hseg.mono fun _ _ _ h => ⟨h.1.1, h.2⟩)
    obtain ⟨seq, hseq, hturn, hle, -⟩ :=
      newcomer_spends hp hd.wellFormed (hd.slots hp) hsegd.2 hst ha hnew
    exact ⟨seq, hearlyd hturn t seq hseq hle, hseq⟩

/-- A writer releases to one waiting reader; another reader comes too late, and the one
slot is spent. -/
theorem late_readers_wait_one : ∃ c d : System ℕ,
    c.lock.readerPhasePending = 1 ∧ Waits d .read 3 2 ∧
      newReads .thread .fair c [.acquire 3 .read .forever false, .resume 1 false] = 1 ∧
      (newReads .thread .fair c [.acquire 3 .read .forever false, .resume 1 false] : ℤ) ≤
        c.lock.readerPhasePending := by
  have hrun : ((Transition.replay (next InTask .thread .fair) ({} : System ℕ)
      [.acquire 0 .write .forever false, .clear 0, .acquire 1 .read .forever false,
        .acquire 2 .write .forever false]).bind fun c₀ =>
        (next InTask .thread .fair c₀ (.release (some 0) .write)).bind fun c =>
          (Transition.replay (next (Segment .thread .fair) .thread .fair) c
            [.acquire 3 .read .forever false, .resume 1 false]).map fun d =>
            (c.lock.readerPhasePending, d.pc 3, newReads .thread .fair c
              [.acquire 3 .read .forever false, .resume 1 false])) =
      some (1, .waiting .read 2 false false, 1) := by
    decide
  obtain ⟨c₀, h₀, hrun⟩ := Option.bind_eq_some_iff.1 hrun
  obtain ⟨c, h₁, hrun⟩ := Option.bind_eq_some_iff.1 hrun
  obtain ⟨d, hd, hval⟩ := Option.map_eq_some_iff.1 hrun
  simp only [Prod.mk.injEq] at hval
  refine ⟨c, d, hval.1, ⟨_, _, hval.2.1⟩, hval.2.2, ?_⟩
  exact (late_readers_wait rfl ⟨_, _, rfl, run_of_replay h₀⟩ (next_step h₁) (.nil c)
    (run_of_replay hd)).1

end System

end Rwlocker

/-
# No lost wakeup

A lock is quiescent when nobody in `acquire` is on its way to run: no parked
call was signalled, timed out or cancelled without having run since.  Then
nothing is going to happen to those who sleep until somebody calls, so each of
them must be right to sleep: the lock would refuse it.

This is `HandOff` read off in a quiescent state, plain and reentrant, thread and async,
over every interleaving (`Reachable.no_lost_wakeup`).  It holds of all policies alike; the
theorems about one policy are its instances.
-/

import Rwlocker.Phases

namespace Rwlocker

open RWLock (Signals)

variable {τ : Type} [DecidableEq τ]

/-! ### Sleeping is decidable -/

instance {P : Mode → Prop} [DecidablePred P] : Decidable (∀ m, P m) :=
  decidable_of_iff (P .read ∧ P .write)
    ⟨fun h m => by cases m <;> simp [h], fun h => ⟨h .read, h .write⟩⟩

instance (pc : τ → Pc) (m : Mode) (t : τ) : Decidable (InFlight pc m t) :=
  match h : pc t with
  | .idle => isFalse (not_inFlight h (by simp) m)
  | .clearing => isFalse (not_inFlight h (by simp) m)
  | .waiting m' seq timed i =>
      if hm : m' = m then isTrue ⟨seq, timed, i, hm ▸ h⟩
      else isFalse fun hf => hm (InFlight.mode_eq ⟨seq, timed, i, h⟩ hf)

instance (s : RWLock τ) (pc : τ → Pc) (m : Mode) (t : τ) : Decidable (Asleep s pc m t) :=
  match h : pc t with
  | .idle => isFalse fun ht => not_inFlight h (by simp) m ht.inFlight
  | .clearing => isFalse fun ht => not_inFlight h (by simp) m ht.inFlight
  | .waiting m' seq timed i =>
      if hm : s.waiter m t = .pending ∧ m' = m ∧ i = false then
        isTrue ⟨hm.1, seq, timed, by rw [h, hm.2.1, hm.2.2]⟩
      else isFalse fun ⟨hp, seq', timed', ht⟩ => hm (by
        rw [h] at ht
        cases ht
        exact ⟨hp, rfl, rfl⟩)

instance (s : RWLock τ) (pc : τ → Pc) (m : Mode) (t : τ) : Decidable (OnWay s pc m t) :=
  inferInstanceAs (Decidable (_ ∧ _))

namespace System

/-- Nobody in `acquire` is on its way to run. -/
def Quiescent (c : System τ) : Prop := ∀ t m, ¬ OnWay c.lock c.pc m t

instance {n : ℕ} (c : System (Fin n)) : Decidable c.Quiescent :=
  inferInstanceAs (Decidable (∀ t : Fin n, ∀ m, ¬ OnWay c.lock c.pc m t))

/-- `t` is in `acquire`, registered with the proxy `m` as waiter `seq`; whoever is
parked in a queue is. -/
def Waits (c : System τ) (m : Mode) (t : τ) (seq : ℕ) : Prop :=
  ∃ timed i, c.pc t = .waiting m seq timed i

/-- The lock refuses everybody who waits. -/
def RefusesWaiters (cls : LockClass) (c : System τ) : Prop :=
  (∀ t seq, Waits c .write t seq → cls.canWrite c.lock (some t) true (some seq) = false) ∧
    ∀ t seq, Waits c .read t seq → cls.canRead c.lock (some t) true (some seq) = false

variable {rt : Runtime} {cls : LockClass} {c : System τ}

/-- **The writers and the readers are covered in every reachable state.** -/
theorem Reachable.covered (h : Reachable rt cls c) :
    WriterCovered cls c.lock c.pc ∧ ReaderCovered cls c.lock c.pc := by
  have hno : ∀ m (t : τ), ¬ Asleep ({} : RWLock τ) (fun _ => .idle) m t := by
    rintro m t ⟨hp, -⟩
    cases hp
  exact h.of_move (I := fun c => WriterCovered cls c.lock c.pc ∧ ReaderCovered cls c.lock c.pc)
    ⟨fun ⟨t, ht⟩ => absurd ht (hno .write t), fun t _ _ _ ht => absurd ht (hno .read t)⟩
    fun _ _ hw hI hmv => hmv.covered hw hI.1 hI.2

omit [DecidableEq τ] in
/-- In a quiescent state whoever is in flight sleeps. -/
theorem Quiescent.asleep (hq : c.Quiescent) {m : Mode} {t : τ} (ht : InFlight c.pc m t) :
    Asleep c.lock c.pc m t := by
  by_contra hno
  exact hq t m ⟨ht, hno⟩

/-- In a quiescent state a waiting writer would not be let in. -/
theorem Quiescent.not_admitsWriter (hq : c.Quiescent) (h : Reachable rt cls c) {t : τ}
    (ht : InFlight c.pc .write t) : ¬ cls.AdmitsWriter c.lock := by
  rcases h.covered.1 ⟨t, hq.asleep ht⟩ with hno | ⟨u, hu⟩
  · exact hno
  · exact absurd hu (hq u .write)

/-- Nor would a waiting reader. -/
theorem Quiescent.not_admitsReader (hq : c.Quiescent) (h : Reachable rt cls c) {t : τ} {seq : ℕ}
    (ht : Waits c .read t seq) : ¬ cls.AdmitsReader c.lock true (some seq) := by
  obtain ⟨timed, i, ht⟩ := ht
  exact h.covered.2 t seq timed i (hq.asleep ⟨_, _, _, ht⟩) ht

/-- **In a quiescent state everybody who waits would be refused.** -/
theorem Reachable.refusesWaiters (h : Reachable rt cls c) (hq : c.Quiescent) :
    RefusesWaiters cls c := by
  have hw := h.wellFormed
  constructor
  · rintro t seq ⟨timed, i, ht⟩
    have hno := hq.not_admitsWriter h ⟨_, _, _, ht⟩
    exact Bool.eq_false_iff.2 (mt (canAcquire_iff hw ⟨_, _, _, ht⟩ seq).1 hno)
  · rintro t seq ⟨timed, i, ht⟩
    have hno := hq.not_admitsReader h ⟨timed, i, ht⟩
    exact Bool.eq_false_iff.2 (mt (canAcquire_iff hw ⟨_, _, _, ht⟩ seq).1 hno)

/-- A lock nobody holds keeps no writer asleep. -/
theorem Quiescent.no_writers (hq : c.Quiescent) (h : Reachable rt cls c)
    (ho : cls.owner c.lock = none) (hra : c.lock.readersActive = 0) (t : τ) :
    ¬ InFlight c.pc .write t := by
  intro ht
  refine hq.not_admitsWriter h ht ⟨ho, hra, ?_⟩
  cases hp : cls.policy with
  | write => trivial
  | read =>
      by_contra hne
      have hnn := h.wellFormed.thoseWaiting_nonneg .read
      obtain ⟨u, seq, timed, i, hu⟩ := h.wellFormed.exists_inFlight (m := .read) (by
        simp only [RWLock.read] at hne
        omega)
      refine hq.not_admitsReader h ⟨timed, i, hu⟩ ⟨ho, ?_⟩
      simp only [hp]
  | readerPhaseFair =>
      rintro ⟨hturn, hr⟩
      obtain ⟨u, seq, timed, i, hu⟩ := h.wellFormed.exists_inFlight hr
      refine hq.not_admitsReader h ⟨timed, i, hu⟩ ⟨ho, ?_⟩
      simp only [hp]
      exact .inl hturn
  | fair =>
      rintro ⟨hturn, hpend⟩
      -- an open slot belongs to a waiting reader, and the lock admits it
      obtain ⟨F, hF, hcard⟩ := (h.slots hp).on hturn
      obtain ⟨u, hu⟩ := Finset.card_pos.1 (show 0 < F.card by omega)
      obtain ⟨seq, timed, i, hu, hle⟩ := (hF u).1 hu
      refine hq.not_admitsReader h ⟨timed, i, hu⟩ ⟨ho, ?_⟩
      simp only [hp]
      exact .inr ⟨hturn, (RWLockFairMixin.isReservedReader_iff _ _).2 ⟨hturn, hle, hpend⟩⟩

/-- **A lock nobody holds has no sleepers**: in a quiescent state nobody waits. -/
theorem Quiescent.no_waiters (hq : c.Quiescent) (h : Reachable rt cls c)
    (ho : cls.owner c.lock = none) (hra : c.lock.readersActive = 0) (m : Mode) (t : τ) :
    ¬ InFlight c.pc m t := by
  cases m with
  | write => exact hq.no_writers h ho hra t
  | read =>
      rintro ⟨seq, timed, i, ht⟩
      refine hq.not_admitsReader h ⟨timed, i, ht⟩ ⟨ho, ?_⟩
      have hnn := h.wellFormed.thoseWaiting_nonneg .write
      have hz : c.lock.write.thoseWaiting = 0 := by
        by_contra hne
        obtain ⟨u, hu⟩ := h.wellFormed.exists_inFlight (m := .write) (by
          simp only [RWLock.write] at hne
          omega)
        exact hq.no_writers h ho hra u hu
      cases cls.policy with
      | write => exact hz
      | read => trivial
      | readerPhaseFair => exact .inr hz
      | fair => exact .inl hz

/-- A proxy nobody waits for has an empty queue and a waiting counter of zero. -/
theorem Reachable.idle_proxy (h : Reachable rt cls c) {m : Mode}
    (hno : ∀ t, ¬ InFlight c.pc m t) :
    (c.lock.proxy m).thoseWaiting = 0 ∧ c.lock.queue m = [] := by
  have hw := h.wellFormed
  constructor
  · have hnn := hw.thoseWaiting_nonneg m
    by_contra hne
    obtain ⟨t, ht⟩ := hw.exists_inFlight (m := m) (by omega)
    exact hno t ht
  · refine List.eq_nil_iff_forall_not_mem.2 fun t ht => ?_
    exact hno t (hw.inFlight_of_mem ht)

/-- **No lost wakeup**, whatever the policy.  In a quiescent state everybody who waits would
be refused, and a lock nobody holds has no waiters. -/
theorem Reachable.no_lost_wakeup (h : Reachable rt cls c) (hq : c.Quiescent) :
    RefusesWaiters cls c ∧
      (cls.owner c.lock = none → c.lock.readersActive = 0 →
        ∀ m, (c.lock.proxy m).thoseWaiting = 0 ∧ c.lock.queue m = [] ∧
          ∀ t seq, ¬ Waits c m t seq) := by
  refine ⟨h.refusesWaiters hq, fun ho hra m => ?_⟩
  have hno := hq.no_waiters h ho hra m
  obtain ⟨h₁, h₂⟩ := h.idle_proxy hno
  exact ⟨h₁, h₂, fun t seq ⟨timed, i, ht⟩ => hno t ⟨seq, timed, i, ht⟩⟩

/-! ### The four policies

Instances of `Reachable.no_lost_wakeup`.  Their proofs do not need to know the policy, but
for the turn of the reader-phase fair one. -/

/-- **Strict fair.**  In a quiescent state everybody who waits would be refused, and
a lock nobody holds has no waiters. -/
theorem fair_no_lost_wakeup (_hp : cls.policy = .fair) (h : Reachable rt cls c)
    (hq : c.Quiescent) :
    RefusesWaiters cls c ∧
      (cls.owner c.lock = none → c.lock.readersActive = 0 →
        ∀ m, (c.lock.proxy m).thoseWaiting = 0 ∧ c.lock.queue m = [] ∧
          ∀ t seq, ¬ Waits c m t seq) :=
  h.no_lost_wakeup hq

/-- A late reader and the next writer sleep while a reader of the phase reads. -/
theorem fair_no_lost_wakeup_late : ∃ c : System (Fin 3),
    (c.lock.readersActive = 1 ∧ Asleep c.lock c.pc .write 0 ∧ Asleep c.lock c.pc .read 1) ∧
    RefusesWaiters .fair c ∧
      (LockClass.fair.owner c.lock = none → c.lock.readersActive = 0 →
        ∀ m, (c.lock.proxy m).thoseWaiting = 0 ∧ c.lock.queue m = [] ∧
          ∀ t seq, ¬ Waits c m t seq) := by
  have hrun : ((Transition.replay (next InTask .thread .fair) {} [.acquire 0 .read .forever false,
      .acquire 1 .write .forever false, .acquire 2 .read .timed false, .release (some 0) .read,
      .resume 1 false, .clear 1, .acquire 0 .write .forever false, .release (some 1) .write,
      .resume 2 false, .acquire 1 .read .forever false]).map fun c : System (Fin 3) =>
        decide (c.Quiescent ∧ c.lock.readersActive = 1 ∧ Asleep c.lock c.pc .write 0 ∧
          Asleep c.lock c.pc .read 1)) = some true := by
    decide
  obtain ⟨c, hc, hval⟩ := Option.map_eq_some_iff.1 hrun
  obtain ⟨hq, hval⟩ := of_decide_eq_true hval
  exact ⟨c, hval, fair_no_lost_wakeup rfl ⟨_, _, rfl, run_of_replay hc⟩ hq⟩

/-- **Reader-phase fair.**  In a quiescent state everybody who waits would be
refused, and the turn is not left on with nobody to serve and a writer asleep. -/
theorem readerPhaseFair_no_lost_wakeup (hp : cls.policy = .readerPhaseFair)
    (h : Reachable rt cls c) (hq : c.Quiescent) :
    RefusesWaiters cls c ∧
      ¬ (c.lock.readersTurn = true ∧ c.lock.readersActive = 0 ∧ c.lock.read.thoseWaiting = 0 ∧
        ∃ t, Asleep c.lock c.pc .write t) := by
  refine ⟨(h.no_lost_wakeup hq).1, fun ⟨hturn, hra, hr, _⟩ => ?_⟩
  have hserved := h.turnServed hturn
  simp only [hp] at hserved
  omega

/-- A writer sleeps behind the reader that its cancelled predecessor let in. -/
theorem readerPhaseFair_no_lost_wakeup_cancelled : ∃ c : System (Fin 3),
    (c.lock.readersTurn = true ∧ c.lock.readersActive = 1 ∧ Asleep c.lock c.pc .write 0) ∧
    RefusesWaiters .readerPhaseFairReentrantWriter c ∧
      ¬ (c.lock.readersTurn = true ∧ c.lock.readersActive = 0 ∧ c.lock.read.thoseWaiting = 0 ∧
        ∃ t, Asleep c.lock c.pc .write t) := by
  have hrun : ((Transition.replay (next InTask .async .readerPhaseFairReentrantWriter) {}
      [.acquire 0 .read .forever false, .acquire 1 .write .forever false,
      .acquire 2 .read .forever false, .release (some 0) .read, .interrupt 1, .resume 1 false,
      .resume 2 false, .acquire 0 .write .forever false]).map fun c : System (Fin 3) =>
        decide (c.Quiescent ∧ c.lock.readersTurn = true ∧ c.lock.readersActive = 1 ∧
          Asleep c.lock c.pc .write 0)) = some true := by
    decide
  obtain ⟨c, hc, hval⟩ := Option.map_eq_some_iff.1 hrun
  obtain ⟨hq, hval⟩ := of_decide_eq_true hval
  exact ⟨c, hval, readerPhaseFair_no_lost_wakeup rfl ⟨_, _, rfl, run_of_replay hc⟩ hq⟩

/-- **Write-preferring.**  In a quiescent state everybody who waits would be refused. -/
theorem write_no_lost_wakeup (_hp : cls.policy = .write) (h : Reachable rt cls c)
    (hq : c.Quiescent) : RefusesWaiters cls c :=
  (h.no_lost_wakeup hq).1

/-- A downgrade leaves a reader asleep because a writer waits. -/
theorem write_no_lost_wakeup_downgrade : ∃ c : System (Fin 3),
    (Asleep c.lock c.pc .write 1 ∧ Asleep c.lock c.pc .read 2) ∧ RefusesWaiters .write c := by
  have hrun : ((Transition.replay (next InTask .thread .write) {} [.acquire 0 .write .forever false,
      .clear 0, .acquire 1 .write .forever false, .acquire 2 .read .timed false,
      .downgrade (some 0)]).map fun c : System (Fin 3) =>
        decide (c.Quiescent ∧ Asleep c.lock c.pc .write 1 ∧ Asleep c.lock c.pc .read 2)) =
      some true := by
    decide
  obtain ⟨c, hc, hval⟩ := Option.map_eq_some_iff.1 hrun
  obtain ⟨hq, hval⟩ := of_decide_eq_true hval
  exact ⟨c, hval, write_no_lost_wakeup rfl ⟨_, _, rfl, run_of_replay hc⟩ hq⟩

/-- **Read-preferring.**  In a quiescent state everybody who waits would be refused. -/
theorem read_no_lost_wakeup (_hp : cls.policy = .read) (h : Reachable rt cls c)
    (hq : c.Quiescent) : RefusesWaiters cls c :=
  (h.no_lost_wakeup hq).1

/-- A signalled writer that was overtaken parks again. -/
theorem read_no_lost_wakeup_repark : ∃ c : System (Fin 3),
    (Asleep c.lock c.pc .write 1 ∧ Asleep c.lock c.pc .read 2) ∧
      RefusesWaiters .readReentrantWriter c := by
  have hrun : ((Transition.replay (next InTask .thread .readReentrantWriter) {}
      [.acquire 0 .write .forever false, .clear 0, .acquire 1 .write .forever false,
      .release (some 0) .write, .acquire 0 .write .forever false, .clear 0,
      .acquire 2 .read .forever false, .resume 1 false]).map fun c : System (Fin 3) =>
        decide (c.Quiescent ∧ Asleep c.lock c.pc .write 1 ∧ Asleep c.lock c.pc .read 2)) =
      some true := by
    decide
  obtain ⟨c, hc, hval⟩ := Option.map_eq_some_iff.1 hrun
  obtain ⟨hq, hval⟩ := of_decide_eq_true hval
  exact ⟨c, hval, read_no_lost_wakeup rfl ⟨_, _, rfl, run_of_replay hc⟩ hq⟩

end System

end Rwlocker

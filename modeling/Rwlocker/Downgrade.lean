/-
# A downgraded hold

After `t` downgrades, the write side has no owner and the marker names `t`.  As
long as `t` keeps a read hold, nobody can write: so nobody can clear the marker,
neither on entering nor late, and the `write.release()` of `t` finds it and gives
back a read hold.

`Move.ownerless` and `Move.marked` say that each move keeps the two facts while
`t` reads; the marker also needs that `t` makes no write release in between, which
is the promise `P` of the move.
-/

import Rwlocker.Effects

namespace Rwlocker

open ReadersWriter (Holds)
open Rwlocker.System

variable {τ : Type} [DecidableEq τ] {P : Holds (Option τ) → Option τ → Prop} {rt : Runtime}
  {cls : LockClass} {c c' : System τ} {t : τ}

/-- **While somebody reads a lock without an owner, no move gives it one.** -/
theorem Move.ownerless (hmv : Move P rt cls c c') (hb : Books cls c.lock)
    (hr : 0 < c.lock.readerOwners.count (some t)) (ho : cls.owner c.lock = none) :
    cls.owner c'.lock = none := by
  have hra := hb.readersActive_pos hr
  cases hmv with
  | register | endWait | park | timeout | cancel | clear | unmark | releaseNested => exact ho
  | @abort u m seq timed i hpc hgone =>
      cases m with
      | read => exact ((cls.signals_onReaderAbort _ _).owner cls).trans ho
      | write => exact ((cls.signals_onWriterAbort _ _).owner cls).trans ho
  | enterRead => exact ((cls.signals_onReaderEnter _ _ _).owner cls).trans ho
  | enterReadWaiting => exact ((cls.signals_onReaderEnter _ _ _).owner cls).trans ho
  | enterWrite hpc hadm =>
      rcases hadm with hadm | ⟨-, ho'⟩
      · have := hadm.2.1
        omega
      · rw [ho] at ho'
        cases ho'
  | enterWriteWaiting hpc hgone hadm =>
      have := hadm.2.1
      omega
  | releaseRead => exact ((cls.signals_onReaderLeave _).owner cls).trans ho
  | releaseRouted => exact ((cls.signals_onReaderLeave _).owner cls).trans ho
  | releaseFinal hpc ho' => exact absurd ho ho'
  | downgrade hpc ho' =>
      rw [ho] at ho'
      cases ho'

/-- **While `t` reads and makes no write release, its marker stays.** -/
theorem Move.marked (hP : ∀ h, ¬ P h (some t)) (hmv : Move P rt cls c c')
    (hb : Books cls c.lock) (hl : Ledger cls c.lock c.pc c.holds)
    (hr : 0 < c.lock.readerOwners.count (some t)) (ho : cls.owner c.lock = none)
    (hm : c.lock.downgraded = some t) : c'.lock.downgraded = some t := by
  have hra := hb.readersActive_pos hr
  cases hmv with
  | register | endWait | park | timeout | cancel | releaseNested => exact hm
  | @abort u m seq timed i hpc hgone =>
      cases m with
      | read => exact (cls.signals_onReaderAbort _ _).downgraded.trans hm
      | write => exact (cls.signals_onWriterAbort _ _).downgraded.trans hm
  | enterRead => exact (cls.signals_onReaderEnter _ _ _).downgraded.trans hm
  | enterReadWaiting => exact (cls.signals_onReaderEnter _ _ _).downgraded.trans hm
  | enterWrite hpc hadm =>
      rcases hadm with hadm | ⟨-, ho'⟩
      · have := hadm.2.1
        omega
      · rw [ho] at ho'
        cases ho'
  | enterWriteWaiting hpc hgone hadm =>
      have := hadm.2.1
      omega
  | clear hpc =>
      -- whoever is about to clear the marker holds the write lock
      have := hl.owner_of_writes (hl.clearing _ hpc)
      rw [ho] at this
      cases this
  | unmark hpc hm' hcount hPu =>
      rw [hm] at hm'
      cases hm'
      exact absurd hPu (hP _)
  | releaseRead => exact (cls.signals_onReaderLeave _).downgraded.trans hm
  | releaseRouted hpc hm' hcount hPu =>
      rw [hm] at hm'
      cases hm'
      exact absurd hPu (hP _)
  | releaseFinal hpc ho' => exact absurd ho ho'
  | downgrade hpc ho' =>
      rw [ho] at ho'
      cases ho'

/-- What moves keep while `t` reads, a step keeps that begins while `t` reads. -/
theorem Moves.while_reading {I : System τ → Prop} (hP : ∀ h k, P h k → Holding h k)
    (hmove : ∀ c c', Books cls c.lock → Ledger cls c.lock c.pc c.holds →
      0 < c.lock.readerOwners.count (some t) → I c → Move P rt cls c c' → I c')
    (hmv : Moves P rt cls c c') (hw : WellFormed cls c.lock c.pc)
    (hl : Ledger cls c.lock c.pc c.holds) (hr : 0 < c.holds.reads (some t)) (hI : I c) :
    I c' := by
  have hr' := hl.reads (some t) ▸ hr
  cases hmv with
  | none h => exact h ▸ hI
  | one h => exact hmove _ _ hw.books hl hr' hI h
  | @two c₁ h hh h' =>
      have hl₁ := h.ledger (fun _ => hP) hw.books hl
      have hr₁ : 0 < c₁.lock.readerOwners.count (some t) := by
        rw [hl₁.reads, hh]
        exact hr
      exact hmove _ _ (h.wellFormed hw).books hl₁ hr₁ (hmove _ _ hw.books hl hr' hI h) h'

namespace System

/-- The step is made by a thread or task, by a holder if it is a release, and
while `t` holds a read lock. -/
def WhileReading (t : τ) (c : System τ) (a : Action τ) : Prop :=
  (InTask c a ∧ ByHolder c a) ∧ 0 < c.holds.reads (some t)

instance (t : τ) (c : System τ) (a : Action τ) : Decidable (WhileReading t c a) :=
  inferInstanceAs (Decidable (_ ∧ _))

/-! ### What the two ends of the run do -/

/-- Whoever downgrades was the owner; then nobody is, and the marker names it. -/
theorem step_downgraded (hb : Books cls c.lock)
    (h : c.step rt cls (.downgrade (some t)) = some (.downgraded, c')) :
    cls.owner c'.lock = none ∧ c'.lock.downgraded = some t := by
  cases step_effect hb h rfl with
  | downgrade _ _ _ hown' hm => exact ⟨hown', hm⟩

/-- **A step that acquires the write lock leaves it with an owner.** -/
theorem step_acquired_write {a : Action τ} (hb : Books cls c.lock) (ha : a.caller ≠ none)
    (h : c.step rt cls a = some (.acquired .write, c')) : cls.owner c'.lock ≠ none := by
  obtain ⟨t, ht⟩ := Option.ne_none_iff_exists'.1 ha
  cases step_effect hb h ht with
  | acquire _ hatt | resume _ hatt =>
      cases hatt with
      | fails _ _ _ _ ho => exact absurd rfl (ho .write)
      | writes ho => simp [ho]
  | release ho => rcases ho with ho | ⟨e, ho⟩ <;> cases ho

/-! ### The run in between -/

variable {c₀ c₁ : System τ} {as : List (Action τ)}

/-- After a downgrade nobody owns the lock, as long as the caller reads. -/
theorem ownerless_of_run (h₁ : HolderReachable rt cls c₁) (ho : cls.owner c₁.lock = none)
    (hrun : Transition.Run (Transition.restrict (WhileReading t) (Step rt cls)) c₁ as c) :
    HolderReachable rt cls c ∧ cls.owner c.lock = none := by
  refine hrun.invariant (I := fun c => HolderReachable rt cls c ∧ cls.owner c.lock = none)
    ?_ ⟨h₁, ho⟩
  rintro c a c' ⟨h, ho⟩ ⟨⟨hP, hr⟩, hst⟩
  refine ⟨h.tail ⟨hP, hst⟩, ?_⟩
  have hmv := hst.moves (P := Holding) h.reachable.wellFormed hP.1 fun k hk => by
    have := hP.2
    rwa [hk] at this
  exact hmv.while_reading (I := fun c => cls.owner c.lock = none) (fun _ _ => id)
    (fun _ _ hb _ hr ho hmv => hmv.ownerless hb hr ho) h.reachable.wellFormed h.ledger hr ho

/-- The marker stays too, as long as the caller makes no write release. -/
theorem marked_of_run (h₁ : HolderReachable rt cls c₁) (ho : cls.owner c₁.lock = none)
    (hm : c₁.lock.downgraded = some t)
    (hrun : Transition.Run (Transition.restrict
      (fun c a => WhileReading t c a ∧ a ≠ .release (some t) .write) (Step rt cls)) c₁ as c) :
    c.lock.downgraded = some t := by
  refine (hrun.invariant (I := fun c => HolderReachable rt cls c ∧ cls.owner c.lock = none ∧
    c.lock.downgraded = some t) ?_ ⟨h₁, ho, hm⟩).2.2
  rintro c a c' ⟨h, ho, hm⟩ ⟨⟨⟨hP, hr⟩, ha⟩, hst⟩
  refine ⟨h.tail ⟨hP, hst⟩, ?_⟩
  have hmv := hst.moves (P := fun h k => Holding h k ∧ k ≠ some t) h.reachable.wellFormed hP.1
    fun k hk => by
      have := hP.2
      rw [hk] at this ha
      exact ⟨this, fun hkt => ha (by rw [hkt])⟩
  exact hmv.while_reading (I := fun c => cls.owner c.lock = none ∧ c.lock.downgraded = some t)
    (fun _ _ h => h.1)
    (fun _ _ hb hl hr hI hmv => ⟨hmv.ownerless hb hr hI.1,
      hmv.marked (fun _ h => h.2 rfl) hb hl hr hI.1 hI.2⟩)
    h.reachable.wellFormed h.ledger hr ⟨ho, hm⟩

/-- Whoever reads a lock without an owner is between calls. -/
theorem idle_of_reading (h : HolderReachable rt cls c) (ho : cls.owner c.lock = none)
    (hr : 0 < c.holds.reads (some t)) : c.pc t = .idle := by
  have hcount := h.ledger.reads (some t)
  cases hpc : c.pc t with
  | idle => rfl
  | waiting m seq timed i =>
      have := (h.reachable.wellFormed.stranger m t ⟨_, _, _, hpc⟩).1
      omega
  | clearing =>
      have := h.ledger.owner_of_writes (h.ledger.clearing t hpc)
      rw [ho] at this
      cases this

/-- **A downgrade is atomic and its release is routed right.**  Once `t` has
downgraded, in every run of holders and as long as `t` keeps a read hold:
nobody acquires the write lock; and the first `write.release()` of `t` does what
`read.release()` would, but for the marker, raises nothing and leaves the write
side unowned. -/
theorem downgrade_atomic (h₀ : HolderReachable rt cls c₀)
    (hdown : c₀.step rt cls (.downgrade (some t)) = some (.downgraded, c₁)) :
    (∀ as c a o c',
      Transition.Run (Transition.restrict (WhileReading t) (Step rt cls)) c₁ as c →
      WhileReading t c a → c.step rt cls a = some (o, c') → o ≠ .acquired .write) ∧
    ∀ as c, Transition.Run (Transition.restrict
        (fun c a => WhileReading t c a ∧ a ≠ .release (some t) .write) (Step rt cls)) c₁ as c →
      0 < c.holds.reads (some t) →
      ∃ c' c'', c.step rt cls (.release (some t) .write) = some (.released, c') ∧
        c.step rt cls (.release (some t) .read) = some (.released, c'') ∧
        c' = { c'' with lock := { c''.lock with downgraded := none } } ∧
        c'.holds = c.holds.dropRead (some t) ∧
        c'.lock.readerOwners.count (some t) + 1 = c.lock.readerOwners.count (some t) ∧
        cls.owner c'.lock = none ∧ cls.isWriteLocked c'.lock = false := by
  obtain ⟨ho₁, hm₁⟩ := step_downgraded h₀.books hdown
  have h₁ : HolderReachable rt cls c₁ := h₀.step hdown (by simp [Action.caller]) trivial
  constructor
  · rintro as c a o c' hrun ha hst rfl
    obtain ⟨h, ho⟩ := ownerless_of_run h₁ ho₁ (hrun.append (.single ⟨ha, _, hst⟩))
    exact step_acquired_write (ownerless_of_run h₁ ho₁ hrun).1.books ha.1.1 hst ho
  · intro as c hrun hr
    obtain ⟨h, ho⟩ := ownerless_of_run h₁ ho₁ (hrun.mono fun _ _ _ hst => ⟨hst.1.1, hst.2⟩)
    have hm := marked_of_run h₁ ho₁ hm₁ hrun
    have hpc := idle_of_reading h ho hr
    have hcount : 0 < c.lock.readerOwners.count (some t) := by
      rw [h.ledger.reads]
      exact hr
    have hw : c.holds.writes (some t) = 0 := h.ledger.writes_eq_zero (by rw [ho]; simp)
    have hout := step_release_routed rt cls hpc hm hcount
    have hback : giveBack c.holds (some t) .write = c.holds.dropRead (some t) :=
      if_neg (by omega)
    rw [hback] at hout
    have hc' : HolderReachable rt cls _ := h.step hout (by simp [Action.caller]) (Or.inr hr)
    have ho' : cls.owner (cls.onReaderLeave (c.lock.dropReader (some t))) = none :=
      ((cls.signals_onReaderLeave _).owner cls).trans ho
    refine ⟨_, _, hout, step_release_read hpc hcount, rfl, rfl, ?_, ho', ?_⟩
    · show (cls.onReaderLeave (c.lock.dropReader (some t))).readerOwners.count (some t) + 1 = _
      rw [(cls.signals_onReaderLeave _).readerOwners, RWLock.count_dropReader, if_pos rfl]
      omega
    · exact Bool.eq_false_iff.2 (mt hc'.books.isWriteLocked_iff.1 (not_not.2 ho'))

/-- A nested read and a waiting writer between the downgrade and its release. -/
theorem downgrade_atomic_nested : ∃ c c' : System ℕ,
    c.lock.write.thoseWaiting = 1 ∧ c.holds.reads (some 0) = 2 ∧
      c.step .thread .write (.release (some 0) .write) = some (.released, c') ∧
      c'.holds = c.holds.dropRead (some 0) := by
  have hrun : ((Transition.replay (next (fun c a => InTask c a ∧ ByHolder c a) .thread .write)
      ({} : System ℕ) [.acquire 0 .write .forever false, .clear 0]).bind fun c₀ =>
        (c₀.step .thread .write (.downgrade (some 0))).bind fun r =>
          (Transition.replay (next (fun c a => WhileReading 0 c a ∧ a ≠ .release (some 0) .write)
            .thread .write) r.2 [.acquire 1 .write .forever false,
              .acquire 0 .read .nonblocking false]).map fun c =>
            (r.1, c.lock.write.thoseWaiting, c.holds.reads (some 0))) =
      some (.downgraded, 1, 2) := by
    decide
  obtain ⟨c₀, h₀, hrun⟩ := Option.bind_eq_some_iff.1 hrun
  obtain ⟨⟨o, c₁⟩, h₁, hrun⟩ := Option.bind_eq_some_iff.1 hrun
  obtain ⟨c, hc, hval⟩ := Option.map_eq_some_iff.1 hrun
  simp only [Prod.mk.injEq] at hval
  obtain ⟨rfl, hw, hr⟩ := hval
  obtain ⟨c', c'', hout, -, -, hholds, -⟩ :=
    (downgrade_atomic ⟨_, _, rfl, run_of_replay h₀⟩ h₁).2 _ c (run_of_replay hc) (by omega)
  exact ⟨c, c', hw, hr, hout, hholds⟩

end System

end Rwlocker

/-
# Own holds and others' holds

What a caller's own holds do for it, and what they do against the others.

A caller never sleeps behind itself: whoever reads, or owns the write lock of a
reentrant class, is let in to read at once, and at a call of `write.acquire()` it enters
at once or is told that it cannot upgrade (`own_hold_never_waits`).

The plain classes record who owns the write lock and do not ask at a release: a release
by anybody frees it (`foreign_release_frees`).
-/

import Rwlocker.Condition
import Rwlocker.Deed

namespace Rwlocker

variable {τ : Type} [DecidableEq τ]

namespace System

variable {rt : Runtime} {cls : LockClass} {c c' : System τ} {t u : τ} {m : Mode}

/-! ### Behind one's own hold -/

/-- `t` reads; or, in a reentrant class, `t` holds the lock in any combination of modes. -/
def HasHold (cls : LockClass) (c : System τ) (t : τ) : Prop :=
  0 < c.lock.readerOwners.count (some t) ∨ cls.reentrant = true ∧ Holding c.holds (some t)

/-- Nobody begins to wait. -/
def EnqueuesNobody (c c' : System τ) : Prop :=
  ∀ m, c'.lock.queue m <:+ c.lock.queue m ∧
    (c'.lock.proxy m).thoseWaiting = (c.lock.proxy m).thoseWaiting ∧
    ∀ u, InFlight c'.pc m u ↔ InFlight c.pc m u

/-- Whoever has a hold is on record: it reads a lock that nobody else owns, or owns it. -/
theorem Reachable.recorded (h : Reachable rt cls c) (hown : HasHold cls c t) :
    cls.reentrant = true ∧ cls.owner c.lock = some t ∨
      cls.owner c.lock = none ∧ 0 < c.lock.readerOwners.count (some t) := by
  have hread : 0 < c.lock.readerOwners.count (some t) →
      cls.reentrant = true ∧ cls.owner c.lock = some t ∨
        cls.owner c.lock = none ∧ 0 < c.lock.readerOwners.count (some t) := fun hk =>
    (h.wellFormed.books.exclusive _ hk).symm.imp_right fun ho => ⟨ho, hk⟩
  rcases hown with hk | ⟨hc, hw | hr⟩
  · exact hread hk
  · exact .inl ⟨hc, (h.ledger hc).owner_of_writes hw⟩
  · exact hread (by rwa [(h.ledger hc).reads])

theorem step_acquire_eq (hpc : c.pc t = .idle) {p : Patience} (hp : rt = .async → p ≠ .timed)
    (expired : Bool) :
    c.step rt cls (.acquire t m p expired) = some (c.acquire rt cls t m p expired) :=
  if_pos ⟨hpc, hp⟩

/-- A caller that passes the check and the guard enters at once. -/
theorem acquire_at_once (hpc : c.pc t = .idle)
    (hb : cls.beforeAcquire m c.lock (some t) = .ok ())
    (hcan : cls.canAcquire m c.lock (some t) false none = true) (p : Patience) (expired : Bool) :
    ∃ c', c.acquire rt cls t m p expired = (.acquired m, c') ∧ EnqueuesNobody c c' := by
  refine ⟨(c.succeed rt t (cls.acquireCore m c.lock (some t) false none) m).2, ?_, fun m' => ?_⟩
  · unfold acquire
    rw [hb]
    dsimp only
    rw [if_pos hcan]
    exact Prod.ext (succeed_fst ..) rfl
  · have hidle := not_inFlight_of_idle hpc m'
    have hpc' : ∀ u, InFlight (c.succeed rt t
        (cls.acquireCore m c.lock (some t) false none) m).2.pc m' u ↔ InFlight c.pc m' u := by
      intro u
      by_cases hut : u = t
      · subst hut
        exact iff_of_false (not_inFlight_succeed _ _ _ _ _ _) hidle
      · cases m with
        | read => exact inFlight_update_of_ne _ hut m'
        | write => cases rt <;> exact inFlight_update_of_ne _ hut m'
    cases m with
    | read =>
        have hs := cls.signals_onReaderEnter false none (c.lock.enterReader (some t))
        rw [← LockClass.acquireReadCore_eq] at hs
        exact ⟨hs.suffix m', hs.thoseWaiting m', hpc'⟩
    | write =>
        obtain ⟨_, _, _, _, hf⟩ := c.lock.ownWriter_frame cls (some t)
        have hproxy : (c.succeed rt t (cls.acquireCore .write c.lock (some t) false none)
            .write).2.lock.proxy = c.lock.proxy := by
          rw [LockClass.acquireCore, LockClass.acquireWriteCore_eq, hf]
          cases rt <;> rfl
        rw [RWLock.queue, hproxy]
        exact ⟨List.suffix_rfl, rfl, hpc'⟩

/-- **A caller never sleeps behind its own hold.**  Its `read.acquire()` enters at once;
its `write.acquire()` enters at once if it owns the lock, and raises otherwise. -/
theorem own_hold_never_waits (h : Reachable rt cls c) (hpc : c.pc t = .idle)
    (hown : HasHold cls c t) (p : Patience) (hp : rt = .async → p ≠ .timed) (expired : Bool) :
    (∃ c', c.step rt cls (.acquire t .read p expired) = some (.acquired .read, c') ∧
      EnqueuesNobody c c') ∧
    ((cls.owner c.lock = some t ∧
        ∃ c', c.step rt cls (.acquire t .write p expired) = some (.acquired .write, c') ∧
          EnqueuesNobody c c') ∨
      cls.owner c.lock ≠ some t ∧
        c.step rt cls (.acquire t .write p expired) = some (.raised .upgrade, c)) := by
  have hb := h.wellFormed.books
  have hrec := h.recorded hown
  rw [step_acquire_eq hpc hp, step_acquire_eq hpc hp]
  constructor
  · have hcan : cls.canAcquire .read c.lock (some t) false none = true :=
      (hb.canRead_iff (by simp) false none).2 (.inr hrec)
    obtain ⟨c', hc', hno⟩ : ∃ c', c.acquire rt cls t .read p expired = (.acquired .read, c') ∧
      EnqueuesNobody c c' := acquire_at_once hpc rfl hcan p expired
    exact ⟨c', by rw [hc'], hno⟩
  · rcases hrec with ⟨hc, ho⟩ | ⟨ho, hk⟩
    · have hcheck : cls.beforeAcquire .write c.lock (some t) = .ok () := by
        simp [LockClass.beforeAcquire, LockClass.checkWriteAcquireAllowed,
          (cls.isCurrentWriter_iff c.lock (some t)).2 ho]
      have hcan : cls.canAcquire .write c.lock (some t) false none = true :=
        (hb.canWrite_iff (by simp) false none).2 (.inr ⟨hc, ho⟩)
      obtain ⟨c', hc', hno⟩ : ∃ c', c.acquire rt cls t .write p expired =
        (.acquired .write, c') ∧ EnqueuesNobody c c' := acquire_at_once hpc hcheck hcan p expired
      exact .inl ⟨ho, c', by rw [hc'], hno⟩
    · have hne : cls.owner c.lock ≠ some t := by simp [ho]
      have hcur : cls.isCurrentWriter c.lock (some t) = false :=
        Bool.eq_false_iff.2 (mt (cls.isCurrentWriter_iff c.lock (some t)).1 hne)
      refine .inr ⟨hne, ?_⟩
      simp [acquire, LockClass.beforeAcquire, LockClass.checkWriteAcquireAllowed, hcur,
        RWLock.isCurrentReader, hk, hb.readersActive_pos hk]

/-- A reader that a writer waits for reads once more. -/
theorem own_hold_never_waits_nested : ∃ c : System ℕ,
    c.lock.write.thoseWaiting = 1 ∧ c.holds.reads (some 0) = 1 ∧
      (∃ c', c.step .thread .fair (.acquire 0 .read .forever false) =
        some (.acquired .read, c') ∧ EnqueuesNobody c c') ∧
      ((LockClass.fair.owner c.lock = some 0 ∧
          ∃ c', c.step .thread .fair (.acquire 0 .write .forever false) =
            some (.acquired .write, c') ∧ EnqueuesNobody c c') ∨
        LockClass.fair.owner c.lock ≠ some 0 ∧
          c.step .thread .fair (.acquire 0 .write .forever false) =
            some (.raised .upgrade, c)) := by
  have hrun : ((Transition.replay (next InTask .thread .fair) ({} : System ℕ)
      [.acquire 0 .read .forever false, .acquire 1 .write .forever false]).map fun c =>
        (c.lock.write.thoseWaiting, c.holds.reads (some 0), c.pc 0,
          c.lock.readerOwners.count (some 0))) = some (1, 1, .idle, 1) := by
    decide
  obtain ⟨c, hc, hval⟩ := Option.map_eq_some_iff.1 hrun
  simp only [Prod.mk.injEq] at hval
  obtain ⟨hw, hr, hpc, hk⟩ := hval
  exact ⟨c, hw, hr, own_hold_never_waits ⟨_, _, rfl, run_of_replay hc⟩ hpc (.inl (by omega))
    .forever (by simp) false⟩

/-! ### Others' holds -/

/-- `write.release()` by `t` raises and leaves the lock as it is. -/
def RefusesRelease (rt : Runtime) (cls : LockClass) (c : System τ) (t : τ) : Prop :=
  ∃ e c', c.step rt cls (.release (some t) .write) = some (.raised e, c') ∧ c'.lock = c.lock

/-- **A plain class never refuses a release of the write lock by another.**  The release
returns, also through the proxy of a condition, and the lock is free while its owner
has given nothing back. -/
theorem foreign_release_frees {σ : Type} (hc : cls.reentrant = false) (h : Reachable rt cls c)
    (ho : cls.owner c.lock = some u) (hut : t ≠ u) (hpc : c.pc t = .idle) :
    ¬ RefusesRelease rt cls c t ∧
      ∃ c', c.step rt cls (.release (some t) .write) = some (.released, c') ∧
        cls.owner c'.lock = none ∧ c'.holds.writes (some u) = c.holds.writes (some u) ∧
        ∀ (pred : σ → Bool) (d : CondSystem τ σ), d.sys = c → d.phase t = .out →
          d.step rt cls pred (.lock (.release (some t) .write)) =
            some (.lock .released, { d with sys := c' }) := by
  have hw := h.wellFormed
  obtain ⟨c', hst, ho'⟩ : ∃ c', c.step rt cls (.release (some t) .write) = some (.released, c') ∧
      cls.owner c'.lock = none := by
    have hcall : c.canCall rt (some t) = true := by simp [canCall, hpc]
    obtain ⟨⟨o, c'⟩, hr⟩ : ∃ r, c.step rt cls (.release (some t) .write) = some r :=
      ⟨_, if_pos hcall⟩
    cases step_deed hw hr rfl with
    | routed _ _ hk =>
        rcases hw.books.exclusive _ hk with hn | ⟨hre, -⟩
        · simp [ho] at hn
        · simp [hc] at hre
    | countsDown _ hre => simp [hc] at hre
    | frees =>
        exact ⟨_, hr, ((cls.signals_onWriterAbort _ none).owner cls).trans (by simp)⟩
    | freeRaises _ hn =>
        rcases hn with hn | ⟨hre, -⟩
        · simp [ho] at hn
        · simp [hc] at hre
  refine ⟨?_, c', hst, ho', ?_, fun pred d hd hout => ?_⟩
  · rintro ⟨e, c'', hst', -⟩
    rw [hst] at hst'
    cases hst'
  · exact (step_untouched hw.books hst (by simp [Action.caller])
      (by simpa [Action.caller] using hut)).writes
  · simp [CondSystem.step, Action.caller, hout, CondSystem.onLock, hd, hst]

/-- A thread that reads nothing and owns nothing frees the lock of thread `0`. -/
theorem foreign_release_frees_bystander : ∃ c c' : System ℕ,
    LockClass.fair.owner c.lock = some 0 ∧ ¬ RefusesRelease .thread .fair c 1 ∧
      c.step .thread .fair (.release (some 1) .write) = some (.released, c') ∧
      LockClass.fair.owner c'.lock = none := by
  have hrun : ((Transition.replay (next InTask .thread .fair) ({} : System ℕ)
      [.acquire 0 .write .forever false, .clear 0]).map fun c =>
        (LockClass.fair.owner c.lock, c.pc 1)) = some (some 0, .idle) := by
    decide
  obtain ⟨c, hc, hval⟩ := Option.map_eq_some_iff.1 hrun
  simp only [Prod.mk.injEq] at hval
  obtain ⟨ho, hpc⟩ := hval
  obtain ⟨hno, c', hst, ho', -⟩ := foreign_release_frees (σ := Bool) rfl
    ⟨_, _, rfl, run_of_replay hc⟩ ho (by decide) hpc
  exact ⟨c, c', ho, hno, hst, ho'⟩

/-- Thread `1` releases the write lock of thread `0`, thread `2` acquires it, and both
hold it. -/
theorem foreign_release_two_writers : ∃ c c₁ c₂ : System ℕ, Reachable .thread .write c ∧
    LockClass.write.owner c.lock = some 0 ∧ ¬ RefusesRelease .thread .write c 1 ∧
    c.step .thread .write (.release (some 1) .write) = some (.released, c₁) ∧
    c₁.step .thread .write (.acquire 2 .write .forever false) = some (.acquired .write, c₂) ∧
    c₂.holds.writes (some 0) = 1 ∧ c₂.holds.writes (some 2) = 1 := by
  have hrun : ((Transition.replay (next InTask .thread .write) ({} : System ℕ)
      [.acquire 0 .write .forever false, .clear 0]).bind fun c =>
        (c.step .thread .write (.release (some 1) .write)).bind fun r =>
          (r.2.step .thread .write (.acquire 2 .write .forever false)).map fun r' =>
            (LockClass.write.owner c.lock, r.1, r'.1, r'.2.holds.writes (some 0),
              r'.2.holds.writes (some 2))) =
      some (some 0, .released, .acquired .write, 1, 1) := by
    decide
  obtain ⟨c, hc, hrun⟩ := Option.bind_eq_some_iff.1 hrun
  obtain ⟨⟨o, c₁⟩, h₁, hrun⟩ := Option.bind_eq_some_iff.1 hrun
  obtain ⟨⟨o', c₂⟩, h₂, hval⟩ := Option.map_eq_some_iff.1 hrun
  simp only [Prod.mk.injEq] at hval
  obtain ⟨ho, rfl, rfl, hw₀, hw₂⟩ := hval
  refine ⟨c, c₁, c₂, ⟨_, _, rfl, run_of_replay hc⟩, ho, ?_, h₁, h₂, hw₀, hw₂⟩
  rintro ⟨e, c', hst, -⟩
  rw [h₁] at hst
  cases hst

end System

end Rwlocker

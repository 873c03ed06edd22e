/-
# The only deadlock

A quiescent lock with somebody waiting is not stuck for good: `NoLostWakeup` says that the
lock is held, and here that a holder is outside `acquire`, free to give it back.  A
reader's own hold lets it in again, and the owner of a reentrant class enters what it
owns, so nobody waits for itself, with one exception: the owner of a plain class that
calls `acquire` once more (`holder_is_free`).

That one is final while callers release only what they hold.  Nobody else may give the
lock back, so the owner waits, and everybody after it, for as long as nobody cancels it
(`self_deadlock_lasts`).
-/

import Rwlocker.Deed

namespace Rwlocker

variable {τ : Type} [DecidableEq τ]

namespace System

/-- The owner of a plain lock waits for itself, without a timeout. -/
def SelfDeadlock (cls : LockClass) (c : System τ) (u : τ) : Prop :=
  cls.reentrant = false ∧ cls.owner c.lock = some u ∧
    ∃ m seq, c.pc u = .waiting m seq false false

variable {rt : Runtime} {cls : LockClass} {c c' : System τ} {t u : τ} {m : Mode} {seq : ℕ}
  {timed : Bool} {a : Action τ} {o : Outcome}

/-! ### Somebody can go on -/

/-- A lock that keeps somebody asleep is held, whoever called what. -/
theorem Quiescent.held (hq : c.Quiescent) (h : Reachable rt cls c)
    (ht : InFlight c.pc m t) :
    (∃ u, cls.owner c.lock = some u ∧ 0 < c.holds.writes (some u)) ∨
      ∃ u, 0 < c.lock.readerOwners.count (some u) ∧ 0 < c.holds.reads (some u) := by
  have hb := h.wellFormed.books
  by_cases ho : cls.owner c.lock = none
  · right
    have hra : c.lock.readersActive ≠ 0 := fun hra => hq.no_waiters h ho hra m t ht
    rw [Ne, hb.readersActive_eq_zero_iff, not_forall] at hra
    obtain ⟨k, hk⟩ := hra
    cases k with
    | none => exact absurd hb.noneReads hk
    | some u =>
        have hpos : 0 < c.lock.readerOwners.count (some u) := by omega
        exact ⟨u, hpos, hpos.trans_le (h.backed.reads _)⟩
  · obtain ⟨u, hu⟩ := Option.ne_none_iff_exists'.1 ho
    exact .inl ⟨u, hu, h.backed.writes u hu⟩

/-- **Nobody waits in a circle**, whoever called what.  In a quiescent state in which
somebody waits, a caller that holds the lock is outside `acquire`; or the class is plain,
and the owner of the write lock called `acquire` again. -/
theorem holder_is_free (h : Reachable rt cls c) (hq : c.Quiescent)
    (ht : InFlight c.pc m t) :
    (∃ u, Holding c.holds (some u) ∧ ∀ m, ¬ InFlight c.pc m u) ∨
      cls.reentrant = false ∧ ∃ u m, cls.owner c.lock = some u ∧ InFlight c.pc m u := by
  have hst := h.wellFormed.stranger
  rcases hq.held h ht with ⟨u, ho, hw⟩ | ⟨u, hk, hr⟩
  · by_cases hu : ∃ m, InFlight c.pc m u
    · obtain ⟨m', hu⟩ := hu
      have hc : cls.reentrant = false := by
        by_contra hc
        exact (hst m' u hu).2 ⟨by simpa using hc, ho⟩
      exact .inr ⟨hc, u, m', ho, hu⟩
    · exact .inl ⟨u, .inl hw, fun m hm => hu ⟨m, hm⟩⟩
  · refine .inl ⟨u, .inr hr, fun m hm => ?_⟩
    have := (hst m u hm).1
    omega

/-- A downgraded writer reads, and the next writer waits for it. -/
theorem holder_is_free_downgraded : ∃ c : System (Fin 3),
    (Asleep c.lock c.pc .write 1 ∧ c.holds.reads (some 0) = 1) ∧
    ((∃ u, Holding c.holds (some u) ∧ ∀ m, ¬ InFlight c.pc m u) ∨
      LockClass.fairReentrantWriter.reentrant = false ∧
        ∃ u m, LockClass.fairReentrantWriter.owner c.lock = some u ∧ InFlight c.pc m u) := by
  have hrun : ((Transition.replay (next InTask .async .fairReentrantWriter) {}
      [.acquire 0 .write .forever false, .acquire 1 .write .forever false,
        .downgrade (some 0)]).map fun c : System (Fin 3) =>
        decide (c.Quiescent ∧ Asleep c.lock c.pc .write 1 ∧ c.holds.reads (some 0) = 1)) =
      some true := by
    decide
  obtain ⟨c, hc, hval⟩ := Option.map_eq_some_iff.1 hrun
  obtain ⟨hq, hval⟩ := of_decide_eq_true hval
  exact ⟨c, hval, holder_is_free ⟨_, _, rfl, run_of_replay hc⟩ hq hval.1.inFlight⟩

/-! ### Nobody can help -/

omit [DecidableEq τ] in
theorem not_admits_of_owner {s : RWLock τ} (ho : cls.owner s = some u) (m : Mode) (seq : ℕ) :
    ¬ cls.Admits m s seq := by
  cases m with
  | read =>
      intro h
      cases ho.symm.trans h.1
  | write =>
      intro h
      cases ho.symm.trans h.1

/-- A plain class that is owned lets nobody in. -/
theorem plain_closed {s : RWLock τ} (hc : cls.reentrant = false) (hb : Books cls s)
    (ho : cls.owner s = some u) (m : Mode) (t : τ) (waiting : Bool) (waiterSeq : Option ℕ) :
    cls.canAcquire m s (some t) waiting waiterSeq = false := by
  refine Bool.eq_false_iff.2 fun hcan => ?_
  cases m with
  | read =>
      rcases (hb.canRead_iff (by simp) waiting waiterSeq).1 hcan with h | ⟨h, -⟩ | ⟨h, -⟩
      · cases ho.symm.trans h.1
      · simp [hc] at h
      · cases ho.symm.trans h
  | write =>
      rcases (hb.canWrite_iff (by simp) waiting waiterSeq).1 hcan with h | ⟨h, -⟩
      · cases ho.symm.trans h.1
      · simp [hc] at h

/-- The wait loop of an owned lock changes no owner and lets nobody in. -/
theorem looped_of_owner (ho : cls.owner c.lock = some u)
    (h : Looped rt cls c t m seq timed o c') :
    cls.owner c'.lock = some u ∧ (∀ m', o ≠ .acquired m') ∧
      (timed = false → c'.pc t = .waiting m seq false false) := by
  cases h with
  | enters hadm => exact absurd hadm (not_admits_of_owner ho m seq)
  | givesUp htimed =>
      refine ⟨?_, by simp, fun h => ?_⟩
      · rw [← ho]
        exact (cls.signals_onAbort m (c.lock.stopWaiting m) (some seq)).owner cls
      · rw [htimed] at h
        cases h
  | parks => exact ⟨ho, by simp, by rintro rfl; exact Function.update_self ..⟩

/-- **A self-deadlock outlives every step**, and no step gets anybody in. -/
theorem SelfDeadlock.step (hd : SelfDeadlock cls c u) (h : HolderReachable rt cls c)
    (hst : c.step rt cls a = some (o, c')) (ha : a.caller ≠ none) (hby : ByHolder c a)
    (hu : a ≠ .interrupt u) : SelfDeadlock cls c' u ∧ ∀ m, o ≠ .acquired m := by
  obtain ⟨hc, ho, m, seq, hpc⟩ := hd
  have hb := h.books
  obtain ⟨t, ht⟩ := Option.ne_none_iff_exists'.1 ha
  have hidle : c.pc t = .idle → t ≠ u := by
    rintro hi rfl
    rw [hpc] at hi
    cases hi
  have hread := hb.count_eq_zero hc (by simp [ho]) (some t)
  have hmine : cls.owner c.lock = some t → c.pc t ≠ .idle := by
    intro hown hi
    exact hidle hi (Option.some.inj (hown.symm.trans ho))
  -- whoever is not `u` leaves `u` where it is
  have hstay : t ≠ u → c'.pc u = .waiting m seq false false := fun htu =>
    (step_untouched hb hst ha (by simpa [ht] using htu)).pc.trans hpc
  have hdeed := step_deed h.reachable.wellFormed hst ht
  suffices hkey : cls.owner c'.lock = some u ∧ (∀ m, o ≠ .acquired m) ∧
      (t = u → c'.pc u = .waiting m seq false false) by
    refine ⟨⟨hc, hkey.1, m, seq, ?_⟩, hkey.2.1⟩
    by_cases htu : t = u
    · exact hkey.2.2 htu
    · exact hstay htu
  cases hdeed with
  | rejected hi | refused hi | leaveRaises hi | downgradeRaises hi =>
      exact ⟨ho, by simp, fun htu => absurd htu (hidle hi)⟩
  | enters hi hcan =>
      rw [plain_closed hc hb ho] at hcan
      cases hcan
  | @waits m p expired o c' hi _ _ _ hloop =>
      obtain ⟨h₁, h₂, -⟩ :=
        looped_of_owner (show cls.owner (c.register t m _).lock = some u from ho) hloop
      exact ⟨h₁, h₂, fun htu => absurd htu (hidle hi)⟩
  | @goesOn m' seq' timed i expired o c' hw _ _ hloop =>
      obtain ⟨h₁, h₂, h₃⟩ :=
        looped_of_owner (show cls.owner (c.endWait t m' i).lock = some u from ho) hloop
      refine ⟨h₁, h₂, ?_⟩
      rintro rfl
      rw [hpc] at hw
      cases hw
      exact h₃ rfl
  | @cancelled m' seq' timed expired hrt hw =>
      refine ⟨?_, by simp, ?_⟩
      · rw [← ho]
        exact (cls.signals_onAbort m' ((c.endWait t m' true).lock.stopWaiting m')
          (some seq')).owner cls
      · rintro rfl
        rw [hpc] at hw
        cases hw
  | timesOut | isCancelled =>
      refine ⟨ho, by simp, ?_⟩
      rintro rfl
      exact absurd rfl hu
  | clears hw =>
      refine ⟨ho, by simp, ?_⟩
      rintro rfl
      rw [hpc] at hw
      cases hw
  | leaves hi hcount | routed hi _ hcount => omega
  | countsDown hi hre => simp [hc] at hre
  | frees hi hne hr =>
      exact absurd hi (hmine (h.ledger.owner_of_holding hb (fun _ => hby) hne hr))
  | freeRaises hi hn =>
      rcases hn with hn | ⟨hre, -⟩
      · cases ho.symm.trans hn
      · simp [hc] at hre
  | downgrades hi hown => exact absurd hi (hmine hown)

/-- **A self-deadlock lasts.**  Once the owner of a plain class waits for itself, it waits
after every run in which callers release only what they hold and nobody cancels it; and
nobody else is let in. -/
theorem self_deadlock_lasts (h : HolderReachable rt cls c) (hd : SelfDeadlock cls c u)
    {as : List (Action τ)}
    (hrun : Transition.Run (Transition.restrict
      (fun c a => InTask c a ∧ ByHolder c a ∧ a ≠ .interrupt u) (Step rt cls)) c as c') :
    SelfDeadlock cls c' u ∧ ∀ a o c'', a.caller ≠ none → ByHolder c' a → a ≠ .interrupt u →
      c'.step rt cls a = some (o, c'') → ∀ m, o ≠ .acquired m := by
  obtain ⟨h', hd'⟩ := hrun.invariant
    (I := fun c => HolderReachable rt cls c ∧ SelfDeadlock cls c u)
    (fun c a c' hI hst => by
      obtain ⟨⟨ha, hby, hu⟩, o, hst⟩ := hst
      exact ⟨hI.1.step hst ha hby, (hI.2.step hI.1 hst ha hby hu).1⟩) ⟨h, hd⟩
  exact ⟨hd', fun a o c'' ha hby hu hst => (hd'.step h' hst ha hby hu).2⟩

/-- A thread asks to read what it writes, and a second thread asks, too. -/
theorem self_deadlock_lasts_reading : ∃ c c' : System ℕ,
    (SelfDeadlock .readerPhaseFair c 0 ∧ c'.lock.read.thoseWaiting = 2) ∧
    SelfDeadlock .readerPhaseFair c' 0 ∧ ∀ a o c'', a.caller ≠ none → ByHolder c' a →
      a ≠ .interrupt 0 → c'.step .thread .readerPhaseFair a = some (o, c'') →
        ∀ m, o ≠ .acquired m := by
  have hrun : ((Transition.replay (next (fun c a => InTask c a ∧ ByHolder c a) .thread
      .readerPhaseFair) ({} : System ℕ) [.acquire 0 .write .forever false, .clear 0,
      .acquire 0 .read .forever false]).bind fun c =>
        (Transition.replay (next (fun c a => InTask c a ∧ ByHolder c a ∧ a ≠ .interrupt 0)
          .thread .readerPhaseFair) c [.acquire 1 .read .timed false]).map fun c' =>
            (LockClass.readerPhaseFair.owner c.lock, c.pc 0, c'.lock.read.thoseWaiting)) =
      some (some 0, .waiting .read 1 false false, 2) := by
    decide
  obtain ⟨c, hc, hrun⟩ := Option.bind_eq_some_iff.1 hrun
  obtain ⟨c', hc', hval⟩ := Option.map_eq_some_iff.1 hrun
  simp only [Prod.mk.injEq] at hval
  obtain ⟨ho, hpc, hw⟩ := hval
  have hd : SelfDeadlock .readerPhaseFair c 0 := ⟨rfl, ho, _, _, hpc⟩
  exact ⟨c, c', ⟨hd, hw⟩,
    self_deadlock_lasts ⟨_, _, rfl, run_of_replay hc⟩ hd (run_of_replay hc')⟩

end System

end Rwlocker

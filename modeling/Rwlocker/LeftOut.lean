/-
# Readers that are left out

A last release of a strict fair lock begins a phase only if the read queue is not empty.
A reader that was signalled is in no queue, and if it came too late for the phase that is
on, the release gives it no place.  Such a reader is left out (`LeftOut`): those with a
place may enter and leave, and then a writer is let in while it still waits
(`LeftOut.passed`).

So a last release drains the waiting readers exactly if none waits, or one is in the queue,
or every one has a slot (`fair_release_drains`).
-/

import Rwlocker.Drain

namespace Rwlocker

open ReadersWriter (Holds)
open RWLock (Signals)

variable {τ : Type} [DecidableEq τ]

namespace System

variable {rt : Runtime} {cls : LockClass} {c c' c₀ c₁ : System τ} {s : RWLock τ} {t u r : τ}
  {seq : ℕ} {a : Action τ} {o : Outcome}

/-! ### The reading that is left -/

/-- Reader `r` waits outside every queue of readers and has no place in the phase, nobody
owns the lock, and whoever reads is free to give it back; `u` is free to write. -/
structure LeftOut (rt : Runtime) (cls : LockClass) (u r : τ) (seq : ℕ) (c : System τ) : Prop where
  reachable : Reachable rt cls c
  owner : cls.owner c.lock = none
  queue : c.lock.queue .read = []
  waits : Waits c .read r seq
  late : c.lock.readersTurn = true → c.lock.readerPhaseCutoff < seq
  readers : ∀ t, 0 < c.lock.readerOwners.count (some t) → c.pc t = .idle
  idle : c.pc u = .idle

/-- What is left to do before `u` can write: every waiting reader may enter and leave. -/
def readingLeft (c : System τ) : ℕ :=
  (2 * c.lock.read.thoseWaiting + c.lock.readersActive).toNat

/-- Somebody else's call ends, begins no phase and leaves less reading to do; `s` is the
lock before its last signals. -/
theorem LeftOut.step (h : LeftOut rt cls u r seq c) (hst : c.step rt cls a = some (o, c'))
    (ha : a.caller = some t) (htr : t ≠ r) (hidle : c'.pc t = .idle)
    (hs : Signals s c'.lock) (howner : cls.owner s = none) (hqueue : s.queue .read = [])
    (hph : PhaseShrinks c.lock c'.lock)
    (hless : 2 * s.read.thoseWaiting + s.readersActive <
      2 * c.lock.read.thoseWaiting + c.lock.readersActive) :
    LeftOut rt cls u r seq c' ∧ readingLeft c' < readingLeft c := by
  have hw := h.reachable.wellFormed
  have ha' : a.caller ≠ none := by simp [ha]
  have hother : ∀ v, v ≠ t → Untouched v c c' := fun v hv =>
    step_untouched hw.books hst ha' (by simpa [ha] using Ne.symm hv)
  constructor
  · refine ⟨h.reachable.step hst ha', (hs.owner cls).trans howner,
      List.suffix_nil.1 (hqueue ▸ hs.suffix .read), ?_, fun hturn => ?_, fun v hv => ?_, ?_⟩
    · unfold Waits
      rw [(hother r htr.symm).pc]
      exact h.waits
    · obtain ⟨hturn, hcut, -⟩ := hph hturn
      exact hcut ▸ h.late hturn
    · by_cases hvt : v = t
      · exact hvt ▸ hidle
      · rw [(hother v hvt).pc]
        exact h.readers v ((hother v hvt).count ▸ hv)
    · by_cases hut : u = t
      · exact hut ▸ hidle
      · exact (hother u hut).pc.trans h.idle
  · have hwait : 0 < c.lock.read.thoseWaiting := hw.thoseWaiting_pos h.waits.inFlight
    have hact := hw.books.readersActive_nonneg
    unfold readingLeft
    rw [RWLock.read, hs.thoseWaiting .read, hs.readersActive]
    exact (Int.toNat_lt_toNat (by omega)).2 hless

/-- Whoever reads may stop. -/
theorem LeftOut.leave (h : LeftOut rt cls u r seq c)
    (ht : 0 < c.lock.readerOwners.count (some t)) :
    ∃ o c', c.step rt cls (.release (some t) .read) = some (o, c') ∧
      LeftOut rt cls u r seq c' ∧ readingLeft c' < readingLeft c := by
  have hw := h.reachable.wellFormed
  have hidle := h.readers t ht
  obtain ⟨⟨o, c'⟩, hst⟩ : ∃ x, c.step rt cls (.release (some t) .read) = some x :=
    ⟨_, if_pos (by simpa [canCall] using hidle)⟩
  have htr : t ≠ r := by
    rintro rfl
    exact not_inFlight_of_idle hidle .read h.waits.inFlight
  refine ⟨o, c', hst, ?_⟩
  cases step_deed hw hst rfl with
  | leaveRaises _ hcount => omega
  | leaves =>
      have hdrop : PhaseShrinks c.lock (c.lock.dropReader (some t)) := .refl c.lock
      refine h.step hst rfl htr hidle (cls.signals_onReaderLeave (c.lock.dropReader (some t)))
        h.owner h.queue (hdrop.trans (cls.shrinks_onReaderLeave _)) ?_
      show 2 * c.lock.read.thoseWaiting + (c.lock.readersActive - 1) < _
      omega

/-- The end of a wait leaves the read queue empty. -/
theorem LeftOut.queue_endWait (h : LeftOut rt cls u r seq c) (j : Bool) :
    (c.endWait t .read j).lock.queue .read = [] := by
  simp only [endWait, RWLock.queue_onQueue, if_true]
  cases j <;> simp [WaitQueue.dropWaiter, WaitQueue.discardWaiter, h.queue]

/-- The end of a waiting read call counts one reader less. -/
theorem thoseWaiting_endWait (c : System τ) (t : τ) (j : Bool) :
    ((c.endWait t .read j).lock.stopWaiting .read).read.thoseWaiting =
      c.lock.read.thoseWaiting - 1 := by
  rw [RWLock.read, RWLock.thoseWaiting_stopWaiting]
  simp [endWait]

/-- A reader with a place is let in when its wait ends. -/
theorem LeftOut.admits (hp : cls.policy = .fair) (h : LeftOut rt cls u r seq c)
    (hturn : c.lock.readersTurn = true) {n : ℕ} {timed i : Bool}
    (hpc : c.pc t = .waiting .read n timed i) (hcut : n ≤ c.lock.readerPhaseCutoff) (j : Bool) :
    cls.Admits .read (c.endWait t .read j).lock n := by
  obtain ⟨F, hF, hcard⟩ := (h.reachable.slots hp).on hturn
  have hslot := Finset.card_pos.2 ⟨t, (hF t).2 ⟨n, timed, i, hpc, hcut⟩⟩
  refine ⟨h.owner, ?_⟩
  simp only [hp]
  refine .inr ⟨hturn, (RWLockFairMixin.isReservedReader_iff _ _).2 ⟨hturn, hcut, ?_⟩⟩
  show 0 < c.lock.readerPhasePending
  omega

/-- A reader with a place is on its way, and its next step ends its call. -/
theorem LeftOut.serve (hp : cls.policy = .fair) (h : LeftOut rt cls u r seq c)
    (hturn : c.lock.readersTurn = true) (ht : Reserved c.pc c.lock.readerPhaseCutoff t) :
    ∃ o c', c.step rt cls (.resume t false) = some (o, c') ∧
      LeftOut rt cls u r seq c' ∧ readingLeft c' < readingLeft c := by
  have hw := h.reachable.wellFormed
  obtain ⟨seq', timed, i, hpc, hcut⟩ := ht
  have hpend : c.lock.waiter .read t ≠ .pending := fun hpend => by
    have hmem := hw.pending .read t hpend
    rw [h.queue] at hmem
    cases hmem
  have htr : t ≠ r := by
    rintro rfl
    obtain ⟨_, _, hpc'⟩ := h.waits
    have hlate := h.late hturn
    cases hpc.symm.trans hpc'
    omega
  obtain ⟨⟨o, c'⟩, hst⟩ : ∃ x, c.step rt cls (.resume t false) = some x := by
    simp only [System.step, hpc]
    exact ⟨_, if_neg fun hno => hpend hno.1⟩
  refine ⟨o, c', hst, ?_⟩
  cases step_deed hw hst rfl with
  | goesOn hpc' _ _ hloop =>
      cases hpc.symm.trans hpc'
      cases hloop with
      | givesUp _ hno | parks hno => exact absurd (h.admits hp hturn hpc hcut i) hno
      | enters =>
          have hin : PhaseShrinks c.lock
              ((c.endWait t .read i).lock.enterReader (some t)) := .refl c.lock
          rw [LockClass.acquireCore, LockClass.acquireReadCore_eq] at hst ⊢
          refine h.step hst rfl htr (Function.update_self ..)
            ((cls.signals_onReaderEnter true (some seq') _).stopWaiting .read) h.owner ?_
            (hin.trans (cls.shrinks_onReaderEnter true (some seq') _)) ?_
          · exact h.queue_endWait i
          · show 2 * ((c.endWait t .read i).lock.stopWaiting .read).read.thoseWaiting +
              (c.lock.readersActive + 1) < _
            rw [thoseWaiting_endWait]
            omega
  | cancelled _ hpc' =>
      cases hpc.symm.trans hpc'
      have hout : PhaseShrinks c.lock ((c.endWait t .read true).lock.stopWaiting .read) :=
        .refl c.lock
      refine h.step hst rfl htr (Function.update_self ..) (cls.signals_onReaderAbort _ (some seq'))
        h.owner ?_ (hout.trans (cls.shrinks_onReaderAbort _ _)) ?_
      · exact h.queue_endWait true
      · rw [thoseWaiting_endWait]
        show _ + c.lock.readersActive < _
        omega

/-! ### The writer that comes first -/

/-- From `c` on, `u` may acquire the write lock before reader `r`. -/
def Passed (rt : Runtime) (cls : LockClass) (u r : τ) (seq : ℕ) (c : System τ) : Prop :=
  ∃ as c' c'', Transition.Run (Transition.restrict InTask (Step rt cls)) c as c' ∧
    c'.step rt cls (.acquire u .write .nonblocking false) = some (.acquired .write, c'') ∧
    Waits c' .read r seq

/-- A step before it leads there too. -/
theorem Passed.of_step (h : Passed rt cls u r seq c')
    (hst : c.step rt cls a = some (o, c')) (ha : a.caller ≠ none) :
    Passed rt cls u r seq c := by
  obtain ⟨as, c₁, c₂, hrun, hacq, hwaits⟩ := h
  exact ⟨a :: as, c₁, c₂, .cons ⟨ha, o, hst⟩ hrun, hacq, hwaits⟩

/-- `u` acquires on the fast path, if a writer is let in. -/
theorem LeftOut.write (h : LeftOut rt cls u r seq c) (hadm : cls.AdmitsWriter c.lock) :
    Passed rt cls u r seq c := by
  have hw := h.reachable.wellFormed
  obtain ⟨⟨o, c'⟩, hst⟩ : ∃ x, c.step rt cls (.acquire u .write .nonblocking false) = some x :=
    ⟨_, if_pos ⟨h.idle, by simp⟩⟩
  have hcan : cls.canAcquire .write c.lock (some u) false none = true :=
    (hw.books.canWrite_iff (by simp) false none).2 (.inl hadm)
  refine ⟨[], c, c', .nil c, ?_, h.waits⟩
  cases step_deed hw hst rfl with
  | rejected _ hno =>
      -- the caller would have to read, and nobody reads
      simp [LockClass.beforeAcquire, LockClass.checkWriteAcquireAllowed, hadm.2.1] at hno
  | enters => exact hst
  | refused _ hno | waits _ _ hno => cases hno.symm.trans hcan

/-- **A reader that is left out is overtaken**: the others may read, and then `u` writes. -/
theorem LeftOut.passed (hp : cls.policy = .fair) (h : LeftOut rt cls u r seq c) :
    Passed rt cls u r seq c := by
  induction hn : readingLeft c using Nat.strong_induction_on generalizing c with
  | _ n ih =>
      subst hn
      have hb := h.reachable.wellFormed.books
      by_cases hact : c.lock.readersActive = 0
      · by_cases hadm : cls.AdmitsWriter c.lock
        · exact h.write hadm
        · have hphase : c.lock.readersTurn = true ∧ 0 < c.lock.readerPhasePending := by
            by_contra hphase
            exact hadm ⟨h.owner, hact, by simpa only [hp] using hphase⟩
          obtain ⟨F, hF, hcard⟩ := (h.reachable.slots hp).on hphase.1
          obtain ⟨t, ht⟩ := Finset.card_pos.1 (show 0 < F.card by omega)
          obtain ⟨o, c', hst, h', hless⟩ := h.serve hp hphase.1 ((hF t).1 ht)
          exact (ih _ hless h' rfl).of_step hst (by simp [Action.caller])
      · rw [hb.readersActive_eq_zero_iff, not_forall] at hact
        obtain ⟨k, hk⟩ := hact
        cases k with
        | none => exact absurd hb.noneReads hk
        | some t =>
            obtain ⟨o, c', hst, h', hless⟩ := h.leave (Nat.pos_of_ne_zero hk)
            exact (ih _ hless h' rfl).of_step hst (by simp [Action.caller])

/-! ### A release that drains -/

/-- There are as many slots as waiting readers exactly if every one of them has a slot. -/
theorem Reachable.reserved_iff (hp : cls.policy = .fair) (h : Reachable rt cls c)
    (hturn : c.lock.readersTurn = true) :
    c.lock.readerPhasePending = c.lock.read.thoseWaiting ↔
      ∀ t seq, Waits c .read t seq → seq ≤ c.lock.readerPhaseCutoff := by
  obtain ⟨F, hF, hcard⟩ := (h.slots hp).on hturn
  obtain ⟨G, hG, hcard'⟩ := h.wellFormed.flight .read
  have hsub : F ⊆ G := fun v hv => (hG v).2 ((hF v).1 hv).inFlight
  rw [hcard, RWLock.read, hcard', Int.natCast_inj]
  constructor
  · rintro heq t seq ⟨timed, i, hpc⟩
    obtain rfl : F = G := Finset.eq_of_subset_of_card_le hsub heq.ge
    obtain ⟨seq', timed', i', hpc', hcut⟩ := (hF t).1 ((hG t).2 ⟨_, _, _, hpc⟩)
    cases hpc.symm.trans hpc'
    exact hcut
  · intro hall
    refine congrArg Finset.card (hsub.antisymm fun t ht => (hF t).2 ?_)
    obtain ⟨seq, timed, i, hpc⟩ := (hG t).1 ht
    exact ⟨seq, timed, i, hpc, hall t seq ⟨timed, i, hpc⟩⟩

/-- Where somebody waits to read and there are not as many slots as waiting readers, one of
them has none. -/
theorem Reachable.exists_late (hp : cls.policy = .fair) (h : Reachable rt cls c)
    (hne : c.lock.read.thoseWaiting ≠ 0) (hslots : ¬ (c.lock.readersTurn = true ∧
      c.lock.readerPhasePending = c.lock.read.thoseWaiting)) :
    ∃ r seq, Waits c .read r seq ∧
      (c.lock.readersTurn = true → c.lock.readerPhaseCutoff < seq) := by
  by_cases hon : c.lock.readersTurn = true
  · have hless := mt (h.reserved_iff hp hon).2 fun hpend => hslots ⟨hon, hpend⟩
    push Not at hless
    obtain ⟨r, seq, hr, hcut⟩ := hless
    exact ⟨r, seq, hr, fun _ => hcut⟩
  · have hnn := h.wellFormed.thoseWaiting_nonneg .read
    obtain ⟨r, seq, timed, i, hpc⟩ := h.wellFormed.exists_inFlight (m := .read) (by
      rw [RWLock.read] at hne
      omega)
    exact ⟨r, seq, ⟨timed, i, hpc⟩, fun h => absurd h hon⟩

/-- With nobody in the read queue a last release begins no phase. -/
theorem shrinks_lastRelease (hp : cls.policy = .fair) (hq : s.queue .read = []) (k : Option τ) :
    PhaseShrinks s (cls.onWriterAbort (s.unmark k).freeWriter none) := by
  obtain ⟨k', hk⟩ := s.unmark_frame k
  have hfree : PhaseShrinks s (s.unmark k).freeWriter := by
    rw [hk]
    exact .refl s
  have hno : (s.unmark k).freeWriter.read.condition.hasWaiters = false := by
    rw [RWLock.read, (unmark_freeWriter_fields s k).1]
    simpa [WaitQueue.hasWaiters] using hq
  refine hfree.trans ?_
  rw [LockClass.onWriterAbort_of_fair hp, RWLockReaderPhaseFairMixin.onWriterAbort, hno,
    Bool.and_false, if_neg (by simp)]
  exact .ite (.notify _ .write 1) (.refl _)

/-- A last release that finds readers, but nobody in their queue, leaves out whoever has no
slot. -/
theorem leftOut_of_lastRelease (hp : cls.policy = .fair) (h₀ : Reachable rt cls c₀)
    (hst : c₀.step rt cls a = some (o, c₁)) (hu : a.caller = some u)
    (hlast : LastRelease cls c₀ o c₁) (hq : c₀.lock.queue .read = [])
    (hr : Waits c₀ .read r seq)
    (hlate : c₀.lock.readersTurn = true → c₀.lock.readerPhaseCutoff < seq) :
    LeftOut rt cls u r seq c₁ := by
  have hw := h₀.wellFormed
  have hown := hlast.2.1
  obtain ⟨hidle, hre, rfl⟩ := lastRelease_frees hw hst hu hlast
  obtain ⟨k, hk⟩ := c₀.lock.unmark_frame (some u)
  have hsig := cls.signals_onWriterAbort (c₀.lock.unmark (some u)).freeWriter none
  refine ⟨h₀.step hst (by simp [hu]), (hsig.owner cls).trans (by simp), ?_, hr, fun hturn => ?_,
    fun t ht => ?_, hidle⟩
  · refine List.suffix_nil.1 ?_
    have := hsig.suffix .read
    rw [hk] at this ⊢
    exact hq ▸ this
  · obtain ⟨hturn, hcut, -⟩ := shrinks_lastRelease hp hq (some u) hturn
    exact hcut ▸ hlate hturn
  · rw [hsig.readerOwners, hk] at ht
    rcases hw.books.exclusive (some t) ht with ho | ⟨hc, ho⟩
    · exact absurd ho hown
    · cases (hre hc).symm.trans ho
      exact hidle

/-- **In a strict fair lock a last release drains the waiting readers first** exactly if
nobody waits to read, or one of the waiting readers is in the queue, or the phase that is
on has a slot for each of them. -/
theorem fair_release_drains (hp : cls.policy = .fair) (h₀ : Reachable rt cls c₀)
    (hst : c₀.step rt cls a = some (o, c₁)) (ha : a.caller ≠ none)
    (hlast : LastRelease cls c₀ o c₁) :
    DrainsFirst rt cls c₀ c₁ ↔ c₀.lock.read.thoseWaiting = 0 ∨ c₀.lock.queue .read ≠ [] ∨
      c₀.lock.readersTurn = true ∧
        c₀.lock.readerPhasePending = c₀.lock.read.thoseWaiting := by
  obtain ⟨u, hu⟩ := Option.ne_none_iff_exists'.1 ha
  have hw := h₀.wellFormed
  constructor
  · intro hdrains
    by_contra hcond
    simp only [not_or, not_not] at hcond
    obtain ⟨hne, hq, hslots⟩ := hcond
    obtain ⟨r, seq, hr, hlate⟩ := h₀.exists_late hp hne hslots
    have hleft := leftOut_of_lastRelease hp h₀ hst hu hlast hq hr hlate
    obtain ⟨as, c, c', hrun, hacq, hwaits⟩ := hleft.passed hp
    exact hdrains as c _ c' hrun (by simp [InTask, Action.caller]) hacq r seq hr hwaits
  · intro hcond
    refine drainsFirst_of_placed (.inr hp) h₀ hst ha fun t seq ht => ?_
    obtain ⟨timed, i, hpc⟩ := ht
    have hfl : InFlight c₀.pc .read t := ⟨_, _, _, hpc⟩
    have hle := hw.seq_le .read t seq timed i hpc
    obtain ⟨hproxy, hturn, hcut⟩ := unmark_freeWriter_fields c₀.lock (some u)
    rw [lock_lastRelease hw hst hu hlast]
    rcases hcond with hz | hq | ⟨hon, hpend⟩
    · have := hw.thoseWaiting_pos hfl
      rw [RWLock.read] at hz
      omega
    · refine placed_of_queued (.inr hp) (by simp) ?_ ?_ (by rwa [RWLock.read, hproxy])
      · rw [RWLock.read, hproxy]
        exact hw.thoseWaiting_pos hfl
      · rwa [RWLock.queue, hproxy]
    · refine placed_of_turn (by simp) (hturn.trans hon) (fun _ => ?_)
        (by rwa [RWLock.read, hproxy])
      rw [hcut]
      exact (h₀.reserved_iff hp hon).1 hpend t seq ⟨timed, i, hpc⟩

/-- A writer releases while one reader sleeps. -/
theorem fair_release_drains_asleep : ∃ c₀ c₁ : System ℕ,
    Waits c₀ .read 1 1 ∧ DrainsFirst .thread .fair c₀ c₁ := by
  have hrun : ((Transition.replay (next InTask .thread .fair) ({} : System ℕ)
      [.acquire 0 .write .forever false, .clear 0, .acquire 1 .read .forever false,
        .acquire 2 .write .timed false]).bind fun c₀ =>
        (c₀.step .thread .fair (.release (some 0) .write)).map fun r =>
          (c₀.pc 1, c₀.lock.queue .read, decide (LastRelease .fair c₀ r.1 r.2))) =
      some (.waiting .read 1 false false, [1], true) := by
    decide
  obtain ⟨c₀, h₀, hrun⟩ := Option.bind_eq_some_iff.1 hrun
  obtain ⟨⟨o, c₁⟩, h₁, hval⟩ := Option.map_eq_some_iff.1 hrun
  simp only [Prod.mk.injEq] at hval
  obtain ⟨hpc, hq, hlast⟩ := hval
  exact ⟨c₀, c₁, ⟨_, _, hpc⟩, fair_release_drains rfl ⟨_, _, rfl, run_of_replay h₀⟩ h₁
    (by simp [Action.caller]) (of_decide_eq_true hlast) |>.2 (.inr (.inl (by rw [hq]; simp)))⟩

/-- Reader `4` comes too late for the phase of `1` and `2`, and the entry of `1` signals
it all the same.  It has not run when the phase is over and writer `3` has come and
gone, so the release of `3` finds nobody in the queue and wakes writer `5`, which
acquires before `4`. -/
theorem fair_release_not_drained : ∃ c₀ c₁ : System ℕ, Reachable .thread .fair c₀ ∧
    c₀.step .thread .fair (.release (some 3) .write) = some (.released, c₁) ∧
    LastRelease .fair c₀ .released c₁ ∧ c₀.lock.read.thoseWaiting = 1 ∧
    ¬ DrainsFirst .thread .fair c₀ c₁ := by
  have hrun : ((Transition.replay (next InTask .thread .fair) ({} : System ℕ)
      [.acquire 0 .write .forever false, .clear 0, .acquire 1 .read .forever false,
        .acquire 2 .read .forever false, .acquire 3 .write .forever false,
        .release (some 0) .write, .acquire 4 .read .forever false, .resume 1 false,
        .resume 2 false, .release (some 1) .read, .release (some 2) .read, .resume 3 false,
        .clear 3, .acquire 5 .write .forever false]).bind fun c₀ =>
        (c₀.step .thread .fair (.release (some 3) .write)).bind fun r =>
          (r.2.step .thread .fair (.resume 5 false)).map fun r' =>
            (c₀.lock.read.thoseWaiting, c₀.pc 4, r.1, r.2.pc 4,
              decide (LastRelease .fair c₀ r.1 r.2), r'.1)) =
      some (1, .waiting .read 3 false false, .released, .waiting .read 3 false false, true,
        .acquired .write) := by
    decide
  obtain ⟨c₀, h₀, hrun⟩ := Option.bind_eq_some_iff.1 hrun
  obtain ⟨⟨o, c₁⟩, h₁, hrun⟩ := Option.bind_eq_some_iff.1 hrun
  obtain ⟨⟨o', c₂⟩, h₂, hval⟩ := Option.map_eq_some_iff.1 hrun
  simp only [Prod.mk.injEq] at hval
  obtain ⟨hw, hpc₀, rfl, hpc₁, hlast, rfl⟩ := hval
  refine ⟨c₀, c₁, ⟨_, _, rfl, run_of_replay h₀⟩, h₁, of_decide_eq_true hlast, hw, fun h => ?_⟩
  exact h [] c₁ _ c₂ (.nil c₁) (by simp [InTask, Action.caller]) h₂ 4 3 ⟨_, _, hpc₀⟩ ⟨_, _, hpc₁⟩

end System

end Rwlocker

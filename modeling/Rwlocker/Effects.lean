/-
# What a step does

`Effect` lists what a step of a thread or task can do to the owner, the marker, the
holds and the place of its caller (`step_effect`).  `Attempt` is the part for a call
of `acquire`, or for what a parked caller goes on with, and `GaveBack` the part for a
release.  The others are left alone (`step_untouched`).

Where `Move` follows the waiters, `Effect` follows who owns what.
-/

import Rwlocker.Ledger

namespace Rwlocker

open ReadersWriter (Holds)

variable {τ : Type} [DecidableEq τ]

/-- `s'` has the owner, the marker and the readers of `s`. -/
structure Stays (cls : LockClass) (s s' : RWLock τ) : Prop where
  owner : cls.owner s' = cls.owner s
  downgraded : s'.downgraded = s.downgraded
  readerOwners : s'.readerOwners = s.readerOwners

namespace Stays

variable {cls : LockClass} {s s' s'' : RWLock τ}

omit [DecidableEq τ] in
/-- Nothing happens. -/
theorem refl (cls : LockClass) (s : RWLock τ) : Stays cls s s := ⟨rfl, rfl, rfl⟩

omit [DecidableEq τ] in
/-- Owner, marker and counts stay, and stay again. -/
theorem trans (h : Stays cls s s') (h' : Stays cls s' s'') : Stays cls s s'' :=
  ⟨h'.owner.trans h.owner, h'.downgraded.trans h.downgraded,
    h'.readerOwners.trans h.readerOwners⟩

omit [DecidableEq τ] in
/-- The proxies hold none of them. -/
theorem onProxy (cls : LockClass) (s : RWLock τ) (m : Mode) (f : Proxy τ → Proxy τ) :
    Stays cls s (s.onProxy m f) :=
  ⟨rfl, rfl, rfl⟩

omit [DecidableEq τ] in
/-- Signals touch none of them. -/
theorem signals (cls : LockClass) (h : RWLock.Signals s s') : Stays cls s s' :=
  ⟨h.owner cls, h.downgraded, h.readerOwners⟩

end Stays

/-- The hook of a call that gives up is signals. -/
theorem LockClass.signals_onAbort (cls : LockClass) (m : Mode) (s : RWLock τ)
    (waiterSeq : Option ℕ) : RWLock.Signals s (cls.onAbort m s waiterSeq) := by
  cases m with
  | read => exact cls.signals_onReaderAbort s waiterSeq
  | write => exact cls.signals_onWriterAbort s waiterSeq

/-- How an attempt of `t` to acquire comes out. -/
inductive Attempt (rt : Runtime) (cls : LockClass) (c : System τ) (t : τ) (c' : System τ) :
    Mode → Outcome → Prop
  | fails {m : Mode} {p : Pc} {o : Outcome} (hs : Stays cls c.lock c'.lock)
      (hpc : c'.pc = Function.update c.pc t p) (hh : c'.holds = c.holds)
      (hp : p = .idle ∨ ∃ seq timed, p = .waiting m seq timed false)
      (ho : ∀ m', o ≠ .acquired m') (hc : o ≠ .cleared) : Attempt rt cls c t c' m o
  | reads (hs : Stays cls (c.lock.enterReader (some t)) c'.lock)
      (hpc : c'.pc = Function.update c.pc t .idle) (hh : c'.holds = c.holds.addRead (some t)) :
      Attempt rt cls c t c' .read (.acquired .read)
  | writes (ho : cls.owner c'.lock = some t)
      (hr : c'.lock.readerOwners = c.lock.readerOwners)
      (hm : c'.lock.downgraded = if rt = .thread then c.lock.downgraded else none)
      (hpc : c'.pc = Function.update c.pc t (if rt = .thread then .clearing else .idle))
      (hh : c'.holds = c.holds.addWrite (some t)) :
      Attempt rt cls c t c' .write (.acquired .write)

/-- A caller that another's step does not touch. -/
structure Untouched (u : τ) (c c' : System τ) : Prop where
  pc : c'.pc u = c.pc u
  count : c'.lock.readerOwners.count (some u) = c.lock.readerOwners.count (some u)
  reads : c'.holds.reads (some u) = c.holds.reads (some u)
  writes : c'.holds.writes (some u) = c.holds.writes (some u)

namespace System

variable {rt : Runtime} {cls : LockClass} {c c' c₁ : System τ} {t u : τ} {m : Mode}
  {o : Outcome} {a : Action τ}

/-- A step that changes nothing touches nobody. -/
theorem untouched_refl (u : τ) (c : System τ) : Untouched u c c := ⟨rfl, rfl, rfl, rfl⟩

/-! ### Attempts -/

/-- A call that ends without changing anything. -/
theorem attempt_idle (hpc : c.pc t = .idle) (ho : ∀ m', o ≠ .acquired m') (hc : o ≠ .cleared) :
    Attempt rt cls c t c m o :=
  .fails (.refl cls _) (by rw [← hpc, Function.update_eq_self]) rfl (.inl rfl) ho hc

/-- A granted call is an attempt. -/
theorem succeed_attempt (waiting : Bool) (waiterSeq : Option ℕ) {p : Pc} {s : RWLock τ}
    (hs : Stays cls c.lock c₁.lock) (hpc : c₁.pc = Function.update c.pc t p)
    (hh : c₁.holds = c.holds)
    (hs' : Stays cls (cls.acquireCore m c₁.lock (some t) waiting waiterSeq) s) :
    Attempt rt cls c t (c₁.succeed rt t s m).2 m (c₁.succeed rt t s m).1 := by
  cases m with
  | read =>
      rw [LockClass.acquireCore, LockClass.acquireReadCore_eq] at hs'
      have hs' := (Stays.signals cls (cls.signals_onReaderEnter _ _ _)).trans hs'
      refine .reads ⟨hs'.owner.trans hs.owner, hs'.downgraded.trans hs.downgraded, ?_⟩ ?_ ?_
      · refine hs'.readerOwners.trans ?_
        show c₁.lock.readerOwners.insert _ _ = _
        rw [hs.readerOwners]
        rfl
      · simp only [succeed, put_pc, hpc, Function.update_idem]
      · simp only [succeed, grant, hh]
  | write =>
      rw [LockClass.acquireCore, LockClass.acquireWriteCore_eq] at hs'
      obtain ⟨active, owner, id, count, hframe⟩ := c₁.lock.ownWriter_frame cls (some t)
      have ho : cls.owner s = some t := hs'.owner.trans (LockClass.owner_ownWriter ..)
      have hr : s.readerOwners = c.lock.readerOwners := by
        rw [hs'.readerOwners, hframe]
        exact hs.readerOwners
      have hm : s.downgraded = c.lock.downgraded := by
        rw [hs'.downgraded, hframe]
        exact hs.downgraded
      cases rt with
      | thread => exact .writes ho hr hm (by simp [succeed, hpc]) (by simp [succeed, grant, hh])
      | async => exact .writes ho hr rfl (by simp [succeed, hpc]) (by simp [succeed, grant, hh])

/-- The wait loop, of a caller that has registered or ended a wait. -/
theorem acquireLoop_attempt {p : Pc} (hs : Stays cls c.lock c₁.lock)
    (hpc : c₁.pc = Function.update c.pc t p) (hh : c₁.holds = c.holds) (seq : ℕ)
    (timed expired : Bool) :
    Attempt rt cls c t (c₁.acquireLoop rt cls t m seq timed expired).2 m
      (c₁.acquireLoop rt cls t m seq timed expired).1 := by
  unfold acquireLoop
  split_ifs
  · exact succeed_attempt true (some seq) hs hpc hh (.onProxy cls _ m _)
  · exact .fails (hs.trans ((Stays.onProxy cls _ m _).trans
      (.signals cls (cls.signals_onAbort m _ _)))) (by simp [abort, hpc]) hh (.inl rfl)
      (by simp) (by simp)
  · exact .fails (p := .waiting m seq timed false) (hs.trans ⟨rfl, rfl, rfl⟩) (by simp [hpc]) hh
      (.inr ⟨_, _, rfl⟩) (by simp) (by simp)

/-- A call of `acquire` is an attempt. -/
theorem acquire_attempt (rt : Runtime) (cls : LockClass) (hpc : c.pc t = .idle) (p : Patience)
    (expired : Bool) :
    Attempt rt cls c t (c.acquire rt cls t m p expired).2 m
      (c.acquire rt cls t m p expired).1 := by
  unfold acquire
  cases cls.beforeAcquire m c.lock (some t) with
  | error e => exact attempt_idle hpc (by simp) (by simp)
  | ok u =>
      dsimp only
      split_ifs
      · exact succeed_attempt (p := .idle) false none (.refl cls _)
          (by rw [← hpc, Function.update_eq_self]) rfl (.refl cls _)
      · exact attempt_idle hpc (by simp) (by simp)
      · have hs : Stays cls c.lock (c.register t m (p = .timed)).lock := ⟨rfl, rfl, rfl⟩
        exact acquireLoop_attempt hs rfl rfl _ _ _

/-- A parked call that goes on is an attempt. -/
theorem resume_attempt (rt : Runtime) (cls : LockClass) {seq : ℕ} {timed i : Bool}
    (hpc : c.pc t = .waiting m seq timed i) (expired : Bool) :
    Attempt rt cls c t (c.resume rt cls t m seq timed i expired).2 m
      (c.resume rt cls t m seq timed i expired).1 := by
  have hs : Stays cls c.lock (c.endWait t m i).lock := ⟨rfl, rfl, rfl⟩
  unfold resume
  dsimp only
  split_ifs
  · exact .fails (hs.trans ((Stays.onProxy cls _ m _).trans
      (.signals cls (cls.signals_onAbort m _ _)))) rfl rfl (.inl rfl) (by simp)
      (by simp)
  · refine acquireLoop_attempt (p := .waiting m seq timed i) hs ?_ rfl _ _ _
    rw [← hpc, Function.update_eq_self]
    rfl

end System

/-- An attempt touches nobody but its caller. -/
theorem Attempt.untouched {rt : Runtime} {cls : LockClass} {c c' : System τ} {t u : τ} {m : Mode}
    {o : Outcome} (h : Attempt rt cls c t c' m o) (hu : u ≠ t) : Untouched u c c' := by
  cases h with
  | fails hs hpc hh =>
      exact ⟨by rw [hpc, Function.update_of_ne hu], by rw [hs.readerOwners], by rw [hh],
        by rw [hh]⟩
  | reads hs hpc hh =>
      refine ⟨by rw [hpc, Function.update_of_ne hu], ?_, ?_, ?_⟩
      · rw [hs.readerOwners, RWLock.count_enterReader, if_neg (by simpa using hu)]
      · simp [hh, hu]
      · simp [hh]
  | writes ho hr hm hpc hh =>
      exact ⟨by rw [hpc, Function.update_of_ne hu], by rw [hr], by simp [hh], by simp [hh, hu]⟩

/-- What a release by `t` through the proxy `m` can change. -/
structure GaveBack (cls : LockClass) (t : τ) (m : Mode) (c c' : System τ) : Prop where
  others : ∀ u, u ≠ t → Untouched u c c'
  pc : c'.pc = c.pc
  owner : cls.owner c'.lock = cls.owner c.lock ∨ cls.owner c'.lock = none
  downgraded : c'.lock.downgraded = c.lock.downgraded ∨
    m = .write ∧ c.lock.downgraded = some t ∧ c'.lock.downgraded = none
  holds : c'.holds = c.holds ∨ c'.holds = System.giveBack c.holds (some t) m

/-- What a step by `t` can do. -/
inductive Effect (rt : Runtime) (cls : LockClass) (c : System τ) (t : τ) :
    Action τ → Outcome → System τ → Prop
  | acquire {m : Mode} {p : Patience} {expired : Bool} {o : Outcome} {c' : System τ}
      (hpc : c.pc t ≠ .clearing) (hatt : Attempt rt cls c t c' m o) :
      Effect rt cls c t (.acquire t m p expired) o c'
  | resume {m : Mode} {expired : Bool} {o : Outcome} {c' : System τ} (hpc : c.pc t ≠ .clearing)
      (hatt : Attempt rt cls c t c' m o) : Effect rt cls c t (.resume t expired) o c'
  | interrupt {m : Mode} {seq : ℕ} {timed : Bool} {c' : System τ}
      (hwait : c.pc t = .waiting m seq timed false)
      (hpc : c'.pc = Function.update c.pc t (.waiting m seq timed true))
      (hs : Stays cls c.lock c'.lock) (hh : c'.holds = c.holds) :
      Effect rt cls c t (.interrupt t) .interrupted c'
  | clear (hpc : c.pc t = .clearing) :
      Effect rt cls c t (.clear t) .cleared (c.put { c.lock with downgraded := none } t .idle)
  | release {m : Mode} {o : Outcome} {c' : System τ} (ho : o = .released ∨ ∃ e, o = .raised e)
      (hgb : GaveBack cls t m c c') : Effect rt cls c t (.release (some t) m) o c'
  /-- The only write hold of `t` turns into a read hold. -/
  | downgrade {c' : System τ} (hpc : c.pc t = .idle)
      (hown : cls.owner c.lock = some t ∧ cls.depth c.lock = 1) (hpc' : c'.pc = c.pc)
      (hown' : cls.owner c'.lock = none) (hm : c'.lock.downgraded = some t)
      (hun : ∀ u, u ≠ t → Untouched u c c') :
      Effect rt cls c t (.downgrade (some t)) .downgraded c'
  | downgradeRaised {e : RuntimeError} :
      Effect rt cls c t (.downgrade (some t)) (.raised e) c

namespace System

variable {rt : Runtime} {cls : LockClass} {c c' : System τ} {t u : τ} {m : Mode} {o : Outcome}
  {a : Action τ}

/-- A release takes nothing from anybody else. -/
theorem reads_giveBack_of_ne (h : Holds (Option τ)) {k j : Option τ} (hj : j ≠ k) (m : Mode) :
    (giveBack h k m).reads j = h.reads j ∧ (giveBack h k m).writes j = h.writes j := by
  cases m with
  | read => simp [giveBack, hj]
  | write =>
      unfold giveBack
      split_ifs <;> simp [hj]

/-- A release changes the holds of its caller only. -/
theorem gaveBack_of_lock {s : RWLock τ}
    (hcount : ∀ u, u ≠ t → s.readerOwners.count (some u) = c.lock.readerOwners.count (some u))
    (ho : cls.owner s = cls.owner c.lock ∨ cls.owner s = none)
    (hm : s.downgraded = c.lock.downgraded ∨
      m = .write ∧ c.lock.downgraded = some t ∧ s.downgraded = none)
    {h : Holds (Option τ)} (hh : h = c.holds ∨ h = giveBack c.holds (some t) m) :
    GaveBack cls t m c { c with lock := s, holds := h } where
  others u hu := by
    have hne : some u ≠ some t := by simpa using hu
    refine ⟨rfl, hcount u hu, ?_, ?_⟩ <;> rcases hh with rfl | rfl
    · rfl
    · exact (reads_giveBack_of_ne _ hne m).1
    · rfl
    · exact (reads_giveBack_of_ne _ hne m).2
  pc := rfl
  owner := ho
  downgraded := hm
  holds := hh

/-- Every release gives back as `GaveBack` says. -/
theorem release_gaveBack (hb : Books cls c.lock) (t : τ) (m : Mode) :
    GaveBack cls t m c (c.release cls (some t) m).2 := by
  have hdrop : ∀ (s : RWLock τ) u, u ≠ t → (cls.onReaderLeave (s.dropReader (some t))
      ).readerOwners.count (some u) = s.readerOwners.count (some u) := by
    intro s u hu
    rw [(cls.signals_onReaderLeave _).readerOwners, RWLock.count_dropReader,
      if_neg (by simpa using hu)]
  have hwrite : ∀ s : RWLock τ, Books cls s → s.readerOwners = c.lock.readerOwners →
      cls.owner s = cls.owner c.lock → ∀ s', cls.releaseWriteCore s (some t) = .ok s' →
      (∀ u, u ≠ t → s'.readerOwners.count (some u) = c.lock.readerOwners.count (some u)) ∧
        (cls.owner s' = cls.owner c.lock ∨ cls.owner s' = none) ∧
        s'.downgraded = s.downgraded := by
    intro s hb hr ho s' hs'
    rw [LockClass.releaseWriteCore_spec hb (by simp)] at hs'
    split_ifs at hs' with he hd
    · cases hs'
      exact ⟨fun u _ => by rw [← hr], .inl ho, rfl⟩
    · cases hs'
      have hsig := cls.signals_onWriterAbort s.freeWriter none
      refine ⟨fun u _ => ?_, .inr ((hsig.owner cls).trans (by simp)), hsig.downgraded⟩
      rw [hsig.readerOwners, ← hr]
      rfl
  unfold release
  cases m with
  | read =>
      simp only [LockClass.release, LockClass.releaseReadCore_spec]
      split_ifs with hk
      · exact gaveBack_of_lock (fun _ _ => rfl) (.inl rfl) (.inl rfl) (.inl rfl)
      · have hsig := cls.signals_onReaderLeave (c.lock.dropReader (some t))
        exact gaveBack_of_lock (hdrop _) (.inl (hsig.owner cls)) (.inl hsig.downgraded) (.inr rfl)
  | write =>
      simp only [LockClass.release]
      by_cases hm : c.lock.downgraded = some t
      · simp only [if_pos hm, LockClass.releaseReadCore_spec]
        by_cases hk : c.lock.readerOwners.count (some t) = 0
        · rw [if_pos hk]
          have hmark := hwrite { c.lock with downgraded := none } (hb.marker none) rfl rfl
          cases hrel : cls.releaseWriteCore { c.lock with downgraded := none } (some t) with
          | error e =>
              exact gaveBack_of_lock (s := { c.lock with downgraded := none }) (fun _ _ => rfl)
                (.inl rfl) (.inr ⟨rfl, hm, rfl⟩) (.inl rfl)
          | ok s =>
              obtain ⟨hcount, ho, hd⟩ := hmark s hrel
              exact gaveBack_of_lock hcount ho (.inr ⟨rfl, hm, hd⟩) (.inr rfl)
        · rw [if_neg hk]
          let s : RWLock τ := { c.lock with downgraded := none }
          have hsig := cls.signals_onReaderLeave (s.dropReader (some t))
          exact gaveBack_of_lock (s := cls.onReaderLeave (s.dropReader (some t))) (hdrop s)
            (.inl (hsig.owner cls)) (.inr ⟨rfl, hm, hsig.downgraded⟩) (.inr rfl)
      · simp only [if_neg hm]
        cases hrel : cls.releaseWriteCore c.lock (some t) with
        | error e => exact gaveBack_of_lock (fun _ _ => rfl) (.inl rfl) (.inl rfl) (.inl rfl)
        | ok s =>
            obtain ⟨hcount, ho, hd⟩ := hwrite c.lock hb rfl rfl s hrel
            exact gaveBack_of_lock hcount ho (.inl hd) (.inr rfl)

/-- What a downgrade does, as an effect. -/
theorem downgrade_effect (rt : Runtime) (hb : Books cls c.lock) (hpc : c.pc t = .idle) :
    Effect rt cls c t (.downgrade (some t)) (c.downgrade cls (some t)).1
      (c.downgrade cls (some t)).2 := by
  simp only [downgrade, LockClass.downgrade,
    LockClass.downgradeCore_spec hb (show some t ≠ none by simp)]
  by_cases ho : cls.owner c.lock = some t ∧ cls.depth c.lock = 1
  · have hsig := cls.signals_onDowngrade (c.lock.freeWriter.enterReader (some t))
    rw [if_pos ho]
    refine .downgrade hpc ho rfl ((hsig.owner cls).trans (by simp)) rfl fun u hu => ?_
    have hne : some u ≠ some t := by simpa using hu
    refine ⟨rfl, ?_, ?_, ?_⟩
    · show (cls.onDowngrade _).readerOwners.count (some u) = _
      rw [hsig.readerOwners, RWLock.count_enterReader, if_neg hne]
      rfl
    · simp only [convert]
      split_ifs <;> simp [hu]
    · simp only [convert]
      split_ifs <;> simp [hu]
  · rw [if_neg ho]
    exact .downgradeRaised

/-! ### Steps -/

/-- The wait loop ends in an acquisition, a refusal or a park. -/
theorem acquireLoop_outcome (rt : Runtime) (cls : LockClass) (c : System τ) (t : τ) (m : Mode)
    (seq : ℕ) (timed expired : Bool) :
    (c.acquireLoop rt cls t m seq timed expired).1 ∈ [.acquired m, .refused, Outcome.parked] := by
  unfold acquireLoop
  split_ifs
  · cases m <;> simp [succeed]
  · simp
  · simp

/-- A step that calls `acquire` is an attempt; it raises only for a reader that asks
for the write lock. -/
theorem step_acquire {p : Patience} {expired : Bool}
    (hst : c.step rt cls (.acquire t m p expired) = some (o, c')) :
    c.pc t = .idle ∧ Attempt rt cls c t c' m o ∧
      ∀ e, o = .raised e → m = .write ∧ 0 < c.lock.readerOwners.count (some t) := by
  simp only [step] at hst
  split_ifs at hst with hg
  have hst := Option.some.inj hst
  have hatt := acquire_attempt rt cls (m := m) hg.1 p expired
  rw [hst] at hatt
  refine ⟨hg.1, hatt, ?_⟩
  rintro e rfl
  unfold acquire at hst
  cases hb : cls.beforeAcquire m c.lock (some t) with
  | error e' =>
      cases m with
      | read => cases hb
      | write =>
          simp only [LockClass.beforeAcquire, LockClass.checkWriteAcquireAllowed] at hb
          split_ifs at hb with hr
          simp only [RWLock.isCurrentReader, Bool.and_eq_true, decide_eq_true_eq] at hr
          exact ⟨rfl, hr.1.2⟩
  | ok u =>
      rw [hb] at hst
      dsimp only at hst
      split_ifs at hst
      · cases m <;> cases (Prod.mk.inj hst).1
      · cases (Prod.mk.inj hst).1
      · have := acquireLoop_outcome rt cls (c.register t m (p = .timed)) t m
          ((c.lock.proxy m).waiterSeq + 1) (p = .timed) expired
        rw [hst] at this
        simp at this

/-- A step that goes on in `acquire` is an attempt.  A task raises `CancelledError`
exactly if it was cancelled. -/
theorem step_resume {expired : Bool} (hst : c.step rt cls (.resume t expired) = some (o, c')) :
    ∃ m seq timed i, c.pc t = .waiting m seq timed i ∧ Attempt rt cls c t c' m o ∧
      (rt = .async → (o = .cancelled ↔ i = true)) := by
  simp only [step] at hst
  split at hst
  · rename_i m seq timed i hpc
    split_ifs at hst
    have hst := Option.some.inj hst
    have hatt := resume_attempt rt cls hpc expired
    rw [hst] at hatt
    refine ⟨m, seq, timed, i, hpc, hatt, ?_⟩
    rintro rfl
    unfold resume at hst
    dsimp only at hst
    split_ifs at hst with hi
    · exact ⟨fun _ => hi.2, fun _ => ((Prod.mk.inj hst).1).symm⟩
    · have := acquireLoop_outcome .async cls (c.endWait t m i) t m seq timed expired
      rw [hst] at this
      refine ⟨?_, fun h => absurd ⟨rfl, h⟩ hi⟩
      rintro rfl
      simp at this
  · cases hst

/-- A step that interrupts a parked caller changes nothing but its place. -/
theorem step_interrupt (hst : c.step rt cls (.interrupt t) = some (o, c')) :
    ∃ m seq timed, c.pc t = .waiting m seq timed false ∧
      c'.pc = Function.update c.pc t (.waiting m seq timed true) ∧ Stays cls c.lock c'.lock ∧
      c'.holds = c.holds ∧ o = .interrupted := by
  simp only [step] at hst
  split at hst
  · rename_i m seq hpc
    split_ifs at hst
    cases hst
    exact ⟨m, seq, true, hpc, rfl, .refl cls _, rfl, rfl⟩
  · rename_i m seq timed hpc
    cases hst
    exact ⟨m, seq, timed, hpc, rfl, ⟨rfl, rfl, rfl⟩, rfl, rfl⟩
  · cases hst

/-- **What a step can do.** -/
theorem step_effect (hb : Books cls c.lock) (hst : c.step rt cls a = some (o, c'))
    (ha : a.caller = some t) : Effect rt cls c t a o c' := by
  cases a with
  | acquire u m p expired =>
      obtain rfl : u = t := Option.some.inj ha
      obtain ⟨hpc, hatt, -⟩ := step_acquire hst
      exact .acquire (by simp [hpc]) hatt
  | resume u expired =>
      obtain rfl : u = t := Option.some.inj ha
      obtain ⟨m, seq, timed, i, hpc, hatt, -⟩ := step_resume hst
      exact .resume (by simp [hpc]) hatt
  | interrupt u =>
      obtain rfl : u = t := Option.some.inj ha
      obtain ⟨m, seq, timed, hwait, hpc, hs, hh, rfl⟩ := step_interrupt hst
      exact .interrupt hwait hpc hs hh
  | clear u =>
      obtain rfl : u = t := Option.some.inj ha
      simp only [step] at hst
      split_ifs at hst with hpc
      cases hst
      exact .clear hpc
  | release k m =>
      obtain rfl : k = some t := ha
      simp only [step] at hst
      split_ifs at hst
      have hgb := release_gaveBack hb t m
      rw [Option.some.inj hst] at hgb
      refine .release ?_ hgb
      have hst := Option.some.inj hst
      unfold release at hst
      split at hst
      · exact .inl (Prod.mk.inj hst).1.symm
      · exact .inr ⟨_, (Prod.mk.inj hst).1.symm⟩
  | downgrade k =>
      obtain rfl : k = some t := ha
      simp only [step] at hst
      split_ifs at hst with hcall
      have heff := downgrade_effect rt hb (show c.pc t = .idle by simpa [canCall] using hcall)
      rwa [Option.some.inj hst] at heff

/-- **A step touches nobody but its caller.** -/
theorem step_untouched (hb : Books cls c.lock) (hst : c.step rt cls a = some (o, c'))
    (ha : a.caller ≠ none) (hu : a.caller ≠ some u) : Untouched u c c' := by
  obtain ⟨t, ht⟩ := Option.ne_none_iff_exists'.1 ha
  have hut : u ≠ t := by
    rintro rfl
    exact hu ht
  cases step_effect hb hst ht with
  | acquire _ hatt | resume _ hatt => exact hatt.untouched hut
  | interrupt _ hpc hs hh =>
      exact ⟨by rw [hpc, Function.update_of_ne hut], by rw [hs.readerOwners], by rw [hh],
        by rw [hh]⟩
  | clear => exact ⟨Function.update_of_ne hut _ _, rfl, rfl, rfl⟩
  | release _ hgb => exact hgb.others u hut
  | downgrade _ _ _ _ _ hun => exact hun u hut
  | downgradeRaised => exact untouched_refl u c

/-! ### Releases that succeed -/

/-- `_release_read_core` does not look at the marker. -/
theorem onReaderLeave_marker (cls : LockClass) (s : RWLock τ) (k : Option τ) :
    cls.onReaderLeave { s with downgraded := k } =
      { cls.onReaderLeave s with downgraded := k } := by
  unfold LockClass.onReaderLeave
  cases cls.policy with
  | write | read =>
      dsimp only [RWLockWriteMixin.notifyWriterIfFree]
      split_ifs <;> rfl
  | readerPhaseFair =>
      dsimp only [RWLockReaderPhaseFairMixin.finishOrContinueReaderPhase,
        RWLockReaderPhaseFairMixin.wakeWaitingReader]
      split_ifs <;> rfl
  | fair =>
      dsimp only [RWLockFairMixin.finishOrContinueReaderPhase, RWLockFairMixin.wakeWaitingReader]
      split_ifs <;> rfl

/-- A read release by a caller that reads. -/
theorem step_release_read (hpc : c.pc t = .idle)
    (hr : 0 < c.lock.readerOwners.count (some t)) :
    c.step rt cls (.release (some t) .read) = some (.released, { c with
      lock := cls.onReaderLeave (c.lock.dropReader (some t))
      holds := c.holds.dropRead (some t) }) := by
  have hne : c.lock.readerOwners.count (some t) ≠ 0 := by omega
  simp [step, canCall, hpc, release, LockClass.release, LockClass.releaseReadCore_spec, hne,
    LockClass.orUnchanged, giveBack]

/-- A write release by a caller that the marker names and that reads. -/
theorem step_release_routed (rt : Runtime) (cls : LockClass) (hpc : c.pc t = .idle)
    (hm : c.lock.downgraded = some t) (hr : 0 < c.lock.readerOwners.count (some t)) :
    c.step rt cls (.release (some t) .write) = some (.released, { c with
      lock := { cls.onReaderLeave (c.lock.dropReader (some t)) with downgraded := none }
      holds := giveBack c.holds (some t) .write }) := by
  have hne : c.lock.readerOwners.count (some t) ≠ 0 := by omega
  rw [← onReaderLeave_marker]
  simp [step, canCall, hpc, release, LockClass.release, LockClass.releaseReadCore_spec, hne, hm]
  rfl

/-- The last write release of an owner that does not read, whatever the marker says. -/
theorem step_release_write (rt : Runtime) (hb : Books cls c.lock) (hpc : c.pc t = .idle)
    (ho : cls.owner c.lock = some t) (hd : cls.depth c.lock = 1)
    (hz : c.lock.readerOwners.count (some t) = 0) :
    ∃ s, c.step rt cls (.release (some t) .write) = some (.released,
        { c with lock := s, holds := giveBack c.holds (some t) .write }) ∧
      s.readerOwners = c.lock.readerOwners := by
  have hrel : ∀ s : RWLock τ, Books cls s → cls.owner s = some t → cls.depth s = 1 →
      cls.releaseWriteCore s (some t) = .ok (cls.onWriterAbort s.freeWriter none) := by
    intro s hb ho hd
    rw [LockClass.releaseWriteCore_spec hb (by simp), if_neg (by simp [ho]), if_neg (by omega)]
  by_cases hm : c.lock.downgraded = some t
  · let s : RWLock τ := { c.lock with downgraded := none }
    have hok := hrel s (hb.marker none) ho hd
    refine ⟨cls.onWriterAbort s.freeWriter none, ?_,
      (cls.signals_onWriterAbort s.freeWriter none).readerOwners⟩
    simp only [s] at hok
    simp [step, canCall, hpc, release, LockClass.release, hm, LockClass.releaseReadCore_spec, hz,
      hok, LockClass.orUnchanged, s]
  · have hok := hrel c.lock hb ho hd
    refine ⟨cls.onWriterAbort c.lock.freeWriter none, ?_,
      (cls.signals_onWriterAbort c.lock.freeWriter none).readerOwners⟩
    simp [step, canCall, hpc, release, LockClass.release, hm, hok, LockClass.orUnchanged]

/-- A write release by a caller that the marker does not name leaves the readers. -/
theorem step_release_unmarked (hb : Books cls c.lock) (hm : c.lock.downgraded ≠ some t)
    (hst : c.step rt cls (.release (some t) .write) = some (o, c')) :
    c'.lock.readerOwners = c.lock.readerOwners := by
  simp only [step, release, LockClass.release, if_neg hm,
    LockClass.releaseWriteCore_spec hb (show some t ≠ none by simp)] at hst
  split_ifs at hst
  · cases hst
    rfl
  · cases hst
    rfl
  · cases hst
    exact (cls.signals_onWriterAbort c.lock.freeWriter none).readerOwners

end System

end Rwlocker

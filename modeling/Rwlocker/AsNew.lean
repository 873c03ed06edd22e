/-
# A lock that behaves as new

Two locks that differ only in what is left of earlier runs.  The used one has given out
more sequence numbers (`K` of them on each side), its cutoff is that of an earlier phase
until a new phase begins, and its downgrade marker may still name somebody.

`Older` says so of two states, and every operation keeps it: sequence numbers are only
compared with the cutoff, and the cutoff is only read while the readers have the turn.
The marker is read by `write.release()` alone.  It never names a caller that holds the
write lock (`Ledger.marker`), so whoever gives back its own hold (`ReturnsOwn`) meets
the same marker on both locks, or one that names neither (`SideBySide`).  Where the used
lock has no such leftover, the caller of a release need not hold anything (`Alike`).
-/

import Rwlocker.Effects

namespace Rwlocker

open Transition (Run restrict rel_guard exists_of_rel map_eq_of_rel)

variable {τ : Type}

/-! ### Used locks -/

/-- The proxy after `n` calls of earlier runs. -/
def Proxy.aged (n : ℕ) (p : Proxy τ) : Proxy τ := { p with waiterSeq := n + p.waiterSeq }

/-- The lock with an older past. -/
def RWLock.aged (K : Mode → ℕ) (cut : ℕ) (mark : Option τ) (s : RWLock τ) : RWLock τ :=
  { s with
    readerPhaseCutoff := cut
    proxy := fun m => (s.proxy m).aged (K m)
    downgraded := mark }

/-- The same call, on the used lock. -/
def Pc.aged (K : Mode → ℕ) : Pc → Pc
  | .idle => .idle
  | .waiting m seq timed interrupted => .waiting m (K m + seq) timed interrupted
  | .clearing => .clearing

/-- `s'` is `s` with an older past and the marker `mark`.  The cutoffs agree while they
are in use. -/
def Older (cls : LockClass) (K : Mode → ℕ) (mark : Option τ) (s s' : RWLock τ) : Prop :=
  ∃ cut, s' = s.aged K cut mark ∧
    (cls.policy = .fair → s.readersTurn = true → cut = K .read + s.readerPhaseCutoff)

variable {cls : LockClass} {K : Mode → ℕ} {mark : Option τ} {s s' r r' : RWLock τ}

/-- A change of a proxy that does not look at its past goes the same way on both locks. -/
theorem RWLock.aged_onProxy {cut : ℕ} {m : Mode} {f : Proxy τ → Proxy τ}
    (hf : f ((s.proxy m).aged (K m)) = (f (s.proxy m)).aged (K m)) :
    (s.aged K cut mark).onProxy m f = (s.onProxy m f).aged K cut mark := by
  have hproxy : Function.update (fun m => (s.proxy m).aged (K m)) m
      (f ((s.proxy m).aged (K m))) =
        fun m' => (Function.update s.proxy m (f (s.proxy m)) m').aged (K m') := by
    funext m'
    by_cases h : m' = m
    · subst h
      rw [Function.update_self, Function.update_self, hf]
    · rw [Function.update_of_ne h, Function.update_of_ne h]
  simp only [RWLock.onProxy, RWLock.aged, hproxy]

namespace Older

/-! ### What the two locks share -/

/-- The used lock has the marker it is said to have. -/
theorem downgraded (h : Older cls K mark s s') : s'.downgraded = mark := by
  obtain ⟨cut, rfl, -⟩ := h
  rfl

/-- The same callers read. -/
theorem readerOwners (h : Older cls K mark s s') : s'.readerOwners = s.readerOwners := by
  obtain ⟨cut, rfl, -⟩ := h
  rfl

/-- The same caller writes. -/
theorem owner (h : Older cls K mark s s') : cls.owner s' = cls.owner s := by
  obtain ⟨cut, rfl, -⟩ := h
  rfl

/-- The writer has acquired as often. -/
theorem depth (h : Older cls K mark s s') : cls.depth s' = cls.depth s := by
  obtain ⟨cut, rfl, -⟩ := h
  rfl

/-- The same callers are queued. -/
theorem condition (h : Older cls K mark s s') (m : Mode) :
    (s'.proxy m).condition = (s.proxy m).condition := by
  obtain ⟨cut, rfl, -⟩ := h
  rfl

/-- The used lock is `K` numbers ahead. -/
theorem waiterSeq (h : Older cls K mark s s') (m : Mode) :
    (s'.proxy m).waiterSeq = K m + (s.proxy m).waiterSeq := by
  obtain ⟨cut, rfl, -⟩ := h
  rfl

/-- A slot is reserved for the same calls. -/
theorem isReservedReader (h : Older cls K mark s s') (hp : cls.policy = .fair) (waiting : Bool)
    (waiterSeq : Option ℕ) :
    RWLockFairMixin.isReservedReader s' waiting (waiterSeq.map (K .read + ·)) =
      RWLockFairMixin.isReservedReader s waiting waiterSeq := by
  obtain ⟨cut, rfl, hcut⟩ := h
  cases waiterSeq with
  | none => rfl
  | some seq =>
      cases hturn : s.readersTurn with
      | false => simp [RWLockFairMixin.isReservedReader, RWLock.aged, hturn]
      | true => simp [RWLockFairMixin.isReservedReader, RWLock.aged, hturn, hcut hp hturn]

variable [DecidableEq τ]

/-- The two locks let the same calls in. -/
theorem canAcquire (h : Older cls K mark s s') (m : Mode) (me : Option τ)
    (waiting : Bool) (waiterSeq : Option ℕ) :
    cls.canAcquire m s' me waiting (waiterSeq.map (K m + ·)) =
      cls.canAcquire m s me waiting waiterSeq := by
  have hres := fun hp => h.isReservedReader hp waiting waiterSeq
  obtain ⟨cut, rfl, -⟩ := h
  cases m with
  | write => cases cls <;> rfl
  | read =>
      cases cls with
      | write | writeReentrantWriter | read | readReentrantWriter | readerPhaseFair
      | readerPhaseFairReentrantWriter => rfl
      | fair =>
          simp only [LockClass.canAcquire, LockClass.canRead, RWLockFairMixin.canRead, hres rfl]
          rfl
      | fairReentrantWriter =>
          simp only [LockClass.canAcquire, LockClass.canRead,
            RWLockFairReentrantWriterMixin.canRead, hres rfl]
          rfl

/-- The same calls are rejected. -/
theorem beforeAcquire (h : Older cls K mark s s') (m : Mode) (me : Option τ) :
    cls.beforeAcquire m s' me = cls.beforeAcquire m s me := by
  obtain ⟨cut, rfl, -⟩ := h
  cases m <;> cases cls <;> rfl

/-! ### Through the operations -/

omit [DecidableEq τ] in
/-- A test that comes out the same on both locks. -/
theorem ite {p : Prop} [Decidable p] (h : Older cls K mark s s') (hr : Older cls K mark r r') :
    Older cls K mark (if p then s else r) (if p then s' else r') := by
  split_ifs
  · exact h
  · exact hr

omit [DecidableEq τ] in
/-- What does not look at the past, and leaves the turn as it is. -/
theorem map (h : Older cls K mark s s') (f : RWLock τ → RWLock τ)
    (hf : ∀ cut, f (s.aged K cut mark) = (f s).aged K cut mark)
    (hturn : (f s).readersTurn = s.readersTurn)
    (hcutoff : (f s).readerPhaseCutoff = s.readerPhaseCutoff) : Older cls K mark (f s) (f s') := by
  obtain ⟨cut, rfl, hcut⟩ := h
  refine ⟨cut, hf cut, fun hp ht => ?_⟩
  rw [hcutoff]
  exact hcut hp (hturn ▸ ht)

omit [DecidableEq τ] in
/-- A queue is changed on both locks. -/
theorem onQueue (h : Older cls K mark s s') (m : Mode) (f : WaitQueue τ → WaitQueue τ) :
    Older cls K mark (s.onQueue m f) (s'.onQueue m f) :=
  h.map (·.onQueue m f) (fun _ => RWLock.aged_onProxy rfl) rfl rfl

/-- The same callers are woken. -/
theorem notify (h : Older cls K mark s s') (m : Mode) (n : ℤ) :
    Older cls K mark (s.notify m n) (s'.notify m n) :=
  h.onQueue m _

/-- A notify for everybody. -/
theorem notifyAll (h : Older cls K mark s s') (m : Mode) :
    Older cls K mark (s.notifyAll m) (s'.notifyAll m) :=
  h.onQueue m _

omit [DecidableEq τ] in
/-- A call registers with both locks. -/
theorem startWaiting (h : Older cls K mark s s') (m : Mode) :
    Older cls K mark (s.startWaiting m) (s'.startWaiting m) :=
  h.map (·.startWaiting m) (fun _ => RWLock.aged_onProxy rfl) rfl rfl

omit [DecidableEq τ] in
/-- A call leaves the count of both. -/
theorem stopWaiting (h : Older cls K mark s s') (m : Mode) :
    Older cls K mark (s.stopWaiting m) (s'.stopWaiting m) :=
  h.map (·.stopWaiting m) (fun _ => RWLock.aged_onProxy rfl) rfl rfl

omit [DecidableEq τ] in
/-- Once the marker is set on both locks, nothing of the old one is left. -/
theorem mark_as (h : Older cls K mark s s') (k : Option τ) :
    Older cls K k { s with downgraded := k } { s' with downgraded := k } := by
  obtain ⟨cut, rfl, hcut⟩ := h
  exact ⟨cut, rfl, hcut⟩

omit [DecidableEq τ] in
/-- A writer enters both. -/
theorem ownWriter (h : Older cls K mark s s') (me : Option τ) :
    Older cls K mark (s.ownWriter cls me) (s'.ownWriter cls me) := by
  unfold RWLock.ownWriter
  exact .ite (h.map (fun s => { s with writerId := me, writeCount := s.writeCount + 1 })
    (fun _ => rfl) rfl rfl)
    (h.map (fun s => { s with writerActive := true, writerOwner := me }) (fun _ => rfl) rfl rfl)

end Older

variable [DecidableEq τ]

/-- Both locks wake their readers. -/
theorem RWLockReaderPhaseFairMixin.older_wakeWaitingReader (h : Older cls K mark s s') :
    Older cls K mark (wakeWaitingReader s) (wakeWaitingReader s') := by
  have hwake := h.notifyAll .read
  obtain ⟨cut, rfl, hcut⟩ := h
  exact .ite hwake ⟨cut, rfl, hcut⟩

/-- Both locks wake as many readers as they have slots. -/
theorem RWLockFairMixin.older_wakeWaitingReader (h : Older cls K mark s s') :
    Older cls K mark (wakeWaitingReader s) (wakeWaitingReader s') := by
  have hwake := h.notify .read (min s.read.thoseWaiting s.readerPhasePending)
  obtain ⟨cut, rfl, hcut⟩ := h
  exact .ite ⟨cut, rfl, hcut⟩ hwake

/-- A turn begins on both locks; the policy has no cutoff to compare. -/
theorem RWLockReaderPhaseFairMixin.older_startReaderPhase (hp : cls.policy ≠ .fair)
    (h : Older cls K mark s s') :
    Older cls K mark (startReaderPhase s) (startReaderPhase s') := by
  obtain ⟨cut, rfl, -⟩ := h
  exact older_wakeWaitingReader ⟨cut, rfl, fun hf => absurd hf hp⟩

/-- A phase begins: from here on the cutoffs agree. -/
theorem RWLockFairMixin.older_startReaderPhase (h : Older cls K mark s s') :
    Older cls K mark (startReaderPhase s) (startReaderPhase s') := by
  obtain ⟨cut, rfl, -⟩ := h
  have hstart : Older cls K mark
      { s with
        readersTurn := decide (0 < s.read.thoseWaiting)
        readerPhasePending := s.read.thoseWaiting
        readerPhaseCutoff := s.read.waiterSeq }
      ({ s with
        readersTurn := decide (0 < s.read.thoseWaiting)
        readerPhasePending := s.read.thoseWaiting
        readerPhaseCutoff := s.read.waiterSeq }.aged K (K .read + s.read.waiterSeq) mark) :=
    ⟨_, rfl, fun _ _ => rfl⟩
  exact .ite (older_wakeWaitingReader hstart) hstart

/-- A turn ends or goes on, on both locks. -/
theorem RWLockReaderPhaseFairMixin.older_finishOrContinueReaderPhase
    (h : Older cls K mark s s') :
    Older cls K mark (finishOrContinueReaderPhase s) (finishOrContinueReaderPhase s') := by
  have hwake := older_wakeWaitingReader h
  obtain ⟨cut, rfl, -⟩ := h
  have hoff : Older cls K mark { s with readersTurn := false }
      ({ s with readersTurn := false }.aged K cut mark) := ⟨cut, rfl, nofun⟩
  exact .ite hwake (.ite (hoff.notify .write 1) hoff)

/-- A phase ends or goes on, on both locks; when it ends the cutoffs are out of use. -/
theorem RWLockFairMixin.older_finishOrContinueReaderPhase (h : Older cls K mark s s') :
    Older cls K mark (finishOrContinueReaderPhase s) (finishOrContinueReaderPhase s') := by
  have hwake := older_wakeWaitingReader h
  obtain ⟨cut, rfl, -⟩ := h
  have hoff : Older cls K mark
      { s with readersTurn := false, readerPhaseCutoff := 0, readerPhasePending := 0 }
      ({ s with readersTurn := false, readerPhaseCutoff := 0, readerPhasePending := 0 }.aged
        K 0 mark) := ⟨0, rfl, nofun⟩
  exact .ite hwake (.ite (hoff.notify .write 1) hoff)

omit [DecidableEq τ] in
/-- The same callers spend a slot. -/
theorem RWLockFairMixin.older_consumeReaderPhaseSlot (h : Older cls K mark s s')
    (hp : cls.policy = .fair) (waiting : Bool) (waiterSeq : Option ℕ) :
    Older cls K mark (consumeReaderPhaseSlot s waiting waiterSeq)
      (consumeReaderPhaseSlot s' waiting (waiterSeq.map (K .read + ·))) := by
  have hres := h.isReservedReader hp waiting waiterSeq
  unfold consumeReaderPhaseSlot
  rw [hres]
  exact .ite (h.map (fun s => { s with readerPhasePending := s.readerPhasePending - 1 })
    (fun _ => rfl) rfl rfl) h

/-- A reader gives up its slot on both locks. -/
theorem RWLockFairMixin.older_onReaderAbort (h : Older cls K mark s s')
    (hp : cls.policy = .fair) (waiterSeq : Option ℕ) :
    Older cls K mark (onReaderAbort s waiterSeq)
      (onReaderAbort s' (waiterSeq.map (K .read + ·))) := by
  have hslot : (s'.readersTurn &&
      ((waiterSeq.map (K .read + ·)).any fun seq => decide (seq ≤ s'.readerPhaseCutoff)) &&
        decide (0 < s'.readerPhasePending)) =
      (s.readersTurn && (waiterSeq.any fun seq => decide (seq ≤ s.readerPhaseCutoff)) &&
        decide (0 < s.readerPhasePending)) := by
    obtain ⟨cut, rfl, hcut⟩ := h
    cases hturn : s.readersTurn with
    | false => simp [RWLock.aged, hturn]
    | true => cases waiterSeq <;> simp [RWLock.aged, hturn, hcut hp hturn]
  -- the reader has left the count; now it passes the turn on
  have hpass : ∀ {r r' : RWLock τ}, Older cls K mark r r' → Older cls K mark
      (if r.readersTurn && decide (0 < r.readerPhasePending) then wakeWaitingReader r
        else if r.readersTurn && r.readersActive == 0 then finishOrContinueReaderPhase r else r)
      (if r'.readersTurn && decide (0 < r'.readerPhasePending) then wakeWaitingReader r'
        else if r'.readersTurn && r'.readersActive == 0 then finishOrContinueReaderPhase r'
        else r') := by
    intro r r' hr
    have hwake := older_wakeWaitingReader hr
    have hfinish := older_finishOrContinueReaderPhase hr
    obtain ⟨cut, rfl, hcut⟩ := hr
    exact .ite hwake (.ite hfinish ⟨cut, rfl, hcut⟩)
  unfold onReaderAbort
  rw [hslot]
  exact hpass (.ite (h.map (fun s => { s with readerPhasePending := s.readerPhasePending - 1 })
    (fun _ => rfl) rfl rfl) h)

namespace Older

/-! ### Through the hooks -/

/-- The hook of an entering reader. -/
theorem onReaderEnter (h : Older cls K mark s s') (waiting : Bool) (waiterSeq : Option ℕ) :
    Older cls K mark (cls.onReaderEnter waiting waiterSeq s)
      (cls.onReaderEnter waiting (waiterSeq.map (K .read + ·)) s') := by
  unfold LockClass.onReaderEnter
  cases hp : cls.policy with
  | write | read => exact h
  | readerPhaseFair =>
      have hwake := RWLockReaderPhaseFairMixin.older_wakeWaitingReader h
      obtain ⟨cut, rfl, hcut⟩ := h
      exact .ite hwake ⟨cut, rfl, hcut⟩
  | fair =>
      have hslot := RWLockFairMixin.older_consumeReaderPhaseSlot h hp waiting waiterSeq
      have hwake := RWLockFairMixin.older_wakeWaitingReader hslot
      dsimp only
      obtain ⟨cut, heq, hcut⟩ := hslot
      rw [heq] at hwake ⊢
      exact .ite hwake ⟨cut, rfl, hcut⟩

/-- The hook of a leaving reader. -/
theorem onReaderLeave (h : Older cls K mark s s') :
    Older cls K mark (cls.onReaderLeave s) (cls.onReaderLeave s') := by
  have hnotify := h.notify .write 1
  have hphase := RWLockReaderPhaseFairMixin.older_finishOrContinueReaderPhase h
  have hfair := RWLockFairMixin.older_finishOrContinueReaderPhase h
  obtain ⟨cut, rfl, hcut⟩ := h
  unfold LockClass.onReaderLeave
  cases cls.policy with
  | write | read => exact .ite hnotify ⟨cut, rfl, hcut⟩
  | readerPhaseFair => exact .ite hphase ⟨cut, rfl, hcut⟩
  | fair => exact .ite hfair ⟨cut, rfl, hcut⟩

/-- The hook of a downgrade. -/
theorem onDowngrade (h : Older cls K mark s s') :
    Older cls K mark (cls.onDowngrade s) (cls.onDowngrade s') := by
  unfold LockClass.onDowngrade
  cases hp : cls.policy with
  | write | read =>
      have hnotify := h.notifyAll .read
      obtain ⟨cut, rfl, hcut⟩ := h
      exact .ite hnotify ⟨cut, rfl, hcut⟩
  | readerPhaseFair =>
      exact RWLockReaderPhaseFairMixin.older_startReaderPhase (by simp [hp]) h
  | fair => exact RWLockFairMixin.older_startReaderPhase h

/-- The hook of a reader that gives up. -/
theorem onReaderAbort (h : Older cls K mark s s') (waiterSeq : Option ℕ) :
    Older cls K mark (cls.onReaderAbort s waiterSeq)
      (cls.onReaderAbort s' (waiterSeq.map (K .read + ·))) := by
  cases cls with
  | write | writeReentrantWriter => exact h
  | read | readReentrantWriter =>
      have hnotify := h.notify .write 1
      obtain ⟨cut, rfl, hcut⟩ := h
      exact .ite hnotify ⟨cut, rfl, hcut⟩
  | readerPhaseFair | readerPhaseFairReentrantWriter =>
      have hphase := RWLockReaderPhaseFairMixin.older_finishOrContinueReaderPhase h
      obtain ⟨cut, rfl, hcut⟩ := h
      exact .ite hphase ⟨cut, rfl, hcut⟩
  | fair | fairReentrantWriter => exact RWLockFairMixin.older_onReaderAbort h rfl waiterSeq

/-- The hook of a writer that gives up or releases. -/
theorem onWriterAbort (h : Older cls K mark s s') (waiterSeq waiterSeq' : Option ℕ) :
    Older cls K mark (cls.onWriterAbort s waiterSeq) (cls.onWriterAbort s' waiterSeq') := by
  have hone := h.notify .write 1
  have hall := h.notifyAll .read
  cases cls with
  | write | writeReentrantWriter =>
      obtain ⟨cut, rfl, hcut⟩ := h
      exact .ite hone (.ite hall ⟨cut, rfl, hcut⟩)
  | read | readReentrantWriter =>
      obtain ⟨cut, rfl, hcut⟩ := h
      exact .ite hall (.ite hone ⟨cut, rfl, hcut⟩)
  | readerPhaseFair | readerPhaseFairReentrantWriter =>
      have hstart := RWLockReaderPhaseFairMixin.older_startReaderPhase (by decide) h
      obtain ⟨cut, rfl, hcut⟩ := h
      exact .ite hstart (.ite hone ⟨cut, rfl, hcut⟩)
  | fair | fairReentrantWriter =>
      have hstart := RWLockFairMixin.older_startReaderPhase h
      obtain ⟨cut, rfl, hcut⟩ := h
      exact .ite hstart (.ite hone ⟨cut, rfl, hcut⟩)

/-- The hook of a call that gives up. -/
theorem onAbort (h : Older cls K mark s s') (m : Mode) (waiterSeq : Option ℕ) :
    Older cls K mark (cls.onAbort m s waiterSeq)
      (cls.onAbort m s' (waiterSeq.map (K m + ·))) := by
  cases m with
  | read => exact h.onReaderAbort waiterSeq
  | write => exact h.onWriterAbort waiterSeq _

/-- An acquisition, on both locks. -/
theorem acquireCore (h : Older cls K mark s s') (m : Mode) (me : Option τ) (waiting : Bool)
    (waiterSeq : Option ℕ) :
    Older cls K mark (cls.acquireCore m s me waiting waiterSeq)
      (cls.acquireCore m s' me waiting (waiterSeq.map (K m + ·))) := by
  cases m with
  | read =>
      simp only [LockClass.acquireCore, LockClass.acquireReadCore_eq]
      exact (h.map (·.enterReader me) (fun _ => rfl) rfl rfl).onReaderEnter waiting waiterSeq
  | write =>
      simp only [LockClass.acquireCore, LockClass.acquireWriteCore_eq]
      exact h.ownWriter me

end Older

/-- An acquisition leaves the marker to the writer proxy. -/
theorem LockClass.acquireCore_downgraded (cls : LockClass) (m : Mode) (s : RWLock τ) (me : Option τ)
    (waiting : Bool) (waiterSeq : Option ℕ) :
    (cls.acquireCore m s me waiting waiterSeq).downgraded = s.downgraded := by
  cases m with
  | read =>
      simp only [acquireCore, acquireReadCore_eq]
      exact (cls.signals_onReaderEnter waiting waiterSeq _).downgraded
  | write =>
      obtain ⟨_, _, _, _, hf⟩ := s.ownWriter_frame cls me
      rw [acquireCore, acquireWriteCore_eq, hf]

/-! ### Two locks side by side -/

/-- The marker of the used lock is that of the new one, or a leftover. -/
def Leftover (mark' mark : Option τ) : Prop := mark' = mark ∨ mark = none

omit [DecidableEq τ] in
instance : Std.Refl (Leftover (τ := τ)) := ⟨fun _ => .inl rfl⟩

/-- `s'` is `s` with an older past; `M` is how their markers compare. -/
structure RWLock.Used (M : Option τ → Option τ → Prop) (cls : LockClass) (K : Mode → ℕ)
    (s s' : RWLock τ) : Prop where
  older : Older cls K s'.downgraded s s'
  marker : M s'.downgraded s.downgraded

variable {M : Option τ → Option τ → Prop}

omit [DecidableEq τ] in
/-- A lock with an older past is a used one, whatever its marker is. -/
theorem Older.used (h : Older cls K mark s s') (hm : M mark s.downgraded) :
    s.Used M cls K s' := by
  obtain rfl := h.downgraded
  exact ⟨h, hm⟩

/-- Two calls come out the same. -/
inductive RWLock.SameCall (M : Option τ → Option τ → Prop) (cls : LockClass) (K : Mode → ℕ) :
    Except RuntimeError Unit × RWLock τ → Except RuntimeError Unit × RWLock τ → Prop
  | returns {s s' : RWLock τ} (h : s.Used M cls K s') :
      SameCall M cls K (.ok (), s) (.ok (), s')
  | raises {s s' : RWLock τ} (e : RuntimeError) (h : s.Used M cls K s') :
      SameCall M cls K (.error e, s) (.error e, s')

namespace RWLock.Used

/-- A read release comes out the same. -/
theorem releaseReadCore (h : s.Used M cls K s') (me : Option τ) :
    SameCall M cls K (LockClass.orUnchanged s (cls.releaseReadCore s me))
      (LockClass.orUnchanged s' (cls.releaseReadCore s' me)) := by
  rw [LockClass.releaseReadCore_spec, LockClass.releaseReadCore_spec, h.older.readerOwners]
  by_cases hk : s.readerOwners.count me = 0
  · rw [if_pos hk, if_pos hk]
    exact .raises _ h
  · rw [if_neg hk, if_neg hk]
    refine .returns ((h.older.map (·.dropReader me) (fun _ => rfl) rfl rfl).onReaderLeave.used ?_)
    rw [(cls.signals_onReaderLeave _).downgraded]
    exact h.marker

/-- A write release that is not routed comes out the same. -/
theorem releaseWriteCore (h : s.Used M cls K s') (hb : Books cls s) (hb' : Books cls s') {t : τ} :
    SameCall M cls K (LockClass.orUnchanged s (cls.releaseWriteCore s (some t)))
      (LockClass.orUnchanged s' (cls.releaseWriteCore s' (some t))) := by
  rw [LockClass.releaseWriteCore_spec hb (by simp), LockClass.releaseWriteCore_spec hb' (by simp),
    h.older.owner, h.older.depth]
  split_ifs
  · exact .raises _ h
  · exact .returns ((h.older.map (fun s => { s with writeCount := s.writeCount - 1 })
      (fun _ => rfl) rfl rfl).used h.marker)
  · refine .returns (((h.older.map (·.freeWriter) (fun _ => rfl) rfl rfl).onWriterAbort
      none none).used ?_)
    rw [(cls.signals_onWriterAbort _ none).downgraded]
    exact h.marker

/-- A downgrade comes out the same, and sets the same marker. -/
theorem downgrade [Std.Refl M] (h : s.Used M cls K s') (hb : Books cls s)
    (hb' : Books cls s') {t : τ} :
    SameCall M cls K (cls.downgrade s (some t)) (cls.downgrade s' (some t)) := by
  have hfree := (h.older.map (·.freeWriter) (fun _ => rfl) rfl rfl).map
    (·.enterReader (some t)) (fun _ => rfl) rfl rfl
  unfold LockClass.downgrade
  rw [LockClass.downgradeCore_spec hb (by simp), LockClass.downgradeCore_spec hb' (by simp),
    LockClass.downgradeError, LockClass.downgradeError, h.older.owner, h.older.depth]
  by_cases ho : cls.owner s = some t ∧ cls.depth s = 1
  · rw [if_pos ho, if_pos ho]
    exact .returns ((hfree.onDowngrade.mark_as (some t)).used (refl_of M _))
  · rw [if_neg ho, if_neg ho]
    exact .raises _ h

/-- A release through `.write`, when the two markers agree on the caller. -/
theorem releaseWrite [Std.Refl M] (h : s.Used M cls K s') (hb : Books cls s) (hb' : Books cls s')
    {t : τ} (hm : s'.downgraded = some t ↔ s.downgraded = some t) :
    SameCall M cls K (cls.release s (some t) .write) (cls.release s' (some t) .write) := by
  have hun : RWLock.Used M cls K { s with downgraded := none } { s' with downgraded := none } :=
    (h.older.mark_as none).used (refl_of M none)
  have hwrite := hun.releaseWriteCore (hb.marker none) (hb'.marker none) (t := t)
  have hread := hun.releaseReadCore (some t)
  by_cases hs : s.downgraded = some t
  · simp only [LockClass.release, if_pos hs, if_pos (hm.2 hs)]
    rw [LockClass.releaseReadCore_spec, LockClass.releaseReadCore_spec] at *
    simp only [h.older.readerOwners] at *
    by_cases hk : s.readerOwners.count (some t) = 0
    · simp only [if_pos hk]
      exact hwrite
    · simp only [if_neg hk] at *
      exact hread
  · simp only [LockClass.release, if_neg hs, if_neg (mt hm.1 hs)]
    exact h.releaseWriteCore hb hb'

end RWLock.Used

namespace System

/-- The same users, on a lock with an older past. -/
structure Used (M : Option τ → Option τ → Prop) (cls : LockClass) (K : Mode → ℕ)
    (c d : System τ) : Prop where
  lock : c.lock.Used M cls K d.lock
  pc : ∀ t, d.pc t = (c.pc t).aged K
  holds : d.holds = c.holds

/-- Two steps come out the same. -/
def SameStep (M : Option τ → Option τ → Prop) (cls : LockClass) (K : Mode → ℕ)
    (r r' : Outcome × System τ) : Prop :=
  r'.1 = r.1 ∧ r.2.Used M cls K r'.2

variable {rt : Runtime} {c d : System τ} {t : τ} {m : Mode}

namespace Used

/-- A caller goes on, on both locks. -/
theorem put (h : c.Used M cls K d) (hs : s.Used M cls K s') (t : τ) (p : Pc) :
    (c.put s t p).Used M cls K (d.put s' t (p.aged K)) where
  lock := hs
  pc u := by
    by_cases hut : u = t
    · subst hut
      rw [put_pc, put_pc, Function.update_self, Function.update_self]
    · rw [put_pc, put_pc, Function.update_of_ne hut, Function.update_of_ne hut]
      exact h.pc u
  holds := h.holds

omit [DecidableEq τ] in
/-- A queue is changed on both locks. -/
theorem onQueue (h : c.lock.Used M cls K d.lock) (m : Mode) (f : WaitQueue τ → WaitQueue τ) :
    (c.lock.onQueue m f).Used M cls K (d.lock.onQueue m f) :=
  (h.older.onQueue m f).used h.marker

/-- A call is granted the lock on both sides. -/
theorem succeed [Std.Refl M] (h : c.Used M cls K d) (hs : s.Used M cls K s') (t : τ) (m : Mode) :
    SameStep M cls K (c.succeed rt t s m) (d.succeed rt t s' m) := by
  have hgrant : ∀ {c' d' : System τ}, c'.Used M cls K d' →
      System.Used M cls K { c' with holds := grant c.holds (some t) m }
        { d' with holds := grant d.holds (some t) m } := by
    intro c' d' h'
    exact ⟨h'.lock, h'.pc, by rw [h.holds]⟩
  cases m with
  | read => exact ⟨rfl, hgrant (h.put hs t .idle)⟩
  | write =>
      cases rt with
      | thread => exact ⟨rfl, hgrant (h.put hs t .clearing)⟩
      | async => exact ⟨rfl, hgrant (h.put ((hs.older.mark_as none).used (refl_of M none)) t .idle)⟩

/-- A call gives up on both sides. -/
theorem abort (h : c.Used M cls K d) (t : τ) (m : Mode) (seq : ℕ) :
    (c.abort cls t m seq).Used M cls K (d.abort cls t m (K m + seq)) := by
  refine h.put (((h.lock.older.stopWaiting m).onAbort m (some seq)).used ?_) t .idle
  rw [(cls.signals_onAbort m _ (some seq)).downgraded]
  exact h.lock.marker

/-- The wait loop comes out the same. -/
theorem acquireLoop [Std.Refl M] (h : c.Used M cls K d) (t : τ) (m : Mode) (seq : ℕ)
    (timed expired : Bool) :
    SameStep M cls K (c.acquireLoop rt cls t m seq timed expired)
      (d.acquireLoop rt cls t m (K m + seq) timed expired) := by
  have hcan : cls.canAcquire m d.lock (some t) true (some (K m + seq)) =
      cls.canAcquire m c.lock (some t) true (some seq) :=
    h.lock.older.canAcquire m (some t) true (some seq)
  unfold System.acquireLoop
  rw [hcan]
  split_ifs
  · refine h.succeed (((h.lock.older.acquireCore m (some t) true (some seq)).stopWaiting
      m).used ?_) t m
    exact (cls.acquireCore_downgraded m c.lock (some t) true (some seq)).symm ▸ h.lock.marker
  · exact ⟨rfl, h.abort t m seq⟩
  · exact ⟨rfl, h.put (onQueue h.lock m _) t (.waiting m seq timed false)⟩

/-- A call of `acquire` comes out the same. -/
theorem acquire [Std.Refl M] (h : c.Used M cls K d) (t : τ) (m : Mode) (p : Patience)
    (expired : Bool) :
    SameStep M cls K (c.acquire rt cls t m p expired) (d.acquire rt cls t m p expired) := by
  have hcan : cls.canAcquire m d.lock (some t) false none =
      cls.canAcquire m c.lock (some t) false none :=
    h.lock.older.canAcquire m (some t) false none
  unfold System.acquire
  rw [h.lock.older.beforeAcquire, hcan]
  cases cls.beforeAcquire m c.lock (some t) with
  | error e => exact ⟨rfl, h⟩
  | ok u =>
      dsimp only
      split_ifs
      · refine h.succeed ((h.lock.older.acquireCore m (some t) false none).used ?_) t m
        exact (cls.acquireCore_downgraded m c.lock (some t) false none).symm ▸ h.lock.marker
      · exact ⟨rfl, h⟩
      · have hseq : (d.lock.proxy m).waiterSeq + 1 = K m + ((c.lock.proxy m).waiterSeq + 1) := by
          rw [h.lock.older.waiterSeq m, Nat.add_assoc]
        have hreg : (c.register t m (p = .timed)).Used M cls K (d.register t m (p = .timed)) := by
          unfold register
          rw [hseq]
          exact h.put ((h.lock.older.startWaiting m).used h.lock.marker) t
            (.waiting m ((c.lock.proxy m).waiterSeq + 1) (p = .timed) false)
        rw [hseq]
        exact hreg.acquireLoop t m _ _ _

/-- A parked call comes out the same. -/
theorem resume [Std.Refl M] (h : c.Used M cls K d) (t : τ) (m : Mode) (seq : ℕ)
    (timed i expired : Bool) :
    SameStep M cls K (c.resume rt cls t m seq timed i expired)
      (d.resume rt cls t m (K m + seq) timed i expired) := by
  have hend : (c.endWait t m i).Used M cls K (d.endWait t m i) :=
    ⟨onQueue h.lock m fun q => (if i then q.discardWaiter t else q).dropWaiter t, h.pc, h.holds⟩
  unfold System.resume
  dsimp only
  split_ifs
  · exact ⟨rfl, hend.abort t m seq⟩
  · exact hend.acquireLoop t m seq timed expired

end Used

/-! ### Steps and runs -/

/-- A caller gives back a hold of its own.  Through `.write` that is a write hold or,
after a downgrade, a read hold. -/
def ReturnsOwn (c : System τ) : Action τ → Prop
  | .release k .read => 0 < c.holds.reads k
  | .release k .write => 0 < c.holds.writes k ∨ c.lock.downgraded = k ∧ 0 < c.holds.reads k
  | _ => True

omit [DecidableEq τ] in
/-- Whoever gives back its own hold has one. -/
theorem ReturnsOwn.byHolder {a : Action τ} (h : ReturnsOwn c a) : ByHolder c a := by
  cases a with
  | acquire | resume | interrupt | clear | downgrade => trivial
  | release k m =>
      cases m with
      | read => exact h
      | write => exact h.imp id And.right

namespace Used

omit [DecidableEq τ] in
/-- The same callers are between calls. -/
theorem pc_idle (h : c.Used M cls K d) (t : τ) : d.pc t = .idle ↔ c.pc t = .idle := by
  rw [h.pc t]
  cases c.pc t <;> simp [Pc.aged]

omit [DecidableEq τ] in
/-- The same writers are about to clear the marker. -/
theorem pc_clearing (h : c.Used M cls K d) (t : τ) : d.pc t = .clearing ↔ c.pc t = .clearing := by
  rw [h.pc t]
  cases c.pc t <;> simp [Pc.aged]

/-- The marker does not name a caller that holds the write lock. -/
theorem marker_ne (hc : HolderReachable rt cls c) (hpc : c.pc t = .idle)
    (hw : 0 < c.holds.writes (some t)) : c.lock.downgraded ≠ some t := by
  intro hm
  have hclear := hc.ledger.marker t hm hw
  rw [hpc] at hclear
  cases hclear

/-- The two markers agree on a caller that gives back a hold of its own. -/
theorem marker_iff (h : c.Used Leftover cls K d) (hc : HolderReachable rt cls c)
    (hd : HolderReachable rt cls d) (hpc : c.pc t = .idle)
    (hown : ReturnsOwn c (.release (some t) .write)) :
    d.lock.downgraded = some t ↔ c.lock.downgraded = some t := by
  rcases hown with hw | ⟨hm, -⟩
  · exact iff_of_false (marker_ne hd ((h.pc_idle t).2 hpc) (by rwa [h.holds]))
      (marker_ne hc hpc hw)
  · rcases h.lock.marker with heq | hnone
    · rw [heq]
    · cases hm.symm.trans hnone

/-- A release comes out the same, if the two markers agree on its caller. -/
theorem release [Std.Refl M] (h : c.Used M cls K d) (hb : Books cls c.lock)
    (hb' : Books cls d.lock)
    (hm : m = .write → (d.lock.downgraded = some t ↔ c.lock.downgraded = some t)) :
    SameStep M cls K (c.release cls (some t) m) (d.release cls (some t) m) := by
  have hcall : RWLock.SameCall M cls K (cls.release c.lock (some t) m)
      (cls.release d.lock (some t) m) := by
    cases m with
    | read => exact h.lock.releaseReadCore (some t)
    | write => exact h.lock.releaseWrite hb hb' (hm rfl)
  unfold System.release
  generalize cls.release c.lock (some t) m = r at hcall
  generalize cls.release d.lock (some t) m = r' at hcall
  cases hcall with
  | returns hs => exact ⟨rfl, hs, h.pc, by rw [h.holds]⟩
  | raises e hs => exact ⟨rfl, hs, h.pc, h.holds⟩

/-- A downgrade comes out the same. -/
theorem downgrade [Std.Refl M] (h : c.Used M cls K d) (hb : Books cls c.lock)
    (hb' : Books cls d.lock) :
    SameStep M cls K (c.downgrade cls (some t)) (d.downgrade cls (some t)) := by
  have hcall := h.lock.downgrade hb hb' (t := t)
  unfold System.downgrade
  generalize cls.downgrade c.lock (some t) = r at hcall
  generalize cls.downgrade d.lock (some t) = r' at hcall
  cases hcall with
  | returns hs => exact ⟨rfl, hs, h.pc, by rw [h.holds]⟩
  | raises e hs => exact ⟨rfl, hs, h.pc, h.holds⟩

/-- **A step comes out the same on the used lock**, if the two markers agree on whoever
releases through `.write`. -/
theorem step [Std.Refl M] (h : c.Used M cls K d) (hb : Books cls c.lock) (hb' : Books cls d.lock)
    {a : Action τ} (ha : a.caller ≠ none)
    (hm : ∀ t, a = .release (some t) .write → c.pc t = .idle →
      (d.lock.downgraded = some t ↔ c.lock.downgraded = some t)) :
    Option.Rel (SameStep M cls K) (c.step rt cls a) (d.step rt cls a) := by
  cases a with
  | acquire t m p expired =>
      exact rel_guard (by rw [h.pc_idle]) fun _ => h.acquire t m p expired
  | resume t expired =>
      simp only [System.step, h.pc t]
      cases c.pc t with
      | idle | clearing => exact .none
      | waiting m seq timed i =>
          simp only [Pc.aged, h.lock.older.condition m]
          split_ifs
          · exact .none
          · exact .some (h.resume t m seq timed i expired)
  | interrupt t =>
      simp only [System.step, h.pc t]
      cases c.pc t with
      | idle | clearing => cases rt <;> exact .none
      | waiting m seq timed i =>
          simp only [Pc.aged]
          cases i with
          | true => cases rt <;> cases timed <;> exact .none
          | false =>
              cases rt with
              | async =>
                  cases timed <;> exact .some ⟨rfl, h.put (onQueue h.lock m _) t
                    (.waiting m seq _ true)⟩
              | thread =>
                  cases timed with
                  | false => exact .none
                  | true =>
                      exact rel_guard (by rw [h.lock.older.condition m]) fun _ =>
                        ⟨rfl, h.put h.lock t (.waiting m seq true true)⟩
  | clear t =>
      exact rel_guard (h.pc_clearing t) fun _ =>
        ⟨rfl, h.put ((h.lock.older.mark_as none).used (refl_of M none)) t .idle⟩
  | release k m =>
      obtain ⟨t, rfl⟩ := Option.ne_none_iff_exists'.1 ha
      refine rel_guard (by simp only [canCall, h.pc_idle]) fun hcall => ?_
      refine h.release hb hb' fun hw => hm t (by rw [hw]) ?_
      simpa [canCall] using hcall
  | downgrade k =>
      obtain ⟨t, rfl⟩ := Option.ne_none_iff_exists'.1 ha
      exact rel_guard (by simp only [canCall, h.pc_idle]) fun _ => h.downgrade hb hb'

end Used

/-- Whatever can be done with a new lock, by callers that give back holds of their own,
can be done with this one, and every call comes out the same. -/
def BehavesAsNew (rt : Runtime) (cls : LockClass) (d : System τ) : Prop :=
  ∀ (as : List (Action τ)) (c : System τ),
    Run (restrict (fun c a => InTask c a ∧ ReturnsOwn c a) (Step rt cls)) {} as c →
      ∃ d', Run (Step rt cls) d as d' ∧
        ∀ a, InTask c a → ReturnsOwn c a →
          (d'.step rt cls a).map Prod.fst = (c.step rt cls a).map Prod.fst

/-- Whatever can be done with a new lock can be done with this one, and every call comes
out the same, also a release of what the caller does not hold. -/
def BehavesAsNewToAll (rt : Runtime) (cls : LockClass) (d : System τ) : Prop :=
  ∀ (as : List (Action τ)) (c : System τ), Run (restrict InTask (Step rt cls)) {} as c →
    ∃ d', Run (Step rt cls) d as d' ∧
      ∀ a, InTask c a → (d'.step rt cls a).map Prod.fst = (c.step rt cls a).map Prod.fst

omit [DecidableEq τ] in
/-- The same callers hold what they release. -/
theorem Used.byHolder (h : c.Used M cls K d) {a : Action τ} (hby : ByHolder c a) :
    ByHolder d a := by
  cases a with
  | acquire | resume | interrupt | clear | downgrade => trivial
  | release k m =>
      cases m with
      | read =>
          show 0 < d.holds.reads k
          rw [h.holds]
          exact hby
      | write =>
          show Holding d.holds k
          rw [h.holds]
          exact hby

/-- The two locks, both used as they should be. -/
def SideBySide (rt : Runtime) (cls : LockClass) (K : Mode → ℕ) (c d : System τ) : Prop :=
  c.Used Leftover cls K d ∧ HolderReachable rt cls c ∧ HolderReachable rt cls d

/-- A caller that gives back its own hold sees no difference. -/
theorem SideBySide.same {a : Action τ} (h : SideBySide rt cls K c d) (ha : a.caller ≠ none)
    (hown : ReturnsOwn c a) :
    Option.Rel (SameStep Leftover cls K) (c.step rt cls a) (d.step rt cls a) := by
  obtain ⟨h, hc, hd⟩ := h
  refine h.step hc.books hd.books ha ?_
  rintro t rfl hpc
  exact h.marker_iff hc hd hpc hown

/-- The used lock has an answer to each step of the new one. -/
theorem SideBySide.step {a : Action τ} {c' : System τ} (h : SideBySide rt cls K c d)
    (hst : restrict (fun c a => InTask c a ∧ ReturnsOwn c a) (Step rt cls) c a c') :
    ∃ d', Step rt cls d a d' ∧ SideBySide rt cls K c' d' := by
  obtain ⟨⟨ha, hown⟩, o, hst⟩ := hst
  have hrel := h.same ha hown
  obtain ⟨h, hc, hd⟩ := h
  rw [hst] at hrel
  obtain ⟨⟨o', d'⟩, hst', -, h'⟩ := exists_of_rel hrel
  exact ⟨d', ⟨o', hst'⟩, h', hc.step hst ha hown.byHolder,
    hd.step hst' ha (h.byHolder hown.byHolder)⟩

/-- **A used lock behaves as new.** -/
theorem SideBySide.behavesAsNew (h : SideBySide rt cls K {} d) : BehavesAsNew rt cls d := by
  intro as c hrun
  obtain ⟨d', hrun', h'⟩ := hrun.follow (fun _ _ _ _ h hst => h.step hst) h
  exact ⟨d', hrun', fun a ha hown => map_eq_of_rel (h'.same ha hown) fun _ _ hsame => hsame.1⟩

/-- The two locks have the same marker, too, and anybody may call anything. -/
def Alike (rt : Runtime) (cls : LockClass) (K : Mode → ℕ) (c d : System τ) : Prop :=
  c.Used Eq cls K d ∧ Reachable rt cls c ∧ Reachable rt cls d

/-- Nobody sees a difference. -/
theorem Alike.same {a : Action τ} (h : Alike rt cls K c d) (ha : a.caller ≠ none) :
    Option.Rel (SameStep Eq cls K) (c.step rt cls a) (d.step rt cls a) :=
  h.1.step h.2.1.wellFormed.books h.2.2.wellFormed.books ha fun _ _ _ => by rw [h.1.lock.marker]

/-- The used lock has an answer to each step of the new one, whoever takes it. -/
theorem Alike.step {a : Action τ} {c' : System τ} (h : Alike rt cls K c d)
    (hst : restrict InTask (Step rt cls) c a c') :
    ∃ d', Step rt cls d a d' ∧ Alike rt cls K c' d' := by
  obtain ⟨ha, o, hst⟩ := hst
  have hrel := h.same ha
  obtain ⟨-, hc, hd⟩ := h
  rw [hst] at hrel
  obtain ⟨⟨o', d'⟩, hst', -, h'⟩ := exists_of_rel hrel
  exact ⟨d', ⟨o', hst'⟩, h', hc.tail ⟨ha, o, hst⟩, hd.tail ⟨ha, o', hst'⟩⟩

/-- **A used lock without a leftover behaves as new**, whoever calls what. -/
theorem Alike.behavesAsNew (h : Alike rt cls K {} d) : BehavesAsNewToAll rt cls d := by
  intro as c hrun
  obtain ⟨d', hrun', h'⟩ := hrun.follow (fun _ _ _ _ h hst => h.step hst) h
  exact ⟨d', hrun', fun a ha => map_eq_of_rel (h'.same ha) fun _ _ hsame => hsame.1⟩

end System

end Rwlocker

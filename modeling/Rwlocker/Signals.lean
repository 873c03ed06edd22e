/-
# What waking can change

Every operation of a lock is bookkeeping followed by signals.  `Signals s s'`
says what signals may do between `s` and `s'`: touch the phase fields, pop
waiters from the front of the queues, and wake pending ones.  Owners, counts,
waiting counters and the marker stay.  A signal never pops a waiter and leaves
it pending, so nobody sleeps outside a queue.

`Signals` is reflexive and transitive, and each hook of the eight classes
satisfies it (`signals_onReaderEnter` to `signals_onWriterAbort`).
-/

import Rwlocker.LockClass

namespace Rwlocker

variable {τ : Type} [DecidableEq τ]

namespace RWLock

/-- The queue of a proxy. -/
abbrev queue (s : RWLock τ) (m : Mode) : List τ := (s.proxy m).condition.waiters

/-- The waiter object of `t` in the queue of a proxy. -/
abbrev waiter (s : RWLock τ) (m : Mode) (t : τ) : Waiter := (s.proxy m).condition.state t

/-- `s'` comes from `s` by signals. -/
structure Signals (s s' : RWLock τ) : Prop where
  frame : s' = { s with
    readersTurn := s'.readersTurn
    readerPhaseCutoff := s'.readerPhaseCutoff
    readerPhasePending := s'.readerPhasePending
    proxy := s'.proxy }
  thoseWaiting : ∀ m, (s'.proxy m).thoseWaiting = (s.proxy m).thoseWaiting
  waiterSeq : ∀ m, (s'.proxy m).waiterSeq = (s.proxy m).waiterSeq
  suffix : ∀ m, s'.queue m <:+ s.queue m
  waiter : ∀ m t, s'.waiter m t = s.waiter m t ∨
    s.waiter m t = .pending ∧ t ∈ s.queue m ∧ s'.waiter m t = .woken
  popped : ∀ m t, t ∈ s.queue m → t ∉ s'.queue m → s'.waiter m t ≠ .pending
  kept : ∀ m t, (s.queue m).Nodup → t ∈ s'.queue m → s'.waiter m t = s.waiter m t

namespace Signals

variable {s s' s'' : RWLock τ}

omit [DecidableEq τ] in
/-- No signal at all. -/
theorem refl (s : RWLock τ) : Signals s s where
  frame := rfl
  thoseWaiting _ := rfl
  waiterSeq _ := rfl
  suffix _ := List.suffix_rfl
  waiter _ _ := .inl rfl
  popped _ _ h h' := absurd h h'
  kept _ _ _ _ := rfl

omit [DecidableEq τ] in
/-- Signals after signals. -/
theorem trans (h : Signals s s') (h' : Signals s' s'') : Signals s s'' where
  frame := by rw [h'.frame, h.frame]
  thoseWaiting m := (h'.thoseWaiting m).trans (h.thoseWaiting m)
  waiterSeq m := (h'.waiterSeq m).trans (h.waiterSeq m)
  suffix m := (h'.suffix m).trans (h.suffix m)
  waiter m t := by
    rcases h.waiter m t with h₁ | ⟨hp, hm, h₁⟩ <;> rcases h'.waiter m t with h₂ | ⟨hp', hm', h₂⟩
    · exact .inl (h₂.trans h₁)
    · exact .inr ⟨h₁ ▸ hp', (h.suffix m).subset hm', h₂⟩
    · exact .inr ⟨hp, hm, h₂.trans h₁⟩
    · rw [h₁] at hp'
      cases hp'
  popped m t hm hm'' := by
    by_cases hm' : t ∈ s'.queue m
    · exact h'.popped m t hm' hm''
    · have := h.popped m t hm hm'
      rcases h'.waiter m t with h₂ | ⟨hp', -, -⟩
      · rwa [h₂]
      · exact absurd hp' this
  kept m t hnd ht :=
    (h'.kept m t (hnd.sublist (h.suffix m).sublist) ht).trans
      (h.kept m t hnd ((h'.suffix m).subset ht))

omit [DecidableEq τ] in
/-- The phase fields may change. -/
theorem phase (s : RWLock τ) (turn : Bool) (cutoff : ℕ) (pending : ℤ) :
    Signals s { s with
      readersTurn := turn, readerPhaseCutoff := cutoff, readerPhasePending := pending } where
  frame := rfl
  thoseWaiting _ := rfl
  waiterSeq _ := rfl
  suffix _ := List.suffix_rfl
  waiter _ _ := .inl rfl
  popped _ _ h h' := absurd h h'
  kept _ _ _ _ := rfl

omit [DecidableEq τ] in
/-- Signals on both branches of a test. -/
theorem ite {p : Prop} [Decidable p] (h : Signals s s') (h' : Signals s s'') :
    Signals s (if p then s' else s'') := by
  split_ifs
  · exact h
  · exact h'

/-- A notify is a signal. -/
theorem notify (s : RWLock τ) (m : Mode) (n : ℤ) : Signals s (s.notify m n) where
  frame := rfl
  thoseWaiting m' := by
    rw [RWLock.notify, onQueue, onProxy_proxy]
    split_ifs with h <;> simp [h]
  waiterSeq m' := by
    rw [RWLock.notify, onQueue, onProxy_proxy]
    split_ifs with h <;> simp [h]
  suffix m' := by
    rw [queue, RWLock.notify, onQueue, onProxy_proxy]
    split_ifs with h
    · subst h
      exact WaitQueue.notify_suffix _ _
    · exact List.suffix_rfl
  waiter m' t := by
    rw [RWLock.waiter, RWLock.notify, onQueue, onProxy_proxy]
    split_ifs with h
    · subst h
      exact WaitQueue.notify_state _ _ t
    · exact .inl rfl
  popped m' t hm hm' := by
    rw [queue, RWLock.notify, onQueue, onProxy_proxy] at hm'
    rw [RWLock.waiter, RWLock.notify, onQueue, onProxy_proxy]
    split_ifs at hm' ⊢ with h
    · subst h
      exact WaitQueue.notify_popped hm hm'
    · exact absurd hm hm'
  kept m' t hnd ht := by
    rw [queue, RWLock.notify, onQueue, onProxy_proxy] at ht
    rw [RWLock.waiter, RWLock.notify, onQueue, onProxy_proxy]
    split_ifs at ht ⊢ with h
    · subst h
      exact WaitQueue.notify_kept hnd ht
    · rfl

/-- So is a notify for everybody. -/
theorem notifyAll (s : RWLock τ) (m : Mode) : Signals s (s.notifyAll m) := notify s m _

section fields

omit [DecidableEq τ]

variable (h : Signals s s')

include h

-- a signal leaves the books, field by field
theorem writerActive : s'.writerActive = s.writerActive := by rw [h.frame]
theorem writerOwner : s'.writerOwner = s.writerOwner := by rw [h.frame]
theorem writerId : s'.writerId = s.writerId := by rw [h.frame]
theorem writeCount : s'.writeCount = s.writeCount := by rw [h.frame]
theorem readersActive : s'.readersActive = s.readersActive := by rw [h.frame]
theorem readerOwners : s'.readerOwners = s.readerOwners := by rw [h.frame]
theorem downgraded : s'.downgraded = s.downgraded := by rw [h.frame]

/-- A signal leaves the owner of the write lock. -/
theorem owner (cls : LockClass) : cls.owner s' = cls.owner s := by
  rw [LockClass.owner, LockClass.owner, h.writerId, h.writerOwner]

/-- A signal leaves the number of write acquisitions. -/
theorem depth (cls : LockClass) : cls.depth s' = cls.depth s := by
  rw [LockClass.depth, LockClass.depth, h.writeCount, h.writerActive]

/-- A pending waiter was pending before. -/
theorem pending {m : Mode} {t : τ} (ht : s'.waiter m t = .pending) : s.waiter m t = .pending := by
  rcases h.waiter m t with h' | ⟨hp, -, -⟩
  · rwa [h'] at ht
  · exact hp

end fields

end Signals

end RWLock

open RWLock (Signals)

/-! ### The hooks are signals -/

/-- Waking the readers is signals only. -/
theorem RWLockReaderPhaseFairMixin.signals_wakeWaitingReader (s : RWLock τ) :
    Signals s (wakeWaitingReader s) :=
  .ite (.notifyAll s .read) (.refl s)

/-- The beginning of a turn is signals only. -/
theorem RWLockReaderPhaseFairMixin.signals_startReaderPhase (s : RWLock τ) :
    Signals s (startReaderPhase s) :=
  (Signals.phase s true s.readerPhaseCutoff s.readerPhasePending).trans
    (signals_wakeWaitingReader _)

/-- The end of a turn is signals only. -/
theorem RWLockReaderPhaseFairMixin.signals_finishOrContinueReaderPhase (s : RWLock τ) :
    Signals s (finishOrContinueReaderPhase s) :=
  .ite (signals_wakeWaitingReader s)
    ((Signals.phase s false s.readerPhaseCutoff s.readerPhasePending).trans
      (.ite (.notify _ .write 1) (.refl _)))

/-- Waking the readers of a phase is signals only. -/
theorem RWLockFairMixin.signals_wakeWaitingReader (s : RWLock τ) :
    Signals s (wakeWaitingReader s) :=
  .ite (.refl s) (.notify s .read _)

/-- The beginning of a phase is signals only. -/
theorem RWLockFairMixin.signals_startReaderPhase (s : RWLock τ) :
    Signals s (startReaderPhase s) :=
  (Signals.phase s (decide (0 < s.read.thoseWaiting)) s.read.waiterSeq s.read.thoseWaiting).trans
    (.ite (signals_wakeWaitingReader _) (.refl _))

/-- The end of a phase is signals only. -/
theorem RWLockFairMixin.signals_finishOrContinueReaderPhase (s : RWLock τ) :
    Signals s (finishOrContinueReaderPhase s) :=
  .ite (signals_wakeWaitingReader s)
    ((Signals.phase s false 0 0).trans (.ite (.notify _ .write 1) (.refl _)))

omit [DecidableEq τ] in
/-- A slot is spent among the phase fields. -/
theorem RWLockFairMixin.signals_consumeReaderPhaseSlot (s : RWLock τ) (waiting : Bool)
    (waiterSeq : Option ℕ) : Signals s (consumeReaderPhaseSlot s waiting waiterSeq) :=
  .ite (.phase s s.readersTurn s.readerPhaseCutoff (s.readerPhasePending - 1)) (.refl s)

/-- A reader that gives up spends its slot and signals. -/
theorem RWLockFairMixin.signals_onReaderAbort (s : RWLock τ) (waiterSeq : Option ℕ) :
    Signals s (onReaderAbort s waiterSeq) :=
  (Signals.ite
    (.phase s s.readersTurn s.readerPhaseCutoff (s.readerPhasePending - 1)) (.refl s)).trans
    (.ite (signals_wakeWaitingReader _)
      (.ite (signals_finishOrContinueReaderPhase _) (.refl _)))

/-- The last reader signals a writer. -/
theorem RWLockWriteMixin.signals_notifyWriterIfFree (s : RWLock τ) :
    Signals s (notifyWriterIfFree s) :=
  .ite (.notify s .write 1) (.refl s)

namespace LockClass

/-- The hook of an entering reader, in each class. -/
theorem signals_onReaderEnter (cls : LockClass) (waiting : Bool) (waiterSeq : Option ℕ)
    (s : RWLock τ) : Signals s (cls.onReaderEnter waiting waiterSeq s) := by
  unfold onReaderEnter
  cases cls.policy with
  | write | read => exact .refl s
  | readerPhaseFair =>
      exact .ite (RWLockReaderPhaseFairMixin.signals_wakeWaitingReader s) (.refl s)
  | fair =>
      exact (RWLockFairMixin.signals_consumeReaderPhaseSlot s waiting waiterSeq).trans
        (.ite (RWLockFairMixin.signals_wakeWaitingReader _) (.refl _))

/-- The hook of a leaving reader, in each class. -/
theorem signals_onReaderLeave (cls : LockClass) (s : RWLock τ) :
    Signals s (cls.onReaderLeave s) := by
  unfold onReaderLeave
  cases cls.policy with
  | write | read => exact RWLockWriteMixin.signals_notifyWriterIfFree s
  | readerPhaseFair =>
      exact .ite (RWLockReaderPhaseFairMixin.signals_finishOrContinueReaderPhase s) (.refl s)
  | fair => exact .ite (RWLockFairMixin.signals_finishOrContinueReaderPhase s) (.refl s)

/-- The hook of a downgrade, in each class. -/
theorem signals_onDowngrade (cls : LockClass) (s : RWLock τ) : Signals s (cls.onDowngrade s) := by
  unfold onDowngrade
  cases cls.policy with
  | write | read => exact .ite (.notifyAll s .read) (.refl s)
  | readerPhaseFair => exact RWLockReaderPhaseFairMixin.signals_startReaderPhase s
  | fair => exact RWLockFairMixin.signals_startReaderPhase s

/-- The hook of a reader that gives up, in each class. -/
theorem signals_onReaderAbort (cls : LockClass) (s : RWLock τ) (waiterSeq : Option ℕ) :
    Signals s (cls.onReaderAbort s waiterSeq) := by
  cases cls with
  | write | writeReentrantWriter => exact .refl s
  | read | readReentrantWriter => exact .ite (.notify s .write 1) (.refl s)
  | readerPhaseFair | readerPhaseFairReentrantWriter =>
      exact .ite (RWLockReaderPhaseFairMixin.signals_finishOrContinueReaderPhase s) (.refl s)
  | fair | fairReentrantWriter => exact RWLockFairMixin.signals_onReaderAbort s waiterSeq

/-- The hook of a writer that gives up or releases, in each class. -/
theorem signals_onWriterAbort (cls : LockClass) (s : RWLock τ) (waiterSeq : Option ℕ) :
    Signals s (cls.onWriterAbort s waiterSeq) := by
  cases cls with
  | write | writeReentrantWriter =>
      exact .ite (.notify s .write 1) (.ite (.notifyAll s .read) (.refl s))
  | read | readReentrantWriter =>
      exact .ite (.notifyAll s .read) (.ite (.notify s .write 1) (.refl s))
  | readerPhaseFair | readerPhaseFairReentrantWriter =>
      exact .ite (RWLockReaderPhaseFairMixin.signals_startReaderPhase s)
        (.ite (.notify s .write 1) (.refl s))
  | fair | fairReentrantWriter =>
      exact .ite (RWLockFairMixin.signals_startReaderPhase s)
        (.ite (.notify s .write 1) (.refl s))

end LockClass

end Rwlocker

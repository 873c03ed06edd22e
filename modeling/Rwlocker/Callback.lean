/-
# Calls from outside a task

In a callback of the event loop `asyncio.current_task()` is `None`, and `None` is
also the `_writer_id` of a lock nobody owns.  The ownership test of the async
`ReentrantWriter` classes compares the two with `is`, so such a callback passes
it whenever the lock is unowned: `write.release()` then leaves a write count of
`-1`, and `write.downgrade()` records a read hold that nobody acquired.

While some task owns the lock the test does its work: the call raises and changes
nothing.  So runs whose callbacks call only then reach the states that tasks alone
reach (`CallbackReachable.reachable`), where the books hold.
-/

import Rwlocker.Ledger

namespace Rwlocker

open ReadersWriter (Holds)

variable {τ : Type} [DecidableEq τ]

namespace System

variable {cls : LockClass} {c c' : System τ} {k : Option τ} {a : Action τ} {o : Outcome}

/-- A callback makes a write release or a downgrade only while some task owns the
lock. -/
def OwnedCallback (c : System τ) : Action τ → Prop
  | .release none .write | .downgrade none => c.lock.writerId ≠ none
  | _ => True

/-- The states that tasks and such callbacks reach, whatever they call. -/
def CallbackReachable (cls : LockClass) : System τ → Prop :=
  Transition.Reachable (Transition.restrict OwnedCallback (Step .async cls)) Init

/-- A call that fails the ownership test raises and changes nothing, unless the
marker names its caller and the caller is a task. -/
theorem step_not_owner (hc : cls.reentrant = true) (hcall : c.canCall .async k = true)
    (hnone : c.lock.readerOwners.count none = 0) (hk : c.lock.writerId ≠ k)
    (hm : ∀ t, k = some t → c.lock.downgraded ≠ k) :
    c.step .async cls (.release k .write) = some (.raised .permissionDenied, c) := by
  simp only [step, hcall, if_true, release, LockClass.release]
  by_cases hmk : c.lock.downgraded = k
  · cases k with
    | some t => exact absurd hmk (hm t rfl)
    | none =>
        have hun : { c.lock with downgraded := none } = c.lock := by rw [← hmk]
        simp only [hmk, if_true, hun, LockClass.releaseReadCore_spec, hnone,
          LockClass.releaseWriteCore_of_ne hc hk, LockClass.orUnchanged]
  · simp only [if_neg hmk, LockClass.releaseWriteCore_of_ne hc hk, LockClass.orUnchanged]

theorem step_downgrade_not_owner (hc : cls.reentrant = true) (hcall : c.canCall .async k = true)
    (hk : c.lock.writerId ≠ k) :
    c.step .async cls (.downgrade k) = some (.raised .permissionDenied, c) := by
  simp only [step, hcall, if_true, downgrade, LockClass.downgrade,
    LockClass.downgradeCore_of_ne hc hk]

/-- **A callback that keeps the condition changes nothing.** -/
theorem step_callback (hc : cls.reentrant = true) (hb : Books cls c.lock)
    (ha : a.caller = none) (hP : OwnedCallback c a) (hst : Step .async cls c a c') : c' = c := by
  obtain ⟨o, hst⟩ := hst
  cases a with
  | acquire | resume | interrupt | clear => cases ha
  | release k m =>
      obtain rfl : k = none := ha
      cases m with
      | read =>
          simp [step, canCall, release, LockClass.release, LockClass.releaseReadCore_spec,
            hb.noneReads, LockClass.orUnchanged] at hst
          exact hst.2.symm
      | write =>
          rw [step_not_owner hc rfl hb.noneReads hP (by simp)] at hst
          cases hst
          rfl
  | downgrade k =>
      obtain rfl : k = none := ha
      rw [step_downgrade_not_owner hc rfl hP] at hst
      cases hst
      rfl

/-- Runs with such callbacks reach what tasks alone reach. -/
theorem CallbackReachable.reachable (hc : cls.reentrant = true) (h : CallbackReachable cls c) :
    Reachable .async cls c := by
  refine Transition.Reachable.invariant (I := Reachable .async cls) (fun _ => .start) ?_ h
  rintro c a c' h ⟨hP, hst⟩
  by_cases ha : a.caller = none
  · rwa [step_callback hc h.wellFormed.books ha hP hst]
  · exact h.tail ⟨ha, hst⟩

/-- A write release by a callback of an unowned lock succeeds. -/
theorem step_release_unowned (hc : cls.reentrant = true) (hb : Books cls c.lock)
    (ho : c.lock.writerId = none) :
    ∃ c', c.step .async cls (.release none .write) = some (.released, c') := by
  simp only [step, canCall, decide_true, if_true, release, LockClass.release]
  by_cases hm : c.lock.downgraded = none
  · obtain ⟨s', hs'⟩ :=
      LockClass.releaseWriteCore_unowned hc (s := { c.lock with downgraded := none }) ho
    simp only [if_pos hm, LockClass.releaseReadCore_spec, hb.noneReads, if_true, hs',
      LockClass.orUnchanged]
    exact ⟨_, rfl⟩
  · obtain ⟨s', hs'⟩ := LockClass.releaseWriteCore_unowned hc ho
    simp only [if_neg hm, hs', LockClass.orUnchanged]
    exact ⟨_, rfl⟩

/-- A downgrade by a callback of an unowned lock succeeds. -/
theorem step_downgrade_unowned (hc : cls.reentrant = true) (hb : Books cls c.lock)
    (ho : c.lock.writerId = none) :
    ∃ c', c.step .async cls (.downgrade none) = some (.downgraded, c') := by
  have hz := (hb.reentrant hc).2.2.2.2 ho
  simp [step, canCall, downgrade, LockClass.downgrade, LockClass.downgradeCore_of_reentrant hc,
    RWLockReentrantWriterCoreMixin.downgradeWriter, ho, hz]

/-- A write release by the task the marker names gives back a read hold or clears
the marker. -/
theorem step_release_marked {t : τ} (hm : c.lock.downgraded = some t) (e : RuntimeError) :
    c.step .async cls (.release (some t) .write) ≠ some (.raised e, c) := by
  intro h
  simp only [step] at h
  split_ifs at h
  have h := Option.some.inj h
  simp only [release, LockClass.release, if_pos hm, LockClass.releaseReadCore_spec] at h
  split_ifs at h
  · cases hw : cls.releaseWriteCore { c.lock with downgraded := none } (some t) with
    | ok s =>
        rw [hw] at h
        cases (Prod.mk.inj h).1
    | error e' =>
        rw [hw] at h
        have hlock := congrArg System.lock (Prod.mk.inj h).2
        have := congrArg RWLock.downgraded hlock
        rw [hm] at this
        cases this
  · cases (Prod.mk.inj h).1

/-- **Where the ownership test does its work.**  In a run whose callbacks call only
while some task owns the lock, the write count is never negative and zero
exactly while the lock is unowned, and every recorded read hold was acquired.  In
each state, a write release or downgrade by a context that does not own the lock
raises and changes nothing exactly when it keeps that condition, unless it is
the release of the task that the downgrade marker names. -/
theorem callback_ownership (hc : cls.reentrant = true) (h : CallbackReachable cls c) :
    (∀ k a, (a = .release k .write ∨ a = .downgrade k) → (k = none ∨ c.lock.writerId ≠ k) →
      c.canCall .async k = true →
      ((∃ e, c.step .async cls a = some (.raised e, c)) ↔
        OwnedCallback c a ∧ ∀ t, a = .release (some t) .write → c.lock.downgraded ≠ some t)) ∧
    0 ≤ c.lock.writeCount ∧ (c.lock.writeCount = 0 ↔ c.lock.writerId = none) ∧
    ∀ k, c.lock.readerOwners.count k = c.holds.reads k := by
  have hr := h.reachable hc
  have hb := hr.wellFormed.books
  obtain ⟨-, -, hnn, hz⟩ := hb.reentrant hc
  refine ⟨fun k a ha hk hcall => ?_, hnn, hz, (hr.ledger hc).reads⟩
  rcases ha with rfl | rfl
  · cases k with
    | none =>
        refine ⟨fun ⟨e, he⟩ => ⟨fun ho => ?_, nofun⟩, fun hP => ?_⟩
        · obtain ⟨c', hc'⟩ := step_release_unowned hc hb ho
          rw [hc'] at he
          cases he
        · exact ⟨_, step_not_owner hc hcall hb.noneReads hP.1 nofun⟩
    | some t =>
        have hk := hk.resolve_left (by simp)
        refine ⟨fun ⟨e, he⟩ => ⟨trivial, fun u hu hm => ?_⟩, fun hP => ?_⟩
        · cases hu
          exact step_release_marked hm e he
        · refine ⟨_, step_not_owner hc hcall hb.noneReads hk fun u hu => ?_⟩
          exact hP.2 t rfl
  · cases k with
    | none =>
        refine ⟨fun ⟨e, he⟩ => ⟨fun ho => ?_, nofun⟩, fun hP => ?_⟩
        · obtain ⟨c', hc'⟩ := step_downgrade_unowned hc hb ho
          rw [hc'] at he
          cases he
        · exact ⟨_, step_downgrade_not_owner hc hcall hP.1⟩
    | some t =>
        exact ⟨fun _ => ⟨trivial, nofun⟩,
          fun _ => ⟨_, step_downgrade_not_owner hc hcall (hk.resolve_left (by simp))⟩⟩

/-- A callback calls `write.release()` while task `0` owns the lock. -/
theorem callback_ownership_owned : ∃ c : System ℕ, c.lock.writerId = some 0 ∧
    (∃ e, c.step .async .fairReentrantWriter (.release none .write) = some (.raised e, c)) ∧
    0 ≤ c.lock.writeCount ∧ (c.lock.writeCount = 0 ↔ c.lock.writerId = none) ∧
    ∀ k, c.lock.readerOwners.count k = c.holds.reads k := by
  obtain ⟨c, hst⟩ : ∃ c : System ℕ, ({} : System ℕ).step .async .fairReentrantWriter
      (.acquire 0 .write .forever false) = some (.acquired .write, c) := ⟨_, rfl⟩
  have hid : c.lock.writerId = some 0 := by
    cases hst
    rfl
  have hP : OwnedCallback ({} : System ℕ) (.acquire 0 .write .forever false) := trivial
  have hreach : CallbackReachable .fairReentrantWriter c :=
    Transition.Reachable.tail (.start rfl) ⟨hP, _, hst⟩
  obtain ⟨h₁, h₂⟩ := callback_ownership rfl hreach
  refine ⟨c, hid, (h₁ none _ (.inl rfl) (.inl rfl) rfl).2 ⟨?_, nofun⟩, h₂⟩
  simp [OwnedCallback, hid]

/-- A callback releases a fresh lock, and the write count is `-1`; another downgrades
one, and a read hold appears that nobody acquired. -/
theorem callback_corrupts_unowned :
    (∃ c : System ℕ, ({} : System ℕ).step .async .writeReentrantWriter (.release none .write) =
        some (.released, c) ∧ c.lock.writerId = none ∧ c.lock.writeCount = -1) ∧
      ∃ c : System ℕ, ({} : System ℕ).step .async .writeReentrantWriter (.downgrade none) =
        some (.downgraded, c) ∧ c.lock.readerOwners.count none = 1 ∧ c.holds.reads none = 0 :=
  ⟨⟨_, rfl, rfl, rfl⟩, ⟨_, rfl, rfl, rfl⟩⟩

end System

end Rwlocker

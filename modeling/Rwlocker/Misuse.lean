/-
# Misuse

What a call that is not allowed does: which calls raise, on which states exactly, and
what they leave behind.

A read release, a downgrade and a request to upgrade are told from the holds of the
caller, on every run in which `write.release()` is called by holders only; read releases
may come from anybody, for a stray one raises and changes nothing
(`WriteHolderReachable.holderReachable`).  Each raises exactly where it should, and a
call that raised or was refused leaves the lock as it was (`misuse_detected`).

A stray `write.release()` is told from the write owner and the downgrade marker.  The
marker outlives the downgrade it stands for when the read hold goes back through `.read`;
a read hold acquired after that is then given back by a write release
(`stray_release_iff`, `stray_release_stale_marker`).
-/

import Rwlocker.Ownership

namespace Rwlocker

variable {τ : Type} [DecidableEq τ]

namespace System

variable {rt : Runtime} {cls : LockClass} {c c' : System τ} {t : τ} {m : Mode} {a : Action τ}
  {o : Outcome} {e : RuntimeError}

/-! ### Stray read releases -/

/-- A write release is made by a caller that holds what it releases. -/
def WriteByHolder (c : System τ) : Action τ → Prop
  | .release k .write => Holding c.holds k
  | _ => True

instance (c : System τ) : (a : Action τ) → Decidable (WriteByHolder c a)
  | .release k .write => inferInstanceAs (Decidable (Holding c.holds k))
  | .release _ .read | .acquire _ _ _ _ | .resume _ _ | .interrupt _ | .clear _ | .downgrade _ =>
      isTrue trivial

/-- The states that threads or tasks can reach when `write.release()` is called by
holders only. -/
def WriteHolderReachable (rt : Runtime) (cls : LockClass) : System τ → Prop :=
  Transition.Reachable
    (Transition.restrict (fun c a => InTask c a ∧ WriteByHolder c a) (Step rt cls)) Init

/-- A read release by a caller that reads nothing leaves everything as it is. -/
theorem HolderReachable.stray_read (h : HolderReachable rt cls c)
    (hst : c.step rt cls (.release (some t) .read) = some (o, c'))
    (hr : c.holds.reads (some t) = 0) : c' = c := by
  have hcount := (h.ledger.reads (some t)).trans hr
  cases step_deed h.reachable.wellFormed hst rfl with
  | leaves _ hpos => omega
  | leaveRaises => rfl

/-- **Stray read releases do not matter**: what is reached with them is reached
without. -/
theorem WriteHolderReachable.holderReachable (h : WriteHolderReachable rt cls c) :
    HolderReachable rt cls c := by
  refine Transition.Reachable.invariant (fun s hs => .start hs) (fun s a s' hs hst => ?_) h
  obtain ⟨⟨htask, hby⟩, o, hst⟩ := hst
  by_cases hread : ByHolder s a
  · exact hs.step hst htask hread
  · cases a with
    | release k m =>
        cases m with
        | read =>
            obtain ⟨t, rfl⟩ := Option.ne_none_iff_exists'.1 (show k ≠ none from htask)
            rw [hs.stray_read hst (Nat.eq_zero_of_not_pos hread)]
            exact hs
        | write => exact absurd hby hread
    | acquire | resume | interrupt | clear | downgrade => exact absurd trivial hread

/-! ### Calls that raise -/

/-- The call `a` raises `e`. -/
def Raises (rt : Runtime) (cls : LockClass) (c : System τ) (a : Action τ) (e : RuntimeError) :
    Prop :=
  ∃ c', c.step rt cls a = some (.raised e, c')

/-- The outcomes that leave no trace: a read release, a downgrade or a write acquire that
raised, and a non-blocking acquire that was refused. -/
inductive Rebuffed (t : τ) : Action τ → Outcome → Prop
  | release (e : RuntimeError) : Rebuffed t (.release (some t) .read) (.raised e)
  | downgrade (e : RuntimeError) : Rebuffed t (.downgrade (some t)) (.raised e)
  | acquire (p : Patience) (expired : Bool) (e : RuntimeError) :
      Rebuffed t (.acquire t .write p expired) (.raised e)
  | nonblocking (m : Mode) (expired : Bool) :
      Rebuffed t (.acquire t m .nonblocking expired) .refused

/-- A call of a caller that is free is a deed. -/
theorem Reachable.release_deed (h : Reachable rt cls c) (hpc : c.pc t = .idle) (m : Mode) :
    ∃ o c', c.step rt cls (.release (some t) m) = some (o, c') ∧
      Deed rt cls c t (.release (some t) m) o c' := by
  have hst : c.step rt cls (.release (some t) m) = some (c.release cls (some t) m) :=
    if_pos (by simp [canCall, hpc])
  exact ⟨_, _, hst, step_deed h.wellFormed hst rfl⟩

theorem Reachable.downgrade_deed (h : Reachable rt cls c) (hpc : c.pc t = .idle) :
    ∃ o c', c.step rt cls (.downgrade (some t)) = some (o, c') ∧
      Deed rt cls c t (.downgrade (some t)) o c' := by
  have hst : c.step rt cls (.downgrade (some t)) = some (c.downgrade cls (some t)) :=
    if_pos (by simp [canCall, hpc])
  exact ⟨_, _, hst, step_deed h.wellFormed hst rfl⟩

/-- A read release raises for a caller that reads nothing, and for no other. -/
theorem HolderReachable.release_read_raises (h : HolderReachable rt cls c)
    (hpc : c.pc t = .idle) :
    Raises rt cls c (.release (some t) .read) e ↔
      e = .readNotHeld ∧ c.holds.reads (some t) = 0 := by
  have hcount := h.ledger.reads (some t)
  obtain ⟨o, c', hst, hdeed⟩ := h.reachable.release_deed hpc .read
  unfold Raises
  rw [hst]
  cases hdeed with
  | leaves _ hpos => simp [show c.holds.reads (some t) ≠ 0 by omega]
  | leaveRaises _ hz => simp [show c.holds.reads (some t) = 0 by omega, eq_comm]

/-- The owner holds the write lock, and nobody else does. -/
theorem HolderReachable.owner_iff_writes (h : HolderReachable rt cls c) :
    cls.owner c.lock = some t ↔ 0 < c.holds.writes (some t) :=
  ⟨h.ledger.writes_pos h.books, h.ledger.owner_of_writes⟩

/-- A downgrade goes through for a caller that holds the write lock exactly once. -/
theorem HolderReachable.downgrade_raises (h : HolderReachable rt cls c)
    (hpc : c.pc t = .idle) :
    Raises rt cls c (.downgrade (some t)) e ↔
      e = cls.downgradeError c.lock (some t) ∧
        (c.holds.writes (some t) = 0 ∨ 1 < c.holds.writes (some t)) := by
  have hwrites := h.ledger.writes t
  obtain ⟨o, c', hst, hdeed⟩ := h.reachable.downgrade_deed hpc
  unfold Raises
  rw [hst]
  cases hdeed with
  | downgrades _ ho hd =>
      rw [if_pos ho] at hwrites
      simp [show c.holds.writes (some t) = 1 by omega]
  | downgradeRaises _ hno =>
      have hne : c.holds.writes (some t) ≠ 1 := fun h₁ => by
        have ho := h.owner_iff_writes.2 (show 0 < c.holds.writes (some t) by omega)
        rw [if_pos ho] at hwrites
        exact hno ⟨ho, by omega⟩
      have hor : c.holds.writes (some t) = 0 ∨ 1 < c.holds.writes (some t) := by omega
      constructor
      · rintro ⟨c', hc'⟩
        cases hc'
        exact ⟨rfl, hor⟩
      · rintro ⟨rfl, -⟩
        exact ⟨c, rfl⟩

/-- A write acquire raises for a reader that does not own the write lock, and for no
other caller. -/
theorem HolderReachable.upgrade_raises (h : HolderReachable rt cls c) (hpc : c.pc t = .idle)
    {p : Patience} (hp : rt = .async → p ≠ .timed) (expired : Bool) :
    Raises rt cls c (.acquire t .write p expired) e ↔
      e = .upgrade ∧ 0 < c.holds.reads (some t) ∧ c.holds.writes (some t) = 0 := by
  have hcount := h.ledger.reads (some t)
  constructor
  · rintro ⟨c', hst⟩
    cases step_deed h.reachable.wellFormed hst rfl with
    | rejected _ hno =>
        simp only [LockClass.beforeAcquire, LockClass.checkWriteAcquireAllowed] at hno
        split_ifs at hno with hcheck
        simp only [RWLock.isCurrentReader, Bool.and_eq_true, decide_eq_true_eq,
          Bool.not_eq_true', Bool.eq_false_iff, ne_eq, LockClass.isCurrentWriter_iff] at hcheck
        obtain ⟨⟨-, hread⟩, hown⟩ := hcheck
        exact ⟨(Except.error.inj hno).symm, by omega, h.ledger.writes_eq_zero hown⟩
    | waits _ _ _ _ hloop => cases hloop
  · rintro ⟨rfl, hread, hz⟩
    have hown : HasHold cls c t := .inl (by omega)
    rcases (own_hold_never_waits h.reachable hpc hown p hp expired).2 with ⟨ho, -⟩ | ⟨-, hst⟩
    · have := h.owner_iff_writes.1 ho
      omega
    · exact ⟨c, hst⟩

/-- A call that was rebuffed leaves everything as it was. -/
theorem Reachable.rebuffed (h : Reachable rt cls c) (hno : Rebuffed t a o)
    (hst : c.step rt cls a = some (o, c')) : c' = c := by
  cases hno with
  | release e => cases step_deed h.wellFormed hst rfl; rfl
  | downgrade e => cases step_deed h.wellFormed hst rfl; rfl
  | acquire p expired e =>
      cases step_deed h.wellFormed hst rfl with
      | rejected => rfl
      | waits _ _ _ _ hloop => cases hloop
  | nonblocking m expired =>
      cases step_deed h.wellFormed hst rfl with
      | refused => rfl
      | waits _ hp => exact absurd rfl hp

/-- **Misuse is detected exactly, and leaves no trace.**  Of the callers that are free to
call, those raise that have no business to, and nothing has changed when a call was
rebuffed. -/
theorem misuse_detected (h : WriteHolderReachable rt cls c) (hpc : c.pc t = .idle) :
    (cls.owner c.lock = some t ↔ 0 < c.holds.writes (some t)) ∧
    ((∃ e, Raises rt cls c (.release (some t) .read) e) ↔ c.holds.reads (some t) = 0) ∧
    ((∃ e, Raises rt cls c (.downgrade (some t)) e) ↔
      c.holds.writes (some t) = 0 ∨ 1 < c.holds.writes (some t)) ∧
    (∀ p expired, (rt = .async → p ≠ .timed) → ∀ e,
      (Raises rt cls c (.acquire t .write p expired) e ↔
        e = .upgrade ∧ 0 < c.holds.reads (some t) ∧ c.holds.writes (some t) = 0)) ∧
    ∀ a o c', Rebuffed t a o → c.step rt cls a = some (o, c') → c' = c := by
  have hh := h.holderReachable
  refine ⟨hh.owner_iff_writes, ?_, ?_, fun p expired hp e => ?_, fun a o c' hno hst => ?_⟩
  · simp only [hh.release_read_raises hpc, exists_eq_left]
  · simp only [hh.downgrade_raises hpc, exists_eq_left]
  · exact hh.upgrade_raises hpc hp expired
  · exact hh.reachable.rebuffed hno hst

/-- Thread `0` has read, downgraded and given one of the two read holds back, after a
stray read release by thread `1`: it is told that it cannot upgrade. -/
theorem misuse_detected_reader : ∃ c : System ℕ,
    WriteHolderReachable .thread .fairReentrantWriter c ∧ c.holds.reads (some 0) = 1 ∧
      (LockClass.fairReentrantWriter.owner c.lock = some 0 ↔ 0 < c.holds.writes (some 0)) ∧
      ((∃ e, Raises .thread .fairReentrantWriter c (.release (some 0) .read) e) ↔
        c.holds.reads (some 0) = 0) ∧
      ((∃ e, Raises .thread .fairReentrantWriter c (.downgrade (some 0)) e) ↔
        c.holds.writes (some 0) = 0 ∨ 1 < c.holds.writes (some 0)) ∧
      (∀ p expired, (Runtime.thread = .async → p ≠ .timed) → ∀ e,
        (Raises .thread .fairReentrantWriter c (.acquire 0 .write p expired) e ↔
          e = .upgrade ∧ 0 < c.holds.reads (some 0) ∧ c.holds.writes (some 0) = 0)) ∧
      ∀ a o c', Rebuffed 0 a o → c.step .thread .fairReentrantWriter a = some (o, c') →
        c' = c := by
  have hrun : ((Transition.replay
      (next (fun c a => InTask c a ∧ WriteByHolder c a) .thread .fairReentrantWriter)
      ({} : System ℕ)
      [.acquire 0 .write .forever false, .clear 0, .acquire 0 .read .forever false,
        .downgrade (some 0), .release (some 1) .read, .release (some 0) .write]).map fun c =>
        (c.holds.reads (some 0), c.pc 0)) = some (1, .idle) := by
    decide
  obtain ⟨c, hc, hval⟩ := Option.map_eq_some_iff.1 hrun
  simp only [Prod.mk.injEq] at hval
  obtain ⟨hr, hpc⟩ := hval
  have hreach : WriteHolderReachable .thread .fairReentrantWriter c :=
    ⟨_, _, rfl, run_of_replay hc⟩
  exact ⟨c, hreach, hr, misuse_detected hreach hpc⟩

/-! ### Stray write releases -/

/-- Who owns and who reads the lock, what everybody holds, and where the phase stands. -/
structure KeepsHolds (cls : LockClass) (c c' : System τ) : Prop where
  owner : cls.owner c'.lock = cls.owner c.lock
  depth : cls.depth c'.lock = cls.depth c.lock
  readersActive : c'.lock.readersActive = c.lock.readersActive
  readerOwners : c'.lock.readerOwners = c.lock.readerOwners
  holds : c'.holds = c.holds
  readersTurn : c'.lock.readersTurn = c.lock.readersTurn
  readerPhaseCutoff : c'.lock.readerPhaseCutoff = c.lock.readerPhaseCutoff
  readerPhasePending : c'.lock.readerPhasePending = c.lock.readerPhasePending

/-- `write.release()` by `k` raises and takes nothing from anybody. -/
def StrayRefused (rt : Runtime) (cls : LockClass) (c : System τ) (k : Option τ) : Prop :=
  ∃ e c', c.step rt cls (.release k .write) = some (.raised e, c') ∧ KeepsHolds cls c c'

/-- No downgrade of `t` is outstanding: `t` has been without a read hold since the last
one, if there was one. -/
def NoneOutstanding (rt : Runtime) (cls : LockClass) (c : System τ) (t : τ) : Prop :=
  ∃ c₁ as, Reachable rt cls c₁ ∧ c₁.lock.readerOwners.count (some t) = 0 ∧
    Transition.Run (Transition.restrict InTask (Step rt cls)) c₁ as c ∧
    .downgrade (some t) ∉ as

omit [DecidableEq τ] in
theorem KeepsHolds.marker (cls : LockClass) (c : System τ) (k : Option τ) :
    KeepsHolds cls c { c with lock := { c.lock with downgraded := k } } :=
  ⟨rfl, rfl, rfl, rfl, rfl, rfl, rfl, rfl⟩

/-- A release is as loud as the lock's. -/
theorem step_release_raises {k : Option τ} (hcall : c.canCall rt k = true) {s : RWLock τ}
    (hrel : cls.release c.lock k m = (.error e, s)) :
    c.step rt cls (.release k m) = some (.raised e, { c with lock := s }) := by
  simp [step, hcall, release, hrel]

theorem step_release_ok {k : Option τ} (hcall : c.canCall rt k = true) {s : RWLock τ}
    (hrel : cls.release c.lock k m = (.ok (), s)) :
    ∃ c', c.step rt cls (.release k m) = some (.released, c') := by
  simp [step, hcall, release, hrel]

/-- **When a stray write release is refused.**  Let `k` be a thread, a task or a callback
that does not own the write lock of a reentrant class, in any state.  Its `write.release()`
raises and takes nothing from anybody unless the downgrade marker names `k` and `k` is
recorded as a reader; or `k` is a callback, and nobody owns the lock. -/
theorem stray_release_iff (hc : cls.reentrant = true) {k : Option τ}
    (hcall : c.canCall rt k = true) (hk : cls.owner c.lock = k → k = none) :
    StrayRefused rt cls c k ↔
      ¬ (c.lock.downgraded = k ∧ 0 < c.lock.readerOwners.count k) ∧
        ¬ (k = none ∧ cls.owner c.lock = none) := by
  have hquiet : ∀ s, cls.release c.lock k .write = (.ok (), s) →
      ¬ StrayRefused rt cls c k := by
    rintro s hrel ⟨e, c', hst, -⟩
    obtain ⟨c'', hst'⟩ := step_release_ok hcall hrel
    rw [hst'] at hst
    cases hst
  -- the release that the marker routes to the read core
  by_cases hrouted : c.lock.downgraded = k ∧ 0 < c.lock.readerOwners.count k
  · have hne : c.lock.readerOwners.count k ≠ 0 := by omega
    refine iff_of_false (hquiet (cls.onReaderLeave
      (RWLock.dropReader { c.lock with downgraded := none } k)) ?_) fun h => h.1 hrouted
    simp [LockClass.release, hrouted.1, LockClass.releaseReadCore_spec, hne]
  -- every other release comes to the write core, with the marker kept or cleared
  obtain ⟨marker, hcore⟩ : ∃ marker, cls.release c.lock k .write =
      LockClass.orUnchanged { c.lock with downgraded := marker }
        (cls.releaseWriteCore { c.lock with downgraded := marker } k) := by
    by_cases hm : c.lock.downgraded = k
    · have hz : c.lock.readerOwners.count k = 0 := by
        by_contra hne
        exact hrouted ⟨hm, by omega⟩
      exact ⟨none, by simp [LockClass.release, hm, LockClass.releaseReadCore_spec, hz]⟩
    · exact ⟨c.lock.downgraded, by simp [LockClass.release, hm]⟩
  by_cases hfree : k = none ∧ cls.owner c.lock = none
  · obtain ⟨rfl, ho⟩ := hfree
    have hid : c.lock.writerId = none := (LockClass.owner_of_reentrant hc c.lock).symm.trans ho
    obtain ⟨s', hs'⟩ :=
      LockClass.releaseWriteCore_unowned hc (s := { c.lock with downgraded := marker }) hid
    exact iff_of_false (hquiet s' (by rw [hcore, hs']; rfl)) fun h => h.2 ⟨rfl, ho⟩
  · have hne : cls.owner { c.lock with downgraded := marker } ≠ k := fun ho =>
      hfree ⟨hk ho, (show cls.owner c.lock = k from ho).trans (hk ho)⟩
    have hrel : cls.release c.lock k .write =
        (.error .permissionDenied, { c.lock with downgraded := marker }) := by
      rw [LockClass.owner_of_reentrant hc] at hne
      rw [hcore, LockClass.releaseWriteCore_of_ne hc hne]
      rfl
    exact iff_of_true ⟨_, _, step_release_raises hcall hrel, .marker cls c marker⟩
      ⟨hrouted, hfree⟩

/-- Thread `1` reads a lock that thread `0` downgraded and has given back through
`.write`: its stray write release is refused. -/
theorem stray_release_iff_bystander : ∃ c : System ℕ,
    Reachable .thread .fairReentrantWriter c ∧ c.lock.readerOwners.count (some 1) = 1 ∧
      (StrayRefused .thread .fairReentrantWriter c (some 1) ↔
        ¬ (c.lock.downgraded = some 1 ∧ 0 < c.lock.readerOwners.count (some 1)) ∧
          ¬ (some 1 = none ∧ LockClass.fairReentrantWriter.owner c.lock = none)) := by
  have hrun : ((Transition.replay (next InTask .thread .fairReentrantWriter) ({} : System ℕ)
      [.acquire 0 .write .forever false, .clear 0, .downgrade (some 0),
        .acquire 1 .read .forever false, .release (some 0) .write]).map fun c =>
        (LockClass.fairReentrantWriter.owner c.lock, c.lock.readerOwners.count (some 1),
          c.pc 1)) = some (none, 1, .idle) := by
    decide
  obtain ⟨c, hc, hval⟩ := Option.map_eq_some_iff.1 hrun
  simp only [Prod.mk.injEq] at hval
  obtain ⟨ho, hr, hpc⟩ := hval
  exact ⟨c, ⟨_, _, rfl, run_of_replay hc⟩, hr,
    stray_release_iff rfl (by simp [canCall, hpc]) (by simp [ho])⟩

/-- Thread `0` downgrades, gives the read hold back through `.read` and reads again.  Its
write release then returns, and it reads no more. -/
theorem stray_release_stale_marker : ∃ c c' : System ℕ,
    NoneOutstanding .thread .fairReentrantWriter c 0 ∧
      LockClass.fairReentrantWriter.owner c.lock = none ∧ c.pc 0 = .idle ∧
      c.step .thread .fairReentrantWriter (.release (some 0) .write) = some (.released, c') ∧
      c.lock.readerOwners.count (some 0) = 1 ∧ c'.lock.readerOwners.count (some 0) = 0 ∧
      ¬ StrayRefused .thread .fairReentrantWriter c (some 0) := by
  have hrun : ((Transition.replay (next InTask .thread .fairReentrantWriter) ({} : System ℕ)
      [.acquire 0 .write .forever false, .clear 0, .downgrade (some 0),
        .release (some 0) .read]).bind fun c₁ =>
      (Transition.replay (next InTask .thread .fairReentrantWriter) c₁
        [.acquire 0 .read .forever false]).bind fun c =>
          (c.step .thread .fairReentrantWriter (.release (some 0) .write)).map fun r =>
            (c₁.lock.readerOwners.count (some 0), LockClass.fairReentrantWriter.owner c.lock,
              c.pc 0, c.lock.readerOwners.count (some 0), r.1,
              r.2.lock.readerOwners.count (some 0))) =
      some (0, none, .idle, 1, .released, 0) := by
    decide
  obtain ⟨c₁, h₁, hrun⟩ := Option.bind_eq_some_iff.1 hrun
  obtain ⟨c, h₂, hrun⟩ := Option.bind_eq_some_iff.1 hrun
  obtain ⟨⟨o, c'⟩, hst, hval⟩ := Option.map_eq_some_iff.1 hrun
  simp only [Prod.mk.injEq] at hval
  obtain ⟨hz, ho, hpc, hr, rfl, hr'⟩ := hval
  refine ⟨c, c', ⟨c₁, _, ⟨_, _, rfl, run_of_replay h₁⟩, hz, run_of_replay h₂, by simp⟩, ho, hpc,
    hst, hr, hr', ?_⟩
  rintro ⟨e, c'', hst', -⟩
  rw [hst] at hst'
  cases hst'

end System

end Rwlocker

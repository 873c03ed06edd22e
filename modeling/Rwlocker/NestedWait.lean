/-
# The nested-wait check

`wait()` rejects a caller that holds the lock more than once.  `_get_owned_lock_depth`
counts its acquisitions from attributes that a lock may lack (`LockView`): the lock
classes record their readers and their writer, the adapter `Lock` around a standard lock
records nothing.

What is to be counted are the acquisitions of a run that nobody has given back
(`settle`, `Adapter.next`).  For the lock classes the count is right.  The adapter has one
lock on both its sides, and a single acquisition is counted on each of them
(`nested_wait_exact`, `nested_wait_adapter`).
-/

import Rwlocker.Condition
import Rwlocker.Deed

namespace Rwlocker

variable {τ : Type} [DecidableEq τ]

/-! ### What the check reads -/

/-- What `_RWConditionMixin` reads of a lock in the current context; `none` is an attribute
that the lock does not have. -/
structure LockView where
  /-- `_reader_owners.get(_current_reader_owner(), 0)`. -/
  readerCount : Option ℕ
  isCurrentReader : Option Bool
  isCurrentWriter : Option Bool
  writeCount : Option ℤ
  isReadLocked : Bool
  isWriteLocked : Bool

namespace LockView

/-- `_is_owned_read` and `_is_owned_write`. -/
def isOwned (v : LockView) : Mode → Bool
  | .read => v.isCurrentReader.getD v.isReadLocked
  | .write => v.isCurrentWriter.getD v.isWriteLocked

/-- `_get_owned_lock_depth`. -/
def ownedLockDepth (v : LockView) : ℤ :=
  let readDepth : ℤ :=
    match v.readerCount with
    | some count => count
    | none => if v.isOwned .read then 1 else 0
  let writeDepth : ℤ :=
    match v.isCurrentWriter with
    | some true => v.writeCount.getD 1
    | some false => 0
    | none => if v.isOwned .write then 1 else 0
  readDepth + writeDepth

/-- The two checks of `wait`. -/
def checkWait (v : LockView) (m : Mode) : Except RuntimeError Unit :=
  if v.isOwned m = false then .error .waitUnacquired
  else if v.ownedLockDepth ≠ 1 then .error .waitNested
  else .ok ()

/-- For a caller with `n` acquisitions outstanding the check counts exactly.  With more
than one, `wait` is rejected on either side, as nested on a side that the caller owns. -/
structure Exact (v : LockView) (n : ℕ) : Prop where
  depth : v.ownedLockDepth = n
  single : n = 1 → ∀ m, v.checkWait m ≠ .error .waitNested
  nested : 1 < n → ∀ m,
    v.checkWait m = .error (if v.isOwned m then .waitNested else .waitUnacquired)

/-- All of it follows from the depth. -/
theorem exact_of_depth {v : LockView} {n : ℕ} (h : v.ownedLockDepth = n) : v.Exact n where
  depth := h
  single hn m := by
    unfold checkWait
    rw [if_neg (show ¬ v.ownedLockDepth ≠ 1 by omega)]
    split_ifs <;> simp
  nested hn m := by
    unfold checkWait
    rw [if_pos (show v.ownedLockDepth ≠ 1 by omega)]
    cases v.isOwned m <;> rfl

end LockView

/-- `_is_read_locked` of the lock classes. -/
def RWLock.isReadLocked (s : RWLock τ) : Bool := decide (0 < s.readersActive)

namespace LockClass

/-- What the mixin reads of a lock class, called by `me`. -/
def view (cls : LockClass) (s : RWLock τ) (me : Option τ) : LockView where
  readerCount := some (s.readerOwners.count me)
  isCurrentReader := some (s.isCurrentReader me)
  isCurrentWriter := some (cls.isCurrentWriter s me)
  writeCount := if cls.reentrant then some s.writeCount else none
  isReadLocked := s.isReadLocked
  isWriteLocked := cls.isWriteLocked s

theorem isOwned_view (cls : LockClass) (s : RWLock τ) (me : Option τ) (m : Mode) :
    (cls.view s me).isOwned m = cls.isOwned s me m := by
  cases m <;> rfl

theorem ownedLockDepth_view (cls : LockClass) (s : RWLock τ) (me : Option τ) :
    (cls.view s me).ownedLockDepth = cls.ownedLockDepth s me := by
  unfold LockView.ownedLockDepth LockClass.ownedLockDepth
  cases hw : cls.isCurrentWriter s me <;> cases hc : cls.reentrant <;> simp [view, hw, hc]

/-- The condition's check is that of the mixin, on a lock that has all the attributes. -/
theorem checkWait_view (cls : LockClass) (s : RWLock τ) (me : Option τ) (m : Mode) :
    (cls.view s me).checkWait m = cls.checkWait s me m := by
  simp only [LockView.checkWait, LockClass.checkWait, isOwned_view, ownedLockDepth_view]

end LockClass

/-! ### What is outstanding -/

/-- How many of the outstanding acquisitions are `t`'s. -/
def outstanding (out : List (τ × Mode)) (t : τ) : ℕ := out.countP fun e => decide (e.1 = t)

/-- A write release ends the write acquisition there is, whoever made it; if there is none,
a read acquisition of the caller, which has downgraded. -/
def endWrite (out : List (τ × Mode)) (t : τ) : List (τ × Mode) :=
  match out.find? fun e => decide (e.2 = .write) with
  | some e => out.erase e
  | none => out.erase (t, .read)

/-- The outstanding acquisitions after a step of a thread that came out as `o`. -/
def settle (out : List (τ × Mode)) (t : τ) : Action τ → Outcome → List (τ × Mode)
  | _, .acquired m => (t, m) :: out
  | .release _ .read, .released => out.erase (t, .read)
  | .release _ .write, .released => endWrite out t
  | _, .downgraded => (t, .read) :: out.erase (t, .write)
  | _, _ => out

/-- A step of a lock class by a thread or task, together with what is outstanding. -/
def trackedNext (rt : Runtime) (cls : LockClass) (c : System τ × List (τ × Mode))
    (a : Action τ) : Option (System τ × List (τ × Mode)) :=
  a.caller.bind fun t => (c.1.step rt cls a).map fun r => (r.2, settle c.2 t a r.1)

/-- The states that threads or tasks can reach, whatever they call. -/
def TrackedReachable (rt : Runtime) (cls : LockClass) : System τ × List (τ × Mode) → Prop :=
  Transition.Reachable (fun c a c' => trackedNext rt cls c a = some c') fun c => c = ({}, [])

theorem trackedNext_eq_some {rt : Runtime} {cls : LockClass} {c c' : System τ × List (τ × Mode)}
    {a : Action τ} (h : trackedNext rt cls c a = some c') :
    ∃ t o, a.caller = some t ∧ c.1.step rt cls a = some (o, c'.1) ∧ c'.2 = settle c.2 t a o := by
  obtain ⟨t, ht, h⟩ := Option.bind_eq_some_iff.1 h
  obtain ⟨⟨o, s⟩, hst, rfl⟩ := Option.map_eq_some_iff.1 h
  exact ⟨t, o, ht, hst, rfl⟩

theorem outstanding_eq (out : List (τ × Mode)) (t : τ) :
    outstanding out t = out.count (t, .read) + out.count (t, .write) := by
  induction out with
  | nil => rfl
  | cons e out ih =>
      obtain ⟨u, m⟩ := e
      simp only [outstanding, List.countP_cons, List.count_cons, beq_iff_eq, Prod.mk.injEq,
        decide_eq_true_eq] at ih ⊢
      cases m <;> by_cases hut : u = t <;> simp [hut] <;> omega

/-- The records of a lock agree with what is outstanding. -/
structure Accounts (cls : LockClass) (s : RWLock τ) (out : List (τ × Mode)) : Prop where
  reads : ∀ t, out.count (t, .read) = s.readerOwners.count (some t)
  writes : ∀ t, (out.count (t, .write) : ℤ) = if cls.owner s = some t then cls.depth s else 0

namespace Accounts

variable {cls : LockClass} {s s' : RWLock τ} {out : List (τ × Mode)} {t u : τ}

theorem init (cls : LockClass) : Accounts cls ({} : RWLock τ) [] where
  reads _ := rfl
  writes t := by simp [LockClass.owner]

theorem congr (h : Accounts cls s out) (hreads : s'.readerOwners = s.readerOwners)
    (ho : cls.owner s' = cls.owner s) (hd : cls.depth s' = cls.depth s) :
    Accounts cls s' out where
  reads t := hreads ▸ h.reads t
  writes t := by
    rw [ho, hd]
    exact h.writes t

theorem signals (h : Accounts cls s out) (hs : RWLock.Signals s s') : Accounts cls s' out :=
  h.congr hs.readerOwners (hs.owner cls) (hs.depth cls)

theorem unmark (h : Accounts cls s out) (k : Option τ) : Accounts cls (s.unmark k) out := by
  obtain ⟨k', hk⟩ := s.unmark_frame k
  rw [hk]
  exact h.congr rfl rfl rfl

/-- The owner has a write acquisition outstanding, and nobody else has. -/
theorem mem_write_iff (h : Accounts cls s out) (hb : Books cls s) :
    (t, .write) ∈ out ↔ cls.owner s = some t := by
  have hw := h.writes t
  rw [← List.count_pos_iff]
  by_cases ho : cls.owner s = some t
  · have := hb.depth_pos (by simp [ho])
    rw [if_pos ho] at hw
    exact iff_of_true (by omega) ho
  · rw [if_neg ho] at hw
    exact iff_of_false (by omega) ho

theorem enterReader (h : Accounts cls s out) (t : τ) :
    Accounts cls (s.enterReader (some t)) ((t, .read) :: out) where
  reads u := by
    rw [RWLock.count_enterReader, List.count_cons, h.reads u]
    by_cases hut : u = t
    · simp [hut]
    · simp [hut, Ne.symm hut]
  writes u := by
    rw [LockClass.depth_enterReader, LockClass.owner_enterReader, List.count_cons_of_ne (by simp)]
    exact h.writes u

theorem dropReader (h : Accounts cls s out) (t : τ) :
    Accounts cls (s.dropReader (some t)) (out.erase (t, .read)) where
  reads u := by
    rw [RWLock.count_dropReader]
    by_cases hut : u = t
    · simp [hut, h.reads t]
    · rw [List.count_erase_of_ne (by simp [hut]), if_neg (by simpa using hut), h.reads u]
  writes u := by
    rw [LockClass.depth_dropReader, LockClass.owner_dropReader,
      List.count_erase_of_ne (by simp)]
    exact h.writes u

theorem ownWriter (h : Accounts cls s out) (hb : Books cls s)
    (hadm : cls.AdmitsWriter s ∨ cls.reentrant = true ∧ cls.owner s = some t) :
    Accounts cls (s.ownWriter cls (some t)) ((t, .write) :: out) where
  reads u := by
    obtain ⟨_, _, _, _, hf⟩ := s.ownWriter_frame cls (some t)
    rw [hf, List.count_cons_of_ne (by simp)]
    exact h.reads u
  writes u := by
    have hw := h.writes u
    rw [LockClass.owner_ownWriter, LockClass.depth_ownWriter hb hadm, List.count_cons]
    by_cases hut : u = t
    · subst hut
      rcases hadm with hadm | ⟨-, ho⟩
      · have hz := hb.depth_eq_zero_iff.2 hadm.1
        simp only [hadm.1, if_false, reduceCtorEq] at hw
        simp [hw, hz]
      · simp [ho] at hw
        simp [hw]
    · have hno : cls.owner s ≠ some u := by
        rcases hadm with hadm | ⟨-, ho⟩
        · simp [hadm.1]
        · simpa [ho] using Ne.symm hut
      rw [if_neg hno] at hw
      simp [Ne.symm hut, hw]

/-- The owner's one write acquisition is given back. -/
theorem freeWriter (h : Accounts cls s out) (ho : cls.owner s = some u) (hd : cls.depth s = 1) :
    Accounts cls s.freeWriter (out.erase (u, .write)) where
  reads t := by
    rw [List.count_erase_of_ne (by simp)]
    exact h.reads t
  writes t := by
    have hw := h.writes t
    rw [LockClass.owner_freeWriter, if_neg (by simp)]
    by_cases hut : t = u
    · subst hut
      rw [if_pos ho, hd] at hw
      rw [List.count_erase_self]
      omega
    · rw [if_neg (by simpa [ho] using Ne.symm hut)] at hw
      rw [List.count_erase_of_ne (by simp [hut])]
      exact hw

/-- The owner gives one of several write acquisitions back. -/
theorem countDown (h : Accounts cls s out) (hc : cls.reentrant = true)
    (ho : cls.owner s = some t) (hd : 1 < cls.depth s) :
    Accounts cls { s with writeCount := s.writeCount - 1 } (out.erase (t, .write)) where
  reads u := by
    rw [List.count_erase_of_ne (by simp)]
    exact h.reads u
  writes u := by
    have hown : cls.owner { s with writeCount := s.writeCount - 1 } = cls.owner s := rfl
    have hdepth : cls.depth { s with writeCount := s.writeCount - 1 } = cls.depth s - 1 := by
      simp [LockClass.depth, hc]
    have hw := h.writes u
    rw [hown, hdepth]
    by_cases hut : u = t
    · subst hut
      rw [if_pos ho] at hw ⊢
      rw [List.count_erase_self]
      omega
    · have hno : cls.owner s ≠ some u := by simpa [ho] using Ne.symm hut
      rw [if_neg hno] at hw ⊢
      rw [List.count_erase_of_ne (by simp [hut])]
      exact hw

/-- A write release finds the owner's acquisition. -/
theorem endWrite_owned (h : Accounts cls s out) (hb : Books cls s) (ho : cls.owner s = some u)
    (t : τ) : endWrite out t = out.erase (u, .write) := by
  unfold endWrite
  cases hfind : out.find? fun e => decide (e.2 = .write) with
  | none =>
      have := List.find?_eq_none.1 hfind _ ((h.mem_write_iff hb).2 ho)
      simp at this
  | some e =>
      obtain ⟨v, m⟩ := e
      obtain rfl : m = .write := by simpa using List.find?_some hfind
      have hv := (h.mem_write_iff hb).1 (List.mem_of_find?_eq_some hfind)
      rw [ho] at hv
      cases hv
      rfl

/-- Without an owner it is the caller's read acquisition that ends. -/
theorem endWrite_unowned (h : Accounts cls s out) (hb : Books cls s) (ho : cls.owner s = none)
    (t : τ) : endWrite out t = out.erase (t, .read) := by
  have hnone : out.find? (fun e => decide (e.2 = .write)) = none := by
    refine List.find?_eq_none.2 fun e he => ?_
    obtain ⟨v, m⟩ := e
    simp only [decide_eq_true_eq]
    rintro rfl
    have := (h.mem_write_iff hb).1 he
    simp [ho] at this
  unfold endWrite
  rw [hnone]

end Accounts

theorem settle_of_kept (out : List (τ × Mode)) (t : τ) (a : Action τ)
    {o : Outcome} (ho : ∀ m, o ≠ .acquired m) (hr : o ≠ .released) (hd : o ≠ .downgraded) :
    settle out t a o = out := by
  unfold settle
  split
  · exact absurd rfl (ho _)
  · exact absurd rfl hr
  · exact absurd rfl hr
  · exact absurd rfl hd
  · rfl

theorem settle_acquired (out : List (τ × Mode)) (t : τ) (a : Action τ) (m : Mode) :
    settle out t a (.acquired m) = (t, m) :: out := by
  unfold settle
  split <;> simp_all

section Steps

variable {rt : Runtime} {cls : LockClass} {c c' : System τ} {out : List (τ × Mode)} {t : τ}
  {m : Mode} {seq : ℕ} {timed : Bool} {a : Action τ} {o : Outcome}

/-- An acquisition is recorded. -/
theorem succeed_accounts (rt : Runtime) (hb : Books cls c.lock) (h : Accounts cls c.lock out)
    (hadm : m = .write → cls.AdmitsWriter c.lock ∨
      cls.reentrant = true ∧ cls.owner c.lock = some t)
    (waiting : Bool) (waiterSeq : Option ℕ) {s : RWLock τ}
    (hs : ∃ f, s = (cls.acquireCore m c.lock (some t) waiting waiterSeq).onProxy m f) :
    Accounts cls (c.succeed rt t s m).2.lock ((t, m) :: out) := by
  obtain ⟨f, rfl⟩ := hs
  cases m with
  | read =>
      have henter := (h.enterReader t).signals
        (cls.signals_onReaderEnter waiting waiterSeq (c.lock.enterReader (some t)))
      rw [← LockClass.acquireReadCore_eq] at henter
      exact henter.congr rfl rfl rfl
  | write =>
      have howns := h.ownWriter hb (hadm rfl)
      rw [← LockClass.acquireWriteCore_eq c.lock (some t) waiting waiterSeq] at howns
      cases rt with
      | thread => exact howns.congr rfl rfl rfl
      | async => exact howns.congr rfl rfl rfl

theorem looped_accounts (hl : Looped rt cls c t m seq timed o c') (hb : Books cls c.lock)
    (h : Accounts cls c.lock out) (a : Action τ) : Accounts cls c'.lock (settle out t a o) := by
  cases hl with
  | enters hadm =>
      rw [settle_acquired]
      exact succeed_accounts rt hb h (by rintro rfl; exact .inl hadm) true (some seq) ⟨_, rfl⟩
  | givesUp =>
      rw [settle_of_kept _ _ _ (by simp) (by simp) (by simp)]
      have hstop : Accounts cls (c.lock.stopWaiting m) out := h.congr rfl rfl rfl
      exact hstop.signals (cls.signals_onAbort m _ (some seq))
  | parks =>
      rw [settle_of_kept _ _ _ (by simp) (by simp) (by simp)]
      exact h.congr rfl rfl rfl

/-- **A step keeps the accounts.** -/
theorem step_accounts (hr : System.Reachable rt cls c) (h : Accounts cls c.lock out)
    (hst : c.step rt cls a = some (o, c')) (ha : a.caller = some t) :
    Accounts cls c'.lock (settle out t a o) := by
  have hb := hr.wellFormed.books
  cases System.step_deed hr.wellFormed hst ha with
  | rejected | refused | timesOut | leaveRaises | downgradeRaises =>
      rw [settle_of_kept _ _ _ (by simp) (by simp) (by simp)]
      exact h
  | isCancelled | clears =>
      rw [settle_of_kept _ _ _ (by simp) (by simp) (by simp)]
      exact h.congr rfl rfl rfl
  | freeRaises =>
      rw [settle_of_kept _ _ _ (by simp) (by simp) (by simp)]
      exact h.unmark (some t)
  | @enters m _ _ _ hcan =>
      rw [settle_acquired]
      refine succeed_accounts rt hb h ?_ false none ⟨id, ?_⟩
      · rintro rfl
        exact (hb.canWrite_iff (by simp) false none).1 hcan
      · simp [RWLock.onProxy]
  | @waits m p _ _ _ hpc _ _ hstranger hloop =>
      have hreg : Move (fun _ _ => True) rt cls c (c.register t m (p = .timed)) :=
        .register m _ hpc hstranger
      exact looped_accounts hloop (hreg.wellFormed hr.wellFormed).books (h.congr rfl rfl rfl) _
  | @goesOn m _ _ i _ _ _ hpc hon _ hloop =>
      have hend : Move (fun _ _ => True) rt cls c (c.endWait t m i) := .endWait hpc hon
      exact looped_accounts hloop (hend.wellFormed hr.wellFormed).books (h.congr rfl rfl rfl) _
  | @cancelled m seq =>
      rw [settle_of_kept _ _ _ (by simp) (by simp) (by simp)]
      have hstop : Accounts cls ((c.endWait t m true).lock.stopWaiting m) out :=
        h.congr rfl rfl rfl
      exact hstop.signals (cls.signals_onAbort m _ (some seq))
  | leaves => exact (h.dropReader t).signals (cls.signals_onReaderLeave _)
  | routed hpc hm hcount =>
      -- whoever the marker names and who reads does not own the write lock
      have hfree : cls.owner c.lock = none := by
        refine (hb.exclusive _ hcount).resolve_right ?_
        rintro ⟨hc, ho⟩
        have hl := hr.ledger hc
        have := hl.marker t hm (hl.writes_pos hb ho)
        rw [hpc] at this
        cases this
      rw [settle, h.endWrite_unowned hb hfree]
      exact ((h.unmark (some t)).dropReader t).signals (cls.signals_onReaderLeave _)
  | countsDown _ hc ho hd =>
      rw [settle, h.endWrite_owned hb ho]
      obtain ⟨k', hk⟩ := c.lock.unmark_frame (some t)
      rw [hk]
      exact (h.countDown hc ho hd).congr rfl rfl rfl
  | frees _ ho _ hd =>
      obtain ⟨u, hu⟩ := Option.ne_none_iff_exists'.1 ho
      rw [settle, h.endWrite_owned hb hu]
      have hmark := System.unmark_spec hb (some t)
      refine Accounts.signals ?_ (cls.signals_onWriterAbort _ none)
      exact (h.unmark (some t)).freeWriter (hmark.2.1.trans hu) (hmark.2.2.1.trans hd)
  | downgrades _ ho hd =>
      have hfree := ((h.freeWriter ho hd).enterReader t).signals (cls.signals_onDowngrade _)
      exact hfree.congr rfl rfl rfl

/-- **The records of a lock class are the outstanding acquisitions.** -/
theorem TrackedReachable.accounted {c : System τ × List (τ × Mode)}
    (h : TrackedReachable rt cls c) :
    System.Reachable rt cls c.1 ∧ Accounts cls c.1.lock c.2 := by
  refine Transition.Reachable.invariant
    (I := fun c => System.Reachable rt cls c.1 ∧ Accounts cls c.1.lock c.2) ?_ ?_ h
  · rintro c rfl
    exact ⟨.start rfl, .init cls⟩
  · rintro c a c' ⟨hr, hacc⟩ hst
    obtain ⟨t, o, ha, hst, hout⟩ := trackedNext_eq_some hst
    refine ⟨hr.step hst (by simp [ha]), ?_⟩
    rw [hout]
    exact step_accounts hr hacc hst ha

/-- The depth of a lock class is what its caller has outstanding. -/
theorem TrackedReachable.depth {c : System τ × List (τ × Mode)}
    (h : TrackedReachable rt cls c) (t : τ) :
    (cls.view c.1.lock (some t)).ownedLockDepth = outstanding c.2 t := by
  obtain ⟨hr, hacc⟩ := h.accounted
  have hreads := hacc.reads t
  have hwrites := hacc.writes t
  rw [LockClass.ownedLockDepth_view, LockClass.ownedLockDepth_eq hr.wellFormed.books,
    outstanding_eq, ← hwrites]
  omega

end Steps

/-! ### The adapter -/

/-- The standard locks that the adapter `Lock` wraps. -/
inductive StdLock
  /-- `threading.Lock`. -/
  | lock
  /-- `threading.RLock`. -/
  | rlock
  deriving DecidableEq, Repr

/-- The adapter `Lock`: its `.read` and its `.write` are the one lock that it wraps.  A
`threading.Lock` keeps no owner. -/
structure Adapter (τ : Type) where
  owner : Option τ := none
  count : ℕ := 0

/-- The calls of an adapter's lock, through either side. -/
inductive Use (τ : Type)
  | acquire (t : τ) (m : Mode)
  | release (t : τ) (m : Mode)
  deriving DecidableEq, Repr

namespace Adapter

/-- `acquire()` of the standard lock; `none` when it blocks or returns `False`. -/
def acquire (kind : StdLock) (d : Adapter τ) (t : τ) : Option (Adapter τ) :=
  match kind with
  | .lock => if d.count = 0 then some { d with count := 1 } else none
  | .rlock =>
      if d.count = 0 ∨ d.owner = some t then some { owner := some t, count := d.count + 1 }
      else none

/-- `release()` of the standard lock; `none` when it raises.  A `threading.Lock` may be
released by any thread. -/
def release (kind : StdLock) (d : Adapter τ) (t : τ) : Option (Adapter τ) :=
  match kind with
  | .lock => if d.count = 0 then none else some { d with count := 0 }
  | .rlock =>
      if d.count = 0 ∨ d.owner ≠ some t then none
      else some { owner := if d.count = 1 then none else d.owner, count := d.count - 1 }

/-- `_thread_lock_is_locked`. -/
def isLocked (d : Adapter τ) : Bool := decide (0 < d.count)

/-- What the mixin reads of an adapter: both sides are locked together, and nothing else is
known. -/
def view (d : Adapter τ) : LockView where
  readerCount := none
  isCurrentReader := none
  isCurrentWriter := none
  writeCount := none
  isReadLocked := d.isLocked
  isWriteLocked := d.isLocked

/-- A call that changes the lock, together with what is outstanding: a release ends the
last acquisition.  The other calls change nothing. -/
def next (kind : StdLock) (c : Adapter τ × List (τ × Mode)) :
    Use τ → Option (Adapter τ × List (τ × Mode))
  | .acquire t m => (c.1.acquire kind t).map fun d => (d, (t, m) :: c.2)
  | .release t _ => (c.1.release kind t).map fun d => (d, c.2.tail)

/-- The states that threads can reach. -/
def Reachable (kind : StdLock) : Adapter τ × List (τ × Mode) → Prop :=
  Transition.Reachable (fun c a c' => next kind c a = some c') fun c => c = ({}, [])

variable {kind : StdLock} {c : Adapter τ × List (τ × Mode)}

/-- An acquisition that returns adds one to the count. -/
theorem count_acquire {d d' : Adapter τ} {t : τ} (h : d.acquire kind t = some d') :
    d'.count = d.count + 1 ∧ (kind = .lock → d'.count ≤ 1) := by
  cases kind with
  | lock =>
      simp only [acquire] at h
      split_ifs at h with hz
      cases h
      simp [hz]
  | rlock =>
      simp only [acquire] at h
      split_ifs at h
      cases h
      simp

/-- A release that returns takes one off. -/
theorem count_release {d d' : Adapter τ} {t : τ} (hle : kind = .lock → d.count ≤ 1)
    (h : d.release kind t = some d') : d'.count = d.count - 1 := by
  cases kind with
  | lock =>
      have := hle rfl
      simp only [release] at h
      split_ifs at h
      cases h
      show 0 = d.count - 1
      omega
  | rlock =>
      simp only [release] at h
      split_ifs at h <;> cases h <;> rfl

/-- The count is the number of outstanding acquisitions; a `threading.Lock` has one at
most. -/
theorem Reachable.count (h : Reachable kind c) :
    c.2.length = c.1.count ∧ (kind = .lock → c.1.count ≤ 1) := by
  refine Transition.Reachable.invariant
    (I := fun c => c.2.length = c.1.count ∧ (kind = .lock → c.1.count ≤ 1)) ?_ ?_ h
  · rintro c rfl
    exact ⟨rfl, fun _ => Nat.zero_le 1⟩
  · rintro c a c' ⟨hlen, hle⟩ hst
    cases a with
    | acquire t m =>
        obtain ⟨d, hacq, rfl⟩ := Option.map_eq_some_iff.1 hst
        obtain ⟨hcount, hle'⟩ := count_acquire hacq
        exact ⟨by rw [List.length_cons, hlen, hcount], hle'⟩
    | release t m =>
        obtain ⟨d, hrel, rfl⟩ := Option.map_eq_some_iff.1 hst
        have hcount := count_release hle hrel
        refine ⟨by rw [List.length_tail, hlen, hcount], fun hk => ?_⟩
        have := hle hk
        show d.count ≤ 1
        omega

omit [DecidableEq τ] in
/-- A lock that is held is counted on both sides. -/
theorem depth_view {d : Adapter τ} (h : 0 < d.count) : d.view.ownedLockDepth = 2 := by
  simp [LockView.ownedLockDepth, LockView.isOwned, view, isLocked, h]

end Adapter

/-! ### The check on every lock -/

/-- The locks that an `RWCondition` accepts. -/
inductive RWLockBase
  | strategy (cls : LockClass)
  | adapter (kind : StdLock)
  deriving DecidableEq, Repr

/-- A state that a lock can reach: what each thread reads of it, and what is outstanding. -/
inductive Reaches : RWLockBase → (τ → LockView) → List (τ × Mode) → Prop
  | strategy {cls : LockClass} {c : System τ} {out : List (τ × Mode)}
      (h : TrackedReachable .thread cls (c, out)) :
      Reaches (.strategy cls) (fun t => cls.view c.lock (some t)) out
  | adapter {kind : StdLock} {d : Adapter τ} {out : List (τ × Mode)}
      (h : Adapter.Reachable kind (d, out)) : Reaches (.adapter kind) (fun _ => d.view) out

/-- **The nested-wait check counts exactly on the lock classes.**  On the adapter it counts
every caller that holds the lock as two, which is right for a re-entrant lock held
twice only. -/
theorem nested_wait_exact {lock : RWLockBase} {view : τ → LockView} {out : List (τ × Mode)}
    (h : Reaches lock view out) {t : τ} (ht : 0 < outstanding out t) :
    (view t).Exact (outstanding out t) ↔
      (∃ cls, lock = .strategy cls) ∨ lock = .adapter .rlock ∧ outstanding out t = 2 := by
  cases h with
  | @strategy cls c out h =>
      exact iff_of_true (LockView.exact_of_depth (h.depth t)) (.inl ⟨cls, rfl⟩)
  | @adapter kind d out h =>
      obtain ⟨hlen, hle⟩ : out.length = d.count ∧ (kind = .lock → d.count ≤ 1) := h.count
      have hout : outstanding out t ≤ out.length := List.countP_le_length
      have hdepth := d.depth_view (show 0 < d.count by omega)
      constructor
      · intro hexact
        have htwo : (outstanding out t : ℤ) = 2 := hexact.depth.symm.trans hdepth
        refine .inr ⟨?_, by omega⟩
        cases kind with
        | lock =>
            have := hle rfl
            omega
        | rlock => rfl
      · rintro (⟨cls, hcls⟩ | ⟨-, htwo⟩)
        · cases hcls
        · exact LockView.exact_of_depth (by rw [hdepth, htwo]; rfl)

/-- Thread `0` has written, and reads inside: it has two acquisitions outstanding after
thread `1` was refused. -/
theorem nested_wait_exact_nested : ∃ view out,
    Reaches (.strategy .fairReentrantWriter) (view : ℕ → LockView) out ∧ outstanding out 0 = 2 ∧
      ((view 0).Exact (outstanding out 0) ↔
        (∃ cls, RWLockBase.strategy .fairReentrantWriter = .strategy cls) ∨
          RWLockBase.strategy .fairReentrantWriter = .adapter .rlock ∧ outstanding out 0 = 2) := by
  have hrun : ((Transition.replay (trackedNext .thread .fairReentrantWriter)
      (({}, []) : System ℕ × List (ℕ × Mode))
      [.acquire 0 .write .forever false, .clear 0, .acquire 1 .read .nonblocking false,
        .acquire 0 .read .forever false]).map fun c => outstanding c.2 0) = some 2 := by
    decide
  obtain ⟨⟨c, out⟩, hc, hval⟩ := Option.map_eq_some_iff.1 hrun
  have hreach : Reaches (.strategy .fairReentrantWriter) _ out :=
    .strategy ⟨_, _, rfl, Transition.Run.of_replay (fun _ _ _ h => h) hc⟩
  exact ⟨_, out, hreach, hval, nested_wait_exact hreach (by rw [hval]; decide)⟩

/-- A thread that holds the adapter once is counted twice, and its `wait()` is rejected as
nested. -/
theorem nested_wait_adapter : ∃ view out,
    Reaches (.adapter .lock) (view : ℕ → LockView) out ∧ outstanding out 0 = 1 ∧
      (view 0).ownedLockDepth = 2 ∧ (view 0).checkWait .write = .error .waitNested ∧
      ¬ (view 0).Exact (outstanding out 0) := by
  obtain ⟨d, out, hrun⟩ : ∃ d out, Transition.replay (Adapter.next .lock)
      (({}, []) : Adapter ℕ × List (ℕ × Mode)) [.acquire 0 .write] = some (d, out) := ⟨_, _, rfl⟩
  obtain ⟨rfl, rfl⟩ : d = { count := 1 } ∧ out = [(0, .write)] := by
    cases hrun
    exact ⟨rfl, rfl⟩
  refine ⟨_, _, .adapter ⟨_, _, rfl, Transition.Run.of_replay (fun _ _ _ h => h) hrun⟩, rfl, rfl,
    rfl, fun hexact => ?_⟩
  exact hexact.single rfl .write rfl

end Rwlocker

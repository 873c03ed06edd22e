/-
# The reentrant variants of two plain locks

`RWLockWriteReentrantWriter` against `RWLockWrite`, `RWLockReadReentrantWriter` against
`RWLockRead`.  The guards, `_acquire_write_core`, `_release_write_core` and the downgrade
are written twice, once over `_writer_active` and `_writer_owner` and once over
`_writer_id` and `_write_count`.

As long as the owner does not call `acquire` again and nobody else releases its lock
(`Disciplined`), the two spellings say the same: the state of the reentrant lock is the
state of the plain one, read off in the other fields (`asReentrant`), and every step
shows its caller the same result (`System.reentrant_refines`).  Only the text of an error
may differ.
-/

import Rwlocker.Move

namespace Rwlocker

open Transition (Run restrict rel_guard rel_imp exists_of_rel)

variable {τ : Type}

/-! ### The two spellings -/

/-- The plain class that prefers `m`. -/
def LockClass.plain : Mode → LockClass
  | .write => .write
  | .read => .read

/-- Its variant with a reentrant writer. -/
def LockClass.reentrantWriter : Mode → LockClass
  | .write => .writeReentrantWriter
  | .read => .readReentrantWriter

/-- The state of a plain lock in the fields of its reentrant variant. -/
def RWLock.asReentrant (s : RWLock τ) : RWLock τ :=
  { s with
    writerActive := false
    writerOwner := none
    writerId := s.writerOwner
    writeCount := if s.writerActive then 1 else 0 }

/-- The same users on the reentrant variant. -/
def System.asReentrant (c : System τ) : System τ := { c with lock := c.lock.asReentrant }

/-- The same result: both calls raise, or both come out the same. -/
def Outcome.Alike (o o' : Outcome) : Prop := o = o' ∨ ∃ e e', o = .raised e ∧ o' = .raised e'

/-- The states of a plain lock and of its reentrant variant match. -/
structure Corresponds (c d : System τ) : Prop where
  active : c.lock.writerActive = true ↔ d.lock.writerId ≠ none
  owner : c.lock.writerOwner = d.lock.writerId
  once : d.lock.writeCount = if c.lock.writerActive then 1 else 0
  readersActive : c.lock.readersActive = d.lock.readersActive
  readerOwners : c.lock.readerOwners = d.lock.readerOwners
  proxy : c.lock.proxy = d.lock.proxy
  downgraded : c.lock.downgraded = d.lock.downgraded
  pc : c.pc = d.pc
  holds : c.holds = d.holds

variable [DecidableEq τ]

namespace LockClass

variable {pref : Mode} {s : RWLock τ}

omit [DecidableEq τ] in
/-- The plain variant does not count. -/
theorem plain_reentrant (pref : Mode) : (plain pref).reentrant = false := by
  cases pref <;> rfl

omit [DecidableEq τ] in
/-- The other one does. -/
theorem reentrantWriter_reentrant (pref : Mode) : (reentrantWriter pref).reentrant = true := by
  cases pref <;> rfl

omit [DecidableEq τ] in
/-- The two variants have the same owner. -/
theorem owner_asReentrant (pref : Mode) (s : RWLock τ) :
    (reentrantWriter pref).owner s.asReentrant = (plain pref).owner s := by
  cases pref <;> rfl

omit [DecidableEq τ] in
/-- The two variants agree on how often it acquired. -/
theorem depth_asReentrant (pref : Mode) (s : RWLock τ) :
    (reentrantWriter pref).depth s.asReentrant = (plain pref).depth s := by
  cases pref <;> rfl

/-! ### The guards -/

omit [DecidableEq τ] in
/-- The two variants admit the same waiting readers. -/
theorem admitsReader_asReentrant (pref : Mode) (s : RWLock τ) (waiting : Bool)
    (waiterSeq : Option ℕ) :
    (reentrantWriter pref).AdmitsReader s.asReentrant waiting waiterSeq ↔
      (plain pref).AdmitsReader s waiting waiterSeq := by
  cases pref <;> rfl

omit [DecidableEq τ] in
/-- The two variants admit the same waiting writers. -/
theorem admitsWriter_asReentrant (pref : Mode) (s : RWLock τ) :
    (reentrantWriter pref).AdmitsWriter s.asReentrant ↔ (plain pref).AdmitsWriter s := by
  cases pref <;> rfl

/-- Whoever does not own the write lock passes both guards or none. -/
theorem canAcquire_asReentrant (hb : Books (plain pref) s)
    (hb' : Books (reentrantWriter pref) s.asReentrant) {t : τ}
    (ht : (plain pref).owner s ≠ some t) (m : Mode) (waiting : Bool) (waiterSeq : Option ℕ) :
    (reentrantWriter pref).canAcquire m s.asReentrant (some t) waiting waiterSeq =
      (plain pref).canAcquire m s (some t) waiting waiterSeq := by
  rw [Bool.eq_iff_iff]
  cases m with
  | read =>
      refine (hb'.canRead_iff (by simp) waiting waiterSeq).trans
        (Iff.trans ?_ (hb.canRead_iff (by simp) waiting waiterSeq).symm)
      rw [admitsReader_asReentrant, owner_asReentrant]
      simp only [ht, and_false, false_or]
      exact Iff.rfl
  | write =>
      refine (hb'.canWrite_iff (by simp) waiting waiterSeq).trans
        (Iff.trans ?_ (hb.canWrite_iff (by simp) waiting waiterSeq).symm)
      rw [admitsWriter_asReentrant, owner_asReentrant]
      simp only [ht, and_false]

/-- `_check_write_acquire_allowed` asks the two classes the same. -/
theorem beforeAcquire_asReentrant (pref m : Mode) (s : RWLock τ) (me : Option τ) :
    (reentrantWriter pref).beforeAcquire m s.asReentrant me =
      (plain pref).beforeAcquire m s me := by
  cases m <;> cases pref <;> rfl

/-! ### The signals -/

/-- The hook of a leaving reader. -/
theorem onReaderLeave_asReentrant (pref : Mode) (s : RWLock τ) :
    (reentrantWriter pref).onReaderLeave s.asReentrant =
      ((plain pref).onReaderLeave s).asReentrant := by
  cases pref <;>
    simp only [onReaderLeave, plain, policy, RWLockWriteMixin.notifyWriterIfFree,
      apply_ite RWLock.asReentrant] <;> rfl

/-- The hook of a reader that gives up. -/
theorem onReaderAbort_asReentrant (pref : Mode) (s : RWLock τ) (waiterSeq : Option ℕ) :
    (reentrantWriter pref).onReaderAbort s.asReentrant waiterSeq =
      ((plain pref).onReaderAbort s waiterSeq).asReentrant := by
  cases pref with
  | write => rfl
  | read =>
      simp only [onReaderAbort, plain, RWLockReadMixin.onReaderAbort, apply_ite RWLock.asReentrant]
      rfl

/-- The hook of a writer that gives up or releases. -/
theorem onWriterAbort_asReentrant (pref : Mode) (s : RWLock τ) (waiterSeq : Option ℕ) :
    (reentrantWriter pref).onWriterAbort s.asReentrant waiterSeq =
      ((plain pref).onWriterAbort s waiterSeq).asReentrant := by
  cases pref with
  | write =>
      simp only [onWriterAbort, plain, RWLockWriteMixin.onWriterAbort, apply_ite RWLock.asReentrant]
      rfl
  | read =>
      simp only [onWriterAbort, plain, RWLockReadMixin.onWriterAbort, apply_ite RWLock.asReentrant]
      rfl

/-- The hook of a downgrade. -/
theorem onDowngrade_asReentrant (pref : Mode) (s : RWLock τ) :
    (reentrantWriter pref).onDowngrade s.asReentrant =
      ((plain pref).onDowngrade s).asReentrant := by
  cases pref <;>
    simp only [onDowngrade, plain, policy, apply_ite RWLock.asReentrant] <;> rfl

/-- The hook of a call that gives up. -/
theorem onAbort_asReentrant (pref m : Mode) (s : RWLock τ) (waiterSeq : Option ℕ) :
    (reentrantWriter pref).onAbort m s.asReentrant waiterSeq =
      ((plain pref).onAbort m s waiterSeq).asReentrant := by
  cases m with
  | read => exact onReaderAbort_asReentrant pref s waiterSeq
  | write => exact onWriterAbort_asReentrant pref s waiterSeq

/-! ### The four cores -/

/-- An acquisition by somebody the lock lets in records the same. -/
theorem acquireCore_asReentrant (hb : Books (plain pref) s) {m : Mode} {t : τ}
    {waiting : Bool} {waiterSeq : Option ℕ}
    (hcan : (plain pref).canAcquire m s (some t) waiting waiterSeq = true) :
    (reentrantWriter pref).acquireCore m s.asReentrant (some t) waiting waiterSeq =
      ((plain pref).acquireCore m s (some t) waiting waiterSeq).asReentrant := by
  cases m with
  | read => cases pref <;> rfl
  | write =>
      have hadm : (plain pref).AdmitsWriter s :=
        ((hb.canWrite_iff (by simp) waiting waiterSeq).1 hcan).resolve_right
          fun h => by simp [plain_reentrant] at h
      -- nobody holds the lock, so the count goes from zero to one
      have hfree := hb.writerActive_of_owner hadm.1
      simp only [acquireCore]
      rw [acquireWriteCore_of_plain (plain_reentrant pref),
        acquireWriteCore_of_reentrant (reentrantWriter_reentrant pref)]
      simp [RWLock.asReentrant, RWLock.acquirePlainWriter, hfree]

/-- Two results of a core: both raise, or both leave the same state. -/
def Alike : Except RuntimeError (RWLock τ) → Except RuntimeError (RWLock τ) → Prop
  | .ok s, .ok s' => s' = s.asReentrant
  | .error _, .error _ => True
  | _, _ => False

/-- A read release comes out alike. -/
theorem releaseReadCore_alike (pref : Mode) (s : RWLock τ) (me : Option τ) :
    Alike ((plain pref).releaseReadCore s me)
      ((reentrantWriter pref).releaseReadCore s.asReentrant me) := by
  rw [releaseReadCore_spec, releaseReadCore_spec]
  by_cases hk : s.readerOwners.count me = 0
  · rw [if_pos hk, if_pos (show s.asReentrant.readerOwners.count me = 0 from hk)]
    trivial
  · rw [if_neg hk, if_neg (show s.asReentrant.readerOwners.count me ≠ 0 from hk)]
    exact onReaderLeave_asReentrant pref (s.dropReader me)

/-- A release of a free lock, or by its owner. -/
theorem releaseWriteCore_alike (hb : Books (plain pref) s)
    (hb' : Books (reentrantWriter pref) s.asReentrant) {t : τ}
    (ht : (plain pref).owner s = none ∨ (plain pref).owner s = some t) :
    Alike ((plain pref).releaseWriteCore s (some t))
      ((reentrantWriter pref).releaseWriteCore s.asReentrant (some t)) := by
  rw [releaseWriteCore_spec hb (by simp), releaseWriteCore_spec hb' (by simp),
    owner_asReentrant, depth_asReentrant, plain_reentrant, reentrantWriter_reentrant]
  have hd := Books.depth_le_one (plain_reentrant pref) s
  have hone : ¬ 1 < (plain pref).depth s := by omega
  rcases ht with ho | ho
  · simp [ho, Alike]
  · rw [if_neg (by simp [ho]), if_neg hone, if_neg (by simp [ho]), if_neg hone]
    exact onWriterAbort_asReentrant pref s.freeWriter none

/-- A downgrade comes out alike. -/
theorem downgradeCore_alike (hb : Books (plain pref) s)
    (hb' : Books (reentrantWriter pref) s.asReentrant) (t : τ) :
    Alike ((plain pref).downgradeCore s (some t))
      ((reentrantWriter pref).downgradeCore s.asReentrant (some t)) := by
  rw [downgradeCore_spec hb (by simp), downgradeCore_spec hb' (by simp), owner_asReentrant,
    depth_asReentrant]
  by_cases ho : (plain pref).owner s = some t ∧ (plain pref).depth s = 1
  · rw [if_pos ho, if_pos ho]
    exact onDowngrade_asReentrant pref (s.freeWriter.enterReader (some t))
  · rw [if_neg ho, if_neg ho]
    trivial

/-- Two results of a call: both raise or both return, and they leave the same state. -/
def AlikeCall (r r' : Except RuntimeError Unit × RWLock τ) : Prop :=
  r.1.isOk = r'.1.isOk ∧ r'.2 = r.2.asReentrant

omit [DecidableEq τ] in
/-- A call that raises leaves both locks. -/
theorem Alike.orUnchanged {r r' : Except RuntimeError (RWLock τ)} (h : Alike r r')
    (s : RWLock τ) : AlikeCall (orUnchanged s r) (LockClass.orUnchanged s.asReentrant r') := by
  cases r with
  | error e =>
      cases r' with
      | error e' => exact ⟨rfl, rfl⟩
      | ok s' => exact h.elim
  | ok s₁ =>
      cases r' with
      | error e' => exact h.elim
      | ok s₁' => exact ⟨rfl, h⟩

/-- A release through either proxy, of a free lock or by its owner if it is a write release. -/
theorem release_alike (hb : Books (plain pref) s)
    (hb' : Books (reentrantWriter pref) s.asReentrant) {t : τ} {m : Mode}
    (ht : m = .write → (plain pref).owner s = none ∨ (plain pref).owner s = some t) :
    AlikeCall ((plain pref).release s (some t) m)
      ((reentrantWriter pref).release s.asReentrant (some t) m) := by
  cases m with
  | read => exact (releaseReadCore_alike pref s (some t)).orUnchanged s
  | write =>
      simp only [release]
      by_cases hm : s.downgraded = some t
      · rw [if_pos hm, if_pos (show s.asReentrant.downgraded = some t from hm)]
        have hwrite : AlikeCall (orUnchanged { s with downgraded := none }
            ((plain pref).releaseWriteCore { s with downgraded := none } (some t)))
            (orUnchanged { s with downgraded := none }.asReentrant
              ((reentrantWriter pref).releaseWriteCore
                { s with downgraded := none }.asReentrant (some t))) :=
          (releaseWriteCore_alike (hb.marker none) (hb'.marker none) (ht rfl)).orUnchanged _
        simp only [releaseReadCore_spec]
        by_cases hk : s.readerOwners.count (some t) = 0
        · rw [if_pos hk, if_pos (show s.asReentrant.readerOwners.count (some t) = 0 from hk)]
          exact hwrite
        · rw [if_neg hk, if_neg (show s.asReentrant.readerOwners.count (some t) ≠ 0 from hk)]
          exact ⟨rfl, onReaderLeave_asReentrant pref
            (({ s with downgraded := none } : RWLock τ).dropReader (some t))⟩
      · rw [if_neg hm, if_neg (show s.asReentrant.downgraded ≠ some t from hm)]
        exact (releaseWriteCore_alike hb hb' (ht rfl)).orUnchanged s

end LockClass

namespace System

variable {rt : Runtime} {pref : Mode} {c d : System τ} {t : τ} {m : Mode}

open LockClass (plain reentrantWriter)

/-! ### The two systems side by side -/

/-- The steps the comparison is about: a thread or task that does not call `acquire` while
it owns the write lock, and does not release one that somebody else owns. -/
def Disciplined (cls : LockClass) (c : System τ) (a : Action τ) : Prop :=
  a.caller ≠ none ∧
    match a with
    | .acquire t _ _ _ => cls.owner c.lock ≠ some t
    | .release k .write => cls.owner c.lock = none ∨ cls.owner c.lock = k
    | _ => True

instance (cls : LockClass) (c : System τ) : (a : Action τ) → Decidable (Disciplined cls c a)
  | .acquire t _ _ _ => inferInstanceAs (Decidable (_ ∧ cls.owner c.lock ≠ some t))
  | .release k .write =>
      inferInstanceAs (Decidable (_ ∧ (cls.owner c.lock = none ∨ cls.owner c.lock = k)))
  | .release _ .read | .resume _ _ | .interrupt _ | .clear _ | .downgrade _ =>
      inferInstanceAs (Decidable (_ ∧ True))

/-- The same result, and states that are the same in the two spellings. -/
def Mirrors (r r' : Outcome × System τ) : Prop := r.1.Alike r'.1 ∧ r'.2 = r.2.asReentrant

/-- A plain lock and its users, and the same users on the reentrant variant. -/
structure Mirrored (pref : Mode) (c d : System τ) : Prop where
  wellFormed : WellFormed (plain pref) c.lock c.pc
  wellFormed' : WellFormed (reentrantWriter pref) d.lock d.pc
  eq : d = c.asReentrant

/-- A grant, on both sides. -/
theorem succeed_asReentrant (rt : Runtime) (c : System τ) (t : τ) (s : RWLock τ) (m : Mode) :
    c.asReentrant.succeed rt t s.asReentrant m =
      ((c.succeed rt t s m).1, (c.succeed rt t s m).2.asReentrant) := by
  cases m with
  | read => rfl
  | write => cases rt <;> rfl

/-- A call gives up, on both sides. -/
theorem abort_asReentrant (pref : Mode) (c : System τ) (t : τ) (m : Mode) (seq : ℕ) :
    c.asReentrant.abort (reentrantWriter pref) t m seq =
      (c.abort (plain pref) t m seq).asReentrant := by
  have habort := LockClass.onAbort_asReentrant pref m (c.lock.stopWaiting m) (some seq)
  have hput := congrArg (fun s => c.asReentrant.put s t .idle) habort
  exact hput

/-- The wait loop of a registered caller. -/
theorem acquireLoop_asReentrant (h : WellFormed (plain pref) c.lock c.pc)
    (h' : WellFormed (reentrantWriter pref) c.asReentrant.lock c.asReentrant.pc)
    (ht : InFlight c.pc m t) (seq : ℕ) (timed expired : Bool) :
    c.asReentrant.acquireLoop rt (reentrantWriter pref) t m seq timed expired =
      ((c.acquireLoop rt (plain pref) t m seq timed expired).1,
        (c.acquireLoop rt (plain pref) t m seq timed expired).2.asReentrant) := by
  have hne : (plain pref).owner c.lock ≠ some t := by
    intro ho
    refine (h'.stranger m t ht).2 ⟨LockClass.reentrantWriter_reentrant pref, ?_⟩
    exact (LockClass.owner_asReentrant pref c.lock).trans ho
  have hiff : (reentrantWriter pref).canAcquire m c.asReentrant.lock (some t) true (some seq) =
      (plain pref).canAcquire m c.lock (some t) true (some seq) :=
    LockClass.canAcquire_asReentrant h.books h'.books hne m true (some seq)
  unfold acquireLoop
  rw [hiff]
  by_cases hcan : (plain pref).canAcquire m c.lock (some t) true (some seq) = true
  · rw [if_pos hcan, if_pos hcan]
    have hcore : (reentrantWriter pref).acquireCore m c.asReentrant.lock (some t) true (some seq) =
        ((plain pref).acquireCore m c.lock (some t) true (some seq)).asReentrant :=
      LockClass.acquireCore_asReentrant h.books hcan
    rw [hcore]
    exact succeed_asReentrant rt c t
      (((plain pref).acquireCore m c.lock (some t) true (some seq)).stopWaiting m) m
  · rw [if_neg hcan, if_neg hcan]
    by_cases hexp : (timed && expired) = true
    · rw [if_pos hexp, if_pos hexp, abort_asReentrant]
    · rw [if_neg hexp, if_neg hexp]
      rfl

/-- A call by somebody who does not own the lock. -/
theorem acquire_asReentrant (h : WellFormed (plain pref) c.lock c.pc)
    (h' : WellFormed (reentrantWriter pref) c.asReentrant.lock c.asReentrant.pc)
    (hpc : c.pc t = .idle) (ht : (plain pref).owner c.lock ≠ some t) (p : Patience)
    (expired : Bool) :
    c.asReentrant.acquire rt (reentrantWriter pref) t m p expired =
      ((c.acquire rt (plain pref) t m p expired).1,
        (c.acquire rt (plain pref) t m p expired).2.asReentrant) := by
  have hbefore : (reentrantWriter pref).beforeAcquire m c.asReentrant.lock (some t) =
      (plain pref).beforeAcquire m c.lock (some t) :=
    LockClass.beforeAcquire_asReentrant pref m c.lock (some t)
  have hiff : (reentrantWriter pref).canAcquire m c.asReentrant.lock (some t) false none =
      (plain pref).canAcquire m c.lock (some t) false none :=
    LockClass.canAcquire_asReentrant h.books h'.books ht m false none
  unfold acquire
  rw [hbefore, hiff]
  cases hb : (plain pref).beforeAcquire m c.lock (some t) with
  | error e => rfl
  | ok u =>
      dsimp only
      by_cases hcan : (plain pref).canAcquire m c.lock (some t) false none = true
      · rw [if_pos hcan, if_pos hcan]
        have hcore : (reentrantWriter pref).acquireCore m c.asReentrant.lock (some t) false none =
            ((plain pref).acquireCore m c.lock (some t) false none).asReentrant :=
          LockClass.acquireCore_asReentrant h.books hcan
        rw [hcore]
        exact succeed_asReentrant rt c t _ m
      · rw [if_neg hcan, if_neg hcan]
        by_cases hp : p = .nonblocking
        · rw [if_pos hp, if_pos hp]
        · rw [if_neg hp, if_neg hp]
          have hreg : Move (fun _ _ => True) rt (plain pref) c (c.register t m (p = .timed)) :=
            .register m _ hpc (stranger_of_refused h.books hb hcan)
          have hreg' : Move (fun _ _ => True) rt (reentrantWriter pref) c.asReentrant
              (c.asReentrant.register t m (p = .timed)) :=
            .register m _ hpc (stranger_of_refused h'.books (hbefore.trans hb) (by rwa [hiff]))
          exact acquireLoop_asReentrant (hreg.wellFormed h) (hreg'.wellFormed h')
            ⟨_, _, _, Function.update_self ..⟩ _ _ _

/-- A parked call goes on. -/
theorem resume_asReentrant (h : WellFormed (plain pref) c.lock c.pc)
    (h' : WellFormed (reentrantWriter pref) c.asReentrant.lock c.asReentrant.pc) {seq : ℕ}
    {timed i : Bool} (hpc : c.pc t = .waiting m seq timed i)
    (hon : c.lock.waiter m t = .pending → i = true) (expired : Bool) :
    c.asReentrant.resume rt (reentrantWriter pref) t m seq timed i expired =
      ((c.resume rt (plain pref) t m seq timed i expired).1,
        (c.resume rt (plain pref) t m seq timed i expired).2.asReentrant) := by
  unfold resume
  dsimp only
  by_cases hi : rt = .async ∧ i = true
  · rw [if_pos hi, if_pos hi]
    exact Prod.ext rfl (abort_asReentrant pref (c.endWait t m i) t m seq)
  · rw [if_neg hi, if_neg hi]
    have hend : Move (fun _ _ => True) rt (plain pref) c (c.endWait t m i) := .endWait hpc hon
    have hend' : Move (fun _ _ => True) rt (reentrantWriter pref) c.asReentrant
        (c.asReentrant.endWait t m i) := .endWait hpc hon
    exact acquireLoop_asReentrant (hend.wellFormed h) (hend'.wellFormed h') ⟨_, _, _, hpc⟩ _ _ _

/-- A release of one's own hold, or of a free lock. -/
theorem release_mirrors (hb : Books (plain pref) c.lock)
    (hb' : Books (reentrantWriter pref) c.asReentrant.lock)
    (ht : m = .write → (plain pref).owner c.lock = none ∨ (plain pref).owner c.lock = some t) :
    Mirrors (c.release (plain pref) (some t) m)
      (c.asReentrant.release (reentrantWriter pref) (some t) m) := by
  obtain ⟨hok, hs⟩ : LockClass.AlikeCall ((plain pref).release c.lock (some t) m)
    ((reentrantWriter pref).release c.asReentrant.lock (some t) m) :=
      LockClass.release_alike hb hb' ht
  unfold release
  revert hok hs
  rcases (plain pref).release c.lock (some t) m with ⟨_ | _, s⟩ <;>
    rcases (reentrantWriter pref).release c.asReentrant.lock (some t) m with ⟨_ | _, s'⟩ <;>
      rintro hok rfl
  · exact ⟨.inr ⟨_, _, rfl, rfl⟩, rfl⟩
  · cases hok
  · cases hok
  · exact ⟨.inl rfl, rfl⟩

/-- A downgrade, on both sides. -/
theorem downgrade_mirrors (hb : Books (plain pref) c.lock)
    (hb' : Books (reentrantWriter pref) c.asReentrant.lock) (t : τ) :
    Mirrors (c.downgrade (plain pref) (some t))
      (c.asReentrant.downgrade (reentrantWriter pref) (some t)) := by
  have halike : LockClass.Alike ((plain pref).downgradeCore c.lock (some t))
      ((reentrantWriter pref).downgradeCore c.asReentrant.lock (some t)) :=
    LockClass.downgradeCore_alike hb hb' t
  unfold downgrade LockClass.downgrade
  revert halike
  rcases (plain pref).downgradeCore c.lock (some t) with _ | s <;>
    rcases (reentrantWriter pref).downgradeCore c.asReentrant.lock (some t) with _ | s' <;>
      intro halike
  · exact ⟨.inr ⟨_, _, rfl, rfl⟩, rfl⟩
  · exact halike.elim
  · exact halike.elim
  · cases halike
    exact ⟨.inl rfl, rfl⟩

/-- **The two systems keep step**, as long as the owner is disciplined. -/
theorem step_mirrors (rt : Runtime) {a : Action τ} (h : Mirrored pref c d)
    (ha : Disciplined (plain pref) c a) :
    Option.Rel Mirrors (c.step rt (plain pref) a) (d.step rt (reentrantWriter pref) a) := by
  obtain ⟨hw, hw', rfl⟩ := h
  obtain ⟨hcaller, hby⟩ := ha
  cases a with
  | acquire t m p expired =>
      refine rel_guard Iff.rfl fun hg => ?_
      rw [acquire_asReentrant hw hw' hg.1 hby]
      exact ⟨.inl rfl, rfl⟩
  | resume t expired =>
      have hpc' : c.asReentrant.pc t = c.pc t := rfl
      simp only [step, hpc']
      split
      · rename_i m seq timed i hpc
        by_cases hp : (c.lock.proxy m).condition.state t = .pending ∧ i = false
        · rw [if_pos hp, if_pos (show (c.asReentrant.lock.proxy m).condition.state t = .pending ∧
            i = false from hp)]
          exact .none
        · rw [if_neg hp, if_neg (show ¬ ((c.asReentrant.lock.proxy m).condition.state t =
            .pending ∧ i = false) from hp), resume_asReentrant hw hw' hpc
              (fun hw => by simpa [show (c.lock.proxy m).condition.state t = .pending from hw]
                using hp) expired]
          exact .some ⟨.inl rfl, rfl⟩
      · exact .none
  | interrupt t =>
      have hpc' : c.asReentrant.pc t = c.pc t := rfl
      simp only [step, hpc']
      split
      · exact rel_guard Iff.rfl fun _ => ⟨.inl rfl, rfl⟩
      · exact .some ⟨.inl rfl, rfl⟩
      · exact .none
  | clear t => exact rel_guard Iff.rfl fun _ => ⟨.inl rfl, rfl⟩
  | release k m =>
      obtain ⟨t, rfl⟩ := Option.ne_none_iff_exists'.1 hcaller
      refine rel_guard Iff.rfl fun _ => release_mirrors hw.books hw'.books fun hm => ?_
      subst hm
      exact hby
  | downgrade k =>
      obtain ⟨t, rfl⟩ := Option.ne_none_iff_exists'.1 hcaller
      exact rel_guard Iff.rfl fun _ => downgrade_mirrors hw.books hw'.books t

/-! ### Runs -/

/-- A step of disciplined users. -/
def Plays (rt : Runtime) (cls : LockClass) : System τ → Action τ → System τ → Prop :=
  restrict (Disciplined cls) (Step rt cls)

/-- A step leaves no choice. -/
theorem Plays.unique (rt : Runtime) (cls : LockClass) (c : System τ) (a : Action τ)
    (c₁ c₂ : System τ) (h₁ : Plays rt cls c a c₁) (h₂ : Plays rt cls c a c₂) : c₁ = c₂ :=
  h₁.2.unique h₂.2

omit [DecidableEq τ] in
/-- The discipline asks the same of both sides. -/
theorem disciplined_asReentrant (pref : Mode) (c : System τ) (a : Action τ) :
    Disciplined (reentrantWriter pref) c.asReentrant a ↔ Disciplined (plain pref) c a := by
  have howner : (reentrantWriter pref).owner c.asReentrant.lock = (plain pref).owner c.lock :=
    LockClass.owner_asReentrant pref c.lock
  unfold Disciplined
  rw [howner]

/-- Two new locks correspond. -/
theorem Mirrored.init (pref : Mode) : Mirrored pref ({} : System τ) {} :=
  ⟨.init _, .init _, rfl⟩

/-- **The two locks answer each other step by step.** -/
theorem Mirrored.step (h : Mirrored pref c d) {a : Action τ} {c' d' : System τ}
    (hc : Plays rt (plain pref) c a c') (hd : Plays rt (reentrantWriter pref) d a d')
    (heq : d' = c'.asReentrant) : Mirrored pref c' d' where
  wellFormed := (hc.2.moves (P := fun _ _ => True) h.wellFormed hc.1.1
    fun _ _ => trivial).wellFormed h.wellFormed
  wellFormed' := (hd.2.moves (P := fun _ _ => True) h.wellFormed' hd.1.1
    fun _ _ => trivial).wellFormed h.wellFormed'
  eq := heq

/-- **The plain lock and its reentrant variant run in lock step.** -/
theorem lockStep (rt : Runtime) (pref : Mode) :
    Transition.LockStep (Plays (τ := τ) rt (plain pref)) (Plays rt (reentrantWriter pref))
      (Mirrored pref) where
  forth c d a c' h hst := by
    obtain ⟨ha, o, hst⟩ := hst
    have hrel := step_mirrors rt h ha
    rw [hst] at hrel
    obtain ⟨⟨o', d'⟩, hst', -, heq⟩ := exists_of_rel hrel
    have hd : Plays rt (reentrantWriter pref) d a d' :=
      ⟨by rw [h.eq]; exact (disciplined_asReentrant pref c a).2 ha, o', hst'⟩
    exact ⟨d', hd, h.step ⟨ha, o, hst⟩ hd heq⟩
  back c d a d' h hst := by
    obtain ⟨ha', o', hst'⟩ := hst
    have ha : Disciplined (plain pref) c a :=
      (disciplined_asReentrant pref c a).1 (by rwa [h.eq] at ha')
    have hrel := step_mirrors rt h ha
    rw [hst'] at hrel
    obtain ⟨⟨o, c'⟩, hst, -, heq⟩ : ∃ r, c.step rt (plain pref) a = some r ∧
        Mirrors r (o', d') := by
      generalize c.step rt (plain pref) a = r at hrel
      cases hrel with
      | some h => exact ⟨_, rfl, h⟩
    exact ⟨c', ⟨ha, o, hst⟩, h.step ⟨ha, o, hst⟩ ⟨ha', o', hst'⟩ heq⟩

/-- The mirrored lock is one that corresponds. -/
theorem corresponds_asReentrant (hb : Books (plain pref) c.lock) :
    Corresponds c c.asReentrant := by
  refine ⟨?_, rfl, rfl, rfl, rfl, rfl, rfl, rfl, rfl⟩
  exact (hb.plain (LockClass.plain_reentrant pref)).2.2

/-- **The reentrant variants refine the plain locks.**  Disciplined users can make the
same runs on both.  After the same run the two states match, and a disciplined step
comes out the same on both and leaves states that match. -/
theorem reentrant_refines (rt : Runtime) (pref : Mode) (as : List (Action τ)) :
    ((∃ c : System τ, Run (Plays rt (plain pref)) {} as c) ↔
      ∃ d : System τ, Run (Plays rt (reentrantWriter pref)) {} as d) ∧
    ∀ c d : System τ, Run (Plays rt (plain pref)) {} as c →
      Run (Plays rt (reentrantWriter pref)) {} as d →
        Corresponds c d ∧ ∀ a, Disciplined (plain pref) c a →
          Option.Rel (fun r r' => r.1.Alike r'.1 ∧ Corresponds r.2 r'.2)
            (c.step rt (plain pref) a) (d.step rt (reentrantWriter pref) a) := by
  refine ⟨(lockStep rt pref).run_iff (.init pref), fun c d hc hd => ?_⟩
  have h : Mirrored pref c d := (lockStep rt pref).related (Plays.unique rt _) hc hd (.init pref)
  refine ⟨h.eq ▸ corresponds_asReentrant h.wellFormed.books, fun a ha => ?_⟩
  refine rel_imp (step_mirrors rt h ha) fun r r' hstep hm => ⟨hm.1, ?_⟩
  have hw := Step.moves (P := fun _ _ => True) ⟨r.1, hstep⟩ h.wellFormed ha.1 fun _ _ => trivial
  exact hm.2 ▸ corresponds_asReentrant (hw.wellFormed h.wellFormed).books

/-- Task `0` writes and task `1` waits to read, on both locks; task `0` may release either. -/
theorem reentrant_refines_parked : ∃ c d : System ℕ,
    c.lock.writerOwner = some 0 ∧ c.lock.queue .read = [1] ∧ Corresponds c d ∧
      Option.Rel (fun r r' => r.1.Alike r'.1 ∧ Corresponds r.2 r'.2)
        (c.step .async .read (.release (some 0) .write))
        (d.step .async .readReentrantWriter (.release (some 0) .write)) := by
  have hrun : ((Transition.replay (next (Disciplined .read) .async .read) ({} : System ℕ)
      [.acquire 0 .write .forever false, .acquire 1 .read .forever false]).map fun c =>
        (c.lock.writerOwner, c.lock.queue .read)) = some (some 0, [1]) := by
    decide
  obtain ⟨c, hc, hval⟩ := Option.map_eq_some_iff.1 hrun
  simp only [Prod.mk.injEq] at hval
  obtain ⟨ho, hq⟩ := hval
  have href := reentrant_refines (τ := ℕ) .async .read
    [.acquire 0 .write .forever false, .acquire 1 .read .forever false]
  obtain ⟨d, hd⟩ := href.1.1 ⟨c, run_of_replay hc⟩
  obtain ⟨hcor, hstep⟩ := href.2 c d (run_of_replay hc) hd
  exact ⟨c, d, ho, hq, hcor, hstep (.release (some 0) .write) ⟨by simp [Action.caller], .inr ho⟩⟩

end System

end Rwlocker

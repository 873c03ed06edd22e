/-
# The order of the writers of a strict fair lock

`RWLockFair` and `AsyncRWLockFair`, in runs in which no waiting writer times out or is
cancelled (`Patient`).

The writers' queue is first in, first out, and a release signals its head alone.  As
long as nobody else takes the lock before the signalled writer runs, that writer is
admitted when it does, so nobody parks a second time and the queue stays in the order of
the calls (`InLine`).

The one who can take it is a writer that calls `acquire` in between: the fast path asks
`_can_write`, which does not look at the writers that wait, where `_can_read` does.  Such
a call overtakes them all (`Barges`), and without it nobody overtakes anybody
(`fair_writers_in_order`).
-/

import Rwlocker.Drain
import Rwlocker.LateReaders

namespace Rwlocker

open ReadersWriter (Holds)
open RWLock (Signals)
open Transition (Run restrict)

variable {τ : Type} [DecidableEq τ]

namespace System

/-! ### Overtaking -/

/-- The step takes a waiting writer out of the line without the lock: its timeout passes,
it is cancelled, or its call gives up. -/
def WriterGivesUp (c : System τ) (a : Action τ) (o : Outcome) : Prop :=
  match a with
  | .interrupt t => InFlight c.pc .write t
  | a => (o = .refused ∨ o = .cancelled) ∧ WriterWaits c a

/-- A step of a thread or task, by which no waiting writer times out or is cancelled. -/
def Patient (rt : Runtime) (c : System τ) (a : Action τ) : Prop :=
  InTask c a ∧ ∀ r ∈ c.step rt .fair a, ¬ WriterGivesUp c a r.1

/-- `write.acquire()` is called while writers wait, and `_can_write` lets the caller in. -/
def Barges (c : System τ) : Action τ → Prop
  | .acquire t .write _ _ =>
      0 < c.lock.write.thoseWaiting ∧ LockClass.fair.canWrite c.lock (some t) false none = true
  | _ => False

instance (c : System τ) (o : Outcome) : (a : Action τ) → Decidable (WriterGivesUp c a o)
  | .interrupt t => inferInstanceAs (Decidable (InFlight c.pc .write t))
  | .acquire t m p e => inferInstanceAs (Decidable (_ ∧ WriterWaits c (.acquire t m p e)))
  | .resume t e => inferInstanceAs (Decidable (_ ∧ WriterWaits c (.resume t e)))
  | .clear t => inferInstanceAs (Decidable (_ ∧ WriterWaits c (.clear t)))
  | .release k m => inferInstanceAs (Decidable (_ ∧ WriterWaits c (.release k m)))
  | .downgrade k => inferInstanceAs (Decidable (_ ∧ WriterWaits c (.downgrade k)))

instance (rt : Runtime) (c : System τ) (a : Action τ) : Decidable (Patient rt c a) :=
  inferInstanceAs (Decidable (_ ∧ _))

instance (c : System τ) : (a : Action τ) → Decidable (Barges c a)
  | .acquire _ .write _ _ => inferInstanceAs (Decidable (_ ∧ _))
  | .acquire _ .read _ _ | .resume _ _ | .interrupt _ | .clear _ | .release _ _
  | .downgrade _ => isFalse id

/-- A step of patient writers on a strict fair lock. -/
def Queueing (rt : Runtime) : System τ → Action τ → System τ → Prop :=
  restrict (Patient rt) (Step rt .fair)

/-- In the run of `as` a writer `t` overtakes a writer `u`: at one point `u` waits and `t`
does not, and later `t` acquires while `u` still waits in the same call. -/
def Overtakes (rt : Runtime) (as : List (Action τ)) : Prop :=
  ∃ as₁ bs as₂ a, as = as₁ ++ (bs ++ a :: as₂) ∧ ∃ (c d d' : System τ) (t u : τ) (n : ℕ),
    Run (Queueing rt) {} as₁ c ∧ Run (Queueing rt) c bs d ∧
      d.step rt .fair a = some (.acquired .write, d') ∧ a.caller = some t ∧
      (∀ m, ¬ Waits c .write t m) ∧ Waits c .write u n ∧ Waits d .write u n

variable {rt : Runtime} {c c' : System τ} {t u : τ} {a : Action τ} {o : Outcome}

/-! ### The line -/

/-- The waiting writers stand in line (module doc). -/
structure InLine (c : System τ) : Prop where
  sorted : (c.lock.queue .write).Pairwise fun u v =>
    ∀ n m, Waits c .write u n → Waits c .write v m → n < m
  awake : ∀ t seq timed, c.pc t ≠ .waiting .write seq timed true
  first : ∀ t, OnWay c.lock c.pc .write t → LockClass.fair.AdmitsWriter c.lock ∧
    ∀ u, u ≠ t → ∀ n m, Waits c .write t n → Waits c .write u m → n < m
  turn : c.lock.readersTurn = true → c.lock.writerOwner = none

/-- No writer is signalled. -/
def Quieted (c : System τ) : Prop := ∀ t, ¬ OnWay c.lock c.pc .write t

/-- No writer begins or ends to wait. -/
def SameWriters (c c' : System τ) : Prop :=
  ∀ u, c'.pc u = c.pc u ∨ ¬ InFlight c.pc .write u ∧ ¬ InFlight c'.pc .write u

namespace SameWriters

omit [DecidableEq τ] in
/-- Nobody moved. -/
theorem of_eq (h : c'.pc = c.pc) : SameWriters c c' := fun u => .inl (by rw [h])

/-- A caller that is no waiting writer, and is none after, moved. -/
theorem update {p : Pc} (ht : ¬ InFlight c.pc .write t)
    (hp : ∀ seq timed i, p ≠ .waiting .write seq timed i)
    (hpc : c'.pc = Function.update c.pc t p) : SameWriters c c' := by
  intro u
  rw [hpc]
  by_cases hut : u = t
  · subst hut
    refine .inr ⟨ht, ?_⟩
    rintro ⟨seq, timed, i, h⟩
    rw [Function.update_self] at h
    exact hp seq timed i h
  · exact .inl (Function.update_of_ne hut ..)

omit [DecidableEq τ] in
/-- A writer that waits still stands where it stood. -/
theorem pc_eq (h : SameWriters c c') (hu : InFlight c'.pc .write u) : c'.pc u = c.pc u :=
  (h u).resolve_right fun hno => hno.2 hu

omit [DecidableEq τ] in
/-- A writer that waits did so before. -/
theorem inFlight (h : SameWriters c c') (hu : InFlight c'.pc .write u) :
    InFlight c.pc .write u := by
  simpa only [InFlight, h.pc_eq hu] using hu

omit [DecidableEq τ] in
/-- And under the same number. -/
theorem waits (h : SameWriters c c') {n : ℕ} (hu : Waits c' .write u n) :
    Waits c .write u n := by
  simpa only [Waits, h.pc_eq hu.inFlight] using hu

omit [DecidableEq τ] in
/-- Whoever is on its way was so before, if its waiter object did not change. -/
theorem onWay (h : SameWriters c c') (hw : c'.lock.waiter .write u = c.lock.waiter .write u)
    (hu : OnWay c'.lock c'.pc .write u) : OnWay c.lock c.pc .write u := by
  refine ⟨h.inFlight hu.1, fun hasleep => hu.2 ?_⟩
  simpa only [Asleep, hw, h.pc_eq hu.1] using hasleep

end SameWriters

namespace InLine

/-! ### What moves the line -/

omit [DecidableEq τ] in
/-- Nobody stands in line at a new lock. -/
theorem init : InLine ({} : System τ) where
  sorted := .nil
  awake t seq timed h := by cases h
  first t ht := by
    obtain ⟨⟨_, _, _, h⟩, -⟩ := ht
    cases h
  turn h := by cases h

omit [DecidableEq τ] in
/-- While no writer is admitted, none is on its way. -/
theorem quieted (h : InLine c) (hno : ¬ LockClass.fair.AdmitsWriter c.lock) : Quieted c :=
  fun t ht => hno (h.first t ht).1

omit [DecidableEq τ] in
/-- A signalled writer is the only one. -/
theorem onWay_unique (h : InLine c) (ht : OnWay c.lock c.pc .write t)
    (hu : OnWay c.lock c.pc .write u) : u = t := by
  by_contra hut
  obtain ⟨n, timed, i, hn⟩ := ht.1
  obtain ⟨m, timed', i', hm⟩ := hu.1
  have htn : Waits c .write t n := ⟨_, _, hn⟩
  have hum : Waits c .write u m := ⟨_, _, hm⟩
  have h₁ := (h.first t ht).2 u hut n m htn hum
  have h₂ := (h.first u hu).2 t (Ne.symm hut) m n hum htn
  omega

omit [DecidableEq τ] in
/-- The line stays as it is. -/
theorem same (h : InLine c) (hcond : c'.lock.write.condition = c.lock.write.condition)
    (hpc : SameWriters c c')
    (hadm : Quieted c ∨
      (LockClass.fair.AdmitsWriter c.lock → LockClass.fair.AdmitsWriter c'.lock))
    (hturn : c'.lock.readersTurn = true → c'.lock.writerOwner = none) : InLine c' where
  sorted := by
    rw [RWLock.queue, hcond]
    exact h.sorted.imp fun hlt n m hn hm => hlt n m (hpc.waits hn) (hpc.waits hm)
  awake t seq timed ht := by
    have heq := hpc.pc_eq ⟨_, _, _, ht⟩
    exact h.awake t seq timed (heq ▸ ht)
  first t ht := by
    have ht' : OnWay c.lock c.pc .write t := hpc.onWay (by rw [RWLock.waiter, hcond]) ht
    refine ⟨hadm.resolve_left (fun hq => hq t ht') (h.first t ht').1, fun u hut n m hn hm => ?_⟩
    exact (h.first t ht').2 u hut n m (hpc.waits hn) (hpc.waits hm)
  turn := hturn

/-- With nobody signalled, whoever waits is in the queue, and the queue is pending. -/
theorem mem_queue (hq : Quieted c) (hw : WellFormed .fair c.lock c.pc)
    (ht : InFlight c.pc .write t) : t ∈ c.lock.queue .write := by
  by_contra hno
  exact hq t ⟨ht, fun hasleep => hno (hw.mem_of_asleep hasleep)⟩

/-- Whoever stands in line was not cancelled. -/
theorem pending (h : InLine c) (hw : WellFormed .fair c.lock c.pc)
    (ht : t ∈ c.lock.queue .write) : c.lock.waiter .write t = .pending := by
  refine (hw.queued .write t ht).resolve_right fun hcancel => ?_
  obtain ⟨seq, timed, i, hpc⟩ := hw.inFlight_of_mem ht
  obtain rfl := hw.cancelled .write t seq timed i hpc hcancel
  exact h.awake t seq timed hpc

/-- **A signal to the head of the line**, at a moment when a writer is admitted. -/
theorem signalled (h : InLine c) (hw : WellFormed .fair c.lock c.pc) (hq : Quieted c)
    (hcond : c'.lock.write.condition = c.lock.write.condition.notify 1)
    (hpc : SameWriters c c') (hadm : LockClass.fair.AdmitsWriter c'.lock) : InLine c' where
  sorted := by
    rw [RWLock.queue, hcond]
    refine (h.sorted.sublist (WaitQueue.notify_suffix _ 1).sublist).imp fun hlt n m hn hm => ?_
    exact hlt n m (hpc.waits hn) (hpc.waits hm)
  awake t seq timed ht := by
    have heq := hpc.pc_eq ⟨_, _, _, ht⟩
    exact h.awake t seq timed (heq ▸ ht)
  first t ht := by
    refine ⟨hadm, fun u hut n m hn hm => ?_⟩
    have hstate := WaitQueue.notify_one_state (hw.nodup .write) fun v hv => h.pending hw hv
    -- the waiter object of `t` changed, so `t` is the head
    have hhead : (c.lock.queue .write).head? = some t := by
      by_contra hne
      have hsame : c'.lock.waiter .write t = c.lock.waiter .write t := by
        rw [RWLock.waiter, hcond, hstate t, if_neg hne]
      exact hq t (hpc.onWay hsame ht)
    obtain ⟨vs, hvs⟩ := List.head?_eq_some_iff.1 hhead
    have hu := mem_queue hq hw (hpc.inFlight hm.inFlight)
    have hsorted := h.sorted
    rw [hvs] at hu hsorted
    exact (List.pairwise_cons.1 hsorted).1 u ((List.mem_cons.1 hu).resolve_left hut) n m
      (hpc.waits hn) (hpc.waits hm)
  turn _ := hadm.1

end InLine

/-! ### The signals of a strict fair lock -/

/-- What a hook does to the writers' queue: nothing, or it signals the head of it, when
nobody reads and the turn is off. -/
def CallsOne (s s' : RWLock τ) : Prop :=
  s'.write.condition = s.write.condition ∨
    s.readersActive = 0 ∧ s'.readersTurn = false ∧
      s'.write.condition = s.write.condition.notify 1

theorem write_notify_read (s : RWLock τ) (n : ℤ) : (s.notify .read n).write = s.write := by
  simp [RWLock.notify, RWLock.onQueue, RWLock.onProxy_proxy]

theorem condition_notify_write (s : RWLock τ) (n : ℤ) :
    (s.notify .write n).write.condition = s.write.condition.notify n := by
  simp [RWLock.notify, RWLock.onQueue]

theorem write_wakeWaitingReader (s : RWLock τ) :
    (RWLockFairMixin.wakeWaitingReader s).write = s.write := by
  unfold RWLockFairMixin.wakeWaitingReader
  split_ifs
  · rfl
  · exact write_notify_read ..

theorem write_startReaderPhase (s : RWLock τ) :
    (RWLockFairMixin.startReaderPhase s).write = s.write := by
  unfold RWLockFairMixin.startReaderPhase
  dsimp only
  split_ifs
  · exact write_wakeWaitingReader _
  · rfl

/-- The end of a phase signals the first writer, or nobody. -/
theorem callsOne_finishOrContinue {s : RWLock τ} (hra : s.readersActive = 0) :
    CallsOne s (RWLockFairMixin.finishOrContinueReaderPhase s) := by
  unfold RWLockFairMixin.finishOrContinueReaderPhase
  dsimp only
  split_ifs
  · exact .inl (congrArg Proxy.condition (write_wakeWaitingReader s))
  · exact .inr ⟨hra, rfl, condition_notify_write ..⟩
  · exact .inl rfl

/-- A reader that leaves signals the first writer, or nobody. -/
theorem callsOne_onReaderLeave (s : RWLock τ) :
    CallsOne s (LockClass.fair.onReaderLeave s) := by
  simp only [LockClass.onReaderLeave, LockClass.policy]
  split_ifs with hra
  · exact callsOne_finishOrContinue (by simpa using hra)
  · exact .inl rfl

/-- So does a reader that gives up. -/
theorem callsOne_onReaderAbort (s : RWLock τ) (seq : ℕ) :
    CallsOne s (LockClass.fair.onReaderAbort s (some seq)) := by
  obtain ⟨pending, hspend⟩ : ∃ pending, RWLockFairMixin.consumeReaderPhaseSlot s true (some seq) =
      { s with readerPhasePending := pending } := by
    unfold RWLockFairMixin.consumeReaderPhaseSlot
    split_ifs
    · exact ⟨_, rfl⟩
    · exact ⟨s.readerPhasePending, rfl⟩
  rw [LockClass.onReaderAbort, RWLockFairMixin.onReaderAbort_eq, hspend]
  dsimp only
  split_ifs with hwake hfinish
  · exact .inl (congrArg Proxy.condition (write_wakeWaitingReader _))
  · have hra : s.readersActive = 0 := by simpa using (Bool.and_eq_true_iff.1 hfinish).2
    exact callsOne_finishOrContinue (s := { s with readerPhasePending := pending }) hra
  · exact .inl rfl

/-- Outside a phase a reader that gives up changes nothing. -/
theorem onReaderAbort_off {s : RWLock τ} (hturn : s.readersTurn = false) (seq : Option ℕ) :
    LockClass.fair.onReaderAbort s seq = s := by
  simp [LockClass.onReaderAbort, RWLockFairMixin.onReaderAbort, hturn]

/-- So does the last release of a writer. -/
theorem callsOne_onWriterAbort {s : RWLock τ} (hra : s.readersActive = 0)
    (hturn : s.readersTurn = false) : CallsOne s (LockClass.fair.onWriterAbort s none) := by
  simp only [LockClass.onWriterAbort, RWLockReaderPhaseFairMixin.onWriterAbort]
  split_ifs
  · exact .inl (congrArg Proxy.condition (write_startReaderPhase s))
  · exact .inr ⟨hra, hturn, condition_notify_write ..⟩
  · exact .inl rfl

theorem write_onReaderEnter (waiting : Bool) (waiterSeq : Option ℕ) (s : RWLock τ) :
    (LockClass.fair.onReaderEnter waiting waiterSeq s).write = s.write := by
  have hspend : (RWLockFairMixin.consumeReaderPhaseSlot s waiting waiterSeq).write = s.write := by
    unfold RWLockFairMixin.consumeReaderPhaseSlot
    split_ifs <;> rfl
  simp only [LockClass.onReaderEnter, LockClass.policy]
  split_ifs
  · exact (write_wakeWaitingReader _).trans hspend
  · exact hspend

theorem write_onDowngrade (s : RWLock τ) : (LockClass.fair.onDowngrade s).write = s.write :=
  write_startReaderPhase s

omit [DecidableEq τ] in
/-- A stretch of bookkeeping does not reach the writers' queue. -/
theorem condition_stopWaiting (s : RWLock τ) (m : Mode) :
    (s.stopWaiting m).write.condition = s.write.condition := by
  cases m <;> simp [RWLock.stopWaiting, RWLock.onProxy_proxy]

omit [DecidableEq τ] in
theorem condition_startWaiting (s : RWLock τ) (m : Mode) :
    (s.startWaiting m).write.condition = s.write.condition := by
  cases m <;> simp [RWLock.startWaiting, RWLock.onProxy_proxy]

omit [DecidableEq τ] in
theorem condition_onQueue_read (s : RWLock τ) (f : WaitQueue τ → WaitQueue τ) :
    (s.onQueue .read f).write.condition = s.write.condition := by
  simp [RWLock.onQueue, RWLock.onProxy_proxy]

omit [DecidableEq τ] in
theorem condition_onQueue_write (s : RWLock τ) (f : WaitQueue τ → WaitQueue τ) :
    (s.onQueue .write f).write.condition = f s.write.condition := by
  simp [RWLock.onQueue]

/-- A plain class lets nobody in on account of its own hold. -/
theorem canWrite_iff_admits (hw : WellFormed .fair c.lock c.pc) (t : τ) :
    LockClass.fair.canWrite c.lock (some t) false none = true ↔
      LockClass.fair.AdmitsWriter c.lock := by
  have hsome : some t ≠ none := by simp
  refine (hw.books.canWrite_iff hsome false none).trans ?_
  simp [LockClass.reentrant]

namespace InLine

/-! ### What a step does to the line -/

omit [DecidableEq τ] in
/-- Nobody is signalled while somebody reads. -/
theorem quieted_of_reading (h : InLine c) (hra : c.lock.readersActive ≠ 0) : Quieted c :=
  h.quieted fun hadm => hra hadm.2.1

omit [DecidableEq τ] in
/-- While the lock is owned, no writer is on its way. -/
theorem quieted_of_owner (h : InLine c) (ho : LockClass.fair.owner c.lock ≠ none) : Quieted c :=
  h.quieted fun hadm => ho hadm.1

omit [DecidableEq τ] in
/-- While the turn is on, no writer is on its way. -/
theorem quieted_of_turn (h : InLine c) (hts : TurnServed .fair c.lock)
    (hturn : c.lock.readersTurn = true) : Quieted c :=
  h.quieted fun hadm => by cases hturn.symm.trans (hts.turn_off (.inr rfl) hadm)

/-- Nobody owns a plain lock while somebody reads. -/
theorem free_of_reading (hw : WellFormed .fair c.lock c.pc) {k : Option τ}
    (hk : 0 < c.lock.readerOwners.count k) : c.lock.writerOwner = none :=
  (hw.books.exclusive k hk).resolve_right fun hre => by cases hre.1

/-- Nobody is signalled when a reader is let in. -/
theorem quieted_of_reader (h : InLine c) (hw : WellFormed .fair c.lock c.pc) {waiting : Bool}
    {waiterSeq : Option ℕ} (hadm : LockClass.fair.AdmitsReader c.lock waiting waiterSeq) :
    Quieted c := by
  intro t ht
  have hpos : 0 < c.lock.write.thoseWaiting := hw.thoseWaiting_pos ht.1
  rcases hadm.2 with hz | ⟨hturn, hres⟩
  · omega
  · refine (h.first t ht).1.2.2 ⟨hturn, ?_⟩
    cases waiterSeq with
    | none => cases hres
    | some seq =>
        unfold RWLockFairMixin.isReservedReader at hres
        split_ifs at hres
        simp only [Bool.and_eq_true, decide_eq_true_eq] at hres
        exact hres.2

/-- A hook that runs while nobody owns the lock and nobody is signalled. -/
theorem hook {s s' : RWLock τ} (h : InLine c) (hw : WellFormed .fair c.lock c.pc)
    (hq : Quieted c) (hpc : SameWriters c c')
    (hs : s.write.condition = c.lock.write.condition) (ho : s.writerOwner = none)
    (hsig : Signals s s') (hcalls : CallsOne s s') (hlock : c'.lock = s') : InLine c' := by
  have ho' : c'.lock.writerOwner = none := by rw [hlock, hsig.writerOwner, ho]
  rcases hcalls with hcond | ⟨hra, hturn, hcond⟩
  · exact h.same (by rw [hlock, hcond, hs]) hpc (.inl hq) fun _ => ho'
  · refine h.signalled hw hq (by rw [hlock, hcond, hs]) hpc ⟨ho', ?_, fun hon => ?_⟩
    · rw [hlock, hsig.readersActive, hra]
    · have hon := hon.1
      rw [hlock, hturn] at hon
      cases hon

/-- A reader releases, whatever becomes of the marker. -/
theorem leave_read (h : InLine c) (hw : WellFormed .fair c.lock c.pc) {k : Option τ}
    (hk : 0 < c.lock.readerOwners.count k) (marker : Option τ) (holds : Holds (Option τ)) :
    InLine { c with
      lock := LockClass.fair.onReaderLeave ({ c.lock with downgraded := marker }.dropReader k)
      holds := holds } :=
  h.hook (s := { c.lock with downgraded := marker }.dropReader k) hw
    (h.quieted_of_reading (hw.books.readersActive_pos hk).ne') (.of_eq rfl) rfl
    (free_of_reading hw hk) (LockClass.fair.signals_onReaderLeave _) (callsOne_onReaderLeave _) rfl

/-- A reader gives up. -/
theorem abort_read (h : InLine c) (hw : WellFormed .fair c.lock c.pc)
    (hts : TurnServed .fair c.lock) (ht : InFlight c.pc .read t) (seq : ℕ) :
    InLine (c.abort .fair t .read seq) := by
  have hno : ¬ InFlight c.pc .write t := fun hwrite => by cases ht.mode_eq hwrite
  have hpc : SameWriters c (c.abort .fair t .read seq) :=
    .update (p := .idle) hno (by simp) rfl
  cases hturn : c.lock.readersTurn with
  | false =>
      have hlock : (c.abort .fair t .read seq).lock = c.lock.stopWaiting .read :=
        onReaderAbort_off (s := c.lock.stopWaiting .read) hturn (some seq)
      refine h.same (by rw [hlock, condition_stopWaiting]) hpc (.inr fun hadm => ?_) fun hon => ?_
      · rw [hlock]
        exact hadm
      · rw [hlock] at hon
        cases hturn.symm.trans hon
  | true =>
      exact h.hook hw (h.quieted_of_turn hts hturn) hpc (condition_stopWaiting c.lock .read)
        (h.turn hturn) (LockClass.fair.signals_onReaderAbort (c.lock.stopWaiting .read) (some seq))
        (callsOne_onReaderAbort (c.lock.stopWaiting .read) seq) rfl

omit [DecidableEq τ] in
/-- Away from the writers and from what they are admitted by, nothing changes for the line. -/
theorem aside (h : InLine c) (hcond : c'.lock.write.condition = c.lock.write.condition)
    (hpc : SameWriters c c') (ho : c'.lock.writerOwner = c.lock.writerOwner)
    (hra : c'.lock.readersActive = c.lock.readersActive)
    (hturn : c'.lock.readersTurn = c.lock.readersTurn)
    (hpend : c'.lock.readerPhasePending = c.lock.readerPhasePending) : InLine c' := by
  refine h.same hcond hpc (.inr fun hadm => ⟨?_, ?_, ?_⟩) fun hon => ?_
  · exact ho.trans hadm.1
  · exact hra.trans hadm.2.1
  · simpa only [LockClass.policy, hturn, hpend] using hadm.2.2
  · rw [ho]
    exact h.turn (hturn ▸ hon)

/-- A reader ends its wait. -/
theorem endWait_read (h : InLine c) (t : τ) (i : Bool) : InLine (c.endWait t .read i) :=
  h.aside (condition_onQueue_read c.lock fun q =>
    (if i then q.discardWaiter t else q).dropWaiter t) (.of_eq rfl) rfl rfl rfl rfl

/-- The wait loop of a reader. -/
theorem looped_read (h : InLine c) (hw : WellFormed .fair c.lock c.pc)
    (hts : TurnServed .fair c.lock) (ht : InFlight c.pc .read t) {seq : ℕ} {timed : Bool}
    (hloop : Looped rt .fair c t .read seq timed o c') : InLine c' := by
  have hno : ¬ InFlight c.pc .write t := fun hwrite => by cases ht.mode_eq hwrite
  cases hloop with
  | enters hadm =>
      have hs := LockClass.fair.signals_onReaderEnter true (some seq) (c.lock.enterReader (some t))
      rw [← LockClass.acquireReadCore_eq] at hs
      refine h.same ?_ (.update (p := .idle) hno (by simp) rfl)
        (.inl (h.quieted_of_reader hw hadm)) fun _ => ?_
      · refine (condition_stopWaiting _ .read).trans ?_
        rw [LockClass.acquireCore, LockClass.acquireReadCore_eq]
        exact congrArg Proxy.condition (write_onReaderEnter _ _ _)
      · exact hs.writerOwner.trans hadm.1
  | givesUp => exact h.abort_read hw hts ht seq
  | parks =>
      exact h.aside (condition_onQueue_read c.lock fun q => q.appendWaiter t)
        (.update hno (by simp) rfl) rfl rfl rfl rfl

/-- **A writer parks** behind everybody else. -/
theorem parks (h : InLine c) (hw : WellFormed .fair c.lock c.pc) (hpc : c.pc t = .idle)
    (hno : ¬ LockClass.fair.AdmitsWriter c.lock) (timed : Bool)
    (hcond : c'.lock.write.condition = c.lock.write.condition.appendWaiter t)
    (hpc' : c'.pc = Function.update c.pc t
      (.waiting .write (c.lock.write.waiterSeq + 1) timed false))
    (hturn : c'.lock.readersTurn = c.lock.readersTurn)
    (ho : c'.lock.writerOwner = c.lock.writerOwner) : InLine c' := by
  have hother : ∀ {u n}, u ≠ t → Waits c' .write u n → Waits c .write u n := by
    intro u n hut hu
    simpa only [Waits, hpc', Function.update_of_ne hut] using hu
  have hself : ∀ {n}, Waits c' .write t n → n = c.lock.write.waiterSeq + 1 := by
    rintro n ⟨timed', i, hn⟩
    rw [hpc', Function.update_self] at hn
    cases hn
    rfl
  have hne : ∀ {u}, u ∈ c.lock.queue .write → u ≠ t := by
    rintro u hu rfl
    exact not_inFlight_of_idle hpc .write (hw.inFlight_of_mem hu)
  refine ⟨?_, fun u seq timed' hu => ?_, fun u hu => ?_, fun hon => ?_⟩
  · have hlist : c'.lock.queue .write = c.lock.queue .write ++ [t] := by
      rw [RWLock.queue, hcond]
      rfl
    rw [hlist]
    refine List.pairwise_append.2 ⟨?_, List.pairwise_singleton .., fun u hu v hv n m hn hm => ?_⟩
    · refine h.sorted.imp_of_mem fun hu hv hlt n m hn hm => ?_
      exact hlt n m (hother (hne hu) hn) (hother (hne hv) hm)
    · obtain rfl := List.mem_singleton.1 hv
      obtain ⟨_, _, hn⟩ := hother (hne hu) hn
      have hle : n ≤ c.lock.write.waiterSeq := hw.seq_le .write u n _ _ hn
      have hm := hself hm
      omega
  · by_cases hut : u = t
    · subst hut
      rw [hpc', Function.update_self] at hu
      cases hu
    · rw [hpc', Function.update_of_ne hut] at hu
      exact h.awake u seq timed' hu
  · refine absurd ?_ (h.quieted hno u)
    have hut : u ≠ t := by
      rintro rfl
      refine hu.2 ⟨?_, _, timed, by rw [hpc', Function.update_self]⟩
      rw [RWLock.waiter, hcond]
      simp [WaitQueue.appendWaiter]
    have hwaiter : c'.lock.waiter .write u = c.lock.waiter .write u := by
      rw [RWLock.waiter, hcond]
      simp [WaitQueue.appendWaiter, hut]
    simpa only [OnWay, InFlight, Asleep, hwaiter, hpc', Function.update_of_ne hut] using hu
  · rw [ho]
    exact h.turn (hturn ▸ hon)

/-- **The signalled writer enters.** -/
theorem enters (h : InLine c) (ht : OnWay c.lock c.pc .write t) {p : Pc}
    (hp : ∀ m seq timed i, p ≠ .waiting m seq timed i)
    (hts : TurnServed .fair c.lock)
    (hcond : c'.lock.write.condition = c.lock.write.condition.dropWaiter t)
    (hpc' : c'.pc = Function.update c.pc t p)
    (hturn : c'.lock.readersTurn = c.lock.readersTurn) : InLine c' := by
  have hout : ∀ {u}, InFlight c'.pc .write u → u ≠ t := by
    rintro u hu rfl
    rw [hpc'] at hu
    exact not_inFlight_update hp .write hu
  have hother : ∀ {u n}, Waits c' .write u n → Waits c .write u n := by
    intro u n hu
    have hut := hout hu.inFlight
    simpa only [Waits, hpc', Function.update_of_ne hut] using hu
  refine ⟨?_, fun u seq timed hu => ?_, fun u hu => ?_, fun hon => ?_⟩
  · rw [RWLock.queue, hcond]
    exact h.sorted.imp fun hlt n m hn hm => hlt n m (hother hn) (hother hm)
  · have hut := hout ⟨_, _, _, hu⟩
    rw [hpc', Function.update_of_ne hut] at hu
    exact h.awake u seq timed hu
  · have hut := hout hu.1
    have hwaiter : c'.lock.waiter .write u = c.lock.waiter .write u := by
      rw [RWLock.waiter, hcond]
      simp [WaitQueue.dropWaiter, hut]
    have hu' : OnWay c.lock c.pc .write u := by
      simpa only [OnWay, InFlight, Asleep, hwaiter, hpc', Function.update_of_ne hut] using hu
    exact absurd (h.onWay_unique ht hu') hut
  · rw [hturn, hts.turn_off (.inr rfl) (h.first t ht).1] at hon
    cases hon

omit [DecidableEq τ] in
/-- A waiting writer that goes on was signalled. -/
theorem onWay (h : InLine c) {seq : ℕ} {timed i : Bool} (hpc : c.pc t = .waiting .write seq timed i)
    (hon : c.lock.waiter .write t = .pending → i = true) :
    i = false ∧ OnWay c.lock c.pc .write t := by
  have hi : i = false := by
    cases i with
    | false => rfl
    | true => exact absurd hpc (h.awake t seq timed)
  refine ⟨hi, ⟨_, _, _, hpc⟩, fun hasleep => ?_⟩
  cases hi.symm.trans (hon hasleep.1)

/-- A reader that enters on the fast path. -/
theorem enters_read (h : InLine c) (hw : WellFormed .fair c.lock c.pc) (hpc : c.pc t = .idle)
    (hcan : LockClass.fair.canAcquire .read c.lock (some t) false none = true) :
    InLine
      (c.succeed rt t (LockClass.fair.acquireCore .read c.lock (some t) false none) .read).2 := by
  have hsome : some t ≠ none := by simp
  have hs := LockClass.fair.signals_onReaderEnter false none (c.lock.enterReader (some t))
  rw [← LockClass.acquireReadCore_eq] at hs
  have hcond : (LockClass.fair.acquireReadCore c.lock (some t) false none).write.condition =
      c.lock.write.condition := by
    rw [LockClass.acquireReadCore_eq]
    exact congrArg Proxy.condition (write_onReaderEnter ..)
  obtain ⟨hq, ho⟩ : Quieted c ∧ c.lock.writerOwner = none := by
    rcases (hw.books.canRead_iff hsome false none).1 hcan with hadm | hre | ⟨ho, hk⟩
    · exact ⟨h.quieted_of_reader hw hadm, hadm.1⟩
    · cases hre.1
    · exact ⟨h.quieted_of_reading (hw.books.readersActive_pos hk).ne', ho⟩
  exact h.same hcond (.update (p := .idle) (not_inFlight_of_idle hpc .write) (by simp) rfl)
    (.inl hq) fun _ => hs.writerOwner.trans ho

omit [DecidableEq τ] in
/-- A write acquisition ends outside the line, and changes the marker besides. -/
theorem succeed_write [DecidableEq τ] (rt : Runtime) (c : System τ) (t : τ) (s : RWLock τ) :
    ∃ p k, (∀ m seq timed i, p ≠ Pc.waiting m seq timed i) ∧
      (c.succeed rt t s .write).2.pc = Function.update c.pc t p ∧
      (c.succeed rt t s .write).2.lock = { s with downgraded := k } := by
  cases rt with
  | thread => exact ⟨.clearing, s.downgraded, by simp, rfl, rfl⟩
  | async => exact ⟨.idle, none, by simp, rfl, rfl⟩

/-- **A step that does not barge keeps the line.** -/
theorem step (h : InLine c) (hw : WellFormed .fair c.lock c.pc) (hts : TurnServed .fair c.lock)
    (hst : c.step rt .fair a = some (o, c')) (ha : a.caller = some t)
    (hpat : ¬ WriterGivesUp c a o) (hbarge : ¬ Barges c a) : InLine c' := by
  have hcollide : ∀ {p : Pc}, c.pc t = p → (∀ seq timed i, p ≠ .waiting .write seq timed i) →
      ¬ InFlight c.pc .write t := by
    rintro p hpc hp ⟨seq, timed, i, h⟩
    exact hp seq timed i (hpc.symm.trans h)
  cases step_deed hw hst ha with
  | rejected | refused | leaveRaises | downgradeRaises => exact h
  | @enters m p _ hpc hcan =>
      cases m with
      | read => exact h.enters_read hw hpc hcan
      | write =>
          have hadm := (canWrite_iff_admits hw t).1 hcan
          have hq : Quieted c := fun u hu => hbarge ⟨hw.thoseWaiting_pos hu.1, hcan⟩
          obtain ⟨p, k, hp, hpc', hlock⟩ := succeed_write rt c t
            (LockClass.fair.acquireCore .write c.lock (some t) false none)
          refine h.same (by rw [hlock]; rfl)
            (.update (hcollide hpc (by simp)) (hp .write) hpc') (.inl hq) fun hon => ?_
          rw [hlock] at hon
          cases (hts.turn_off (.inr rfl) hadm).symm.trans hon
  | @waits m p _ _ _ hpc hp hno hstr hloop =>
      cases m with
      | read =>
          have hreg : Move (fun _ _ => True) rt .fair c (c.register t .read (p = .timed)) :=
            .register .read _ hpc hstr
          have hline : InLine (c.register t .read (p = .timed)) :=
            h.aside (condition_startWaiting c.lock .read)
              (.update (hcollide hpc (by simp)) (by simp) rfl) rfl rfl rfl rfl
          exact hline.looped_read (hreg.wellFormed hw) hts ⟨_, _, _, Function.update_self ..⟩ hloop
      | write =>
          have hno' : ¬ LockClass.fair.AdmitsWriter c.lock := fun hadm => by
            cases hno.symm.trans ((canWrite_iff_admits hw t).2 hadm)
          cases hloop with
          | enters hadm => exact absurd hadm hno'
          | givesUp => exact absurd ⟨.inl rfl, rfl, hp⟩ hpat
          | parks =>
              refine h.parks hw hpc hno' (p = .timed) ?_ (Function.update_idem ..) rfl rfl
              exact (condition_onQueue_write (c.lock.startWaiting .write) fun q =>
                q.appendWaiter t).trans (congrArg (fun q => q.appendWaiter t)
                  (condition_startWaiting c.lock .write))
  | @goesOn m seq timed i _ _ _ hpc hon hrt hloop =>
      cases m with
      | read =>
          have hend : Move (fun _ _ => True) rt .fair c (c.endWait t .read i) := .endWait hpc hon
          have hline : InLine (c.endWait t .read i) := h.endWait_read t i
          exact hline.looped_read (hend.wellFormed hw) hts ⟨_, _, _, hpc⟩ hloop
      | write =>
          obtain ⟨rfl, hway⟩ := h.onWay hpc hon
          cases hloop with
          | enters =>
              obtain ⟨p, k, hp, hpc', hlock⟩ := succeed_write rt (c.endWait t .write false) t
                ((LockClass.fair.acquireCore .write (c.endWait t .write false).lock (some t) true
                  (some seq)).stopWaiting .write)
              refine h.enters hway hp hts ?_ hpc' (by rw [hlock]; rfl)
              rw [hlock]
              exact (condition_stopWaiting _ .write).trans (condition_onQueue_write c.lock fun q =>
                (if false then q.discardWaiter t else q).dropWaiter t)
          | givesUp _ hno | parks hno => exact absurd (h.first t hway).1 hno
  | @cancelled m seq timed _ hrt hpc =>
      cases m with
      | read =>
          have hend : Move (fun _ _ => True) rt .fair c (c.endWait t .read true) :=
            .endWait hpc fun _ => rfl
          have hline : InLine (c.endWait t .read true) := h.endWait_read t true
          exact hline.abort_read (hend.wellFormed hw) hts ⟨_, _, _, hpc⟩ seq
      | write => exact absurd ⟨.inr rfl, _, _, _, hpc⟩ hpat
  | @timesOut m seq hrt hpc hpend =>
      cases m with
      | read =>
          have hno := hcollide hpc (by simp)
          exact h.aside rfl (.update hno (by simp) rfl) rfl rfl rfl rfl
      | write => exact absurd ⟨_, _, _, hpc⟩ hpat
  | @isCancelled m seq timed hrt hpc =>
      cases m with
      | read =>
          have hno := hcollide hpc (by simp)
          exact h.aside (condition_onQueue_read c.lock fun q => q.cancelWaiter t)
            (.update hno (by simp) rfl) rfl rfl rfl rfl
      | write => exact absurd ⟨_, _, _, hpc⟩ hpat
  | clears hpc =>
      exact h.aside rfl (.update (hcollide hpc (by simp)) (by simp) rfl) rfl rfl rfl rfl
  | leaves _ hcount => exact h.leave_read hw hcount c.lock.downgraded _
  | routed _ _ hcount =>
      obtain ⟨k, hunmark⟩ := c.lock.unmark_frame (some t)
      rw [hunmark]
      exact h.leave_read hw hcount k _
  | countsDown _ hre => cases hre
  | frees _ ho =>
      obtain ⟨k, hunmark⟩ := c.lock.unmark_frame (some t)
      have hturn : c.lock.readersTurn = false := by
        by_contra hon
        exact ho (h.turn (by simpa using hon))
      have hra : c.lock.readersActive = 0 := hw.books.readersActive_eq_zero_iff.2 fun k => by
        by_contra hk
        exact ho (free_of_reading hw (Nat.pos_of_ne_zero hk))
      rw [hunmark]
      exact h.hook (s := { c.lock with downgraded := k }.freeWriter) hw (h.quieted_of_owner ho)
        (.of_eq rfl) rfl rfl (LockClass.fair.signals_onWriterAbort _ none)
        (callsOne_onWriterAbort hra hturn) rfl
  | freeRaises =>
      obtain ⟨k, hunmark⟩ := c.lock.unmark_frame (some t)
      rw [hunmark]
      exact h.aside rfl (.of_eq rfl) rfl rfl rfl rfl
  | downgrades _ ho =>
      refine h.same (congrArg Proxy.condition (write_onDowngrade _)) (.of_eq rfl)
        (.inl (h.quieted_of_owner (by simp [ho]))) fun _ => ?_
      exact (LockClass.fair.signals_onDowngrade _).writerOwner

end InLine

/-! ### Along a run -/

/-- **Whoever acquires is first in line**, if the step does not barge. -/
theorem InLine.first_acquires (h : InLine c) (hw : WellFormed .fair c.lock c.pc)
    (hst : c.step rt .fair a = some (.acquired .write, c')) (ha : a.caller = some t)
    (hbarge : ¬ Barges c a) {n : ℕ} (hut : u ≠ t) (hu : Waits c .write u n) :
    ∃ m, Waits c .write t m ∧ m < n := by
  cases step_deed hw hst ha with
  | enters _ hcan => exact absurd ⟨hw.thoseWaiting_pos hu.inFlight, hcan⟩ hbarge
  | waits _ _ hno _ hloop =>
      cases hloop with
      | enters hadm => cases hno.symm.trans ((canWrite_iff_admits hw t).2 hadm)
  | @goesOn _ seq _ _ _ _ _ hpc hon _ hloop =>
      cases hloop with
      | enters =>
          have hway := (h.onWay hpc hon).2
          have htn : Waits c .write t seq := ⟨_, _, hpc⟩
          exact ⟨seq, htn, (h.first t hway).2 u hut seq n htn hu⟩

/-- Sequence numbers only grow. -/
theorem step_waiterSeq_le (hw : WellFormed .fair c.lock c.pc)
    (hst : c.step rt .fair a = some (o, c')) (ha : a.caller ≠ none) (m : Mode) :
    (c.lock.proxy m).waiterSeq ≤ (c'.lock.proxy m).waiterSeq := by
  have hmoves : Moves (fun _ _ => True) rt .fair c c' :=
    Step.moves ⟨o, hst⟩ hw ha fun _ _ => trivial
  exact hmoves.invariant (I := fun d => (c.lock.proxy m).waiterSeq ≤ (d.lock.proxy m).waiterSeq)
    (fun _ _ _ hle hmv => hle.trans (hmv.waiterSeq_le m)) hw le_rfl

/-- Whoever waits at the end of a run under a number handed out before it waited all along. -/
theorem waits_before {as : List (Action τ)} (hrun : Run (Queueing rt) c as c')
    (h : Reachable rt .fair c) {n : ℕ} (hn : n ≤ c.lock.write.waiterSeq)
    (ht : Waits c' .write t n) : Waits c .write t n := by
  induction hrun with
  | nil => exact ht
  | @cons c c₁ c' a as hst hrun ih =>
      obtain ⟨⟨hin, -⟩, o, hst⟩ := hst
      have hle : c.lock.write.waiterSeq ≤ c₁.lock.write.waiterSeq :=
        step_waiterSeq_le h.wellFormed hst hin .write
      rcases step_waits h.wellFormed hst hin (ih (h.step hst hin) (hn.trans hle) ht) with
        hwait | ⟨-, -, -, rfl⟩
      · exact hwait
      · exact absurd hn (by simp)

/-- Patient writers that never barge stay in line. -/
theorem inLine_run {as : List (Action τ)}
    (hrun : Run (restrict (fun c a => Patient rt c a ∧ ¬ Barges c a) (Step rt .fair)) {} as c) :
    Reachable rt .fair c ∧ InLine c := by
  refine hrun.invariant (I := fun c => Reachable rt .fair c ∧ InLine c) ?_
    ⟨Transition.Reachable.start rfl, .init⟩
  rintro c a c' ⟨h, hline⟩ ⟨⟨⟨hin, hpat⟩, hbarge⟩, o, hst⟩
  obtain ⟨t, ht⟩ := Option.ne_none_iff_exists'.1 hin
  exact ⟨h.step hst hin, hline.step h.wellFormed h.turnServed hst ht (hpat (o, c') hst) hbarge⟩

/-- A call that barges is let in before whoever waits. -/
theorem barges_acquires (h : Reachable rt .fair c) (hst : c.step rt .fair a = some (o, c'))
    (ha : a.caller = some t) (hbarge : Barges c a) :
    o = .acquired .write ∧ (∀ m, ¬ Waits c .write t m) ∧ ∃ u n, Waits c .write u n := by
  have hw := h.wellFormed
  cases a with
  | resume | interrupt | clear | release | downgrade => cases hbarge
  | acquire v m p expired =>
      cases m with
      | read => cases hbarge
      | write =>
          obtain rfl : v = t := Option.some.inj ha
          obtain ⟨hpos, hcan⟩ := hbarge
          obtain ⟨u, n, timed, i, hu⟩ := hw.exists_inFlight hpos
          have hdeed := step_deed hw hst rfl
          have hidle : c.pc v = .idle := by cases hdeed <;> assumption
          refine ⟨?_, fun m hm => ?_, u, n, timed, i, hu⟩
          · have hadm := (canWrite_iff_admits hw v).1 hcan
            cases hdeed with
            | rejected _ hno =>
                -- the caller would have to read, and nobody reads
                simp [LockClass.beforeAcquire, LockClass.checkWriteAcquireAllowed,
                  hadm.2.1] at hno
            | enters => rfl
            | refused _ hno => cases hno.symm.trans hcan
            | waits _ _ hno => cases hno.symm.trans hcan
          · exact not_inFlight_of_idle hidle .write hm.inFlight

/-- **The writers of a strict fair lock are served in order, except for barging.**  In a run
in which no waiting writer times out or is cancelled, no writer overtakes another
exactly if no call of `write.acquire()` is let in at once while writers wait. -/
theorem fair_writers_in_order {as : List (Action τ)} (hrun : Run (Queueing rt) {} as c) :
    ¬ Overtakes rt as ↔
      Run (restrict (fun c a => Patient rt c a ∧ ¬ Barges c a) (Step rt .fair)) {} as c := by
  constructor
  · intro hno
    by_contra hbroken
    obtain ⟨as₁, a, as₂, d, d', rfl, hrun₁, hpat, ⟨o, hst⟩, hbarge⟩ := hrun.broken hbroken
    obtain ⟨t, ht⟩ := Option.ne_none_iff_exists'.1 hpat.1
    have hd : Reachable rt .fair d :=
      ⟨_, _, rfl, hrun₁.mono fun _ _ _ hst => ⟨hst.1.1, hst.2⟩⟩
    obtain ⟨rfl, hnew, u, n, hu⟩ := barges_acquires hd hst ht (not_not.1 hbarge)
    exact hno ⟨as₁, [], as₂, a, rfl, d, d, d', t, u, n, hrun₁, .nil d, hst, ht, hnew, hu, hu⟩
  · rintro hrun' ⟨as₁, bs, as₂, a, rfl, c₁, d, d', t, u, n, hrun₁, hrun₂, hst, ha, hnew, hu, hu'⟩
    -- the run without barging passes through the same states
    obtain ⟨c₂, h₁, hrest⟩ := hrun'.split
    obtain ⟨d₂, h₂, hrest⟩ := hrest.split
    have hdet : ∀ (s : System τ) a s₁ s₂, Step rt .fair s a s₁ → Step rt .fair s a s₂ → s₁ = s₂ :=
      fun _ _ _ _ => Step.unique
    obtain rfl : c₂ = c₁ :=
      (h₁.mono fun _ _ _ h => h.2).unique hdet (hrun₁.mono fun _ _ _ h => h.2)
    obtain rfl : d₂ = d :=
      (h₂.mono fun _ _ _ h => h.2).unique hdet (hrun₂.mono fun _ _ _ h => h.2)
    have hc := (inLine_run h₁).1
    obtain ⟨hd, hline⟩ := inLine_run (h₁.append h₂)
    cases hrest with
    | cons hstep =>
        have hut : u ≠ t := by
          rintro rfl
          exact hnew n hu
        obtain ⟨m, hm, hmn⟩ := hline.first_acquires hd.wellFormed hst ha hstep.1.2 hut hu'
        -- the number of `t` is older than that of `u`, so `t` waited already
        obtain ⟨_, _, hpc⟩ := hu
        have hle : n ≤ c₂.lock.write.waiterSeq := hc.wellFormed.seq_le .write u n _ _ hpc
        exact hnew m (waits_before hrun₂ hc (by omega) hm)

/-- Two writers wait for a reader, and acquire one after the other. -/
theorem fair_writers_in_order_two : ∃ c : System ℕ, c.holds.writes (some 2) = 1 ∧
    ¬ Overtakes (τ := ℕ) .thread [.acquire 0 .read .forever false, .acquire 1 .write .forever false,
      .acquire 2 .write .forever false, .release (some 0) .read, .resume 1 false, .clear 1,
      .release (some 1) .write, .resume 2 false] := by
  have hrun : ((Transition.replay
      (next (fun c a => Patient .thread c a ∧ ¬ Barges c a) .thread .fair) ({} : System ℕ)
      [.acquire 0 .read .forever false, .acquire 1 .write .forever false,
        .acquire 2 .write .forever false, .release (some 0) .read, .resume 1 false, .clear 1,
        .release (some 1) .write, .resume 2 false]).map fun c =>
          c.holds.writes (some 2)) = some 1 := by
    decide
  obtain ⟨c, hc, hval⟩ := Option.map_eq_some_iff.1 hrun
  have hc := run_of_replay hc
  exact ⟨c, hval, (fair_writers_in_order (hc.mono fun _ _ _ h => ⟨h.1.1, h.2⟩)).2 hc⟩

/-- Thread `1` waits to write, the reader leaves, and thread `2` calls `write.acquire()`
before thread `1` runs. -/
theorem fair_writers_overtake : ∃ (as : List (Action ℕ)) (c : System ℕ),
    Run (Queueing .thread) {} as c ∧ Overtakes .thread as := by
  have hrun : ((Transition.replay (next (Patient .thread) .thread .fair) ({} : System ℕ)
      [.acquire 0 .read .forever false, .acquire 1 .write .forever false]).bind fun c =>
        (Transition.replay (next (Patient .thread) .thread .fair) c [.release (some 0) .read]).bind
          fun d => (next (Patient .thread) .thread .fair d (.acquire 2 .write .forever false)).map
            fun _ => (c.pc 1, c.pc 2, d.pc 1,
              (d.step .thread .fair (.acquire 2 .write .forever false)).map Prod.fst)) =
      some (.waiting .write 1 false false, .idle, .waiting .write 1 false false,
        some (.acquired .write)) := by
    decide
  obtain ⟨c, hc, hrun⟩ := Option.bind_eq_some_iff.1 hrun
  obtain ⟨d, hd, hrun⟩ := Option.bind_eq_some_iff.1 hrun
  obtain ⟨d', hd', hval⟩ := Option.map_eq_some_iff.1 hrun
  simp only [Prod.mk.injEq] at hval
  obtain ⟨h₁, h₂, h₃, hst⟩ := hval
  obtain ⟨⟨o, d''⟩, hst, rfl⟩ := Option.map_eq_some_iff.1 hst
  have hc := run_of_replay hc
  have hd := run_of_replay hd
  refine ⟨_, d', (hc.append hd).append (.single (next_step hd')), _, [.release (some 0) .read], [],
    _, rfl, c, d, d'', 2, 1, 1, hc, hd, hst, rfl, ?_, ⟨_, _, h₁⟩, _, _, h₃⟩
  rintro m ⟨timed, i, h⟩
  cases h₂.symm.trans h

end System

end Rwlocker

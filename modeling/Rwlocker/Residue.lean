/-
# What a run leaves behind

Every path out of `acquire`, `release` and `downgrade` undoes what it did, so a lock that
nobody uses is a lock that nobody used.

The waiting counters count the calls in flight and the queues hold nobody else
(`WellFormed`), the books agree with the holds (`Ledger`), a phase that is on has
somebody to serve (`TurnServed`, `Slots`), and the phase fields a policy has no use for
keep their defaults (`Unphased`).  What is left, the sequence numbers, an old cutoff and
an old marker, makes no difference to callers that give back holds of their own
(`BehavesAsNew`), and without the marker none to anybody.  `no_residue` puts them together.
-/

import Rwlocker.AsNew
import Rwlocker.Deed
import Rwlocker.Phases
import Rwlocker.Ledger

namespace Rwlocker

open ReadersWriter (Holds)
open RWLock (Signals)

variable {τ : Type} [DecidableEq τ]

/-- A policy leaves the phase fields it does not have alone. -/
def Unphased (cls : LockClass) (s : RWLock τ) : Prop :=
  match cls.policy with
  | .write | .read => s.readersTurn = false ∧ s.readerPhasePending = 0
  | .readerPhaseFair => s.readerPhasePending = 0
  | .fair => True

namespace Unphased

variable {cls : LockClass} {s s' : RWLock τ}

omit [DecidableEq τ] in
/-- Strict fair has all the phase fields. -/
theorem of_fair (hp : cls.policy = .fair) (s : RWLock τ) : Unphased cls s := by
  simp [Unphased, hp]

omit [DecidableEq τ] in
/-- Both branches of a test. -/
theorem ite {p : Prop} [Decidable p] (h : Unphased cls s) (h' : Unphased cls s') :
    Unphased cls (if p then s else s') := by
  split_ifs
  · exact h
  · exact h'

/-- A signal touches no phase field. -/
theorem notify (h : Unphased cls s) (m : Mode) (n : ℤ) : Unphased cls (s.notify m n) := h

omit [DecidableEq τ] in
/-- Reader-phase fair has a turn, and no slots. -/
theorem turn (hp : cls.policy = .readerPhaseFair) (h : Unphased cls s) (b : Bool) :
    Unphased cls { s with readersTurn := b } := by
  unfold Unphased at *
  simpa only [hp] using h

/-- Waking readers touches no phase field. -/
theorem wakeWaitingReader (h : Unphased cls s) :
    Unphased cls (RWLockReaderPhaseFairMixin.wakeWaitingReader s) :=
  .ite (h.notify .read _) h

/-- A turn begins without slots. -/
theorem startReaderPhase (hp : cls.policy = .readerPhaseFair) (h : Unphased cls s) :
    Unphased cls (RWLockReaderPhaseFairMixin.startReaderPhase s) :=
  (h.turn hp true).wakeWaitingReader

/-- A turn ends without slots. -/
theorem finishOrContinueReaderPhase (hp : cls.policy = .readerPhaseFair) (h : Unphased cls s) :
    Unphased cls (RWLockReaderPhaseFairMixin.finishOrContinueReaderPhase s) :=
  .ite h.wakeWaitingReader (.ite ((h.turn hp false).notify .write 1) (h.turn hp false))

/-- The hook of an entering reader. -/
theorem onReaderEnter (h : Unphased cls s) (waiting : Bool) (waiterSeq : Option ℕ) :
    Unphased cls (cls.onReaderEnter waiting waiterSeq s) := by
  unfold LockClass.onReaderEnter
  cases hp : cls.policy with
  | write | read => exact h
  | readerPhaseFair => exact .ite h.wakeWaitingReader h
  | fair => exact .of_fair hp _

/-- The hook of a leaving reader. -/
theorem onReaderLeave (h : Unphased cls s) : Unphased cls (cls.onReaderLeave s) := by
  unfold LockClass.onReaderLeave
  cases hp : cls.policy with
  | write | read => exact .ite (h.notify .write 1) h
  | readerPhaseFair => exact .ite (h.finishOrContinueReaderPhase hp) h
  | fair => exact .of_fair hp _

/-- The hook of a downgrade. -/
theorem onDowngrade (h : Unphased cls s) : Unphased cls (cls.onDowngrade s) := by
  unfold LockClass.onDowngrade
  cases hp : cls.policy with
  | write | read => exact .ite (h.notify .read _) h
  | readerPhaseFair => exact h.startReaderPhase hp
  | fair => exact .of_fair hp _

/-- The hook of a reader that gives up. -/
theorem onReaderAbort (h : Unphased cls s) (waiterSeq : Option ℕ) :
    Unphased cls (cls.onReaderAbort s waiterSeq) := by
  cases cls with
  | write | writeReentrantWriter => exact h
  | read | readReentrantWriter => exact .ite (h.notify .write 1) h
  | readerPhaseFair | readerPhaseFairReentrantWriter =>
      exact .ite (h.finishOrContinueReaderPhase rfl) h
  | fair | fairReentrantWriter => trivial

/-- The hook of a writer that gives up or releases. -/
theorem onWriterAbort (h : Unphased cls s) (waiterSeq : Option ℕ) :
    Unphased cls (cls.onWriterAbort s waiterSeq) := by
  cases cls with
  | write | writeReentrantWriter =>
      exact .ite (h.notify .write 1) (.ite (h.notify .read _) h)
  | read | readReentrantWriter => exact .ite (h.notify .read _) (.ite (h.notify .write 1) h)
  | readerPhaseFair | readerPhaseFairReentrantWriter =>
      exact .ite (h.startReaderPhase rfl) (.ite (h.notify .write 1) h)
  | fair | fairReentrantWriter => trivial

end Unphased

variable {P : Holds (Option τ) → Option τ → Prop} {rt : Runtime} {cls : LockClass}
  {c c' : System τ}

/-- **Every move leaves the fields of other policies alone.** -/
theorem Move.unphased (hmv : Move P rt cls c c') (h : Unphased cls c.lock) :
    Unphased cls c'.lock := by
  have hown : ∀ k, Unphased cls (c.lock.ownWriter cls k) := by
    intro k
    obtain ⟨_, _, _, _, hf⟩ := c.lock.ownWriter_frame cls k
    rw [hf]
    exact h
  cases hmv with
  | register | endWait | park | timeout | cancel | clear | unmark | releaseNested => exact h
  | @abort t m seq timed i hpc hgone =>
      cases m with
      | read => exact Unphased.onReaderAbort (s := c.lock.stopWaiting .read) h _
      | write => exact Unphased.onWriterAbort (s := c.lock.stopWaiting .write) h _
  | @enterRead t hpc ho =>
      exact Unphased.onReaderEnter (s := c.lock.enterReader (some t)) h _ _
  | @enterReadWaiting t seq timed i hpc hgone hadm =>
      exact Unphased.onReaderEnter (s := c.lock.enterReader (some t)) h true (some seq)
  | @enterWrite t hpc hadm => cases rt <;> exact hown (some t)
  | @enterWriteWaiting t seq timed i hpc hgone hadm => cases rt <;> exact hown (some t)
  | @releaseRead t hpc hcount =>
      exact Unphased.onReaderLeave (s := c.lock.dropReader (some t)) h
  | @releaseRouted t hpc hm hcount hP =>
      exact Unphased.onReaderLeave
        (s := ({ c.lock with downgraded := none } : RWLock τ).dropReader (some t)) h
  | releaseFinal => exact Unphased.onWriterAbort (s := c.lock.freeWriter) h none
  | @downgrade t hpc ho hd =>
      exact Unphased.onDowngrade (s := c.lock.freeWriter.enterReader (some t)) h

namespace System

/-- The fields of other policies have their defaults in every reachable state. -/
theorem Reachable.unphased (h : Reachable rt cls c) : Unphased cls c.lock :=
  h.of_move (I := fun c => Unphased cls c.lock)
    (by unfold Unphased; cases cls.policy <;> simp) fun _ _ _ hI hmv => hmv.unphased hI

/-! ### A lock that nobody uses -/

/-- Nobody is in `acquire` and nobody holds anything. -/
def AtRest (c : System τ) : Prop :=
  (∀ m t, ¬ InFlight c.pc m t) ∧ ∀ k, c.holds.reads k = 0 ∧ c.holds.writes k = 0

section AtRest

variable (h : HolderReachable rt cls c) (hr : AtRest c)

include h hr

/-- Nobody owns a lock at rest: an owner has a write hold. -/
theorem HolderReachable.owner_at_rest : cls.owner c.lock = none := by
  by_contra ho
  obtain ⟨t, ht⟩ := Option.ne_none_iff_exists'.1 ho
  have := h.ledger.writes_pos h.books ht
  have := (hr.2 (some t)).2
  omega

/-- Nobody is recorded as a reader of a lock at rest. -/
theorem HolderReachable.readers_at_rest :
    c.lock.readersActive = 0 ∧ c.lock.readerOwners = ∅ := by
  have hcount : ∀ k, c.lock.readerOwners.count k = 0 := fun k => by
    rw [h.ledger.reads, (hr.2 k).1]
  refine ⟨h.books.readersActive_eq_zero_iff.2 hcount, ?_⟩
  refine AList.ext (List.eq_nil_iff_forall_not_mem.2 ?_)
  rintro ⟨k, n⟩ hk
  have hmem : k ∈ c.lock.readerOwners := List.mem_keys_of_mem hk
  have := (Tally.count_pos_iff h.books.positive).2 hmem
  have := hcount k
  omega

/-- The writer fields of a lock at rest are those of a new one. -/
theorem HolderReachable.writer_at_rest : c.lock.writerActive = false ∧
    c.lock.writerOwner = none ∧ c.lock.writerId = none ∧ c.lock.writeCount = 0 := by
  have ho := h.owner_at_rest hr
  have hact := h.books.writerActive_of_owner ho
  cases hc : cls.reentrant with
  | false =>
      obtain ⟨hid, hwc, -⟩ := h.books.plain hc
      exact ⟨hact, by simpa [LockClass.owner, hc] using ho, hid, hwc⟩
  | true =>
      obtain ⟨-, hwo, -, hz⟩ := h.books.reentrant hc
      have hid := (LockClass.owner_of_reentrant hc c.lock).symm.trans ho
      exact ⟨hact, hwo, hid, hz.2 hid⟩

/-- The proxies of a lock at rest are new, but for the numbers they gave out. -/
theorem HolderReachable.proxy_at_rest (m : Mode) :
    c.lock.proxy m = { waiterSeq := (c.lock.proxy m).waiterSeq } := by
  obtain ⟨hw, hq⟩ := h.reachable.idle_proxy (hr.1 m)
  rw [RWLock.queue] at hq
  have hgone : (c.lock.proxy m).condition.state = fun _ => .gone := by
    funext t
    by_contra hg
    exact hr.1 m t (h.reachable.wellFormed.live m t hg)
  generalize c.lock.proxy m = p at *
  obtain ⟨w, seq, ⟨ws, st⟩⟩ := p
  simp_all

/-- No phase is on in a lock at rest: there would be nobody to serve. -/
theorem HolderReachable.phase_at_rest :
    c.lock.readersTurn = false ∧ c.lock.readerPhasePending = 0 := by
  have hra := (h.readers_at_rest hr).1
  have hrw : c.lock.read.thoseWaiting = 0 := (h.reachable.idle_proxy (hr.1 .read)).1
  have hserved := h.reachable.turnServed
  have hun := h.reachable.unphased
  unfold TurnServed at hserved
  unfold Unphased at hun
  cases hp : cls.policy with
  | write | read => simpa only [hp] using hun
  | readerPhaseFair =>
      simp only [hp] at hserved hun
      refine ⟨Bool.eq_false_iff.2 fun ht => ?_, hun⟩
      have := hserved ht
      omega
  | fair =>
      have hslots := h.reachable.slots hp
      have hoff : c.lock.readersTurn = false := by
        refine Bool.eq_false_iff.2 fun ht => ?_
        obtain ⟨F, hF, hcard⟩ := hslots.on ht
        have hF0 : F = ∅ := Finset.eq_empty_iff_forall_notMem.2 fun t htF =>
          hr.1 .read t ((hF t).1 htF).inFlight
        have := hserved ht
        simp only [hp, hF0, Finset.card_empty] at this hcard
        omega
      exact ⟨hoff, hslots.off hoff⟩

/-- **A lock at rest** is a new lock, but for its numbers, its cutoff and its marker. -/
theorem HolderReachable.lock_at_rest : c.lock = {
    proxy := fun m => { waiterSeq := (c.lock.proxy m).waiterSeq }
    readerPhaseCutoff := c.lock.readerPhaseCutoff
    downgraded := c.lock.downgraded } := by
  obtain ⟨hra, hro⟩ := h.readers_at_rest hr
  obtain ⟨hwa, hwo, hid, hwc⟩ := h.writer_at_rest hr
  obtain ⟨hturn, hpend⟩ := h.phase_at_rest hr
  have hproxy : c.lock.proxy = fun m => { waiterSeq := (c.lock.proxy m).waiterSeq } :=
    funext (h.proxy_at_rest hr)
  generalize c.lock = s at *
  obtain ⟨wa, wo, id, wc, ra, ro, turn, cut, pend, proxy, mark⟩ := s
  simp only at *
  subst hra hro hwa hwo hid hwc hturn hpend
  rw [← hproxy]

/-- Nobody is in a call, not even about to clear the marker. -/
theorem HolderReachable.pc_at_rest (t : τ) : c.pc t = .idle := by
  cases hpc : c.pc t with
  | idle => rfl
  | waiting m seq timed i => exact absurd ⟨_, _, _, hpc⟩ (hr.1 m t)
  | clearing =>
      have := h.ledger.clearing t hpc
      have := (hr.2 (some t)).2
      omega

/-- **A lock at rest lets its next caller in** on the fast path. -/
theorem HolderReachable.acquire_at_rest {t : τ} {m : Mode} {p : Patience} {expired : Bool}
    {o : Outcome} (hst : c.step rt cls (.acquire t m p expired) = some (o, c')) :
    o = .acquired m ∧ ∀ m' u, ¬ InFlight c'.pc m' u := by
  have hcan : cls.canAcquire m c.lock (some t) false none = true := by
    rw [h.lock_at_rest hr]
    cases m <;> cases cls <;> rfl
  cases step_deed h.reachable.wellFormed hst rfl with
  | rejected _ hno =>
      rw [h.lock_at_rest hr] at hno
      cases cls <;> cases hno
  | enters =>
      refine ⟨rfl, fun m' u hu => ?_⟩
      by_cases hut : u = t
      · subst hut
        exact not_inFlight_succeed _ _ _ _ _ _ hu
      · obtain ⟨seq, timed, i, hpc⟩ := hu
        rw [(step_untouched h.books hst (by simp [Action.caller])
          (by simpa [Action.caller, eq_comm] using hut)).pc] at hpc
        exact hr.1 m' u ⟨seq, timed, i, hpc⟩
  | refused _ hno | waits _ _ hno => cases hno.symm.trans hcan

/-- A lock at rest is a new one with an older past. -/
theorem HolderReachable.used_new {M : Option τ → Option τ → Prop} (hm : M c.lock.downgraded none) :
    System.Used M cls (fun m => (c.lock.proxy m).waiterSeq) {} c := by
  refine ⟨⟨⟨c.lock.readerPhaseCutoff, h.lock_at_rest hr, nofun⟩, hm⟩, fun t => ?_, ?_⟩
  · exact h.pc_at_rest hr t
  · exact Holds.ext (funext fun k => (hr.2 k).1) (funext fun k => (hr.2 k).2)

/-- Whatever the marker is, it is that of a new lock or a leftover. -/
theorem HolderReachable.sideBySide_new :
    SideBySide rt cls (fun m => (c.lock.proxy m).waiterSeq) {} c :=
  ⟨h.used_new hr (.inr rfl), .start rfl, h⟩

/-- Without a marker nothing is left over. -/
theorem HolderReachable.alike_new (hm : c.lock.downgraded = none) :
    Alike rt cls (fun m => (c.lock.proxy m).waiterSeq) {} c :=
  ⟨h.used_new hr hm, .start rfl, h.reachable⟩

end AtRest

/-- **No residue.**  The waiting counters count the calls in flight, and a queue holds
each of them at most once and nobody else.  A lock at rest is new but for its sequence
numbers, the cutoff of its last phase and the downgrade marker, and it behaves as new. -/
theorem no_residue (h : HolderReachable rt cls c) :
    (∀ m, (∃ F : Finset τ, (∀ t, t ∈ F ↔ InFlight c.pc m t) ∧
        (c.lock.proxy m).thoseWaiting = F.card) ∧
      (c.lock.queue m).Nodup ∧ ∀ t ∈ c.lock.queue m, InFlight c.pc m t) ∧
    (AtRest c → c.lock = {
      proxy := fun m => { waiterSeq := (c.lock.proxy m).waiterSeq }
      readerPhaseCutoff := c.lock.readerPhaseCutoff
      downgraded := c.lock.downgraded } ∧ BehavesAsNew rt cls c) := by
  have hw := h.reachable.wellFormed
  exact ⟨fun m => ⟨hw.flight m, hw.nodup m, fun t ht => hw.inFlight_of_mem ht⟩,
    fun hr => ⟨h.lock_at_rest hr, (h.sideBySide_new hr).behavesAsNew⟩⟩

/-- A reader enters the phase that a downgrade begins, a writer is cancelled in its queue,
and everybody goes home. -/
theorem no_residue_home : ∃ c : System (Fin 3), AtRest c ∧
    c.lock = {
      proxy := fun m => { waiterSeq := (c.lock.proxy m).waiterSeq }
      readerPhaseCutoff := c.lock.readerPhaseCutoff
      downgraded := some 0 } ∧ BehavesAsNew .async .fairReentrantWriter c := by
  have hrun : ((Transition.replay (next (fun c a => InTask c a ∧ ByHolder c a) .async
      .fairReentrantWriter) {} [.acquire 0 .write .forever false, .acquire 1 .read .forever false,
      .acquire 2 .write .forever false, .downgrade (some 0), .interrupt 2, .resume 2 false,
      .resume 1 false, .release (some 1) .read, .release (some 0) .read]).map
        fun c : System (Fin 3) => (decide (∀ m t, ¬ InFlight c.pc m t),
          decide (∀ t, c.holds.reads (some t) = 0 ∧ c.holds.writes (some t) = 0),
          c.holds.reads none, c.holds.writes none, c.lock.downgraded)) =
      some (true, true, 0, 0, some 0) := by
    decide
  obtain ⟨c, hc, hval⟩ := Option.map_eq_some_iff.1 hrun
  simp only [Prod.mk.injEq, decide_eq_true_eq] at hval
  obtain ⟨hpc, hholds, hreads, hwrites, hm⟩ := hval
  have hr : AtRest c := ⟨hpc, Option.forall.2 ⟨⟨hreads, hwrites⟩, hholds⟩⟩
  exact ⟨c, hr, hm ▸ (no_residue ⟨_, _, rfl, run_of_replay hc⟩).2 hr⟩

end System

end Rwlocker

/-
# No missed signal

The users of a condition follow its protocol (`Announced`): whoever changes the
shared state holds the write lock, and calls `notify_all()` before it gives that lock
up; whoever waits does so in `wait_for`; whoever releases holds what it releases.
Then the condition is a monitor: it refines `Monitor.Move` (`simulates_monitor`), so
nobody sleeps behind a predicate that holds.

The refinement needs two facts about the lock.  Between the test of `wait_for` and
the enqueuing its caller holds the lock, and by exclusion nobody changes the state.
And whoever owes an announcement holds the write lock.
-/

import Rwlocker.Basis.Monitor
import Rwlocker.Calls

namespace Rwlocker

open ReadersWriter (Holds)
open Rwlocker.System (Holding ByHolder HolderReachable)

variable {τ σ : Type} [DecidableEq τ]

namespace System

variable {rt : Runtime} {cls : LockClass} {c c' : System τ} {t : τ} {m : Mode} {o : Outcome}
  {a : Action τ}

/-- Whoever passes the checks of `wait()` holds what it is about to release, and has no
second write hold. -/
theorem HolderReachable.of_checkWait (h : HolderReachable rt cls c)
    (hcheck : cls.checkWait c.lock (some t) m = .ok ()) :
    ByHolder c (.release (some t) m) ∧ c.holds.writes (some t) ≤ 1 := by
  obtain ⟨hown, hdepth⟩ := LockClass.checkWait_eq_ok.1 hcheck
  rw [LockClass.ownedLockDepth_eq h.books] at hdepth
  constructor
  · cases m with
    | read =>
        show 0 < c.holds.reads (some t)
        rw [← h.ledger.reads]
        simpa [LockClass.isOwned, RWLock.isCurrentReader] using hown
    | write =>
        exact .inl (h.ledger.writes_pos h.books ((cls.isCurrentWriter_iff _ _).1 hown))
  · have := h.ledger.writes t
    split_ifs at this hdepth <;> omega

/-- Whose write hold an action gives up, if it is the last one. -/
def givesUp? : Action τ → Option τ
  | .release k .write | .downgrade k => k
  | .acquire _ _ _ _ | .resume _ _ | .interrupt _ | .clear _ | .release _ .read => none

/-- A write hold survives the steps of its owner that do not give it up. -/
theorem step_writes_pos (h : HolderReachable rt cls c) (hst : c.step rt cls a = some (o, c'))
    (ha : a.caller = some t) (hw : 0 < c.holds.writes (some t))
    (hnest : givesUp? a = some t → 1 < c.holds.writes (some t)) :
    0 < c'.holds.writes (some t) := by
  cases step_effect h.books hst ha with
  | acquire _ hatt | resume _ hatt =>
      cases hatt with
      | fails _ _ hh => rwa [hh]
      | reads _ _ hh => simpa [hh] using hw
      | writes _ _ _ _ hh => simp [hh]
  | interrupt _ _ _ hh => rwa [hh]
  | clear => exact hw
  | @release m _ _ _ hgb =>
      rcases hgb.holds with hh | hh
      · rwa [hh]
      · cases m with
        | read => simpa [hh, giveBack] using hw
        | write =>
            have := hnest rfl
            simp [hh, giveBack, hw]
            omega
  | downgrade _ hown =>
      have := h.ledger.writes t
      have := hnest rfl
      rw [if_pos hown.1] at *
      omega
  | downgradeRaised => exact hw

end System

namespace CondSystem

/-- The protocol of a condition (module doc).  A nested write release gives up
nothing. -/
def Announced (c : CondSystem τ σ) : CondAction τ σ → Prop
  | .lock a => (a.caller ≠ none ∧ ByHolder c.sys a) ∧
      ∀ t ∈ System.givesUp? a, c.unannounced t = true → 1 < c.sys.holds.writes (some t)
  | .change t _ => 0 < c.sys.holds.writes (some t)
  | .wait t m timed => c.phase t = .tested m timed ∧
      (c.unannounced t = true → 1 < c.sys.holds.writes (some t))
  | _ => True

instance (c : CondSystem τ σ) : (a : CondAction τ σ) → Decidable (Announced c a)
  | .lock _ | .wait _ _ _ => inferInstanceAs (Decidable (_ ∧ _))
  | .change _ _ => inferInstanceAs (Decidable (_ < _))
  | .notify _ _ _ | .notifyAll _ _ | .test _ _ _ _ | .leave _ | .interrupt _ | .wake _
  | .reacquire _ | .finish _ => isTrue trivial

/-- The states that users reach who keep the protocol. -/
def AnnouncedReachable (rt : Runtime) (cls : LockClass) (pred : σ → Bool) :
    CondSystem τ σ → Prop :=
  Transition.Reachable (Transition.restrict Announced (Step rt cls pred)) Init

/-- The condition as a monitor. -/
def board (pred : σ → Bool) (c : CondSystem τ σ) : Monitor.Board ℕ where
  ready := pred c.shared = true
  asleep := {i | i ∈ c.queue.waiters}
  due := ∃ t, c.unannounced t = true

end CondSystem

open CondSystem (Announced AnnouncedReachable board)

/-- What the protocol keeps true (module doc). -/
structure Guarded (rt : Runtime) (cls : LockClass) (pred : σ → Bool) (c : CondSystem τ σ) :
    Prop where
  reach : HolderReachable rt cls c.sys
  tested : ∀ t m timed, c.phase t = .tested m timed → Holding c.sys.holds (some t) →
    pred c.shared = false
  queued : ∀ t w, c.phase t = .queued w → ByHolder c.sys (.release (some t) w.mode)
  writes : ∀ t, c.unannounced t = true → 0 < c.sys.holds.writes (some t)
  outside : ∀ t, c.unannounced t = true → (c.phase t).wait? = none

variable {rt : Runtime} {cls : LockClass} {pred : σ → Bool} {c c' : CondSystem τ σ} {t : τ}
  {p : Phase} {a : Action τ} {o : Outcome} {sys : System τ}

namespace Guarded

theorem init (s : σ) : Guarded rt cls pred ({ shared := s } : CondSystem τ σ) where
  reach := .start rfl
  tested _ _ _ h := by cases h
  queued _ _ h := by cases h
  writes _ h := by cases h
  outside _ h := by cases h

/-- The queue and the history do not matter, and announcements only help. -/
theorem congr (h : Guarded rt cls pred c) (hsys : c'.sys = c.sys) (hph : c'.phase = c.phase)
    (hsh : c'.shared = c.shared)
    (hun : ∀ t, c'.unannounced t = true → c.unannounced t = true) : Guarded rt cls pred c' where
  reach := hsys ▸ h.reach
  tested := by rw [hsys, hph, hsh]; exact h.tested
  queued := by rw [hsys, hph]; exact h.queued
  writes t ht := by rw [hsys]; exact h.writes t (hun t ht)
  outside t ht := by rw [hph]; exact h.outside t (hun t ht)

theorem goto (h : Guarded rt cls pred c)
    (ht : ∀ m timed, p = .tested m timed → pred c.shared = false)
    (hq : ∀ w, p = .queued w → ByHolder c.sys (.release (some t) w.mode))
    (hd : c.unannounced t = true → p.wait? = none) : Guarded rt cls pred (c.goto t p) := by
  refine ⟨h.reach, fun u m timed hu hh => ?_, fun u w hu => ?_, h.writes, fun u hu => ?_⟩ <;>
    by_cases hut : u = t
  · subst hut
    exact ht m timed (by simpa [CondSystem.goto] using hu)
  · exact h.tested u m timed (by simpa [CondSystem.goto, hut] using hu) hh
  · subst hut
    exact hq w (by simpa [CondSystem.goto] using hu)
  · exact h.queued u w (by simpa [CondSystem.goto, hut] using hu)
  · subst hut
    simpa [CondSystem.goto] using hd hu
  · simpa [CondSystem.goto, hut] using h.outside u hu

/-- A step of the lock by `t`, who is not in the middle of a test or a `wait()`, unless
it has just been queued. -/
theorem lock (h : Guarded rt cls pred c) (hst : c.sys.step rt cls a = some (o, sys))
    (ha : a.caller = some t) (hby : ByHolder c.sys a)
    (ht : ∀ m timed, c.phase t ≠ .tested m timed) (hq : ∀ w, c.phase t ≠ .queued w)
    (hown : c.unannounced t = true → 0 < sys.holds.writes (some t)) :
    Guarded rt cls pred { c with sys := sys } := by
  have hun : ∀ u, u ≠ t → Untouched u c.sys sys := fun u hu =>
    System.step_untouched h.reach.books hst (by simp [ha]) (by simpa [ha, eq_comm] using hu)
  refine ⟨h.reach.step hst (by simp [ha]) hby, fun u m timed hu hh => ?_, fun u w hu => ?_,
    fun u hu => ?_, h.outside⟩
  · have hut : u ≠ t := by
      rintro rfl
      exact ht m timed hu
    refine h.tested u m timed hu ?_
    rw [Holding, ← (hun u hut).reads, ← (hun u hut).writes]
    exact hh
  · have hut : u ≠ t := by
      rintro rfl
      exact hq w hu
    have hold := h.queued u w hu
    cases hm : w.mode with
    | read =>
        rw [hm] at hold
        show 0 < sys.holds.reads (some u)
        rw [(hun u hut).reads]
        exact hold
    | write =>
        rw [hm] at hold
        show Holding sys.holds (some u)
        rw [Holding, (hun u hut).reads, (hun u hut).writes]
        exact hold
  · by_cases hut : u = t
    · subst hut
      exact hown hu
    · show 0 < sys.holds.writes (some u)
      rw [(hun u hut).writes]
      exact h.writes u hu

/-- The same within `wait()`, whose caller owes no announcement and goes on at `p`. -/
theorem lock_goto (h : Guarded rt cls pred c) (hst : c.sys.step rt cls a = some (o, sys))
    (ha : a.caller = some t) (hby : ByHolder c.sys a) (hwait : (c.phase t).wait? ≠ none)
    (hp : ∀ m timed, p ≠ .tested m timed) (hq : ∀ w, p ≠ .queued w) :
    Guarded rt cls pred (({ c with sys := sys }).goto t p) := by
  have hdue : ¬ c.unannounced t = true := fun hu => hwait (h.outside t hu)
  have hout : Guarded rt cls pred (c.goto t .out) := h.goto (by simp) (by simp) fun _ => rfl
  have hlock : Guarded rt cls pred { c.goto t .out with sys := sys } :=
    hout.lock hst ha hby (by simp [CondSystem.goto]) (by simp [CondSystem.goto])
      fun hu => absurd hu hdue
  have hgoto := hlock.goto (t := t) (p := p) (fun m timed h => absurd h (hp m timed))
    (fun w h => absurd h (hq w)) fun hu => absurd hu hdue
  exact hgoto.congr rfl (by simp [CondSystem.goto]) rfl fun _ => id

end Guarded

theorem WaitCall.next_ne (w : WaitCall) (e : Ending) :
    (∀ m timed, w.next e ≠ .tested m timed) ∧ ∀ w', w.next e ≠ .queued w' := by
  cases e <;> simp only [WaitCall.next] <;> try split_ifs
  all_goals simp

/-- **Every move of users that keep the protocol keeps the guard.** -/
theorem WaitMove.guarded (hmv : WaitMove Announced rt cls pred c c')
    (h : Guarded rt cls pred c) : Guarded rt cls pred c' := by
  cases hmv with
  | @lock a o sys hout hP hst =>
      obtain ⟨t, ht⟩ := Option.ne_none_iff_exists'.1 hP.1.1
      have hph := hout t ht
      refine h.lock hst ht hP.1.2 (by simp [hph]) (by simp [hph]) fun hu => ?_
      exact System.step_writes_pos h.reach hst ht (h.writes t hu) fun ha => hP.2 t ha hu
  | @change t s hout hP =>
      have hP : 0 < c.sys.holds.writes (some t) := hP
      refine ⟨h.reach, fun u m timed hu hh => ?_, h.queued, fun u hu => ?_, fun u hu => ?_⟩
      · have hut : u ≠ t := by
          intro hut
          have hu : c.phase u = .tested m timed := hu
          rw [hut, hout] at hu
          cases hu
        obtain ⟨hr, hw⟩ := h.reach.exclusive _ (some u) hP (by simpa using hut)
        have hh : 0 < c.sys.holds.writes (some u) ∨ 0 < c.sys.holds.reads (some u) := hh
        omega
      · by_cases hut : u = t
        · exact hut ▸ hP
        · exact h.writes u (by simpa [hut] using hu)
      · by_cases hut : u = t
        · exact hut ▸ (congrArg Phase.wait? hout).trans rfl
        · exact h.outside u (by simpa [hut] using hu)
  | notify => exact h.congr rfl rfl rfl fun _ => id
  | notifyAll => exact h.congr rfl rfl rfl fun u hu => by simp at hu; exact hu.1
  | quit => exact h.goto (by simp) (by simp) fun _ => rfl
  | tested m timed hno hpred => exact h.goto (fun _ _ _ => hpred) (by simp) fun _ => rfl
  | @enqueue t m timed inLoop hno hcheck hP =>
      obtain ⟨hby, hone⟩ := h.reach.of_checkWait hcheck
      have hdue : ¬ c.unannounced t = true := fun hu => by
        have := hP.2 hu
        omega
      have hg := h.goto (t := t)
        (p := .queued { call := c.calls, mode := m, timed := timed, inLoop := inLoop }) (by simp)
        (fun w hw => by cases hw; exact hby) fun hu => absurd hu hdue
      exact hg.congr rfl rfl rfl fun _ => id
  | @leave t w o sys hph hcheck hst ho =>
      exact h.lock_goto hst rfl (h.queued t w hph) (by simp [hph, Phase.wait?]) (by simp) (by simp)
  | @leaveRaised t w e sys hph hcheck hst =>
      have hg := h.lock_goto (p := w.next (.raised e)) hst rfl (h.queued t w hph)
        (by simp [hph, Phase.wait?]) (w.next_ne _).1 (w.next_ne _).2
      exact hg.congr rfl rfl rfl fun _ => id
  | timeout hrt hph =>
      exact h.goto (by simp) (by simp) fun hu =>
        absurd (h.outside _ hu) (by simp [hph, Phase.wait?])
  | @cancel t w hrt hph =>
      have hg := h.goto (t := t) (p := .sleeping w true) (by simp) (by simp) fun hu =>
        absurd (h.outside _ hu) (by simp [hph, Phase.wait?])
      exact hg.congr rfl rfl rfl fun _ => id
  | @wake t w i hph hon =>
      have hg := h.goto (t := t) (p := .woken w (!i) false) (by simp) (by simp) fun hu =>
        absurd (h.outside _ hu) (by simp [hph, Phase.wait?])
      unfold CondSystem.wake
      split_ifs <;> exact hg.congr rfl rfl rfl fun _ => id
  | @reacquire t w gotit err o sys hph hP hst ho =>
      exact h.lock_goto hst rfl trivial (by simp [hph, Phase.wait?]) (by simp) (by simp)
  | @reacquireRaised t w gotit err e sys hph hst =>
      have hg := h.lock_goto (p := w.next (.raised e)) hst rfl trivial
        (by simp [hph, Phase.wait?]) (w.next_ne _).1 (w.next_ne _).2
      exact hg.congr rfl rfl rfl fun _ => id
  | @goOn t w gotit err a o sys hph hP ha hst =>
      have hcall : a.caller = some t ∧ ByHolder c.sys a := by
        rcases ha with ⟨⟨expired, rfl⟩, -⟩ | rfl <;> exact ⟨rfl, trivial⟩
      exact h.lock hst hcall.1 hcall.2 (by simp [hph]) (by simp [hph]) fun hu =>
        absurd (h.outside _ hu) (by simp [hph, Phase.wait?])
  | @cancelAgain t w gotit err o sys hph hst =>
      have hg := h.lock hst rfl trivial (by simp [hph]) (by simp [hph]) fun hu =>
        absurd (h.outside _ hu) (by simp [hph, Phase.wait?])
      exact hg.congr rfl rfl rfl fun _ => id
  | @retry t w gotit err expired sys hph hst =>
      exact h.lock_goto hst rfl trivial (by simp [hph, Phase.wait?]) (by simp) (by simp)
  | @finish t w gotit err hph hpc =>
      have hg := h.goto (t := t) (p := w.next (CondSystem.ending rt gotit err))
        (fun m timed hw => absurd hw ((w.next_ne _).1 m timed))
        (fun w' hw => absurd hw ((w.next_ne _).2 w')) fun hu =>
          absurd (h.outside _ hu) (by simp [hph, Phase.wait?])
      unfold CondSystem.finish
      dsimp only
      split_ifs <;> exact hg.congr rfl rfl rfl fun _ => id

/-- **Every move of users that keep the protocol is one of a monitor.** -/
theorem WaitMove.board (hmv : WaitMove Announced rt cls pred c c')
    (h : Guarded rt cls pred c) : Monitor.Move (board pred c) (board pred c') := by
  have hsame : ∀ c' : CondSystem τ σ, c'.queue.waiters.Sublist c.queue.waiters →
      c'.shared = c.shared → c'.unannounced = c.unannounced →
      Monitor.Move (CondSystem.board pred c) (CondSystem.board pred c') := by
    intro c' hs hsh hun
    have hb : CondSystem.board pred c' =
        { CondSystem.board pred c with asleep := {i | i ∈ c'.queue.waiters} } := by
      simp only [CondSystem.board, hsh, hun]
    rw [hb]
    exact .wake fun i hi => hs.subset hi
  cases hmv with
  | lock | quit | tested | leave | timeout | reacquire | reacquireRaised | goOn | cancelAgain
  | retry => exact hsame _ (.refl _) rfl rfl
  | @change t s hout hP => exact .change _ ⟨t, by simp⟩
  | notify => exact hsame _ (c.queue.notify_suffix _).sublist rfl rfl
  | @notifyAll k m hown hP =>
      have hmv : Monitor.Move (CondSystem.board pred c) _ :=
        .announce (∃ t, (c.unannounced t && k != some t) = true)
      rw [show (∅ : Set ℕ) = {i | i ∈ c.queue.notifyAll.waiters} by simp] at hmv
      exact hmv
  | @enqueue t m timed inLoop hno hcheck hP =>
      have hready : ¬ pred c.shared = true := by
        have hby := (h.reach.of_checkWait hcheck).1
        have hh : Holding c.sys.holds (some t) := by
          cases m with
          | read => exact .inr hby
          | write => exact hby
        simpa using h.tested t m timed hP.1 hh
      have hset : {i | i ∈ c.queue.waiters ++ [c.calls]} =
          insert c.calls {i | i ∈ c.queue.waiters} := by
        ext i
        simp [or_comm]
      have hmv : Monitor.Move (CondSystem.board pred c) _ := .sleep c.calls hready
      simp only [CondSystem.board] at hmv
      rw [← hset] at hmv
      exact hmv
  | leaveRaised => exact hsame _ List.erase_sublist rfl rfl
  | @cancel t w =>
      exact hsame _ (c.queue.cancelWaiter_waiters w.call ▸ .refl _) rfl rfl
  | wake =>
      unfold CondSystem.wake
      split_ifs
      · exact hsame _ List.erase_sublist rfl rfl
      · exact hsame _ (.refl _) rfl rfl
  | finish =>
      unfold CondSystem.finish
      dsimp only
      split_ifs
      · exact hsame _ List.erase_sublist rfl rfl
      · exact hsame _ (.refl _) rfl rfl

/-- Whoever owes an announcement holds the write lock. -/
theorem Guarded.announced (h : Guarded rt cls pred c)
    (hw : cls.isWriteLocked c.sys.lock = false) : ¬ (board pred c).due := by
  rintro ⟨t, ht⟩
  have ho := h.reach.ledger.owner_of_writes (h.writes t ht)
  have := h.reach.books.isWriteLocked_iff.2 (by rw [ho]; simp)
  rw [hw] at this
  cases this

namespace CondSystem

/-- **A condition whose users keep its protocol refines a monitor.** -/
theorem simulates_monitor (rt : Runtime) (cls : LockClass) (pred : σ → Bool) :
    Transition.Simulates (Transition.restrict Announced (Step (τ := τ) rt cls pred)) Init
      Monitor.Move (fun b => b.asleep = ∅)
      fun c b => board pred c = b ∧ Calls c ∧ Guarded rt cls pred c where
  init c hc := by
    rw [hc]
    exact ⟨_, by simp [board], rfl, .init _, .init _⟩
  step c b a c' := by
    rintro ⟨rfl, hc, hg⟩ ⟨hP, hst⟩
    refine (hst.moves hP).invariant (I := fun d => ∃ b', (board pred d = b' ∧ Calls d ∧
      Guarded rt cls pred d) ∧ Relation.ReflTransGen Monitor.Move (board pred c) b') ?_
      ⟨_, ⟨rfl, hc, hg⟩, .refl⟩
    rintro d d' ⟨_, ⟨rfl, hc, hg⟩, hrun⟩ hmv
    exact ⟨_, ⟨rfl, hmv.calls hc, hmv.guarded hg⟩, hrun.tail (hmv.board hg)⟩

/-- **No signal is missed.**  In every state that the users of a condition reach who
keep its protocol, with any timeouts and cancellations: while nobody holds the write
lock and the predicate is true, the queue is empty, and every `wait()` that still
sleeps has been signalled, has timed out or was cancelled. -/
theorem no_missed_signal (h : AnnouncedReachable rt cls pred c)
    (hw : cls.isWriteLocked c.sys.lock = false) (hp : pred c.shared = true) :
    c.queue.waiters = [] ∧
      ∀ t w, c.phase t = .sleeping w false → c.queue.state w.call ≠ .pending := by
  obtain ⟨b, ⟨rfl, hc, hg⟩, hwatch⟩ := (simulates_monitor rt cls pred).reachable
    (J := Monitor.Board.Watched) (fun _ => Monitor.watched_of_empty)
    (fun _ _ hb hmv => hmv.watched hb) h
  have hempty : c.queue.waiters = [] := by
    by_contra hne
    obtain ⟨i, hi⟩ := List.exists_mem_of_ne_nil _ hne
    exact hg.announced hw (hwatch hp ⟨i, hi⟩)
  refine ⟨hempty, fun t w ht hs => ?_⟩
  have hmem := hc.parked t w (by rw [ht]; rfl) hs
  rw [hempty] at hmem
  cases hmem

/-- A reader sleeps and another has timed out when a writer makes the predicate true. -/
theorem no_missed_signal_timeout : ∃ c : CondSystem ℕ Bool,
    c.shared = true ∧ c.phase 0 = .sleeping ⟨0, .read, false, true⟩ false ∧
      c.phase 2 = .sleeping ⟨1, .read, true, true⟩ true ∧
      c.queue.waiters = [] ∧ c.queue.state 0 ≠ .pending := by
  have hrun : ((Transition.replay (next Announced .thread .fair id)
      ({ shared := false } : CondSystem ℕ Bool)
      [.lock (.acquire 0 .read .forever false), .test 0 .read false false, .wait 0 .read false,
        .leave 0, .lock (.acquire 2 .read .forever false), .test 2 .read true false,
        .wait 2 .read true, .leave 2, .interrupt 2, .lock (.acquire 1 .write .forever false),
        .lock (.clear 1), .change 1 true, .notifyAll (some 1) .write,
        .lock (.release (some 1) .write)]).map fun c =>
      (c.shared, LockClass.isWriteLocked .fair c.sys.lock, c.phase 0, c.phase 2)) =
      some (true, false, .sleeping ⟨0, .read, false, true⟩ false,
        .sleeping ⟨1, .read, true, true⟩ true) := by
    decide
  obtain ⟨c, hc, hval⟩ := Option.map_eq_some_iff.1 hrun
  simp only [Prod.mk.injEq] at hval
  obtain ⟨hsh, hw, h0, h2⟩ := hval
  obtain ⟨hq, hs⟩ := no_missed_signal ⟨{ shared := false }, _, rfl, run_of_replay hc⟩ hw hsh
  exact ⟨c, hsh, h0, h2, hq, hs 0 _ h0⟩

end CondSystem

end Rwlocker

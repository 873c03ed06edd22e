/-
# What wait gives back

A caller of `wait()` gives its one acquisition up, sleeps, and takes the same kind of
acquisition back before it leaves, whatever wakes or cancels it.

Two invariants carry this.  `Keeping` follows the caller's holds from phase to phase: a
sleeping caller holds nothing, so its `self.acquire()` is never an upgrade and has
nothing to raise.  `Listed` follows its waiter: whatever is in the queue is the waiter of
a call that will remove it on its way out.
-/

import Rwlocker.Calls
import Rwlocker.Deed

namespace Rwlocker

open ReadersWriter (Holds)
open Rwlocker.System (HolderReachable)

variable {τ σ : Type} [DecidableEq τ]

/-- `k` has one acquisition, in mode `m`. -/
def OnlyHold (h : Holds (Option τ)) (k : Option τ) : Mode → Prop
  | .read => h.reads k = 1 ∧ h.writes k = 0
  | .write => h.reads k = 0 ∧ h.writes k = 1

/-- `k` has no acquisition. -/
def NoHold (h : Holds (Option τ)) (k : Option τ) : Prop := h.reads k = 0 ∧ h.writes k = 0

/-- `t` waits to get an acquisition in mode `m`, its only one, or has got it. -/
def Regains (c : System τ) (t : τ) (m : Mode) : Prop :=
  NoHold c.holds (some t) ∧ (∃ seq i, c.pc t = .waiting m seq false i) ∨
    OnlyHold c.holds (some t) m ∧ ∀ m', ¬ InFlight c.pc m' t

theorem NoHold.grant {h : Holds (Option τ)} {k : Option τ} (hno : NoHold h k) (m : Mode) :
    OnlyHold (System.grant h k m) k m := by
  obtain ⟨hr, hw⟩ := hno
  cases m <;> simp [OnlyHold, System.grant, hr, hw]

namespace System

variable {rt : Runtime} {cls : LockClass} {c c' : System τ} {t : τ} {m : Mode} {o : Outcome}

/-- **The checks of `wait()`** ask for exactly one acquisition, in the proxy's mode. -/
theorem HolderReachable.checkWait_iff (h : HolderReachable rt cls c) :
    cls.checkWait c.lock (some t) m = .ok () ↔ OnlyHold c.holds (some t) m := by
  have hw := h.ledger.writes t
  rw [LockClass.checkWait_eq_ok, LockClass.ownedLockDepth_eq h.books, ← hw, h.ledger.reads]
  cases m with
  | read =>
      simp only [LockClass.isOwned, RWLock.isCurrentReader, h.ledger.reads, decide_eq_true_eq,
        OnlyHold]
      omega
  | write =>
      have hown : cls.isOwned c.lock (some t) .write = true ↔ 0 < c.holds.writes (some t) :=
        (cls.isCurrentWriter_iff _ _).trans
          ⟨h.ledger.writes_pos h.books, fun hpos => h.ledger.owner_of_writes hpos⟩
      rw [hown, OnlyHold]
      omega

/-- A caller gives its only acquisition back. -/
theorem step_release_only (h : HolderReachable rt cls c) (hone : OnlyHold c.holds (some t) m)
    (hst : c.step rt cls (.release (some t) m) = some (o, c')) :
    o = .released ∧ NoHold c'.holds (some t) ∧ c'.pc t = .idle := by
  have hpc : c.pc t = .idle := by
    simp only [step] at hst
    split_ifs at hst with hcall
    simpa [canCall] using hcall
  cases m with
  | read =>
      obtain ⟨hr, hw⟩ := hone
      rw [step_release_read hpc (by rw [h.ledger.reads]; omega)] at hst
      cases hst
      exact ⟨rfl, by simp [NoHold, hr, hw], hpc⟩
  | write =>
      obtain ⟨hr, hw⟩ := hone
      have ho := h.ledger.owner_of_writes (k := some t) (by omega)
      have hd := h.ledger.writes t
      rw [if_pos ho] at hd
      obtain ⟨s, hst', -⟩ := step_release_write rt h.books hpc ho (by omega)
        (by rw [h.ledger.reads, hr])
      rw [hst'] at hst
      cases hst
      exact ⟨rfl, by simp [NoHold, giveBack, hr, hw], hpc⟩

/-- A caller without a hold that is let in has just that one. -/
theorem succeed_regains (s : RWLock τ) (m : Mode) (hno : NoHold c.holds (some t)) :
    Regains (c.succeed rt t s m).2 t m := by
  refine .inr ⟨?_, not_inFlight_succeed _ _ _ _ _⟩
  rw [succeed_holds]
  exact hno.grant m

/-- The wait loop of an `acquire` without a timeout goes on until it has succeeded. -/
theorem looped_regains {seq : ℕ} (h : Looped rt cls c t m seq false o c')
    (hno : NoHold c.holds (some t)) : Regains c' t m := by
  cases h with
  | enters => exact succeed_regains _ m hno
  | givesUp htimed => cases htimed
  | parks => exact .inl ⟨hno, seq, false, Function.update_self ..⟩

/-- **Whoever holds nothing takes the lock back**: `acquire` does not raise, and it
enters or waits. -/
theorem step_acquire_regains (h : HolderReachable rt cls c) (hno : NoHold c.holds (some t))
    {expired : Bool} (hst : c.step rt cls (.acquire t m .forever expired) = some (o, c')) :
    (∀ e, o ≠ .raised e) ∧ Regains c' t m := by
  have hcount : c.lock.readerOwners.count (some t) = 0 := by rw [h.ledger.reads, hno.1]
  have hraise : ∀ e, o ≠ .raised e := fun e he => by
    have := ((step_acquire hst).2.2 e he).2
    omega
  refine ⟨hraise, ?_⟩
  cases step_deed h.reachable.wellFormed hst rfl with
  | rejected => exact absurd rfl (hraise _)
  | enters => exact succeed_regains _ m hno
  | waits _ _ _ _ hloop => exact looped_regains hloop hno

/-- A waiting call goes on, or is cancelled and holds nothing. -/
theorem step_resume_regains (h : HolderReachable rt cls c) (hreg : Regains c t m)
    {expired : Bool} (hst : c.step rt cls (.resume t expired) = some (o, c')) :
    (o ≠ .cancelled → Regains c' t m) ∧
      (o = .cancelled → NoHold c'.holds (some t) ∧ c'.pc t = .idle) := by
  have hwait : ∀ {m' seq timed i}, c.pc t = .waiting m' seq timed i →
      NoHold c.holds (some t) ∧ m' = m ∧ timed = false := by
    intro m' seq timed i hpc
    rcases hreg with ⟨hno, seq', i', hpc'⟩ | ⟨-, hnot⟩
    · rw [hpc] at hpc'
      cases hpc'
      exact ⟨hno, rfl, rfl⟩
    · exact absurd ⟨_, _, _, hpc⟩ (hnot m')
  cases step_deed h.reachable.wellFormed hst rfl with
  | goesOn hpc _ _ hloop =>
      obtain ⟨hno, rfl, rfl⟩ := hwait hpc
      refine ⟨fun _ => looped_regains hloop hno, ?_⟩
      rintro rfl
      cases hloop
  | cancelled _ hpc =>
      exact ⟨fun hne => absurd rfl hne, fun _ => ⟨(hwait hpc).1, Function.update_self ..⟩⟩

/-- The other steps of a call keep it waiting, or keep what it has got. -/
theorem step_regains (h : HolderReachable rt cls c) (hreg : Regains c t m) {a : Action τ}
    (ha : a = .interrupt t ∨ a = .clear t) (hst : c.step rt cls a = some (o, c')) :
    Regains c' t m := by
  rcases ha with rfl | rfl
  · obtain ⟨m', seq, timed, hpc, hpc', -, hh, -⟩ := step_interrupt hst
    rcases hreg with ⟨hno, seq', i', hwait⟩ | ⟨-, hnot⟩
    · rw [hpc] at hwait
      cases hwait
      exact .inl ⟨by rwa [NoHold, hh], seq, true, by rw [hpc', Function.update_self]⟩
    · exact absurd ⟨_, _, _, hpc⟩ (hnot m')
  · cases step_deed h.reachable.wellFormed hst rfl with
    | clears hpc =>
        rcases hreg with ⟨-, seq', i', hwait⟩ | ⟨hone, -⟩
        · rw [hpc] at hwait
          cases hwait
        · exact .inr ⟨hone, fun m' => not_inFlight_update (by simp) m'⟩

end System

namespace CondSystem

/-- Threads and tasks release what they hold. -/
def ByHolder (c : CondSystem τ σ) : CondAction τ σ → Prop
  | .lock a => a.caller ≠ none ∧ System.ByHolder c.sys a
  | _ => True

instance (c : CondSystem τ σ) : (a : CondAction τ σ) → Decidable (ByHolder c a)
  | .lock _ => inferInstanceAs (Decidable (_ ∧ _))
  | .change _ _ | .notify _ _ _ | .notifyAll _ _ | .test _ _ _ _ | .wait _ _ _ | .leave _
  | .interrupt _ | .wake _ | .reacquire _ | .finish _ => isTrue trivial

/-- The states that threads or tasks can reach when each releases only what it
holds. -/
def HolderReachable (rt : Runtime) (cls : LockClass) (pred : σ → Bool) :
    CondSystem τ σ → Prop :=
  Transition.Reachable (Transition.restrict ByHolder (Step rt cls pred)) Init

end CondSystem

/-! ### The caller's holds -/

/-- What `t` holds in the lock while it is at a phase of `wait()`. -/
def Keeps (s : System τ) (t : τ) : Phase → Prop
  | .out | .tested _ _ | .again _ _ => True
  | .queued w => OnlyHold s.holds (some t) w.mode
  | .sleeping _ _ | .woken _ _ _ => NoHold s.holds (some t) ∧ s.pc t = .idle
  | .reacquiring w _ _ => Regains s t w.mode

/-- Every caller of `wait()` holds what it should. -/
structure Keeping (rt : Runtime) (cls : LockClass) (c : CondSystem τ σ) : Prop where
  reach : HolderReachable rt cls c.sys
  keeps : ∀ t, Keeps c.sys t (c.phase t)

theorem Keeps.untouched {s s' : System τ} {t : τ} {p : Phase} (h : Keeps s t p)
    (hun : Untouched t s s') : Keeps s' t p := by
  obtain ⟨hpc, -, hreads, hwrites⟩ := hun
  cases p with
  | out | tested | again => trivial
  | queued w =>
      cases hm : w.mode <;> simpa only [Keeps, OnlyHold, hm, hreads, hwrites] using h
  | sleeping | woken => simpa only [Keeps, NoHold, hpc, hreads, hwrites] using h
  | reacquiring w =>
      have hfl : ∀ m, InFlight s'.pc m t ↔ InFlight s.pc m t := fun m => by
        simp only [InFlight, hpc]
      cases hm : w.mode <;>
        simpa only [Keeps, Regains, NoHold, OnlyHold, hm, hfl, hpc, hreads, hwrites] using h

variable {rt : Runtime} {cls : LockClass} {pred : σ → Bool} {c c' : CondSystem τ σ} {t : τ}
  {p : Phase} {w : WaitCall} {o : Outcome} {sys : System τ}

namespace Keeping

theorem init (rt : Runtime) (cls : LockClass) (s : σ) :
    Keeping rt cls ({ shared := s } : CondSystem τ σ) where
  reach := .start rfl
  keeps _ := trivial

theorem congr (h : Keeping rt cls c) (hsys : c'.sys = c.sys) (hph : c'.phase = c.phase) :
    Keeping rt cls c' where
  reach := hsys ▸ h.reach
  keeps := by
    rw [hsys, hph]
    exact h.keeps

theorem at_phase (h : Keeping rt cls c) (hph : c.phase t = p) : Keeps c.sys t p :=
  hph ▸ h.keeps t

theorem goto (h : Keeping rt cls c) (ht : Keeps c.sys t p) : Keeping rt cls (c.goto t p) where
  reach := h.reach
  keeps u := by
    by_cases hut : u = t
    · subst hut
      rw [CondSystem.goto_phase_self]
      exact ht
    · rw [CondSystem.goto_phase_of_ne c hut]
      exact h.keeps u

/-- A step of the lock by `t`, after which it is at `p`. -/
theorem lock (h : Keeping rt cls c) {a : Action τ} (hst : c.sys.step rt cls a = some (o, sys))
    (ha : a.caller = some t) (hby : System.ByHolder c.sys a) (hsys : c'.sys = sys)
    (hph : ∀ u, u ≠ t → c'.phase u = c.phase u) (ht : Keeps sys t (c'.phase t)) :
    Keeping rt cls c' where
  reach := hsys ▸ h.reach.step hst (by simp [ha]) hby
  keeps u := by
    rw [hsys]
    by_cases hut : u = t
    · exact hut ▸ ht
    · rw [hph u hut]
      exact (h.keeps u).untouched (System.step_untouched h.reach.books hst (by simp [ha])
        (by simpa [ha, eq_comm] using hut))

/-- `self.release()` in `wait()` succeeds. -/
theorem leave (h : Keeping rt cls c) (hph : c.phase t = .queued w)
    (hst : c.sys.step rt cls (.release (some t) w.mode) = some (o, sys)) :
    o = .released ∧ Keeping rt cls (({ c with sys := sys }).goto t (.sleeping w false)) := by
  have hone : OnlyHold c.sys.holds (some t) w.mode := h.at_phase hph
  obtain ⟨ho, hno, hpc⟩ := System.step_release_only h.reach hone hst
  have hby : System.ByHolder c.sys (.release (some t) w.mode) := by
    cases hm : w.mode with
    | read =>
        rw [hm] at hone
        have : c.sys.holds.reads (some t) = 1 := hone.1
        show 0 < c.sys.holds.reads (some t)
        omega
    | write =>
        rw [hm] at hone
        have : c.sys.holds.writes (some t) = 1 := hone.2
        exact .inl (by omega)
  refine ⟨ho, h.lock hst rfl hby rfl (fun u hu => CondSystem.goto_phase_of_ne _ hu _) ?_⟩
  rw [CondSystem.goto_phase_self]
  exact ⟨hno, hpc⟩

/-- `self.acquire()` in `wait()` does not raise. -/
theorem reacquire (h : Keeping rt cls c) {gotit err : Bool} (hph : c.phase t = .woken w gotit err)
    (hst : c.sys.step rt cls (.acquire t w.mode .forever false) = some (o, sys)) :
    (∀ e, o ≠ .raised e) ∧
      Keeping rt cls (({ c with sys := sys }).goto t (.reacquiring w gotit err)) := by
  obtain ⟨hno, -⟩ : NoHold c.sys.holds (some t) ∧ c.sys.pc t = .idle := h.at_phase hph
  obtain ⟨hraise, hreg⟩ := System.step_acquire_regains h.reach hno hst
  refine ⟨hraise, h.lock hst rfl trivial rfl (fun u hu => CondSystem.goto_phase_of_ne _ hu _) ?_⟩
  rw [CondSystem.goto_phase_self]
  exact hreg

end Keeping

/-- **Every move keeps the callers' holds.** -/
theorem WaitMove.keeping (hmv : WaitMove CondSystem.ByHolder rt cls pred c c')
    (h : Keeping rt cls c) : Keeping rt cls c' := by
  cases hmv with
  | @lock a o sys hout hP hst =>
      obtain ⟨t, ht⟩ := Option.ne_none_iff_exists'.1 hP.1
      refine h.lock hst ht hP.2 rfl (fun _ _ => rfl) ?_
      show Keeps sys t (c.phase t)
      rw [hout t ht]
      trivial
  | change | notify | notifyAll => exact h.congr rfl rfl
  | quit | tested => exact h.goto trivial
  | @enqueue t m timed inLoop hno hcheck hP =>
      have hg : Keeping rt cls (c.goto t
          (.queued { call := c.calls, mode := m, timed := timed, inLoop := inLoop })) :=
        h.goto (h.reach.checkWait_iff.1 hcheck)
      exact hg.congr rfl rfl
  | leave hph _ hst => exact (h.leave hph hst).2
  | leaveRaised hph _ hst => cases (h.leave hph hst).1
  | timeout _ hph =>
      have hno := h.at_phase hph
      exact h.goto hno
  | @cancel t w _ hph =>
      have hno := h.at_phase hph
      have hg : Keeping rt cls (c.goto t (.sleeping w true)) := h.goto hno
      exact hg.congr rfl rfl
  | @wake t w i hph hon =>
      have hno := h.at_phase hph
      have hg : Keeping rt cls (c.goto t (.woken w (!i) false)) := h.goto hno
      unfold CondSystem.wake
      split_ifs <;> exact hg.congr rfl rfl
  | reacquire hph _ hst => exact (h.reacquire hph hst).2
  | reacquireRaised hph hst => exact absurd rfl ((h.reacquire hph hst).1 _)
  | @goOn t w gotit err a o sys hph hP ha hst =>
      have hreg : Regains c.sys t w.mode := h.at_phase hph
      have hkeeps : Regains sys t w.mode := by
        rcases ha with ⟨⟨expired, rfl⟩, hno⟩ | rfl
        · exact (System.step_resume_regains h.reach hreg hst).1 hno
        · exact System.step_regains h.reach hreg (.inr rfl) hst
      have hcaller : a.caller = some t := by
        rcases ha with ⟨⟨expired, rfl⟩, -⟩ | rfl <;> rfl
      refine h.lock hst hcaller hP.2 rfl (fun _ _ => rfl) ?_
      show Keeps sys t (c.phase t)
      rw [hph]
      exact hkeeps
  | @cancelAgain t w gotit err o sys hph hst =>
      refine h.lock hst rfl trivial rfl (fun _ _ => rfl) ?_
      show Keeps sys t (c.phase t)
      rw [hph]
      exact System.step_regains h.reach (h.at_phase hph) (.inl rfl) hst
  | @retry t w gotit err expired sys hph hst =>
      refine h.lock hst rfl trivial rfl (fun u hu => CondSystem.goto_phase_of_ne _ hu _) ?_
      rw [CondSystem.goto_phase_self]
      exact (System.step_resume_regains h.reach (h.at_phase hph) hst).2 rfl
  | @finish t w gotit err hph hpc =>
      have hg : Keeping rt cls (c.goto t (w.next (CondSystem.ending rt gotit err))) := by
        refine h.goto ?_
        cases CondSystem.ending rt gotit err <;> simp only [WaitCall.next] <;> try split_ifs
        all_goals trivial
      unfold CondSystem.finish
      dsimp only
      split_ifs <;> exact hg.congr rfl rfl

/-! ### The caller's waiter -/

/-- The call that has still to remove its waiter, unless somebody pops it first. -/
def Phase.lists? (rt : Runtime) : Phase → Option WaitCall
  | .queued w | .sleeping w _ => some w
  | .woken w gotit _ | .reacquiring w gotit _ =>
      if rt = .thread ∧ gotit = false then some w else none
  | .out | .tested _ _ | .again _ _ => none

/-- The call that nobody has interrupted yet. -/
def Phase.parks? : Phase → Option WaitCall
  | .queued w | .sleeping w false => some w
  | .sleeping _ true | .woken _ _ _ | .reacquiring _ _ _ | .out | .tested _ _ | .again _ _ => none

theorem WaitCall.next_parks? (w : WaitCall) (e : Ending) : (w.next e).parks? = none := by
  cases e <;> simp only [WaitCall.next] <;> try split_ifs
  all_goals rfl

theorem Phase.wait?_of_lists? (h : p.lists? rt = some w) : p.wait? = some w := by
  cases p with
  | out | tested | again => cases h
  | queued | sleeping => exact h
  | woken | reacquiring =>
      simp only [lists?] at h
      split_ifs at h
      exact h

theorem Phase.lists?_of_parks? (h : p.parks? = some w) : p.lists? rt = some w := by
  cases p with
  | out | tested | again | woken | reacquiring => cases h
  | queued => exact h
  | sleeping w' i =>
      cases i with
      | false => exact h
      | true => cases h

theorem Phase.wait?_of_parks? (h : p.parks? = some w) : p.wait? = some w := by
  have hl : p.lists? .thread = some w := lists?_of_parks? h
  exact wait?_of_lists? hl

/-- Whose the waiters in the queue are. -/
structure Listed (rt : Runtime) (c : CondSystem τ σ) : Prop where
  listed : ∀ i ∈ c.queue.waiters, ∃ t w, (c.phase t).lists? rt = some w ∧ w.call = i
  pending : ∀ t w, (c.phase t).parks? = some w → w.call ∈ c.queue.waiters →
    c.queue.state w.call = .pending

namespace Listed

omit [DecidableEq τ] in
theorem init (rt : Runtime) (s : σ) : Listed rt ({ shared := s } : CondSystem τ σ) where
  listed _ hi := by cases hi
  pending _ _ h := by cases h

omit [DecidableEq τ] in
theorem congr (h : Listed rt c) (hq : c'.queue = c.queue) (hph : c'.phase = c.phase) :
    Listed rt c' where
  listed := by
    rw [hq, hph]
    exact h.listed
  pending := by
    rw [hq, hph]
    exact h.pending

/-- `t` goes on; if its waiter is in the queue it will still remove it. -/
theorem goto (h : Listed rt c)
    (hl : ∀ w, (c.phase t).lists? rt = some w → w.call ∈ c.queue.waiters →
      p.lists? rt = some w)
    (hp : ∀ w, p.parks? = some w → (c.phase t).parks? = some w) : Listed rt (c.goto t p) where
  listed i hi := by
    obtain ⟨u, w, hu, hw⟩ := h.listed i hi
    refine ⟨u, w, ?_, hw⟩
    by_cases hut : u = t
    · subst hut
      rw [CondSystem.goto_phase_self]
      exact hl w hu (hw ▸ hi)
    · rwa [CondSystem.goto_phase_of_ne c hut]
  pending u w hu hw := by
    refine h.pending u w ?_ hw
    by_cases hut : u = t
    · subst hut
      rw [CondSystem.goto_phase_self] at hu
      exact hp w hu
    · rwa [CondSystem.goto_phase_of_ne c hut] at hu

omit [DecidableEq τ] in
/-- The queue loses some waiters, and those that stay keep their state. -/
theorem shrink (h : Listed rt c) {q : WaitQueue ℕ}
    (hsub : ∀ i ∈ q.waiters, i ∈ c.queue.waiters)
    (hkept : ∀ t w, (c.phase t).parks? = some w → w.call ∈ q.waiters →
      q.state w.call = c.queue.state w.call) : Listed rt { c with queue := q } where
  listed i hi := h.listed i (hsub i hi)
  pending t w ht hw := (hkept t w ht hw).trans (h.pending t w ht (hsub _ hw))

/-- `t` removes its waiter. -/
theorem removeWaiter (h : Listed rt c) (hc : Calls c) (hw : (c.phase t).wait? = some w)
    (hpark : p.parks? = none) : Listed rt ((c.removeWaiter w).goto t p) := by
  have hshrink : Listed rt (c.removeWaiter w) :=
    h.shrink (fun i hi => List.mem_of_mem_erase hi) fun _ _ _ _ => rfl
  refine hshrink.goto (fun w' hw' hmem => ?_) fun w' hw' => by simp [hpark] at hw'
  have hw'' := (Phase.wait?_of_lists? hw').symm.trans hw
  cases hw''
  exact absurd hmem hc.nodup.not_mem_erase

/-- A call of `t` begins. -/
theorem enqueue (h : Listed rt c) (hc : Calls c) (hno : (c.phase t).wait? = none)
    (hw : w.call = c.calls) : Listed rt (c.enqueue t w) where
  listed i hi := by
    rcases List.mem_append.1 (show i ∈ c.queue.waiters ++ [w.call] from hi) with hi | hi
    · obtain ⟨u, w', hu, hw'⟩ := h.listed i hi
      have hut : u ≠ t := by
        rintro rfl
        rw [Phase.wait?_of_lists? hu] at hno
        cases hno
      exact ⟨u, w', by rwa [← CondSystem.goto_phase_of_ne c hut (.queued w)] at hu, hw'⟩
    · rw [List.mem_singleton.1 hi]
      exact ⟨t, w, by rw [show (c.enqueue t w).phase t = .queued w from
        Function.update_self ..]; rfl, rfl⟩
  pending u w' hu hmem := by
    by_cases hut : u = t
    · subst hut
      rw [show (c.enqueue u w).phase u = .queued w from Function.update_self ..] at hu
      cases hu
      exact Function.update_self ..
    · rw [show (c.enqueue t w).phase u = c.phase u from Function.update_of_ne hut ..] at hu
      have hlt := hc.lt u w' (Phase.wait?_of_parks? hu)
      have hne : w'.call ≠ w.call := by omega
      have hmem' : w'.call ∈ c.queue.waiters := by
        simpa [CondSystem.enqueue, WaitQueue.appendWaiter, hne] using hmem
      exact (Function.update_of_ne hne ..).trans (h.pending u w' hu hmem')

end Listed

/-- **Every move keeps the waiters listed.** -/
theorem WaitMove.listed (hmv : WaitMove CondSystem.ByHolder rt cls pred c c')
    (hk : Keeping rt cls c) (hc : Calls c) (h : Listed rt c) : Listed rt c' := by
  have hnotify : ∀ n, Listed rt { c with queue := c.queue.notify n } := fun n =>
    h.shrink (fun i hi => (c.queue.notify_suffix n).subset hi) fun _ _ _ hw =>
      WaitQueue.notify_kept hc.nodup hw
  -- a caller that stays at its place in the queue, or leaves it for good
  have hgo : ∀ {t : τ} {p : Phase}, p.parks? = none ∨ (c.phase t).parks? = p.parks? →
      p.lists? rt = (c.phase t).lists? rt → Listed rt (c.goto t p) := by
    intro t p hpark hl
    refine h.goto (fun w hw _ => hl.trans hw) fun w hw => ?_
    rcases hpark with hpark | hpark
    · rw [hpark] at hw
      cases hw
    · exact hpark.trans hw
  cases hmv with
  | lock | change | goOn | cancelAgain => exact h.congr rfl rfl
  | notify => exact hnotify _
  | notifyAll => exact (hnotify _).congr rfl rfl
  | @quit t hno | @tested t m timed hno =>
      refine hgo (.inl rfl) ?_
      cases hl : (c.phase t).lists? rt with
      | none => rfl
      | some w =>
          rw [Phase.wait?_of_lists? hl] at hno
          cases hno
  | enqueue _ hno => exact h.enqueue hc hno rfl
  | @leave t w o sys hph =>
      have hg : Listed rt (c.goto t (.sleeping w false)) := hgo (.inr (by rw [hph]; rfl))
        (by rw [hph]; rfl)
      exact hg.congr rfl rfl
  | leaveRaised hph _ hst => cases (hk.leave hph hst).1
  | timeout _ hph => exact hgo (.inl rfl) (by rw [hph]; rfl)
  | @cancel t w _ hph =>
      have hg : Listed rt (c.goto t (.sleeping w true)) := hgo (.inl rfl) (by rw [hph]; rfl)
      refine (hg.shrink (q := c.queue.cancelWaiter w.call)
        (fun i hi => c.queue.cancelWaiter_waiters w.call ▸ hi) fun u w' hu _ => ?_).congr rfl rfl
      -- the other calls have waiters of their own
      have hut : u ≠ t := by
        rintro rfl
        rw [CondSystem.goto_phase_self] at hu
        cases hu
      rw [CondSystem.goto_phase_of_ne c hut] at hu
      have hne : w'.call ≠ w.call := fun heq =>
        hut (hc.inj u t w' w (Phase.wait?_of_parks? hu) (by rw [hph]; rfl) heq)
      show (c.queue.cancelWaiter w.call).state w'.call = _
      rw [WaitQueue.cancelWaiter_state, if_neg fun heq => hne heq.1]
      rfl
  | @wake t w i hph hon =>
      unfold CondSystem.wake
      split_ifs with hi
      · rw [hi.2]
        exact h.removeWaiter hc (by rw [hph]; rfl) rfl
      · refine h.goto (fun w' hw' hmem => ?_) nofun
        rw [hph] at hw'
        cases hw'
        -- a waiter that nobody interrupted is pending while it is in the queue
        cases i with
        | false =>
            have := hon (h.pending t w (by rw [hph]; rfl) hmem)
            cases this
        | true =>
            have hrt : rt = .thread := by cases rt <;> simp at hi ⊢
            exact if_pos ⟨hrt, rfl⟩
  | @reacquire t w gotit err o sys hph =>
      have hg : Listed rt (c.goto t (.reacquiring w gotit err)) := hgo (.inl rfl)
        (by rw [hph]; rfl)
      exact hg.congr rfl rfl
  | reacquireRaised hph hst => exact absurd rfl ((hk.reacquire hph hst).1 _)
  | @retry t w gotit err expired sys hph =>
      have hg : Listed rt (c.goto t (.woken w gotit true)) := hgo (.inl rfl) (by rw [hph]; rfl)
      exact hg.congr rfl rfl
  | @finish t w gotit err hph =>
      unfold CondSystem.finish
      dsimp only
      split_ifs with hi
      · exact (h.removeWaiter hc (by rw [hph]; rfl) (w.next_parks? _)).congr rfl rfl
      · have hg : Listed rt (c.goto t (w.next (CondSystem.ending rt gotit err))) := by
          refine h.goto (fun w' hw' _ => ?_) fun w' hw' => by simp [w.next_parks?] at hw'
          rw [hph, Phase.lists?, if_neg hi] at hw'
          cases hw'
        exact hg.congr rfl rfl

/-- The `finally` block leaves its caller with its acquisition back, and without a
waiter in the queue. -/
theorem Keeping.finish (hk : Keeping rt cls c) (hc : Calls c) (hl : Listed rt c)
    {gotit err : Bool} (hph : c.phase t = .reacquiring w gotit err) (hpc : c.sys.pc t = .idle) :
    OnlyHold c.sys.holds (some t) w.mode ∧
      w.call ∉ (c.finish rt t w gotit err).2.queue.waiters := by
  constructor
  · rcases hk.at_phase hph with ⟨-, seq, i, hwait⟩ | ⟨hone, -⟩
    · rw [hpc] at hwait
      cases hwait
    · exact hone
  · unfold CondSystem.finish
    dsimp only
    split_ifs with hi
    · exact hc.nodup.not_mem_erase
    · intro hmem
      obtain ⟨u, w', hu, hw'⟩ := hl.listed w.call hmem
      obtain rfl : u = t := hc.inj u t w' w (Phase.wait?_of_lists? hu) (by rw [hph]; rfl) hw'
      rw [hph, Phase.lists?, if_neg hi] at hu
      cases hu

/-- **The only move out of a call of `wait()`** is the end of its `finally` block. -/
theorem WaitMove.exits (hmv : WaitMove CondSystem.ByHolder rt cls pred c c')
    (hk : Keeping rt cls c) (hc : Calls c) (hl : Listed rt c) (hw : (c.phase t).wait? = some w)
    (hout : (c'.phase t).wait? ≠ some w) :
    OnlyHold c'.sys.holds (some t) w.mode ∧ c'.sys.pc t = .idle ∧
      w.call ∉ c'.queue.waiters := by
  have hstay : ∀ {d : CondSystem τ σ} {u : τ} {p : Phase}, d.phase = c.phase →
      (u = t → p.wait? = some w) → ((d.goto u p).phase t).wait? = some w := by
    intro d u p hd hp
    by_cases hut : t = u
    · subst hut
      rw [CondSystem.goto_phase_self]
      exact hp rfl
    · rw [CondSystem.goto_phase_of_ne d hut, hd]
      exact hw
  have hin : ∀ {u : τ} {p : Phase}, c.phase u = p → u = t → p.wait? = some w := by
    rintro u p rfl rfl
    exact hw
  cases hmv with
  | lock | change | notify | notifyAll | goOn | cancelAgain => exact absurd hw hout
  | quit hno | tested _ _ hno | enqueue _ hno =>
      refine (hout (hstay rfl ?_)).elim
      rintro rfl
      rw [hw] at hno
      cases hno
  | leave hph | timeout _ hph | cancel _ hph | reacquire hph | retry hph =>
      have hold := hin hph
      exact (hout (hstay rfl hold)).elim
  | wake hph =>
      have hold := hin hph
      unfold CondSystem.wake at hout
      dsimp only at hout
      split_ifs at hout
      · exact (hout (hstay rfl hold)).elim
      · exact (hout (hstay rfl hold)).elim
  | leaveRaised hph _ hst => cases (hk.leave hph hst).1
  | reacquireRaised hph hst => exact absurd rfl ((hk.reacquire hph hst).1 _)
  | @finish u w' gotit err hph hpc =>
      have hsys : (c.finish rt u w' gotit err).2.sys = c.sys := by
        unfold CondSystem.finish
        dsimp only
        split_ifs <;> rfl
      have hphase : (c.finish rt u w' gotit err).2.phase =
          (c.goto u (w'.next (CondSystem.ending rt gotit err))).phase := by
        unfold CondSystem.finish
        dsimp only
        split_ifs <;> rfl
      by_cases hut : u = t
      · subst hut
        rw [hph] at hw
        cases hw
        obtain ⟨hone, hmem⟩ := hk.finish hc hl hph hpc
        exact ⟨by rwa [hsys], by rwa [hsys], hmem⟩
      · refine absurd ?_ hout
        rw [hphase]
        exact hstay rfl fun heq => absurd heq hut

namespace CondSystem

theorem HolderReachable.keeping (h : HolderReachable rt cls pred c) :
    Keeping rt cls c ∧ Calls c ∧ Listed rt c := by
  refine Transition.Reachable.invariant
    (I := fun c => Keeping rt cls c ∧ Calls c ∧ Listed rt c) ?_ ?_ h
  · intro c hc
    rw [hc]
    exact ⟨.init .., .init _, .init ..⟩
  · rintro c a c' hI ⟨hP, hst⟩
    refine (hst.moves hP).invariant
      (I := fun c => Keeping rt cls c ∧ Calls c ∧ Listed rt c) ?_ hI
    rintro c c' ⟨hk, hc, hl⟩ hmv
    exact ⟨hmv.keeping hk, hmv.calls hc, hmv.listed hk hc hl⟩

/-- A call of `wait()` leaves the other calls where they are. -/
theorem step_wait_phase {m : Mode} {timed : Bool} {u : τ} {o : CondOutcome}
    (hst : c.step rt cls pred (.wait u m timed) = some (o, c')) :
    (c.phase u).wait? = none ∧ ∀ t, t ≠ u → c'.phase t = c.phase t := by
  have hleave : ∀ {d : CondSystem τ σ} {w : WaitCall}, d.leave rt cls u w = some (o, c') →
      ∀ t, t ≠ u → c'.phase t = d.phase t := by
    intro d w hd t ht
    obtain ⟨o', sys, -, h⟩ := onLock_eq_some hd
    split at h
    · obtain rfl := (Prod.mk.inj h).2
      exact goto_phase_of_ne _ ht _
    · obtain rfl := (Prod.mk.inj h).2
      exact goto_phase_of_ne _ ht _
  have hwait : ∀ {inLoop : Bool}, c.wait rt cls u m timed inLoop = some (o, c') →
      ∀ t, t ≠ u → c'.phase t = c.phase t := by
    intro inLoop h t ht
    unfold wait at h
    cases hcheck : cls.checkWait c.sys.lock (some u) m with
    | error e =>
        rw [hcheck] at h
        cases h
        exact goto_phase_of_ne _ ht _
    | ok =>
        rw [hcheck] at h
        cases rt with
        | thread =>
            cases h
            exact goto_phase_of_ne _ ht _
        | async => exact (hleave h t ht).trans (goto_phase_of_ne _ ht _)
  simp only [step] at hst
  split_ifs at hst with hph hf
  · exact ⟨by rw [hph]; rfl, hwait hst⟩
  · exact ⟨by rw [hf.1.1]; rfl, hwait hst⟩

/-- A call that passes its checks is in progress after its first step. -/
theorem wait_begins (hk : Keeping rt cls c) {m : Mode} {timed inLoop : Bool} {o : CondOutcome}
    (hcheck : cls.checkWait c.sys.lock (some t) m = .ok ())
    (h : c.wait rt cls t m timed inLoop = some (o, c')) :
    ∃ w, w.mode = m ∧ (c'.phase t).wait? = some w := by
  let w : WaitCall := { call := c.calls, mode := m, timed := timed, inLoop := inLoop }
  refine ⟨w, rfl, ?_⟩
  unfold CondSystem.wait at h
  rw [hcheck] at h
  cases rt with
  | thread =>
      cases h
      rw [show (c.enqueue t w).phase t = .queued w from Function.update_self ..]
      rfl
  | async =>
      have hg : Keeping .async cls (c.goto t (.queued w)) :=
        hk.goto (hk.reach.checkWait_iff.1 hcheck)
      obtain ⟨o', sys, hst, h⟩ := onLock_eq_some h
      split at h
      · cases (hg.leave (w := w) (goto_phase_self ..) hst).1
      · obtain rfl := (Prod.mk.inj h).2
        rw [goto_phase_self]
        rfl

/-- **`wait()` gives the lock back.**  Each thread or task releases only what it holds.
Then a call of `wait()` that passes its checks is in progress until it leaves with
exactly one acquisition, in its proxy's mode, and without a waiter in the queue; and
neither its `release()` nor its `acquire()` raises. -/
theorem wait_gives_back {a : CondAction τ σ} {o : CondOutcome} (h : HolderReachable rt cls pred c)
    (hP : ByHolder c a) (hst : c.step rt cls pred a = some (o, c')) :
    (∀ t m timed, a = .wait t m timed → cls.checkWait c.sys.lock (some t) m = .ok () →
      ∃ w, w.mode = m ∧ (c'.phase t).wait? = some w) ∧
    (∀ t w, (c.phase t).wait? = some w → (c'.phase t).wait? = some w ∨
      OnlyHold c'.sys.holds (some t) w.mode ∧ c'.sys.pc t = .idle ∧
        w.call ∉ c'.queue.waiters) ∧
    ∀ t, a = .leave t ∨ a = .reacquire t → ∀ e, o ≠ .raised e := by
  obtain ⟨hk, hc, hl⟩ := h.keeping
  refine ⟨?_, fun t w hw => ?_, ?_⟩
  · rintro t m timed rfl hcheck
    simp only [step] at hst
    split_ifs at hst
    · exact wait_begins hk hcheck hst
    · exact wait_begins hk hcheck hst
  · by_cases hout : (c'.phase t).wait? = some w
    · exact .inl hout
    · by_cases ha : ∃ u m timed, a = .wait u m timed
      · obtain ⟨u, m, timed, rfl⟩ := ha
        obtain ⟨hno, hph⟩ := step_wait_phase hst
        have hut : t ≠ u := by
          rintro rfl
          rw [hw] at hno
          cases hno
        rw [hph t hut] at hout
        exact absurd hw hout
      · rcases Step.move ⟨o, hst⟩ hP fun u m timed heq => ha ⟨u, m, timed, heq⟩ with rfl | hmv
        · exact absurd hw hout
        · exact .inr (hmv.exits hk hc hl hw hout)
  · rintro t (rfl | rfl) e rfl <;> simp only [step] at hst <;> split at hst
    · rename_i w hph
      obtain ⟨o', sys, hlock, h⟩ := onLock_eq_some hst
      obtain rfl := (hk.leave hph hlock).1
      cases (Prod.mk.inj h).1
    · cases hst
    · rename_i w gotit err hph
      obtain ⟨o', sys, hlock, h⟩ := onLock_eq_some hst
      split at h
      · exact absurd rfl ((hk.reacquire hph hlock).1 _)
      · cases (Prod.mk.inj h).1
    · cases hst

/-- A reader is cancelled while it sleeps and again while it takes the lock back. -/
theorem wait_gives_back_cancelled : ∃ c c' : CondSystem ℕ Bool,
    c.phase 0 = .reacquiring ⟨0, .read, false, false⟩ false true ∧
      c.step .async .fair id (.finish 0) = some (.finished .cancelledError, c') ∧
      OnlyHold c'.sys.holds (some 0) .read ∧ c'.sys.pc 0 = .idle ∧ 0 ∉ c'.queue.waiters := by
  have hrun : ((Transition.replay (next ByHolder .async .fair id)
      ({ shared := false } : CondSystem ℕ Bool)
      [.lock (.acquire 0 .read .forever false), .wait 0 .read false,
        .lock (.acquire 1 .write .forever false), .interrupt 0, .wake 0, .reacquire 0,
        .lock (.interrupt 0), .lock (.resume 0 false), .reacquire 0,
        .lock (.release (some 1) .write), .lock (.resume 0 false)]).bind fun c =>
      (c.step .async .fair id (.finish 0)).map fun r => (c.phase 0, r.1, r.2.phase 0)) =
      some (.reacquiring ⟨0, .read, false, false⟩ false true, .finished .cancelledError, .out) := by
    decide
  obtain ⟨c, hc, hrun⟩ := Option.bind_eq_some_iff.1 hrun
  obtain ⟨⟨o, c'⟩, hst, hval⟩ := Option.map_eq_some_iff.1 hrun
  simp only [Prod.mk.injEq] at hval
  obtain ⟨hph, rfl, hout⟩ := hval
  have h : HolderReachable .async .fair id c := ⟨{ shared := false }, _, rfl, run_of_replay hc⟩
  refine ⟨c, c', hph, hst, ?_⟩
  have hP : ByHolder c (.finish 0) := trivial
  rcases (wait_gives_back h hP hst).2.1 0 ⟨0, .read, false, false⟩ (by rw [hph]; rfl) with
    hin | hback
  · rw [hout] at hin
    cases hin
  · exact hback

end CondSystem

end Rwlocker

/-
# Signals and cancelled tasks

`AsyncRWConditionProxy.wait` under cancellation.  A task that was signalled may still
be cancelled, before it runs again or while it takes the lock back.  It then raises
`CancelledError`, and its signal is lost: unlike `acquire`, whose `_on_abort` passes
the turn on, `wait` wakes nobody else.

`Story` follows one call of `wait()` from phase to phase, and `History` says how it
ended: with `True` exactly if it was signalled and never cancelled
(`CondSystem.Reachable.history`).
-/

import Rwlocker.Calls

namespace Rwlocker

open ReadersWriter (Holds)

variable {τ σ : Type} [DecidableEq τ]

/-- The caller was timed out or cancelled since its park. -/
def Pc.interrupted : Pc → Bool
  | .waiting _ _ _ i => i
  | .idle | .clearing => false

/-- After an attempt the caller is not interrupted. -/
theorem Attempt.interrupted {rt : Runtime} {cls : LockClass} {c c' : System τ} {t : τ} {m : Mode}
    {o : Outcome} (h : Attempt rt cls c t c' m o) :
    (c'.pc t).interrupted = false := by
  cases h with
  | fails _ hpc _ hp =>
      rw [hpc, Function.update_self]
      rcases hp with rfl | ⟨seq, timed, rfl⟩ <;> rfl
  | reads _ hpc => rw [hpc, Function.update_self]; rfl
  | writes _ _ _ hpc =>
      rw [hpc, Function.update_self]
      split_ifs <;> rfl

namespace System

variable {rt : Runtime} {cls : LockClass} {c c' : System τ} {t : τ} {m : Mode} {o : Outcome}

/-- Whoever passed the checks of `wait()` gives its only hold back. -/
theorem step_release_checked (hb : Books cls c.lock)
    (hcheck : cls.checkWait c.lock (some t) m = .ok ())
    (hst : c.step rt cls (.release (some t) m) = some (o, c')) :
    o = .released ∧ c'.lock.readerOwners.count (some t) = 0 := by
  have hpc : c.pc t = .idle := by
    simp only [step] at hst
    split_ifs at hst with hcall
    simpa [canCall] using hcall
  suffices hok : ∃ c'', c.step rt cls (.release (some t) m) = some (.released, c'') ∧
      c''.lock.readerOwners.count (some t) = 0 by
    obtain ⟨c'', hst', hcount⟩ := hok
    rw [hst'] at hst
    cases hst
    exact ⟨rfl, hcount⟩
  obtain ⟨hown, hdepth⟩ := LockClass.checkWait_eq_ok.1 hcheck
  rw [LockClass.ownedLockDepth_eq hb] at hdepth
  cases m with
  | read =>
      have hr : 0 < c.lock.readerOwners.count (some t) := by
        simpa [LockClass.isOwned, RWLock.isCurrentReader] using hown
      have hone : c.lock.readerOwners.count (some t) = 1 := by
        have := hb.depth_nonneg
        split_ifs at hdepth <;> omega
      refine ⟨_, step_release_read hpc hr, ?_⟩
      show (cls.onReaderLeave (c.lock.dropReader (some t))).readerOwners.count (some t) = 0
      rw [(cls.signals_onReaderLeave _).readerOwners, RWLock.count_dropReader, if_pos rfl, hone]
  | write =>
      have ho : cls.owner c.lock = some t := (cls.isCurrentWriter_iff _ _).1 hown
      have hd := hb.depth_pos (by simp [ho])
      rw [if_pos ho] at hdepth
      have hz : c.lock.readerOwners.count (some t) = 0 := by omega
      obtain ⟨s, hst', hs⟩ := step_release_write rt hb hpc ho (by omega) hz
      exact ⟨_, hst', (congrArg (Tally.count · (some t)) hs).trans hz⟩

end System

/-- The waiter object of a call that was queued, and whether it was cancelled. -/
def Fate (v : Waiter) (cancelled : Bool) : Prop :=
  v = .pending ∧ cancelled = false ∨ v = .woken ∨ v = .cancelled ∧ cancelled = true

/-- What has become of the call of `wait()` that `t` is in, at `p`. -/
def Story (c : CondSystem τ σ) (t : τ) : Phase → Prop
  | .out | .tested _ _ | .again _ _ => True
  | .queued w => c.ended w.call = none ∧ Fate (c.queue.state w.call) (c.cancelled w.call) ∧
      c.cancelled w.call = false
  | .sleeping w i => c.ended w.call = none ∧ Fate (c.queue.state w.call) (c.cancelled w.call) ∧
      c.cancelled w.call = i ∧ c.sys.lock.readerOwners.count (some t) = 0
  | .woken w gotit err => c.ended w.call = none ∧
      (gotit = true → c.queue.state w.call = .woken) ∧ c.cancelled w.call = (!gotit || err) ∧
      c.sys.lock.readerOwners.count (some t) = 0
  | .reacquiring w gotit err => c.ended w.call = none ∧
      (gotit = true → c.queue.state w.call = .woken) ∧
      c.cancelled w.call = (!gotit || err || (c.sys.pc t).interrupted)

/-- How the calls of `wait()` went (module doc). -/
structure History (c : CondSystem τ σ) : Prop where
  story : ∀ t, Story c t (c.phase t)
  queued : ∀ i ∈ c.queue.waiters, c.queue.state i ≠ .woken ∧ Fate (c.queue.state i) (c.cancelled i)
  ended : ∀ i e, c.ended i = some e →
    e = .returned true ∧ c.queue.state i = .woken ∧ c.cancelled i = false ∨
      e = .cancelledError ∧ c.cancelled i = true

variable {P : CondSystem τ σ → CondAction τ σ → Prop} {cls : LockClass} {pred : σ → Bool}
  {c c' : CondSystem τ σ} {t u : τ} {p : Phase} {w : WaitCall} {o : Outcome} {sys : System τ}

omit [DecidableEq τ] in
theorem Fate.notify {v v' : Waiter} {b : Bool} (h : Fate v b)
    (hv : v' = v ∨ v = .pending ∧ v' = .woken) : Fate v' b := by
  rcases hv with rfl | ⟨-, rfl⟩
  · exact h
  · exact .inr (.inl rfl)

theorem Fate.not_cancelled {b : Bool} (h : Fate .pending b) : b = false := by
  rcases h with ⟨-, hb⟩ | h | ⟨h, -⟩
  · exact hb
  · cases h
  · cases h

omit [DecidableEq τ] in
theorem Fate.cancelWaiter {q : WaitQueue ℕ} {i : ℕ} {b : Bool} (h : Fate (q.state i) b) :
    Fate ((q.cancelWaiter i).state i) true := by
  rw [WaitQueue.cancelWaiter_state]
  split_ifs with hp
  · exact .inr (.inr ⟨rfl, rfl⟩)
  · rcases h with ⟨hpend, -⟩ | hwoken | ⟨hcancelled, -⟩
    · exact absurd ⟨rfl, hpend⟩ hp
    · exact .inr (.inl hwoken)
    · exact .inr (.inr ⟨hcancelled, rfl⟩)

/-- A story goes on while the others move: they may wake the caller. -/
theorem Story.mono (h : Story c t p)
    (hcount : c'.sys.lock.readerOwners.count (some t) = c.sys.lock.readerOwners.count (some t))
    (hpc : (c'.sys.pc t).interrupted = (c.sys.pc t).interrupted)
    (hcall : ∀ w, p.wait? = some w → c'.ended w.call = c.ended w.call ∧
      c'.cancelled w.call = c.cancelled w.call ∧
      (c'.queue.state w.call = c.queue.state w.call ∨
        c.queue.state w.call = .pending ∧ c'.queue.state w.call = .woken)) :
    Story c' t p := by
  cases p with
  | out | tested | again => trivial
  | queued w =>
      obtain ⟨he, hc, hs⟩ := hcall w rfl
      simp only [Story, he, hc] at h ⊢
      exact ⟨h.1, h.2.1.notify hs, h.2.2⟩
  | sleeping w i =>
      obtain ⟨he, hc, hs⟩ := hcall w rfl
      simp only [Story, he, hc, hcount] at h ⊢
      exact ⟨h.1, h.2.1.notify hs, h.2.2⟩
  | woken w gotit err =>
      obtain ⟨he, hc, hs⟩ := hcall w rfl
      simp only [Story, he, hc, hcount] at h ⊢
      refine ⟨h.1, fun hg => ?_, h.2.2⟩
      rcases hs with hs | ⟨-, hs⟩
      · rw [hs, h.2.1 hg]
      · exact hs
  | reacquiring w gotit err =>
      obtain ⟨he, hc, hs⟩ := hcall w rfl
      simp only [Story, he, hc, hpc] at h ⊢
      refine ⟨h.1, fun hg => ?_, h.2.2⟩
      rcases hs with hs | ⟨-, hs⟩
      · rw [hs, h.2.1 hg]
      · exact hs

namespace History

theorem init (s : σ) : History ({ shared := s } : CondSystem τ σ) where
  story _ := trivial
  queued _ h := by cases h
  ended _ _ h := by cases h

theorem story_at (h : History c) (hph : c.phase t = p) : Story c t p :=
  hph ▸ h.story t

/-- A waiter in the queue that is not pending was cancelled. -/
theorem cancelled_of_queued (h : History c) {i : ℕ} (hi : i ∈ c.queue.waiters)
    (hp : c.queue.state i ≠ .pending) : c.queue.state i = .cancelled ∧ c.cancelled i = true := by
  obtain ⟨hnw, ⟨hpend, -⟩ | hwoken | hcan⟩ := h.queued i hi
  · exact absurd hpend hp
  · exact absurd hwoken hnw
  · exact hcan

/-- When only the call of `t` goes on, the other stories are the same. -/
theorem stories (h : History c) (hsys : ∀ u, u ≠ t → Untouched u c.sys c'.sys)
    (hphase : ∀ u, u ≠ t → c'.phase u = c.phase u)
    (hcall : ∀ u w, u ≠ t → (c.phase u).wait? = some w → c'.ended w.call = c.ended w.call ∧
      c'.cancelled w.call = c.cancelled w.call ∧
      c'.queue.state w.call = c.queue.state w.call)
    (ht : Story c' t (c'.phase t)) : ∀ u, Story c' u (c'.phase u) := by
  intro u
  by_cases hut : u = t
  · exact hut ▸ ht
  · rw [hphase u hut]
    refine (h.story u).mono (hsys u hut).count (by rw [(hsys u hut).pc]) fun w hw => ?_
    obtain ⟨he, hc, hs⟩ := hcall u w hut hw
    exact ⟨he, hc, .inl hs⟩

/-- A step of the lock by `t`. -/
theorem lock (h : History c) (hr : System.Reachable .async cls c.sys) {a : Action τ}
    (ha : a.caller = some t) (hst : c.sys.step .async cls a = some (o, sys))
    (ht : Story { c with sys := sys } t (c.phase t)) : History { c with sys := sys } := by
  refine ⟨h.stories (t := t) (fun u hu => ?_) (fun _ _ => rfl) (fun _ _ _ _ => ⟨rfl, rfl, rfl⟩) ht,
    h.queued, h.ended⟩
  exact System.step_untouched hr.wellFormed.books hst (by simp [ha])
    (by simpa [ha, eq_comm] using hu)

/-- A step of the lock by `t`, after which it goes on at `p`. -/
theorem lock_goto (h : History c) (hr : System.Reachable .async cls c.sys) {a : Action τ}
    (ha : a.caller = some t) (hst : c.sys.step .async cls a = some (o, sys))
    (ht : Story { c with sys := sys } t p) : History (({ c with sys := sys }).goto t p) := by
  refine ⟨h.stories (t := t) (fun u hu => ?_) (fun u hu => CondSystem.goto_phase_of_ne _ hu _)
    (fun _ _ _ _ => ⟨rfl, rfl, rfl⟩) ?_, h.queued, h.ended⟩
  · exact System.step_untouched hr.wellFormed.books hst (by simp [ha])
      (by simpa [ha, eq_comm] using hu)
  · rw [CondSystem.goto_phase_self]
    exact ht

/-- `t` goes on at `p`. -/
theorem goto (h : History c) (ht : Story c t p) : History (c.goto t p) := by
  refine ⟨h.stories (t := t) (fun u _ => System.untouched_refl u _)
    (fun u hu => CondSystem.goto_phase_of_ne _ hu _) (fun _ _ _ _ => ⟨rfl, rfl, rfl⟩) ?_,
    h.queued, h.ended⟩
  rw [CondSystem.goto_phase_self]
  exact ht

theorem notify (h : History c) (hc : Calls c) (n : ℤ) :
    History { c with queue := c.queue.notify n } where
  story u := (h.story u).mono rfl rfl fun w hw => by
    refine ⟨rfl, rfl, ?_⟩
    rcases c.queue.notify_state n w.call with heq | ⟨hp, -, hs⟩
    · exact .inl heq
    · exact .inr ⟨hp, hs⟩
  queued i hi := by
    have hkept := WaitQueue.notify_kept hc.nodup hi
    have hold := h.queued i ((c.queue.notify_suffix n).subset hi)
    show (c.queue.notify n).state i ≠ .woken ∧ Fate ((c.queue.notify n).state i) _
    rwa [hkept]
  ended i e he := by
    rcases h.ended i e he with ⟨rfl, hs, hcan⟩ | hcan
    · refine .inl ⟨rfl, ?_, hcan⟩
      rcases c.queue.notify_state n i with heq | ⟨hp, -, -⟩
      · exact heq.trans hs
      · rw [hs] at hp
        cases hp
    · exact .inr hcan

/-- A call that ends leaves the other calls alone. -/
theorem endWait (h : History c) (hc : Calls c) (hw : (c.phase t).wait? = some w) {e : Ending}
    (he : e = .returned true ∧ c.queue.state w.call = .woken ∧ c.cancelled w.call = false ∨
      e = .cancelledError ∧ c.cancelled w.call = true) : History (c.endWait t w e) where
  story := by
    refine h.stories (t := t) (fun u _ => System.untouched_refl u _)
      (fun u hu => CondSystem.goto_phase_of_ne _ hu _) (fun u w' hu hw' => ⟨?_, rfl, rfl⟩) ?_
    · exact Function.update_of_ne (fun heq => hu (hc.inj u t w' w hw' hw heq)) _ _
    · show Story _ t ((c.goto t (w.next e)).phase t)
      rw [CondSystem.goto_phase_self]
      cases e <;> simp only [WaitCall.next] <;> try split_ifs
      all_goals trivial
  queued := h.queued
  ended i e' hi := by
    by_cases heq : i = w.call
    · subst heq
      have hi : Function.update c.ended w.call (some e) w.call = some e' := hi
      rw [Function.update_self] at hi
      cases hi
      exact he
    · exact h.ended i e' (by simpa [CondSystem.endWait, CondSystem.goto, heq] using hi)

/-- A new call of `wait()` by `t`. -/
theorem enqueue (h : History c) (hc : Calls c) (hw : w.call = c.calls) :
    History (c.enqueue t w) := by
  obtain ⟨-, hcan, hend⟩ := hc.unborn w.call (by omega)
  have hstate : ∀ i, i ≠ w.call → (c.enqueue t w).queue.state i = c.queue.state i :=
    fun i hi => Function.update_of_ne hi _ _
  have hnew : (c.enqueue t w).queue.state w.call = .pending := Function.update_self ..
  refine ⟨h.stories (t := t) (fun u _ => System.untouched_refl u _)
    (fun u hu => CondSystem.goto_phase_of_ne _ hu _) (fun u w' hu hw' => ⟨rfl, rfl, ?_⟩) ?_,
    fun i hi => ?_, fun i e he => ?_⟩
  · have := hc.lt u w' hw'
    exact hstate _ (by omega)
  · show Story _ t ((c.goto t (.queued w)).phase t)
    rw [CondSystem.goto_phase_self]
    exact ⟨hend, .inl ⟨hnew, hcan⟩, hcan⟩
  · have hi : i ∈ c.queue.waiters ++ [w.call] := hi
    by_cases heq : i = w.call
    · subst heq
      rw [hnew]
      exact ⟨nofun, .inl ⟨rfl, hcan⟩⟩
    · rw [hstate i heq]
      exact h.queued i (by simpa [heq] using hi)
  · have hne : i ≠ w.call := by
      rintro rfl
      have he : c.ended w.call = some e := he
      rw [hend] at he
      cases he
    rw [hstate i hne]
    exact h.ended i e he

/-- The call `w` of `t` is cancelled. -/
theorem cancelCall (h : History c) (hc : Calls c) (hw : (c.phase t).wait? = some w)
    (hend : c.ended w.call = none) (hsys : ∀ u, u ≠ t → Untouched u c.sys c'.sys)
    (hphase : ∀ u, u ≠ t → c'.phase u = c.phase u) (hended : c'.ended = c.ended)
    (hcan : c'.cancelled = Function.update c.cancelled w.call true)
    (hq : c'.queue.waiters = c.queue.waiters)
    (hs : ∀ i, i ≠ w.call → c'.queue.state i = c.queue.state i)
    (hwq : w.call ∈ c.queue.waiters → c'.queue.state w.call = .cancelled)
    (ht : Story c' t (c'.phase t)) : History c' := by
  have hother : ∀ i, i ≠ w.call → c'.cancelled i = c.cancelled i := fun i hi => by
    rw [hcan, Function.update_of_ne hi]
  refine ⟨h.stories hsys hphase (fun u w' hu hw' => ?_) ht, fun i hi => ?_, fun i e he => ?_⟩
  · have hne : w'.call ≠ w.call := fun heq => hu (hc.inj u t w' w hw' hw heq)
    exact ⟨by rw [hended], hother _ hne, hs _ hne⟩
  · rw [hq] at hi
    by_cases heq : i = w.call
    · subst heq
      rw [hwq hi, hcan, Function.update_self]
      exact ⟨nofun, .inr (.inr ⟨rfl, rfl⟩)⟩
    · rw [hs i heq, hother i heq]
      exact h.queued i hi
  · rw [hended] at he
    have hne : i ≠ w.call := by
      rintro rfl
      rw [hend] at he
      cases he
    rw [hs i hne, hother i hne]
    exact h.ended i e he

/-- A sleeping task is cancelled. -/
theorem cancel (h : History c) (hc : Calls c) (hph : c.phase t = .sleeping w false) :
    History { (c.cancelCall w).goto t (.sleeping w true) with
      queue := c.queue.cancelWaiter w.call } := by
  obtain ⟨he, hf, -, hcount⟩ := h.story_at hph
  refine h.cancelCall hc (by rw [hph]; rfl) he (fun u _ => System.untouched_refl u _)
    (fun u hu => CondSystem.goto_phase_of_ne _ hu _) rfl rfl (WaitQueue.cancelWaiter_waiters ..)
    (fun i hi => ?_) (fun hq => ?_) ?_
  · rw [WaitQueue.cancelWaiter_state, if_neg (by simp [hi])]
  · rw [WaitQueue.cancelWaiter_state]
    split_ifs with hp
    · rfl
    · exact (h.cancelled_of_queued hq fun hpend => hp ⟨rfl, hpend⟩).1
  · show Story _ t (((c.cancelCall w).goto t (.sleeping w true)).phase t)
    rw [CondSystem.goto_phase_self]
    refine ⟨he, ?_, Function.update_self .., hcount⟩
    show Fate _ (Function.update c.cancelled w.call true w.call)
    rw [Function.update_self]
    exact hf.cancelWaiter

/-- `await waiter` is over. -/
theorem wake (h : History c) {i : Bool} (hph : c.phase t = .sleeping w i)
    (hon : c.queue.state w.call = .pending → i = true) :
    History (c.wake .async t w i).2 := by
  obtain ⟨he, hf, hcan, hcount⟩ := h.story_at hph
  have hg : History (c.goto t (.woken w (!i) false)) := by
    refine h.goto ⟨he, fun hi => ?_, by simp [hcan], hcount⟩
    have hi : i = false := by simpa using hi
    rcases hf with ⟨hp, -⟩ | hw | ⟨-, hc⟩
    · rw [hi] at hon
      cases hon hp
    · exact hw
    · rw [hcan, hi] at hc
      cases hc
  unfold CondSystem.wake
  split_ifs
  · exact ⟨hg.story, fun j hj => hg.queued j (List.mem_of_mem_erase hj), hg.ended⟩
  · exact hg

/-- `self.acquire()` goes on, and is not cancelled. -/
theorem goOn (h : History c) (hr : System.Reachable .async cls c.sys) {gotit err : Bool}
    (hph : c.phase t = .reacquiring w gotit err) {a : Action τ} (ha : a.caller = some t)
    (hst : c.sys.step .async cls a = some (o, sys))
    (hsame : (sys.pc t).interrupted = (c.sys.pc t).interrupted) :
    History { c with sys := sys } := by
  obtain ⟨he, hw, hcan⟩ := h.story_at hph
  refine h.lock hr ha hst ?_
  rw [hph]
  exact ⟨he, hw, hsame ▸ hcan⟩

/-- `self.acquire()` is cancelled. -/
theorem cancelAgain (h : History c) (hr : System.Reachable .async cls c.sys) (hc : Calls c)
    {gotit err : Bool} (hph : c.phase t = .reacquiring w gotit err)
    (hst : c.sys.step .async cls (.interrupt t) = some (o, sys)) :
    History (({ c with sys := sys }).cancelCall w) := by
  obtain ⟨he, hw, hcan⟩ := h.story_at hph
  obtain ⟨m, seq, timed, hwait, hpc, -⟩ := System.step_interrupt hst
  refine h.cancelCall (t := t) (w := w) hc (by rw [hph]; rfl) he (fun u hu => ?_)
    (fun _ _ => rfl) rfl rfl rfl (fun _ _ => rfl) (fun hq => ?_) ?_
  · exact System.step_untouched hr.wellFormed.books hst (by simp [Action.caller])
      (by simpa [Action.caller, eq_comm] using hu)
  · refine (h.cancelled_of_queued hq fun hp => ?_).1
    cases gotit with
    | true =>
        rw [hw rfl] at hp
        cases hp
    | false =>
        have hno := (hp ▸ (h.queued _ hq).2).not_cancelled
        simp [hcan] at hno
  · show Story _ t (c.phase t)
    rw [hph]
    refine ⟨he, hw, ?_⟩
    show Function.update c.cancelled w.call true w.call = _
    rw [Function.update_self]
    simp [CondSystem.cancelCall, hpc, Pc.interrupted]

/-- `self.acquire()` raised `CancelledError`. -/
theorem retry (h : History c) (hr : System.Reachable .async cls c.sys) {gotit err expired : Bool}
    (hph : c.phase t = .reacquiring w gotit err)
    (hst : c.sys.step .async cls (.resume t expired) = some (.cancelled, sys)) :
    History (({ c with sys := sys }).goto t (.woken w gotit true)) := by
  obtain ⟨he, hw, hcan⟩ := h.story_at hph
  obtain ⟨m, seq, timed, i, hpc, hatt, hcancel⟩ := System.step_resume hst
  have hi : i = true := (hcancel rfl).1 rfl
  have hcount := (hr.wellFormed.stranger m t ⟨seq, timed, i, hpc⟩).1
  refine h.lock_goto hr rfl hst ⟨he, hw, ?_, ?_⟩
  · show c.cancelled w.call = (!gotit || true)
    rw [hcan, hpc, hi]
    simp [Pc.interrupted]
  · cases hatt with
    | fails hs =>
        show sys.lock.readerOwners.count (some t) = 0
        rw [hs.readerOwners, hcount]

end History

/-- **Every move keeps the history.** -/
theorem WaitMove.history (hmv : WaitMove CondSystem.InTask .async cls pred c c')
    (hr : System.Reachable .async cls c.sys) (hc : Calls c) (h : History c) : History c' := by
  cases hmv with
  | @lock a o sys hout hP hst =>
      obtain ⟨t, ht⟩ := Option.ne_none_iff_exists'.1 hP
      exact h.lock hr ht hst (by rw [hout t ht]; trivial)
  | change => exact ⟨h.story, h.queued, h.ended⟩
  | notify => exact h.notify hc _
  | notifyAll =>
      have h := h.notify hc c.queue.waiters.length
      exact ⟨h.story, h.queued, h.ended⟩
  | quit => exact h.goto trivial
  | tested => exact h.goto trivial
  | enqueue => exact h.enqueue hc rfl
  | @leave t w o sys hph hcheck hst ho =>
      obtain ⟨he, hf, hcan⟩ := h.story_at hph
      exact h.lock_goto hr rfl hst
        ⟨he, hf, hcan, (System.step_release_checked hr.wellFormed.books (hcheck rfl) hst).2⟩
  | @leaveRaised t w e sys hph hcheck hst =>
      cases (System.step_release_checked hr.wellFormed.books (hcheck rfl) hst).1
  | timeout hrt => cases hrt
  | cancel hrt hph => exact h.cancel hc hph
  | wake hph hon => exact h.wake hph hon
  | @reacquire t w gotit err o sys hph hP hst ho =>
      obtain ⟨he, hw, hcan, hcount⟩ := h.story_at hph
      refine h.lock_goto hr rfl hst ⟨he, hw, ?_⟩
      show c.cancelled w.call = (!gotit || err || (sys.pc t).interrupted)
      rw [(System.step_acquire hst).2.1.interrupted, hcan, Bool.or_false]
  | @reacquireRaised t w gotit err e sys hph hst =>
      obtain ⟨-, -, -, hcount⟩ := h.story_at hph
      have := ((System.step_acquire hst).2.2 e rfl).2
      omega
  | @goOn t w gotit err a o sys hph hP ha hst =>
      rcases ha with ⟨⟨expired, rfl⟩, hno⟩ | rfl
      · refine h.goOn hr hph rfl hst ?_
        obtain ⟨m, seq, timed, i, hpc, hatt, hcancel⟩ := System.step_resume hst
        have hi : i = false := by simpa using mt (hcancel rfl).2 hno
        rw [hatt.interrupted, hpc, hi]
        rfl
      · refine h.goOn hr hph rfl hst ?_
        simp only [System.step] at hst
        split_ifs at hst with hpc
        cases hst
        simp [hpc, Pc.interrupted]
  | cancelAgain hph hst => exact h.cancelAgain hr hc hph hst
  | retry hph hst => exact h.retry hr hph hst
  | @finish t w gotit err hph hpc =>
      obtain ⟨he, hw, hcan⟩ := h.story_at hph
      rw [hpc] at hcan
      unfold CondSystem.finish
      refine h.endWait hc (by rw [hph]; rfl) ?_
      cases gotit <;> cases err <;> simp [CondSystem.ending, Pc.interrupted] at hcan hw ⊢
      all_goals first | exact ⟨hw, hcan⟩ | exact hcan

/-- What a move can do to the waiter object of an earlier call.  Only a notify wakes
it. -/
theorem WaitMove.waiter {rt : Runtime} (hmv : WaitMove P rt cls pred c c') {i : ℕ}
    (hi : i < c.calls) :
    i < c'.calls ∧ (c.cancelled i = true → c'.cancelled i = true) ∧
      (c'.queue.state i = c.queue.state i ∨
        c.queue.state i = .pending ∧ (c'.queue.state i = .cancelled ∨
          ((∃ k m n, P c (.notify k m n)) ∨ ∃ k m, P c (.notifyAll k m)))) := by
  have hcancel : ∀ j, c.cancelled i = true → Function.update c.cancelled j true i = true := by
    intro j hc
    by_cases hj : i = j
    · simp [hj]
    · simpa [hj] using hc
  cases hmv with
  | lock | change | quit | tested | leave | timeout | reacquire | goOn | retry
  | leaveRaised | reacquireRaised => exact ⟨hi, id, .inl rfl⟩
  | @notify k m n hown hP =>
      refine ⟨hi, id, ?_⟩
      rcases c.queue.notify_state n i with heq | ⟨hp, -, -⟩
      · exact .inl heq
      · exact .inr ⟨hp, .inr (.inl ⟨k, m, n, hP⟩)⟩
  | @notifyAll k m hown hP =>
      refine ⟨hi, id, ?_⟩
      rcases c.queue.notify_state c.queue.waiters.length i with heq | ⟨hp, -, -⟩
      · exact .inl heq
      · exact .inr ⟨hp, .inr (.inr ⟨k, m, hP⟩)⟩
  | @enqueue t m timed =>
      refine ⟨Nat.lt_succ_of_lt hi, id, .inl ?_⟩
      exact Function.update_of_ne (by simp; omega) _ _
  | @cancel t w hrt hph =>
      refine ⟨hi, hcancel _, ?_⟩
      show (c.queue.cancelWaiter w.call).state i = _ ∨ _
      rw [WaitQueue.cancelWaiter_state]
      split_ifs with hp
      · exact .inr ⟨hp.1 ▸ hp.2, .inl rfl⟩
      · exact .inl rfl
  | wake =>
      unfold CondSystem.wake
      split_ifs <;> exact ⟨hi, id, .inl rfl⟩
  | cancelAgain => exact ⟨hi, hcancel _, .inl rfl⟩
  | finish =>
      unfold CondSystem.finish
      dsimp only
      split_ifs <;> exact ⟨hi, id, .inl rfl⟩

namespace CondSystem

/-- **How every call of `wait()` by a task ends.** -/
theorem Reachable.history (h : Reachable .async cls pred c) : Calls c ∧ History c :=
  (h.of_move .init fun _ _ hr hc hh hmv => hmv.history hr hc hh).2

/-- The action notifies. -/
def notifies : CondAction τ σ → Bool
  | .notify _ _ _ | .notifyAll _ _ => true
  | _ => false

variable {c₀ c₁ : CondSystem τ σ} {as : List (CondAction τ σ)} {n : ℤ} {i : ℕ}

/-- A call once woken stays woken, and a cancelled one stays cancelled. -/
theorem woken_of_run (hrun : Transition.Run (Transition.restrict InTask
    (Step .async cls pred)) c₁ as c) (hi : i < c₁.calls) :
    (c₁.queue.state i = .woken → c.queue.state i = .woken) ∧
      (c₁.cancelled i = true → c.cancelled i = true) := by
  refine (hrun.invariant (I := fun c => i < c.calls ∧
    (c₁.queue.state i = .woken → c.queue.state i = .woken) ∧
    (c₁.cancelled i = true → c.cancelled i = true)) ?_ ⟨hi, id, id⟩).2
  rintro c a c' h ⟨hP, hst⟩
  refine (hst.moves (P := InTask) hP).invariant (I := fun c => i < c.calls ∧
    (c₁.queue.state i = .woken → c.queue.state i = .woken) ∧
    (c₁.cancelled i = true → c.cancelled i = true)) ?_ h
  rintro c c' ⟨hi, hw, hc⟩ hmv
  obtain ⟨hi', hc', hs⟩ := hmv.waiter hi
  refine ⟨hi', fun hw₁ => ?_, fun hc₁ => hc' (hc hc₁)⟩
  rcases hs with heq | ⟨hp, -⟩
  · exact heq.trans (hw hw₁)
  · rw [hw hw₁] at hp
    cases hp

/-- Without a notify nobody is woken. -/
theorem not_woken_of_run (hrun : Transition.Run (Transition.restrict
    (fun c a => InTask c a ∧ notifies a = false) (Step .async cls pred)) c₁ as c)
    (hi : i < c₁.calls) (hw : c₁.queue.state i ≠ .woken) : c.queue.state i ≠ .woken := by
  refine (hrun.invariant (I := fun c => i < c.calls ∧ c.queue.state i ≠ .woken) ?_ ⟨hi, hw⟩).2
  rintro c a c' h ⟨hP, hst⟩
  refine (hst.moves (P := fun c a => InTask c a ∧ notifies a = false) hP).invariant
    (I := fun c => i < c.calls ∧ c.queue.state i ≠ .woken) ?_ h
  rintro c c' ⟨hi, hw⟩ hmv
  obtain ⟨hi', -, hs⟩ := hmv.waiter hi
  refine ⟨hi', ?_⟩
  rcases hs with heq | ⟨-, hcan | ⟨k, m, n, -, hn⟩ | ⟨k, m, -, hn⟩⟩
  · rwa [heq]
  · rw [hcan]
    nofun
  · cases hn
  · cases hn

/-- At least `min(n, k)` of the calls of `wait()` that are queued in `c₀` have returned
`True` in `c`, where `k` of them were never cancelled. -/
def SignalsKept (c₀ c : CondSystem τ σ) (n : ℤ) : Prop :=
  min n (c₀.queue.waiters.countP fun i => !c.cancelled i) ≤
    c₀.queue.waiters.countP fun i => c.ended i = some (.returned true)

instance (c₀ c : CondSystem τ σ) (n : ℤ) : Decidable (SignalsKept c₀ c n) :=
  inferInstanceAs (Decidable (_ ≤ _))

/-- None of the first `n` live waiters is cancelled, or every live one behind them is. -/
def SignalsSafe (c₀ c : CondSystem τ σ) (n : ℤ) : Prop :=
  (∀ i ∈ c₀.queue.liveWaiters.take n.toNat, c.cancelled i = false) ∨
    ∀ i ∈ c₀.queue.liveWaiters.drop n.toNat, c.cancelled i = true

instance (c₀ c : CondSystem τ σ) (n : ℤ) : Decidable (SignalsSafe c₀ c n) :=
  inferInstanceAs (Decidable (_ ∨ _))

/-- Every call queued in `c₀` that the notify signalled, or that was cancelled, is over. -/
def Settled (c₀ c₁ c : CondSystem τ σ) : Prop :=
  ∀ i ∈ c₀.queue.waiters, c₁.queue.state i = .woken ∨ c.cancelled i = true → c.ended i ≠ none

instance (c₀ c₁ c : CondSystem τ σ) : Decidable (Settled c₀ c₁ c) :=
  inferInstanceAs (Decidable (∀ i ∈ c₀.queue.waiters, _ → _))

/-- A notify that does not raise changes the queue only. -/
theorem step_notified {rt : Runtime} {k : Option τ} {m : Mode}
    (hn : c₀.step rt cls pred (.notify k m n) = some (.notified, c₁)) :
    c₁ = { c₀ with queue := c₀.queue.notify n } := by
  simp only [step, notify] at hn
  split_ifs at hn
  · exact (Prod.mk.inj (Option.some.inj hn)).2.symm
  · cases (Prod.mk.inj (Option.some.inj hn)).1

/-- A waiter that was not live at the notify had been cancelled. -/
theorem cancelled_of_not_live (hc₀ : Calls c₀) (hh₀ : History c₀)
    (hrun : Transition.Run (Transition.restrict InTask (Step .async cls pred))
      { c₀ with queue := c₀.queue.notify n } as c)
    (hi : i ∈ c₀.queue.waiters) (hl : (c₀.queue.state i).live = false) : c.cancelled i = true := by
  refine (woken_of_run hrun (hc₀.lt_of_queued hi)).2 (hh₀.cancelled_of_queued hi fun hp => ?_).2
  rw [hp] at hl
  cases hl

/-- A signalled call that is over returned `True` unless it was cancelled. -/
theorem served_iff (hc₀ : Calls c₀) (hh : History c)
    (hdone : Settled c₀ { c₀ with queue := c₀.queue.notify n } c)
    (hi : i ∈ c₀.queue.liveWaiters.take n.toNat) :
    decide (c.ended i = some (.returned true)) = !c.cancelled i := by
  have hwoken : (c₀.queue.notify n).state i = .woken := by
    rw [WaitQueue.notify_state_eq hc₀.nodup, if_pos hi]
  cases he : c.ended i with
  | none =>
      have hmem := List.mem_of_mem_filter (List.mem_of_mem_take hi)
      exact absurd he (hdone i hmem (.inl hwoken))
  | some e => rcases hh.ended i e he with ⟨rfl, -, hcan⟩ | ⟨rfl, hcan⟩ <;> simp [hcan]

/-- A call that got no signal, then or later, does not return `True`. -/
theorem not_served (hc₀ : Calls c₀) (hh₀ : History c₀) (hh : History c)
    (hrun : Transition.Run (Transition.restrict InTask (Step .async cls pred))
      { c₀ with queue := c₀.queue.notify n } as c)
    (hquiet : ∀ a ∈ as, notifies a = false) (hi : i ∈ c₀.queue.waiters)
    (hnot : i ∉ c₀.queue.liveWaiters.take n.toNat) :
    decide (c.ended i = some (.returned true)) = false := by
  have hnw : c.queue.state i ≠ .woken := by
    refine not_woken_of_run (hrun.of_forall hquiet) (hc₀.lt_of_queued hi) ?_
    show (c₀.queue.notify n).state i ≠ .woken
    rw [WaitQueue.notify_state_eq hc₀.nodup, if_neg hnot]
    exact (hh₀.queued i hi).1
  refine decide_eq_false fun he => ?_
  rcases hh.ended i _ he with ⟨-, hw, -⟩ | ⟨he', -⟩
  · exact hnw hw
  · cases he'

/-- **When a notification survives cancellation.**  Take any reachable state, any
`notify(n)` and any run after it at whose end every signalled or cancelled call has
finished.  If no signalled task is cancelled before its `wait()` finishes, or every
live waiter left without a signal is cancelled too, then at least `min(n, k)` calls
have returned `True`.  Where nobody else notifies in the run, only then. -/
theorem notify_survives (h₀ : Reachable .async cls pred c₀) {k : Option τ} {m : Mode}
    (hn : c₀.step .async cls pred (.notify k m n) = some (.notified, c₁))
    (hrun : Transition.Run (Transition.restrict InTask (Step .async cls pred)) c₁ as c)
    (hdone : Settled c₀ c₁ c) :
    (SignalsSafe c₀ c n → SignalsKept c₀ c n) ∧
      ((∀ a ∈ as, notifies a = false) → SignalsKept c₀ c n → SignalsSafe c₀ c n) := by
  obtain ⟨hc₀, hh₀⟩ := h₀.history
  have hin : InTask c₀ (.notify k m n) := trivial
  have h : Reachable .async cls pred c := (h₀.tail ⟨hin, _, hn⟩).run hrun
  have hh := h.history.2
  obtain rfl := step_notified hn
  have hdead : ∀ i ∈ c₀.queue.waiters, (c₀.queue.state i).live = false →
      c.cancelled i = true := fun i hi => cancelled_of_not_live hc₀ hh₀ hrun hi
  have hserved : ∀ i ∈ c₀.queue.liveWaiters.take n.toNat,
      decide (c.ended i = some (.returned true)) = !c.cancelled i :=
    fun i hi => served_iff hc₀ hh hdone hi
  refine ⟨WakeLoop.min_le_countP_served hdead hserved, fun hquiet => ?_⟩
  have hrest : ∀ i ∈ c₀.queue.waiters, i ∉ c₀.queue.liveWaiters.take n.toNat →
      decide (c.ended i = some (.returned true)) = false :=
    fun i => not_served hc₀ hh₀ hh hrun hquiet
  have hnd : c₀.queue.liveWaiters.Nodup := hc₀.nodup.filter _
  refine WakeLoop.of_min_le_countP_served hdead hserved (fun i hi => ?_) (fun i hi hl => ?_)
  · refine hrest i (List.mem_of_mem_filter (List.mem_of_mem_drop hi)) fun htake => ?_
    rw [← List.take_append_drop n.toNat c₀.queue.liveWaiters] at hnd
    exact (List.nodup_append.1 hnd).2.2 i htake i hi rfl
  · refine hrest i hi fun htake => ?_
    have := List.of_mem_filter (List.mem_of_mem_take htake)
    rw [hl] at this
    cases this

/-- Readers 0 and 1 sleep and task 2 is about to notify. -/
def asleep : List (CondAction ℕ Bool) :=
  [.lock (.acquire 0 .read .forever false), .wait 0 .read false,
    .lock (.acquire 1 .read .forever false), .wait 1 .read false,
    .lock (.acquire 2 .write .forever false)]

/-- Reader 0 is signalled and returns `True`, although reader 1 is cancelled. -/
theorem notify_survives_bystander : ∃ c₀ c : CondSystem ℕ Bool,
    c₀.queue.waiters = [0, 1] ∧ c.cancelled 1 = true ∧ SignalsKept c₀ c 1 := by
  have hrun : ((Transition.replay (next InTask .async .fair id) { shared := false } asleep).bind
      fun c₀ => (c₀.step .async .fair id (.notify (some 2) .write 1)).bind fun (o, c₁) =>
        (Transition.replay (next InTask .async .fair id) c₁
          [.lock (.release (some 2) .write), .interrupt 1, .wake 0, .reacquire 0, .finish 0,
            .wake 1, .reacquire 1, .finish 1]).map fun c =>
          (o, c₀.queue.waiters, c.cancelled 1, decide (Settled c₀ c₁ c),
            decide (SignalsSafe c₀ c 1))) = some (.notified, [0, 1], true, true, true) := by
    decide
  obtain ⟨c₀, hc₀, hrun⟩ := Option.bind_eq_some_iff.1 hrun
  obtain ⟨⟨o, c₁⟩, hn, hrun⟩ := Option.bind_eq_some_iff.1 hrun
  obtain ⟨c, hc, hval⟩ := Option.map_eq_some_iff.1 hrun
  simp only [Prod.mk.injEq, decide_eq_true_eq] at hval
  obtain ⟨rfl, hq, h1, hdone, hsafe⟩ := hval
  have hr : Reachable .async .fair id c₀ := ⟨{ shared := false }, _, rfl, run_of_replay hc₀⟩
  exact ⟨c₀, c, hq, h1, (notify_survives hr hn (run_of_replay hc) hdone).1 hsafe⟩

/-- The steps `as` lose the signal: reader 0 was signalled and ends cancelled, reader 1
sleeps on. -/
def LosesSignal (as : List (CondAction ℕ Bool)) : Prop :=
  ∃ c₀ c₁ c : CondSystem ℕ Bool, Reachable .async .fair id c₀ ∧
    c₀.step .async .fair id (.notify (some 2) .write 1) = some (.notified, c₁) ∧
    Transition.Run (Transition.restrict InTask (Step .async .fair id)) c₁ as c ∧
    Settled c₀ c₁ c ∧ c.ended 0 = some .cancelledError ∧
    c.phase 1 = .sleeping ⟨1, .read, false, false⟩ false ∧ ¬ SignalsKept c₀ c 1

theorem losesSignal_of_replay {as : List (CondAction ℕ Bool)}
    (hrun : ((Transition.replay (next InTask .async .fair id) { shared := false } asleep).bind
      fun c₀ => (c₀.step .async .fair id (.notify (some 2) .write 1)).bind fun (o, c₁) =>
        (Transition.replay (next InTask .async .fair id) c₁ as).map fun c =>
          (o, decide (Settled c₀ c₁ c), c.ended 0, c.phase 1, decide (SignalsKept c₀ c 1))) =
      some (.notified, true, some .cancelledError, .sleeping ⟨1, .read, false, false⟩ false,
        false)) : LosesSignal as := by
  obtain ⟨c₀, hc₀, hrun⟩ := Option.bind_eq_some_iff.1 hrun
  obtain ⟨⟨o, c₁⟩, hn, hrun⟩ := Option.bind_eq_some_iff.1 hrun
  obtain ⟨c, hc, hval⟩ := Option.map_eq_some_iff.1 hrun
  simp only [Prod.mk.injEq, decide_eq_true_eq, decide_eq_false_iff_not] at hval
  obtain ⟨rfl, hdone, h0, h1, hlost⟩ := hval
  have hr : Reachable .async .fair id c₀ := ⟨{ shared := false }, _, rfl, run_of_replay hc₀⟩
  exact ⟨c₀, c₁, c, hr, hn, run_of_replay hc, hdone, h0, h1, hlost⟩

/-- Reader 0 is cancelled before it runs again, or while it takes the lock back. -/
theorem notify_lost_to_cancellation :
    LosesSignal [.interrupt 0, .lock (.release (some 2) .write), .wake 0, .reacquire 0,
        .finish 0] ∧
      LosesSignal [.wake 0, .reacquire 0, .lock (.interrupt 0), .lock (.resume 0 false),
        .reacquire 0, .lock (.release (some 2) .write), .lock (.resume 0 false), .finish 0] :=
  ⟨losesSignal_of_replay (by decide), losesSignal_of_replay (by decide)⟩

end CondSystem

end Rwlocker

/-
# The calls of wait in progress

Every call of `wait()` has a waiter object of its own, a caller that still sleeps on
one that nobody woke finds it in the queue, and the queue holds no object twice
(`Calls`).  All of it is kept by every move, whatever the users promise
(`WaitMove.calls`).
-/

import Rwlocker.WaitMove

namespace Rwlocker

variable {τ σ : Type} [DecidableEq τ]

/-- The call whose caller has not seen the end of its sleep. -/
def Phase.parked? : Phase → Option WaitCall
  | .queued w | .sleeping w _ => some w
  | .out | .tested _ _ | .again _ _ | .woken _ _ _ | .reacquiring _ _ _ => none

theorem Phase.wait?_of_parked? {p : Phase} {w : WaitCall} (h : p.parked? = some w) :
    p.wait? = some w := by
  cases p <;> first | exact h | cases h

/-- The calls of `wait()` in progress (module doc). -/
structure Calls (c : CondSystem τ σ) : Prop where
  lt : ∀ t w, (c.phase t).wait? = some w → w.call < c.calls
  inj : ∀ t u w w', (c.phase t).wait? = some w → (c.phase u).wait? = some w' →
    w.call = w'.call → t = u
  unborn : ∀ i, c.calls ≤ i →
    i ∉ c.queue.waiters ∧ c.cancelled i = false ∧ c.ended i = none
  nodup : c.queue.waiters.Nodup
  parked : ∀ t w, (c.phase t).parked? = some w → c.queue.state w.call = .pending →
    w.call ∈ c.queue.waiters

namespace Calls

variable {c : CondSystem τ σ} {t : τ} {p : Phase} {w : WaitCall}

omit [DecidableEq τ] in
theorem init (s : σ) : Calls ({ shared := s } : CondSystem τ σ) where
  lt _ _ h := by cases h
  inj _ _ _ _ h := by cases h
  unborn _ _ := ⟨by simp, rfl, rfl⟩
  nodup := List.nodup_nil
  parked _ _ h := by cases h

omit [DecidableEq τ] in
theorem lt_of_queued (h : Calls c) {i : ℕ} (hi : i ∈ c.queue.waiters) : i < c.calls := by
  by_contra hlt
  exact (h.unborn i (by omega)).1 hi

/-- A caller goes on within its call of `wait()`, or leaves it. -/
theorem goto (h : Calls c) (t : τ) (p : Phase)
    (hp : ∀ w', p.wait? = some w' → (c.phase t).wait? = some w')
    (hpark : ∀ w', p.parked? = some w' → (c.phase t).parked? = some w') :
    Calls (c.goto t p) := by
  have hwait : ∀ u w', ((c.goto t p).phase u).wait? = some w' →
      (c.phase u).wait? = some w' := by
    intro u w' hu
    by_cases hut : u = t
    · subst hut
      exact hp w' (by simpa [CondSystem.goto] using hu)
    · simpa [CondSystem.goto, hut] using hu
  refine ⟨fun u w' hu => h.lt u w' (hwait u w' hu),
    fun u v w' w'' hu hv => h.inj u v w' w'' (hwait u w' hu) (hwait v w'' hv), h.unborn, h.nodup,
    fun u w' hu => ?_⟩
  by_cases hut : u = t
  · subst hut
    exact h.parked u w' (hpark w' (by simpa [CondSystem.goto] using hu))
  · exact h.parked u w' (by simpa [CondSystem.goto, hut] using hu)

omit [DecidableEq τ] in
/-- The queue loses some waiters, none of whom still sleeps on a pending object. -/
theorem shrink (h : Calls c) {q : WaitQueue ℕ} (hsub : q.waiters.Sublist c.queue.waiters)
    (hpark : ∀ u w', (c.phase u).parked? = some w' → q.state w'.call = .pending →
      c.queue.state w'.call = .pending ∧
        (w'.call ∈ c.queue.waiters → w'.call ∈ q.waiters)) :
    Calls { c with queue := q } where
  lt := h.lt
  inj := h.inj
  unborn i hi := ⟨fun hm => (h.unborn i hi).1 (hsub.subset hm), (h.unborn i hi).2⟩
  nodup := h.nodup.sublist hsub
  parked u w' hu hs :=
    (hpark u w' hu hs).2 (h.parked u w' hu (hpark u w' hu hs).1)

omit [DecidableEq τ] in
theorem notify (h : Calls c) (n : ℤ) : Calls { c with queue := c.queue.notify n } := by
  refine h.shrink (WaitQueue.notify_suffix _ _).sublist fun u w' hu hs => ?_
  have hpend : c.queue.state w'.call = .pending := by
    rcases c.queue.notify_state n w'.call with heq | ⟨hp, -, -⟩
    · rwa [heq] at hs
    · exact hp
  refine ⟨hpend, fun hm => ?_⟩
  by_contra hm'
  exact WaitQueue.notify_popped hm hm' hs

omit [DecidableEq τ] in
theorem cancelWaiter (h : Calls c) (i : ℕ) :
    Calls { c with queue := c.queue.cancelWaiter i } := by
  refine h.shrink (by simp) fun u w' hu hs => ⟨?_, by simp⟩
  rw [WaitQueue.cancelWaiter_state] at hs
  split_ifs at hs
  exact hs

/-- A caller that sleeps no more removes its waiter. -/
theorem removeWaiter (h : Calls c) (hw : (c.phase t).wait? = some w)
    (hp : ∀ w', p.parked? ≠ some w') (hpw : ∀ w', p.wait? = some w' → w' = w) :
    Calls ((c.removeWaiter w).goto t p) := by
  have hg : Calls (c.goto t p) :=
    h.goto t p (fun w' hw' => by rw [hpw w' hw', hw]) fun w' hw' => absurd hw' (hp w')
  refine hg.shrink (q := c.queue.discardWaiter w.call) List.erase_sublist
    fun u w' hu hs => ⟨hs, fun hm => ?_⟩
  have hut : u ≠ t := by
    rintro rfl
    exact hp w' (by simpa [CondSystem.goto] using hu)
  have hne : w'.call ≠ w.call := by
    intro heq
    refine hut (h.inj u t w' w (Phase.wait?_of_parked? ?_) hw heq)
    simpa [CondSystem.goto, hut] using hu
  exact (List.mem_erase_of_ne hne).2 hm

omit [DecidableEq τ] in
/-- The history of a call in progress goes on. -/
theorem history (h : Calls c) (hw : (c.phase t).wait? = some w) {f : ℕ → Bool}
    {g : ℕ → Option Ending} (hf : ∀ i, i ≠ w.call → f i = c.cancelled i)
    (hg : ∀ i, i ≠ w.call → g i = c.ended i) :
    Calls { c with cancelled := f, ended := g } where
  lt := h.lt
  inj := h.inj
  unborn i hi := by
    have hi : c.calls ≤ i := hi
    have hne : i ≠ w.call := by
      have := h.lt t w hw
      omega
    show _ ∧ f i = false ∧ g i = none
    rw [hf i hne, hg i hne]
    exact h.unborn i hi
  nodup := h.nodup
  parked := h.parked

theorem enqueue (h : Calls c) (hno : (c.phase t).wait? = none) (hw : w.call = c.calls) :
    Calls (c.enqueue t w) := by
  have hold : ∀ u w', ((c.enqueue t w).phase u).wait? = some w' →
      u = t ∧ w' = w ∨ u ≠ t ∧ (c.phase u).wait? = some w' := by
    intro u w' hu
    by_cases hut : u = t
    · subst hut
      simp only [CondSystem.enqueue, CondSystem.goto, Function.update_self, Phase.wait?,
        Option.some.injEq] at hu
      exact .inl ⟨rfl, hu.symm⟩
    · exact .inr ⟨hut, by simpa [CondSystem.enqueue, CondSystem.goto, hut] using hu⟩
  refine ⟨fun u w' hu => ?_, fun u v w' w'' hu hv heq => ?_, fun i hi => ?_, ?_,
    fun u w' hu hs => ?_⟩
  · show w'.call < c.calls + 1
    rcases hold u w' hu with ⟨-, rfl⟩ | ⟨-, hu⟩
    · omega
    · have := h.lt u w' hu
      omega
  · rcases hold u w' hu with ⟨hut, rfl⟩ | ⟨-, hu'⟩ <;>
      rcases hold v w'' hv with ⟨hvt, hvw⟩ | ⟨-, hv'⟩
    · rw [hut, hvt]
    · have := h.lt v w'' hv'
      omega
    · have := h.lt u w' hu'
      have := congrArg WaitCall.call hvw
      omega
    · exact h.inj u v w' w'' hu' hv' heq
  · have hi : c.calls + 1 ≤ i := hi
    refine ⟨?_, (h.unborn i (by omega)).2⟩
    have := (h.unborn i (by omega)).1
    simp only [CondSystem.enqueue, WaitQueue.appendWaiter, List.mem_append, List.mem_singleton,
      not_or]
    exact ⟨this, by omega⟩
  · refine List.nodup_append.2 ⟨h.nodup, List.nodup_singleton _, fun i hi j hj heq => ?_⟩
    rw [List.mem_singleton] at hj
    exact (h.unborn i (by omega)).1 hi
  · show w'.call ∈ c.queue.waiters ++ [w.call]
    rcases hold u w' (Phase.wait?_of_parked? hu) with ⟨rfl, rfl⟩ | ⟨hut, hu'⟩
    · simp
    · have hlt := h.lt u w' hu'
      have hne : w'.call ≠ w.call := by omega
      have hu : (c.phase u).parked? = some w' := by
        simpa [CondSystem.enqueue, CondSystem.goto, hut] using hu
      have hs : c.queue.state w'.call = .pending := by
        simpa [CondSystem.enqueue, WaitQueue.appendWaiter, hne] using hs
      exact List.mem_append.2 (.inl (h.parked u w' hu hs))

end Calls

variable {P : CondSystem τ σ → CondAction τ σ → Prop} {rt : Runtime} {cls : LockClass}
  {pred : σ → Bool} {c c' : CondSystem τ σ}

omit [DecidableEq τ] in
theorem WaitCall.parked?_next (w : WaitCall) (e : Ending) :
    (w.next e).wait? = none ∧ (w.next e).parked? = none := by
  cases e <;> simp only [WaitCall.next] <;> try split_ifs
  all_goals exact ⟨rfl, rfl⟩

/-- The end of a call, whose waiter is removed or was popped. -/
theorem Calls.endWait (h : Calls c) {t : τ} {w : WaitCall} (hw : (c.phase t).wait? = some w)
    (e : Ending) : Calls (c.endWait t w e) := by
  have hend : Calls { c with ended := Function.update c.ended w.call (some e) } :=
    h.history hw (fun _ _ => rfl) fun i hi => Function.update_of_ne hi ..
  obtain ⟨hno, hpark⟩ := w.parked?_next e
  exact hend.goto t (w.next e) (by simp [hno]) (by simp [hpark])

theorem Calls.removeWaiter_endWait (h : Calls c) {t : τ} {w : WaitCall}
    (hw : (c.phase t).wait? = some w) (e : Ending) :
    Calls ((c.removeWaiter w).endWait t w e) := by
  have hend : Calls { c with ended := Function.update c.ended w.call (some e) } :=
    h.history hw (fun _ _ => rfl) fun i hi => Function.update_of_ne hi ..
  obtain ⟨hno, hpark⟩ := w.parked?_next e
  exact hend.removeWaiter hw (by simp [hpark]) (by simp [hno])

/-- **Every move keeps the calls in order.** -/
theorem WaitMove.calls (hmv : WaitMove P rt cls pred c c') (h : Calls c) : Calls c' := by
  have hsys : ∀ sys, Calls { c with sys := sys } := fun _ =>
    ⟨h.lt, h.inj, h.unborn, h.nodup, h.parked⟩
  cases hmv with
  | lock | goOn => exact hsys _
  | change => exact ⟨h.lt, h.inj, h.unborn, h.nodup, h.parked⟩
  | notify => exact h.notify _
  | notifyAll =>
      have h := h.notify c.queue.waiters.length
      exact ⟨h.lt, h.inj, h.unborn, h.nodup, h.parked⟩
  | quit => exact h.goto _ _ nofun nofun
  | tested => exact h.goto _ _ nofun nofun
  | enqueue _ hno => exact h.enqueue hno rfl
  | leave hph =>
      exact (hsys _).goto _ _ (by simp [Phase.wait?, hph]) (by simp [Phase.parked?, hph])
  | leaveRaised hph => exact (hsys _).removeWaiter_endWait (by simp [hph, Phase.wait?]) _
  | timeout _ hph => exact h.goto _ _ (by simp [Phase.wait?, hph]) (by simp [Phase.parked?, hph])
  | @cancel t w hrt hph =>
      have hc : Calls (c.cancelCall w) :=
        h.history (by rw [hph]; rfl) (fun i hi => Function.update_of_ne hi ..) fun _ _ => rfl
      exact (hc.goto t (.sleeping w true) (by simp [Phase.wait?, hph, CondSystem.cancelCall])
        (by simp [Phase.parked?, hph, CondSystem.cancelCall])).cancelWaiter w.call
  | @wake t w i hph hon =>
      unfold CondSystem.wake
      split_ifs
      · exact h.removeWaiter (by rw [hph]; rfl) (by simp [Phase.parked?])
          (by simp [Phase.wait?, eq_comm])
      · exact h.goto _ _ (by simp [Phase.wait?, hph]) (by simp [Phase.parked?])
  | reacquire hph => exact (hsys _).goto _ _ (by simp [Phase.wait?, hph]) (by simp [Phase.parked?])
  | reacquireRaised hph => exact (hsys _).endWait (by simp [hph, Phase.wait?]) _
  | @cancelAgain t w _ _ _ _ hph =>
      exact (hsys _).history (t := t) (w := w) (by simp [hph, Phase.wait?])
        (fun i hi => Function.update_of_ne hi ..) fun _ _ => rfl
  | retry hph => exact (hsys _).goto _ _ (by simp [Phase.wait?, hph]) (by simp [Phase.parked?])
  | finish hph =>
      unfold CondSystem.finish
      dsimp only
      split_ifs
      · exact h.removeWaiter_endWait (by simp [hph, Phase.wait?]) _
      · exact h.endWait (by simp [hph, Phase.wait?]) _

theorem CondSystem.goto_wait? {t u : τ} {p : Phase} {w : WaitCall}
    (hw : ((c.goto t p).phase u).wait? = some w) :
    (c.phase u).wait? = some w ∨ u = t ∧ p.wait? = some w := by
  by_cases hut : u = t
  · subst hut
    exact .inr ⟨rfl, by rwa [CondSystem.goto_phase_self] at hw⟩
  · exact .inl (by rwa [CondSystem.goto_phase_of_ne c hut] at hw)

/-- A move begins no call of `wait()` but for its caller. -/
theorem WaitMove.waits {u : τ} {w : WaitCall} (hmv : WaitMove P rt cls pred c c')
    (hw : (c'.phase u).wait? = some w) :
    (c.phase u).wait? = some w ∨ ∃ timed, P c (.wait u w.mode timed) := by
  -- within a call, and at its end
  have hgo : ∀ {d : CondSystem τ σ} {t : τ} {p : Phase}, d.phase = c.phase →
      (∀ w, p.wait? = some w → (c.phase t).wait? = some w) →
      ((d.goto t p).phase u).wait? = some w → (c.phase u).wait? = some w := by
    intro d t p hd hp hw
    rcases CondSystem.goto_wait? hw with hold | ⟨rfl, hnew⟩
    · rwa [hd] at hold
    · exact hp w hnew
  have hend : ∀ {d : CondSystem τ σ} {t : τ} {w' : WaitCall} {e : Ending}, d.phase = c.phase →
      ((d.endWait t w' e).phase u).wait? = some w → (c.phase u).wait? = some w := by
    intro d t w' e hd
    exact hgo hd fun w'' hw'' => by simp [(w'.parked?_next e).1] at hw''
  cases hmv with
  | lock | change | notify | notifyAll | goOn | cancelAgain => exact .inl hw
  | quit | tested => exact .inl (hgo rfl (by simp [Phase.wait?]) hw)
  | @enqueue t m timed inLoop hno hcheck hP =>
      rcases CondSystem.goto_wait? hw with hold | ⟨rfl, hnew⟩
      · exact .inl hold
      · obtain rfl := Option.some.inj hnew
        exact .inr ⟨timed, hP⟩
  | leave hph | timeout _ hph | cancel _ hph | reacquire hph | retry hph =>
      refine .inl (hgo rfl (fun w'' hw'' => ?_) hw)
      rw [hph]
      exact hw''
  | @wake t w' i hph =>
      have hrest : ∀ w'', some w' = some w'' → (c.phase t).wait? = some w'' :=
        fun w'' hw'' => by rw [hph]; exact hw''
      unfold CondSystem.wake at hw
      dsimp only at hw
      split_ifs at hw
      · exact .inl (hgo (p := .woken w' (!i) false) rfl hrest hw)
      · exact .inl (hgo (p := .woken w' (!i) false) rfl hrest hw)
  | leaveRaised | reacquireRaised => exact .inl (hend rfl hw)
  | finish =>
      unfold CondSystem.finish at hw
      dsimp only at hw
      split_ifs at hw
      · exact .inl (hend rfl hw)
      · exact .inl (hend rfl hw)

/-- What every move keeps, a step keeps. -/
theorem WaitMoves.invariant {I : CondSystem τ σ → Prop} (hmv : WaitMoves P rt cls pred c c')
    (hmove : ∀ c c', I c → WaitMove P rt cls pred c c' → I c') (h : I c) : I c' := by
  cases hmv with
  | none heq => exact heq ▸ h
  | one hmv => exact hmove _ _ h hmv
  | two hmv hmv' => exact hmove _ _ (hmove _ _ h hmv) hmv'

/-- **A move makes at most one step of the lock**, promised by its caller or made
within `wait()` by a thread or task. -/
theorem WaitMove.sys (hmv : WaitMove P rt cls pred c c') :
    c'.sys = c.sys ∨ ∃ a o, c.sys.step rt cls a = some (o, c'.sys) ∧
      (P c (.lock a) ∨ a.caller ≠ none) := by
  cases hmv with
  | change | notify | notifyAll | quit | tested | enqueue | timeout | cancel => exact .inl rfl
  | wake | finish =>
      refine .inl ?_
      first | unfold CondSystem.wake | unfold CondSystem.finish
      dsimp only
      split_ifs <;> rfl
  | lock _ hP hst | goOn _ hP _ hst => exact .inr ⟨_, _, hst, .inl hP⟩
  | leave _ _ hst | leaveRaised _ _ hst | reacquire _ _ hst | reacquireRaised _ hst
  | cancelAgain _ hst | retry _ hst => exact .inr ⟨_, _, hst, .inr (by simp [Action.caller])⟩

/-- The lock of a condition is in a state that the lock can reach by itself. -/
theorem WaitMove.reachable (hmv : WaitMove CondSystem.InTask rt cls pred c c')
    (h : System.Reachable rt cls c.sys) : System.Reachable rt cls c'.sys := by
  rcases hmv.sys with heq | ⟨a, o, hst, ha⟩
  · rwa [heq]
  · exact h.tail ⟨ha.elim id id, o, hst⟩

namespace CondSystem

/-- **The invariant rule for conditions.** -/
theorem Reachable.of_move {I : CondSystem τ σ → Prop} (hinit : ∀ s, I { shared := s })
    (hmove : ∀ c c', System.Reachable rt cls c.sys → Calls c → I c →
      WaitMove InTask rt cls pred c c' → I c')
    (h : Reachable rt cls pred c) : System.Reachable rt cls c.sys ∧ Calls c ∧ I c := by
  refine Transition.Reachable.invariant
    (I := fun c => System.Reachable rt cls c.sys ∧ Calls c ∧ I c) ?_ ?_ h
  · intro c hc
    rw [hc]
    exact ⟨.start rfl, .init _, hinit _⟩
  · rintro c a c' hI ⟨ha, hst⟩
    refine (hst.moves ha).invariant
      (I := fun c => System.Reachable rt cls c.sys ∧ Calls c ∧ I c) ?_ hI
    rintro c c' ⟨hr, hc, hI⟩ hmv
    exact ⟨hmv.reachable hr, hmv.calls hc, hmove c c' hr hc hI hmv⟩

end CondSystem

end Rwlocker

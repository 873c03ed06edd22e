/-
# Every job is served

The image processing queue, left alone, comes to rest: its threads take a bounded number of
steps for every call (`calls_end`), and where none of them can go on, each is outside or a
consumer that sleeps while there is no job (`rests_without_jobs`).
-/

import Mathlib.Algebra.Order.BigOperators.Group.Finset
import Rwlocker.Deadlock
import Rwlocker.ImageQueue

namespace Rwlocker

open Rwlocker.System (HolderReachable)

namespace ImageQueue

variable {τ ι : Type} [DecidableEq τ] {cls : LockClass} {q q' : ImageQueue τ ι} {t u : τ}
  {e : Event τ ι}

/-- A consumer sleeps, and was not signalled. -/
def Dormant (q : ImageQueue τ ι) (t : τ) : Prop :=
  ∃ w, q.cond.phase t = .sleeping w false ∧ q.cond.queue.state w.call = .pending

theorem call_eq_none {a : CondAction τ (List ι)} {k : CondOutcome → Stage ι}
    (h : q.call cls t a k = none) : q.cond.step .thread cls hasJobs a = none :=
  Option.map_eq_none_iff.1 h

/-- A call of `acquire` in progress goes on unless it sleeps. -/
theorem lock_eq_none {a : Action τ}
    (ha : a = .resume t false ∨ a = .clear t)
    (hph : q.cond.phase t = .out ∨ ∃ w, q.cond.phase t = .reacquiring w true false)
    (hno : q.cond.step .thread cls hasJobs (.lock a) = none) :
    q.cond.sys.step .thread cls a = none := by
  have hcaller : a.caller = some t := by
    rcases ha with rfl | rfl <;> rfl
  simp only [CondSystem.step, hcaller, Option.map_some, Option.bind_some] at hno
  rcases hph with hph | ⟨w, hph⟩ <;> rw [hph] at hno
  · exact Option.map_eq_none_iff.1 hno
  · rcases ha with rfl | rfl
    · exact Option.map_eq_none_iff.1 hno
    · exact Option.map_eq_none_iff.1 hno

/-- A step of `wait_for` is enabled, but for a sleeping consumer that was not signalled. -/
theorem waitFor_eq_none (hk : Keeping .thread cls q.cond)
    (hf : Fits q.cond t .consuming (q.cond.phase t)) (hpc : q.cond.sys.pc t = .idle)
    (hno : q.cond.step .thread cls hasJobs (q.waitFor t) = none) : q.Dormant t := by
  cases hph : q.cond.phase t with
  | out => simp [waitFor, CondSystem.step, CondSystem.free, hph, hpc] at hno
  | again m timed => simp [waitFor, CondSystem.step, hph] at hno
  | tested m timed =>
      rw [hph] at hf
      obtain ⟨hin, rfl, rfl, -⟩ := hf
      simp [waitFor, CondSystem.step, CondSystem.wait, hph, hk.reach.checkWait_iff.2 hin.1] at hno
  | queued w =>
      simp [waitFor, CondSystem.step, CondSystem.leave, CondSystem.onLock, System.step,
        System.canCall, hph, hpc] at hno
  | sleeping w i =>
      rw [hph] at hf
      obtain ⟨-, rfl⟩ := hf
      simp only [waitFor, CondSystem.step, hph, and_true] at hno
      split_ifs at hno with hpend
      exact ⟨w, hph, hpend⟩
  | woken w gotit err =>
      simp [waitFor, CondSystem.step, CondSystem.reacquire, CondSystem.onLock, System.step, hph,
        hpc] at hno
  | reacquiring w gotit err => simp [waitFor, CondSystem.step, hph, hpc] at hno

/-- **A thread that cannot go on** is outside, sleeps in `wait()`, or sleeps in `acquire`. -/
theorem go_eq_none (hs : Sound cls q) (hgo : q.go cls t = none) :
    q.stage t = .outside ∧ q.cond.phase t = .out ∨ q.Dormant t ∨
      ∃ m, Asleep q.cond.sys.lock q.cond.sys.pc m t := by
  have hk := hs.reach.keeping.1
  have hf := hs.fits t
  unfold go at hgo
  cases hpc : q.cond.sys.pc t with
  | waiting m seq timed i =>
      simp only [hpc] at hgo
      obtain ⟨-, hph, -⟩ := fits_busy hk hf (by simp [hpc])
      have hstep := lock_eq_none (.inl rfl) hph (call_eq_none hgo)
      simp only [System.step, hpc] at hstep
      split_ifs at hstep with hp
      exact .inr (.inr ⟨m, hp.1, seq, timed, by rw [hpc, hp.2]⟩)
  | clearing =>
      simp only [hpc] at hgo
      obtain ⟨-, hph, -⟩ := fits_busy hk hf (by simp [hpc])
      have hstep := lock_eq_none (.inr rfl) hph (call_eq_none hgo)
      simp [System.step, hpc] at hstep
  | idle =>
      cases hst : q.stage t with
      | outside =>
          rw [hst] at hf
          exact .inl ⟨rfl, (fits_out (by simp) hf).1⟩
      | consuming =>
          simp only [hpc, hst] at hgo
          exact .inr (.inl (waitFor_eq_none hk (hst ▸ hf) hpc (call_eq_none hgo)))
      | adding jobs | notifying n | leaving =>
          simp only [hpc, hst] at hgo
          rw [hst] at hf
          have hph := (fits_out (by simp) hf).1
          have hstep := call_eq_none hgo
          simp [CondSystem.step, CondSystem.free, CondSystem.canCall, CondSystem.onLock,
            System.step, System.canCall, Action.caller, hph, hpc] at hstep
      | popping =>
          simp only [hpc, hst] at hgo
          rw [hst] at hf
          have hph := (fits_out (by simp) hf).1
          split at hgo
          · cases hgo
          · have hstep := call_eq_none hgo
            simp [CondSystem.step, CondSystem.free, hph, hpc] at hstep

/-- Who holds the lock is in the block. -/
theorem Sound.no_hold (h : Sound cls q) (ht : q.stage t = .outside ∨ q.Dormant t ∨
    ∃ m, InFlight q.cond.sys.pc m t) : NoHold q.cond.sys.holds (some t) := by
  have hk := h.reach.keeping.1
  have hf := h.fits t
  rcases ht with ht | ⟨w, hph, -⟩ | ⟨m, hfl⟩
  · rw [ht] at hf
    exact (fits_out (by simp) hf).2.1
  · exact (hk.at_phase hph).1
  · have hpc : q.cond.sys.pc t ≠ .idle := fun hpc => not_inFlight_of_idle hpc m hfl
    obtain ⟨-, -, hreg⟩ := fits_busy hk hf hpc
    rcases hreg with ⟨hno, -⟩ | ⟨-, hout⟩
    · exact hno
    · exact absurd hfl (hout m)

/-- Where no thread can go on, nobody waits for the lock. -/
theorem Sound.lock_rests (h : Sound cls q) (hstuck : ∀ t, q.go cls t = none) :
    ∀ t, q.stage t = .outside ∧ q.cond.phase t = .out ∨ q.Dormant t := by
  have hk := h.reach.keeping.1
  have hq : q.cond.sys.Quiescent := by
    rintro t m ⟨hfl, hno⟩
    have hidle : q.cond.sys.pc t ≠ .idle := fun hpc => not_inFlight_of_idle hpc m hfl
    rcases go_eq_none h (hstuck t) with ⟨hst, -⟩ | ⟨w, hph, -⟩ | ⟨m', hasl⟩
    · have hf := h.fits t
      rw [hst] at hf
      exact hidle (fits_out (by simp) hf).2.2
    · exact hidle (hk.at_phase hph).2
    · cases hasl.mode_eq hfl
      exact hno hasl
  have hfree : ∀ u, NoHold q.cond.sys.holds (some u) := fun u =>
    h.no_hold ((go_eq_none h (hstuck u)).imp And.left
      (Or.imp_right fun ⟨m, hasl⟩ => ⟨m, hasl.inFlight⟩))
  intro t
  rcases go_eq_none h (hstuck t) with hout | hdorm | ⟨m, hasl⟩
  · exact .inl hout
  · exact .inr hdorm
  · rcases hq.held hk.reach.reachable hasl.inFlight with ⟨u, -, hw⟩ | ⟨u, -, hr⟩
    · have := (hfree u).2
      omega
    · have := (hfree u).1
      omega

/-- **The queue rests without jobs.**  Where no thread can go on, every thread is outside or
a consumer that sleeps in `wait_for`; and as long as a consumer sleeps every job has been
taken. -/
theorem rests_without_jobs (h : Reachable cls q) (hstuck : ∀ t, q.go cls t = none) :
    (∀ t, q.stage t = .outside ∨ q.Dormant t) ∧
      ∀ t, q.Dormant t → q.cond.shared = [] ∧ q.taken = q.added := by
  obtain ⟨hs, hc, hjobs⟩ := h.kept
  have hrest := hs.lock_rests hstuck
  refine ⟨fun t => (hrest t).imp_left And.left, fun t ht => ?_⟩
  have hcalled : q.cond.called = ∅ := by
    refine Set.eq_empty_of_forall_notMem ?_
    rintro i ⟨hi, u, w, hw, rfl⟩
    rcases hrest u with ⟨-, hph⟩ | ⟨w', hph, hpend⟩ <;> rw [hph] at hw <;> cases hw
    rw [hpend] at hi
    cases hi
  obtain ⟨w, hph, hpend⟩ := ht
  obtain ⟨u, hu⟩ := hc ⟨t, w, by rw [hph]; rfl, hpend⟩
  have hcredit : q.credit u = 0 := by
    by_contra hne
    have hone := (hs.inside_of_credit (Nat.pos_of_ne_zero hne)).1.2
    have hzero := (hs.no_hold ((hrest u).imp And.left .inl)).2
    omega
  rw [hcalled, Set.ncard_empty, hcredit] at hu
  have hnil : q.cond.shared = [] := List.eq_nil_of_length_eq_zero (by omega)
  exact ⟨hnil, by rw [hjobs, hnil, List.append_nil]⟩

/-- One job for two consumers: one takes it, and the other sleeps on. -/
theorem rests_without_jobs_one_short : ∃ q : ImageQueue (Fin 3) ℕ,
    (q.stage 0 = .outside ∧ q.Dormant 1 ∧ q.added = [7]) ∧
    (∀ t, q.stage t = .outside ∨ q.Dormant t) ∧
      ∀ t, q.Dormant t → q.cond.shared = [] ∧ q.taken = q.added := by
  have hq := reachable_of_replay (show Transition.replay (step .fair) ({} : ImageQueue (Fin 3) ℕ)
    (.consumeJob 0 :: .replicate 4 (.go 0) ++ .consumeJob 1 :: .replicate 4 (.go 1) ++
      .addJobs 2 [7] :: .replicate 4 (.go 2) ++ .replicate 7 (.go 0)) = some _ from rfl)
  refine ⟨_, ⟨rfl, ⟨⟨1, .write, false, true⟩, rfl, rfl⟩, rfl⟩, rests_without_jobs hq fun t => ?_⟩
  match t with
  | 0 => rfl
  | 1 => rfl
  | 2 => rfl

/-! ### How long it takes -/

/-- A thread calls a method. -/
def Event.isCall : Event τ ι → Bool
  | .addJobs _ _ | .consumeJob _ => true
  | .go _ => false

/-- The steps of a thread, at most, until it is outside or sleeps, but for those in `acquire`.
A notify wakes up to `n` consumers, each for six steps. -/
def left (n : ℕ) (state : ℕ → Waiter) : Stage ι → Phase → ℕ
  | .outside, _ => 0
  | .leaving, _ => 1
  | .popping, _ => 2
  | .notifying _, _ => 6 * n + 2
  | .adding _, _ => 6 * n + 3
  | .consuming, .out | .consuming, .again _ _ => 3
  | .consuming, .tested _ _ => 2
  | .consuming, .queued w => if state w.call = .pending then 1 else 7
  | .consuming, .sleeping w _ => if state w.call = .pending then 0 else 6
  | .consuming, .woken _ _ _ => 5
  | .consuming, .reacquiring _ _ _ => 4

/-- The steps of `t`. -/
def tasks (n : ℕ) (q : ImageQueue τ ι) (t : τ) : ℕ :=
  left n q.cond.queue.state (q.stage t) (q.cond.phase t)

theorem Shift.tasks {n : ℕ} {s : Stage ι} {p : Phase} (h : q.Shift cls t s p q') :
    q'.tasks n t = left n q'.cond.queue.state s p := by
  rw [ImageQueue.tasks, h.at_self.1, h.at_self.2]

/-- The others have as much to do as before. -/
theorem Shift.tasks_other {n : ℕ} {s : Stage ι} {p : Phase} (h : q.Shift cls t s p q')
    (hq : q'.cond.queue = q.cond.queue) (hu : u ≠ t) : q'.tasks n u = q.tasks n u := by
  rw [ImageQueue.tasks, (h.at_other hu).1, (h.at_other hu).2, hq]
  rfl

/-- A waiter that changes its state makes six steps more, at most. -/
theorem left_le (n : ℕ) (state state' : ℕ → Waiter) (s : Stage ι) (p : Phase) :
    left n state' s p ≤ left n state s p + 6 := by
  cases s <;> cases p <;> simp only [left] <;> try omega
  all_goals split_ifs <;> omega

theorem left_congr (n : ℕ) {state state' : ℕ → Waiter} (s : Stage ι) {p : Phase}
    (h : ∀ w, p.wait? = some w → state' w.call = state w.call) :
    left n state' s p = left n state s p := by
  cases s <;> cases p <;> simp only [left]
  case consuming.queued w | consuming.sleeping w i => rw [h w rfl]

section potential

variable [Fintype τ]

/-- What a queue has still to do. -/
noncomputable def potential (q : ImageQueue τ ι) : ℕ :=
  (Fintype.card τ + 2) * ∑ t, q.tasks (Fintype.card τ) t +
    System.work (Fintype.card τ) q.cond.sys

theorem Shift.work_le {s : Stage ι} {p : Phase} (h : q.Shift cls t s p q') (hs : Sound cls q) :
    System.work (Fintype.card τ) q'.cond.sys ≤
      System.work (Fintype.card τ) q.cond.sys + (Fintype.card τ + 1) := by
  have hr := hs.reach.keeping.1.reach.reachable
  rcases h.sys with heq | ⟨a, o, ha, hst⟩
  · rw [heq]
    omega
  · have hwork := System.step_work hr hst (by simp [ha]) hr.waiting_le_card
    have hworth := a.worth_le (Fintype.card τ)
    omega

/-- A step of `t` that leaves it less to do. -/
theorem potential_lt {s : Stage ι} {p : Phase} (h : q.Shift cls t s p q') (hs : Sound cls q)
    (hsum : ∑ u, q'.tasks (Fintype.card τ) u < ∑ u, q.tasks (Fintype.card τ) u) :
    1 + potential q' ≤ potential q := by
  have hwork := h.work_le hs
  have hmul := Nat.mul_le_mul_left (Fintype.card τ + 2) hsum
  rw [Nat.mul_succ] at hmul
  simp only [potential]
  omega

omit [DecidableEq τ] in
theorem sum_tasks_lt {n : ℕ} (t : τ) (hothers : ∀ u, u ≠ t → q'.tasks n u = q.tasks n u)
    (hlt : q'.tasks n t < q.tasks n t) : ∑ u, q'.tasks n u < ∑ u, q.tasks n u := by
  have hsum := Transition.sum_add_of_ne t hothers
  omega

/-- A notify wakes everybody, at most. -/
theorem sum_tasks_notify (t : τ) (ht : q'.tasks (Fintype.card τ) t = 1)
    (hold : q.tasks (Fintype.card τ) t = 6 * Fintype.card τ + 2)
    (hothers : ∀ u, u ≠ t → q'.tasks (Fintype.card τ) u ≤ q.tasks (Fintype.card τ) u + 6) :
    ∑ u, q'.tasks (Fintype.card τ) u < ∑ u, q.tasks (Fintype.card τ) u := by
  have hle : ∑ u, q'.tasks (Fintype.card τ) u ≤
      ∑ u, (Function.update (q.tasks (Fintype.card τ)) t 1 u + 6) := by
    refine Finset.sum_le_sum fun u _ => ?_
    by_cases hut : u = t
    · subst hut
      rw [ht, Function.update_self]
      omega
    · rw [Function.update_of_ne hut]
      exact hothers u hut
  have hsum := Transition.sum_add_of_ne (f := q.tasks (Fintype.card τ))
    (g := Function.update (q.tasks (Fintype.card τ)) t 1) t
    fun u hu => Function.update_of_ne hu _ _
  rw [Function.update_self, hold] at hsum
  rw [Finset.sum_add_distrib, Finset.sum_const_nat fun _ _ => rfl, Finset.card_univ] at hle
  omega

/-- **A step of a thread in a method leaves less to do.** -/
theorem Does.pays (hd : Does cls q t q') (hs : Sound cls q) (hout : q.stage t ≠ .outside) :
    1 + potential q' ≤ potential q := by
  have hcalls := hs.reach.keeping.2.1
  have htask : ∀ n, q.tasks n t = left n q.cond.queue.state (q.stage t) (q.cond.phase t) :=
    fun n => rfl
  -- nobody is woken
  have hquiet : ∀ {s : Stage ι} {p : Phase}, q.Shift cls t s p q' →
      q'.cond.queue = q.cond.queue →
      (∀ n, left n q.cond.queue.state s p < q.tasks n t) → 1 + potential q' ≤ potential q := by
    intro s p h hq hlt
    refine potential_lt h hs (sum_tasks_lt t (fun u hu => h.tasks_other hq hu) ?_)
    rw [h.tasks, hq]
    exact hlt _
  cases hd with
  | enters hst => exact absurd hst hout
  | @locks hst hph a o ha hlock h hq =>
      have hr := hs.reach.keeping.1.reach.reachable
      have hcaller : a.caller ≠ none := by
        cases a <;> simp [Action.caller, Action.goesOn] at ha ⊢
      have hworth : a.worth (Fintype.card τ) = 0 := by
        cases a <;> first | rfl | cases ha
      have hwork := System.step_work hr hlock hcaller hr.waiting_le_card
      have hsame : ∀ u, q'.tasks (Fintype.card τ) u = q.tasks (Fintype.card τ) u := fun u => by
        by_cases hut : u = t
        · rw [hut, h.tasks, hq, htask]
        · exact h.tasks_other hq hut
      simp only [potential, hsame]
      rw [ha, hworth, Bool.toNat_true] at hwork
      omega
  | adds hst hph _ h _ hq => exact hquiet h hq fun n => by simp [htask, hst, left]
  | notifies hst _ _ h =>
      refine potential_lt h hs (sum_tasks_notify t ?_ ?_ fun u hu => ?_)
      · rw [h.tasks]
        rfl
      · rw [htask, hst]
        rfl
      · rw [tasks, (h.at_other hu).1, (h.at_other hu).2]
        exact left_le ..
  | finds hst hph _ h _ hq | misses hst hph _ h _ hq =>
      refine hquiet h hq fun n => ?_
      rcases hph with hph | hph <;> simp [htask, hst, hph, left]
  | @queues w hst hph _ _ hcall h _ hq =>
      refine potential_lt h hs (sum_tasks_lt t (fun u hu => ?_) ?_)
      · -- a new waiter is nobody else's
        have hstate : ∀ w', (q.cond.phase u).wait? = some w' →
            q'.cond.queue.state w'.call = q.cond.queue.state w'.call := fun w' hw' => by
          have hlt := hcalls.lt u w' hw'
          rw [hq]
          exact Function.update_of_ne (by omega) _ _
        rw [tasks, (h.at_other hu).1, (h.at_other hu).2]
        exact left_congr _ _ hstate
      · simp [h.tasks, htask, hst, hph, left, hq, WaitQueue.appendWaiter]
  | sleeps hst hph _ h hq =>
      refine hquiet h hq fun n => ?_
      simp only [htask, hst, hph, left]
      split_ifs <;> omega
  | wakes hst hph _ hon h _ hq =>
      exact hquiet h hq fun n => by simp [htask, hst, hph, left, hon]
  | reacquires hst hph _ h hq => exact hquiet h hq fun n => by simp [htask, hst, hph, left]
  | returns hst hph _ h _ hq => exact hquiet h hq fun n => by simp [htask, hst, hph, left]
  | pops hst hph _ h _ hq => exact hquiet h hq fun n => by simp [htask, hst, left]
  | exits hst hph _ h hq => exact hquiet h hq fun n => by simp [htask, hst, left]

/-- A call brings in the steps of its thread. -/
theorem Does.enters_potential (hd : Does cls q t q') (hs : Sound cls q)
    (hout : q.stage t = .outside) :
    1 + potential q' ≤ potential q + (Fintype.card τ + 2) * (6 * Fintype.card τ + 4) := by
  cases hd with
  | enters _ hph hs' h hq =>
      have hsum := Transition.sum_add_of_ne t fun u hu =>
        h.tasks_other (n := Fintype.card τ) hq hu
      have hnew : q'.tasks (Fintype.card τ) t ≤ 6 * Fintype.card τ + 3 := by
        rw [h.tasks]
        rcases hs' with ⟨jobs, rfl⟩ | rfl
        · exact le_rfl
        · exact Nat.le_add_left ..
      have hle : ∑ u, q'.tasks (Fintype.card τ) u ≤
          ∑ u, q.tasks (Fintype.card τ) u + (6 * Fintype.card τ + 3) := by
        omega
      have hmul := Nat.mul_le_mul_left (Fintype.card τ + 2) hle
      have hwork := h.work_le hs
      rw [Nat.mul_add] at hmul
      rw [Nat.mul_succ (Fintype.card τ + 2)]
      simp only [potential]
      omega
  | locks hst => rcases hst with ⟨jobs, hst⟩ | hst <;> cases hout.symm.trans hst
  | adds hst | notifies hst | finds hst | misses hst | queues hst | sleeps hst | wakes hst
  | reacquires hst | returns hst | pops hst | exits hst => cases hout.symm.trans hst

theorem step_potential (hs : Sound cls q) (hst : q.step cls e = some q') :
    1 + potential q' ≤ potential q +
      if e.isCall then (Fintype.card τ + 2) * (6 * Fintype.card τ + 4) else 0 := by
  have hk := hs.reach.keeping.1
  cases e with
  | addJobs t jobs =>
      simp only [step] at hst
      split at hst
      · rename_i hout
        exact (enter_does hk hout (hs.fits t) (.inl ⟨_, rfl⟩) hst).enters_potential hs hout
      · cases hst
  | consumeJob t =>
      simp only [step] at hst
      split at hst
      · rename_i hout
        exact (enter_does hk hout (hs.fits t) (.inr rfl) hst).enters_potential hs hout
      · cases hst
  | go t =>
      refine (go_does hk (hs.fits t) hst).pays hs fun hout => ?_
      have hf := hs.fits t
      rw [hout] at hf
      have hpc := (fits_out (by simp) hf).2.2
      simp [step, go, hpc, hout] at hst

end potential

omit [DecidableEq τ] in
theorem sum_calls (k : ℕ) (es : List (Event τ ι)) :
    (es.map fun e => if e.isCall then k else 0).sum = k * es.countP Event.isCall := by
  induction es with
  | nil => rfl
  | cons e es ih =>
      rw [List.map_cons, List.sum_cons, ih, List.countP_cons, Nat.mul_add]
      split_ifs <;> omega

/-- **Calls end.**  However the threads are scheduled, they take a bounded number of steps for
every call, sleeping consumers that are woken in between included. -/
theorem calls_end [Fintype τ] {es : List (Event τ ι)}
    (hrun : Transition.Run (Step cls) {} es q) :
    es.length ≤
      (Fintype.card τ + 2) * (6 * Fintype.card τ + 4) * es.countP Event.isCall := by
  have hpay := hrun.countP_le (I := Sound cls) (Φ := potential) (p := fun _ => true)
    (w := fun e => if e.isCall then (Fintype.card τ + 2) * (6 * Fintype.card τ + 4) else 0) ?_
    ⟨.start rfl, fun t => ⟨⟨rfl, rfl⟩, rfl⟩⟩
  · have hstart : potential ({} : ImageQueue τ ι) = 0 := by
      have hzero : ∀ t, tasks (Fintype.card τ) ({} : ImageQueue τ ι) t = 0 := fun _ => rfl
      have hwork : System.work (Fintype.card τ) ({} : ImageQueue τ ι).cond.sys = 0 :=
        System.work_new _
      simp only [potential, hzero, hwork, Finset.sum_const_zero, Nat.mul_zero]
    rw [List.countP_true, sum_calls, hstart] at hpay
    omega
  · intro q e q' hs hst
    exact ⟨hs.step hst, step_potential hs hst⟩

/-- A consumer sleeps, a producer adds a job, and both methods return. -/
theorem calls_end_one_each : ∃ (q : ImageQueue (Fin 2) ℕ) (es : List (Event (Fin 2) ℕ)),
    (es.length = 17 ∧ es.countP Event.isCall = 2 ∧ q.taken = [7]) ∧
    es.length ≤ (Fintype.card (Fin 2) + 2) * (6 * Fintype.card (Fin 2) + 4) *
      es.countP Event.isCall := by
  have hrun : (Transition.replay (step .fair) ({} : ImageQueue (Fin 2) ℕ)
      (.consumeJob 0 :: .replicate 4 (.go 0) ++ .addJobs 1 [7] :: .replicate 4 (.go 1) ++
        .replicate 7 (.go 0))).map taken = some [7] := by
    rfl
  obtain ⟨q, hq, hval⟩ := Option.map_eq_some_iff.1 hrun
  exact ⟨q, _, ⟨rfl, rfl, hval⟩, calls_end (.of_replay (fun _ _ _ hst => hst) hq)⟩

end ImageQueue

end Rwlocker

/-
# What a step of a condition can do

`WaitMove` lists the moves of the users of a condition, as `Move` lists those of a
lock.  Every move makes at most one step of the lock.  A step is one move, or
changes nothing, or is the `wait()` of a task, which makes two
(`CondSystem.Step.moves`).
-/

import Rwlocker.Condition
import Rwlocker.Effects

namespace Rwlocker

variable {τ σ : Type} [DecidableEq τ]

/-- One move of the users of a condition.  `P` is what they promise of their
actions. -/
inductive WaitMove (P : CondSystem τ σ → CondAction τ σ → Prop) (rt : Runtime) (cls : LockClass)
    (pred : σ → Bool) (c : CondSystem τ σ) : CondSystem τ σ → Prop
  /-- A step of the lock by somebody outside `wait()`. -/
  | lock {a : Action τ} {o : Outcome} {sys : System τ}
      (hout : ∀ t, a.caller = some t → c.phase t = .out) (hP : P c (.lock a))
      (hst : c.sys.step rt cls a = some (o, sys)) : WaitMove P rt cls pred c { c with sys := sys }
  | change {t : τ} {s : σ} (hout : c.phase t = .out) (hP : P c (.change t s)) :
      WaitMove P rt cls pred c
        { c with shared := s, unannounced := Function.update c.unannounced t true }
  | notify {k : Option τ} {m : Mode} {n : ℤ} (hown : cls.isOwned c.sys.lock k m = true)
      (hP : P c (.notify k m n)) :
      WaitMove P rt cls pred c { c with queue := c.queue.notify n }
  | notifyAll {k : Option τ} {m : Mode} (hown : cls.isOwned c.sys.lock k m = true)
      (hP : P c (.notifyAll k m)) :
      WaitMove P rt cls pred c { c with
        queue := c.queue.notifyAll
        unannounced := fun t => c.unannounced t && k != some t }
  /-- `wait_for` ends, or `wait()` raises. -/
  | quit {t : τ} (hno : (c.phase t).wait? = none) : WaitMove P rt cls pred c (c.goto t .out)
  /-- `wait_for` finds its predicate false. -/
  | tested {t : τ} (m : Mode) (timed : Bool) (hno : (c.phase t).wait? = none)
      (hpred : pred c.shared = false) : WaitMove P rt cls pred c (c.goto t (.tested m timed))
  /-- `wait()` passes its checks. -/
  | enqueue {t : τ} {m : Mode} {timed : Bool} (inLoop : Bool) (hno : (c.phase t).wait? = none)
      (hcheck : cls.checkWait c.sys.lock (some t) m = .ok ()) (hP : P c (.wait t m timed)) :
      WaitMove P rt cls pred c
        (c.enqueue t { call := c.calls, mode := m, timed := timed, inLoop := inLoop })
  /-- `self.release()`.  In a task the checks have just passed. -/
  | leave {t : τ} {w : WaitCall} {o : Outcome} {sys : System τ} (hph : c.phase t = .queued w)
      (hcheck : rt = .async → cls.checkWait c.sys.lock (some t) w.mode = .ok ())
      (hst : c.sys.step rt cls (.release (some t) w.mode) = some (o, sys))
      (ho : ∀ e, o ≠ .raised e) :
      WaitMove P rt cls pred c (({ c with sys := sys }).goto t (.sleeping w false))
  /-- `self.release()` raises. -/
  | leaveRaised {t : τ} {w : WaitCall} {e : RuntimeError} {sys : System τ}
      (hph : c.phase t = .queued w)
      (hcheck : rt = .async → cls.checkWait c.sys.lock (some t) w.mode = .ok ())
      (hst : c.sys.step rt cls (.release (some t) w.mode) = some (.raised e, sys)) :
      WaitMove P rt cls pred c
        ((({ c with sys := sys }).removeWaiter w).endWait t w (.raised e))
  | timeout {t : τ} {w : WaitCall} (hrt : rt = .thread) (hph : c.phase t = .sleeping w false)
      (hpend : c.queue.state w.call = .pending) :
      WaitMove P rt cls pred c (c.goto t (.sleeping w true))
  | cancel {t : τ} {w : WaitCall} (hrt : rt = .async) (hph : c.phase t = .sleeping w false) :
      WaitMove P rt cls pred c
        { (c.cancelCall w).goto t (.sleeping w true) with
          queue := c.queue.cancelWaiter w.call }
  | wake {t : τ} {w : WaitCall} {interrupted : Bool} (hph : c.phase t = .sleeping w interrupted)
      (hon : c.queue.state w.call = .pending → interrupted = true) :
      WaitMove P rt cls pred c (c.wake rt t w interrupted).2
  | reacquire {t : τ} {w : WaitCall} {gotit err : Bool} {o : Outcome} {sys : System τ}
      (hph : c.phase t = .woken w gotit err) (hP : P c (.reacquire t))
      (hst : c.sys.step rt cls (.acquire t w.mode .forever false) = some (o, sys))
      (ho : ∀ e, o ≠ .raised e) :
      WaitMove P rt cls pred c (({ c with sys := sys }).goto t (.reacquiring w gotit err))
  /-- `self.acquire()` raises. -/
  | reacquireRaised {t : τ} {w : WaitCall} {gotit err : Bool} {e : RuntimeError} {sys : System τ}
      (hph : c.phase t = .woken w gotit err)
      (hst : c.sys.step rt cls (.acquire t w.mode .forever false) = some (.raised e, sys)) :
      WaitMove P rt cls pred c (({ c with sys := sys }).endWait t w (.raised e))
  /-- `self.acquire()` goes on. -/
  | goOn {t : τ} {w : WaitCall} {gotit err : Bool} {a : Action τ} {o : Outcome} {sys : System τ}
      (hph : c.phase t = .reacquiring w gotit err) (hP : P c (.lock a))
      (ha : (∃ expired, a = .resume t expired) ∧ o ≠ .cancelled ∨ a = .clear t)
      (hst : c.sys.step rt cls a = some (o, sys)) : WaitMove P rt cls pred c { c with sys := sys }
  /-- `self.acquire()` is cancelled. -/
  | cancelAgain {t : τ} {w : WaitCall} {gotit err : Bool} {o : Outcome} {sys : System τ}
      (hph : c.phase t = .reacquiring w gotit err)
      (hst : c.sys.step rt cls (.interrupt t) = some (o, sys)) :
      WaitMove P rt cls pred c (({ c with sys := sys }).cancelCall w)
  /-- `self.acquire()` raised `CancelledError`. -/
  | retry {t : τ} {w : WaitCall} {gotit err expired : Bool} {sys : System τ}
      (hph : c.phase t = .reacquiring w gotit err)
      (hst : c.sys.step rt cls (.resume t expired) = some (.cancelled, sys)) :
      WaitMove P rt cls pred c (({ c with sys := sys }).goto t (.woken w gotit true))
  | finish {t : τ} {w : WaitCall} {gotit err : Bool} (hph : c.phase t = .reacquiring w gotit err)
      (hpc : c.sys.pc t = .idle) : WaitMove P rt cls pred c (c.finish rt t w gotit err).2

/-- What a step does. -/
inductive WaitMoves (P : CondSystem τ σ → CondAction τ σ → Prop) (rt : Runtime) (cls : LockClass)
    (pred : σ → Bool) (c c' : CondSystem τ σ) : Prop
  | none (h : c' = c)
  | one (h : WaitMove P rt cls pred c c')
  | two {c₁ : CondSystem τ σ} (h : WaitMove P rt cls pred c c₁) (h' : WaitMove P rt cls pred c₁ c')

namespace CondSystem

variable {P : CondSystem τ σ → CondAction τ σ → Prop} {rt : Runtime} {cls : LockClass}
  {pred : σ → Bool} {c c' : CondSystem τ σ} {t : τ} {a : CondAction τ σ} {o : CondOutcome}

/-- A step of the lock within a step of the condition. -/
theorem onLock_eq_some {b : Action τ} {f : Outcome → CondSystem τ σ → CondOutcome × CondSystem τ σ}
    {r : CondOutcome × CondSystem τ σ} (h : c.onLock rt cls b f = some r) :
    ∃ o sys, c.sys.step rt cls b = some (o, sys) ∧ f o { c with sys := sys } = r := by
  obtain ⟨⟨o, sys⟩, hst, h⟩ := Option.map_eq_some_iff.1 h
  exact ⟨o, sys, hst, h⟩

theorem leave_move {w : WaitCall} (hph : c.phase t = .queued w)
    (hcheck : rt = .async → cls.checkWait c.sys.lock (some t) w.mode = .ok ())
    (h : c.leave rt cls t w = some (o, c')) : WaitMove P rt cls pred c c' := by
  obtain ⟨o, sys, hst, h⟩ := onLock_eq_some h
  split at h
  · obtain rfl := (Prod.mk.inj h).2
    exact .leaveRaised hph hcheck hst
  · obtain rfl := (Prod.mk.inj h).2
    exact .leave hph hcheck hst (by assumption)

theorem wait_moves {m : Mode} {timed inLoop : Bool} (hno : (c.phase t).wait? = none)
    (hP : P c (.wait t m timed)) (h : c.wait rt cls t m timed inLoop = some (o, c')) :
    WaitMoves P rt cls pred c c' := by
  unfold wait at h
  cases hcheck : cls.checkWait c.sys.lock (some t) m with
  | error e =>
      rw [hcheck] at h
      cases h
      exact .one (.quit hno)
  | ok u =>
      rw [hcheck] at h
      have hmv : WaitMove P rt cls pred c _ := .enqueue inLoop hno hcheck hP
      cases rt with
      | thread =>
          cases h
          exact .one hmv
      | async => exact .two hmv (leave_move (Function.update_self ..) (fun _ => hcheck) h)

theorem test_move {m : Mode} {timed expired : Bool} (hno : (c.phase t).wait? = none) :
    WaitMove P rt cls pred c (c.test pred t m timed expired).2 := by
  unfold test
  split_ifs with hpred hexp
  · exact .quit hno
  · exact .quit hno
  · exact .tested m timed hno (by simpa using hpred)

theorem goOn_move {w : WaitCall} {gotit err : Bool} {b : Action τ}
    (hph : c.phase t = .reacquiring w gotit err) (hcaller : b.caller = some t)
    (hP : P c (.lock b)) (h : c.goOn rt cls t w gotit b = some (o, c')) :
    WaitMove P rt cls pred c c' := by
  unfold goOn at h
  cases b with
  | acquire | release | downgrade => cases h
  | resume u expired =>
      obtain rfl : u = t := Option.some.inj hcaller
      obtain ⟨o, sys, hst, h⟩ := onLock_eq_some h
      split at h
      · obtain rfl := (Prod.mk.inj h).2
        exact .retry hph hst
      · obtain rfl := (Prod.mk.inj h).2
        exact .goOn hph hP (.inl ⟨⟨_, rfl⟩, by assumption⟩) hst
  | interrupt u =>
      obtain ⟨o, sys, hst, h⟩ := onLock_eq_some h
      obtain rfl := (Prod.mk.inj h).2
      exact .cancelAgain hph hst
  | clear u =>
      obtain rfl : u = t := Option.some.inj hcaller
      obtain ⟨o, sys, hst, h⟩ := onLock_eq_some h
      obtain rfl := (Prod.mk.inj h).2
      exact .goOn hph hP (.inr rfl) hst

/-- A step is one move or changes nothing, but for `wait()`. -/
theorem Step.move (hst : Step rt cls pred c a c') (hP : P c a)
    (ha : ∀ t m timed, a ≠ .wait t m timed) : c' = c ∨ WaitMove P rt cls pred c c' := by
  obtain ⟨o, hst⟩ := hst
  cases a with
  | lock b =>
      have hlock : (∀ t, b.caller = some t → c.phase t = .out) →
          c.onLock rt cls b (fun o c => (.lock o, c)) = some (o, c') →
          c' = c ∨ WaitMove P rt cls pred c c' := by
        intro hout h
        obtain ⟨o, sys, hlock, h⟩ := onLock_eq_some h
        obtain rfl := (Prod.mk.inj h).2
        exact .inr (.lock hout hP hlock)
      cases hb : b.caller with
      | none =>
          simp only [step, hb] at hst
          exact hlock (by simp [hb]) hst
      | some t =>
          simp only [step, hb, Option.map_some, Option.bind_some] at hst
          cases hph : c.phase t with
          | out =>
              rw [hph] at hst
              exact hlock (fun u hu => by rw [hb] at hu; cases hu; exact hph) hst
          | reacquiring w gotit err =>
              rw [hph] at hst
              exact .inr (goOn_move hph hb hP hst)
          | tested | again | queued | sleeping | woken =>
              rw [hph] at hst
              cases hst
  | change t s =>
      simp only [step] at hst
      split_ifs at hst with hf
      cases hst
      exact .inr (.change hf.1 hP)
  | notify k m n =>
      simp only [step] at hst
      split_ifs at hst
      have hst := Option.some.inj hst
      unfold notify at hst
      split_ifs at hst with hown
      · cases hst
        exact .inr (.notify hown hP)
      · cases hst
        exact .inl rfl
  | notifyAll k m =>
      simp only [step] at hst
      split_ifs at hst
      have hst := Option.some.inj hst
      unfold notifyAll at hst
      split_ifs at hst with hown
      · cases hst
        exact .inr (.notifyAll hown hP)
      · cases hst
        exact .inl rfl
  | test t m timed expired =>
      simp only [step] at hst
      split_ifs at hst with hph hf
      · obtain rfl : (c.test pred t m timed expired).2 = c' := by rw [Option.some.inj hst]
        exact .inr (test_move (by rw [hph]; rfl))
      · obtain rfl : (c.test pred t m timed false).2 = c' := by rw [Option.some.inj hst]
        exact .inr (test_move (by rw [hf.1.1]; rfl))
  | wait t m timed => exact absurd rfl (ha t m timed)
  | leave t =>
      simp only [step] at hst
      split at hst
      · rename_i w hph
        exact .inr (leave_move hph (by simp) hst)
      · cases hst
  | interrupt t =>
      simp only [step] at hst
      split at hst
      · rename_i w _ hph
        split_ifs at hst with hpend
        cases hst
        exact .inr (.timeout rfl hph hpend.2)
      · rename_i w _ hph
        cases hst
        exact .inr (.cancel rfl hph)
      · cases hst
  | wake t =>
      simp only [step] at hst
      split at hst
      · rename_i w interrupted hph
        split_ifs at hst with hon
        obtain rfl : (c.wake rt t w interrupted).2 = c' := by rw [Option.some.inj hst]
        exact .inr (.wake hph fun hp => by simpa [hp] using hon)
      · cases hst
  | reacquire t =>
      simp only [step] at hst
      split at hst
      · rename_i w gotit err hph
        obtain ⟨o, sys, hlock, h⟩ := onLock_eq_some hst
        split at h
        · obtain rfl := (Prod.mk.inj h).2
          exact .inr (.reacquireRaised hph hlock)
        · obtain rfl := (Prod.mk.inj h).2
          exact .inr (.reacquire hph hP hlock (by assumption))
      · cases hst
  | finish t =>
      simp only [step] at hst
      split at hst
      · rename_i w gotit err hph
        split_ifs at hst with hpc
        obtain rfl : (c.finish rt t w gotit err).2 = c' := by rw [Option.some.inj hst]
        exact .inr (.finish hph hpc)
      · cases hst

/-- **Every step is at most two moves.** -/
theorem Step.moves (hst : Step rt cls pred c a c') (hP : P c a) :
    WaitMoves P rt cls pred c c' := by
  by_cases ha : ∃ t m timed, a = .wait t m timed
  · obtain ⟨t, m, timed, rfl⟩ := ha
    obtain ⟨o, hst⟩ := hst
    simp only [step] at hst
    split_ifs at hst with hph hf
    · exact wait_moves (by rw [hph]; rfl) hP hst
    · exact wait_moves (by rw [hf.1.1]; rfl) hP hst
  · rcases hst.move hP fun t m timed heq => ha ⟨t, m, timed, heq⟩ with heq | hmv
    · exact .none heq
    · exact .one hmv

end CondSystem

end Rwlocker

/-
# Programs of blocks complete

`Code` has no loops, so a thread by itself runs to its end.  Under a lock it may be woken
and find the lock closed any number of times, and it may wait for somebody who waits for
somebody else; still every run of a client ends (`every_run_ends`), and where it cannot go
on every thread has ended, unless the owner of a plain lock waits for itself (`completes`).

The bound is a potential: what is left of the code of the threads (`Thread.cost`), each
statement worth the wakes that it can cause, and the work of the lock (`System.work`).

Nesting a block in a write block is the only way to wait for oneself: a plain lock is enough
for programs that do not (`flat_programs_complete`).
-/

import Mathlib.Algebra.BigOperators.Group.Finset.Basic
import Rwlocker.BlockDiscipline
import Rwlocker.Deadlock
import Rwlocker.Settling

namespace Rwlocker

variable {τ L σ : Type}

/-- A timeout passes or a task is cancelled. -/
def Event.isInterrupt : Event τ → Bool
  | .interrupt _ => true
  | .go _ | .resume _ | .clear _ => false

theorem sum_interrupts (es : List (Event τ)) :
    (es.map fun e => if e.isInterrupt then 2 else 0).sum = 2 * es.countP Event.isInterrupt := by
  induction es with
  | nil => rfl
  | cons e es ih =>
      rw [List.map_cons, List.sum_cons, ih, List.countP_cons]
      split_ifs <;> omega

/-- The steps that a piece of code takes, at most. -/
def Code.cost : Code L σ → ℕ
  | .compute _ | .load _ | .store _ | .raise | .ret | .downgrade => 1
  | .seq a b | .branch _ a b | .attempt a b => a.cost + b.cost + 2
  | .withLock _ a => a.cost + 2

def Frame.cost : Frame L σ → ℕ
  | .next a | .handler a => a.cost + 1
  | .exit _ => 1

def Ctl.cost : Ctl L σ → ℕ
  | .run a => a.cost
  | .ended _ => 0
  | .entering _ a => a.cost + 1

/-- The steps that a thread takes, at most, but for those in `acquire`. -/
def Thread.cost (th : Thread L σ) : ℕ := th.ctl.cost + (th.stack.map Frame.cost).sum

theorem Silent.cost_lt {th th' : Thread L σ} {d d' : σ} (h : Silent th d th' d') :
    th'.cost < th.cost := by
  cases h with
  | seq | attempt | compute | load | store | raise | ret =>
      simp only [Thread.cost, Ctl.cost, Code.cost, Frame.cost, List.map_cons, List.sum_cons]
      omega
  | branch =>
      simp only [Thread.cost, Ctl.cost, Code.cost]
      split_ifs <;> omega
  | next | handler =>
      simp only [Thread.cost, List.map_cons, List.sum_cons, Frame.cost]
      split_ifs <;> simp only [Ctl.cost] <;> omega

/-- What `__enter__` leaves to do is the block and its `__exit__`. -/
theorem Thread.landed_cost (th : Thread L σ) (m : Mode) (body : Code L σ) (o : Outcome) :
    (th.landed m body o).cost ≤ body.cost + 1 + (th.stack.map Frame.cost).sum := by
  cases o with
  | acquired m' =>
      simp only [landed, cost, Ctl.cost, List.map_cons, List.sum_cons, Frame.cost]
      omega
  | parked => exact le_rfl
  | _ =>
      simp only [landed, cost, Ctl.cost]
      omega

variable [DecidableEq τ]

namespace Client

variable {rt : Runtime} {cls : LockClass} {c c₀ c' : Client τ L σ} {t u : τ} {e : Event τ}
  {prog : τ → Code L σ} {es : List (Event τ)}

section potential

variable [Fintype τ]

theorem sum_put (c : Client τ L σ) (t : τ) (th : Thread L σ) :
    ∑ u, ((c.put t th).threads u).cost + (c.threads t).cost =
      ∑ u, (c.threads u).cost + th.cost := by
  have hothers : ∀ u, u ≠ t → ((c.put t th).threads u).cost = (c.threads u).cost := by
    intro u hu
    have hne : (c.put t th).threads u = c.threads u := Function.update_of_ne hu _ _
    rw [hne]
  have hself : (c.put t th).threads t = th := Function.update_self ..
  have hsum := Transition.sum_add_of_ne t hothers
  rwa [hself] at hsum

/-- What a client has still to do: a statement may wake everybody who waits. -/
noncomputable def potential (c : Client τ L σ) : ℕ :=
  (Fintype.card τ + 2) * ∑ t, (c.threads t).cost + System.work (Fintype.card τ) c.sys

/-- A thread that goes on pays for what it causes in the lock. -/
theorem potential_put {s : System τ} {d : σ} {th : Thread L σ}
    (hcost : th.cost < (c.threads t).cost)
    (hwork : System.work (Fintype.card τ) s ≤
      System.work (Fintype.card τ) c.sys + (Fintype.card τ + 1)) :
    potential (({ c with sys := s, data := d } : Client τ L σ).put t th) < potential c := by
  have hsum := sum_put ({ c with sys := s, data := d } : Client τ L σ) t th
  have hlt : ∑ u, ((({ c with sys := s, data := d } : Client τ L σ).put t th).threads u).cost + 1 ≤
      ∑ u, (c.threads u).cost := by
    simp only at hsum
    omega
  have hmul := Nat.mul_le_mul_left (Fintype.card τ + 2) hlt
  rw [Nat.mul_succ] at hmul
  simp only [potential]
  show _ + System.work (Fintype.card τ) s < _
  omega

/-- A step that leaves the threads as they are costs what it costs the lock. -/
theorem potential_le {s : System τ} {th : Thread L σ} {k : ℕ}
    (hcost : th.cost ≤ (c.threads t).cost)
    (hwork : System.work (Fintype.card τ) s + 1 ≤ System.work (Fintype.card τ) c.sys + k) :
    potential ({ c with sys := s }.put t th) + 1 ≤ potential c + k := by
  have hsum := sum_put ({ c with sys := s } : Client τ L σ) t th
  have hle : ∑ u, (({ c with sys := s }.put t th).threads u).cost ≤ ∑ u, (c.threads u).cost := by
    simp only at hsum
    omega
  have hmul := Nat.mul_le_mul_left (Fintype.card τ + 2) hle
  simp only [potential]
  show _ + System.work (Fintype.card τ) s + 1 ≤ _
  omega

/-- A call of the lock by a thread that goes on. -/
theorem potential_call {a : Action τ} {o : Outcome} {s : System τ} {th : Thread L σ}
    (h : System.Reachable rt cls c.sys) (hst : c.sys.step rt cls a = some (o, s))
    (ha : a.caller ≠ none) (hcall : a.isCall = true) (hcost : th.cost < (c.threads t).cost) :
    potential ({ c with sys := s }.put t th) < potential c := by
  have hwork := System.step_work h hst ha h.waiting_le_card
  rw [Action.worth, if_pos hcall] at hwork
  exact potential_put hcost (by omega)

/-- **A step lowers the potential**; a timeout or a cancellation raises it by one. -/
theorem step_potential (h : System.Reachable rt cls c.sys) (hst : c.step rt cls e = some c') :
    1 + potential c' ≤ potential c + if e.isInterrupt then 2 else 0 := by
  rw [Nat.add_comm]
  have hwork : ∀ {a : Action τ} {o : Outcome} {s : System τ},
      c.sys.step rt cls a = some (o, s) → a.caller ≠ none →
        a.goesOn.toNat + System.work (Fintype.card τ) s ≤
          System.work (Fintype.card τ) c.sys + a.worth (Fintype.card τ) := fun hlock ha =>
    System.step_work h hlock ha h.waiting_le_card
  cases e with
  | go t =>
      simp only [step] at hst
      split_ifs at hst with hpc
      show potential c' < potential c
      cases go_does hpc hst with
      | silent _ hs => exact potential_put hs.cost_lt (by omega)
      | @calls a k o s hk hlock =>
          generalize hth : c.threads t = th at hk
          cases hk with
          | @enter m body st l =>
              refine potential_call h hlock (by simp [Action.caller]) rfl ?_
              have hland := Thread.landed_cost ⟨.run (.withLock m body), st, l⟩ m body o
              rw [hth]
              simp only [Thread.cost, Ctl.cost, Code.cost] at hland ⊢
              omega
          | downgrade | exit =>
              refine potential_call h hlock (by simp [Action.caller]) rfl ?_
              rw [hth]
              simp [Thread.cost, Ctl.cost, Code.cost, Frame.cost]
          | resume | clear | interrupt => simp [System.step, hpc] at hlock
  | resume t =>
      simp only [step] at hst
      generalize hth : c.threads t = th at hst
      obtain ⟨ctl, st, l⟩ := th
      cases ctl with
      | entering m body =>
          obtain ⟨⟨o, s⟩, hlock, rfl⟩ := Option.map_eq_some_iff.1 hst
          refine potential_le ?_ (Nat.add_comm .. ▸ hwork hlock (by simp [Action.caller]))
          rw [hth]
          exact Thread.landed_cost ⟨.entering m body, st, l⟩ m body o
      | run => cases hst
      | ended => cases hst
  | clear t =>
      obtain ⟨⟨o, s⟩, hlock, rfl⟩ := Option.map_eq_some_iff.1 hst
      exact potential_le le_rfl (Nat.add_comm .. ▸ hwork hlock (by simp [Action.caller]))
  | interrupt t =>
      obtain ⟨⟨o, s⟩, hlock, rfl⟩ := Option.map_eq_some_iff.1 hst
      have hle : 0 + System.work (Fintype.card τ) s ≤
          System.work (Fintype.card τ) c.sys + 1 := hwork hlock (by simp [Action.caller])
      refine potential_le le_rfl ?_
      show System.work (Fintype.card τ) s + 1 ≤ System.work (Fintype.card τ) c.sys + 2
      omega

/-- **Every run ends.**  However the threads are scheduled, they take no more steps than
their code, each statement once and each able to wake everybody, and two for every
cancellation. -/
theorem every_run_ends (hinit : Init prog c₀)
    (hrun : Transition.Run (Step rt cls) c₀ es c) :
    es.length ≤ (Fintype.card τ + 2) * ∑ t, (prog t).cost + 2 * es.countP Event.isInterrupt := by
  have hpay := hrun.countP_le (I := Reachable rt cls prog) (Φ := potential) (p := fun _ => true)
    (w := fun e => if e.isInterrupt then 2 else 0) ?_ (.start hinit)
  · have hstart : potential c₀ = (Fintype.card τ + 2) * ∑ t, (prog t).cost := by
      obtain ⟨hsys, hth⟩ := hinit
      have hcost : ∀ t, (c₀.threads t).cost = (prog t).cost := fun t => by
        rw [Thread.cost, (hth t).1, (hth t).2]
        rfl
      rw [potential, hsys, System.work_new, Nat.add_zero]
      simp only [hcost]
    rw [List.countP_true, sum_interrupts, hstart] at hpay
    omega
  · intro c e c' hr hst
    exact ⟨hr.tail hst, step_potential hr.framed.1.reachable hst⟩

end potential

/-- A writer waits for a writer, and both end. -/
theorem every_run_ends_in_turn : ∃ (c : Client (Fin 2) Unit Unit) (es : List (Event (Fin 2))),
    (es.length = 7 ∧ (c.threads 0).cost = 0 ∧ (c.threads 1).cost = 0) ∧
    es.length ≤ (Fintype.card (Fin 2) + 2) * ∑ _t : Fin 2,
      (.withLock .write .ret : Code Unit Unit).cost + 2 * es.countP Event.isInterrupt := by
  have hrun : ((Transition.replay (step .async .write)
      (start (fun _ : Fin 2 => .withLock .write .ret) (fun _ => ()) ())
      [.go 0, .go 0, .go 1, .go 0, .resume 1, .go 1, .go 1]).map fun c =>
        ((c.threads 0).cost, (c.threads 1).cost)) = some (0, 0) := by
    decide
  obtain ⟨c, hc, hval⟩ := Option.map_eq_some_iff.1 hrun
  simp only [Prod.mk.injEq] at hval
  exact ⟨c, _, ⟨rfl, hval⟩, every_run_ends ⟨rfl, fun _ => ⟨rfl, rfl⟩⟩
    (Transition.Run.of_replay (fun _ _ _ hst => hst) hc)⟩

/-! ### Where it stops -/

/-- No thread can go on by itself. -/
def Stuck (rt : Runtime) (cls : LockClass) (c : Client τ L σ) : Prop :=
  ∀ e, e.isInterrupt = false → c.step rt cls e = none

/-- A thread that cannot go on has ended, or sleeps in `__enter__`. -/
theorem Stuck.done_or_asleep (h : Stuck rt cls c) (hf : Framed c t) :
    Done c t ∨ ∃ m seq, c.sys.lock.waiter m t = .pending ∧
      c.sys.pc t = .waiting m seq false false := by
  have hgo := h (.go t) rfl
  cases hpc : c.sys.pc t with
  | idle =>
      left
      simp only [step, hpc, if_true, go] at hgo
      generalize hth : c.threads t = th at hgo
      obtain ⟨ctl, st, l⟩ := th
      cases ctl with
      | run code => cases code <;> simp [call, System.step, System.canCall, hpc] at hgo
      | ended s =>
          cases st with
          | nil => exact ⟨by rw [hth], s, by rw [hth]⟩
          | cons f st => cases f <;> simp [call, System.step, System.canCall, hpc] at hgo
      | entering m body =>
          obtain ⟨_, _, _, hw⟩ := hf.entering m body (by rw [hth])
          cases hpc.symm.trans hw
  | waiting m seq timed i =>
      right
      obtain ⟨rfl, body, hctl⟩ := hf.waiting m seq timed i hpc
      have hresume := h (.resume t) rfl
      simp only [step, hctl, call, Option.map_eq_none_iff, System.step, hpc] at hresume
      split_ifs at hresume with hp
      exact ⟨m, seq, hp.1, hp.2 ▸ rfl⟩
  | clearing =>
      have hclear := h (.clear t) rfl
      simp [step, call, System.step, hpc] at hclear

/-- **Where a client cannot go on** every thread has ended, or the owner of a plain lock
waits for itself. -/
theorem Stuck.done (h : Stuck rt cls c) (hr : Reachable rt cls prog c) :
    (∀ t, Done c t) ∨ ∃ u, System.SelfDeadlock cls c.sys u := by
  obtain ⟨hsys, hf⟩ := hr.framed
  by_cases hall : ∀ t, Done c t
  · exact .inl hall
  · right
    have hasleep : ∀ t, ¬ Done c t → ∃ m seq, c.sys.lock.waiter m t = .pending ∧
        c.sys.pc t = .waiting m seq false false := fun t ht =>
      (h.done_or_asleep (hf t)).resolve_left ht
    have hq : c.sys.Quiescent := by
      rintro t m ⟨hfl, hno⟩
      obtain ⟨m', seq, hp, hpc⟩ := hasleep t fun hd =>
        not_inFlight_of_idle ((hf t).at_rest hd).1 m hfl
      cases hfl.mode_eq ⟨_, _, _, hpc⟩
      exact hno ⟨hp, _, _, hpc⟩
    obtain ⟨t, ht⟩ := not_forall.1 hall
    obtain ⟨m, seq, -, hpc⟩ := hasleep t ht
    -- whoever holds the lock has not ended, so it sleeps, too
    have hholder : ∀ u, System.Holding c.sys.holds (some u) → ¬ Done c u := by
      rintro u hhold hd
      obtain ⟨-, hreads, hwrites, -⟩ := (hf u).at_rest hd
      rcases hhold with hw | hrd <;> omega
    rcases hq.held hsys.reachable ⟨_, _, _, hpc⟩ with ⟨u, ho, hw⟩ | ⟨u, hk, hrd⟩
    · obtain ⟨m', seq', -, hpc'⟩ := hasleep u (hholder u (.inl hw))
      have hstr := (hsys.reachable.wellFormed.stranger m' u ⟨_, _, _, hpc'⟩).2
      refine ⟨u, ?_, ho, m', seq', hpc'⟩
      by_contra hre
      exact hstr ⟨by simpa using hre, ho⟩
    · obtain ⟨m', seq', -, hpc'⟩ := hasleep u (hholder u (.inr hrd))
      have hstr := (hsys.reachable.wellFormed.stranger m' u ⟨_, _, _, hpc'⟩).1
      omega

/-- A step that is neither a timeout nor a cancellation. -/
def OnItsOwn (_ : Client τ L σ) (e : Event τ) : Prop := e.isInterrupt = false

/-- Left alone, a client comes to a state in which no thread can go on. -/
theorem Reachable.exists_stuck [Fintype τ] (h : Reachable rt cls prog c) :
    ∃ es c', Transition.Run (Transition.restrict OnItsOwn (Step rt cls)) c es c' ∧
      Stuck rt cls c' := by
  have hlower : ∀ c e c', Reachable rt cls prog c →
      Transition.restrict OnItsOwn (Step rt cls) c e c' →
        Reachable rt cls prog c' ∧ potential c' < potential c := by
    rintro c e c' hr ⟨he, hst⟩
    have hpay := step_potential hr.framed.1.reachable hst
    rw [if_neg (by simp [show e.isInterrupt = false from he])] at hpay
    exact ⟨hr.tail hst, by omega⟩
  obtain ⟨es, c', hrun, hmax⟩ := Transition.exists_maximal hlower c h
  refine ⟨es, c', hrun, fun e he => ?_⟩
  cases hst : c'.step rt cls e with
  | none => rfl
  | some c'' => exact absurd ⟨he, hst⟩ (hmax e c'')

theorem Reachable.run_alone (h : Reachable rt cls prog c)
    (hrun : Transition.Run (Transition.restrict OnItsOwn (Step rt cls)) c es c') :
    Reachable rt cls prog c' :=
  h.run (hrun.mono fun _ _ _ hst => hst.2)

/-- **Programs complete.**  From every state that a client can reach it can be run, without
cancellations, until no thread can go on; and whichever way that happens, every thread has
ended or the owner of a plain lock waits for itself. -/
theorem completes [Fintype τ] (h : Reachable rt cls prog c) :
    (∃ es c', Transition.Run (Transition.restrict OnItsOwn (Step rt cls)) c es c' ∧
      Stuck rt cls c') ∧
    ∀ es c', Transition.Run (Transition.restrict OnItsOwn (Step rt cls)) c es c' →
      Stuck rt cls c' →
        (∀ t, Done c' t) ∨ ∃ u, System.SelfDeadlock cls c'.sys u :=
  ⟨h.exists_stuck, fun _ _ hrun hstuck => hstuck.done (h.run_alone hrun)⟩

/-- A block in a block of a plain lock. -/
theorem completes_nested : ∃ c : Client (Fin 2) Unit Unit,
    System.SelfDeadlock .write c.sys 0 ∧
    (∃ es c', Transition.Run (Transition.restrict OnItsOwn (Step .thread .write)) c es c' ∧
      Stuck .thread .write c') ∧
    ∀ es c', Transition.Run (Transition.restrict OnItsOwn (Step .thread .write)) c es c' →
      Stuck .thread .write c' →
        (∀ t, Done c' t) ∨ ∃ u, System.SelfDeadlock .write c'.sys u := by
  have hc : Reachable .thread .write (fun _ => .withLock .write (.withLock .read .ret)) _ :=
    reachable_of_replay (show Transition.replay (step .thread .write)
      (start (fun _ : Fin 2 => .withLock .write (.withLock .read .ret)) (fun _ => ()) ())
      [.go 0, .clear 0, .go 0] = some _ from rfl)
  exact ⟨_, ⟨rfl, rfl, .read, 1, rfl⟩, completes hc⟩

end Client

/-! ### Programs that nest nothing in a write block -/

/-- Inside a write block (`w`) no block is entered. -/
def Code.Flat : Bool → Code L σ → Prop
  | _, .compute _ | _, .load _ | _, .store _ | _, .raise | _, .ret | _, .downgrade => True
  | w, .seq a b | w, .branch _ a b | w, .attempt a b => a.Flat w ∧ b.Flat w
  | w, .withLock m a => w = false ∧ a.Flat (m = .write)

/-- A write block is open. -/
def writing (st : List (Frame L σ)) : Bool := 0 < openBlocks .write st

def FramesFlat : List (Frame L σ) → Prop
  | [] => True
  | .next a :: st | .handler a :: st => a.Flat (writing st) ∧ FramesFlat st
  | .exit _ :: st => writing st = false ∧ FramesFlat st

def Ctl.Flat (w : Bool) : Ctl L σ → Prop
  | .run a => a.Flat w
  | .ended _ => True
  | .entering m a => w = false ∧ a.Flat (m = .write)

structure Thread.Flat (th : Thread L σ) : Prop where
  ctl : th.ctl.Flat (writing th.stack)
  stack : FramesFlat th.stack

omit [DecidableEq τ] in
theorem Silent.flat {th th' : Thread L σ} {d d' : σ} (h : Silent th d th' d') (hf : th.Flat) :
    th'.Flat := by
  obtain ⟨hctl, hst⟩ := hf
  cases h with
  | compute | load | store | raise | ret => exact ⟨trivial, hst⟩
  | seq | attempt => exact ⟨hctl.1, hctl.2, hst⟩
  | branch =>
      refine ⟨?_, hst⟩
      split_ifs
      · exact hctl.1
      · exact hctl.2
  | next | handler =>
      refine ⟨?_, hst.2⟩
      split_ifs
      · exact hst.1
      · trivial

theorem Thread.Flat.landed {th : Thread L σ} {m : Mode} {body : Code L σ}
    (hw : writing th.stack = false) (hbody : body.Flat (m = .write)) (hst : FramesFlat th.stack)
    (o : Outcome) : (th.landed m body o).Flat := by
  cases o with
  | acquired m' =>
      refine ⟨?_, hw, hst⟩
      have hopen : writing (.exit m :: th.stack) = decide (m = .write) := by
        have hzero : openBlocks .write th.stack = 0 := by simpa [writing] using hw
        cases m <;> simp [writing, openBlocks, hzero]
      show body.Flat (writing (.exit m :: th.stack))
      rwa [hopen]
  | parked => exact ⟨⟨hw, hbody⟩, hst⟩
  | _ => exact ⟨trivial, hst⟩

namespace Client

variable {rt : Runtime} {cls : LockClass} {c c' : Client τ L σ} {t u : τ} {prog : τ → Code L σ}

theorem Does.flat (hd : Does rt cls c t c') (hf : ∀ u, (c.threads u).Flat) (u : τ) :
    (c'.threads u).Flat := by
  have hput : ∀ {y : System τ} {d : σ} {th : Thread L σ}, th.Flat →
      ((({ c with sys := y, data := d } : Client τ L σ).put t th).threads u).Flat := by
    intro y d th hth
    by_cases hut : u = t
    · subst hut
      simpa [put] using hth
    · simpa [put, hut] using hf u
  have ht := hf t
  cases hd with
  | silent _ hs => exact hput (hs.flat ht)
  | @calls a k o s hk hlock =>
      refine hput ?_
      generalize c.threads t = th at hk ht
      obtain ⟨hctl, hst⟩ := ht
      cases hk with
      | enter => exact .landed hctl.1 hctl.2 hst o
      | resume => exact .landed hctl.1 hctl.2 hst o
      | downgrade => exact ⟨trivial, hst⟩
      | exit => exact ⟨trivial, hst.2⟩
      | clear | interrupt => exact ⟨hctl, hst⟩

theorem Reachable.flat (h : Reachable rt cls prog c) (hprog : ∀ t, (prog t).Flat false) (t : τ) :
    (c.threads t).Flat := by
  refine Transition.Reachable.invariant (I := fun c => ∀ t, (c.threads t).Flat) ?_ ?_ h t
  · rintro c ⟨-, hth⟩ t
    obtain ⟨hctl, hst⟩ := hth t
    constructor
    · rw [hctl, hst]
      exact hprog t
    · rw [hst]
      trivial
  · exact fun c e c' hf hst => (step_does hst).flat hf

/-- No owner of such a program waits for itself. -/
theorem Reachable.no_self_deadlock (h : Reachable rt cls prog c)
    (hprog : ∀ t, (prog t).Flat false) (u : τ) : ¬ System.SelfDeadlock cls c.sys u := by
  rintro ⟨-, ho, m, seq, hpc⟩
  obtain ⟨hr, hf⟩ := h.framed
  obtain ⟨-, body, hctl⟩ := (hf u).waiting m seq false false hpc
  have hflat := (h.flat hprog u).ctl
  rw [hctl] at hflat
  have hzero : openBlocks .write (c.threads u).stack = 0 := by simpa [writing] using hflat.1
  have hw := hr.ledger.writes_pos hr.books ho
  have hheld := (hf u).holds
  omega

/-- **Flat programs cannot deadlock.**  If the class is reentrant, or no program enters a
block inside a write block, then every thread can always be brought to its end, and has
ended whenever no thread can go on. -/
theorem flat_programs_complete [Fintype τ] (h : Reachable rt cls prog c)
    (hprog : cls.reentrant = true ∨ ∀ t, (prog t).Flat false) :
    (∃ es c', Transition.Run (Transition.restrict OnItsOwn (Step rt cls)) c es c' ∧
      ∀ t, Done c' t) ∧
    ∀ es c', Transition.Run (Transition.restrict OnItsOwn (Step rt cls)) c es c' →
      Stuck rt cls c' → ∀ t, Done c' t := by
  have hdone : ∀ es c', Transition.Run (Transition.restrict OnItsOwn (Step rt cls)) c es c' →
      Stuck rt cls c' → ∀ t, Done c' t := by
    intro es c' hrun hstuck
    have hr := h.run_alone hrun
    rcases hstuck.done hr with hall | ⟨u, hdead⟩
    · exact hall
    · rcases hprog with hre | hprog
      · cases hre.symm.trans hdead.1
      · exact absurd hdead (hr.no_self_deadlock hprog u)
  obtain ⟨es, c', hrun, hstuck⟩ := h.exists_stuck
  exact ⟨⟨es, c', hrun, hdone es c' hrun hstuck⟩, hdone⟩

/-- A writer inside and a writer that waits, on a plain lock. -/
theorem flat_programs_complete_plain : ∃ c : Client (Fin 2) Unit Unit,
    (0 < c.sys.holds.writes (some 0) ∧ InFlight c.sys.pc .write 1) ∧
    (∃ es c', Transition.Run (Transition.restrict OnItsOwn (Step .thread .write)) c es c' ∧
      ∀ t, Done c' t) ∧
    ∀ es c', Transition.Run (Transition.restrict OnItsOwn (Step .thread .write)) c es c' →
      Stuck .thread .write c' → ∀ t, Done c' t := by
  have hc : Reachable .thread .write (fun _ => .withLock .write (.seq .downgrade .raise)) _ :=
    reachable_of_replay (show Transition.replay (step .thread .write)
      (start (fun _ : Fin 2 => .withLock .write (.seq .downgrade .raise)) (fun _ => ()) ())
      [.go 0, .clear 0, .go 1] = some _ from rfl)
  exact ⟨_, ⟨by decide, 1, false, false, rfl⟩,
    flat_programs_complete hc (.inr fun _ => ⟨rfl, trivial, trivial⟩)⟩

end Client

end Rwlocker

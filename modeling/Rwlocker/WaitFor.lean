/-
# What wait_for tells

`wait_for` returns the last value of its predicate.  By then its caller holds the lock
again, in the mode of the proxy and once, so nobody else changes the state: the answer stays
true until the caller gives its hold up or changes the state itself
(`wait_for_answers`).

All this is while the users keep their promise (`HolderReachable`, `StaysIn`): they change
the state under the write lock, and release only what they hold.  A plain lock lets anybody
give back the write lock of another, and then a second writer may change the state under
the caller of `wait_for`.
-/

import Rwlocker.Restore

namespace Rwlocker

open ReadersWriter (Holds)
open Rwlocker.System (Holding)

variable {τ σ : Type}

/-- Who changes the state. -/
def CondAction.changer : CondAction τ σ → Option τ
  | .change t _ => some t
  | .lock _ | .notify _ _ _ | .notifyAll _ _ | .test _ _ _ _ | .wait _ _ _ | .leave _
  | .interrupt _ | .wake _ | .reacquire _ | .finish _ => none

variable [DecidableEq τ] {rt : Runtime} {cls : LockClass} {pred : σ → Bool}
  {c c' c₁ : CondSystem τ σ} {t u : τ} {a : CondAction τ σ} {m : Mode} {timed : Bool}

/-- Whoever is back from a `wait()` of `wait_for` has one acquisition. -/
def Returned (c : CondSystem τ σ) : Prop :=
  ∀ t m timed, c.phase t = .again m timed → OnlyHold c.sys.holds (some t) m

/-- Nobody but `u` makes a step, and `u` is not back. -/
theorem Returned.other (h : Returned c)
    (hun : ∀ t, t ≠ u → Untouched t c.sys c'.sys ∧ c'.phase t = c.phase t)
    (hself : ∀ m timed, c'.phase u = .again m timed → OnlyHold c'.sys.holds (some u) m) :
    Returned c' := by
  intro t m timed ht
  by_cases htu : t = u
  · subst htu
    exact hself m timed ht
  · obtain ⟨hunt, hph⟩ := hun t htu
    have hold := h t m timed (hph ▸ ht)
    cases m <;> simpa only [OnlyHold, hunt.reads, hunt.writes] using hold

/-- **Every move leaves those alone who are back.** -/
theorem WaitMove.returned (hmv : WaitMove CondSystem.ByHolder rt cls pred c c')
    (hk : Keeping rt cls c) (h : Returned c) : Returned c' := by
  have hgoto : ∀ {d : CondSystem τ σ} {u : τ} {p : Phase}, d.sys = c.sys →
      d.phase = Function.update c.phase u p → (∀ m timed, p ≠ .again m timed) →
      Returned d := by
    intro d u p hsys hph hp
    refine h.other (u := u) (fun t ht => ?_) fun m timed hu => ?_
    · rw [hsys, hph]
      exact ⟨System.untouched_refl .., Function.update_of_ne ht _ _⟩
    · rw [hph, Function.update_self] at hu
      exact absurd hu (hp m timed)
  have hlock : ∀ {d : CondSystem τ σ} {u : τ} {b : Action τ} {o : Outcome},
      c.sys.step rt cls b = some (o, d.sys) → b.caller = some u →
      (∀ t, t ≠ u → d.phase t = c.phase t) → (∀ m timed, d.phase u ≠ .again m timed) →
      Returned d := by
    intro d u b o hst hb hph hu
    refine h.other (fun t ht => ⟨?_, hph t ht⟩) fun m timed hu' => absurd hu' (hu m timed)
    exact System.step_untouched hk.reach.books hst (by simp [hb])
      (by simpa [hb, eq_comm] using ht)
  cases hmv with
  | @lock b o sys hout hP hst =>
      obtain ⟨u, hu⟩ := Option.ne_none_iff_exists'.1 hP.1
      refine hlock hst hu (fun _ _ => rfl) fun m timed hu' => ?_
      rw [hout u hu] at hu'
      cases hu'
  | change | notify | notifyAll => exact h
  | quit | tested => exact hgoto rfl rfl (by simp)
  | enqueue => exact hgoto rfl rfl (by simp)
  | leave _ _ hst =>
      exact hlock hst rfl (fun t ht => CondSystem.goto_phase_of_ne _ ht _) (by simp)
  | leaveRaised hph _ hst => cases (hk.leave hph hst).1
  | timeout => exact hgoto rfl rfl (by simp)
  | cancel => exact hgoto rfl rfl (by simp)
  | wake =>
      unfold CondSystem.wake
      split_ifs
      · exact hgoto rfl rfl (by simp)
      · exact hgoto rfl rfl (by simp)
  | reacquire _ _ hst =>
      exact hlock hst rfl (fun t ht => CondSystem.goto_phase_of_ne _ ht _) (by simp)
  | reacquireRaised hph hst => exact absurd rfl ((hk.reacquire hph hst).1 _)
  | @goOn u w gotit err b o sys hph _ hb hst =>
      have hcaller : b.caller = some u := by
        rcases hb with ⟨⟨expired, rfl⟩, -⟩ | rfl <;> rfl
      exact hlock hst hcaller (fun _ _ => rfl) (by simp [hph])
  | @cancelAgain u w gotit err o sys hph hst =>
      exact hlock hst rfl (fun _ _ => rfl) (by simp [CondSystem.cancelCall, hph])
  | retry _ hst =>
      exact hlock hst rfl (fun t ht => CondSystem.goto_phase_of_ne _ ht _) (by simp)
  | @finish u w gotit err hph hpc =>
      have hreg : Regains c.sys u w.mode := hk.at_phase hph
      have hone : OnlyHold c.sys.holds (some u) w.mode := by
        rcases hreg with ⟨-, seq, i, hwait⟩ | ⟨hone, -⟩
        · rw [hpc] at hwait
          cases hwait
        · exact hone
      have hphase : (c.finish rt u w gotit err).2.phase =
          Function.update c.phase u (w.next (CondSystem.ending rt gotit err)) := by
        unfold CondSystem.finish
        dsimp only
        split_ifs <;> rfl
      have hsys : (c.finish rt u w gotit err).2.sys = c.sys := by
        unfold CondSystem.finish
        dsimp only
        split_ifs <;> rfl
      refine h.other (u := u) (fun t ht => ?_) fun m timed hu => ?_
      · rw [hsys, hphase]
        exact ⟨System.untouched_refl .., Function.update_of_ne ht _ _⟩
      · rw [hphase, Function.update_self] at hu
        rw [hsys]
        generalize CondSystem.ending rt gotit err = e at hu
        cases e with
        | returned =>
            simp only [WaitCall.next] at hu
            split_ifs at hu
            cases hu
            exact hone
        | cancelledError | raised => cases hu

/-- Only a change changes the state. -/
theorem WaitMove.shared {P : CondSystem τ σ → CondAction τ σ → Prop}
    (hmv : WaitMove P rt cls pred c c') (hno : ∀ c t s, ¬ P c (.change t s)) :
    c'.shared = c.shared := by
  cases hmv with
  | change _ hP => exact absurd hP (hno _ _ _)
  | wake =>
      unfold CondSystem.wake
      split_ifs <;> rfl
  | finish =>
      unfold CondSystem.finish
      dsimp only
      split_ifs <;> rfl
  | _ => rfl

namespace CondSystem

theorem step_shared (hst : Step rt cls pred c a c') (ha : a.changer = none) :
    c'.shared = c.shared := by
  refine (hst.moves (P := fun _ b => b = a) rfl).invariant
    (I := fun d => d.shared = c.shared) (fun d d' hd hmv => ?_) rfl
  refine (hmv.shared fun _ t s hP => ?_).trans hd
  rw [← hP] at ha
  cases ha

/-- The state is changed under the write lock, and everybody releases what it holds. -/
def Protected (c : CondSystem τ σ) (a : CondAction τ σ) : Prop :=
  ByHolder c a ∧ ∀ t ∈ a.changer, 0 < c.sys.holds.writes (some t)

/-- A step through which `t` keeps its hold and leaves the state alone. -/
def StaysIn (t : τ) (c : CondSystem τ σ) (a : CondAction τ σ) : Prop :=
  Protected c a ∧ Holding c.sys.holds (some t) ∧ a.changer ≠ some t

instance (c : CondSystem τ σ) (a : CondAction τ σ) : Decidable (Protected c a) :=
  inferInstanceAs (Decidable (_ ∧ _))

instance (t : τ) (c : CondSystem τ σ) (a : CondAction τ σ) : Decidable (StaysIn t c a) :=
  inferInstanceAs (Decidable (_ ∧ _))

theorem HolderReachable.returned (h : HolderReachable rt cls pred c) : Returned c := by
  refine (Transition.Reachable.invariant (I := fun c => Keeping rt cls c ∧ Returned c) ?_ ?_ h).2
  · intro c hc
    rw [hc]
    exact ⟨.init .., fun _ _ _ ht => by cases ht⟩
  · rintro c a c' hI ⟨hP, hst⟩
    refine (hst.moves hP).invariant (I := fun c => Keeping rt cls c ∧ Returned c) ?_ hI
    rintro c c' ⟨hk, h⟩ hmv
    exact ⟨hmv.keeping hk, hmv.returned hk h⟩

/-- **Nobody else changes the state** while somebody holds the lock. -/
theorem stays_shared (h : HolderReachable rt cls pred c) (hstay : StaysIn t c a)
    (hst : Step rt cls pred c a c') : c'.shared = c.shared := by
  obtain ⟨⟨-, hwrite⟩, hhold, ht⟩ := hstay
  refine step_shared hst ?_
  cases hu : a.changer with
  | none => rfl
  | some u =>
      exfalso
      have hut : some t ≠ some u := by
        rintro heq
        exact ht (hu.trans heq.symm)
      obtain ⟨hr, hw⟩ := h.keeping.1.reach.exclusive (some u) (some t) (hwrite u hu) hut
      rcases hhold with hpos | hpos <;> omega

/-- A test that ends `wait_for`. -/
theorem test_ends {r expired : Bool} (htest : c.test pred t m timed expired = (.tested r, c₁))
    (hend : c₁.phase t = .out) :
    r = pred c.shared ∧ (r = false → timed = true ∧ expired = true) ∧ c₁ = c.goto t .out := by
  unfold test at htest
  split_ifs at htest with hpred hexp
  · obtain ⟨hr, rfl⟩ := Prod.mk.inj htest
    cases hr
    exact ⟨hpred.symm, by simp, rfl⟩
  · obtain ⟨hr, rfl⟩ := Prod.mk.inj htest
    cases hr
    exact ⟨by simpa using hpred, fun _ => by simpa using hexp, rfl⟩
  · obtain ⟨-, rfl⟩ := Prod.mk.inj htest
    rw [goto_phase_self] at hend
    cases hend

/-- **`wait_for` answers exactly**, while everybody releases only what it holds and changes
the state under the write lock.  It returns what its predicate is, and `False` only after
a `wait()` with a timeout; a caller that had to wait has the lock back, in the mode of the
proxy and once; and the answer stays right as long as the caller keeps a hold and leaves the
state alone. -/
theorem wait_for_answers {r expired : Bool} (h : HolderReachable rt cls pred c)
    (hst : c.step rt cls pred (.test t m timed expired) = some (.tested r, c₁))
    (hend : c₁.phase t = .out) :
    r = pred c.shared ∧ (r = false → timed = true ∧ c.phase t = .again m timed) ∧
      (c.phase t = .again m timed → OnlyHold c₁.sys.holds (some t) m) ∧
      ∀ as c', Transition.Run (Transition.restrict (StaysIn t) (Step rt cls pred)) c₁ as c' →
        pred c'.shared = r := by
  have h₁ : HolderReachable rt cls pred c₁ :=
    h.tail (a := .test t m timed expired) ⟨trivial, _, hst⟩
  have hstays : ∀ as c', Transition.Run (Transition.restrict (StaysIn t) (Step rt cls pred))
      c₁ as c' → c'.shared = c₁.shared := fun as c' hrun => by
    refine (hrun.invariant (I := fun d => HolderReachable rt cls pred d ∧
      d.shared = c₁.shared) ?_ ⟨h₁, rfl⟩).2
    rintro d a d' ⟨hd, hsame⟩ ⟨hstay, hst⟩
    exact ⟨hd.tail ⟨hstay.1.1, hst⟩, (stays_shared hd hstay hst).trans hsame⟩
  simp only [step] at hst
  split_ifs at hst with hph hfree
  · obtain ⟨hr, htimed, rfl⟩ := test_ends (Option.some.inj hst) hend
    refine ⟨hr, fun hr => ⟨(htimed hr).1, hph⟩, fun _ => h.returned t m timed hph, ?_⟩
    intro as c' hrun
    rw [hstays as c' hrun, hr]
    rfl
  · obtain ⟨hr, htimed, rfl⟩ := test_ends (Option.some.inj hst) hend
    refine ⟨hr, fun hr => ?_, fun hagain => absurd hagain hph, ?_⟩
    · cases (htimed hr).2
    · intro as c' hrun
      rw [hstays as c' hrun, hr]
      rfl

/-- A reader is back from a `wait()` with a timeout; a second reader enters, and a writer has
to wait. -/
theorem wait_for_answers_reader : ∃ c c₁ : CondSystem ℕ Bool,
    (c.phase 0 = .again .read true ∧ ∃ c', c'.sys.holds.reads (some 2) = 1 ∧
      Transition.Run (Transition.restrict (StaysIn 0) (Step .thread .read id)) c₁
        [.lock (.acquire 2 .read .forever false), .lock (.acquire 1 .write .forever false)] c') ∧
    true = id c.shared ∧ (true = false → true = true ∧ c.phase 0 = .again .read true) ∧
      (c.phase 0 = .again .read true → OnlyHold c₁.sys.holds (some 0) .read) ∧
      ∀ as c', Transition.Run (Transition.restrict (StaysIn 0) (Step .thread .read id)) c₁ as c' →
        id c'.shared = true := by
  have hrun : ((Transition.replay (next ByHolder .thread .read id)
      ({ shared := false } : CondSystem ℕ Bool)
      [.lock (.acquire 0 .read .forever false), .test 0 .read true false, .wait 0 .read true,
        .leave 0, .lock (.acquire 1 .write .forever false), .lock (.clear 1), .change 1 true,
        .notifyAll (some 1) .write, .lock (.release (some 1) .write), .wake 0, .reacquire 0,
        .finish 0]).bind fun c =>
        (c.step .thread .read id (.test 0 .read true true)).bind fun r =>
          (Transition.replay (next (StaysIn 0) .thread .read id) r.2
            [.lock (.acquire 2 .read .forever false),
              .lock (.acquire 1 .write .forever false)]).map fun d =>
            (c.phase 0, r.1, r.2.phase 0, d.sys.holds.reads (some 2))) =
      some (.again .read true, .tested true, .out, 1) := by
    decide
  obtain ⟨c, hc, hrun⟩ := Option.bind_eq_some_iff.1 hrun
  obtain ⟨⟨o, c₁⟩, h₁, hrun⟩ := Option.bind_eq_some_iff.1 hrun
  obtain ⟨d, hd, hval⟩ := Option.map_eq_some_iff.1 hrun
  simp only [Prod.mk.injEq] at hval
  obtain ⟨hagain, rfl, hend, hreads⟩ := hval
  exact ⟨c, c₁, ⟨hagain, d, hreads, run_of_replay hd⟩,
    wait_for_answers ⟨{ shared := false }, _, rfl, run_of_replay hc⟩ h₁ hend⟩

end CondSystem

end Rwlocker

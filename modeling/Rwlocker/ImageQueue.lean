/-
# The image processing queue

`examples/image_processing_queue.py`: threads that call `add_jobs` and `consume_job`, any
number of them and any number of times, on one condition over any lock class.

A thread is at a place in one of the two methods (`Stage`), and within `wait_for` where
`Condition` has it.  The waits have no timeout, and threads are not cancelled.  `print` and
`sleep` are left out.

`added` and `taken` record the jobs that went in and came out; no method reads them.
-/

import Mathlib.Data.Set.Card
import Rwlocker.Restore
import Rwlocker.Settling

namespace Rwlocker

open Rwlocker.System (HolderReachable)

/-! ### Who was signalled -/

namespace CondSystem

variable {τ σ : Type} {c c' : CondSystem τ σ}

/-- The calls of `wait()` that were signalled and have not returned. -/
def called (c : CondSystem τ σ) : Set ℕ :=
  {i | c.queue.state i = .woken ∧ ∃ t w, (c.phase t).wait? = some w ∧ w.call = i}

/-- Somebody sleeps, or is about to, and was not signalled. -/
def SomeoneSleeps (c : CondSystem τ σ) : Prop :=
  ∃ t w, (c.phase t).parked? = some w ∧ c.queue.state w.call = .pending

/-- Finitely many were called. -/
theorem finite_called (hc : Calls c) : c.called.Finite := by
  refine (Set.finite_lt_nat c.calls).subset ?_
  rintro i ⟨-, t, w, hw, rfl⟩
  exact hc.lt t w hw

/-- Whoever was called stays called. -/
theorem called_mono (hstate : ∀ i, c.queue.state i = .woken → c'.queue.state i = .woken)
    (hwait : ∀ t w, (c.phase t).wait? = some w → (c'.phase t).wait? = some w) :
    c.called ⊆ c'.called :=
  fun i ⟨hi, t, w, hw, hcall⟩ => ⟨hstate i hi, t, w, hwait t w hw, hcall⟩

/-- **A notify that leaves somebody asleep has signalled `n` calls.** -/
theorem called_notify {rt : Runtime} (hc : Calls c) (hl : Listed rt c) {n : ℕ}
    (hq : c'.queue = c.queue.notify n) (hph : c'.phase = c.phase) (hsleep : c'.SomeoneSleeps) :
    c.called.ncard + n ≤ c'.called.ncard := by
  have hstate : ∀ i, c'.queue.state i =
      if i ∈ c.queue.liveWaiters.take n then .woken else c.queue.state i := fun i => by
    rw [hq]
    exact WaitQueue.notify_state_eq hc.nodup n i
  have hlive : ∀ i, i ∈ c.queue.liveWaiters.take n →
      i ∈ c.queue.waiters ∧ c.queue.state i = .pending := by
    intro i hi
    obtain ⟨hmem, hpend⟩ := List.mem_filter.1 (List.mem_of_mem_take hi)
    refine ⟨hmem, ?_⟩
    cases hs : c.queue.state i <;> rw [hs] at hpend <;> first | rfl | cases hpend
  -- who still sleeps was not among the first `n`
  have hlen : n ≤ c.queue.liveWaiters.length := by
    obtain ⟨t, w, hw, hpend⟩ := hsleep
    rw [hph] at hw
    rw [hstate] at hpend
    split_ifs at hpend with hin
    by_contra hlt
    have hmem : w.call ∈ c.queue.liveWaiters :=
      List.mem_filter.2 ⟨hc.parked t w hw hpend, by rw [hpend]; rfl⟩
    rw [List.take_of_length_le (by omega)] at hin
    exact hin hmem
  have hnodup : (c.queue.liveWaiters.take n).Nodup :=
    (hc.nodup.sublist List.filter_sublist).sublist (List.take_sublist ..)
  have hsub : c.called ∪ ↑(c.queue.liveWaiters.take n).toFinset ⊆ c'.called := by
    rintro i (hi | hi)
    · refine called_mono (fun i hi => ?_) (fun t w hw => by rwa [hph]) hi
      rw [hstate]
      split_ifs
      · rfl
      · exact hi
    · have hi : i ∈ c.queue.liveWaiters.take n := by simpa using hi
      obtain ⟨t, w, hw, hcall⟩ := hl.listed i (hlive i hi).1
      exact ⟨by rw [hstate, if_pos hi], t, w, by rw [hph]; exact Phase.wait?_of_lists? hw, hcall⟩
  have hdisj : Disjoint c.called ↑(c.queue.liveWaiters.take n).toFinset := by
    refine Set.disjoint_left.2 fun i hi hi' => ?_
    have hpend := (hlive i (by simpa using hi')).2
    rw [hi.1] at hpend
    cases hpend
  have hfin : c'.called.Finite := by
    refine (Set.finite_lt_nat c.calls).subset ?_
    rintro i ⟨-, t, w, hw, rfl⟩
    exact hc.lt t w (by rwa [hph] at hw)
  have hcard := Set.ncard_le_ncard hsub hfin
  rw [Set.ncard_union_eq hdisj (finite_called hc) (Finset.finite_toSet _), Set.ncard_coe_finset,
    List.toFinset_card_of_nodup hnodup, List.length_take, Nat.min_eq_left hlen] at hcard
  exact hcard

end CondSystem

/-! ### The program -/

namespace ImageQueue

/-- Where a thread is. -/
inductive Stage (ι : Type)
  | outside
  /-- In `add_jobs`, from `with self._cond.write` to `extend`. -/
  | adding (jobs : List ι)
  /-- Before `notify(n)`. -/
  | notifying (n : ℕ)
  /-- In `consume_job`, from `with self._cond.write` to the end of `wait_for`. -/
  | consuming
  /-- Before `popleft`. -/
  | popping
  /-- Before the end of the block. -/
  | leaving
  deriving DecidableEq, Repr

/-- The predicate of `wait_for`. -/
def hasJobs {ι : Type} (jobs : List ι) : Bool := 0 < jobs.length

end ImageQueue

open ImageQueue (Stage hasJobs)

/-- A queue and its threads. -/
structure ImageQueue (τ ι : Type) where
  cond : CondSystem τ (List ι) := { shared := [] }
  stage : τ → Stage ι := fun _ => .outside
  added : List ι := []
  taken : List ι := []

namespace ImageQueue

/-- The steps: a thread calls a method, or goes on in it. -/
inductive Event (τ ι : Type)
  | addJobs (t : τ) (jobs : List ι)
  | consumeJob (t : τ)
  | go (t : τ)
  deriving DecidableEq, Repr

variable {τ ι : Type} [DecidableEq τ]

/-- `t` makes a step of the condition and goes on at the stage that `k` says. -/
def call (cls : LockClass) (q : ImageQueue τ ι) (t : τ) (a : CondAction τ (List ι))
    (k : CondOutcome → Stage ι) : Option (ImageQueue τ ι) :=
  (q.cond.step .thread cls hasJobs a).map fun r =>
    { q with cond := r.2, stage := Function.update q.stage t (k r.1) }

/-- `self._cond.write.__enter__()`. -/
def enter (cls : LockClass) (q : ImageQueue τ ι) (t : τ) (s : Stage ι) :
    Option (ImageQueue τ ι) :=
  q.call cls t (.lock (.acquire t .write .forever false)) fun
    | .lock (.raised _) => .outside
    | _ => s

/-- The next step of `self._cond.write.wait_for(...)`. -/
def waitFor (q : ImageQueue τ ι) (t : τ) : CondAction τ (List ι) :=
  match q.cond.phase t with
  | .out => .test t .write false false
  | .again m timed => .test t m timed false
  | .tested m timed => .wait t m timed
  | .queued _ => .leave t
  | .sleeping _ _ => .wake t
  | .woken _ _ _ => .reacquire t
  | .reacquiring _ _ _ => .finish t

/-- What follows a step of `wait_for`. -/
def afterWait : CondOutcome → Stage ι
  | .tested true => .popping
  | .raised _ => .leaving
  | _ => .consuming

/-- The next step of `t`, which a call of `acquire` in progress makes first. -/
def go (cls : LockClass) (q : ImageQueue τ ι) (t : τ) : Option (ImageQueue τ ι) :=
  match q.cond.sys.pc t, q.stage t with
  | .waiting _ _ _ _, s => q.call cls t (.lock (.resume t false)) fun _ => s
  | .clearing, s => q.call cls t (.lock (.clear t)) fun _ => s
  | .idle, .outside => none
  | .idle, .adding jobs =>
      { q with added := q.added ++ jobs }.call cls t (.change t (q.cond.shared ++ jobs)) fun _ =>
        .notifying jobs.length
  | .idle, .notifying n => q.call cls t (.notify (some t) .write n) fun _ => .leaving
  | .idle, .consuming => q.call cls t (q.waitFor t) afterWait
  | .idle, .popping =>
      match q.cond.shared with
      -- `except IndexError: return`
      | [] => some { q with stage := Function.update q.stage t .leaving }
      | job :: jobs =>
          { q with taken := q.taken ++ [job] }.call cls t (.change t jobs) fun _ => .leaving
  | .idle, .leaving => q.call cls t (.lock (.release (some t) .write)) fun _ => .outside

/-- One step, `none` when it is not enabled. -/
def step (cls : LockClass) (q : ImageQueue τ ι) : Event τ ι → Option (ImageQueue τ ι)
  | .addJobs t jobs =>
      match q.stage t with
      | .outside => q.enter cls t (.adding jobs)
      | _ => none
  | .consumeJob t =>
      match q.stage t with
      | .outside => q.enter cls t .consuming
      | _ => none
  | .go t => q.go cls t

/-- The step relation. -/
def Step (cls : LockClass) (q : ImageQueue τ ι) (e : Event τ ι) (q' : ImageQueue τ ι) : Prop :=
  q.step cls e = some q'

/-- The states that a queue can reach. -/
def Reachable (cls : LockClass) : ImageQueue τ ι → Prop :=
  Transition.Reachable (Step cls) fun q => q = {}

/-! ### Where a thread can be -/

/-- `t` is in the block, with nothing in progress. -/
def Inside (s : System τ) (t : τ) : Prop := OnlyHold s.holds (some t) .write ∧ s.pc t = .idle

/-- The calls of `wait()` that `wait_for` makes. -/
structure Untimed (w : WaitCall) : Prop where
  mode : w.mode = .write
  timed : w.timed = false
  inLoop : w.inLoop = true

/-- The places where a thread can be, and what is true there. -/
def Fits (c : CondSystem τ (List ι)) (t : τ) : Stage ι → Phase → Prop
  | .outside, .out => NoHold c.sys.holds (some t) ∧ c.sys.pc t = .idle
  | .adding _, .out | .consuming, .out => Regains c.sys t .write
  | .notifying _, .out | .leaving, .out => Inside c.sys t
  | .popping, .out => Inside c.sys t ∧ c.shared ≠ []
  | .consuming, .again m timed => Inside c.sys t ∧ m = .write ∧ timed = false
  | .consuming, .tested m timed =>
      Inside c.sys t ∧ m = .write ∧ timed = false ∧ c.shared = []
  | .consuming, .queued w => Inside c.sys t ∧ Untimed w
  | .consuming, .sleeping w i => Untimed w ∧ i = false
  | .consuming, .woken w gotit err => Untimed w ∧ gotit = true ∧ err = false
  | .consuming, .reacquiring w gotit err => Untimed w ∧ gotit = true ∧ err = false
  | _, _ => False

/-- Where `t` goes on, after a step of the lock or none. -/
structure Shift (cls : LockClass) (q : ImageQueue τ ι) (t : τ) (s : Stage ι) (p : Phase)
    (q' : ImageQueue τ ι) : Prop where
  stage : q'.stage = Function.update q.stage t s
  phase : q'.cond.phase = Function.update q.cond.phase t p
  sys : q'.cond.sys = q.cond.sys ∨ ∃ a o, a.caller = some t ∧
    q.cond.sys.step .thread cls a = some (o, q'.cond.sys)

/-- The jobs stay where they are. -/
structure SameJobs (q q' : ImageQueue τ ι) : Prop where
  shared : q'.cond.shared = q.cond.shared
  added : q'.added = q.added
  taken : q'.taken = q.taken

/-- What a step of `t` comes to. -/
inductive Does (cls : LockClass) (q : ImageQueue τ ι) (t : τ) (q' : ImageQueue τ ι) : Prop
  /-- `acquire` of a method. -/
  | enters {s : Stage ι} (hs : q.stage t = .outside) (hph : q.cond.phase t = .out)
      (hs' : (∃ jobs, s = .adding jobs) ∨ s = .consuming) (h : q.Shift cls t s .out q')
      (hq : q'.cond.queue = q.cond.queue) (hj : q.SameJobs q')
      (hreg : Regains q'.cond.sys t .write)
  /-- An `acquire` goes on. -/
  | locks (hs : (∃ jobs, q.stage t = .adding jobs) ∨ q.stage t = .consuming)
      (hph : q.cond.phase t = .out ∨ ∃ w, q.cond.phase t = .reacquiring w true false)
      {a : Action τ} {o : Outcome} (ha : a.goesOn = true)
      (hlock : q.cond.sys.step .thread cls a = some (o, q'.cond.sys))
      (h : q.Shift cls t (q.stage t) (q.cond.phase t) q')
      (hq : q'.cond.queue = q.cond.queue) (hj : q.SameJobs q')
      (hreg : Regains q'.cond.sys t .write)
  | adds {jobs : List ι} (hs : q.stage t = .adding jobs) (hph : q.cond.phase t = .out)
      (hin : Inside q.cond.sys t) (h : q.Shift cls t (.notifying jobs.length) .out q')
      (hsys : q'.cond.sys = q.cond.sys) (hq : q'.cond.queue = q.cond.queue)
      (hsh : q'.cond.shared = q.cond.shared ++ jobs) (hadd : q'.added = q.added ++ jobs)
      (htake : q'.taken = q.taken)
  | notifies {n : ℕ} (hs : q.stage t = .notifying n) (hph : q.cond.phase t = .out)
      (hin : Inside q.cond.sys t) (h : q.Shift cls t .leaving .out q')
      (hsys : q'.cond.sys = q.cond.sys) (hq : q'.cond.queue = q.cond.queue.notify n)
      (hj : q.SameJobs q')
  /-- `wait_for` ends. -/
  | finds (hs : q.stage t = .consuming)
      (hph : q.cond.phase t = .out ∨ q.cond.phase t = .again .write false)
      (hin : Inside q.cond.sys t) (h : q.Shift cls t .popping .out q')
      (hsys : q'.cond.sys = q.cond.sys) (hq : q'.cond.queue = q.cond.queue)
      (hj : q.SameJobs q') (hsome : q.cond.shared ≠ [])
  /-- `wait_for` has to wait. -/
  | misses (hs : q.stage t = .consuming)
      (hph : q.cond.phase t = .out ∨ q.cond.phase t = .again .write false)
      (hin : Inside q.cond.sys t) (h : q.Shift cls t .consuming (.tested .write false) q')
      (hsys : q'.cond.sys = q.cond.sys) (hq : q'.cond.queue = q.cond.queue)
      (hj : q.SameJobs q') (hnone : q.cond.shared = [])
  | queues {w : WaitCall} (hs : q.stage t = .consuming)
      (hph : q.cond.phase t = .tested .write false) (hin : Inside q.cond.sys t)
      (hw : Untimed w) (hcall : w.call = q.cond.calls)
      (h : q.Shift cls t .consuming (.queued w) q') (hsys : q'.cond.sys = q.cond.sys)
      (hq : q'.cond.queue = q.cond.queue.appendWaiter w.call) (hj : q.SameJobs q')
      (hnone : q.cond.shared = [])
  | sleeps {w : WaitCall} (hs : q.stage t = .consuming) (hph : q.cond.phase t = .queued w)
      (hw : Untimed w) (h : q.Shift cls t .consuming (.sleeping w false) q')
      (hq : q'.cond.queue = q.cond.queue) (hj : q.SameJobs q')
  | wakes {w : WaitCall} (hs : q.stage t = .consuming)
      (hph : q.cond.phase t = .sleeping w false) (hw : Untimed w)
      (hon : q.cond.queue.state w.call ≠ .pending)
      (h : q.Shift cls t .consuming (.woken w true false) q') (hsys : q'.cond.sys = q.cond.sys)
      (hq : q'.cond.queue = q.cond.queue) (hj : q.SameJobs q')
  | reacquires {w : WaitCall} (hs : q.stage t = .consuming)
      (hph : q.cond.phase t = .woken w true false) (hw : Untimed w)
      (h : q.Shift cls t .consuming (.reacquiring w true false) q')
      (hq : q'.cond.queue = q.cond.queue) (hj : q.SameJobs q')
  | returns {w : WaitCall} (hs : q.stage t = .consuming)
      (hph : q.cond.phase t = .reacquiring w true false) (hin : Inside q.cond.sys t)
      (h : q.Shift cls t .consuming (.again .write false) q') (hsys : q'.cond.sys = q.cond.sys)
      (hq : q'.cond.queue = q.cond.queue) (hj : q.SameJobs q')
  | pops {job : ι} {jobs : List ι} (hs : q.stage t = .popping) (hph : q.cond.phase t = .out)
      (hin : Inside q.cond.sys t) (h : q.Shift cls t .leaving .out q')
      (hsys : q'.cond.sys = q.cond.sys) (hq : q'.cond.queue = q.cond.queue)
      (hsh : q.cond.shared = job :: jobs) (hsh' : q'.cond.shared = jobs)
      (hadd : q'.added = q.added) (htake : q'.taken = q.taken ++ [job])
  | exits (hs : q.stage t = .leaving) (hph : q.cond.phase t = .out)
      (hin : Inside q.cond.sys t) (h : q.Shift cls t .outside .out q')
      (hq : q'.cond.queue = q.cond.queue) (hj : q.SameJobs q')
      (hno : NoHold q'.cond.sys.holds (some t) ∧ q'.cond.sys.pc t = .idle)

variable {cls : LockClass} {q q' : ImageQueue τ ι} {t u : τ} {s : Stage ι} {p : Phase}
  {e : Event τ ι}

/-- A step of the condition that `call` makes. -/
theorem call_eq_some {a : CondAction τ (List ι)} {k : CondOutcome → Stage ι}
    (h : q.call cls t a k = some q') : ∃ o c, q.cond.step .thread cls hasJobs a = some (o, c) ∧
      q' = { q with cond := c, stage := Function.update q.stage t (k o) } := by
  obtain ⟨⟨o, c⟩, hst, rfl⟩ := Option.map_eq_some_iff.1 h
  exact ⟨o, c, hst, rfl⟩

/-- A thread that is not cancelled goes on in `acquire`. -/
theorem resume_regains {sys sys' : System τ} {m : Mode} {o : Outcome}
    (h : HolderReachable .thread cls sys) (hreg : Regains sys t m)
    (hst : sys.step .thread cls (.resume t false) = some (o, sys')) :
    o ≠ .cancelled ∧ Regains sys' t m := by
  have ho : o ≠ .cancelled := by
    rintro rfl
    cases System.step_deed h.reachable.wellFormed hst rfl with
    | goesOn _ _ _ hloop => cases hloop
    | cancelled hrt => cases hrt
  exact ⟨ho, (System.step_resume_regains h hreg hst).1 ho⟩

omit [DecidableEq τ] in
/-- A caller that is back outside `acquire` has its hold again. -/
theorem idle_of_regains {sys : System τ} {m : Mode} (hreg : Regains sys t m)
    (hpc : sys.pc t = .idle) : OnlyHold sys.holds (some t) m := by
  rcases hreg with ⟨-, seq, i, hw⟩ | ⟨hone, -⟩
  · rw [hpc] at hw
    cases hw
  · exact hone

/-- A step leaves the lock state of the other threads. -/
theorem Shift.others (h : q.Shift cls t s p q') (hr : HolderReachable .thread cls q.cond.sys)
    (hu : u ≠ t) : Untouched u q.cond.sys q'.cond.sys := by
  rcases h.sys with heq | ⟨a, o, ha, hst⟩
  · rw [heq]
    exact System.untouched_refl ..
  · exact System.step_untouched hr.books hst (by simp [ha]) (by simpa [ha, eq_comm] using hu)

/-- A thread begins a method. -/
theorem enter_does (hk : Keeping .thread cls q.cond) (hs : q.stage t = .outside)
    (hf : Fits q.cond t (q.stage t) (q.cond.phase t))
    (hs' : (∃ jobs, s = .adding jobs) ∨ s = .consuming) (hst : q.enter cls t s = some q') :
    Does cls q t q' := by
  obtain ⟨o, c, hcond, rfl⟩ := call_eq_some hst
  rw [hs] at hf
  cases hph : q.cond.phase t with
  | out =>
      rw [hph] at hf
      simp only [CondSystem.step, Action.caller, Option.map_some, hph] at hcond
      obtain ⟨o', sys, hlock, h⟩ := CondSystem.onLock_eq_some hcond
      obtain ⟨rfl, rfl⟩ := Prod.mk.inj h
      obtain ⟨hraise, hreg⟩ := System.step_acquire_regains hk.reach hf.1 hlock
      refine .enters hs hph hs' ⟨?_, ?_, .inr ⟨_, _, rfl, hlock⟩⟩ rfl
        ⟨rfl, rfl, rfl⟩ hreg
      · cases o' with
        | raised e => exact absurd rfl (hraise e)
        | _ => rfl
      · exact (Function.update_eq_self_iff.2 hph.symm).symm
  | _ =>
      rw [hph] at hf
      exact hf.elim

/-- A thread in a call of the lock is in `acquire`. -/
theorem fits_busy (hk : Keeping .thread cls q.cond)
    (hf : Fits q.cond t (q.stage t) (q.cond.phase t)) (hpc : q.cond.sys.pc t ≠ .idle) :
    ((∃ jobs, q.stage t = .adding jobs) ∨ q.stage t = .consuming) ∧
      (q.cond.phase t = .out ∨ ∃ w, q.cond.phase t = .reacquiring w true false) ∧
      Regains q.cond.sys t .write := by
  have hkeep := hk.keeps t
  cases hs : q.stage t <;> cases hph : q.cond.phase t <;> rw [hs, hph] at hf <;> rw [hph] at hkeep
  case adding.out => exact ⟨.inl ⟨_, rfl⟩, .inl rfl, hf⟩
  case consuming.out => exact ⟨.inr rfl, .inl rfl, hf⟩
  case consuming.reacquiring w gotit err =>
    obtain ⟨hw, rfl, rfl⟩ := hf
    have hreg : Regains q.cond.sys t w.mode := hkeep
    exact ⟨.inr rfl, .inr ⟨w, rfl⟩, hw.mode ▸ hreg⟩
  case outside.out => exact absurd hf.2 hpc
  case notifying.out | leaving.out => exact absurd hf.2 hpc
  case popping.out => exact absurd hf.1.2 hpc
  case consuming.again | consuming.tested | consuming.queued => exact absurd hf.1.2 hpc
  case consuming.sleeping | consuming.woken => exact absurd hkeep.2 hpc
  all_goals exact hf.elim

/-- A parked call of the lock goes on. -/
theorem lock_does (hk : Keeping .thread cls q.cond)
    (hf : Fits q.cond t (q.stage t) (q.cond.phase t)) (hpc : q.cond.sys.pc t ≠ .idle)
    {a : Action τ} (ha : a = .resume t false ∨ a = .clear t)
    (hst : q.call cls t (.lock a) (fun _ => q.stage t) = some q') : Does cls q t q' := by
  obtain ⟨hs, hph, hreg⟩ := fits_busy hk hf hpc
  obtain ⟨o, c, hcond, rfl⟩ := call_eq_some hst
  have hcaller : a.caller = some t := by
    rcases ha with rfl | rfl <;> rfl
  have hregs : ∀ {o : Outcome} {sys : System τ}, q.cond.sys.step .thread cls a = some (o, sys) →
      o ≠ .cancelled ∧ Regains sys t .write := by
    intro o sys hlock
    rcases ha with rfl | rfl
    · exact resume_regains hk.reach hreg hlock
    · refine ⟨?_, System.step_regains hk.reach hreg (.inr rfl) hlock⟩
      rintro rfl
      cases System.step_deed hk.reach.reachable.wellFormed hlock rfl
  -- the step of the lock is all that happens
  obtain ⟨o', sys, hlock, rfl⟩ : ∃ o' sys, q.cond.sys.step .thread cls a = some (o', sys) ∧
      c = { q.cond with sys := sys } := by
    simp only [CondSystem.step, hcaller, Option.map_some, Option.bind_some] at hcond
    rcases hph with hph | ⟨w, hph⟩ <;> rw [hph] at hcond
    · obtain ⟨o', sys, hlock, h⟩ := CondSystem.onLock_eq_some hcond
      exact ⟨o', sys, hlock, (Prod.mk.inj h).2.symm⟩
    · rcases ha with rfl | rfl <;> simp only [CondSystem.goOn] at hcond
      · obtain ⟨o', sys, hlock, h⟩ := CondSystem.onLock_eq_some hcond
        split at h
        · exact absurd rfl (hregs hlock).1
        · exact ⟨_, sys, hlock, (Prod.mk.inj h).2.symm⟩
      · obtain ⟨o', sys, hlock, h⟩ := CondSystem.onLock_eq_some hcond
        exact ⟨o', sys, hlock, (Prod.mk.inj h).2.symm⟩
  have hgoes : a.goesOn = true := by
    rcases ha with rfl | rfl <;> rfl
  exact .locks hs hph hgoes hlock
    ⟨rfl, (Function.update_eq_self ..).symm, .inr ⟨_, _, hcaller, hlock⟩⟩ rfl ⟨rfl, rfl, rfl⟩
    (hregs hlock).2

/-- `wait_for` looks at the queue. -/
theorem test_does (hs : q.stage t = .consuming)
    (hph : q.cond.phase t = .out ∨ q.cond.phase t = .again .write false)
    (hin : Inside q.cond.sys t)
    (hst : q.call cls t (.test t .write false false) afterWait = some q') : Does cls q t q' := by
  obtain ⟨o, c, hcond, rfl⟩ := call_eq_some hst
  have htest : some (q.cond.test hasJobs t .write false false) = some (o, c) := by
    rw [← hcond]
    rcases hph with hph | hph <;> simp [CondSystem.step, CondSystem.free, hph, hin.2]
  have htest := Option.some.inj htest
  simp only [CondSystem.test, Bool.false_and, Bool.false_eq_true, if_false] at htest
  split_ifs at htest with hjobs
  · obtain ⟨rfl, rfl⟩ := Prod.mk.inj htest
    refine .finds hs hph hin ⟨rfl, rfl, .inl rfl⟩ rfl rfl
      ⟨rfl, rfl, rfl⟩ ?_
    rintro hnil
    simp [hasJobs, hnil] at hjobs
  · obtain ⟨rfl, rfl⟩ := Prod.mk.inj htest
    exact .misses hs hph hin ⟨by rfl, rfl, .inl rfl⟩ rfl rfl
      ⟨rfl, rfl, rfl⟩ (by simpa [hasJobs] using hjobs)

/-- **A step of `wait_for`.** -/
theorem waitFor_does (hk : Keeping .thread cls q.cond) (hs : q.stage t = .consuming)
    (hf : Fits q.cond t .consuming (q.cond.phase t)) (hpc : q.cond.sys.pc t = .idle)
    (hst : q.call cls t (q.waitFor t) afterWait = some q') : Does cls q t q' := by
  have hkeep := hk.keeps t
  cases hph : q.cond.phase t with
  | out =>
      rw [hph] at hf
      simp only [waitFor, hph] at hst
      exact test_does hs (.inl hph) ⟨idle_of_regains hf hpc, hpc⟩ hst
  | again m timed =>
      rw [hph] at hf
      obtain ⟨hin, rfl, rfl⟩ := hf
      simp only [waitFor, hph] at hst
      exact test_does hs (.inr hph) hin hst
  | tested m timed =>
      rw [hph] at hf
      obtain ⟨hin, rfl, rfl, hnone⟩ := hf
      simp only [waitFor, hph] at hst
      obtain ⟨o, c, hcond, rfl⟩ := call_eq_some hst
      simp only [CondSystem.step, hph, if_true, CondSystem.wait,
        hk.reach.checkWait_iff.2 hin.1] at hcond
      obtain ⟨rfl, rfl⟩ := Prod.mk.inj (Option.some.inj hcond)
      exact .queues hs hph hin ⟨rfl, rfl, rfl⟩ rfl ⟨rfl, rfl, .inl rfl⟩
        rfl rfl ⟨rfl, rfl, rfl⟩ hnone
  | queued w =>
      rw [hph] at hf
      simp only [waitFor, hph] at hst
      obtain ⟨o, c, hcond, rfl⟩ := call_eq_some hst
      simp only [CondSystem.step, hph] at hcond
      obtain ⟨o', sys, hlock, h⟩ := CondSystem.onLock_eq_some hcond
      obtain ⟨rfl, -⟩ := hk.leave hph hlock
      obtain ⟨rfl, rfl⟩ := Prod.mk.inj h
      exact .sleeps hs hph hf.2 ⟨rfl, rfl, .inr ⟨_, _, rfl, hlock⟩⟩ rfl
        ⟨rfl, rfl, rfl⟩
  | sleeping w i =>
      rw [hph] at hf
      obtain ⟨hw, rfl⟩ := hf
      simp only [waitFor, hph] at hst
      obtain ⟨o, c, hcond, rfl⟩ := call_eq_some hst
      simp only [CondSystem.step, hph, and_true] at hcond
      split_ifs at hcond with hon
      obtain ⟨rfl, rfl⟩ := Prod.mk.inj (Option.some.inj hcond)
      exact .wakes hs hph hw hon ⟨rfl, rfl, .inl rfl⟩ rfl rfl
        ⟨rfl, rfl, rfl⟩
  | woken w gotit err =>
      rw [hph] at hf
      obtain ⟨hw, rfl, rfl⟩ := hf
      simp only [waitFor, hph] at hst
      obtain ⟨o, c, hcond, rfl⟩ := call_eq_some hst
      simp only [CondSystem.step, hph] at hcond
      obtain ⟨o', sys, hlock, h⟩ := CondSystem.onLock_eq_some hcond
      split at h
      · exact absurd rfl ((hk.reacquire hph hlock).1 _)
      · obtain ⟨rfl, rfl⟩ := Prod.mk.inj h
        exact .reacquires hs hph hw
          ⟨rfl, rfl, .inr ⟨_, _, rfl, hlock⟩⟩ rfl ⟨rfl, rfl, rfl⟩
  | reacquiring w gotit err =>
      rw [hph] at hf hkeep
      obtain ⟨hw, rfl, rfl⟩ := hf
      have hreg : Regains q.cond.sys t w.mode := hkeep
      simp only [waitFor, hph] at hst
      obtain ⟨o, c, hcond, rfl⟩ := call_eq_some hst
      simp only [CondSystem.step, hph, hpc, if_true] at hcond
      obtain ⟨rfl, rfl⟩ := Prod.mk.inj (Option.some.inj hcond)
      refine .returns hs hph ⟨hw.mode ▸ idle_of_regains hreg hpc, hpc⟩
        ⟨rfl, ?_, .inl rfl⟩ rfl rfl ⟨rfl, rfl, rfl⟩
      simp [CondSystem.endWait, CondSystem.goto, CondSystem.ending,
        WaitCall.next, hw.mode, hw.timed, hw.inLoop]

omit [DecidableEq τ] in
/-- Outside `wait_for`. -/
theorem fits_out {c : CondSystem τ (List ι)} (hs : s ≠ .consuming) (hf : Fits c t s p) :
    p = .out ∧ Fits c t s .out := by
  cases p with
  | out => exact ⟨rfl, hf⟩
  | _ =>
      cases s with
      | consuming => exact absurd rfl hs
      | _ => exact hf.elim

/-- `self._queue.extend(jobs)` -/
theorem add_does {jobs : List ι} (hs : q.stage t = .adding jobs) (hph : q.cond.phase t = .out)
    (hin : Inside q.cond.sys t)
    (hst : { q with added := q.added ++ jobs }.call cls t (.change t (q.cond.shared ++ jobs))
      (fun _ => .notifying jobs.length) = some q') : Does cls q t q' := by
  obtain ⟨o, c, hcond, rfl⟩ := call_eq_some hst
  simp only [CondSystem.step, CondSystem.free, hph, hin.2, and_self, if_true] at hcond
  obtain ⟨rfl, rfl⟩ := Prod.mk.inj (Option.some.inj hcond)
  exact .adds hs hph hin
    ⟨rfl, (Function.update_eq_self_iff.2 hph.symm).symm, .inl rfl⟩
    rfl rfl rfl rfl rfl

/-- `self._cond.write.notify(n=len(jobs))` -/
theorem notify_does (hk : Keeping .thread cls q.cond) {n : ℕ} (hs : q.stage t = .notifying n)
    (hph : q.cond.phase t = .out) (hin : Inside q.cond.sys t)
    (hst : q.call cls t (.notify (some t) .write n) (fun _ => .leaving) = some q') :
    Does cls q t q' := by
  obtain ⟨o, c, hcond, rfl⟩ := call_eq_some hst
  have hown : cls.isOwned q.cond.sys.lock (some t) .write = true :=
    (LockClass.checkWait_eq_ok.1 (hk.reach.checkWait_iff.2 hin.1)).1
  simp only [CondSystem.step, CondSystem.canCall, CondSystem.free, hph, hin.2, and_self,
    decide_true, if_true, CondSystem.notify, hown] at hcond
  obtain ⟨rfl, rfl⟩ := Prod.mk.inj (Option.some.inj hcond)
  exact .notifies hs hph hin
    ⟨rfl, (Function.update_eq_self_iff.2 hph.symm).symm, .inl rfl⟩
    rfl rfl ⟨rfl, rfl, rfl⟩

/-- `self._queue.popleft()` does not raise. -/
theorem pop_does (hs : q.stage t = .popping) (hph : q.cond.phase t = .out)
    (hin : Inside q.cond.sys t) (hsome : q.cond.shared ≠ [])
    (hst : (match q.cond.shared with
      | [] => some { q with stage := Function.update q.stage t .leaving }
      | job :: jobs =>
          { q with taken := q.taken ++ [job] }.call cls t (.change t jobs) fun _ => .leaving) =
        some q') : Does cls q t q' := by
  cases hsh : q.cond.shared with
  | nil => exact absurd hsh hsome
  | cons job jobs =>
      rw [hsh] at hst
      obtain ⟨o, c, hcond, rfl⟩ := call_eq_some hst
      simp only [CondSystem.step, CondSystem.free, hph, hin.2, and_self, if_true] at hcond
      obtain ⟨rfl, rfl⟩ := Prod.mk.inj (Option.some.inj hcond)
      exact .pops hs hph hin
        ⟨rfl, (Function.update_eq_self_iff.2 hph.symm).symm, .inl rfl⟩
        rfl rfl hsh rfl rfl rfl

/-- `self._cond.write.__exit__(...)` -/
theorem exit_does (hk : Keeping .thread cls q.cond) (hs : q.stage t = .leaving)
    (hph : q.cond.phase t = .out) (hin : Inside q.cond.sys t)
    (hst : q.call cls t (.lock (.release (some t) .write)) (fun _ => .outside) = some q') :
    Does cls q t q' := by
  obtain ⟨o, c, hcond, rfl⟩ := call_eq_some hst
  simp only [CondSystem.step, Action.caller, Option.map_some, hph] at hcond
  obtain ⟨o', sys, hlock, h⟩ := CondSystem.onLock_eq_some hcond
  obtain ⟨rfl, rfl⟩ := Prod.mk.inj h
  exact .exits hs hph hin
    ⟨rfl, (Function.update_eq_self_iff.2 hph.symm).symm,
      .inr ⟨_, _, rfl, hlock⟩⟩
    rfl ⟨rfl, rfl, rfl⟩ (System.step_release_only hk.reach hin.1 hlock).2

/-- A thread takes the next step of its method. -/
theorem go_does (hk : Keeping .thread cls q.cond)
    (hf : Fits q.cond t (q.stage t) (q.cond.phase t)) (hst : q.go cls t = some q') :
    Does cls q t q' := by
  unfold go at hst
  cases hpc : q.cond.sys.pc t with
  | waiting m seq timed i =>
      simp only [hpc] at hst
      exact lock_does hk hf (by simp [hpc]) (.inl rfl) hst
  | clearing =>
      simp only [hpc] at hst
      exact lock_does hk hf (by simp [hpc]) (.inr rfl) hst
  | idle =>
      cases hs : q.stage t with
      | consuming =>
          simp only [hpc, hs] at hst
          exact waitFor_does hk hs (hs ▸ hf) hpc hst
      | outside =>
          simp only [hpc, hs] at hst
          cases hst
      | adding jobs =>
          simp only [hpc, hs] at hst
          rw [hs] at hf
          obtain ⟨hph, hreg⟩ := fits_out (by simp) hf
          exact add_does hs hph ⟨idle_of_regains hreg hpc, hpc⟩ hst
      | notifying n =>
          simp only [hpc, hs] at hst
          rw [hs] at hf
          obtain ⟨hph, hin⟩ := fits_out (by simp) hf
          exact notify_does hk hs hph hin hst
      | popping =>
          simp only [hpc, hs] at hst
          rw [hs] at hf
          obtain ⟨hph, hin, hsome⟩ := fits_out (by simp) hf
          exact pop_does hs hph hin hsome hst
      | leaving =>
          simp only [hpc, hs] at hst
          rw [hs] at hf
          obtain ⟨hph, hin⟩ := fits_out (by simp) hf
          exact exit_does hk hs hph hin hst

/-- Every step is one of these. -/
theorem step_does (hk : Keeping .thread cls q.cond)
    (hf : ∀ t, Fits q.cond t (q.stage t) (q.cond.phase t)) (hst : q.step cls e = some q') :
    ∃ t, Does cls q t q' := by
  cases e with
  | addJobs t jobs =>
      simp only [step] at hst
      split at hst
      · exact ⟨t, enter_does hk (by assumption) (hf t) (.inl ⟨_, rfl⟩) hst⟩
      · cases hst
  | consumeJob t =>
      simp only [step] at hst
      split at hst
      · exact ⟨t, enter_does hk (by assumption) (hf t) (.inr rfl) hst⟩
      · cases hst
  | go t => exact ⟨t, go_does hk (hf t) hst⟩

/-- What is true in every state. -/
structure Sound (cls : LockClass) (q : ImageQueue τ ι) : Prop where
  reach : CondSystem.HolderReachable .thread cls hasJobs q.cond
  fits : ∀ t, Fits q.cond t (q.stage t) (q.cond.phase t)

/-- The threads release what they hold. -/
theorem Sound.reach_step (h : Sound cls q) (hst : q.step cls e = some q') :
    CondSystem.HolderReachable .thread cls hasJobs q'.cond := by
  have hcall : ∀ {q₀ : ImageQueue τ ι} {t : τ} {a : CondAction τ (List ι)}
      {k : CondOutcome → Stage ι}, q₀.call cls t a k = some q' → q₀.cond = q.cond →
      CondSystem.ByHolder q.cond a → CondSystem.HolderReachable .thread cls hasJobs q'.cond := by
    intro q₀ t a k hst hq₀ hby
    obtain ⟨o, c, hcond, rfl⟩ := call_eq_some hst
    rw [hq₀] at hcond
    exact h.reach.tail ⟨hby, o, hcond⟩
  cases e with
  | addJobs t jobs =>
      simp only [step] at hst
      split at hst
      · exact hcall hst rfl ⟨by simp [Action.caller], trivial⟩
      · cases hst
  | consumeJob t =>
      simp only [step] at hst
      split at hst
      · exact hcall hst rfl ⟨by simp [Action.caller], trivial⟩
      · cases hst
  | go t =>
      simp only [step, go] at hst
      split at hst
      · exact hcall hst rfl ⟨by simp [Action.caller], trivial⟩
      · exact hcall hst rfl ⟨by simp [Action.caller], trivial⟩
      · cases hst
      · exact hcall hst rfl trivial
      · exact hcall hst rfl trivial
      · refine hcall hst rfl ?_
        unfold waitFor
        split <;> trivial
      · split at hst
        · cases hst
          exact h.reach
        · exact hcall hst rfl trivial
      · rename_i hs
        have hf := h.fits t
        rw [hs] at hf
        obtain ⟨-, hin, -⟩ := fits_out (by simp) hf
        have hw : q.cond.sys.holds.writes (some t) = 1 := hin.2
        exact hcall hst rfl ⟨by simp [Action.caller], .inl (by omega)⟩

/-- Nobody else is inside with a thread that is. -/
theorem Sound.not_inside (h : Sound cls q) (ht : Inside q.cond.sys t) (hu : u ≠ t) :
    ¬ Inside q.cond.sys u := by
  rintro ⟨⟨-, hw⟩, -⟩
  have hone : q.cond.sys.holds.writes (some t) = 1 := ht.1.2
  have hfree := h.reach.keeping.1.reach.exclusive (some t) (some u) (by omega) (by simpa using hu)
  have : q.cond.sys.holds.writes (some u) = 0 := hfree.2
  omega

/-- Whether a thread is inside depends on what it holds. -/
theorem inside_untouched {sys sys' : System τ} (hun : Untouched u sys sys') :
    Inside sys' u ↔ Inside sys u := by
  simp only [Inside, OnlyHold, hun.reads, hun.writes, hun.pc]

/-- Who is left alone stays where it is, and nobody takes its jobs away. -/
theorem Fits.others {c c' : CondSystem τ (List ι)} (hf : Fits c u s p)
    (hun : Untouched u c.sys c'.sys) (hsh : Inside c.sys u → c'.shared = c.shared) :
    Fits c' u s p := by
  have hin := inside_untouched hun
  have hno : NoHold c'.sys.holds (some u) ↔ NoHold c.sys.holds (some u) := by
    simp only [NoHold, hun.reads, hun.writes]
  have hreg : Regains c.sys u .write → Regains c'.sys u .write := fun h =>
    Keeps.untouched (p := .reacquiring ⟨0, .write, false, true⟩ true false) h hun
  cases s <;> cases p <;> simp only [Fits, hin, hno, hun.pc] at hf ⊢
  case adding.out | consuming.out => exact hreg hf
  case popping.out => exact ⟨hf.1, hsh hf.1 ▸ hf.2⟩
  case consuming.tested => exact ⟨hf.1, hf.2.1, hf.2.2.1, hsh hf.1 ▸ hf.2.2.2⟩
  all_goals exact hf

/-- The other threads stay where they are. -/
theorem Shift.at_other (h : q.Shift cls t s p q') (hu : u ≠ t) :
    q'.stage u = q.stage u ∧ q'.cond.phase u = q.cond.phase u := by
  rw [h.stage, h.phase]
  exact ⟨Function.update_of_ne hu _ _, Function.update_of_ne hu _ _⟩

/-- Where the stepping thread comes out. -/
theorem Shift.at_self (h : q.Shift cls t s p q') : q'.stage t = s ∧ q'.cond.phase t = p := by
  rw [h.stage, h.phase]
  exact ⟨Function.update_self .., Function.update_self ..⟩

/-- Everybody else stays where it is. -/
theorem Shift.fits (hs : Sound cls q) (h : q.Shift cls t s p q')
    (hsh : q'.cond.shared = q.cond.shared ∨ Inside q.cond.sys t) (ht : Fits q'.cond t s p) (u : τ) :
    Fits q'.cond u (q'.stage u) (q'.cond.phase u) := by
  by_cases hut : u = t
  · subst hut
    rw [h.at_self.1, h.at_self.2]
    exact ht
  · rw [(h.at_other hut).1, (h.at_other hut).2]
    refine (hs.fits u).others (h.others hs.reach.keeping.1.reach hut) fun hin => ?_
    rcases hsh with hsh | hin'
    · exact hsh
    · exact absurd hin (hs.not_inside hin' hut)

/-- **A step keeps every thread at a place.** -/
theorem Does.fits (hd : Does cls q t q') (hs : Sound cls q) (u : τ) :
    Fits q'.cond u (q'.stage u) (q'.cond.phase u) := by
  cases hd with
  | enters _ _ hs' h _ hj hreg =>
      refine h.fits hs (.inl hj.shared) ?_ u
      rcases hs' with ⟨jobs, rfl⟩ | rfl
      · exact hreg
      · exact hreg
  | locks hst hph _ _ h _ hj hreg =>
      refine h.fits hs (.inl hj.shared) ?_ u
      have hf := hs.fits t
      rcases hph with hph | ⟨w, hph⟩ <;> rw [hph] at hf ⊢ <;>
        rcases hst with ⟨jobs, hst⟩ | hst <;> rw [hst] at hf ⊢
      · exact hreg
      · exact hreg
      · exact hf
      · exact hf
  | adds _ _ hin h hsys | notifies _ _ hin h hsys | pops _ _ hin h hsys =>
      have hin' : Inside q'.cond.sys t := hsys ▸ hin
      exact h.fits hs (.inr hin) hin' u
  | finds _ _ hin h hsys _ hj hsome =>
      exact h.fits hs (.inr hin) ⟨hsys ▸ hin, hj.shared ▸ hsome⟩ u
  | misses _ _ hin h hsys _ hj hnone =>
      exact h.fits hs (.inr hin) ⟨hsys ▸ hin, rfl, rfl, hj.shared ▸ hnone⟩ u
  | queues _ _ hin hw _ h hsys => exact h.fits hs (.inr hin) ⟨hsys ▸ hin, hw⟩ u
  | sleeps _ _ hw h _ hj => exact h.fits hs (.inl hj.shared) ⟨hw, rfl⟩ u
  | wakes _ _ hw _ h _ _ hj => exact h.fits hs (.inl hj.shared) ⟨hw, rfl, rfl⟩ u
  | reacquires _ _ hw h _ hj => exact h.fits hs (.inl hj.shared) ⟨hw, rfl, rfl⟩ u
  | returns _ _ hin h hsys => exact h.fits hs (.inr hin) ⟨hsys ▸ hin, rfl, rfl⟩ u
  | exits _ _ hin h _ _ hno => exact h.fits hs (.inr hin) hno u

/-- A step keeps every thread where its hold says it is. -/
theorem Sound.step (h : Sound cls q) (hst : q.step cls e = some q') : Sound cls q' := by
  obtain ⟨t, hd⟩ := step_does h.reach.keeping.1 h.fits hst
  exact ⟨h.reach_step hst, hd.fits h⟩

/-! ### No job is stranded -/

/-- The jobs that `t`, inside, will announce or take. -/
def credit (q : ImageQueue τ ι) (t : τ) : ℕ :=
  match q.stage t, q.cond.phase t with
  | .notifying n, _ => n
  | .popping, _ => 1
  | .consuming, .again _ _ => 1
  | _, _ => 0

/-- While somebody sleeps there are no more jobs than signalled calls, but for those that a
thread inside will announce or take. -/
def Covered (q : ImageQueue τ ι) : Prop :=
  q.cond.SomeoneSleeps → ∃ t, q.cond.shared.length ≤ q.cond.called.ncard + q.credit t

/-- Whoever will announce or take jobs is inside. -/
theorem Sound.inside_of_credit (h : Sound cls q) (ht : 0 < q.credit t) :
    Inside q.cond.sys t := by
  have hf := h.fits t
  unfold credit at ht
  split at ht
  · rename_i hs
    rw [hs] at hf
    exact (fits_out (by simp) hf).2
  · rename_i hs
    rw [hs] at hf
    exact (fits_out (by simp) hf).2.1
  · rename_i hs hph
    rw [hs, hph] at hf
    exact hf.1
  · cases ht

/-- The other threads will announce and take what they would have. -/
theorem Shift.credit (h : q.Shift cls t s p q') (hu : u ≠ t) : q'.credit u = q.credit u := by
  unfold ImageQueue.credit
  rw [(h.at_other hu).1, (h.at_other hu).2]

/-- A thread inside answers for all jobs that were not announced. -/
theorem Covered.mine (hc : Covered q) (hs : Sound cls q) (hin : Inside q.cond.sys t)
    (hsleep : q.cond.SomeoneSleeps) :
    q.cond.shared.length ≤ q.cond.called.ncard + q.credit t := by
  obtain ⟨u, hu⟩ := hc hsleep
  by_cases hut : u = t
  · exact hut ▸ hu
  · have hzero : q.credit u = 0 := by
      by_contra hne
      exact hs.not_inside hin hut (hs.inside_of_credit (Nat.pos_of_ne_zero hne))
    omega

/-- A step that signals nobody leaves nobody asleep who was not. -/
theorem Shift.sleeps (h : q.Shift cls t s p q')
    (hpend : ∀ i, q'.cond.queue.state i = .pending → q.cond.queue.state i = .pending)
    (hpark : ∀ w, p.parked? = some w → (q.cond.phase t).parked? = some w)
    (hsleep : q'.cond.SomeoneSleeps) : q.cond.SomeoneSleeps := by
  obtain ⟨u, w, hw, hi⟩ := hsleep
  refine ⟨u, w, ?_, hpend _ hi⟩
  by_cases hut : u = t
  · rw [hut, h.at_self.2] at hw
    exact hut ▸ hpark w hw
  · rwa [(h.at_other hut).2] at hw

/-- A step within a call of `wait()` leaves the signalled calls signalled. -/
theorem Shift.called (h : q.Shift cls t s p q') (hq : q'.cond.queue = q.cond.queue)
    (hwait : p.wait? = (q.cond.phase t).wait?) : q.cond.called ⊆ q'.cond.called := by
  refine CondSystem.called_mono (fun i hi => by rwa [hq]) fun u w hw => ?_
  by_cases hut : u = t
  · rw [hut, h.at_self.2, hwait]
    exact hut ▸ hw
  · rwa [(h.at_other hut).2]

/-- A step outside, or on the way out. -/
theorem Covered.of_outside (hc : Covered q) (h : q.Shift cls t s p q') (hzero : q.credit t = 0)
    (hq : q'.cond.queue = q.cond.queue) (hj : q.SameJobs q')
    (hwait : p.wait? = (q.cond.phase t).wait?)
    (hpark : ∀ w, p.parked? = some w → (q.cond.phase t).parked? = some w)
    (hfin : q'.cond.called.Finite) : Covered q' := by
  intro hsleep
  obtain ⟨u, hu⟩ := hc (h.sleeps (fun i hi => by rwa [hq] at hi) hpark hsleep)
  have hcard := Set.ncard_le_ncard (h.called hq hwait) hfin
  refine ⟨u, ?_⟩
  rw [hj.shared]
  by_cases hut : u = t
  · subst hut
    omega
  · rw [h.credit hut]
    omega

/-- A step of the thread inside. -/
theorem Covered.of_inside (hc : Covered q) (hs : Sound cls q) (hin : Inside q.cond.sys t)
    (hsleep : q'.cond.SomeoneSleeps → q.cond.SomeoneSleeps)
    (hle : q'.cond.SomeoneSleeps →
      q'.cond.shared.length + (q.cond.called.ncard + q.credit t) ≤
        q.cond.shared.length + (q'.cond.called.ncard + q'.credit t)) : Covered q' := by
  intro h
  have hmine := hc.mine hs hin (hsleep h)
  have := hle h
  exact ⟨t, by omega⟩

/-- **A step keeps the jobs covered.** -/
theorem Does.covered (hd : Does cls q t q') (hs : Sound cls q) (hs' : Sound cls q')
    (hc : Covered q) : Covered q' := by
  obtain ⟨-, hcalls, hlist⟩ := hs.reach.keeping
  have hfin : q'.cond.called.Finite := CondSystem.finite_called hs'.reach.keeping.2.1
  have hpend : q'.cond.queue = q.cond.queue → ∀ i, q'.cond.queue.state i = .pending →
      q.cond.queue.state i = .pending := fun hq i hi => by rwa [hq] at hi
  cases hd with
  | enters hst hph hs' h hq hj =>
      exact hc.of_outside h (by simp [credit, hst]) hq hj (by rw [hph]) (by simp [hph]) hfin
  | locks hst hph _ _ h hq hj =>
      refine hc.of_outside h ?_ hq hj rfl (fun _ => id) hfin
      rcases hst with ⟨jobs, hst⟩ | hst <;> rcases hph with hph | ⟨w, hph⟩ <;>
        simp [credit, hst, hph]
  | sleeps hst hph _ h hq hj =>
      exact hc.of_outside h (by simp [credit, hst, hph]) hq hj (by rw [hph]; rfl)
        (by simp [hph, Phase.parked?]) hfin
  | wakes hst hph _ _ h _ hq hj =>
      exact hc.of_outside h (by simp [credit, hst, hph]) hq hj (by rw [hph]; rfl)
        (by simp [Phase.parked?]) hfin
  | reacquires hst hph _ h hq hj =>
      exact hc.of_outside h (by simp [credit, hst, hph]) hq hj (by rw [hph]; rfl)
        (by simp [Phase.parked?]) hfin
  | exits hst hph _ h hq hj =>
      exact hc.of_outside h (by simp [credit, hst]) hq hj (by rw [hph]) (by simp [hph]) hfin
  | misses _ _ _ _ _ _ hj hnone | queues _ _ _ _ _ _ _ _ hj hnone =>
      intro _
      exact ⟨t, by rw [hj.shared, hnone]; exact Nat.zero_le _⟩
  | adds hst hph hin h _ hq hsh =>
      refine hc.of_inside hs hin (h.sleeps (hpend hq) (by simp [hph])) fun _ => ?_
      have hcard := Set.ncard_le_ncard (h.called hq (by rw [hph])) hfin
      simp only [credit, hst, h.at_self.1, hph, hsh, List.length_append]
      omega
  | notifies hst hph hin h _ hq hj =>
      have hphase : q'.cond.phase = q.cond.phase := by
        rw [h.phase, ← hph, Function.update_eq_self]
      refine hc.of_inside hs hin (h.sleeps (fun i hi => ?_) (by simp [hph])) fun hsleep => ?_
      · rw [hq] at hi
        rcases q.cond.queue.notify_state _ i with heq | ⟨hp, -, -⟩
        · rwa [heq] at hi
        · exact hp
      · have hcard := CondSystem.called_notify hcalls hlist hq hphase hsleep
        simp only [credit, hst, h.at_self.1, hj.shared]
        omega
  | finds hst hph hin h _ hq hj =>
      refine hc.of_inside hs hin (h.sleeps (hpend hq) (by simp [Phase.parked?])) fun _ => ?_
      have hwait : (q.cond.phase t).wait? = none := by
        rcases hph with hph | hph <;> rw [hph] <;> rfl
      have hcard := Set.ncard_le_ncard (h.called hq hwait.symm) hfin
      have hone : q.credit t ≤ 1 := by
        cases hp : q.cond.phase t <;> simp [credit, hst, hp]
      have hone' : q'.credit t = 1 := by
        simp only [credit, h.at_self.1]
      rw [hj.shared]
      omega
  | @returns w hst hph hin h _ hq hj =>
      refine hc.of_inside hs hin (h.sleeps (hpend hq) (by simp [Phase.parked?])) fun _ => ?_
      have hsub : q.cond.called ⊆ insert w.call q'.cond.called := by
        rintro i ⟨hi, u, w', hw', rfl⟩
        by_cases hut : u = t
        · rw [hut, hph] at hw'
          cases hw'
          exact .inl rfl
        · exact .inr ⟨by rwa [hq], u, w', by rwa [(h.at_other hut).2], rfl⟩
      have hcard := (Set.ncard_le_ncard hsub (hfin.insert _)).trans (Set.ncard_insert_le ..)
      simp only [credit, hst, hph, h.at_self.1, h.at_self.2, hj.shared]
      omega
  | pops hst hph hin h _ hq hsh hsh' =>
      refine hc.of_inside hs hin (h.sleeps (hpend hq) (by simp [hph])) fun _ => ?_
      have hcard := Set.ncard_le_ncard (h.called hq (by rw [hph])) hfin
      simp only [credit, hst, h.at_self.1, hsh, hsh', List.length_cons]
      omega

/-- No step loses a job or takes one twice. -/
theorem Does.conserves (hd : Does cls q t q')
    (h : q.added = q.taken ++ q.cond.shared) : q'.added = q'.taken ++ q'.cond.shared := by
  cases hd with
  | adds _ _ _ _ _ _ hsh hadd htake => rw [hadd, htake, hsh, h, List.append_assoc]
  | pops _ _ _ _ _ _ hsh hsh' hadd htake => rw [hadd, htake, hsh', h, hsh]; simp
  | enters _ _ _ _ _ hj | locks _ _ _ _ _ _ hj | notifies _ _ _ _ _ _ hj
  | finds _ _ _ _ _ _ hj | misses _ _ _ _ _ _ hj | queues _ _ _ _ _ _ _ _ hj
  | sleeps _ _ _ _ _ hj | wakes _ _ _ _ _ _ _ hj | reacquires _ _ _ _ _ hj
  | returns _ _ _ _ _ _ hj | exits _ _ _ _ _ hj => rw [hj.added, hj.taken, hj.shared, h]

/-- What every reachable state keeps. -/
theorem Reachable.kept (h : Reachable cls q) :
    Sound cls q ∧ Covered q ∧ q.added = q.taken ++ q.cond.shared := by
  refine Transition.Reachable.invariant
    (I := fun q => Sound cls q ∧ Covered q ∧ q.added = q.taken ++ q.cond.shared) ?_ ?_ h
  · rintro q rfl
    refine ⟨⟨.start rfl, fun t => ⟨⟨rfl, rfl⟩, rfl⟩⟩, ?_, rfl⟩
    rintro ⟨t, w, hw, -⟩
    cases hw
  · rintro q e q' ⟨hs, hc, hjobs⟩ hst
    obtain ⟨t, hd⟩ := step_does hs.reach.keeping.1 hs.fits hst
    have hs' := hs.step hst
    exact ⟨hs', hd.covered hs hs' hc, hd.conserves hjobs⟩

/-- **No job is lost, and none is stranded.**  However producers and consumers are scheduled,
jobs come out in the order in which they went in, each one once, and whoever `wait_for` lets
through finds a job.  And waking as many consumers as there are jobs is enough: while nobody
is in the block and some consumer sleeps, no more jobs are left than consumers on their way. -/
theorem no_job_stranded (h : Reachable cls q) :
    q.added = q.taken ++ q.cond.shared ∧
      (∀ t, q.stage t = .popping → q.cond.shared ≠ []) ∧
      ((∀ t, ¬ Inside q.cond.sys t) → q.cond.SomeoneSleeps →
        q.cond.shared.length ≤ q.cond.called.ncard) := by
  obtain ⟨hs, hc, hjobs⟩ := h.kept
  refine ⟨hjobs, fun t ht => ?_, fun hout hsleep => ?_⟩
  · have hf := hs.fits t
    rw [ht] at hf
    exact (fits_out (by simp) hf).2.2
  · obtain ⟨t, ht⟩ := hc hsleep
    have hzero : q.credit t = 0 := by
      by_contra hne
      exact hout t (hs.inside_of_credit (Nat.pos_of_ne_zero hne))
    omega

/-- A list of events that replays from the start is a run. -/
theorem reachable_of_replay {es : List (Event τ ι)}
    (h : Transition.replay (step cls) ({} : ImageQueue τ ι) es = some q) : Reachable cls q :=
  ⟨_, _, rfl, Transition.Run.of_replay (fun _ _ _ hst => hst) h⟩

/-- Two consumers sleep when one job comes in, and one of them is woken. -/
theorem no_job_stranded_targeted : ∃ q : ImageQueue ℕ ℕ,
    (q.cond.SomeoneSleeps ∧ q.cond.shared = [7]) ∧
    q.added = q.taken ++ q.cond.shared ∧
      (∀ t, q.stage t = .popping → q.cond.shared ≠ []) ∧
      ((∀ t, ¬ Inside q.cond.sys t) → q.cond.SomeoneSleeps →
        q.cond.shared.length ≤ q.cond.called.ncard) := by
  have hq := reachable_of_replay (show Transition.replay (step .fair) ({} : ImageQueue ℕ ℕ)
    (.consumeJob 0 :: .replicate 4 (.go 0) ++ .consumeJob 1 :: .replicate 4 (.go 1) ++
      .addJobs 2 [7] :: .replicate 4 (.go 2)) = some _ from rfl)
  exact ⟨_, ⟨⟨1, ⟨1, .write, false, true⟩, rfl, rfl⟩, rfl⟩, no_job_stranded hq⟩

end ImageQueue

end Rwlocker

/-
# The global configuration cache

`examples/global_config_cache.py`: tasks that call `get_config` and `force_refresh_from_db`,
any number of them and any number of times, on one async condition over any lock class, each
cancelled wherever it is suspended.

A task is at a place in one of the four `async with` blocks or between two of them (`Stage`),
and within `wait_for` where `Condition` has it.  The assignments of a block are one step:
there is no `await` between them.  Between its other steps a task may be overtaken also where
the code has no `await`, which only adds runs; `ConfigCacheRefresh` has those of the event
loop too.  `print` is left out, and of a configuration all but its version.

`answers` records what `get_config` returned; no method reads it.
-/

import Rwlocker.Restore

namespace Rwlocker

open Rwlocker.System (HolderReachable)

namespace ConfigCache

/-- The fields of the cache; of `_config` its version, 0 while it is empty. -/
structure Config where
  config : ℕ := 0
  configVersion : ℕ := 0
  isRefreshing : Bool := false
  deriving DecidableEq, Repr

/-- The predicate of both calls of `wait_for`. -/
def notRefreshing (s : Config) : Bool := !s.isRefreshing

/-- The `async with` blocks. -/
inductive Block
  /-- `get_config` -/
  | get
  /-- The first one of `force_refresh_from_db`. -/
  | claim
  /-- The one in its `try`. -/
  | publish
  /-- The one in its `except`. -/
  | recover
  deriving DecidableEq, Repr

/-- The proxy of the block. -/
def Block.mode : Block → Mode
  | .get => .read
  | .claim | .publish | .recover => .write

/-- The block begins with `wait_for`. -/
def Block.waits : Block → Bool
  | .get | .claim => true
  | .publish | .recover => false

/-- Where a task is. -/
inductive Stage
  | outside
  /-- In `asyncio.sleep`, or, `cancelled`, at the beginning of the `except` clause. -/
  | fetching (cancelled : Bool)
  /-- From `async with` to the end of `wait_for`, if the block has one. -/
  | entering (b : Block)
  /-- Before what the block does with the fields. -/
  | body (b : Block)
  /-- Before `notify_all()`. -/
  | announcing (b : Block)
  /-- Before the end of the block; `raised`: by an exception. -/
  | leaving (b : Block) (raised : Bool)
  deriving DecidableEq, Repr

/-- Where a task is that was cancelled in `__aenter__`. -/
def Block.cancelled : Block → Stage
  | .get | .claim | .recover => .outside
  | .publish => .fetching true

/-- What follows a block. -/
def Block.next : Block → Bool → Stage
  | .claim, false => .fetching false
  | .publish, true => .fetching true
  | .get, _ | .claim, true | .publish, false | .recover, _ => .outside

/-- From `_is_refreshing = True` to `_is_refreshing = False`. -/
def Stage.refreshing : Stage → Bool
  | .leaving .claim raised => !raised
  | .fetching _ => true
  | .entering b | .body b => !b.waits
  | .outside | .announcing _ | .leaving _ _ => false

end ConfigCache

open ConfigCache (Config Block Stage notRefreshing)

/-- A cache and its tasks. -/
structure ConfigCache (τ : Type) where
  cond : CondSystem τ Config := { shared := {} }
  stage : τ → Stage := fun _ => .outside
  answers : List ℕ := []

namespace ConfigCache

/-- The steps: a task calls a method, goes on in it, or is cancelled. -/
inductive Event (τ : Type)
  | getConfig (t : τ)
  | forceRefresh (t : τ)
  | go (t : τ)
  | cancel (t : τ)
  deriving DecidableEq, Repr

variable {τ : Type}

/-- Whose step it is. -/
def Event.task : Event τ → τ
  | .getConfig t | .forceRefresh t | .go t | .cancel t => t

variable [DecidableEq τ]

/-- `t` goes on at `s`. -/
def goto (q : ConfigCache τ) (t : τ) (s : Stage) : ConfigCache τ :=
  { q with stage := Function.update q.stage t s }

/-- `t` makes a step of the condition and goes on at the stage that `k` says. -/
def call (cls : LockClass) (q : ConfigCache τ) (t : τ) (a : CondAction τ Config)
    (k : CondOutcome → Stage) : Option (ConfigCache τ) :=
  (q.cond.step .async cls notRefreshing a).map fun r => { q with cond := r.2 }.goto t (k r.1)

/-- `await self._cond.<mode>.__aenter__()`. -/
def enter (cls : LockClass) (q : ConfigCache τ) (t : τ) (b : Block) : Option (ConfigCache τ) :=
  q.call cls t (.lock (.acquire t b.mode .forever false)) fun
    | .lock (.raised _) => b.cancelled
    | _ => .entering b

/-- What follows when a suspended `acquire` goes on; `wait()` makes a cancelled one again. -/
def afterAcquire (p : Phase) (b : Block) : CondOutcome → Stage
  | .lock .cancelled => if p = .out then b.cancelled else .entering b
  | _ => .entering b

/-- The next step of `await self._cond.<m>.wait_for(...)`. -/
def waitFor (q : ConfigCache τ) (t : τ) (m : Mode) : CondAction τ Config :=
  match q.cond.phase t with
  | .out => .test t m false false
  | .again m timed => .test t m timed false
  | .tested m timed => .wait t m timed
  | .queued _ => .leave t
  | .sleeping _ _ => .wake t
  | .woken _ _ _ => .reacquire t
  | .reacquiring _ _ _ => .finish t

/-- What follows a step of `wait_for`. -/
def afterWait (b : Block) : CondOutcome → Stage
  | .tested true => .body b
  | .finished (.returned _) => .entering b
  | .finished _ | .raised _ => .leaving b true
  | _ => .entering b

/-- What the block does with the fields. -/
def runBody (cls : LockClass) (q : ConfigCache τ) (t : τ) : Block → Option (ConfigCache τ)
  | .get =>
      some ({ q with answers := q.answers ++ [q.cond.shared.config] }.goto t (.leaving .get false))
  | .claim =>
      q.call cls t (.change t { q.cond.shared with isRefreshing := true }) fun _ =>
        .leaving .claim false
  | .publish =>
      q.call cls t (.change t {
        config := q.cond.shared.configVersion + 1
        configVersion := q.cond.shared.configVersion + 1
        isRefreshing := false }) fun _ => .announcing .publish
  | .recover =>
      if q.cond.shared.isRefreshing then
        q.call cls t (.change t { q.cond.shared with isRefreshing := false }) fun _ =>
          .announcing .recover
      else some (q.goto t (.leaving .recover false))

/-- The next step of `t`, which a call of `acquire` in progress makes first. -/
def go (cls : LockClass) (q : ConfigCache τ) (t : τ) : Option (ConfigCache τ) :=
  match q.stage t, q.cond.sys.pc t with
  | .outside, _ => none
  | .fetching cancelled, _ => q.enter cls t (if cancelled then .recover else .publish)
  | .entering b, .waiting _ _ _ _ =>
      q.call cls t (.lock (.resume t false)) (afterAcquire (q.cond.phase t) b)
  | .entering b, _ =>
      if b.waits then q.call cls t (q.waitFor t b.mode) (afterWait b)
      else some (q.goto t (.body b))
  | .body b, _ => q.runBody cls t b
  | .announcing b, _ => q.call cls t (.notifyAll (some t) .write) fun _ => .leaving b false
  | .leaving b raised, _ =>
      q.call cls t (.lock (.release (some t) b.mode)) fun _ => b.next raised

/-- `task.cancel()`, of a task that is suspended. -/
def cancel (cls : LockClass) (q : ConfigCache τ) (t : τ) : Option (ConfigCache τ) :=
  match q.stage t, q.cond.sys.pc t with
  | .fetching false, _ => some (q.goto t (.fetching true))
  | .entering b, .waiting _ _ _ _ => q.call cls t (.lock (.interrupt t)) fun _ => .entering b
  | .entering b, _ => q.call cls t (.interrupt t) fun _ => .entering b
  | _, _ => none

/-- One step, `none` when it is not enabled. -/
def step (cls : LockClass) (q : ConfigCache τ) : Event τ → Option (ConfigCache τ)
  | .getConfig t => if q.stage t = .outside then q.enter cls t .get else none
  | .forceRefresh t => if q.stage t = .outside then q.enter cls t .claim else none
  | .go t => q.go cls t
  | .cancel t => q.cancel cls t

/-- The step relation. -/
def Step (cls : LockClass) (q : ConfigCache τ) (e : Event τ) (q' : ConfigCache τ) : Prop :=
  q.step cls e = some q'

/-- The states that a cache can reach. -/
def Reachable (cls : LockClass) : ConfigCache τ → Prop :=
  Transition.Reachable (Step cls) fun q => q = {}

/-! ### Where a task can be -/

end ConfigCache

/-- A task is never about to clear the downgrade marker. -/
theorem System.HolderReachable.not_clearing {τ : Type} [DecidableEq τ] {cls : LockClass}
    {c : System τ} (h : HolderReachable .async cls c) (t : τ) : c.pc t ≠ .clearing := by
  refine (Transition.Reachable.invariant
    (I := fun c => HolderReachable .async cls c ∧ ∀ t, c.pc t ≠ .clearing) ?_ ?_ h).2 t
  · rintro c rfl
    exact ⟨.start rfl, fun t => by simp⟩
  · rintro c a c' ⟨h, hno⟩ ⟨⟨hin, hby⟩, o, hst⟩
    obtain ⟨u, hu⟩ := Option.ne_none_iff_exists'.1 hin
    refine ⟨h.step hst hin hby, fun t => ?_⟩
    by_cases htu : t = u
    · subst htu
      cases step_effect h.books hst hu with
      | acquire _ hatt | resume _ hatt =>
          cases hatt with
          | fails _ hpc _ hp =>
              rw [hpc, Function.update_self]
              rcases hp with rfl | ⟨seq, timed, rfl⟩ <;> simp
          | reads _ hpc => simp [hpc]
          | writes _ _ _ hpc => simp [hpc]
      | interrupt _ hpc => simp [hpc]
      | clear hpc => exact absurd hpc (hno t)
      | release _ hgb =>
          rw [hgb.pc]
          exact hno t
      | downgrade _ _ hpc =>
          rw [hpc]
          exact hno t
      | downgradeRaised => exact hno t
    · rw [(step_untouched h.books hst (by simp [hu]) (by simpa [hu, eq_comm] using htu)).pc]
      exact hno t

namespace ConfigCache

variable {τ : Type} [DecidableEq τ]

/-- `t` is in the block, with nothing in progress. -/
def Inside (s : System τ) (t : τ) (m : Mode) : Prop := OnlyHold s.holds (some t) m ∧ s.pc t = .idle

/-- `t` is outside all blocks. -/
def Outside (s : System τ) (t : τ) : Prop := NoHold s.holds (some t) ∧ s.pc t = .idle

/-- The calls of `wait()` that `wait_for` makes in a block. -/
structure Calls (b : Block) (w : WaitCall) : Prop where
  waits : b.waits = true
  mode : w.mode = b.mode
  timed : w.timed = false
  inLoop : w.inLoop = true

/-- The places where a task can be, and what is true there. -/
def Fits (c : CondSystem τ Config) (t : τ) : Stage → Phase → Prop
  | .outside, .out | .fetching _, .out => Outside c.sys t
  | .entering b, .out => Regains c.sys t b.mode
  | .entering b, .again m timed =>
      Inside c.sys t m ∧ b.waits = true ∧ m = b.mode ∧ timed = false
  | .entering b, .tested m timed =>
      Inside c.sys t m ∧ b.waits = true ∧ m = b.mode ∧ timed = false ∧
        c.shared.isRefreshing = true
  | .entering b, .sleeping w _ | .entering b, .woken w _ _ | .entering b, .reacquiring w _ _ =>
      Calls b w
  | .body b, .out => Inside c.sys t b.mode ∧ (b.waits = true → c.shared.isRefreshing = false)
  | .announcing b, .out => Inside c.sys t b.mode ∧ b.waits = false
  | .leaving b raised, .out => Inside c.sys t b.mode ∧ (raised = true → b.waits = true)
  | _, _ => False

/-- Where `t` goes on, after a step of the lock or none. -/
structure Shift (cls : LockClass) (q : ConfigCache τ) (t : τ) (s : Stage) (p : Phase)
    (q' : ConfigCache τ) : Prop where
  stage : q'.stage = Function.update q.stage t s
  phase : q'.cond.phase = Function.update q.cond.phase t p
  sys : q'.cond.sys = q.cond.sys ∨ ∃ a o, a.caller = some t ∧
    q.cond.sys.step .async cls a = some (o, q'.cond.sys) ∧
    ∀ m r x, a = .acquire t m r x → NoHold q.cond.sys.holds (some t)
  fits : Fits q'.cond t s p

/-- The fields stay as they are, and nobody goes to sleep. -/
structure Quiet (q q' : ConfigCache τ) : Prop where
  shared : q'.cond.shared = q.cond.shared
  answers : q'.answers = q.answers
  waiters : q'.cond.queue.waiters.Sublist q.cond.queue.waiters

/-- What a step of `t` comes to. -/
inductive Does (cls : LockClass) (q : ConfigCache τ) (t : τ) (q' : ConfigCache τ) : Prop
  | quiet {s : Stage} {p : Phase} (h : q.Shift cls t s p q') (hq : Quiet q q')
      (hs : s.refreshing = (q.stage t).refreshing) (hdue : ∀ b, q.stage t ≠ .announcing b)
  /-- `wait_for` goes to sleep. -/
  | sleeps {b : Block} {w : WaitCall} (hs : q.stage t = .entering b)
      (h : q.Shift cls t (.entering b) (.sleeping w false) q')
      (hq : q'.cond.queue.waiters = q.cond.queue.waiters ++ [w.call])
      (hsh : q'.cond.shared = q.cond.shared) (ha : q'.answers = q.answers)
      (hflag : q.cond.shared.isRefreshing = true)
  /-- `__aenter__` waits and is cancelled in the `except` clause. -/
  | abandons (hs : q.stage t = .entering .recover) (h : q.Shift cls t .outside .out q')
      (hq : Quiet q q') (hpc : ∃ m seq timed, q.cond.sys.pc t = .waiting m seq timed true)
  | copies (hs : q.stage t = .body .get) (h : q.Shift cls t (.leaving .get false) .out q')
      (hc : q'.cond = q.cond) (ha : q'.answers = q.answers ++ [q.cond.shared.config])
  | claims (hs : q.stage t = .body .claim) (h : q.Shift cls t (.leaving .claim false) .out q')
      (hin : Inside q.cond.sys t .write)
      (hsh : q'.cond.shared = { q.cond.shared with isRefreshing := true })
      (hq : q'.cond.queue = q.cond.queue) (ha : q'.answers = q.answers)
  | publishes (hs : q.stage t = .body .publish) (h : q.Shift cls t (.announcing .publish) .out q')
      (hin : Inside q.cond.sys t .write)
      (hsh : q'.cond.shared =
        ⟨q.cond.shared.configVersion + 1, q.cond.shared.configVersion + 1, false⟩)
      (hq : q'.cond.queue = q.cond.queue) (ha : q'.answers = q.answers)
  | recovers (hs : q.stage t = .body .recover) (h : q.Shift cls t (.announcing .recover) .out q')
      (hin : Inside q.cond.sys t .write)
      (hsh : q'.cond.shared = { q.cond.shared with isRefreshing := false })
      (hq : q'.cond.queue = q.cond.queue) (ha : q'.answers = q.answers)
  /-- There is nothing to recover. -/
  | finds (hs : q.stage t = .body .recover) (h : q.Shift cls t (.leaving .recover false) .out q')
      (hc : q'.cond = q.cond) (ha : q'.answers = q.answers)
      (hflag : q.cond.shared.isRefreshing = false)
  | announces {b : Block} (hs : q.stage t = .announcing b)
      (h : q.Shift cls t (.leaving b false) .out q') (hw : b.waits = false)
      (hsh : q'.cond.shared = q.cond.shared) (ha : q'.answers = q.answers)
      (hq : q'.cond.queue.waiters = [])

variable {cls : LockClass} {q q' : ConfigCache τ} {t u : τ} {s : Stage} {p : Phase} {b : Block}
  {e : Event τ}

/-- A step of the condition that `call` makes. -/
theorem call_eq_some {a : CondAction τ Config} {k : CondOutcome → Stage}
    (h : q.call cls t a k = some q') : ∃ o c,
      q.cond.step .async cls notRefreshing a = some (o, c) ∧
        q' = { q with cond := c }.goto t (k o) := by
  obtain ⟨⟨o, c⟩, hst, rfl⟩ := Option.map_eq_some_iff.1 h
  exact ⟨o, c, hst, rfl⟩

/-- Whoever is getting the lock back waits, or is inside. -/
theorem regains_cases {sys : System τ} {m : Mode} (h : HolderReachable .async cls sys)
    (hreg : Regains sys t m) : (∃ seq i, sys.pc t = .waiting m seq false i) ∨ Inside sys t m := by
  rcases hreg with ⟨-, hwait⟩ | ⟨hone, hno⟩
  · exact .inl hwait
  · refine .inr ⟨hone, ?_⟩
    cases hpc : sys.pc t with
    | idle => rfl
    | waiting m' => exact absurd ⟨_, _, _, hpc⟩ (hno m')
    | clearing => exact absurd hpc (h.not_clearing t)

theorem inside_of_regains {sys : System τ} {m : Mode} (h : HolderReachable .async cls sys)
    (hreg : Regains sys t m) (hpc : ∀ m' seq timed i, sys.pc t ≠ .waiting m' seq timed i) :
    Inside sys t m :=
  (regains_cases h hreg).resolve_left fun ⟨_, _, hwait⟩ => hpc _ _ _ _ hwait

/-- `__aenter__`, of a task outside. -/
theorem enter_does (hk : Keeping .async cls q.cond) (hout : Outside q.cond.sys t)
    (hph : q.cond.phase t = .out) (hs : (Stage.entering b).refreshing = (q.stage t).refreshing)
    (hdue : ∀ b, q.stage t ≠ .announcing b) (hst : q.enter cls t b = some q') :
    Does cls q t q' := by
  obtain ⟨o, c, hcond, rfl⟩ := call_eq_some hst
  simp only [CondSystem.step, Action.caller, Option.map_some, hph] at hcond
  obtain ⟨o', sys, hlock, h⟩ := CondSystem.onLock_eq_some hcond
  obtain ⟨rfl, rfl⟩ := Prod.mk.inj h
  obtain ⟨hraise, hreg⟩ := System.step_acquire_regains hk.reach hout.1 hlock
  refine .quiet (s := .entering b) (p := .out)
    ⟨?_, (Function.update_eq_self_iff.2 hph.symm).symm,
      .inr ⟨_, _, rfl, hlock, fun _ _ _ _ => hout.1⟩, hreg⟩ ⟨rfl, rfl, .refl _⟩ hs hdue
  cases o' with
  | raised e => exact absurd rfl (hraise e)
  | _ => rfl

/-- A task that waits for the lock is in `__aenter__`, or at the end of a `wait()`. -/
theorem fits_waiting (hk : Keeping .async cls q.cond)
    (hf : Fits q.cond t (.entering b) (q.cond.phase t))
    (hpc : q.cond.sys.pc t ≠ .idle) :
    Regains q.cond.sys t b.mode ∧ (q.cond.phase t = .out ∨
      ∃ w gotit err, q.cond.phase t = .reacquiring w gotit err ∧ Calls b w) := by
  have hkeep := hk.keeps t
  cases hph : q.cond.phase t with
  | out =>
      rw [hph] at hf
      exact ⟨hf, .inl rfl⟩
  | reacquiring w gotit err =>
      rw [hph] at hf hkeep
      have hreg : Regains q.cond.sys t w.mode := hkeep
      have hcall : Calls b w := hf
      exact ⟨hcall.mode ▸ hreg, .inr ⟨w, gotit, err, rfl, hcall⟩⟩
  | again | tested =>
      rw [hph] at hf
      exact absurd hf.1.2 hpc
  | sleeping | woken =>
      rw [hph] at hkeep
      exact absurd hkeep.2 hpc
  | queued =>
      rw [hph] at hf
      exact hf.elim

/-- A suspended `acquire` goes on. -/
theorem resume_does (hk : Keeping .async cls q.cond) (hs : q.stage t = .entering b)
    (hf : Fits q.cond t (.entering b) (q.cond.phase t)) (hpc : q.cond.sys.pc t ≠ .idle)
    (hst : q.call cls t (.lock (.resume t false)) (afterAcquire (q.cond.phase t) b) = some q') :
    Does cls q t q' := by
  obtain ⟨hreg, hph⟩ := fits_waiting hk hf hpc
  obtain ⟨o, c, hcond, rfl⟩ := call_eq_some hst
  simp only [CondSystem.step, Action.caller, Option.map_some, Option.bind_some] at hcond
  rcases hph with hph | ⟨w, gotit, err, hph, hcall⟩ <;> rw [hph] at hcond
  · obtain ⟨o', sys, hlock, h⟩ := CondSystem.onLock_eq_some hcond
    obtain ⟨rfl, rfl⟩ := Prod.mk.inj h
    obtain ⟨hgoes, hcancel⟩ := System.step_resume_regains hk.reach hreg hlock
    have hshift : ∀ {s : Stage}, afterAcquire (q.cond.phase t) b (.lock o') = s →
        Fits { q.cond with sys := sys } t s .out →
        q.Shift cls t s .out ({ q with cond := { q.cond with sys := sys } }.goto t
          (afterAcquire (q.cond.phase t) b (.lock o'))) := by
      rintro s rfl hfit
      exact ⟨rfl, (Function.update_eq_self_iff.2 hph.symm).symm,
        .inr ⟨_, _, rfl, hlock, by simp⟩, hfit⟩
    by_cases ho : o' = .cancelled
    · have hout := hcancel ho
      have hnext : afterAcquire (q.cond.phase t) b (.lock o') = b.cancelled := by
        rw [ho, hph]
        rfl
      cases b with
      | recover =>
          refine .abandons hs (hshift hnext hout) ⟨rfl, rfl, .refl _⟩ ?_
          subst ho
          cases System.step_deed hk.reach.reachable.wellFormed hlock rfl with
          | goesOn _ _ _ hloop => cases hloop
          | cancelled _ hpc' => exact ⟨_, _, _, hpc'⟩
      | get | claim | publish =>
          exact .quiet (hshift hnext hout) ⟨rfl, rfl, .refl _⟩
            (by rw [hs]; rfl) (by simp [hs])
    · have hnext : afterAcquire (q.cond.phase t) b (.lock o') = .entering b := by
        cases o' with
        | cancelled => exact absurd rfl ho
        | _ => rfl
      exact .quiet (hshift hnext (hgoes ho)) ⟨rfl, rfl, .refl _⟩ (by rw [hs])
        (by simp [hs])
  · simp only [CondSystem.goOn] at hcond
    obtain ⟨o', sys, hlock, h⟩ := CondSystem.onLock_eq_some hcond
    have hnext : ∀ o, afterAcquire (q.cond.phase t) b o = .entering b := by
      intro o
      unfold afterAcquire
      rw [hph]
      split <;> rfl
    rw [hnext]
    split at h
    · obtain ⟨rfl, rfl⟩ := Prod.mk.inj h
      exact .quiet (s := .entering b)
        ⟨rfl, rfl, .inr ⟨_, _, rfl, hlock, by simp⟩, hcall⟩
        ⟨rfl, rfl, .refl _⟩ (by rw [hs]) (by simp [hs])
    · obtain ⟨rfl, rfl⟩ := Prod.mk.inj h
      exact .quiet (s := .entering b) (p := .reacquiring w gotit err)
        ⟨rfl, (Function.update_eq_self_iff.2 hph.symm).symm, .inr ⟨_, _, rfl, hlock, by simp⟩,
          hcall⟩ ⟨rfl, rfl, .refl _⟩ (by rw [hs]) (by simp [hs])

/-- A task in `__aenter__`, or in `wait()`, is cancelled. -/
theorem interrupt_does (hk : Keeping .async cls q.cond) (hs : q.stage t = .entering b)
    (hf : Fits q.cond t (.entering b) (q.cond.phase t))
    {a : CondAction τ Config} (ha : a = .interrupt t ∨ a = .lock (.interrupt t))
    (hst : q.call cls t a (fun _ => .entering b) = some q') : Does cls q t q' := by
  have hquiet : ∀ {p : Phase} {c : CondSystem τ Config},
      c.phase = Function.update q.cond.phase t p →
      (c.sys = q.cond.sys ∨ ∃ o, q.cond.sys.step .async cls (.interrupt t) = some (o, c.sys)) →
      Fits c t (.entering b) p → c.shared = q.cond.shared →
      c.queue.waiters.Sublist q.cond.queue.waiters →
      Does cls q t ({ q with cond := c }.goto t (.entering b)) := by
    intro p c hph hsys hfit hsh hq
    exact .quiet (s := .entering b)
      ⟨rfl, hph, hsys.imp_right fun ⟨o, hlock⟩ => ⟨_, o, rfl, hlock, by simp⟩, hfit⟩
      ⟨hsh, rfl, hq⟩ (by rw [hs]) (by simp [hs])
  obtain ⟨o, c, hcond, rfl⟩ := call_eq_some hst
  rcases ha with rfl | rfl
  · simp only [CondSystem.step] at hcond
    split at hcond
    · cases ‹Runtime.async = Runtime.thread›
    · rename_i w hph _
      rw [hph] at hf
      obtain ⟨rfl, rfl⟩ := Prod.mk.inj (Option.some.inj hcond)
      exact hquiet rfl (.inl rfl) hf rfl (q.cond.queue.cancelWaiter_waiters w.call ▸ .refl _)
    · cases hcond
  · simp only [CondSystem.step, Action.caller, Option.map_some, Option.bind_some] at hcond
    cases hph : q.cond.phase t with
    | out =>
        rw [hph] at hf hcond
        obtain ⟨o', sys, hlock, h⟩ := CondSystem.onLock_eq_some hcond
        obtain ⟨rfl, rfl⟩ := Prod.mk.inj h
        exact hquiet (p := .out) (Function.update_eq_self_iff.2 hph.symm).symm
          (.inr ⟨_, hlock⟩) (System.step_regains hk.reach hf (.inl rfl) hlock) rfl (.refl _)
    | reacquiring w gotit err =>
        rw [hph] at hf hcond
        simp only [CondSystem.goOn] at hcond
        obtain ⟨o', sys, hlock, h⟩ := CondSystem.onLock_eq_some hcond
        obtain ⟨rfl, rfl⟩ := Prod.mk.inj h
        exact hquiet (p := .reacquiring w gotit err) (Function.update_eq_self_iff.2 hph.symm).symm
          (.inr ⟨_, hlock⟩) hf rfl (.refl _)
    | _ =>
        rw [hph] at hcond
        cases hcond

/-- `wait_for` looks at the flag. -/
theorem test_does (hs : q.stage t = .entering b) (hw : b.waits = true)
    (hph : q.cond.phase t = .out ∨ q.cond.phase t = .again b.mode false)
    (hin : Inside q.cond.sys t b.mode)
    (hst : q.call cls t (.test t b.mode false false) (afterWait b) = some q') :
    Does cls q t q' := by
  obtain ⟨o, c, hcond, rfl⟩ := call_eq_some hst
  have htest : some (q.cond.test notRefreshing t b.mode false false) = some (o, c) := by
    rw [← hcond]
    rcases hph with hph | hph <;> simp [CondSystem.step, CondSystem.free, hph, hin.2]
  have hfound : notRefreshing q.cond.shared = true → q.cond.shared.isRefreshing = false := by
    simp [notRefreshing]
  have hmissed : ¬ notRefreshing q.cond.shared = true → q.cond.shared.isRefreshing = true := by
    simp [notRefreshing]
  have htest := Option.some.inj htest
  simp only [CondSystem.test, Bool.false_and, Bool.false_eq_true, if_false] at htest
  split_ifs at htest with hflag
  · obtain ⟨rfl, rfl⟩ := Prod.mk.inj htest
    exact .quiet (s := .body b) (p := .out)
      ⟨rfl, rfl, .inl rfl, ⟨hin, fun _ => hfound hflag⟩⟩
      ⟨rfl, rfl, .refl _⟩ (by rw [hs]; rfl) (by simp [hs])
  · obtain ⟨rfl, rfl⟩ := Prod.mk.inj htest
    exact .quiet (s := .entering b) (p := .tested b.mode false)
      ⟨rfl, rfl, .inl rfl, ⟨hin, hw, rfl, rfl, hmissed hflag⟩⟩
      ⟨rfl, rfl, .refl _⟩ (by rw [hs]) (by simp [hs])

/-- `wait()`, which gives the lock back. -/
theorem wait_does (hk : Keeping .async cls q.cond) (hs : q.stage t = .entering b)
    (hw : b.waits = true) (hph : q.cond.phase t = .tested b.mode false)
    (hin : Inside q.cond.sys t b.mode) (hflag : q.cond.shared.isRefreshing = true)
    (hst : q.call cls t (.wait t b.mode false) (afterWait b) = some q') : Does cls q t q' := by
  obtain ⟨o, c, hcond, rfl⟩ := call_eq_some hst
  have hcheck := hk.reach.checkWait_iff.2 hin.1
  simp only [CondSystem.step, hph, if_true, CondSystem.wait, hcheck] at hcond
  let w : WaitCall := { call := q.cond.calls, mode := b.mode, timed := false, inLoop := true }
  have hg : Keeping .async cls (q.cond.goto t (.queued w)) := hk.goto hin.1
  obtain ⟨o', sys, hlock, h⟩ := CondSystem.onLock_eq_some hcond
  obtain ⟨rfl, -⟩ := hg.leave (w := w) (CondSystem.goto_phase_self ..) hlock
  obtain ⟨rfl, rfl⟩ := Prod.mk.inj h
  refine .sleeps (b := b) (w := w) hs
    ⟨rfl, ?_, .inr ⟨_, _, rfl, hlock, by simp⟩, ⟨hw, rfl, rfl, rfl⟩⟩ rfl rfl rfl hflag
  exact Function.update_idem ..

/-- **A step of `wait_for`.** -/
theorem waitFor_does (hk : Keeping .async cls q.cond) (hs : q.stage t = .entering b)
    (hw : b.waits = true) (hf : Fits q.cond t (.entering b) (q.cond.phase t))
    (hpc : q.cond.sys.pc t = .idle)
    (hst : q.call cls t (q.waitFor t b.mode) (afterWait b) = some q') : Does cls q t q' := by
  have hidle : ∀ m' seq timed i, q.cond.sys.pc t ≠ .waiting m' seq timed i := by simp [hpc]
  have hquiet : ∀ {s : Stage} {p : Phase} {c : CondSystem τ Config},
      c.phase = Function.update q.cond.phase t p →
      (c.sys = q.cond.sys ∨ ∃ a o, a.caller = some t ∧
        q.cond.sys.step .async cls a = some (o, c.sys) ∧
        ∀ m r x, a = .acquire t m r x → NoHold q.cond.sys.holds (some t)) →
      Fits c t s p → c.shared = q.cond.shared → c.queue.waiters.Sublist q.cond.queue.waiters →
      s.refreshing = false → Does cls q t ({ q with cond := c }.goto t s) := by
    intro s p c hph hsys hfit hsh hq hr
    refine .quiet ⟨rfl, hph, hsys, hfit⟩ ⟨hsh, rfl, hq⟩ ?_ (by simp [hs])
    rw [hs, hr]
    simp [Stage.refreshing, hw]
  have hr : (Stage.entering b).refreshing = false := by simp [Stage.refreshing, hw]
  cases hph : q.cond.phase t with
  | out =>
      rw [hph] at hf
      simp only [waitFor, hph] at hst
      exact test_does hs hw (.inl hph) (inside_of_regains hk.reach hf hidle) hst
  | again m timed =>
      rw [hph] at hf
      obtain ⟨hin, -, rfl, rfl⟩ := hf
      simp only [waitFor, hph] at hst
      exact test_does hs hw (.inr hph) hin hst
  | tested m timed =>
      rw [hph] at hf
      obtain ⟨hin, -, rfl, rfl, hflag⟩ := hf
      simp only [waitFor, hph] at hst
      exact wait_does hk hs hw hph hin hflag hst
  | queued w =>
      rw [hph] at hf
      exact hf.elim
  | sleeping w i =>
      rw [hph] at hf
      simp only [waitFor, hph] at hst
      obtain ⟨o, c, hcond, rfl⟩ := call_eq_some hst
      simp only [CondSystem.step, hph] at hcond
      split_ifs at hcond with hon
      obtain ⟨rfl, rfl⟩ := Prod.mk.inj (Option.some.inj hcond)
      refine hquiet (s := .entering b) (p := .woken w (!i) false) ?_ ?_ hf ?_ ?_ hr
      · split_ifs <;> rfl
      · split_ifs <;> exact .inl rfl
      · split_ifs <;> rfl
      · split_ifs
        · exact List.erase_sublist
        · exact .refl _
  | woken w gotit err =>
      rw [hph] at hf
      simp only [waitFor, hph] at hst
      obtain ⟨o, c, hcond, rfl⟩ := call_eq_some hst
      simp only [CondSystem.step, hph] at hcond
      obtain ⟨o', sys, hlock, h⟩ := CondSystem.onLock_eq_some hcond
      split at h
      · exact absurd rfl ((hk.reacquire hph hlock).1 _)
      · obtain ⟨rfl, rfl⟩ := Prod.mk.inj h
        exact hquiet (s := .entering b) (p := .reacquiring w gotit err) rfl
          (.inr ⟨_, _, rfl, hlock, fun _ _ _ _ => (hk.at_phase hph).1⟩) hf rfl (.refl _) hr
  | reacquiring w gotit err =>
      have hreg : Regains q.cond.sys t w.mode := hk.at_phase hph
      rw [hph] at hf
      have hcall : Calls b w := hf
      have hin : Inside q.cond.sys t b.mode :=
        inside_of_regains hk.reach (hcall.mode ▸ hreg) hidle
      simp only [waitFor, hph] at hst
      obtain ⟨o, c, hcond, rfl⟩ := call_eq_some hst
      simp only [CondSystem.step, hph, hpc, if_true] at hcond
      obtain ⟨rfl, rfl⟩ := Prod.mk.inj (Option.some.inj hcond)
      rw [if_neg (show ¬ (Runtime.async = .thread ∧ gotit = false) by simp)]
      by_cases hgot : (gotit && !err) = true
      · rw [show CondSystem.ending .async gotit err = .returned true from if_pos hgot]
        refine hquiet (s := .entering b) (p := .again b.mode false) ?_ (.inl rfl)
          ⟨hin, hw, rfl, rfl⟩ rfl (.refl _) hr
        simp [CondSystem.endWait, CondSystem.goto, WaitCall.next, hcall.inLoop, hcall.mode,
          hcall.timed]
      · rw [show CondSystem.ending .async gotit err = .cancelledError from if_neg hgot]
        exact hquiet (s := .leaving b true) (p := .out) rfl (.inl rfl) ⟨hin, fun _ => hw⟩ rfl
          (.refl _) (by cases b <;> rfl)

omit [DecidableEq τ] in
/-- Outside `wait_for`. -/
theorem fits_out {c : CondSystem τ Config} (hs : ∀ b, s ≠ .entering b) (hf : Fits c t s p) :
    p = .out ∧ Fits c t s .out := by
  cases p with
  | out => exact ⟨rfl, hf⟩
  | _ =>
      cases s with
      | entering b => exact absurd rfl (hs b)
      | _ => exact hf.elim

/-- The steps in a block. -/
theorem body_does (hs : q.stage t = .body b) (hph : q.cond.phase t = .out)
    (hin : Inside q.cond.sys t b.mode) (hst : q.runBody cls t b = some q') :
    Does cls q t q' := by
  have hpc := hin.2
  have hchange : ∀ {x : Config} {s : Stage},
      q.call cls t (.change t x) (fun _ => s) = some q' →
      (∀ c : CondSystem τ Config, c.sys = q.cond.sys → Fits c t s .out) →
      q.Shift cls t s .out q' ∧ q'.cond.shared = x ∧ q'.cond.queue = q.cond.queue ∧
        q'.answers = q.answers := by
    intro x s hst hfit
    obtain ⟨o, c, hcond, rfl⟩ := call_eq_some hst
    simp only [CondSystem.step, CondSystem.free, hph, hpc, and_self, if_true] at hcond
    obtain ⟨rfl, rfl⟩ := Prod.mk.inj (Option.some.inj hcond)
    exact ⟨⟨rfl, (Function.update_eq_self_iff.2 hph.symm).symm, .inl rfl, hfit _ rfl⟩,
      rfl, rfl, rfl⟩
  cases b with
  | get =>
      obtain rfl := Option.some.inj hst
      exact .copies hs
        ⟨rfl, (Function.update_eq_self_iff.2 hph.symm).symm, .inl rfl, ⟨hin, by simp⟩⟩
        rfl rfl
  | claim =>
      obtain ⟨hshift, hsh, hq, ha⟩ := hchange hst fun c hc => ⟨hc ▸ hin, by simp⟩
      exact .claims hs hshift hin hsh hq ha
  | publish =>
      obtain ⟨hshift, hsh, hq, ha⟩ := hchange hst fun c hc => ⟨hc ▸ hin, rfl⟩
      exact .publishes hs hshift hin hsh hq ha
  | recover =>
      simp only [runBody] at hst
      split_ifs at hst with hflag
      · obtain ⟨hshift, hsh, hq, ha⟩ := hchange hst fun c hc => ⟨hc ▸ hin, rfl⟩
        exact .recovers hs hshift hin hsh hq ha
      · obtain rfl := Option.some.inj hst
        exact .finds hs
          ⟨rfl, (Function.update_eq_self_iff.2 hph.symm).symm, .inl rfl, ⟨hin, by simp⟩⟩
          rfl rfl (by simpa using hflag)

/-- `self._cond.write.notify_all()` -/
theorem announce_does (hk : Keeping .async cls q.cond) (hs : q.stage t = .announcing b)
    (hph : q.cond.phase t = .out) (hin : Inside q.cond.sys t b.mode) (hw : b.waits = false)
    (hst : q.call cls t (.notifyAll (some t) .write) (fun _ => .leaving b false) = some q') :
    Does cls q t q' := by
  have hmode : b.mode = .write := by cases b <;> simp_all [Block.waits, Block.mode]
  obtain ⟨o, c, hcond, rfl⟩ := call_eq_some hst
  have hown : cls.isOwned q.cond.sys.lock (some t) .write = true :=
    (LockClass.checkWait_eq_ok.1 (hk.reach.checkWait_iff.2 (hmode ▸ hin.1))).1
  simp only [CondSystem.step, CondSystem.canCall, CondSystem.free, hph, hin.2, and_self,
    decide_true, if_true, CondSystem.notifyAll, hown] at hcond
  obtain ⟨rfl, rfl⟩ := Prod.mk.inj (Option.some.inj hcond)
  exact .announces hs
    ⟨rfl, (Function.update_eq_self_iff.2 hph.symm).symm, .inl rfl, ⟨hin, by simp⟩⟩ hw rfl
    rfl
    (by simp [ConfigCache.goto])

/-- `await self._cond.<mode>.__aexit__(...)` -/
theorem exit_does (hk : Keeping .async cls q.cond) {raised : Bool}
    (hs : q.stage t = .leaving b raised) (hph : q.cond.phase t = .out)
    (hin : Inside q.cond.sys t b.mode) (hraised : raised = true → b.waits = true)
    (hst : q.call cls t (.lock (.release (some t) b.mode)) (fun _ => b.next raised) = some q') :
    Does cls q t q' := by
  obtain ⟨o, c, hcond, rfl⟩ := call_eq_some hst
  simp only [CondSystem.step, Action.caller, Option.map_some, hph] at hcond
  obtain ⟨o', sys, hlock, h⟩ := CondSystem.onLock_eq_some hcond
  obtain ⟨rfl, rfl⟩ := Prod.mk.inj h
  have hout : Outside sys t := (System.step_release_only hk.reach hin.1 hlock).2
  refine .quiet (s := b.next raised) (p := .out)
    ⟨rfl, (Function.update_eq_self_iff.2 hph.symm).symm, .inr ⟨_, _, rfl, hlock, by simp⟩, ?_⟩
    ⟨rfl, rfl, .refl _⟩ ?_ (by simp [hs])
  · cases b <;> cases raised <;> exact hout
  · rw [hs]
    cases b <;> cases raised <;> simp_all [Block.next, Stage.refreshing, Block.waits]

theorem go_does (hk : Keeping .async cls q.cond)
    (hf : Fits q.cond t (q.stage t) (q.cond.phase t)) (hst : q.go cls t = some q') :
    Does cls q t q' := by
  unfold go at hst
  cases hs : q.stage t with
  | outside =>
      simp only [hs] at hst
      cases hst
  | fetching cancelled =>
      simp only [hs] at hst
      rw [hs] at hf
      obtain ⟨hph, hout⟩ := fits_out (by simp) hf
      refine enter_does hk hout hph ?_ (by simp [hs]) hst
      rw [hs]
      cases cancelled <;> rfl
  | entering b =>
      rw [hs] at hf
      cases hpc : q.cond.sys.pc t with
      | waiting m seq timed i =>
          simp only [hs, hpc] at hst
          exact resume_does hk hs hf (by simp [hpc]) hst
      | clearing => exact absurd hpc (hk.reach.not_clearing t)
      | idle =>
          simp only [hs, hpc] at hst
          split_ifs at hst with hw
          · exact waitFor_does hk hs hw hf hpc hst
          · obtain rfl := Option.some.inj hst
            have hph : q.cond.phase t = .out := by
              cases hph : q.cond.phase t with
              | out => rfl
              | again | tested =>
                  rw [hph] at hf
                  exact absurd hf.2.1 hw
              | queued =>
                  rw [hph] at hf
                  exact hf.elim
              | sleeping | woken | reacquiring =>
                  rw [hph] at hf
                  exact absurd (show Calls b _ from hf).waits hw
            rw [hph] at hf
            have hin := inside_of_regains hk.reach hf (by simp [hpc])
            exact .quiet (s := .body b) (p := .out)
              ⟨rfl, (Function.update_eq_self_iff.2 hph.symm).symm, .inl rfl,
                ⟨hin, fun hw' => absurd hw' hw⟩⟩
              ⟨rfl, rfl, .refl _⟩ (by rw [hs]; rfl) (by simp [hs])
  | body b =>
      simp only [hs] at hst
      rw [hs] at hf
      obtain ⟨hph, hin, -⟩ := fits_out (by simp) hf
      exact body_does hs hph hin hst
  | announcing b =>
      simp only [hs] at hst
      rw [hs] at hf
      obtain ⟨hph, hin, hw⟩ := fits_out (by simp) hf
      exact announce_does hk hs hph hin hw hst
  | leaving b raised =>
      simp only [hs] at hst
      rw [hs] at hf
      obtain ⟨hph, hin, hraised⟩ := fits_out (by simp) hf
      exact exit_does hk hs hph hin hraised hst

theorem cancel_does (hk : Keeping .async cls q.cond)
    (hf : Fits q.cond t (q.stage t) (q.cond.phase t)) (hst : q.cancel cls t = some q') :
    Does cls q t q' := by
  unfold cancel at hst
  cases hs : q.stage t with
  | fetching cancelled =>
      rw [hs] at hf
      obtain ⟨hph, hout⟩ := fits_out (by simp) hf
      cases cancelled with
      | false =>
          simp only [hs] at hst
          obtain rfl := Option.some.inj hst
          exact .quiet (s := .fetching true) (p := .out)
            ⟨rfl, (Function.update_eq_self_iff.2 hph.symm).symm, .inl rfl, hout⟩
            ⟨rfl, rfl, .refl _⟩ (by rw [hs]; rfl) (by simp [hs])
      | true =>
          simp only [hs] at hst
          cases hst
  | entering b =>
      rw [hs] at hf
      cases hpc : q.cond.sys.pc t with
      | waiting m seq timed i =>
          simp only [hs, hpc] at hst
          exact interrupt_does hk hs hf (.inr rfl) hst
      | idle | clearing =>
          simp only [hs, hpc] at hst
          exact interrupt_does hk hs hf (.inl rfl) hst
  | _ =>
      simp only [hs] at hst
      cases hst

theorem step_does (hk : Keeping .async cls q.cond)
    (hf : ∀ t, Fits q.cond t (q.stage t) (q.cond.phase t)) (hst : q.step cls e = some q') :
    Does cls q e.task q' := by
  have henter : ∀ {t : τ} {b : Block}, q.stage t = .outside → b.waits = true →
      q.enter cls t b = some q' → Does cls q t q' := by
    intro t b hs hw hst
    have hft := hf t
    rw [hs] at hft
    obtain ⟨hph, hout⟩ := fits_out (by simp) hft
    exact enter_does hk hout hph (by simp [hs, Stage.refreshing, hw]) (by simp [hs]) hst
  cases e with
  | getConfig t =>
      simp only [step] at hst
      split_ifs at hst with hs
      exact henter hs rfl hst
  | forceRefresh t =>
      simp only [step] at hst
      split_ifs at hst with hs
      exact henter hs rfl hst
  | go t => exact go_does hk (hf t) hst
  | cancel t => exact cancel_does hk (hf t) hst

end ConfigCache

end Rwlocker

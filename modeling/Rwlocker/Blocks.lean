/-
# Programs made of `with` blocks

What a user of a lock writes: `with lock.read:`, `with lock.write:`, inside them reads and
updates of the data that the lock guards, `lock.write.downgrade()`, and around them the
control flow of Python, exceptions included.

`RWLockProxy.__enter__` is `self.acquire()`, without a timeout; `__exit__` is
`self.release()` followed by `return False`, so it is called however the block ends and
lets an exception pass on.  `async with` is the same with `await`.  `with lock:` is
`with lock.write:` (`RWLockBase.__enter__`), and so is `lock.write.acquire()` followed by
`try: … finally: lock.write.release()`.

A thread is a piece of code, what is still to be done around it (`Frame`), and its local
variables.  One step runs one statement, or makes one step of the lock.
-/

import Rwlocker.System

namespace Rwlocker

/-- How a piece of code ends. -/
inductive Status
  | normal
  /-- `return` -/
  | returned
  /-- An exception. -/
  | raised
  deriving DecidableEq, Repr

/-- A program over local variables `L` and data `σ` that a lock guards. -/
inductive Code (L σ : Type)
  /-- A statement that stays away from the data. -/
  | compute (f : L → L)
  /-- A statement that reads the data. -/
  | load (f : L → σ → L)
  /-- A statement that updates the data. -/
  | store (f : L → σ → σ)
  | raise
  | ret
  | seq (a b : Code L σ)
  | branch (p : L → Bool) (a b : Code L σ)
  /-- `try: a` and `except: b`. -/
  | attempt (a b : Code L σ)
  /-- `with lock.<m>: a`. -/
  | withLock (m : Mode) (a : Code L σ)
  /-- `lock.write.downgrade()`. -/
  | downgrade

/-- What is to be done when a piece of code has ended. -/
inductive Frame (L σ : Type)
  | next (c : Code L σ)
  | handler (c : Code L σ)
  /-- `__exit__` of the proxy `m`. -/
  | exit (m : Mode)

/-- What a thread is at. -/
inductive Ctl (L σ : Type)
  | run (c : Code L σ)
  | ended (s : Status)
  /-- In `__enter__` of the proxy `m`. -/
  | entering (m : Mode) (body : Code L σ)

/-- A thread or task. -/
structure Thread (L σ : Type) where
  ctl : Ctl L σ
  stack : List (Frame L σ) := []
  loc : L

/-- Threads or tasks, their lock, and the data it guards. -/
structure Client (τ L σ : Type) where
  sys : System τ := {}
  data : σ
  threads : τ → Thread L σ

/-- The steps of a client: a thread runs its next statement, goes on in `acquire`, clears the
downgrade marker, or is cancelled. -/
inductive Event (τ : Type)
  | go (t : τ)
  | resume (t : τ)
  | clear (t : τ)
  | interrupt (t : τ)
  deriving DecidableEq, Repr

/-- Whose step it is. -/
def Event.thread {τ : Type} : Event τ → τ
  | .go t | .resume t | .clear t | .interrupt t => t

variable {τ L σ : Type}

/-- What follows a call of `acquire` by `__enter__`. -/
def Thread.landed (th : Thread L σ) (m : Mode) (body : Code L σ) : Outcome → Thread L σ
  | .acquired _ => { th with ctl := .run body, stack := .exit m :: th.stack }
  | .parked => { th with ctl := .entering m body }
  | _ => { th with ctl := .ended .raised }

namespace Client

variable [DecidableEq τ]

/-- `t` goes on as `th`. -/
def put (c : Client τ L σ) (t : τ) (th : Thread L σ) : Client τ L σ :=
  { c with threads := Function.update c.threads t th }

/-- A step of the lock, after which `t` goes on as `k` says. -/
def call (rt : Runtime) (cls : LockClass) (c : Client τ L σ) (t : τ) (a : Action τ)
    (k : Outcome → Thread L σ) : Option (Client τ L σ) :=
  (c.sys.step rt cls a).map fun r => { c with sys := r.2 }.put t (k r.1)

/-- The next statement of `t`. -/
def go (rt : Runtime) (cls : LockClass) (c : Client τ L σ) (t : τ) : Option (Client τ L σ) :=
  let th := c.threads t
  match th.ctl, th.stack with
  | .run (.compute f), _ => some (c.put t { th with ctl := .ended .normal, loc := f th.loc })
  | .run (.load f), _ =>
      some (c.put t { th with ctl := .ended .normal, loc := f th.loc c.data })
  | .run (.store f), _ =>
      some ({ c with data := f th.loc c.data }.put t { th with ctl := .ended .normal })
  | .run .raise, _ => some (c.put t { th with ctl := .ended .raised })
  | .run .ret, _ => some (c.put t { th with ctl := .ended .returned })
  | .run (.seq a b), st => some (c.put t { th with ctl := .run a, stack := .next b :: st })
  | .run (.branch p a b), _ =>
      some (c.put t { th with ctl := .run (if p th.loc then a else b) })
  | .run (.attempt a b), st =>
      some (c.put t { th with ctl := .run a, stack := .handler b :: st })
  | .run (.withLock m a), _ => c.call rt cls t (.acquire t m .forever false) (th.landed m a)
  | .run .downgrade, _ =>
      c.call rt cls t (.downgrade (some t)) fun o =>
        { th with ctl := .ended (if o = .downgraded then .normal else .raised) }
  | .ended s, .next b :: st =>
      some (c.put t { th with ctl := if s = .normal then .run b else .ended s, stack := st })
  | .ended s, .handler b :: st =>
      some (c.put t { th with ctl := if s = .raised then .run b else .ended s, stack := st })
  | .ended s, .exit m :: st =>
      c.call rt cls t (.release (some t) m) fun o =>
        { th with ctl := .ended (if o = .released then s else .raised), stack := st }
  | .ended _, [] => none
  | .entering _ _, _ => none

/-- One step, `none` when it is not enabled. -/
def step (rt : Runtime) (cls : LockClass) (c : Client τ L σ) : Event τ → Option (Client τ L σ)
  | .go t => if c.sys.pc t = .idle then c.go rt cls t else none
  | .resume t =>
      match (c.threads t).ctl with
      | .entering m body => c.call rt cls t (.resume t false) ((c.threads t).landed m body)
      | _ => none
  | .clear t => c.call rt cls t (.clear t) fun _ => c.threads t
  | .interrupt t => c.call rt cls t (.interrupt t) fun _ => c.threads t

/-- The step relation. -/
def Step (rt : Runtime) (cls : LockClass) (c : Client τ L σ) (e : Event τ)
    (c' : Client τ L σ) : Prop :=
  c.step rt cls e = some c'

/-- A new lock, and every thread at the beginning of its program. -/
def Init (prog : τ → Code L σ) (c : Client τ L σ) : Prop :=
  c.sys = {} ∧ ∀ t, (c.threads t).ctl = .run (prog t) ∧ (c.threads t).stack = []

/-- The states that a client can reach. -/
def Reachable (rt : Runtime) (cls : LockClass) (prog : τ → Code L σ) : Client τ L σ → Prop :=
  Transition.Reachable (Step rt cls) (Init prog)

/-- A client that begins, with local variables `l` and data `d`. -/
def start (prog : τ → Code L σ) (l : τ → L) (d : σ) : Client τ L σ where
  data := d
  threads t := ⟨.run (prog t), [], l t⟩

/-- A list of events that replays from the start is a run. -/
theorem reachable_of_replay {rt : Runtime} {cls : LockClass} {prog : τ → Code L σ} {l : τ → L}
    {d : σ} {es : List (Event τ)} {c : Client τ L σ}
    (h : Transition.replay (step rt cls) (start prog l d) es = some c) :
    Reachable rt cls prog c :=
  ⟨_, _, ⟨rfl, fun _ => ⟨rfl, rfl⟩⟩, Transition.Run.of_replay (fun _ _ _ hst => hst) h⟩

end Client

/-! ### What a step of a client is -/

/-- The steps that leave the lock alone. -/
inductive Silent : Thread L σ → σ → Thread L σ → σ → Prop
  | compute {f : L → L} {st : List (Frame L σ)} {l : L} {d : σ} :
      Silent ⟨.run (.compute f), st, l⟩ d ⟨.ended .normal, st, f l⟩ d
  | load {f : L → σ → L} {st : List (Frame L σ)} {l : L} {d : σ} :
      Silent ⟨.run (.load f), st, l⟩ d ⟨.ended .normal, st, f l d⟩ d
  | store {f : L → σ → σ} {st : List (Frame L σ)} {l : L} {d : σ} :
      Silent ⟨.run (.store f), st, l⟩ d ⟨.ended .normal, st, l⟩ (f l d)
  | raise {st : List (Frame L σ)} {l : L} {d : σ} :
      Silent ⟨.run .raise, st, l⟩ d ⟨.ended .raised, st, l⟩ d
  | ret {st : List (Frame L σ)} {l : L} {d : σ} :
      Silent ⟨.run .ret, st, l⟩ d ⟨.ended .returned, st, l⟩ d
  | seq {a b : Code L σ} {st : List (Frame L σ)} {l : L} {d : σ} :
      Silent ⟨.run (.seq a b), st, l⟩ d ⟨.run a, .next b :: st, l⟩ d
  | branch {p : L → Bool} {a b : Code L σ} {st : List (Frame L σ)} {l : L} {d : σ} :
      Silent ⟨.run (.branch p a b), st, l⟩ d ⟨.run (if p l then a else b), st, l⟩ d
  | attempt {a b : Code L σ} {st : List (Frame L σ)} {l : L} {d : σ} :
      Silent ⟨.run (.attempt a b), st, l⟩ d ⟨.run a, .handler b :: st, l⟩ d
  | next {s : Status} {b : Code L σ} {st : List (Frame L σ)} {l : L} {d : σ} :
      Silent ⟨.ended s, .next b :: st, l⟩ d ⟨if s = .normal then .run b else .ended s, st, l⟩ d
  | handler {s : Status} {b : Code L σ} {st : List (Frame L σ)} {l : L} {d : σ} :
      Silent ⟨.ended s, .handler b :: st, l⟩ d
        ⟨if s = .raised then .run b else .ended s, st, l⟩ d

/-- The steps that call the lock, with the call and what follows it. -/
inductive Invokes (t : τ) : Thread L σ → Action τ → (Outcome → Thread L σ) → Prop
  | enter {m : Mode} {a : Code L σ} {st : List (Frame L σ)} {l : L} :
      Invokes t ⟨.run (.withLock m a), st, l⟩ (.acquire t m .forever false)
        (Thread.landed ⟨.run (.withLock m a), st, l⟩ m a)
  | downgrade {st : List (Frame L σ)} {l : L} :
      Invokes t ⟨.run .downgrade, st, l⟩ (.downgrade (some t)) fun o =>
        ⟨.ended (if o = .downgraded then .normal else .raised), st, l⟩
  | exit {s : Status} {m : Mode} {st : List (Frame L σ)} {l : L} :
      Invokes t ⟨.ended s, .exit m :: st, l⟩ (.release (some t) m) fun o =>
        ⟨.ended (if o = .released then s else .raised), st, l⟩
  | resume {m : Mode} {a : Code L σ} {st : List (Frame L σ)} {l : L} :
      Invokes t ⟨.entering m a, st, l⟩ (.resume t false)
        (Thread.landed ⟨.entering m a, st, l⟩ m a)
  | clear {th : Thread L σ} : Invokes t th (.clear t) fun _ => th
  | interrupt {th : Thread L σ} : Invokes t th (.interrupt t) fun _ => th

namespace Client

variable [DecidableEq τ]

/-- What a step of `t` comes to. -/
inductive Does (rt : Runtime) (cls : LockClass) (c : Client τ L σ) (t : τ) : Client τ L σ → Prop
  | silent {th : Thread L σ} {d : σ} (hpc : c.sys.pc t = .idle)
      (hs : Silent (c.threads t) c.data th d) :
      Does rt cls c t ({ c with data := d }.put t th)
  | calls {a : Action τ} {k : Outcome → Thread L σ} {o : Outcome} {s : System τ}
      (hk : Invokes t (c.threads t) a k) (hst : c.sys.step rt cls a = some (o, s)) :
      Does rt cls c t ({ c with sys := s }.put t (k o))

variable {rt : Runtime} {cls : LockClass} {c c' : Client τ L σ} {t u : τ} {e : Event τ}
  {prog : τ → Code L σ}

theorem call_does {a : Action τ} {k : Outcome → Thread L σ} (hk : Invokes t (c.threads t) a k)
    (hst : c.call rt cls t a k = some c') : Does rt cls c t c' := by
  obtain ⟨⟨o, s⟩, hlock, rfl⟩ := Option.map_eq_some_iff.1 hst
  exact .calls hk hlock

theorem go_does (hpc : c.sys.pc t = .idle) (hst : c.go rt cls t = some c') :
    Does rt cls c t c' := by
  have hsilent : ∀ {th : Thread L σ} {d : σ}, Silent (c.threads t) c.data th d →
      some ({ c with data := d }.put t th) = some c' → Does rt cls c t c' := by
    rintro th d hs hst
    cases hst
    exact .silent hpc hs
  unfold go at hst
  generalize hth : c.threads t = th at hst hsilent
  obtain ⟨ctl, stack, loc⟩ := th
  cases ctl with
  | run code =>
      cases code with
      | compute => exact hsilent .compute hst
      | load => exact hsilent .load hst
      | store => exact hsilent .store hst
      | raise => exact hsilent .raise hst
      | ret => exact hsilent .ret hst
      | seq => exact hsilent .seq hst
      | branch => exact hsilent .branch hst
      | attempt => exact hsilent .attempt hst
      | withLock => exact call_does (by rw [hth]; exact .enter) hst
      | downgrade => exact call_does (by rw [hth]; exact .downgrade) hst
  | ended s =>
      cases stack with
      | nil => cases hst
      | cons f st =>
          cases f with
          | next => exact hsilent .next hst
          | handler => exact hsilent .handler hst
          | exit => exact call_does (by rw [hth]; exact .exit) hst
  | entering => cases hst

/-- **What a step of a client is.** -/
theorem step_does (hst : c.step rt cls e = some c') : Does rt cls c e.thread c' := by
  cases e with
  | go t =>
      simp only [step] at hst
      split_ifs at hst with hpc
      exact go_does hpc hst
  | resume t =>
      simp only [step] at hst
      generalize hth : c.threads t = th at hst
      obtain ⟨ctl, stack, loc⟩ := th
      cases ctl with
      | entering => exact call_does (by simp only [Event.thread, hth]; exact .resume) hst
      | run => cases hst
      | ended => cases hst
  | clear t => exact call_does .clear hst
  | interrupt t => exact call_does .interrupt hst

end Client

end Rwlocker

/-
# Blocks give back what they took

A program made of `with` blocks keeps the promise that the theorems about holders ask for:
every `__exit__` gives back a hold that its `__enter__` took.  What a thread holds is what
its open blocks say (`Framed`): one hold for each, all of them as they were acquired, or,
after a downgrade, the only write hold turned into a read hold, with the marker naming the
thread.  The marker stays until that block ends, whatever the others do meanwhile.

So no `__exit__` raises, and none gives back more or less than its own hold
(`exit_gives_back`); and when every thread has ended, in whatever way, the lock is as new
(`programs_leave_no_residue`).
-/

import Rwlocker.Downgrade
import Rwlocker.Misuse
import Rwlocker.Residue
import Rwlocker.Transactions

namespace Rwlocker

variable {τ L σ : Type}

/-- The open blocks of a thread, by mode. -/
def openBlocks (m : Mode) : List (Frame L σ) → ℕ
  | [] => 0
  | .exit m' :: st => openBlocks m st + if m' = m then 1 else 0
  | .next _ :: st | .handler _ :: st => openBlocks m st

variable [DecidableEq τ]

/-! ### The calls of a block -/

namespace System

variable {rt : Runtime} {cls : LockClass} {c c' : System τ} {t u : τ} {m : Mode} {seq : ℕ}
  {i : Bool} {a : Action τ} {o : Outcome}

/-- What `t` holds. -/
def own (c : System τ) (t : τ) : Own := ⟨c.holds.reads (some t), c.holds.writes (some t)⟩

/-- How a call of `acquire` without a timeout comes out: what the caller holds decides it,
and who holds nothing gets in or waits. -/
inductive Landed (rt : Runtime) (cls : LockClass) (c : System τ) (t : τ) (m : Mode) :
    Outcome → System τ → Prop
  | enters {c' : System τ} (hh : c'.holds = grant c.holds (some t) m)
      (hpc : ∀ m', ¬ InFlight c'.pc m' t)
      (hm : m = .read → c'.lock.downgraded = c.lock.downgraded)
      (he : (c.own t).entry cls.reentrant m = .granted) : Landed rt cls c t m (.acquired m) c'
  | parks {c' : System τ} {seq : ℕ} (hh : c'.holds = c.holds)
      (hpc : c'.pc t = .waiting m seq false false)
      (hm : c'.lock.downgraded = c.lock.downgraded)
      (he : (c.own t).Free ∨ (c.own t).entry cls.reentrant m = .stuck) :
      Landed rt cls c t m .parked c'
  | cancelled {c' : System τ} (hrt : rt = .async) (hh : c'.holds = c.holds)
      (hpc : c'.pc t = .idle) (hm : c'.lock.downgraded = c.lock.downgraded)
      (he : (c.own t).Free ∨ (c.own t).entry cls.reentrant m = .stuck) :
      Landed rt cls c t m .cancelled c'
  | raised {e : RuntimeError} (hpc : c.pc t = .idle)
      (he : (c.own t).entry cls.reentrant m = .rejected) : Landed rt cls c t m (.raised e) c

/-- Only who gets the write lock clears the marker. -/
theorem attempt_marker (h : Attempt rt cls c t c' m o) (ho : o ≠ .acquired .write) :
    c'.lock.downgraded = c.lock.downgraded := by
  cases h with
  | fails hs => exact hs.downgraded
  | reads hs => exact hs.downgraded
  | writes => exact absurd rfl ho

/-- Who waits holds nothing, or is the owner of a plain lock. -/
theorem own_of_stranger (h : HolderReachable rt cls c)
    (hstr : c.lock.readerOwners.count (some t) = 0 ∧
      ¬ (cls.reentrant = true ∧ cls.owner c.lock = some t)) (m : Mode) :
    c.holds.reads (some t) = 0 ∧
      ((c.own t).Free ∨ (c.own t).entry cls.reentrant m = .stuck) := by
  have hr : c.holds.reads (some t) = 0 := h.ledger.reads (some t) ▸ hstr.1
  refine ⟨hr, ?_⟩
  by_cases hw : c.holds.writes (some t) = 0
  · exact .inl ⟨hr, hw⟩
  · have hpos : 0 < c.holds.writes (some t) := by omega
    have hre : cls.reentrant = false := by
      by_contra hre
      exact hstr.2 ⟨by simpa using hre, h.ledger.owner_of_writes hpos⟩
    exact .inr (by simp [Own.entry, own, hw, hpos, hre])

theorem landed_of_looped {c₀ : System τ} (hloop : Looped rt cls c₀ t m seq false o c')
    (hh : c₀.holds = c.holds) (howner : cls.owner c₀.lock = cls.owner c.lock)
    (hm : o ≠ .acquired .write → c'.lock.downgraded = c.lock.downgraded)
    (h : HolderReachable rt cls c)
    (hstr : c.lock.readerOwners.count (some t) = 0 ∧
      ¬ (cls.reentrant = true ∧ cls.owner c.lock = some t)) : Landed rt cls c t m o c' := by
  obtain ⟨hr, hfree⟩ := own_of_stranger h hstr m
  cases hloop with
  | enters hadm =>
      have ho : cls.owner c.lock = none := by
        rw [← howner]
        cases m with
        | read => exact hadm.1
        | write => exact hadm.1
      have hw : c.holds.writes (some t) = 0 := h.ledger.writes_eq_zero (by simp [ho])
      exact .enters (by rw [succeed_holds, hh]) (not_inFlight_succeed _ _ _ _ _)
        (fun h => hm (by simp [h])) (by simp [Own.entry, own, hr, hw])
  | givesUp htimed => cases htimed
  | parks => exact .parks hh (Function.update_self ..) (hm (by simp)) hfree

/-- **`__enter__`**, up to its return or its first park. -/
theorem step_enter (h : HolderReachable rt cls c)
    (hst : c.step rt cls (.acquire t m .forever false) = some (o, c')) :
    Landed rt cls c t m o c' := by
  have hb := h.books
  obtain ⟨-, hatt, -⟩ := step_acquire hst
  have hm : o ≠ .acquired .write → c'.lock.downgraded = c.lock.downgraded := attempt_marker hatt
  cases step_deed h.reachable.wellFormed hst rfl with
  | rejected hpc =>
      obtain ⟨-, hr, hw⟩ := (h.upgrade_raises hpc (by simp) false).1 ⟨_, hst⟩
      exact .raised hpc (by simp [Own.entry, own, hr, hw])
  | enters hpc hcan =>
      refine .enters (succeed_holds ..) (not_inFlight_succeed _ _ _ _ _)
        (fun h => hm (by simp [h])) ?_
      cases m with
      | read =>
          rcases (hb.canRead_iff (by simp) false none).1 hcan with hadm | ⟨hre, -⟩ | ⟨ho, -⟩
          · simp [Own.entry, own, h.ledger.writes_eq_zero (k := some t) (by simp [hadm.1])]
          · simp [Own.entry, hre]
          · simp [Own.entry, own, h.ledger.writes_eq_zero (k := some t) (by simp [ho])]
      | write =>
          rcases (hb.canWrite_iff (by simp) false none).1 hcan with hadm | ⟨hre, ho⟩
          · have hr := hb.readersActive_eq_zero_iff.1 hadm.2.1 (some t)
            rw [h.ledger.reads] at hr
            simp [Own.entry, own, hr, h.ledger.writes_eq_zero (k := some t) (by simp [hadm.1])]
          · have hw := h.ledger.writes_pos hb ho
            simp [Own.entry, own, hre, Nat.pos_iff_ne_zero.1 hw]
  | waits _ _ _ hstr hloop => exact landed_of_looped hloop rfl rfl hm h hstr

/-- **A parked `__enter__` goes on.** -/
theorem step_goes_on (h : HolderReachable rt cls c) (hpc : c.pc t = .waiting m seq false i)
    (hst : c.step rt cls (.resume t false) = some (o, c')) : Landed rt cls c t m o c' := by
  obtain ⟨m', _, hatt⟩ : ∃ m', c.pc t ≠ .clearing ∧ Attempt rt cls c t c' m' o := by
    cases step_effect h.books hst rfl with
    | resume hpc hatt => exact ⟨_, hpc, hatt⟩
  have hm : o ≠ .acquired .write → c'.lock.downgraded = c.lock.downgraded := attempt_marker hatt
  have hstr := h.reachable.wellFormed.stranger m t ⟨_, _, _, hpc⟩
  cases step_deed h.reachable.wellFormed hst rfl with
  | goesOn hw _ _ hloop =>
      rw [hpc] at hw
      cases hw
      exact landed_of_looped hloop rfl rfl hm h hstr
  | cancelled hrt hw =>
      rw [hpc] at hw
      cases hw
      exact .cancelled hrt rfl (Function.update_self ..) (hm (by simp))
        (own_of_stranger h hstr m).2

theorem idle_of_release (hst : c.step rt cls (.release (some t) m) = some (o, c')) :
    c.pc t = .idle := by
  simp only [step] at hst
  split_ifs at hst with hcall
  simpa [canCall] using hcall

theorem idle_of_downgrade (hst : c.step rt cls (.downgrade (some t)) = some (o, c')) :
    c.pc t = .idle := by
  simp only [step] at hst
  split_ifs at hst with hcall
  simpa [canCall] using hcall

/-- `__exit__` of a read block. -/
theorem step_exit_read (h : HolderReachable rt cls c) (hpc : c.pc t = .idle)
    (hr : 0 < c.holds.reads (some t)) :
    ∃ c', c.step rt cls (.release (some t) .read) = some (.released, c') ∧
      c'.holds = giveBack c.holds (some t) .read ∧ c'.pc = c.pc ∧
      c'.lock.downgraded = c.lock.downgraded := by
  rw [← h.ledger.reads] at hr
  exact ⟨_, step_release_read hpc hr, rfl, rfl, (cls.signals_onReaderLeave _).downgraded⟩

theorem unmark_downgraded (s : RWLock τ) (k : Option τ) (hk : k ≠ none) :
    (s.unmark k).downgraded ≠ k := by
  unfold RWLock.unmark
  split_ifs with h
  · exact hk.symm
  · exact h

/-- `__exit__` of a write block, downgraded or not. -/
theorem step_exit_write (h : HolderReachable rt cls c) (hpc : c.pc t = .idle)
    (hold : 0 < c.holds.writes (some t) ∨
      c.holds.writes (some t) = 0 ∧ 0 < c.holds.reads (some t) ∧
        c.lock.downgraded = some t) :
    ∃ c', c.step rt cls (.release (some t) .write) = some (.released, c') ∧
      c'.holds = giveBack c.holds (some t) .write ∧ c'.pc = c.pc ∧
      c'.lock.downgraded ≠ some t := by
  have hl := h.ledger
  have hun := unmark_downgraded c.lock (some t) (by simp)
  rcases hold with hw | ⟨-, hr, hm⟩
  · have hcall : c.canCall rt (some t) = true := by simp [canCall, hpc]
    obtain ⟨⟨o, c'⟩, hst⟩ : ∃ r, c.step rt cls (.release (some t) .write) = some r :=
      ⟨_, if_pos hcall⟩
    have ho := hl.owner_of_writes hw
    cases step_deed h.reachable.wellFormed hst rfl with
    | routed _ hm =>
        have := hl.marker t hm hw
        rw [hpc] at this
        cases this
    | countsDown => exact ⟨_, hst, rfl, rfl, hun⟩
    | frees =>
        have hsig := cls.signals_onWriterAbort (c.lock.unmark (some t)).freeWriter none
        exact ⟨_, hst, rfl, rfl, hsig.downgraded.symm ▸ hun⟩
    | freeRaises _ hn =>
        rcases hn with hn | ⟨-, hn⟩
        · cases hn.symm.trans ho
        · exact absurd ho hn
  · rw [← hl.reads] at hr
    exact ⟨_, step_release_routed rt cls hpc hm hr, rfl, rfl, by simp⟩

/-- `write.downgrade()` turns the only write hold of its caller into a read hold, or raises. -/
theorem step_downgrades (h : HolderReachable rt cls c)
    (hst : c.step rt cls (.downgrade (some t)) = some (o, c')) :
    o = .downgraded ∧ c.holds.writes (some t) = 1 ∧
        c'.holds = c.holds.downgrade (some t) ∧ c'.pc = c.pc ∧ c'.lock.downgraded = some t ∨
      o ≠ .downgraded ∧ c.holds.writes (some t) ≠ 1 ∧ c' = c := by
  cases step_deed h.reachable.wellFormed hst rfl with
  | downgrades _ ho hd =>
      have hw := h.ledger.writes t
      rw [if_pos ho, hd] at hw
      have hw : c.holds.writes (some t) = 1 := by omega
      exact .inl ⟨rfl, hw, by simp [convert, hw], rfl, rfl⟩
  | downgradeRaises hpc =>
      have hno : c.holds.writes (some t) = 0 ∨ 1 < c.holds.writes (some t) :=
        ((h.downgrade_raises hpc).1 ⟨_, hst⟩).2
      exact .inr ⟨by simp, by omega, rfl⟩

/-- Who downgrades is marked, and nobody else. -/
theorem marker_origin (hb : Books cls c.lock) (hst : c.step rt cls a = some (o, c'))
    (ha : a.caller = some t) (hno : a ≠ .downgrade (some u))
    (hm : c'.lock.downgraded = some u) : c.lock.downgraded = some u := by
  have hatt : ∀ {m o}, Attempt rt cls c t c' m o → c.lock.downgraded = some u := by
    intro m o hatt
    cases hatt with
    | fails hs | reads hs => exact hs.downgraded.symm.trans hm
    | writes _ _ hmark =>
        rw [hmark] at hm
        split_ifs at hm
        exact hm
  cases step_effect hb hst ha with
  | acquire _ h | resume _ h => exact hatt h
  | interrupt _ _ hs => exact hs.downgraded.symm.trans hm
  | clear => cases hm
  | release _ hgb =>
      rcases hgb.downgraded with h | ⟨-, -, h⟩
      · exact h.symm.trans hm
      · cases h.symm.trans hm
  | downgrade _ _ _ _ hm' =>
      obtain rfl : t = u := Option.some.inj (hm'.symm.trans hm)
      exact absurd rfl hno
  | downgradeRaised => exact hm

/-- Nobody takes the marker of a downgraded block from its thread. -/
theorem marker_kept (h : HolderReachable rt cls c) (hst : c.step rt cls a = some (o, c'))
    (ha : a.caller ≠ none) (hby : ByHolder c a) (hut : a.caller ≠ some u)
    (hm : c.lock.downgraded = some u) (hw : c.holds.writes (some u) = 0)
    (hr : 0 < c.holds.reads (some u)) : c'.lock.downgraded = some u := by
  have ho : cls.owner c.lock = none := by
    rcases h.books.exclusive (some u) (by rwa [h.ledger.reads]) with ho | ⟨-, ho⟩
    · exact ho
    · have := h.ledger.writes_pos h.books ho
      omega
  refine marked_of_run h ho hm (.single ⟨⟨⟨⟨ha, hby⟩, hr⟩, ?_⟩, o, hst⟩)
  rintro rfl
  exact hut rfl

end System

namespace Client

/-- What a thread is at fits what it holds (module doc). -/
structure Framed (c : Client τ L σ) (t : τ) : Prop where
  holds : c.sys.holds.writes (some t) = openBlocks .write (c.threads t).stack ∧
      c.sys.holds.reads (some t) = openBlocks .read (c.threads t).stack ∨
    openBlocks .write (c.threads t).stack = 1 ∧ c.sys.holds.writes (some t) = 0 ∧
      c.sys.holds.reads (some t) = openBlocks .read (c.threads t).stack + 1 ∧
      c.sys.lock.downgraded = some t
  waiting : ∀ m seq timed i, c.sys.pc t = .waiting m seq timed i →
    timed = false ∧ ∃ body, (c.threads t).ctl = .entering m body
  entering : ∀ m body, (c.threads t).ctl = .entering m body → InFlight c.sys.pc m t
  clearing : c.sys.pc t = .clearing → ∃ body, (c.threads t).ctl = .run body
  marker : c.sys.lock.downgraded = some t → c.sys.holds.writes (some t) = 0 ∧
    openBlocks .write (c.threads t).stack = 1

variable {rt : Runtime} {cls : LockClass} {c c' : Client τ L σ} {t u : τ} {e : Event τ}
  {prog : τ → Code L σ}

/-- A step of the lock and of one thread leaves the others framed. -/
theorem Framed.of_untouched (h : Framed c u) (hth : c'.threads u = c.threads u)
    (hun : Untouched u c.sys c'.sys)
    (hm : c.sys.lock.downgraded = some u → c.sys.holds.writes (some u) = 0 →
      0 < c.sys.holds.reads (some u) → c'.sys.lock.downgraded = some u)
    (hm' : c'.sys.lock.downgraded = some u → c.sys.lock.downgraded = some u) :
    Framed c' u where
  holds := by
    rw [hth, hun.writes, hun.reads]
    refine h.holds.imp_right fun ⟨h₁, h₂, h₃, h₄⟩ => ⟨h₁, h₂, h₃, hm h₄ h₂ (by omega)⟩
  waiting m seq timed i hpc := by
    rw [hth]
    exact h.waiting m seq timed i (hun.pc ▸ hpc)
  entering m body hctl := by
    rw [InFlight, hun.pc]
    exact h.entering m body (hth ▸ hctl)
  clearing hpc := by
    rw [hth]
    exact h.clearing (hun.pc ▸ hpc)
  marker hmark := by
    rw [hth, hun.writes]
    exact h.marker (hm' hmark)

/-- A silent step opens and closes no block. -/
theorem silent_openBlocks {th th' : Thread L σ} {d d' : σ} (h : Silent th d th' d') (m : Mode) :
    openBlocks m th'.stack = openBlocks m th.stack := by
  cases h <;> rfl

theorem silent_ctl {th th' : Thread L σ} {d d' : σ} (h : Silent th d th' d') (m : Mode)
    (body : Code L σ) : th'.ctl ≠ .entering m body := by
  cases h <;> simp <;> split_ifs <;> simp

theorem Framed.silent (h : Framed c t) (hpc : c.sys.pc t = .idle) {th : Thread L σ} {d : σ}
    (hs : Silent (c.threads t) c.data th d) : Framed ({ c with data := d }.put t th) t where
  holds := by
    have hth : ({ c with data := d }.put t th).threads t = th := Function.update_self ..
    rw [hth, silent_openBlocks hs, silent_openBlocks hs]
    exact h.holds
  waiting m seq timed i hw := by
    cases hpc.symm.trans hw
  entering m body hctl := by
    have hth : ({ c with data := d }.put t th).threads t = th := Function.update_self ..
    rw [hth] at hctl
    exact absurd hctl (silent_ctl hs m body)
  clearing hw := by
    cases hpc.symm.trans hw
  marker hmark := by
    have hth : ({ c with data := d }.put t th).threads t = th := Function.update_self ..
    rw [hth, silent_openBlocks hs]
    exact h.marker hmark

/-- What follows an `__enter__` that raises is framed. -/
theorem Framed.failed (h : Framed c t) {m : Mode} (body : Code L σ) {o : Outcome}
    {s : System τ} (hh : s.holds = c.sys.holds) (hpc : s.pc t = .idle)
    (hm : s.lock.downgraded = c.sys.lock.downgraded)
    (hmark' : s.lock.downgraded = some t → c.sys.lock.downgraded = some t)
    (hno : ∀ m', o ≠ .acquired m') (hnp : o ≠ .parked) :
    Framed ({ c with sys := s }.put t ((c.threads t).landed m body o)) t := by
  have hland : (c.threads t).landed m body o = { c.threads t with ctl := .ended .raised } := by
    cases o with
    | acquired m' => exact absurd rfl (hno m')
    | parked => exact absurd rfl hnp
    | _ => rfl
  rw [hland]
  refine ⟨?_, fun m' seq timed i hw => ?_, fun m' b hctl => ?_, fun hw => ?_, fun hmark => ?_⟩
  · simp only [put, Function.update_self, hh, hm]
    exact h.holds
  · cases hpc.symm.trans hw
  · simp [put] at hctl
  · cases hpc.symm.trans hw
  · simp only [put, Function.update_self, hh]
    exact h.marker (hmark' hmark)

/-- What follows `__enter__` is framed. -/
theorem Framed.landed (h : Framed c t) {m : Mode} (body : Code L σ) {o : Outcome}
    {s : System τ} (hl : c.sys.Landed rt cls t m o s)
    (hmark' : s.lock.downgraded = some t → c.sys.lock.downgraded = some t) :
    Framed ({ c with sys := s }.put t ((c.threads t).landed m body o)) t := by
  cases hl with
  | enters hh hpc hm he =>
      have hup : m = .write → 0 < c.sys.holds.writes (some t) ∨ c.sys.holds.reads (some t) = 0 := by
        rintro rfl
        by_contra hno
        simp [Own.entry, System.own, show c.sys.holds.writes (some t) = 0 by omega,
          show 0 < c.sys.holds.reads (some t) by omega] at he
      refine ⟨?_, fun m' seq timed i hw => absurd ⟨_, _, _, hw⟩ (hpc m'), fun m' b hctl => ?_,
        fun _ => ⟨body, by simp [put, Thread.landed]⟩, fun hmark => ?_⟩
      · simp only [put, Function.update_self, Thread.landed, openBlocks, hh]
        cases m with
        | read =>
            rcases h.holds with ⟨h₁, h₂⟩ | ⟨h₁, h₂, h₃, h₄⟩
            · left
              simpa [System.grant] using ⟨h₁, h₂⟩
            · right
              refine ⟨by simpa using h₁, by simpa [System.grant] using h₂, ?_, (hm rfl).trans h₄⟩
              simp [System.grant, h₃]
        | write =>
            rcases h.holds with ⟨h₁, h₂⟩ | ⟨h₁, h₂, h₃, h₄⟩
            · left
              simpa [System.grant] using ⟨h₁, h₂⟩
            · rcases hup rfl with hw | hr
              · omega
              · omega
      · simp [put, Thread.landed] at hctl
      · obtain ⟨h₁, h₂⟩ := h.marker (hmark' hmark)
        cases m with
        | read => simpa [put, Thread.landed, openBlocks, hh, System.grant] using ⟨h₁, h₂⟩
        | write =>
            have hr : 0 < c.sys.holds.reads (some t) := by
              rcases h.holds with ⟨h₃, -⟩ | ⟨-, -, h₃, -⟩
              · omega
              · omega
            rcases hup rfl with hw | hr'
            · omega
            · omega
  | parks hh hpc hm =>
      refine ⟨?_, fun m' seq timed i hw => ?_, fun m' b hctl => ?_, fun hw => ?_, fun hmark => ?_⟩
      · simp only [put, Function.update_self, Thread.landed, hh, hm]
        exact h.holds
      · cases hpc.symm.trans hw
        exact ⟨rfl, body, by simp [put, Thread.landed]⟩
      · simp only [put, Function.update_self, Thread.landed, Ctl.entering.injEq] at hctl
        obtain ⟨rfl, -⟩ := hctl
        exact ⟨_, _, _, hpc⟩
      · cases hpc.symm.trans hw
      · simp only [put, Function.update_self, Thread.landed, hh]
        exact h.marker (hmark' hmark)
  | cancelled _ hh hpc hm => exact h.failed body hh hpc hm hmark' (by simp) (by simp)
  | raised hpc => exact h.failed body rfl hpc rfl hmark' (by simp) (by simp)

omit [DecidableEq τ] in
/-- What a block that ends has is enough for its `__exit__`. -/
theorem Framed.byHolder (h : Framed c t) {m : Mode} {st : List (Frame L σ)}
    (hst : (c.threads t).stack = .exit m :: st) : System.ByHolder c.sys (.release (some t) m) := by
  have hh := h.holds
  rw [hst] at hh
  cases m with
  | read =>
      simp only [openBlocks, if_true] at hh
      show 0 < c.sys.holds.reads (some t)
      omega
  | write =>
      simp only [openBlocks, if_true] at hh
      show 0 < c.sys.holds.writes (some t) ∨ 0 < c.sys.holds.reads (some t)
      omega

/-- **`__exit__` does not raise**, and gives back one hold. -/
theorem Framed.exits (h : Framed c t) (hr : c.sys.HolderReachable rt cls)
    (hpc : c.sys.pc t = .idle) {m : Mode} {st : List (Frame L σ)}
    (hst : (c.threads t).stack = .exit m :: st) :
    ∃ s, c.sys.step rt cls (.release (some t) m) = some (.released, s) ∧
      s.holds = System.giveBack c.sys.holds (some t) m ∧
      ∀ ctl : Ctl L σ, (∀ m body, ctl ≠ .entering m body) →
        Framed ({ c with sys := s }.put t { c.threads t with ctl := ctl, stack := st }) t := by
  have hh := h.holds
  rw [hst] at hh
  have hgoes : ∀ {s : System τ}, s.pc = c.sys.pc →
      (s.holds.writes (some t) = openBlocks .write st ∧
          s.holds.reads (some t) = openBlocks .read st ∨
        openBlocks .write st = 1 ∧ s.holds.writes (some t) = 0 ∧
          s.holds.reads (some t) = openBlocks .read st + 1 ∧ s.lock.downgraded = some t) →
      (s.lock.downgraded = some t → s.holds.writes (some t) = 0 ∧ openBlocks .write st = 1) →
      ∀ ctl : Ctl L σ, (∀ m body, ctl ≠ .entering m body) →
        Framed ({ c with sys := s }.put t { c.threads t with ctl := ctl, stack := st }) t := by
    intro s hs hholds hmark ctl hctl
    have hidle : s.pc t = .idle := by rw [hs, hpc]
    refine ⟨by simpa [put] using hholds, fun m seq timed i hw => ?_, fun m body hbody => ?_,
      fun hw => ?_, by simpa [put] using hmark⟩
    · cases hidle.symm.trans hw
    · simp only [put, Function.update_self] at hbody
      exact absurd hbody (hctl m body)
    · cases hidle.symm.trans hw
  cases m with
  | read =>
      simp only [openBlocks, if_true, reduceCtorEq, if_false] at hh
      obtain ⟨s, hstep, hgive, hspc, hm⟩ :=
        System.step_exit_read hr hpc (by omega)
      refine ⟨s, hstep, hgive, hgoes hspc ?_ fun hmark => ?_⟩
      · rw [hgive, hm]
        simp only [System.giveBack, ReadersWriter.Holds.dropRead_writes,
          ReadersWriter.Holds.dropRead_reads, if_true]
        rcases hh with ⟨h₁, h₂⟩ | ⟨h₁, h₂, h₃, h₄⟩
        · exact .inl ⟨h₁, by omega⟩
        · exact .inr ⟨h₁, h₂, by omega, h₄⟩
      · have hb := h.marker (hm.symm.trans hmark)
        rw [hst] at hb
        simpa [hgive, System.giveBack, openBlocks] using hb
  | write =>
      simp only [openBlocks, if_true, reduceCtorEq, if_false] at hh
      have hold : 0 < c.sys.holds.writes (some t) ∨
          c.sys.holds.writes (some t) = 0 ∧ 0 < c.sys.holds.reads (some t) ∧
            c.sys.lock.downgraded = some t := by
        rcases hh with ⟨h₁, -⟩ | ⟨-, h₂, h₃, h₄⟩
        · exact .inl (by omega)
        · exact .inr ⟨h₂, by omega, h₄⟩
      obtain ⟨s, hstep, hgive, hspc, hun⟩ := System.step_exit_write hr hpc hold
      refine ⟨s, hstep, hgive, hgoes hspc (.inl ?_) fun hmark => absurd hmark hun⟩
      rw [hgive]
      -- the hold that the block turned into a read hold goes back as one
      rcases hh with ⟨h₁, h₂⟩ | ⟨h₁, h₂, h₃, -⟩
      · simp only [System.giveBack, if_pos (show 0 < c.sys.holds.writes (some t) by omega),
          ReadersWriter.Holds.dropWrite_writes, ReadersWriter.Holds.dropWrite_reads, if_true]
        omega
      · simp only [System.giveBack, if_neg (show ¬ 0 < c.sys.holds.writes (some t) by omega),
          ReadersWriter.Holds.dropRead_writes, ReadersWriter.Holds.dropRead_reads, if_true]
        omega

theorem Framed.downgrades (h : Framed c t) (hr : c.sys.HolderReachable rt cls)
    (hpc : c.sys.pc t = .idle) {o : Outcome} {s : System τ}
    (hst : c.sys.step rt cls (.downgrade (some t)) = some (o, s)) (ctl : Ctl L σ)
    (hctl : ∀ m body, ctl ≠ .entering m body) :
    Framed ({ c with sys := s }.put t { c.threads t with ctl := ctl }) t := by
  have hs := System.step_downgrades hr hst
  have hpc' : s.pc t = .idle := by
    rcases hs with ⟨-, -, -, h', -⟩ | ⟨-, -, rfl⟩
    · rw [h', hpc]
    · exact hpc
  refine ⟨?_, fun m seq timed i hw => ?_, fun m body hbody => ?_, fun hw => ?_,
    fun hmark => ?_⟩
  · simp only [put, Function.update_self]
    rcases hs with ⟨-, hw, hh, -, hm⟩ | ⟨-, -, rfl⟩
    · rcases h.holds with ⟨h₁, h₂⟩ | ⟨-, h₂, -⟩
      · refine .inr ⟨by omega, ?_, ?_, hm⟩
        · simp [hh, hw]
        · simp [hh, h₂]
      · omega
    · exact h.holds
  · cases hpc'.symm.trans hw
  · simp only [put, Function.update_self] at hbody
    exact absurd hbody (hctl m body)
  · cases hpc'.symm.trans hw
  · simp only [put, Function.update_self]
    rcases hs with ⟨-, hw, hh, -, -⟩ | ⟨-, -, rfl⟩
    · rcases h.holds with ⟨h₁, -⟩ | ⟨h₁, -⟩
      · exact ⟨by simp [hh, hw], by omega⟩
      · exact ⟨by simp [hh, hw], h₁⟩
    · exact h.marker hmark

/-- Clearing the marker. -/
theorem Framed.clears (h : Framed c t) (hr : c.sys.HolderReachable rt cls) {o : Outcome}
    {s : System τ} (hst : c.sys.step rt cls (.clear t) = some (o, s)) :
    Framed ({ c with sys := s }.put t (c.threads t)) t := by
  cases System.step_deed hr.reachable.wellFormed hst rfl with
  | clears hpc =>
      have hw := hr.ledger.clearing t hpc
      refine ⟨?_, fun m seq timed i hw => ?_, fun m body hctl => ?_, fun hw => ?_,
        fun hmark => ?_⟩
      · simp only [put, Function.update_self]
        exact h.holds.imp_right fun hd => absurd hd.2.1 (by omega)
      · simp [put, System.put] at hw
      · simp only [put, Function.update_self] at hctl
        obtain ⟨_, _, _, hpc'⟩ := h.entering m body hctl
        cases hpc.symm.trans hpc'
      · simp [put, System.put] at hw
      · simp [put, System.put] at hmark

/-- An interrupt finds its victim in `__enter__`. -/
theorem Framed.interrupts (h : Framed c t) (hr : c.sys.HolderReachable rt cls) {o : Outcome}
    {s : System τ} (hst : c.sys.step rt cls (.interrupt t) = some (o, s)) :
    Framed ({ c with sys := s }.put t (c.threads t)) t := by
  have hgoes : ∀ {m : Mode} {seq : ℕ} {timed i : Bool} {s : System τ},
      c.sys.pc t = .waiting m seq timed i → s.holds = c.sys.holds →
      s.lock.downgraded = c.sys.lock.downgraded → s.pc t = .waiting m seq timed true →
      Framed ({ c with sys := s }.put t (c.threads t)) t := by
    intro m seq timed i s hpc hh hm hpc'
    obtain ⟨htimed, body, hctl⟩ := h.waiting m seq timed i hpc
    refine ⟨?_, fun m' seq' timed' i' hw => ?_, fun m' body' hctl' => ?_, fun hw => ?_,
      fun hmark => ?_⟩
    · simp only [put, Function.update_self, hh, hm]
      exact h.holds
    · cases hpc'.symm.trans hw
      exact ⟨htimed, body, by simpa [put] using hctl⟩
    · simp only [put, Function.update_self] at hctl'
      cases hctl.symm.trans hctl'
      exact ⟨_, _, _, hpc'⟩
    · cases hpc'.symm.trans hw
    · simp only [put, Function.update_self, hh]
      exact h.marker (hm.symm.trans hmark)
  cases System.step_deed hr.reachable.wellFormed hst rfl with
  | timesOut _ hpc => exact hgoes hpc rfl rfl (Function.update_self ..)
  | isCancelled _ hpc => exact hgoes hpc rfl rfl (Function.update_self ..)

/-- **A step of a client keeps its threads framed**, and the promise of those who hold. -/
theorem Does.framed (hd : Does rt cls c t c') (hr : c.sys.HolderReachable rt cls)
    (hf : ∀ u, Framed c u) : c'.sys.HolderReachable rt cls ∧ ∀ u, Framed c' u := by
  cases hd with
  | @silent th d hpc hs =>
      refine ⟨hr, fun u => ?_⟩
      by_cases hut : u = t
      · subst hut
        exact (hf u).silent hpc hs
      · exact (hf u).of_untouched (Function.update_of_ne hut _ _) (System.untouched_refl ..)
          (fun hm _ _ => hm) fun hm => hm
  | @calls a k o s hk hst =>
      have hcaller : a.caller = some t := by
        generalize c.threads t = th at hk
        cases hk <;> rfl
      have hby : System.ByHolder c.sys a := by
        generalize hth : c.threads t = th at hk
        cases hk with
        | exit => exact (hf t).byHolder (congrArg Thread.stack hth)
        | _ => trivial
      have hr' : s.HolderReachable rt cls := hr.step hst (by simp [hcaller]) hby
      have horigin : ∀ u, a ≠ .downgrade (some u) → s.lock.downgraded = some u →
          c.sys.lock.downgraded = some u := fun u hno =>
        System.marker_origin hr.books hst hcaller hno
      refine ⟨hr', fun u => ?_⟩
      by_cases hut : u = t
      · subst hut
        generalize hth : c.threads u = th at hk
        cases hk with
        | @enter m body =>
            have hland := (hf u).landed body (System.step_enter hr hst) (horigin u (by simp))
            rw [hth] at hland
            exact hland
        | downgrade =>
            have hdown := (hf u).downgrades hr (System.idle_of_downgrade hst) hst
              (.ended (if o = .downgraded then .normal else .raised)) (by simp)
            rw [hth] at hdown
            exact hdown
        | exit =>
            obtain ⟨s', hstep, -, hexit⟩ :=
              (hf u).exits hr (System.idle_of_release hst) (congrArg Thread.stack hth)
            cases hstep.symm.trans hst
            rw [hth] at hexit
            exact hexit _ (by simp)
        | @resume m body st l =>
            obtain ⟨seq, timed, i, hpc⟩ := (hf u).entering m body (congrArg Thread.ctl hth)
            obtain ⟨rfl, -⟩ := (hf u).waiting m seq timed i hpc
            have hland := (hf u).landed body (System.step_goes_on hr hpc hst)
              (horigin u (by simp))
            rw [hth] at hland
            exact hland
        | clear => exact hth ▸ (hf u).clears hr hst
        | interrupt => exact hth ▸ (hf u).interrupts hr hst
      · have hcu : a.caller ≠ some u := by simpa [hcaller] using Ne.symm hut
        exact (hf u).of_untouched (Function.update_of_ne hut _ _)
          (System.step_untouched hr.books hst (by simp [hcaller]) hcu)
          (fun hm hw hrd => System.marker_kept hr hst (by simp [hcaller]) hby hcu hm hw hrd)
          (horigin u fun ha => hcu (by rw [ha]; rfl))

omit [DecidableEq τ] in
theorem framed_init {c : Client τ L σ} (h : Init prog c) (t : τ) : Framed c t := by
  obtain ⟨hsys, hth⟩ := h
  obtain ⟨hctl, hst⟩ := hth t
  refine ⟨.inl ?_, fun m seq timed i hw => ?_, fun m body hb => ?_, fun hw => ?_,
    fun hm => ?_⟩
  · rw [hst, hsys]
    exact ⟨rfl, rfl⟩
  · rw [hsys] at hw
    cases hw
  · cases hctl.symm.trans hb
  · rw [hsys] at hw
    cases hw
  · rw [hsys] at hm
    cases hm

/-- **A client keeps its promise**, and its threads stay framed, after every run. -/
theorem Reachable.framed (h : Reachable rt cls prog c) :
    c.sys.HolderReachable rt cls ∧ ∀ t, Framed c t := by
  refine Transition.Reachable.invariant
    (I := fun c => c.sys.HolderReachable rt cls ∧ ∀ t, Framed c t) ?_ ?_ h
  · intro c hc
    refine ⟨?_, framed_init hc⟩
    rw [hc.1]
    exact .start rfl
  · rintro c e c' ⟨hr, hf⟩ hst
    exact (step_does hst).framed hr hf

omit [DecidableEq τ] in
/-- A thread whose code has ended is at its next statement. -/
theorem Framed.idle (h : Framed c t) {s : Status} (hctl : (c.threads t).ctl = .ended s) :
    c.sys.pc t = .idle := by
  cases hpc : c.sys.pc t with
  | idle => rfl
  | waiting m seq timed i =>
      obtain ⟨-, body, hb⟩ := h.waiting m seq timed i hpc
      cases hctl.symm.trans hb
  | clearing =>
      obtain ⟨body, hb⟩ := h.clearing hpc
      cases hctl.symm.trans hb

/-- **Every block gives back what it took.**  When a block ends, in whatever way, its
`__exit__` is enabled at once, does not raise, gives back one hold, the one that the block
holds by now, and hands on how the block ended. -/
theorem exit_gives_back (h : Reachable rt cls prog c) {m : Mode} {s : Status}
    {st : List (Frame L σ)} (hctl : (c.threads t).ctl = .ended s)
    (hst : (c.threads t).stack = .exit m :: st) :
    ∃ c', c.step rt cls (.go t) = some c' ∧
      c.sys.step rt cls (.release (some t) m) = some (.released, c'.sys) ∧
      c'.sys.holds = System.giveBack c.sys.holds (some t) m ∧ c'.data = c.data ∧
      c'.threads = Function.update c.threads t ⟨.ended s, st, (c.threads t).loc⟩ := by
  obtain ⟨hr, hf⟩ := h.framed
  have hpc := (hf t).idle hctl
  obtain ⟨s', hstep, hgive, -⟩ := (hf t).exits hr hpc hst
  refine ⟨{ c with sys := s' }.put t ⟨.ended s, st, (c.threads t).loc⟩, ?_, hstep, hgive, rfl, rfl⟩
  simp only [step, hpc, if_true, go, hctl, hst, call, hstep, Option.map_some]

/-- A write block that downgrades, and an exception in a read block inside it. -/
def downgradingBlock : Code Unit ℕ :=
  .withLock .write (.seq .downgrade (.withLock .read .raise))

/-- The write block ends by an exception and gives back a read hold, under the eyes of a
writer that waits. -/
theorem exit_gives_back_downgraded : ∃ c : Client (Fin 2) Unit ℕ,
    c.sys.holds.writes (some 0) = 0 ∧ InFlight c.sys.pc .write 1 ∧
    ∃ c', c.step .async .write (.go 0) = some c' ∧
      c.sys.step .async .write (.release (some 0) .write) = some (.released, c'.sys) ∧
      c'.sys.holds = System.giveBack c.sys.holds (some 0) .write ∧ c'.data = c.data ∧
      c'.threads = Function.update c.threads 0 ⟨.ended .raised, [], (c.threads 0).loc⟩ := by
  have hc : Reachable .async .write (fun _ => downgradingBlock) _ := reachable_of_replay
    (show Transition.replay _ (start (fun _ : Fin 2 => downgradingBlock) (fun _ => ()) 0)
      [.go 0, .go 0, .go 0, .go 0, .go 1, .go 0, .go 0, .go 0] = some _ from rfl)
  exact ⟨_, rfl, ⟨1, false, false, rfl⟩, exit_gives_back hc rfl rfl⟩

/-- The thread has ended, and so have all its blocks. -/
def Done (c : Client τ L σ) (t : τ) : Prop :=
  (c.threads t).stack = [] ∧ ∃ s, (c.threads t).ctl = .ended s

omit [DecidableEq τ] in
theorem Framed.at_rest (h : Framed c t) (hd : Done c t) :
    c.sys.pc t = .idle ∧ c.sys.holds.reads (some t) = 0 ∧ c.sys.holds.writes (some t) = 0 ∧
      c.sys.lock.downgraded ≠ some t := by
  obtain ⟨hst, s, hctl⟩ := hd
  have hh := h.holds
  have hm := h.marker
  rw [hst] at hh hm
  simp only [openBlocks] at hh
  exact ⟨h.idle hctl, by omega, by omega, fun hmark => by cases (hm hmark).2⟩

/-- **Programs leave no residue.**  Whatever exceptions, cancellations, nested blocks and
downgrades there were, when every thread has ended the lock is as new: but for sequence
numbers and the cutoff of the last phase it is a new lock, and it behaves as one, whatever
anybody calls from then on. -/
theorem programs_leave_no_residue (h : Reachable rt cls prog c) (hdone : ∀ t, Done c t) :
    c.sys.lock = {
      proxy := fun m => { waiterSeq := (c.sys.lock.proxy m).waiterSeq }
      readerPhaseCutoff := c.sys.lock.readerPhaseCutoff } ∧
      System.BehavesAsNewToAll rt cls c.sys := by
  obtain ⟨hr, hf⟩ := h.framed
  have hrest : System.AtRest c.sys := by
    constructor
    · intro m t
      exact not_inFlight_of_idle ((hf t).at_rest (hdone t)).1 m
    · rintro (_ | t)
      · exact ⟨by rw [← hr.ledger.reads]; exact hr.books.noneReads, hr.ledger.noneWrites⟩
      · obtain ⟨-, hreads, hwrites, -⟩ := (hf t).at_rest (hdone t)
        exact ⟨hreads, hwrites⟩
  have hmark : c.sys.lock.downgraded = none := by
    cases hm : c.sys.lock.downgraded with
    | none => rfl
    | some t => exact absurd hm ((hf t).at_rest (hdone t)).2.2.2
  have hlock := hr.lock_at_rest hrest
  rw [hmark] at hlock
  exact ⟨hlock, (hr.alike_new hrest hmark).behavesAsNew⟩

/-- Two such blocks, the second of which waits for the first. -/
theorem programs_leave_no_residue_downgraded : ∃ c : Client (Fin 2) Unit ℕ,
    (c.sys.lock.proxy .write).waiterSeq = 1 ∧
    c.sys.lock = {
      proxy := fun m => { waiterSeq := (c.sys.lock.proxy m).waiterSeq }
      readerPhaseCutoff := c.sys.lock.readerPhaseCutoff } ∧
      System.BehavesAsNewToAll .async .write c.sys := by
  have hc : Reachable .async .write (fun _ => downgradingBlock) _ := reachable_of_replay
    (show Transition.replay _ (start (fun _ : Fin 2 => downgradingBlock) (fun _ => ()) 0)
      [.go 0, .go 0, .go 0, .go 0, .go 1, .go 0, .go 0, .go 0, .go 0, .resume 1, .go 1, .go 1,
        .go 1, .go 1, .go 1, .go 1, .go 1] = some _ from rfl)
  refine ⟨_, rfl, programs_leave_no_residue hc (Fin.forall_fin_two.2 ⟨?_, ?_⟩)⟩
  · exact ⟨rfl, _, rfl⟩
  · exact ⟨rfl, _, rfl⟩

end Client

end Rwlocker

/-
# Blocks are transactions

Whatever the interleaving, threads that use the lock through `with` blocks cannot tell it
from the machine that runs every outermost block in one step (`Atomic`), provided that no
block goes wrong there: that they read the data under a hold and update it under the write
lock, and that no owner of a plain lock waits for itself.

A client follows that machine (`Follows`): a block takes place there when it is entered
here.  While a thread is inside, what is left of its block leads to where the thread already
is in the machine (`finish`); the data there is what the writer inside will leave.  A block
that downgrades has made its updates by then, so the readers it lets in see them.
-/

import Rwlocker.BlockDiscipline

namespace Rwlocker

variable {τ L σ : Type}

/-- A thread that waits for its outermost block has not begun it. -/
def Thread.before (th : Thread L σ) : Thread L σ :=
  match th.ctl with
  | .entering m a => { th with ctl := .run (.withLock m a) }
  | _ => th

theorem Thread.before_of_ctl {th : Thread L σ} (h : ∀ m a, th.ctl ≠ .entering m a) :
    th.before = th := by
  obtain ⟨ctl, st, l⟩ := th
  cases ctl with
  | entering m a => exact absurd rfl (h m a)
  | _ => rfl

theorem Thread.before_loc (th : Thread L σ) : th.before.loc = th.loc := by
  obtain ⟨ctl, st, l⟩ := th
  cases ctl <;> rfl

variable [DecidableEq τ]

namespace System

variable {rt : Runtime} {cls : LockClass} {c c' : System τ} {t u : τ} {m : Mode}

/-- While `t` is inside, nobody else writes. -/
theorem HolderReachable.nobody_writes (h : HolderReachable rt cls c) (ht : ¬ (c.own t).Free)
    (hu : u ≠ t) : (c.own u).writes = 0 := by
  by_contra hw
  have hex := h.exclusive (some u) (some t) (show 0 < c.holds.writes (some u) from
    Nat.pos_of_ne_zero hw) (by simpa using hu.symm)
  exact ht hex

/-- While `t` writes, nobody else is inside. -/
theorem HolderReachable.nobody_inside (h : HolderReachable rt cls c) (ht : 0 < (c.own t).writes)
    (hu : u ≠ t) : (c.own u).Free :=
  h.exclusive (some t) (some u) ht (by simpa using hu)

theorem own_grant (h : c'.holds = grant c.holds (some t) m) : c'.own t = (c.own t).grant m := by
  cases m <;> simp [own, h, grant, Own.grant]

theorem own_giveBack (h : c'.holds = giveBack c.holds (some t) m) :
    c'.own t = (c.own t).giveBack m := by
  cases m with
  | read => simp [own, h, giveBack, Own.giveBack]
  | write =>
      by_cases hw : 0 < c.holds.writes (some t)
      · simp [own, h, giveBack, Own.giveBack, hw]
      · simp [own, h, giveBack, Own.giveBack, hw]

end System

namespace Client

/-- What the machine of whole blocks does while a client runs (module doc). -/
structure Follows (re : Bool) (c : Client τ L σ) (s : Atomic τ L σ) : Prop where
  outside : ∀ t, (c.sys.own t).Free → s.threads t = (c.threads t).before
  inside : ∀ t, ¬ (c.sys.own t).Free → ∃ d,
    finish re (c.threads t) (c.sys.own t) c.data = some (s.threads t, d) ∧
      (0 < (c.sys.own t).writes → s.data = d)
  data : (∀ t, (c.sys.own t).writes = 0) → s.data = c.data

variable {rt : Runtime} {cls : LockClass} {re : Bool} {c c' : Client τ L σ} {s s' : Atomic τ L σ}
  {t u : τ} {prog : τ → Code L σ} {m : Mode} {o : Outcome} {y : System τ}

/-- A step of `t` is followed when `t` is, and the data is left alone or nobody else is
inside. -/
theorem Follows.step_of (hF : Follows re c s)
    (hth : ∀ u, u ≠ t → c'.threads u = c.threads u)
    (hown : ∀ u, u ≠ t → c'.sys.own u = c.sys.own u)
    (hs : ∀ u, u ≠ t → s'.threads u = s.threads u)
    (hdata : c'.data = c.data ∧ s'.data = s.data ∨ ∀ u, u ≠ t → (c.sys.own u).Free)
    (hout : (c'.sys.own t).Free → s'.threads t = (c'.threads t).before)
    (hin : ¬ (c'.sys.own t).Free → ∃ d,
      finish re (c'.threads t) (c'.sys.own t) c'.data = some (s'.threads t, d) ∧
        (0 < (c'.sys.own t).writes → s'.data = d))
    (hall : (∀ u, (c'.sys.own u).writes = 0) → s'.data = c'.data) : Follows re c' s' := by
  refine ⟨fun u hu => ?_, fun u hu => ?_, hall⟩
  · by_cases hut : u = t
    · subst hut
      exact hout hu
    · rw [hown u hut] at hu
      rw [hs u hut, hth u hut]
      exact hF.outside u hu
  · by_cases hut : u = t
    · subst hut
      exact hin hu
    · rw [hown u hut] at hu ⊢
      rw [hs u hut, hth u hut]
      rcases hdata with ⟨hc, hs⟩ | hfree
      · rw [hc, hs]
        exact hF.inside u hu
      · exact absurd (hfree u hut) hu

variable (rt) in
/-- A silent step outside all blocks is a step of the machine. -/
theorem silent_step {d d' : σ} {th : Thread L σ} (hsafe : s.Safe re)
    (hs : Silent (s.threads t) d th d') :
    d' = d ∧ Atomic.Step rt re s t { s with threads := Function.update s.threads t th } := by
  generalize hth : s.threads t = th₀ at hs
  have hwrong : ∀ {a : Code L σ} {st : List (Frame L σ)} {l : L},
      th₀ = ⟨.run a, st, l⟩ → a.IsStatement → exec re a {} l s.data ≠ none := by
    rintro a st l rfl ha hno
    have hsome := hsafe t a st l hth ha
    rw [hno] at hsome
    cases hsome
  cases hs with
  | @compute f st l => exact ⟨rfl, .runs (r := ⟨.normal, {}, f l, s.data⟩) hth trivial rfl⟩
  | @raise st l => exact ⟨rfl, .runs (r := ⟨.raised, {}, l, s.data⟩) hth trivial rfl⟩
  | @ret st l => exact ⟨rfl, .runs (r := ⟨.returned, {}, l, s.data⟩) hth trivial rfl⟩
  | load => exact absurd (if_pos ⟨rfl, rfl⟩) (hwrong rfl trivial)
  | store => exact absurd (if_neg (Nat.lt_irrefl 0)) (hwrong rfl trivial)
  | seq => exact ⟨rfl, .flows (hth ▸ .seq)⟩
  | branch => exact ⟨rfl, .flows (hth ▸ .branch)⟩
  | attempt => exact ⟨rfl, .flows (hth ▸ .attempt)⟩
  | next => exact ⟨rfl, .flows (hth ▸ .next)⟩
  | handler => exact ⟨rfl, .flows (hth ▸ .handler)⟩

/-- The threads that `t` leaves alone. -/
theorem put_of_ne {d : σ} {th : Thread L σ} (hu : u ≠ t) :
    (({ c with sys := y, data := d } : Client τ L σ).put t th).threads u = c.threads u :=
  Function.update_of_ne hu _ _

theorem Follows.silent (hF : Follows re c s) (hr : c.sys.HolderReachable rt cls)
    (hsafe : s.Safe re) {th : Thread L σ} {d : σ} (hs : Silent (c.threads t) c.data th d) :
    Follows re ({ c with data := d }.put t th) s ∨
      ∃ s', Atomic.Step rt re s t s' ∧ Follows re ({ c with data := d }.put t th) s' := by
  have hctl : th.before = th := Thread.before_of_ctl (silent_ctl hs)
  by_cases hfree : (c.sys.own t).Free
  · right
    have hbefore : s.threads t = c.threads t := by
      rw [hF.outside t hfree]
      refine Thread.before_of_ctl fun m a hin => ?_
      generalize c.threads t = th₀ at hs hin
      cases hs <;> cases hin
    rw [← hbefore] at hs
    obtain ⟨rfl, hstep⟩ := silent_step rt hsafe hs
    refine ⟨_, hstep, hF.step_of (fun u hu => put_of_ne hu) (fun _ _ => rfl)
      (fun u hu => Function.update_of_ne hu _ _) (.inl ⟨rfl, rfl⟩) (fun _ => ?_)
      (fun hno => absurd hfree hno) hF.data⟩
    simp only [put, Function.update_self, hctl]
  · left
    obtain ⟨x, hfin, hx⟩ := hF.inside t hfree
    have hwho := finish_writes hs hfin
    refine hF.step_of (fun u hu => put_of_ne hu) (fun _ _ => rfl) (fun _ _ => rfl) ?_
      (fun hf => absurd hf hfree) (fun _ => ⟨x, ?_, hx⟩) fun hall => ?_
    · exact hwho.imp (fun hd => ⟨hd, rfl⟩) fun hw u hu => hr.nobody_inside hw hu
    · simp only [put, Function.update_self]
      exact finish_silent hs hfin
    · rcases hwho with rfl | hw
      · exact hF.data hall
      · exact absurd (hall t) (Nat.pos_iff_ne_zero.1 hw)

/-- A step of the lock that leaves the threads and their holds. -/
theorem Follows.of_own (hF : Follows re c s) (hown : ∀ u, y.own u = c.sys.own u) :
    Follows re ({ c with sys := y }.put t (c.threads t)) s := by
  have hput : ({ c with sys := y }.put t (c.threads t)) = { c with sys := y } := by
    simp only [put, Function.update_eq_self]
  rw [hput]
  exact ⟨fun u hu => hF.outside u (hown u ▸ hu), fun u hu => by
    rw [show ({ c with sys := y } : Client τ L σ).sys.own u = c.sys.own u from hown u] at hu ⊢
    exact hF.inside u hu, fun hall => hF.data fun u => by rw [← hown u]; exact hall u⟩

/-- **`__enter__`.**  A block that is entered from outside takes place in the machine. -/
theorem Follows.landed (hF : Follows cls.reentrant c s) (hr : y.HolderReachable rt cls)
    (hsafe : s.Safe cls.reentrant) {ctl : Ctl L σ} {st : List (Frame L σ)} {l : L}
    {body : Code L σ}
    (hout : (c.sys.own t).Free → s.threads t = ⟨.run (.withLock m body), st, l⟩)
    (hin : ¬ (c.sys.own t).Free → ∃ d,
      finish cls.reentrant ⟨.run (.withLock m body), st, l⟩ (c.sys.own t) c.data =
        some (s.threads t, d) ∧ (0 < (c.sys.own t).writes → s.data = d))
    (hun : ∀ u, u ≠ t → y.own u = c.sys.own u) (hl : c.sys.Landed rt cls t m o y) :
    Follows cls.reentrant ({ c with sys := y }.put t (Thread.landed ⟨ctl, st, l⟩ m body o)) s ∨
      ∃ s', Atomic.Step rt cls.reentrant s t s' ∧ Follows cls.reentrant
        ({ c with sys := y }.put t (Thread.landed ⟨ctl, st, l⟩ m body o)) s' := by
  have hkeep : y.holds = c.sys.holds → ∀ u, y.own u = c.sys.own u := fun hh u => by
    simp only [System.own, hh]
  -- who waits is outside
  have hfree : (c.sys.own t).Free ∨ (c.sys.own t).entry cls.reentrant m = .stuck →
      (c.sys.own t).Free := by
    rintro (hfree | hstuck)
    · exact hfree
    · by_contra hno
      obtain ⟨x, hfin, -⟩ := hin hno
      rw [finish_stuck hstuck] at hfin
      cases hfin
  cases hl with
  | enters hh hpc hm he =>
      have hgrant : y.own t = (c.sys.own t).grant m := System.own_grant hh
      have hno : ¬ (y.own t).Free := hgrant ▸ Own.grant_not_free _ m
      have hwrite : (y.own t).writes = 0 → m = .read ∧ (c.sys.own t).writes = 0 := by
        rw [hgrant]
        cases m <;> simp [Own.grant]
      by_cases hf : (c.sys.own t).Free
      · right
        have hdata : s.data = c.data := hF.data fun u => by
          by_cases hut : u = t
          · exact hut ▸ hf.2
          · exact hun u hut ▸ hr.nobody_writes hno hut
        obtain ⟨r, hexec⟩ := Option.isSome_iff_exists.1 (hsafe t _ _ _ (hout hf) trivial)
        refine ⟨_, .runs (hout hf) trivial hexec, hF.step_of (fun u hu => put_of_ne hu) hun
          (fun u hu => Function.update_of_ne hu _ _) ?_ (fun hy => absurd hy hno)
          (fun _ => ⟨r.data, ?_, fun _ => rfl⟩) fun hall => ?_⟩
        · by_cases hw : (y.own t).writes = 0
          · obtain ⟨rfl, -⟩ := hwrite hw
            exact .inl ⟨rfl, exec_readBlock hexec⟩
          · exact .inr fun u hu => hun u hu ▸ hr.nobody_inside (Nat.pos_of_ne_zero hw) hu
        · rw [hdata] at hexec
          have hempty : c.sys.own t = {} := Own.ext hf.1 hf.2
          simp only [put, Function.update_self, Thread.landed, hgrant, hempty]
          exact finish_begun hexec st
        · obtain ⟨rfl, -⟩ := hwrite (hall t)
          exact (exec_readBlock hexec).trans hdata
      · left
        obtain ⟨x, hfin, hx⟩ := hin hf
        rw [finish_nested hf he] at hfin
        refine hF.step_of (fun u hu => put_of_ne hu) hun (fun _ _ => rfl) (.inl ⟨rfl, rfl⟩)
          (fun hy => absurd hy hno)
          (fun _ => ⟨x, ?_, fun hw => hx (Own.writes_of_granted hf he (hgrant ▸ hw))⟩)
          fun hall => hF.data fun u => ?_
        · simpa only [put, Function.update_self, Thread.landed, hgrant] using hfin
        · by_cases hut : u = t
          · exact hut ▸ (hwrite (hall t)).2
          · exact hun u hut ▸ hall u
  | parks hh hpc hm he =>
      left
      have hf := hfree he
      refine hF.step_of (fun u hu => put_of_ne hu) hun (fun _ _ => rfl) (.inl ⟨rfl, rfl⟩)
        (fun _ => ?_) (fun hno => absurd (hkeep hh t ▸ hf) hno)
        fun hall => hF.data fun u => hkeep hh u ▸ hall u
      simpa only [put, Function.update_self, Thread.landed, Thread.before] using hout hf
  | cancelled hrt hh hpc hm he =>
      right
      have hf := hfree he
      refine ⟨_, .cancelled hrt (hout hf), hF.step_of (fun u hu => put_of_ne hu) hun
        (fun u hu => Function.update_of_ne hu _ _) (.inl ⟨rfl, rfl⟩) (fun _ => ?_)
        (fun hno => absurd (hkeep hh t ▸ hf) hno) fun hall => hF.data fun u => hkeep hh u ▸ hall u⟩
      simp only [put, Function.update_self, Thread.landed, Thread.before]
  | raised hpc he =>
      left
      have hf : ¬ (c.sys.own t).Free := by
        rintro ⟨hr, hw⟩
        simp [Own.entry, hr, hw] at he
      obtain ⟨x, hfin, hx⟩ := hin hf
      rw [finish_rejected he] at hfin
      refine hF.step_of (fun u hu => put_of_ne hu) hun (fun _ _ => rfl) (.inl ⟨rfl, rfl⟩)
        (fun hf' => absurd hf' hf) (fun _ => ⟨x, ?_, hx⟩) hF.data
      simpa only [put, Function.update_self, Thread.landed] using hfin

/-- A block that goes on as a reader finds the data as the machine has it. -/
theorem Follows.data_of_reader (hF : Follows re c s) {th : Thread L σ} {h : Own} {d : σ}
    (hfin : finish re th h c.data = some (s.threads t, d)) (hw : h.writes = 0) (hp : 0 < h.reads)
    (hx : 0 < (c.sys.own t).writes → s.data = d)
    (hall : ∀ u, u ≠ t → (c.sys.own u).writes = 0) : s.data = c.data := by
  by_cases hwt : 0 < (c.sys.own t).writes
  · rw [hx hwt]
    exact finish_data hfin hw hp
  · refine hF.data fun u => ?_
    by_cases hut : u = t
    · rw [hut]
      omega
    · exact hall u hut

/-- **`__exit__`.**  The machine is where the block leads to. -/
theorem Follows.exits (hF : Follows re c s) {x : Status} {st : List (Frame L σ)} {l : L}
    (hth : c.threads t = ⟨.ended x, .exit m :: st, l⟩)
    (hgive : y.holds = System.giveBack c.sys.holds (some t) m) (hno : ¬ (c.sys.own t).Free)
    (hun : ∀ u, u ≠ t → y.own u = c.sys.own u) :
    Follows re ({ c with sys := y }.put t ⟨.ended x, st, l⟩) s := by
  obtain ⟨d, hfin, hx⟩ := hF.inside t hno
  have hback : y.own t = (c.sys.own t).giveBack m := System.own_giveBack hgive
  have hothers : (∀ u, (y.own u).writes = 0) → ∀ u, u ≠ t → (c.sys.own u).writes = 0 :=
    fun hall u hu => hun u hu ▸ hall u
  rw [hth, finish_exit] at hfin
  split_ifs at hfin with hfree
  · rw [← hback] at hfree
    obtain ⟨hs, rfl⟩ := Prod.mk.inj (Option.some.inj hfin)
    refine hF.step_of (fun u hu => put_of_ne hu) hun (fun _ _ => rfl) (.inl ⟨rfl, rfl⟩)
      (fun _ => ?_) (fun hno' => absurd hfree hno') fun hall => ?_
    · simp only [put, Function.update_self, ← hs, Thread.before]
    · by_cases hwt : 0 < (c.sys.own t).writes
      · exact hx hwt
      · refine hF.data fun u => ?_
        by_cases hut : u = t
        · rw [hut]
          omega
        · exact hothers hall u hut
  · rw [← hback] at hfin hfree
    refine hF.step_of (fun u hu => put_of_ne hu) hun (fun _ _ => rfl) (.inl ⟨rfl, rfl⟩)
      (fun hf => absurd hf hfree) (fun _ => ⟨d, ?_, fun hw => hx ?_⟩) fun hall => ?_
    · simpa only [put, Function.update_self] using hfin
    · have hw : 0 < (y.own t).writes := hw
      rw [hback] at hw
      cases m with
      | read => exact hw
      | write =>
          by_contra hzero
          simp [Own.giveBack, hzero] at hw
    · have hw : (y.own t).writes = 0 := hall t
      exact hF.data_of_reader hfin hw (Nat.pos_of_ne_zero fun hr => hfree ⟨hr, hw⟩) hx
        (hothers hall)

/-- **`write.downgrade()`.**  The updates of the block are there, and stay. -/
theorem Follows.downgrades (hF : Follows re c s) {st : List (Frame L σ)} {l : L}
    (hth : c.threads t = ⟨.run .downgrade, st, l⟩)
    (hdown : o = .downgraded ∧ c.sys.holds.writes (some t) = 1 ∧
        y.holds = c.sys.holds.downgrade (some t) ∧ y.pc = c.sys.pc ∧ y.lock.downgraded = some t ∨
      o ≠ .downgraded ∧ c.sys.holds.writes (some t) ≠ 1 ∧ y = c.sys)
    (hun : ∀ u, u ≠ t → y.own u = c.sys.own u) :
    Follows re ({ c with sys := y }.put t
        ⟨.ended (if o = Outcome.downgraded then .normal else .raised), st, l⟩) s ∨
      ∃ s', Atomic.Step rt re s t s' ∧ Follows re ({ c with sys := y }.put t
        ⟨.ended (if o = Outcome.downgraded then .normal else .raised), st, l⟩) s' := by
  rcases hdown with ⟨rfl, hw, hh, -, -⟩ | ⟨ho, hw, rfl⟩
  · left
    have hno : ¬ (c.sys.own t).Free := by
      rintro ⟨-, hzero⟩
      have : c.sys.holds.writes (some t) = 0 := hzero
      omega
    have hown : y.own t = (c.sys.own t).downgrade := by
      simp [System.own, hh, Own.downgrade, hw]
    obtain ⟨d, hfin, hx⟩ := hF.inside t hno
    rw [hth, finish_downgrade hw, ← hown] at hfin
    have hfree : ¬ (y.own t).Free := hown ▸ Own.downgrade_not_free _
    have hzero : (y.own t).writes = 0 := by rw [hown]; rfl
    refine hF.step_of (fun u hu => put_of_ne hu) hun (fun _ _ => rfl) (.inl ⟨rfl, rfl⟩)
      (fun hf => absurd hf hfree) (fun _ => ⟨d, ?_, fun hw => ?_⟩) fun hall => ?_
    · simpa only [put, Function.update_self, if_true] using hfin
    · exact absurd hzero (Nat.pos_iff_ne_zero.1 hw)
    · exact hF.data_of_reader hfin hzero (Nat.pos_of_ne_zero fun hr => hfree ⟨hr, hzero⟩) hx
        fun u hu => hun u hu ▸ hall u
  · rw [if_neg ho]
    by_cases hf : (c.sys.own t).Free
    · right
      have hs : s.threads t = ⟨.run .downgrade, st, l⟩ := by
        rw [hF.outside t hf, hth]
        rfl
      refine ⟨_, .runs (r := ⟨.raised, {}, l, s.data⟩) hs trivial rfl,
        hF.step_of (fun u hu => put_of_ne hu) (fun _ _ => rfl)
          (fun u hu => Function.update_of_ne hu _ _) (.inl ⟨rfl, rfl⟩) (fun _ => ?_)
          (fun hno => absurd hf hno) hF.data⟩
      simp only [put, Function.update_self, Thread.before]
    · left
      obtain ⟨d, hfin, hx⟩ := hF.inside t hf
      rw [hth, finish_downgrade_raises hw] at hfin
      refine hF.step_of (fun u hu => put_of_ne hu) (fun _ _ => rfl) (fun _ _ => rfl)
        (.inl ⟨rfl, rfl⟩) (fun hf' => absurd hf' hf) (fun _ => ⟨d, ?_, hx⟩) hF.data
      simpa only [put, Function.update_self] using hfin

/-- **Every step of a client is at most one step of the machine of whole blocks.** -/
theorem Does.follows (hd : Does rt cls c t c') (hr : c.sys.HolderReachable rt cls)
    (hf : ∀ u, Framed c u) (hF : Follows cls.reentrant c s) (hsafe : s.Safe cls.reentrant) :
    Follows cls.reentrant c' s ∨
      ∃ s', Atomic.Step rt cls.reentrant s t s' ∧ Follows cls.reentrant c' s' := by
  have hr' := (hd.framed hr hf).1
  cases hd with
  | silent hpc hs => exact hF.silent hr hsafe hs
  | @calls a k o y hk hst =>
      have hcaller : a.caller = some t := by
        generalize c.threads t = th at hk
        cases hk <;> rfl
      have hun : ∀ u, u ≠ t → y.own u = c.sys.own u := fun u hu => by
        have hunt := System.step_untouched hr.books hst (by simp [hcaller])
          (show a.caller ≠ some u by simpa [hcaller] using Ne.symm hu)
        exact Own.ext hunt.reads hunt.writes
      have hkeep : y.holds = c.sys.holds → ∀ u, y.own u = c.sys.own u := fun hh u => by
        simp only [System.own, hh]
      generalize hth : c.threads t = th at hk
      cases hk with
      | enter =>
          refine hF.landed hr' hsafe (fun hfree => ?_) (fun hno => ?_) hun
            (System.step_enter hr hst)
          · rw [hF.outside t hfree, hth]
            rfl
          · exact hth ▸ hF.inside t hno
      | downgrade => exact hF.downgrades hth (System.step_downgrades hr hst) hun
      | @exit x m st l =>
          left
          obtain ⟨y', hstep, hgive, -⟩ :=
            (hf t).exits hr (System.idle_of_release hst) (congrArg Thread.stack hth)
          cases hstep.symm.trans hst
          have hby := (hf t).byHolder (congrArg Thread.stack hth)
          refine hF.exits hth hgive ?_ hun
          rintro ⟨hreads, hwrites⟩
          have hreads : c.sys.holds.reads (some t) = 0 := hreads
          have hwrites : c.sys.holds.writes (some t) = 0 := hwrites
          cases m with
          | read => exact absurd hby (by simp [System.ByHolder, hreads])
          | write => exact absurd hby (by simp [System.ByHolder, System.Holding, hreads, hwrites])
      | @resume m body st l =>
          obtain ⟨seq, timed, i, hpc⟩ := (hf t).entering m body (congrArg Thread.ctl hth)
          obtain ⟨rfl, -⟩ := (hf t).waiting m seq timed i hpc
          refine hF.landed hr' hsafe (fun hfree => ?_) (fun hno => ?_) hun
            (System.step_goes_on hr hpc hst)
          · rw [hF.outside t hfree, hth]
            rfl
          · obtain ⟨d, hfin, -⟩ := hF.inside t hno
            rw [hth] at hfin
            cases hfin
      | clear =>
          left
          refine hth ▸ hF.of_own (hkeep ?_)
          cases System.step_deed hr.reachable.wellFormed hst rfl with
          | clears => rfl
      | interrupt =>
          left
          refine hth ▸ hF.of_own (hkeep ?_)
          cases System.step_deed hr.reachable.wellFormed hst rfl with
          | timesOut | isCancelled => rfl

/-- The states that the programs `prog` reach on a new lock, from the local variables `l`
and the data `d`. -/
def After (rt : Runtime) (cls : LockClass) (prog : τ → Code L σ) (l : τ → L) (d : σ) :
    Client τ L σ → Prop :=
  Transition.Reachable (Step rt cls) (· = start prog l d)

variable {l : τ → L} {d : σ}

/-- A list of events that replays from the start is a run. -/
theorem after_of_replay {es : List (Event τ)}
    (h : Transition.replay (step rt cls) (start prog l d) es = some c) :
    After rt cls prog l d c :=
  ⟨_, _, rfl, Transition.Run.of_replay (fun _ _ _ hst => hst) h⟩

/-- **The client simulates the machine of whole blocks**, as long as nothing goes wrong
there. -/
theorem simulates (hsafe : ∀ s, Atomic.Reachable rt cls.reentrant prog l d s →
      s.Safe cls.reentrant) :
    Transition.Simulates (Step rt cls) (· = start prog l d)
      (fun s s' => ∃ t, Atomic.Step rt cls.reentrant s t s')
      (· = ⟨d, fun t => ⟨.run (prog t), [], l t⟩⟩)
      fun c s => (c.sys.HolderReachable rt cls ∧ ∀ t, Framed c t) ∧
        Follows cls.reentrant c s ∧ Atomic.Reachable rt cls.reentrant prog l d s where
  init := by
    rintro c rfl
    have hinit : Init prog (start prog l d) := ⟨rfl, fun _ => ⟨rfl, rfl⟩⟩
    refine ⟨_, rfl, ⟨.start rfl, framed_init hinit⟩, ?_, .start rfl⟩
    exact ⟨fun _ _ => rfl, fun t hno => absurd ⟨rfl, rfl⟩ hno, fun _ => rfl⟩
  step := by
    rintro c s e c' ⟨⟨hr, hf⟩, hF, hreach⟩ hst
    have hdoes := step_does hst
    rcases hdoes.follows hr hf hF (hsafe s hreach) with hF' | ⟨s', hstep, hF'⟩
    · exact ⟨s, ⟨hdoes.framed hr hf, hF', hreach⟩, .refl⟩
    · exact ⟨s', ⟨hdoes.framed hr hf, hF', hreach.tail hstep⟩, .single ⟨_, hstep⟩⟩

/-- A state that a client reaches follows a state that the machine reaches. -/
theorem After.follows (h : After rt cls prog l d c)
    (hsafe : ∀ s, Atomic.Reachable rt cls.reentrant prog l d s → s.Safe cls.reentrant) :
    ∃ s, Atomic.Reachable rt cls.reentrant prog l d s ∧ c.sys.HolderReachable rt cls ∧
      Follows cls.reentrant c s := by
  obtain ⟨s, ⟨⟨hr, -⟩, hF, hreach⟩, -⟩ :=
    (simulates hsafe).reachable (J := fun _ => True) (fun _ _ => trivial)
      (fun _ _ _ _ => trivial) h
  exact ⟨s, hreach, hr, hF⟩

/-- An update is made under the write lock, with nobody else inside; a read is made under a
hold, with nobody else writing. -/
def Protected (c : Client τ L σ) (t : τ) : Prop :=
  (∀ f, (c.threads t).ctl = .run (.store f) →
    0 < (c.sys.own t).writes ∧ ∀ u, u ≠ t → (c.sys.own u).Free) ∧
  ∀ f, (c.threads t).ctl = .run (.load f) →
    ¬ (c.sys.own t).Free ∧ ∀ u, u ≠ t → (c.sys.own u).writes = 0

theorem Follows.guarded (hF : Follows re c s) (hsafe : s.Safe re)
    (hr : c.sys.HolderReachable rt cls) (t : τ) : Protected c t := by
  -- an access outside all blocks would go wrong
  have hinside : ∀ a : Code L σ, (c.threads t).ctl = .run a → a.IsStatement →
      (∀ l d, exec re a {} l d = none) → ¬ (c.sys.own t).Free := by
    intro a hctl ha hno hfree
    have hs : s.threads t = ⟨.run a, (c.threads t).stack, (c.threads t).loc⟩ := by
      rw [hF.outside t hfree, Thread.before_of_ctl (by simp [hctl]), ← hctl]
    have hsome := hsafe t _ _ _ hs ha
    rw [hno] at hsome
    cases hsome
  constructor
  · intro f hctl
    have hno := hinside _ hctl trivial fun _ _ => if_neg (Nat.lt_irrefl 0)
    obtain ⟨x, hfin, -⟩ := hF.inside t hno
    have hw : 0 < (c.sys.own t).writes := by
      simp only [finish, hctl, exec] at hfin
      split_ifs at hfin with hw
      · exact hw
      · cases hfin
    exact ⟨hw, fun u hu => hr.nobody_inside hw hu⟩
  · intro f hctl
    have hno := hinside _ hctl trivial fun _ _ => if_pos ⟨rfl, rfl⟩
    exact ⟨hno, fun u hu => hr.nobody_writes hno hu⟩

/-- What every statement keeps holds of a state that a client follows. -/
theorem After.keeps {I : σ → (τ → L) → Prop} (h : After rt cls prog l d c)
    (hprog : ∀ t, (prog t).All (Atomic.Keeps cls.reentrant I t)) (hI : I d l) :
    ∃ s, I s.data s.locs ∧ Follows cls.reentrant c s ∧ ∀ t, Protected c t := by
  obtain ⟨s, hreach, hr, hF⟩ := h.follows fun s hs => (hs.keeps hprog hI).1
  exact ⟨s, (hreach.keeps hprog hI).2, hF, hF.guarded (hreach.keeps hprog hI).1 hr⟩

/-- **Blocks are transactions.**  If no block goes wrong when blocks run whole, then whenever
nobody is inside a block, the data and the threads are as after a run of whole blocks. -/
theorem serializable
    (hsafe : ∀ s, Atomic.Reachable rt cls.reentrant prog l d s → s.Safe cls.reentrant)
    (h : After rt cls prog l d c) (hfree : ∀ t, (c.sys.own t).Free) :
    Atomic.Reachable rt cls.reentrant prog l d ⟨c.data, fun t => (c.threads t).before⟩ := by
  obtain ⟨s, hreach, -, hF⟩ := h.follows hsafe
  obtain ⟨data, threads⟩ := s
  have hdata : data = c.data := hF.data fun t => (hfree t).2
  have hthreads : threads = fun t => (c.threads t).before :=
    funext fun t => hF.outside t (hfree t)
  rwa [hdata, hthreads] at hreach

/-- A block that updates two numbers, one after the other. -/
def bump : Code Unit (ℕ × ℕ) :=
  .withLock .write (.seq (.store fun _ d => (d.1 + 1, d.2)) (.store fun _ d => (d.1, d.2 + 1)))

theorem bump_keeps (re : Bool) (t : Fin 2) :
    bump.All (Atomic.Keeps re (fun d _ => d.1 = d.2) t) :=
  fun _ _ hI => ⟨_, rfl, congrArg (· + 1) hI⟩

theorem bump_safe (y : Atomic (Fin 2) Unit (ℕ × ℕ))
    (h : Atomic.Reachable .thread false (fun _ => bump) (fun _ => ()) (0, 0) y) : y.Safe false :=
  (h.keeps (bump_keeps false) rfl).1

/-- Two such blocks, the second of which waits for the first. -/
theorem serializable_bump : ∃ c : Client (Fin 2) Unit (ℕ × ℕ), c.data = (2, 2) ∧
    Atomic.Reachable .thread false (fun _ => bump) (fun _ => ()) (0, 0)
      ⟨c.data, fun t => (c.threads t).before⟩ := by
  have hc := after_of_replay (show Transition.replay (step .thread .write)
    (start (fun _ : Fin 2 => bump) (fun _ => ()) (0, 0))
    [.go 0, .clear 0, .go 0, .go 0, .go 1, .go 0, .go 0, .go 0, .resume 1, .clear 1, .go 1,
      .go 1, .go 1, .go 1, .go 1] = some _ from rfl)
  exact ⟨_, rfl, serializable bump_safe hc (Fin.forall_fin_two.2 ⟨⟨rfl, rfl⟩, ⟨rfl, rfl⟩⟩)⟩

/-- **No data race.**  If no block goes wrong when blocks run whole, no access to the data
is ever unprotected, whatever the interleaving. -/
theorem race_free
    (hsafe : ∀ s, Atomic.Reachable rt cls.reentrant prog l d s → s.Safe cls.reentrant)
    (h : After rt cls prog l d c) (t : τ) : Protected c t := by
  obtain ⟨s, hreach, hr, hF⟩ := h.follows hsafe
  exact hF.guarded (hsafe s hreach) hr t

/-- In the middle of a block, with a thread waiting to enter. -/
theorem race_free_bump : ∃ c : Client (Fin 2) Unit (ℕ × ℕ),
    c.data = (1, 0) ∧ InFlight c.sys.pc .write 1 ∧ Protected c 0 := by
  have hc := after_of_replay (show Transition.replay (step .thread .write)
    (start (fun _ : Fin 2 => bump) (fun _ => ()) (0, 0))
    [.go 0, .clear 0, .go 0, .go 0, .go 1, .go 0] = some _ from rfl)
  exact ⟨_, rfl, ⟨1, false, false, rfl⟩, race_free bump_safe hc 0⟩

/-- **The resource invariant of a lock.**  When every block, run whole, keeps `I` and does
not go wrong, no access is unprotected, and `I` holds of the data whenever nobody writes,
with the local variables of those who are outside. -/
theorem resource_invariant {I : σ → (τ → L) → Prop}
    (hprog : ∀ t, (prog t).All (Atomic.Keeps cls.reentrant I t)) (hI : I d l)
    (h : After rt cls prog l d c) :
    (∀ t, Protected c t) ∧ ∃ ls : τ → L,
      (∀ t, (c.sys.own t).Free → ls t = (c.threads t).loc) ∧
      ((∀ t, (c.sys.own t).writes = 0) → I c.data ls) := by
  obtain ⟨s, hI', hF, hprot⟩ := h.keeps hprog hI
  refine ⟨hprot, s.locs, fun t hfree => ?_, fun hall => hF.data hall ▸ hI'⟩
  rw [Atomic.locs, hF.outside t hfree]
  exact (c.threads t).before_loc

/-- The two numbers are equal but for a writer in the middle of its block. -/
theorem resource_invariant_bump : ∃ c : Client (Fin 2) Unit (ℕ × ℕ), c.data = (1, 0) ∧
    (∀ t, Protected c t) ∧ ∃ ls : Fin 2 → Unit,
      (∀ t, (c.sys.own t).Free → ls t = (c.threads t).loc) ∧
      ((∀ t, (c.sys.own t).writes = 0) → c.data.1 = c.data.2) := by
  have hc := after_of_replay (show Transition.replay (step .thread .write)
    (start (fun _ : Fin 2 => bump) (fun _ => ()) (0, 0))
    [.go 0, .clear 0, .go 0, .go 0, .go 1, .go 0] = some _ from rfl)
  exact ⟨_, rfl, resource_invariant (I := fun d _ => d.1 = d.2) (bump_keeps false) rfl hc⟩

end Client

end Rwlocker

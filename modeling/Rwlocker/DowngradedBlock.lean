/-
# A downgraded condition block

`with cond.write:` whose body downgrades and goes on with `cond.read`.  At its exit
`cond.write.release()` must give back a read hold, and it does so as long as the
downgrade marker still names the caller.  Inside `cond.read.wait()` the caller gives
the read hold up.  Another thread that acquires the write lock in the meantime clears
the marker, for good.
-/

import Rwlocker.Calls
import Rwlocker.Downgrade

namespace Rwlocker

variable {τ σ : Type} [DecidableEq τ]

/-! ### The marker -/

/-- A call of `write.acquire()` is over and returned `True`. -/
def Outcome.entered (rt : Runtime) : Outcome → Bool
  | .cleared => true
  | .acquired .write => rt = .async
  | _ => false

/-- If it is a step of `t`, it is one of the read side. -/
def Action.readSide (t : τ) : Action τ → Prop
  | .acquire u m _ _ => u = t → m = .read
  | .release k m => k = some t → m = .read
  | .downgrade k => k ≠ some t
  | _ => True

instance (t : τ) : (a : Action τ) → Decidable (a.readSide t)
  | .acquire _ _ _ _ | .release _ _ => inferInstanceAs (Decidable (_ → _))
  | .downgrade _ => inferInstanceAs (Decidable (_ ≠ _))
  | .resume _ _ | .interrupt _ | .clear _ => isTrue trivial

/-- Whoever owns the write lock has still to clear the marker. -/
def Late (cls : LockClass) (c : System τ) : Prop :=
  ∀ u, cls.owner c.lock = some u → c.pc u = .clearing

section Attempts

variable {rt : Runtime} {cls : LockClass} {c c' : System τ} {t : τ} {m : Mode} {o : Outcome}

theorem Attempt.late (h : Attempt rt cls c t c' m o) (hpc : c.pc t ≠ .clearing)
    (hno : o.entered rt = false) (hlate : Late cls c) : Late cls c' := by
  have hcaller : ∀ u, c.pc u = .clearing → u ≠ t := fun u hu hut => hpc (hut ▸ hu)
  intro u hu
  cases h with
  | fails hs hpc' =>
      have hu := hlate u (hs.owner.symm.trans hu)
      rw [hpc', Function.update_of_ne (hcaller u hu), hu]
  | reads hs hpc' =>
      have hu := hlate u (hs.owner.symm.trans hu)
      rw [hpc', Function.update_of_ne (hcaller u hu), hu]
  | writes ho hr hm hpc' =>
      obtain rfl : t = u := Option.some.inj (ho.symm.trans hu)
      cases rt with
      | thread => rw [hpc', Function.update_self, if_pos rfl]
      | async => cases hno

theorem Attempt.marker (h : Attempt rt cls c t c' m o) :
    c'.lock.downgraded = c.lock.downgraded ∧ o.entered rt = false ∨
      c'.lock.downgraded = none ∧ o.entered rt = true := by
  cases h with
  | fails hs _ _ _ ho hc =>
      refine .inl ⟨hs.downgraded, ?_⟩
      cases o with
      | acquired m' => exact absurd rfl (ho m')
      | cleared => exact absurd rfl hc
      | _ => rfl
  | reads hs => exact .inl ⟨hs.downgraded, rfl⟩
  | writes _ _ hm =>
      cases rt with
      | thread => exact .inl ⟨hm, rfl⟩
      | async => exact .inr ⟨hm, rfl⟩

end Attempts

namespace System

variable {rt : Runtime} {cls : LockClass} {c c' : System τ} {t : τ} {o : Outcome} {a : Action τ}

/-- Until some `write.acquire()` is over, an owner has still to clear the marker. -/
theorem step_late (hb : Books cls c.lock) (hst : c.step rt cls a = some (o, c'))
    (ha : a.caller ≠ none) (hno : o.entered rt = false) (hlate : Late cls c) : Late cls c' := by
  obtain ⟨u, hu⟩ := Option.ne_none_iff_exists'.1 ha
  cases step_effect hb hst hu with
  | acquire hpc hatt | resume hpc hatt => exact hatt.late hpc hno hlate
  | interrupt hwait hpc hs =>
      intro v hv
      have hv := hlate v (hs.owner.symm.trans hv)
      have hvu : v ≠ u := by
        rintro rfl
        rw [hwait] at hv
        cases hv
      rw [hpc, Function.update_of_ne hvu, hv]
  | clear => cases hno
  | release _ hgb =>
      intro v hv
      rw [hgb.pc]
      rcases hgb.owner with ho | ho
      · exact hlate v (ho.symm.trans hv)
      · rw [ho] at hv
        cases hv
  | downgrade _ _ _ hown' =>
      intro v hv
      rw [hown'] at hv
      cases hv
  | downgradeRaised => exact hlate

/-- **What a step can do to the marker.**  It goes when a `write.acquire()` ends and
when its thread makes a write release; a downgrade sets it. -/
theorem step_marker (hb : Books cls c.lock) (hst : c.step rt cls a = some (o, c'))
    (ha : a.caller ≠ none) (hside : a.readSide t) :
    c'.lock.downgraded = c.lock.downgraded ∨
      c'.lock.downgraded = none ∧ (o.entered rt = true ∨ c.lock.downgraded ≠ some t) ∨
      ∃ u, u ≠ t ∧ c'.lock.downgraded = some u ∧ cls.owner c.lock = some u ∧ c.pc u = .idle := by
  obtain ⟨u, hu⟩ := Option.ne_none_iff_exists'.1 ha
  cases step_effect hb hst hu with
  | acquire _ hatt | resume _ hatt => exact hatt.marker.imp And.left fun h => .inl ⟨h.1, .inl h.2⟩
  | interrupt _ _ hs => exact .inl hs.downgraded
  | clear => exact .inr (.inl ⟨rfl, .inl rfl⟩)
  | release _ hgb =>
      rcases hgb.downgraded with hm | ⟨rfl, hmu, hm⟩
      · exact .inl hm
      · refine .inr (.inl ⟨hm, .inr fun hmt => ?_⟩)
        cases hside (hmu.symm.trans hmt)
  | downgrade hpc hown _ _ hm =>
      refine .inr (.inr ⟨u, ?_, hm, hown.1, hpc⟩)
      rintro rfl
      exact hside rfl
  | downgradeRaised => exact .inl rfl

/-- A step that ends a `write.acquire()` leaves no marker. -/
theorem step_entered (hb : Books cls c.lock) (hst : c.step rt cls a = some (o, c'))
    (ha : a.caller ≠ none) (ho : o.entered rt = true) : c'.lock.downgraded = none := by
  obtain ⟨u, hu⟩ := Option.ne_none_iff_exists'.1 ha
  cases step_effect hb hst hu with
  | acquire _ hatt | resume _ hatt =>
      rcases hatt.marker with ⟨-, hno⟩ | ⟨hm, -⟩
      · simp [ho] at hno
      · exact hm
  | clear => rfl
  | release hout => rcases hout with rfl | ⟨e, rfl⟩ <;> cases ho
  | interrupt | downgrade | downgradeRaised => cases ho

end System

/-! ### The condition and its lock -/

namespace CondSystem

variable {P : CondSystem τ σ → CondAction τ σ → Prop} {rt : Runtime} {cls : LockClass}
  {pred : σ → Bool} {c c' : CondSystem τ σ} {t u : τ} {w : WaitCall} {a : CondAction τ σ}

/-- The step of the lock that a step of the condition makes. -/
def lockAction (c : CondSystem τ σ) : CondAction τ σ → Option (Action τ)
  | .lock a => some a
  | .wait t m _ => some (.release (some t) m)
  | .leave t => (c.phase t).wait?.map fun w => .release (some t) w.mode
  | .reacquire t => (c.phase t).wait?.map fun w => .acquire t w.mode .forever false
  | .change _ _ | .notify _ _ _ | .notifyAll _ _ | .test _ _ _ _ | .interrupt _ | .wake _
  | .finish _ => none

/-- A step of the condition makes no step of the lock, or shows what the lock shows. -/
def OnLock (rt : Runtime) (cls : LockClass) (c : CondSystem τ σ) (a : CondAction τ σ)
    (o : CondOutcome) (c' : CondSystem τ σ) : Prop :=
  c'.sys = c.sys ∧ (∀ o', o ≠ .lock o') ∨
    ∃ b o', c.lockAction a = some b ∧ c.sys.step rt cls b = some (o', c'.sys) ∧
      (o = .lock o' ∨ ∃ e, o' = .raised e ∧ o = .raised e)

theorem leave_onLock {o : CondOutcome} (h : c.leave rt cls t w = some (o, c')) :
    ∃ o', c.sys.step rt cls (.release (some t) w.mode) = some (o', c'.sys) ∧
      (o = .lock o' ∨ ∃ e, o' = .raised e ∧ o = .raised e) := by
  obtain ⟨o', sys, hst, h⟩ := onLock_eq_some h
  split at h
  · obtain ⟨rfl, rfl⟩ := Prod.mk.inj h
    exact ⟨_, hst, .inr ⟨_, rfl, rfl⟩⟩
  · obtain ⟨rfl, rfl⟩ := Prod.mk.inj h
    exact ⟨_, hst, .inl rfl⟩

theorem goOn_onLock {gotit : Bool} {b : Action τ} {o : CondOutcome} (hb : b.caller = some t)
    (h : c.goOn rt cls t w gotit b = some (o, c')) :
    ∃ o', c.sys.step rt cls b = some (o', c'.sys) ∧ o = .lock o' := by
  unfold goOn at h
  cases b with
  | acquire | release | downgrade => cases h
  | resume v expired =>
      obtain rfl : v = t := Option.some.inj hb
      obtain ⟨o', sys, hst, h⟩ := onLock_eq_some h
      split at h <;> obtain ⟨rfl, rfl⟩ := Prod.mk.inj h <;> exact ⟨_, hst, rfl⟩
  | interrupt v | clear v =>
      obtain rfl : v = t := Option.some.inj hb
      obtain ⟨o', sys, hst, h⟩ := onLock_eq_some h
      obtain ⟨rfl, rfl⟩ := Prod.mk.inj h
      exact ⟨_, hst, rfl⟩

theorem wait_onLock {m : Mode} {timed inLoop : Bool} {o : CondOutcome}
    (h : c.wait rt cls t m timed inLoop = some (o, c')) :
    OnLock rt cls c (.wait t m timed) o c' := by
  unfold wait at h
  split at h
  · cases h
    exact .inl ⟨rfl, by simp⟩
  · cases rt with
    | thread =>
        cases h
        exact .inl ⟨rfl, by simp⟩
    | async =>
        obtain ⟨o', hst, ho⟩ := leave_onLock h
        exact .inr ⟨_, o', rfl, hst, ho⟩

/-- **How a step of the condition uses the lock.** -/
theorem step_onLock {o : CondOutcome} (hst : c.step rt cls pred a = some (o, c')) :
    OnLock rt cls c a o c' := by
  cases a with
  | lock b =>
      have hlock : c.onLock rt cls b (fun o c => (.lock o, c)) = some (o, c') →
          OnLock rt cls c (.lock b) o c' := by
        intro h
        obtain ⟨o', sys, hsys, h⟩ := onLock_eq_some h
        obtain ⟨rfl, rfl⟩ := Prod.mk.inj h
        exact .inr ⟨b, o', rfl, hsys, .inl rfl⟩
      cases hb : b.caller with
      | none =>
          simp only [step, hb] at hst
          exact hlock hst
      | some t =>
          simp only [step, hb, Option.map_some, Option.bind_some] at hst
          cases hph : c.phase t with
          | out =>
              rw [hph] at hst
              exact hlock hst
          | reacquiring w gotit err =>
              rw [hph] at hst
              obtain ⟨o', hst, ho⟩ := goOn_onLock hb hst
              exact .inr ⟨b, o', rfl, hst, .inl ho⟩
          | tested | again | queued | sleeping | woken =>
              rw [hph] at hst
              cases hst
  | change t s =>
      simp only [step] at hst
      split_ifs at hst
      cases hst
      exact .inl ⟨rfl, by simp⟩
  | notify k m n =>
      simp only [step, notify] at hst
      split_ifs at hst <;> cases hst <;> exact .inl ⟨rfl, by simp⟩
  | notifyAll k m =>
      simp only [step, notifyAll] at hst
      split_ifs at hst <;> cases hst <;> exact .inl ⟨rfl, by simp⟩
  | test t m timed expired =>
      simp only [step, test] at hst
      split_ifs at hst <;> cases hst <;> exact .inl ⟨rfl, by simp⟩
  | wait t m timed =>
      simp only [step] at hst
      split_ifs at hst
      · exact wait_onLock hst
      · exact wait_onLock hst
  | leave t =>
      simp only [step] at hst
      split at hst
      · rename_i w hph
        obtain ⟨o', hst, ho⟩ := leave_onLock hst
        exact .inr ⟨_, o', by simp [lockAction, hph, Phase.wait?], hst, ho⟩
      · cases hst
  | interrupt t =>
      simp only [step] at hst
      split at hst
      · split_ifs at hst
        cases hst
        exact .inl ⟨rfl, by simp⟩
      · cases hst
        exact .inl ⟨rfl, by simp⟩
      · cases hst
  | wake t =>
      simp only [step, wake] at hst
      split at hst
      · split_ifs at hst <;> cases hst <;> exact .inl ⟨rfl, by simp⟩
      · cases hst
  | reacquire t =>
      simp only [step] at hst
      split at hst
      · rename_i w gotit err hph
        obtain ⟨o', sys, hsys, h⟩ := onLock_eq_some hst
        refine .inr ⟨_, o', by simp [lockAction, hph, Phase.wait?]; rfl, ?_⟩
        split at h
        · obtain ⟨rfl, rfl⟩ := Prod.mk.inj h
          exact ⟨hsys, .inr ⟨_, rfl, rfl⟩⟩
        · obtain ⟨rfl, rfl⟩ := Prod.mk.inj h
          exact ⟨hsys, .inl rfl⟩
      · cases hst
  | finish t =>
      simp only [step, finish] at hst
      split at hst
      · split_ifs at hst <;> cases hst <;> exact .inl ⟨rfl, by simp⟩
      · cases hst

/-! ### The block -/

/-- `t` uses the read side only. -/
def InBlock (t : τ) (_ : CondSystem τ σ) : CondAction τ σ → Prop
  | .lock a => a.caller ≠ none ∧ a.readSide t
  | .wait u m _ => u = t → m = .read
  | _ => True

instance (t : τ) (c : CondSystem τ σ) : (a : CondAction τ σ) → Decidable (InBlock t c a)
  | .lock _ => inferInstanceAs (Decidable (_ ∧ _))
  | .wait _ _ _ => inferInstanceAs (Decidable (_ → _))
  | .change _ _ | .notify _ _ _ | .notifyAll _ _ | .test _ _ _ _ | .leave _ | .interrupt _
  | .wake _ | .reacquire _ | .finish _ => isTrue trivial

omit [DecidableEq τ] in
theorem InBlock.inTask (h : InBlock t c a) : InTask c a := by
  cases a with
  | lock b => exact h.1
  | _ => trivial

/-- The step ends no call of `cond.write.acquire()`, nor the one that
`cond.write.wait()` makes. -/
def quiet (rt : Runtime) (cls : LockClass) (pred : σ → Bool) (c : CondSystem τ σ)
    (a : CondAction τ σ) : Bool :=
  match c.step rt cls pred a with
  | some (.lock o, _) => !o.entered rt
  | _ => true

/-- `t` waits on the read side only. -/
structure Inside (rt : Runtime) (cls : LockClass) (t : τ) (c : CondSystem τ σ) : Prop where
  reachable : System.Reachable rt cls c.sys
  mode : ∀ w, (c.phase t).wait? = some w → w.mode = .read

theorem Inside.step (h : Inside rt cls t c) (hP : InBlock t c a)
    (hst : Step rt cls pred c a c') : Inside rt cls t c' := by
  refine ⟨(hst.moves (P := InTask) hP.inTask).invariant
    (I := fun c => System.Reachable rt cls c.sys) (fun _ _ hr hmv => hmv.reachable hr) h.reachable,
    (hst.moves (P := InBlock t) hP).invariant
      (I := fun c => ∀ w, (c.phase t).wait? = some w → w.mode = .read) ?_ h.mode⟩
  intro c c' hmode hmv w hw
  rcases hmv.waits hw with hold | ⟨timed, hP⟩
  · exact hmode w hold
  · exact hP rfl

theorem Inside.lockAction (h : Inside rt cls t c) (hP : InBlock t c a) {b : Action τ}
    (hb : c.lockAction a = some b) : b.caller ≠ none ∧ b.readSide t := by
  cases a with
  | lock b' =>
      obtain rfl := Option.some.inj hb
      exact hP
  | wait u m timed =>
      obtain rfl := Option.some.inj hb
      exact ⟨by simp [Action.caller], fun hut => hP (Option.some.inj hut)⟩
  | leave u =>
      obtain ⟨w, hw, rfl⟩ := Option.map_eq_some_iff.1 hb
      refine ⟨by simp [Action.caller], fun hut => h.mode w ?_⟩
      rwa [← Option.some.inj hut]
  | reacquire u =>
      obtain ⟨w, hw, rfl⟩ := Option.map_eq_some_iff.1 hb
      refine ⟨by simp [Action.caller], fun hut => h.mode w ?_⟩
      rwa [← hut]
  | change | notify | notifyAll | test | interrupt | wake | finish => cases hb

/-- A quiet step keeps the marker. -/
theorem Inside.marked (h : Inside rt cls t c) (hP : InBlock t c a)
    (hq : quiet rt cls pred c a = true) (hst : Step rt cls pred c a c')
    (hm : c.sys.lock.downgraded = some t) (hlate : Late cls c.sys) :
    c'.sys.lock.downgraded = some t ∧ Late cls c'.sys := by
  obtain ⟨o, hst⟩ := hst
  rcases step_onLock hst with ⟨heq, -⟩ | ⟨b, o', hb, hsys, ho⟩
  · rw [heq]
    exact ⟨hm, hlate⟩
  · have hno : o'.entered rt = false := by
      rcases ho with rfl | ⟨e, rfl, -⟩
      · simpa [quiet, hst] using hq
      · rfl
    obtain ⟨hcaller, hside⟩ := h.lockAction hP hb
    have hbooks := h.reachable.wellFormed.books
    refine ⟨?_, System.step_late hbooks hsys hcaller hno hlate⟩
    rcases System.step_marker hbooks hsys hcaller hside with heq | ⟨-, hent | hne⟩ |
      ⟨u, -, -, hown, hidle⟩
    · exact heq.trans hm
    · rw [hno] at hent
      cases hent
    · exact absurd hm hne
    · -- an owner that is free to downgrade has cleared the marker
      have := hlate u hown
      rw [hidle] at this
      cases this

/-- A step that is not quiet takes the marker away. -/
theorem Inside.unmarked_of_not_quiet (h : Inside rt cls t c) (hP : InBlock t c a)
    (hq : quiet rt cls pred c a ≠ true) (hst : Step rt cls pred c a c') :
    c'.sys.lock.downgraded ≠ some t := by
  obtain ⟨o, hst⟩ := hst
  suffices hnone : c'.sys.lock.downgraded = none by simp [hnone]
  rcases step_onLock hst with ⟨-, hno⟩ | ⟨b, o', hb, hsys, ho⟩
  · cases o with
    | lock o' => exact absurd rfl (hno o')
    | _ => simp [quiet, hst] at hq
  · rcases ho with rfl | ⟨e, rfl, rfl⟩
    · exact System.step_entered h.reachable.wellFormed.books hsys (h.lockAction hP hb).1
        (by simpa [quiet, hst] using hq)
    · simp [quiet, hst] at hq

/-- The marker never comes back. -/
theorem Inside.unmarked (h : Inside rt cls t c) (hP : InBlock t c a)
    (hst : Step rt cls pred c a c') (hm : c.sys.lock.downgraded ≠ some t) :
    c'.sys.lock.downgraded ≠ some t := by
  obtain ⟨o, hst⟩ := hst
  rcases step_onLock hst with ⟨heq, -⟩ | ⟨b, o', hb, hsys, ho⟩
  · rwa [heq]
  · obtain ⟨hcaller, hside⟩ := h.lockAction hP hb
    rcases System.step_marker h.reachable.wellFormed.books hsys hcaller hside with heq |
      ⟨hnone, -⟩ | ⟨u, hu, hmark, -⟩
    · rwa [heq]
    · simp [hnone]
    · rw [hmark]
      simpa using hu

/-- The `cond.write.release()` of `t` raises nothing and removes the read hold of `t`, and
nothing else. -/
def ClosesCleanly (rt : Runtime) (cls : LockClass) (pred : σ → Bool) (t : τ)
    (c : CondSystem τ σ) : Prop :=
  ∃ c', c.step rt cls pred (.lock (.release (some t) .write)) = some (.lock .released, c') ∧
    (∀ k, c'.sys.lock.readerOwners.count k =
      if k = some t then 0 else c.sys.lock.readerOwners.count k) ∧
    cls.owner c'.sys.lock = cls.owner c.sys.lock

/-- The release finds a read hold to give back exactly if the marker names the caller. -/
theorem closesCleanly_iff (hb : Books cls c.sys.lock) (hfree : c.free t)
    (hone : c.sys.lock.readerOwners.count (some t) = 1) :
    ClosesCleanly rt cls pred t c ↔ c.sys.lock.downgraded = some t := by
  have hstep : c.step rt cls pred (.lock (.release (some t) .write)) =
      c.onLock rt cls (.release (some t) .write) fun o c => (.lock o, c) := by
    simp [step, Action.caller, hfree.1]
  constructor
  · rintro ⟨c', hst, hcount, -⟩
    by_contra hm
    rw [hstep] at hst
    obtain ⟨o, sys, hsys, h⟩ := onLock_eq_some hst
    obtain ⟨-, rfl⟩ := Prod.mk.inj h
    have hgone := hcount (some t)
    rw [if_pos rfl, System.step_release_unmarked hb hm hsys, hone] at hgone
    cases hgone
  · intro hm
    have hsig := cls.signals_onReaderLeave (c.sys.lock.dropReader (some t))
    refine ⟨_, by rw [hstep, onLock, System.step_release_routed rt cls hfree.2 hm (by omega)]; rfl,
      fun k => ?_, hsig.owner cls⟩
    show (cls.onReaderLeave (c.sys.lock.dropReader (some t))).readerOwners.count k = _
    rw [hsig.readerOwners, RWLock.count_dropReader]
    by_cases hk : k = some t
    · subst hk
      simp [hone]
    · simp [hk]

variable {c₀ c₁ : CondSystem τ σ} {as : List (CondAction τ σ)}

/-- Right after its downgrade `t` is in no call, the marker names it, and nobody owns the
write lock. -/
theorem start_of_downgrade (h₀ : Reachable rt cls pred c₀)
    (hdown : c₀.step rt cls pred (.lock (.downgrade (some t))) = some (.lock .downgraded, c₁)) :
    Inside rt cls t c₁ ∧ c₁.sys.lock.downgraded = some t ∧ Late cls c₁.sys := by
  have hin : InTask c₀ (.lock (.downgrade (some t))) := by simp [InTask, Action.caller]
  have h₁ : Reachable rt cls pred c₁ := h₀.tail ⟨hin, _, hdown⟩
  have hr₀ := (h₀.of_move (I := fun _ => True) (fun _ => trivial) fun _ _ _ _ _ _ => trivial).1
  have hr₁ := (h₁.of_move (I := fun _ => True) (fun _ => trivial) fun _ _ _ _ _ _ => trivial).1
  have hout : c₀.phase t = .out := by
    simp only [step, Action.caller, Option.map_some, Option.bind_some] at hdown
    cases hph : c₀.phase t with
    | out => rfl
    | _ =>
        rw [hph] at hdown
        cases hdown
  simp only [step, Action.caller, Option.map_some, hout] at hdown
  obtain ⟨o, sys, hsys, h⟩ := onLock_eq_some hdown
  obtain ⟨ho, rfl⟩ := Prod.mk.inj h
  obtain rfl := CondOutcome.lock.inj ho
  obtain ⟨howner, hmark⟩ := System.step_downgraded hr₀.wellFormed.books hsys
  refine ⟨⟨hr₁, fun w hw => ?_⟩, hmark, fun u hu => ?_⟩
  · rw [show c₀.phase t = .out from hout] at hw
    cases hw
  · rw [howner] at hu
    cases hu

/-- **When a downgraded block closes cleanly.**  Take any reachable state in which `t`
downgrades, and any run in which `t` then uses only `cond.read`, until it is out of
every call and has one read hold.  Its `cond.write.release()` gives back just that hold
and raises nothing if and only if no `cond.write.acquire()`, and no re-acquisition in
`cond.write.wait()`, has succeeded in the run. -/
theorem downgraded_block_closes (h₀ : Reachable rt cls pred c₀)
    (hdown : c₀.step rt cls pred (.lock (.downgrade (some t))) = some (.lock .downgraded, c₁))
    (hrun : Transition.Run (Transition.restrict (InBlock t) (Step rt cls pred)) c₁ as c)
    (hfree : c.free t) (hone : c.sys.lock.readerOwners.count (some t) = 1) :
    ClosesCleanly rt cls pred t c ↔
      Transition.Run (Transition.restrict
        (fun c a => InBlock t c a ∧ quiet rt cls pred c a = true) (Step rt cls pred)) c₁ as c := by
  obtain ⟨hin, hmark, hlate⟩ := start_of_downgrade h₀ hdown
  have hcases := hrun.kept_or_broken (Q := fun c a => quiet rt cls pred c a = true)
    (I := fun c => Inside rt cls t c ∧ c.sys.lock.downgraded = some t ∧ Late cls c.sys)
    (J := fun c => Inside rt cls t c ∧ c.sys.lock.downgraded ≠ some t)
    (fun _ _ _ ⟨hin, hm, hl⟩ hP hq hst => ⟨hin.step hP hst, hin.marked hP hq hst hm hl⟩)
    (fun _ _ _ ⟨hin, _, _⟩ hP hq hst => ⟨hin.step hP hst, hin.unmarked_of_not_quiet hP hq hst⟩)
    (fun _ _ _ ⟨hin, hm⟩ hP hst => ⟨hin.step hP hst, hin.unmarked hP hst hm⟩)
    (fun _ hI hJ => hJ.2 hI.2.1) ⟨hin, hmark, hlate⟩
  rcases hcases with ⟨hquiet, hin', hm, -⟩ | ⟨hbroken, hin', hm⟩
  · exact iff_of_true ((closesCleanly_iff hin'.reachable.wellFormed.books hfree hone).2 hm) hquiet
  · exact iff_of_false (mt (closesCleanly_iff hin'.reachable.wellFormed.books hfree hone).1 hm)
      hbroken

/-- Thread 0 waits in its downgraded block, another reader wakes it, and it reads once
more before the exit. -/
theorem downgraded_block_closes_readers : ∃ c : CondSystem ℕ Bool,
    c.ended 0 = some (.returned true) ∧ ClosesCleanly .thread .fair id 0 c := by
  have hrun : ((Transition.replay (next InTask .thread .fair id) ({ shared := false } :
        CondSystem ℕ Bool) [.lock (.acquire 0 .write .forever false), .lock (.clear 0)]).bind
      fun c₀ => (c₀.step .thread .fair id (.lock (.downgrade (some 0)))).bind fun r =>
        (Transition.replay
          (next (fun c a => InBlock 0 c a ∧ quiet .thread .fair id c a = true) .thread .fair id) r.2
          [.wait 0 .read false, .leave 0, .lock (.acquire 1 .read .forever false),
            .notify (some 1) .read 1, .lock (.release (some 1) .read), .wake 0, .reacquire 0,
            .finish 0, .lock (.acquire 0 .read .forever false),
            .lock (.release (some 0) .read)]).map fun c =>
          (r.1, decide (c.free 0), c.sys.lock.readerOwners.count (some 0), c.ended 0)) =
      some (.lock .downgraded, true, 1, some (.returned true)) := by
    decide
  obtain ⟨c₀, hc₀, hrun⟩ := Option.bind_eq_some_iff.1 hrun
  obtain ⟨⟨o, c₁⟩, hdown, hrun⟩ := Option.bind_eq_some_iff.1 hrun
  obtain ⟨c, hc, hval⟩ := Option.map_eq_some_iff.1 hrun
  simp only [Prod.mk.injEq, decide_eq_true_eq] at hval
  obtain ⟨rfl, hfree, hone, hend⟩ := hval
  have hquiet := run_of_replay hc
  exact ⟨c, hend, (downgraded_block_closes ⟨{ shared := false }, _, rfl, run_of_replay hc₀⟩ hdown
    (hquiet.mono fun _ _ _ hst => ⟨hst.1.1, hst.2⟩) hfree hone).2 hquiet⟩

/-- While thread 0 waits in its downgraded block, thread 1 writes and notifies.  The exit
of thread 0 raises, and its read hold stays. -/
theorem downgraded_block_raises : ∃ (c₀ c₁ c c' : CondSystem ℕ Bool)
    (as : List (CondAction ℕ Bool)), Reachable .thread .fair id c₀ ∧
      c₀.step .thread .fair id (.lock (.downgrade (some 0))) = some (.lock .downgraded, c₁) ∧
      Transition.Run (Transition.restrict (InBlock 0) (Step .thread .fair id)) c₁ as c ∧
      c.free 0 ∧ c.sys.lock.readerOwners.count (some 0) = 1 ∧
      c.step .thread .fair id (.lock (.release (some 0) .write)) =
        some (.lock (.raised .unacquiredWrite), c') ∧
      c'.sys.lock.readerOwners.count (some 0) = 1 ∧ ¬ ClosesCleanly .thread .fair id 0 c := by
  have hrun : ((Transition.replay (next InTask .thread .fair id) ({ shared := false } :
        CondSystem ℕ Bool) [.lock (.acquire 0 .write .forever false), .lock (.clear 0)]).bind
      fun c₀ => (c₀.step .thread .fair id (.lock (.downgrade (some 0)))).bind fun r =>
        (Transition.replay (next (InBlock 0) .thread .fair id) r.2
          [.wait 0 .read false, .leave 0, .lock (.acquire 1 .write .forever false),
            .lock (.clear 1), .notifyAll (some 1) .write, .lock (.release (some 1) .write),
            .wake 0, .reacquire 0, .finish 0]).bind fun c =>
          (c.step .thread .fair id (.lock (.release (some 0) .write))).map fun r' =>
            (r.1, decide (c.free 0), c.sys.lock.readerOwners.count (some 0), r'.1,
              r'.2.sys.lock.readerOwners.count (some 0))) =
      some (.lock .downgraded, true, 1, .lock (.raised .unacquiredWrite), 1) := by
    decide
  obtain ⟨c₀, hc₀, hrun⟩ := Option.bind_eq_some_iff.1 hrun
  obtain ⟨⟨o, c₁⟩, hdown, hrun⟩ := Option.bind_eq_some_iff.1 hrun
  obtain ⟨c, hc, hrun⟩ := Option.bind_eq_some_iff.1 hrun
  obtain ⟨⟨o', c'⟩, hst, hval⟩ := Option.map_eq_some_iff.1 hrun
  simp only [Prod.mk.injEq, decide_eq_true_eq] at hval
  obtain ⟨rfl, hfree, hone, rfl, hstays⟩ := hval
  refine ⟨c₀, c₁, c, c', _, ⟨{ shared := false }, _, rfl, run_of_replay hc₀⟩, hdown,
    run_of_replay hc, hfree, hone, hst, hstays, ?_⟩
  rintro ⟨c'', hclean, -⟩
  rw [hst] at hclean
  cases hclean

end CondSystem

end Rwlocker

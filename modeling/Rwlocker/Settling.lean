/-
# The lock settles

No livelock.  A call in flight is woken, finds the lock closed and parks again, and may
do so many times; but every wake is paid for by somebody's call.  `work` is what the
callers have still to do by themselves: those on their way, those that will be woken
once more for each call in flight that ends, and those that still have to clear the
downgrade marker.  A `resume` or a `clear` lowers it, and a call raises it by at most
one wake for everybody who waits (`Deed.work`).

So the steps that nobody calls for are bounded by the calls (`own_steps_bounded`), and a
lock that is left alone comes to rest, in a state in which everybody still asleep
would be refused (`settles`).
-/

import Mathlib.Data.Set.Card
import Rwlocker.Deed

namespace Rwlocker

variable {τ : Type}

/-- A call from outside. -/
def Action.isCall : Action τ → Bool
  | .acquire _ _ _ _ | .release _ _ | .downgrade _ => true
  | .resume _ _ | .interrupt _ | .clear _ => false

/-- A call that was made goes on by itself. -/
def Action.goesOn : Action τ → Bool
  | .resume _ _ | .clear _ => true
  | .acquire _ _ _ _ | .interrupt _ | .release _ _ | .downgrade _ => false

/-- A timeout passes or a task is cancelled. -/
def Action.isInterrupt : Action τ → Bool
  | .interrupt _ => true
  | .acquire _ _ _ _ | .resume _ _ | .clear _ | .release _ _ | .downgrade _ => false

/-- How much work an action can bring in while at most `n` calls wait. -/
def Action.worth (n : ℕ) (a : Action τ) : ℕ :=
  if a.isCall then n + 1 else if a.isInterrupt then 1 else 0

theorem Action.worth_le (n : ℕ) (a : Action τ) : a.worth n ≤ n + 1 := by
  unfold worth
  split_ifs <;> omega

theorem sum_worth (n : ℕ) (as : List (Action τ)) :
    (as.map (Action.worth n)).sum =
      (n + 1) * as.countP Action.isCall + as.countP Action.isInterrupt := by
  induction as with
  | nil => rfl
  | cons a as ih =>
      rw [List.map_cons, List.sum_cons, ih, List.countP_cons, List.countP_cons]
      cases a <;> simp [Action.worth, Action.isCall, Action.isInterrupt, Nat.mul_add] <;> omega

namespace System

/-- The calls in flight. -/
def flying (c : System τ) : Set τ := {t | ∃ m, InFlight c.pc m t}

/-- The calls on their way: signalled, timed out or cancelled. -/
def stirring (c : System τ) : Set τ := {t | ∃ m, OnWay c.lock c.pc m t}

/-- The threads that are about to clear the downgrade marker. -/
def returning (c : System τ) : Set τ := {t | c.pc t = .clearing}

/-- How many calls wait, as the lock counts them. -/
def waiting (c : System τ) : ℤ := c.lock.read.thoseWaiting + c.lock.write.thoseWaiting

/-- What the callers have still to do by themselves, while at most `n` calls wait. -/
noncomputable def work (n : ℕ) (c : System τ) : ℕ :=
  c.stirring.ncard + (n + 1) * c.flying.ncard + c.returning.ncard

theorem stirring_subset (c : System τ) : c.stirring ⊆ c.flying :=
  fun _ ⟨m, hu⟩ => ⟨m, hu.1⟩

variable [DecidableEq τ] {rt : Runtime} {cls : LockClass} {c c' : System τ} {t u : τ} {m : Mode}
  {seq n : ℕ} {timed i : Bool} {a : Action τ} {o : Outcome}

/-- The calls in flight are as many as the lock counts. -/
theorem ncard_flying (h : WellFormed cls c.lock c.pc) :
    c.flying.Finite ∧ (c.flying.ncard : ℤ) = c.waiting := by
  obtain ⟨R, hR, hRcard⟩ := h.flight .read
  obtain ⟨W, hW, hWcard⟩ := h.flight .write
  have hdisj : Disjoint R W := by
    refine Finset.disjoint_left.2 fun u hr hw => ?_
    cases ((hR u).1 hr).mode_eq ((hW u).1 hw)
  have heq : c.flying = ((R.disjUnion W hdisj : Finset τ) : Set τ) := by
    ext u
    simp only [flying, Set.mem_ofPred_eq, Finset.coe_disjUnion, Set.mem_union, Finset.mem_coe, hR,
      hW]
    constructor
    · rintro ⟨m, hu⟩
      cases m with
      | read => exact .inl hu
      | write => exact .inr hu
    · rintro (hu | hu)
      · exact ⟨_, hu⟩
      · exact ⟨_, hu⟩
  rw [heq]
  refine ⟨Finset.finite_toSet _, ?_⟩
  rw [Set.ncard_coe_finset, Finset.card_disjUnion, waiting]
  simp only [RWLock.read, RWLock.write, hRcard, hWcard, Nat.cast_add]

/-- No more calls wait than there are threads. -/
theorem Reachable.waiting_le_card [Fintype τ] (h : Reachable rt cls c) :
    c.waiting ≤ Fintype.card τ := by
  obtain ⟨-, hcard⟩ := ncard_flying h.wellFormed
  have hle := Set.ncard_le_card c.flying
  rw [Nat.card_eq_fintype_card] at hle
  omega

/-- Only finitely many threads or tasks are in a call. -/
theorem Reachable.finite_returning (h : Reachable rt cls c) : c.returning.Finite := by
  refine (Transition.Reachable.invariant
    (I := fun c => WellFormed cls c.lock c.pc ∧ c.returning.Finite) ?_ ?_ h).2
  · rintro c rfl
    exact ⟨.init cls, by simp [returning]⟩
  · rintro c a c' ⟨hw, hfin⟩ ⟨hin, o, hst⟩
    have hmoves := Step.moves (P := fun _ _ => True) ⟨o, hst⟩ hw hin fun _ _ => trivial
    refine ⟨hmoves.wellFormed hw, ?_⟩
    obtain ⟨t, ht⟩ := Option.ne_none_iff_exists'.1 hin
    refine (hfin.insert t).subset fun u hu => ?_
    by_cases hut : u = t
    · exact .inl hut
    · have hpc := (step_untouched hw.books hst hin (by simpa [ht] using Ne.symm hut)).pc
      exact .inr (hpc.symm.trans hu)

/-! ### What a step does to the work -/

section pcs

variable (hpc : ∀ u, u ≠ t → c'.pc u = c.pc u)

include hpc

omit [DecidableEq τ] in
theorem flying_of_ne (hu : u ≠ t) : u ∈ c'.flying ↔ u ∈ c.flying := by
  simp only [flying, Set.mem_ofPred_eq, InFlight, hpc u hu]

omit [DecidableEq τ] in
theorem returning_of_ne (hu : u ≠ t) : u ∈ c'.returning ↔ u ∈ c.returning := by
  simp only [returning, Set.mem_ofPred_eq, hpc u hu]

theorem returning_subset : c'.returning ⊆ insert t c.returning := fun u hu => by
  by_cases hut : u = t
  · exact .inl hut
  · exact .inr ((returning_of_ne hpc hut).1 hu)

/-- A caller that is in flight neither before nor after leaves the others in flight. -/
theorem flying_eq (ht : t ∉ c.flying) (ht' : t ∉ c'.flying) : c'.flying = c.flying := by
  ext u
  by_cases hut : u = t
  · subst hut
    exact iff_of_false ht' ht
  · exact flying_of_ne hpc hut

theorem returning_eq (ht : c.pc t ≠ .clearing) (ht' : c'.pc t ≠ .clearing) :
    c'.returning = c.returning := by
  ext u
  by_cases hut : u = t
  · subst hut
    exact iff_of_false ht' ht
  · exact returning_of_ne hpc hut

/-- **A call that ends** pays for the wakes it hands out. -/
theorem work_exit (hfin : c.flying.Finite) (hret : c.returning.Finite) (ht : t ∈ c.flying)
    (ht' : t ∉ c'.flying) (hn : c.flying.ncard ≤ n) : work n c' + 1 ≤ work n c := by
  have hfly : c'.flying ⊆ c.flying \ {t} := fun u hu => by
    have hut : u ≠ t := fun h => ht' (h ▸ hu)
    exact ⟨(flying_of_ne hpc hut).1 hu, hut⟩
  have hstir : c'.stirring.ncard ≤ (c.flying \ {t}).ncard :=
    Set.ncard_le_ncard ((stirring_subset c').trans hfly) hfin.sdiff
  have hfly' : c'.flying.ncard ≤ (c.flying \ {t}).ncard := Set.ncard_le_ncard hfly hfin.sdiff
  have hcard := Set.ncard_sdiff_singleton_add_one ht hfin
  have hret' : c'.returning.ncard ≤ c.returning.ncard + 1 :=
    (Set.ncard_le_ncard (returning_subset hpc) (hret.insert t)).trans (Set.ncard_insert_le ..)
  have hmul : (n + 1) * c'.flying.ncard ≤ (n + 1) * (c.flying \ {t}).ncard :=
    Nat.mul_le_mul_left _ hfly'
  simp only [work]
  rw [← hcard] at hn ⊢
  rw [Nat.mul_succ]
  omega

/-- **A caller that was outside and stays outside** wakes at most everybody. -/
theorem work_outside (hfin : c.flying.Finite) (hret : c.returning.Finite) (ht : t ∉ c.flying)
    (ht' : t ∉ c'.flying) (hn : c.flying.ncard ≤ n) : work n c' ≤ work n c + (n + 1) := by
  have hfly := flying_eq hpc ht ht'
  have hstir : c'.stirring.ncard ≤ c.flying.ncard :=
    Set.ncard_le_ncard (hfly ▸ stirring_subset c') hfin
  have hret' : c'.returning.ncard ≤ c.returning.ncard + 1 :=
    (Set.ncard_le_ncard (returning_subset hpc) (hret.insert t)).trans (Set.ncard_insert_le ..)
  simp only [work, hfly]
  omega

end pcs

/-- **A caller that falls asleep** takes itself off the list, and nobody else. -/
theorem stirring_of_asleep (hto : OnlyTouches t c.lock c.pc c'.lock c'.pc)
    (ht : Asleep c'.lock c'.pc m t) : c'.stirring = c.stirring \ {t} := by
  ext u
  by_cases hut : u = t
  · subst hut
    refine iff_of_false ?_ fun h => h.2 rfl
    rintro ⟨m', hfl, hno⟩
    exact hno (hfl.mode_eq ht.inFlight ▸ ht)
  · simp only [stirring, Set.mem_sdiff, Set.mem_singleton_iff, hut, not_false_eq_true, and_true,
      Set.mem_ofPred_eq, hto.onWay_iff hut]

omit [DecidableEq τ] in
theorem not_flying (ht : ∀ m, ¬ InFlight c.pc m t) : t ∉ c.flying := fun ⟨m, hm⟩ => ht m hm

omit [DecidableEq τ] in
/-- A change for one caller gets nobody else on its way. -/
theorem stirring_subset_insert (hto : OnlyTouches t c.lock c.pc c'.lock c'.pc) :
    c'.stirring ⊆ insert t c.stirring := by
  rintro u ⟨m, hu⟩
  by_cases hut : u = t
  · exact .inl hut
  · exact .inr ⟨m, (hto.onWay_iff hut).1 hu⟩

end System

section deeds

variable [DecidableEq τ] {rt : Runtime} {cls : LockClass} {c c' : System τ} {t u : τ} {m : Mode}
  {seq n : ℕ} {timed i : Bool} {a : Action τ} {o : Outcome}

omit [DecidableEq τ] in
theorem OnlyTouches.trans {s s' s'' : RWLock τ} {pc pc' pc'' : τ → Pc}
    (h : OnlyTouches t s pc s' pc') (h' : OnlyTouches t s' pc' s'' pc'') :
    OnlyTouches t s pc s'' pc'' := fun u hu =>
  ⟨(h' u hu).1.trans (h u hu).1, fun m => ((h' u hu).2 m).trans ((h u hu).2 m)⟩

/-- Where the wait loop leaves its caller: outside, or asleep. -/
theorem Looped.lands (h : Looped rt cls c t m seq timed o c') :
    (∀ m', ¬ InFlight c'.pc m' t) ∨
      Asleep c'.lock c'.pc m t ∧ OnlyTouches t c.lock c.pc c'.lock c'.pc := by
  cases h with
  | enters => exact .inl (System.not_inFlight_succeed _ _ _ _ _)
  | givesUp => exact .inl (not_inFlight_update (by simp))
  | parks =>
      refine .inr ⟨⟨?_, seq, timed, Function.update_self ..⟩, ?_⟩
      · simp [System.put, RWLock.waiter_onQueue, WaitQueue.appendWaiter]
      · have hto : OnlyTouches t c.lock c.pc (c.lock.onQueue m fun q => q.appendWaiter t)
            (Function.update c.pc t (.waiting m seq timed false)) :=
          .onQueue (fun u hu => Function.update_of_ne hu _ _) fun u hu =>
            Function.update_of_ne hu _ _
        exact hto

theorem System.endWait_touches (c : System τ) (t : τ) (m : Mode) (i : Bool) :
    OnlyTouches t c.lock c.pc (c.endWait t m i).lock (c.endWait t m i).pc := by
  have hto : OnlyTouches t c.lock c.pc
      (c.lock.onQueue m fun q => (if i then q.discardWaiter t else q).dropWaiter t) c.pc := by
    refine .onQueue (fun u _ => rfl) fun u hu => ?_
    cases i <;> exact Function.update_of_ne hu _ _
  exact hto

theorem System.register_touches (c : System τ) (t : τ) (m : Mode) (timed : Bool) :
    OnlyTouches t c.lock c.pc (c.register t m timed).lock (c.register t m timed).pc :=
  fun _ hu => ⟨Function.update_of_ne hu _ _, fun _ => RWLock.waiter_startWaiting ..⟩

omit [DecidableEq τ] in
/-- A parked call that may go on is on its way. -/
theorem onWay_of_resumable (ht : c.pc t = .waiting m seq timed i)
    (hon : c.lock.waiter m t = .pending → i = true) : OnWay c.lock c.pc m t := by
  refine ⟨⟨_, _, _, ht⟩, fun ⟨hp, seq', timed', ht'⟩ => ?_⟩
  rw [ht] at ht'
  cases ht'
  cases hon hp

/-- An interrupt gets its victim on its way, and nobody else. -/
theorem System.work_interrupt (hto : OnlyTouches t c.lock c.pc c'.lock c'.pc)
    (hfin : c.flying.Finite) (ht : InFlight c.pc m t) (ht' : InFlight c'.pc m t) :
    System.work n c' ≤ System.work n c + 1 := by
  have hpc : ∀ u, u ≠ t → c'.pc u = c.pc u := fun u hu => (hto u hu).1
  have hfly : c'.flying = c.flying := by
    ext u
    by_cases hut : u = t
    · subst hut
      exact iff_of_true ⟨m, ht'⟩ ⟨m, ht⟩
    · exact System.flying_of_ne hpc hut
  have hret : c'.returning = c.returning := by
    obtain ⟨_, _, _, ht⟩ := ht
    obtain ⟨_, _, _, ht'⟩ := ht'
    exact System.returning_eq hpc (by simp [ht]) (by simp [ht'])
  have hstir : c'.stirring.ncard ≤ c.stirring.ncard + 1 :=
    (Set.ncard_le_ncard (System.stirring_subset_insert hto)
      ((hfin.subset (System.stirring_subset c)).insert t)).trans (Set.ncard_insert_le ..)
  simp only [System.work, hfly, hret]
  omega

theorem System.cancel_touches (c : System τ) (t : τ) (m : Mode) (p : Pc) :
    OnlyTouches t c.lock c.pc (c.put (c.lock.onQueue m fun q => q.cancelWaiter t) t p).lock
      (c.put (c.lock.onQueue m fun q => q.cancelWaiter t) t p).pc := by
  have hto : OnlyTouches t c.lock c.pc (c.lock.onQueue m fun q => q.cancelWaiter t)
      (Function.update c.pc t p) := by
    refine .onQueue (fun u hu => Function.update_of_ne hu _ _) fun u hu => ?_
    rw [WaitQueue.cancelWaiter_state, if_neg (by simp [hu])]
  exact hto

/-- Clearing the marker is one thing less to do. -/
theorem System.work_clear (hto : OnlyTouches t c.lock c.pc c'.lock c'.pc)
    (hfin : c.flying.Finite) (hret : c.returning.Finite) (ht : c.pc t = .clearing)
    (ht' : c'.pc t = .idle) : System.work n c' + 1 ≤ System.work n c := by
  have hpc : ∀ u, u ≠ t → c'.pc u = c.pc u := fun u hu => (hto u hu).1
  have hfly := System.flying_eq hpc (System.not_flying (not_inFlight ht (by simp)))
    (System.not_flying (not_inFlight_of_idle ht'))
  have hstir : c'.stirring ⊆ c.stirring := fun u hu => by
    rcases System.stirring_subset_insert hto hu with rfl | hu'
    · exact absurd (System.stirring_subset c' hu) (System.not_flying (not_inFlight_of_idle ht'))
    · exact hu'
  have hret' : c'.returning = c.returning \ {t} := by
    ext u
    by_cases hut : u = t
    · subst hut
      exact iff_of_false (fun h => by cases ht'.symm.trans h) fun h => h.2 rfl
    · rw [System.returning_of_ne hpc hut, Set.mem_sdiff]
      exact ⟨fun h => ⟨h, hut⟩, fun h => h.1⟩
  have hcard := Set.ncard_sdiff_singleton_add_one (show t ∈ c.returning from ht) hret
  have hle := Set.ncard_le_ncard hstir (hfin.subset (System.stirring_subset c))
  simp only [System.work, hfly, hret']
  omega

/-- **A step lowers the work by what it does and raises it by what it is worth.** -/
theorem Deed.pays (h : Deed rt cls c t a o c') (hw : WellFormed cls c.lock c.pc)
    (hret : c.returning.Finite) (hpc : ∀ u, u ≠ t → c'.pc u = c.pc u) (hn : c.waiting ≤ n) :
    a.goesOn.toNat + System.work n c' ≤ System.work n c + a.worth n := by
  obtain ⟨hfin, hcard⟩ := System.ncard_flying hw
  have hn : c.flying.ncard ≤ n := by omega
  have hstirfin := hfin.subset (System.stirring_subset c)
  have hidle : c.pc t = .idle → t ∉ c.flying :=
    fun hi => System.not_flying (not_inFlight_of_idle hi)
  -- a call that leaves its caller outside
  have houtside : c.pc t = .idle → (∀ m', ¬ InFlight c'.pc m' t) →
      0 + System.work n c' ≤ System.work n c + (n + 1) := fun hi hno => by
    have := System.work_outside hpc hfin hret (hidle hi) (System.not_flying hno) hn
    omega
  -- a call that was parked and is over
  have hexit : ∀ m, OnWay c.lock c.pc m t → (∀ m', ¬ InFlight c'.pc m' t) →
      1 + System.work n c' ≤ System.work n c + 0 := fun m ht hno => by
    have := System.work_exit hpc hfin hret ⟨m, ht.1⟩ (System.not_flying hno) hn
    omega
  cases h with
  | rejected | refused | leaveRaises | downgradeRaises =>
      simp only [Action.goesOn, Bool.toNat_false]
      omega
  | enters hi => exact houtside hi (System.not_inFlight_succeed _ _ _ _ _)
  | @waits m p expired o c' hi _ _ _ hloop =>
      rcases hloop.lands with hno | ⟨hasl, hto⟩
      · exact houtside hi hno
      · have hto := (c.register_touches t m _).trans hto
        have hstir := System.stirring_of_asleep hto hasl
        have hfly : c'.flying ⊆ insert t c.flying := fun u hu => by
          by_cases hut : u = t
          · exact .inl hut
          · exact .inr ((System.flying_of_ne hpc hut).1 hu)
        have hret' : c'.returning = c.returning := by
          obtain ⟨_, _, hasl⟩ := hasl.2
          exact System.returning_eq hpc (by simp [hi]) (by simp [hasl])
        have h₁ : c'.stirring.ncard ≤ c.stirring.ncard :=
          Set.ncard_le_ncard (hstir ▸ Set.sdiff_subset) hstirfin
        have h₂ : c'.flying.ncard ≤ c.flying.ncard + 1 :=
          (Set.ncard_le_ncard hfly (hfin.insert t)).trans (Set.ncard_insert_le ..)
        have h₃ := Nat.mul_le_mul_left (n + 1) h₂
        rw [Nat.mul_succ] at h₃
        simp only [System.work, hret', Action.goesOn, Action.worth, Action.isCall, if_true,
          Bool.toNat_false]
        omega
  | @goesOn m seq timed i expired o c' ht hon hrt hloop =>
      have hway := onWay_of_resumable ht hon
      rcases hloop.lands with hno | ⟨hasl, hto⟩
      · exact hexit m hway hno
      · have hto := (c.endWait_touches t m i).trans hto
        have hstir := System.stirring_of_asleep hto hasl
        have hcard := Set.ncard_sdiff_singleton_add_one
          (show t ∈ c.stirring from ⟨m, hway⟩) hstirfin
        have hfly : c'.flying = c.flying := by
          ext u
          by_cases hut : u = t
          · subst hut
            exact iff_of_true ⟨m, hasl.inFlight⟩ ⟨m, hway.1⟩
          · exact System.flying_of_ne hpc hut
        have hret' : c'.returning = c.returning := by
          obtain ⟨_, _, hasl⟩ := hasl.2
          exact System.returning_eq hpc (by simp [ht]) (by simp [hasl])
        simp only [System.work, hfly, hret', hstir, Action.goesOn, Bool.toNat_true]
        omega
  | cancelled hrt ht =>
      exact hexit _ (onWay_of_resumable ht fun _ => rfl) (not_inFlight_update (by simp))
  | timesOut hrt ht hpend =>
      show 0 + System.work n _ ≤ System.work n c + 1
      rw [Nat.zero_add]
      exact System.work_interrupt
        (fun u hu => ⟨Function.update_of_ne hu _ _, fun _ => rfl⟩) hfin ⟨_, _, _, ht⟩
        ⟨_, _, _, Function.update_self ..⟩
  | isCancelled hrt ht =>
      show 0 + System.work n _ ≤ System.work n c + 1
      rw [Nat.zero_add]
      exact System.work_interrupt (c.cancel_touches t _ _) hfin ⟨_, _, _, ht⟩
        ⟨_, _, _, Function.update_self ..⟩
  | clears ht =>
      show 1 + System.work n _ ≤ System.work n c + 0
      rw [Nat.add_comm]
      exact System.work_clear (fun u hu => ⟨Function.update_of_ne hu _ _, fun _ => rfl⟩) hfin hret
        ht (Function.update_self ..)
  | leaves hi | routed hi | countsDown hi | frees hi | freeRaises hi | downgrades hi =>
      exact houtside hi (not_inFlight_of_idle hi)

end deeds

namespace System

variable [DecidableEq τ] {rt : Runtime} {cls : LockClass} {c c' : System τ} {n : ℕ} {a : Action τ}
  {o : Outcome}

theorem step_work (h : Reachable rt cls c) (hst : c.step rt cls a = some (o, c'))
    (ha : a.caller ≠ none) (hn : c.waiting ≤ n) :
    a.goesOn.toNat + work n c' ≤ work n c + a.worth n := by
  obtain ⟨t, ht⟩ := Option.ne_none_iff_exists'.1 ha
  exact (step_deed h.wellFormed hst ht).pays h.wellFormed h.finite_returning
    (fun u hu => (step_untouched h.wellFormed.books hst ha (by simpa [ht] using Ne.symm hu)).pc) hn

omit [DecidableEq τ] in
theorem work_new (n : ℕ) : work n ({} : System τ) = 0 := by
  simp [work, stirring, flying, returning, OnWay, InFlight]

/-- **No livelock.**  While at most `n` calls wait at a time, every call from outside
pays for at most `n + 1` steps that a parked or returning call takes by itself, and every
timeout or cancellation for one. -/
theorem own_steps_bounded (n : ℕ) {as : List (Action τ)}
    (h : Transition.Run
      (Transition.restrict (fun c a => InTask c a ∧ c.waiting ≤ n) (Step rt cls)) {} as c) :
    as.countP Action.goesOn ≤ (n + 1) * as.countP Action.isCall + as.countP Action.isInterrupt := by
  have hrun := h.countP_le (I := Reachable rt cls) (Φ := work n) (p := Action.goesOn)
    (w := Action.worth n) ?_ (.start rfl)
  · rw [sum_worth, work_new] at hrun
    omega
  · rintro c a c' hr ⟨⟨ha, hn⟩, o, hst⟩
    exact ⟨hr.step hst ha, step_work hr hst ha hn⟩

/-- Two readers are woken, overtaken by the writer that woke them, and woken again. -/
theorem own_steps_bounded_overtaken : ∃ (c : System ℕ) (as : List (Action ℕ)),
    c.lock.readersActive = 2 ∧ as.countP Action.goesOn = 6 ∧
      as.countP Action.goesOn ≤
        (2 + 1) * as.countP Action.isCall + as.countP Action.isInterrupt := by
  have hrun : ((Transition.replay
      (next (fun c a => InTask c a ∧ c.waiting ≤ (2 : ℕ)) .thread .write) ({} : System ℕ)
      [.acquire 0 .write .forever false, .clear 0, .acquire 1 .read .forever false,
      .acquire 2 .read .timed false, .release (some 0) .write,
      .acquire 0 .write .forever false, .clear 0, .resume 1 false, .resume 2 false,
      .release (some 0) .write, .resume 2 false, .resume 1 false]).map fun c =>
        c.lock.readersActive) = some 2 := by
    decide
  obtain ⟨c, hc, hval⟩ := Option.map_eq_some_iff.1 hrun
  exact ⟨c, _, hval, by decide, own_steps_bounded 2 (run_of_replay hc)⟩

/-- A call that goes on by itself adds nobody to those who wait. -/
theorem flying_goesOn (h : Reachable rt cls c) (hst : c.step rt cls a = some (o, c'))
    (ha : a.goesOn = true) : c'.flying ⊆ c.flying := by
  obtain ⟨t, ht⟩ : ∃ t, a.caller = some t := by
    cases a <;> simp [Action.goesOn, Action.caller] at ha ⊢
  have hpc : ∀ u, u ≠ t → c'.pc u = c.pc u := fun u hu =>
    (step_untouched h.wellFormed.books hst (by simp [ht]) (by simpa [ht] using Ne.symm hu)).pc
  intro u hu
  by_cases hut : u = t
  · subst hut
    cases step_deed h.wellFormed hst ht with
    | goesOn hw | cancelled _ hw => exact ⟨_, _, _, _, hw⟩
    | clears => exact absurd hu (not_flying (not_inFlight_update (by simp)))
    | _ => cases ha
  · exact (flying_of_ne hpc hut).1 hu

/-- Nobody is on the way where nothing goes on by itself. -/
theorem quiescent_of_rests (hrest : ∀ a, a.goesOn = true → c.step rt cls a = none) :
    c.Quiescent := by
  rintro t m ⟨⟨seq, timed, i, ht⟩, hno⟩
  have hstep := hrest (.resume t false) rfl
  simp only [step, ht] at hstep
  split_ifs at hstep with hp
  exact hno ⟨hp.1, seq, timed, hp.2 ▸ ht⟩

/-- **Left alone, the lock comes to rest.**  Without calls, timeouts and cancellations only
so many steps are left, in whatever order they are taken; and once none is left, everybody
who still waits would be refused, and nobody is on the way out of `acquire`. -/
theorem settles (h : Reachable rt cls c) {as : List (Action τ)}
    (hrun : Transition.Run
      (Transition.restrict (fun c a => InTask c a ∧ a.goesOn = true) (Step rt cls)) c as c') :
    as.length ≤ c.waiting.toNat * (c.waiting.toNat + 2) + c.returning.ncard ∧
      ((∀ a, a.goesOn = true → c'.step rt cls a = none) →
        RefusesWaiters cls c' ∧ ∀ t, c'.pc t ≠ .clearing) := by
  have hkeep : ∀ s a s', Reachable rt cls s ∧ s.flying ⊆ c.flying →
      Transition.restrict (fun c a => InTask c a ∧ a.goesOn = true) (Step rt cls) s a s' →
        (Reachable rt cls s' ∧ s'.flying ⊆ c.flying) ∧
          work c.waiting.toNat s' < work c.waiting.toNat s := by
    rintro s a s' ⟨hr, hsub⟩ ⟨⟨ha, hgo⟩, o, hst⟩
    have hr' := hr.step hst ha
    refine ⟨⟨hr', (flying_goesOn hr hst hgo).trans hsub⟩, ?_⟩
    obtain ⟨hfin, hcard⟩ := ncard_flying h.wellFormed
    have hle := Set.ncard_le_ncard hsub hfin
    have hcard' := (ncard_flying hr.wellFormed).2
    have hpay := step_work (n := c.waiting.toNat) hr hst ha (by omega)
    have hworth : a.worth c.waiting.toNat = 0 := by
      cases a <;> first | rfl | cases hgo
    rw [hgo, hworth, Bool.toNat_true] at hpay
    omega
  constructor
  · have hlen := hrun.length_le hkeep ⟨h, subset_rfl⟩
    obtain ⟨hfin, hcard⟩ := ncard_flying h.wellFormed
    have hstir := Set.ncard_le_ncard (stirring_subset c) hfin
    have hn : c.flying.ncard = c.waiting.toNat := by omega
    rw [hn] at hstir
    have hwork : work c.waiting.toNat c ≤
        c.waiting.toNat * (c.waiting.toNat + 2) + c.returning.ncard := by
      simp only [work, hn, Nat.mul_add, Nat.add_mul]
      omega
    omega
  · intro hrest
    have hr' : Reachable rt cls c' := h.run (hrun.mono fun _ _ _ hst => ⟨hst.1.1, hst.2⟩)
    refine ⟨hr'.refusesWaiters (quiescent_of_rests hrest), fun t ht => ?_⟩
    have hstep := hrest (.clear t) rfl
    simp [step, ht] at hstep

/-- The two readers were woken and overtaken: two steps later they sleep again. -/
theorem settles_overtaken : ∃ (c c' : System ℕ) (as : List (Action ℕ)),
    c.waiting = 2 ∧ as.length = 2 ∧ Asleep c'.lock c'.pc .read 1 ∧
    as.length ≤ c.waiting.toNat * (c.waiting.toNat + 2) + c.returning.ncard ∧
      ((∀ a, a.goesOn = true → c'.step .thread .write a = none) →
        RefusesWaiters .write c' ∧ ∀ t, c'.pc t ≠ .clearing) := by
  have hrun : ((Transition.replay (next InTask .thread .write) ({} : System ℕ)
      [.acquire 0 .write .forever false, .clear 0, .acquire 1 .read .forever false,
      .acquire 2 .read .timed false, .release (some 0) .write,
      .acquire 0 .write .forever false, .clear 0]).bind fun c =>
        (Transition.replay (next (fun c a => InTask c a ∧ a.goesOn = true) .thread .write) c
          [.resume 1 false, .resume 2 false]).map fun c' =>
            (c.waiting, decide (Asleep c'.lock c'.pc .read 1))) = some (2, true) := by
    decide
  obtain ⟨c, hc, hrun⟩ := Option.bind_eq_some_iff.1 hrun
  obtain ⟨c', hc', hval⟩ := Option.map_eq_some_iff.1 hrun
  simp only [Prod.mk.injEq, decide_eq_true_eq] at hval
  exact ⟨c, c', _, hval.1, rfl, hval.2, settles ⟨_, _, rfl, run_of_replay hc⟩ (run_of_replay hc')⟩

end System

end Rwlocker

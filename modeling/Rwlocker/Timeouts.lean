/-
# Signals and timeouts

`RWConditionProxy.wait` with a timeout.  A thread whose timeout has passed stays in the
queue until it has taken the lock back, and until then a `notify` takes it for a sleeper:
the thread is popped and counted, and its `wait()` returns `False` all the same.

So what a signalled `wait()` returns is settled when it is signalled: `True` exactly if
its timeout had not passed by then (`CondSystem.notify_timely`).  A timeout can pass
afterwards no more, since the waiter is not pending then.
-/

import Rwlocker.Cancellation

namespace Rwlocker

variable {τ σ : Type} [DecidableEq τ]

/-- The timeout of the call in progress has passed. -/
def Phase.late : Phase → Bool
  | .sleeping _ interrupted => interrupted
  | .woken _ gotit _ | .reacquiring _ gotit _ => !gotit
  | .out | .tested _ _ | .again _ _ | .queued _ => false

/-- The call whose caller has found its waiter woken. -/
def Phase.served? : Phase → Option WaitCall
  | .woken w true _ | .reacquiring w true _ => some w
  | .woken _ false _ | .reacquiring _ false _ | .out | .tested _ _ | .again _ _ | .queued _
  | .sleeping _ _ => none

theorem Phase.wait?_of_served? {p : Phase} {w : WaitCall} (h : p.served? = some w) :
    p.wait? = some w := by
  cases p with
  | out | tested | again | queued | sleeping => cases h
  | woken w' gotit | reacquiring w' gotit =>
      cases gotit with
      | false => cases h
      | true => exact h

/-- Threads in the queue sleep, or have timed out, but have not returned. -/
structure Unserved (c : CondSystem τ σ) : Prop where
  pending : ∀ i ∈ c.queue.waiters, c.queue.state i = .pending
  served : ∀ t w, (c.phase t).served? = some w → c.queue.state w.call ≠ .pending
  unreturned : ∀ i ∈ c.queue.waiters, ∀ b, c.ended i ≠ some (.returned b)

/-- A woken call `i` that is late returns `False`, and one that is not returns `True`. -/
structure Fated (i : ℕ) (b : Bool) (c : CondSystem τ σ) : Prop where
  lt : i < c.calls
  woken : c.queue.state i = .woken
  late : ∀ t w, (c.phase t).wait? = some w → w.call = i → (c.phase t).late = b
  ended : ∀ b', c.ended i = some (.returned b') → b' = !b

variable {P : CondSystem τ σ → CondAction τ σ → Prop} {cls : LockClass} {pred : σ → Bool}
  {c c' : CondSystem τ σ} {t : τ} {p : Phase} {w : WaitCall} {i : ℕ} {b : Bool}

theorem WaitCall.next_served? (w : WaitCall) (e : Ending) : (w.next e).served? = none := by
  cases e <;> simp only [WaitCall.next] <;> try split_ifs
  all_goals rfl

namespace Unserved

omit [DecidableEq τ] in
theorem init (s : σ) : Unserved ({ shared := s } : CondSystem τ σ) where
  pending _ h := by cases h
  served _ _ h := by cases h
  unreturned _ h := by cases h

omit [DecidableEq τ] in
theorem congr (h : Unserved c) (hq : c'.queue = c.queue) (hph : c'.phase = c.phase)
    (hend : c'.ended = c.ended) : Unserved c' where
  pending := by
    rw [hq]
    exact h.pending
  served := by
    rw [hq, hph]
    exact h.served
  unreturned := by
    rw [hq, hend]
    exact h.unreturned

theorem goto (h : Unserved c)
    (hp : ∀ w, p.served? = some w → c.queue.state w.call ≠ .pending) : Unserved (c.goto t p) where
  pending := h.pending
  served u w hu := by
    by_cases hut : u = t
    · subst hut
      rw [CondSystem.goto_phase_self] at hu
      exact hp w hu
    · rw [CondSystem.goto_phase_of_ne c hut] at hu
      exact h.served u w hu
  unreturned := h.unreturned

omit [DecidableEq τ] in
theorem notify (h : Unserved c) (hc : Calls c) (n : ℤ) :
    Unserved { c with queue := c.queue.notify n } where
  pending i hi := (WaitQueue.notify_kept hc.nodup hi).trans
    (h.pending i ((c.queue.notify_suffix n).subset hi))
  served u w hu hp := by
    refine h.served u w hu ?_
    rcases c.queue.notify_state n w.call with heq | ⟨hp', -, -⟩
    · rwa [← heq]
    · exact hp'
  unreturned i hi := h.unreturned i ((c.queue.notify_suffix n).subset hi)

omit [DecidableEq τ] in
theorem removeWaiter (h : Unserved c) (w : WaitCall) : Unserved (c.removeWaiter w) where
  pending i hi := h.pending i (List.mem_of_mem_erase hi)
  served := h.served
  unreturned i hi := h.unreturned i (List.mem_of_mem_erase hi)

/-- A call ends whose waiter is not in the queue, or which does not return. -/
theorem endWait (h : Unserved c) {e : Ending}
    (he : w.call ∈ c.queue.waiters → ∀ b, e ≠ .returned b) : Unserved (c.endWait t w e) := by
  have hg : Unserved (c.goto t (w.next e)) :=
    h.goto fun w' hw' => by simp [w.next_served?] at hw'
  refine ⟨hg.pending, hg.served, fun i hi b hb => ?_⟩
  have hi : i ∈ c.queue.waiters := hi
  have hb : Function.update c.ended w.call (some e) i = some (.returned b) := hb
  by_cases heq : i = w.call
  · subst heq
    rw [Function.update_self] at hb
    exact he hi b (Option.some.inj hb)
  · rw [Function.update_of_ne heq] at hb
    exact h.unreturned i hi b hb

theorem enqueue (h : Unserved c) (hc : Calls c) (hw : w.call = c.calls) :
    Unserved (c.enqueue t w) := by
  have hstate : ∀ i, i < c.calls → (c.enqueue t w).queue.state i = c.queue.state i :=
    fun i hi => Function.update_of_ne (by omega) _ _
  have hnew : (c.enqueue t w).queue.state w.call = .pending := Function.update_self ..
  have hmem : ∀ i ∈ (c.enqueue t w).queue.waiters, i ∈ c.queue.waiters ∨ i = w.call := by
    intro i hi
    rcases List.mem_append.1 (show i ∈ c.queue.waiters ++ [w.call] from hi) with hi | hi
    · exact .inl hi
    · exact .inr (List.mem_singleton.1 hi)
  refine ⟨fun i hi => ?_, fun u w' hu => ?_, fun i hi b => ?_⟩
  · rcases hmem i hi with hi | rfl
    · rw [hstate i (hc.lt_of_queued hi)]
      exact h.pending i hi
    · exact hnew
  · by_cases hut : u = t
    · subst hut
      rw [show (c.enqueue u w).phase u = .queued w from Function.update_self ..] at hu
      cases hu
    · rw [show (c.enqueue t w).phase u = c.phase u from Function.update_of_ne hut ..] at hu
      rw [hstate _ (hc.lt u w' (Phase.wait?_of_served? hu))]
      exact h.served u w' hu
  · rcases hmem i hi with hi | rfl
    · exact h.unreturned i hi b
    · intro he
      have he : c.ended w.call = some (.returned b) := he
      rw [(hc.unborn w.call (by omega)).2.2] at he
      cases he

end Unserved

/-- **Every move of a thread** keeps the queue to waiters that were not served. -/
theorem WaitMove.unserved (hmv : WaitMove P .thread cls pred c c') (hc : Calls c)
    (h : Unserved c) : Unserved c' := by
  have hnone : ∀ {t : τ} {p : Phase}, p.served? = none → Unserved (c.goto t p) := fun hp =>
    h.goto fun w hw => by simp [hp] at hw
  have hsame : ∀ {t : τ} {p p' : Phase}, c.phase t = p → p'.served? = p.served? →
      Unserved (c.goto t p') := by
    rintro t p p' rfl hp
    exact h.goto fun w hw => h.served t w (hp.symm.trans hw)
  cases hmv with
  | lock | change | goOn | cancelAgain => exact h.congr rfl rfl rfl
  | notify => exact h.notify hc _
  | notifyAll => exact (h.notify hc c.queue.waiters.length).congr rfl rfl rfl
  | quit => exact hnone rfl
  | tested => exact hnone rfl
  | enqueue => exact h.enqueue hc rfl
  | @leave t w =>
      have hg : Unserved (c.goto t (.sleeping w false)) := hnone rfl
      exact hg.congr rfl rfl rfl
  | @leaveRaised t w e =>
      have hg : Unserved ((c.removeWaiter w).endWait t w (.raised e)) :=
        (h.removeWaiter w).endWait fun _ b => nofun
      exact hg.congr rfl rfl rfl
  | timeout => exact hnone rfl
  | cancel hrt => cases hrt
  | @wake t w i hph hon =>
      refine h.goto fun w' hw' hp => ?_
      cases i with
      | false =>
          cases hw'
          exact absurd (hon hp) (by decide)
      | true => cases hw'
  | @reacquire t w gotit err o sys hph =>
      have hg : Unserved (c.goto t (.reacquiring w gotit err)) :=
        hsame hph (by cases gotit <;> rfl)
      exact hg.congr rfl rfl rfl
  | @reacquireRaised t w gotit err e =>
      have hg : Unserved (c.endWait t w (.raised e)) := h.endWait fun _ b => nofun
      exact hg.congr rfl rfl rfl
  | @retry t w gotit err expired sys hph =>
      have hg : Unserved (c.goto t (.woken w gotit true)) := hsame hph (by cases gotit <;> rfl)
      exact hg.congr rfl rfl rfl
  | @finish t w gotit err hph =>
      unfold CondSystem.finish
      dsimp only
      split_ifs with hi
      · exact (h.removeWaiter w).endWait fun hmem => absurd hmem hc.nodup.not_mem_erase
      · -- whoever found its waiter woken is not in the queue
        have hgot : gotit = true := by simpa using hi
        refine h.endWait fun hmem => absurd (h.pending _ hmem) (h.served t w ?_)
        rw [hph, hgot]
        rfl

/-- **What a woken call returns does not change any more.** -/
theorem WaitMove.fated (hmv : WaitMove P .thread cls pred c c') (h : Fated i b c) :
    Fated i b c' := by
  obtain ⟨hlt, -, hstate⟩ := hmv.waiter h.lt
  have hwoken : c'.queue.state i = .woken := by
    rcases hstate with heq | ⟨hp, -⟩
    · exact heq.trans h.woken
    · rw [h.woken] at hp
      cases hp
  have hgo : ∀ {d : CondSystem τ σ} {t : τ} {p : Phase}, d.phase = c.phase →
      (∀ w, p.wait? = some w → w.call = i → p.late = b) →
      ∀ u w, ((d.goto t p).phase u).wait? = some w → w.call = i →
        ((d.goto t p).phase u).late = b := by
    intro d t p hd hp u w hu hw
    by_cases hut : u = t
    · subst hut
      rw [CondSystem.goto_phase_self] at hu ⊢
      exact hp w hu hw
    · rw [CondSystem.goto_phase_of_ne d hut, hd] at hu ⊢
      exact h.late u w hu hw
  have hsame : ∀ {t : τ} {p p' : Phase}, c.phase t = p → p'.wait? = p.wait? →
      p'.late = p.late → ∀ w, p'.wait? = some w → w.call = i → p'.late = b := by
    rintro t p p' rfl hw hl w hw' hi
    exact hl.trans (h.late t w (hw.symm.trans hw') hi)
  have hend : ∀ {d : CondSystem τ σ} {t : τ} {w : WaitCall} {e : Ending}, d.phase = c.phase →
      ∀ u w', ((d.endWait t w e).phase u).wait? = some w' → w'.call = i →
        ((d.endWait t w e).phase u).late = b := fun {d t w e} hd =>
    hgo hd fun w' hw' => by simp [(w.parked?_next e).1] at hw'
  have hended : ∀ {d : CondSystem τ σ} {t : τ} {w : WaitCall} {e : Ending},
      d.ended = c.ended → (w.call = i → ∀ b', e = .returned b' → b' = !b) →
      ∀ b', (d.endWait t w e).ended i = some (.returned b') → b' = !b := by
    intro d t w e hd he b' hb'
    have hb' : Function.update d.ended w.call (some e) i = some (.returned b') := hb'
    by_cases heq : i = w.call
    · rw [heq, Function.update_self] at hb'
      exact he heq.symm b' (Option.some.inj hb')
    · rw [Function.update_of_ne heq, hd] at hb'
      exact h.ended b' hb'
  refine ⟨hlt, hwoken, ?_, ?_⟩
  · cases hmv with
    | lock | change | goOn | cancelAgain | notify | notifyAll => exact h.late
    | quit | tested => exact hgo rfl nofun
    | enqueue =>
        refine hgo rfl fun w hw hi => ?_
        cases hw
        have := h.lt
        exact absurd hi (by simp only; omega)
    | leave hph => exact hgo rfl (hsame hph rfl rfl)
    | timeout _ hph hpend =>
        refine hgo rfl fun w hw hi => ?_
        cases hw
        rw [hi, h.woken] at hpend
        cases hpend
    | cancel hrt => cases hrt
    | wake hph => exact hgo rfl (hsame hph rfl (Bool.not_not _))
    | reacquire hph | retry hph => exact hgo rfl (hsame hph rfl rfl)
    | leaveRaised | reacquireRaised => exact hend rfl
    | finish =>
        unfold CondSystem.finish
        dsimp only
        split_ifs
        · exact hend rfl
        · exact hend rfl
  · cases hmv with
    | lock | change | goOn | cancelAgain | notify | notifyAll | quit | tested | enqueue | leave
    | timeout | cancel | wake | reacquire | retry => exact h.ended
    | leaveRaised | reacquireRaised => exact hended rfl fun _ b' => nofun
    | @finish t w gotit err hph =>
        have hret : w.call = i → ∀ b', CondSystem.ending .thread gotit err = .returned b' →
            b' = !b := by
          intro hi b' hb'
          cases hb'
          have hlate := h.late t w (by rw [hph]; rfl) hi
          rw [hph, Phase.late] at hlate
          rw [← hlate, Bool.not_not]
        unfold CondSystem.finish
        dsimp only
        split_ifs
        · exact hended rfl hret
        · exact hended rfl hret

namespace CondSystem

variable {c₀ c₁ : CondSystem τ σ} {as : List (CondAction τ σ)} {k : Option τ} {m : Mode} {n : ℤ}

/-- The timeout of the call `i` has passed, and the call is not over. -/
def TimedOut (c : CondSystem τ σ) (i : ℕ) : Prop :=
  ∃ t w, (c.phase t).wait? = some w ∧ w.call = i ∧ (c.phase t).late = true

theorem Reachable.unserved (h : Reachable .thread cls pred c) : Calls c ∧ Unserved c :=
  (h.of_move .init fun _ _ _ hc hu hmv => hmv.unserved hc hu).2

omit [DecidableEq τ] in
/-- A notify settles what the waiters it pops return. -/
theorem fated_of_popped (hc : Calls c) (hu : Unserved c) (hi : i ∈ c.queue.waiters)
    (hi' : i ∉ (c.queue.notify n).waiters) (hb : b = true ↔ TimedOut c i) :
    Fated i b { c with queue := c.queue.notify n } where
  lt := hc.lt_of_queued hi
  woken := by
    rcases c.queue.notify_state n i with heq | ⟨-, -, hw⟩
    · exact absurd (heq.trans (hu.pending i hi)) (WaitQueue.notify_popped hi hi')
    · exact hw
  late t w hw hwi := by
    rw [Bool.eq_iff_iff, hb]
    refine ⟨fun hl => ⟨t, w, hw, hwi, hl⟩, ?_⟩
    rintro ⟨u, w', hu, hwu, hl⟩
    obtain rfl := hc.inj t u w w' hw hu (hwi.trans hwu.symm)
    exact hl
  ended b' hb' := absurd hb' (hu.unreturned i hi b')

/-- **When a notified `wait(timeout)` returns `True`.**  Take any reachable state, any
`notify(n)`, any run after it and any waiter that the notify removed from the queue.
When that waiter's `wait()` returns, it returns `True` if and only if its timeout had not
passed when it was notified. -/
theorem notify_timely (h₀ : Reachable .thread cls pred c₀)
    (hn : c₀.step .thread cls pred (.notify k m n) = some (.notified, c₁))
    (hi : i ∈ c₀.queue.waiters) (hi' : i ∉ c₁.queue.waiters)
    (hrun : Transition.Run (Transition.restrict InTask (Step .thread cls pred)) c₁ as c)
    (he : c.ended i = some (.returned b)) : b = true ↔ ¬ TimedOut c₀ i := by
  obtain ⟨hc₀, hu₀⟩ := h₀.unserved
  obtain ⟨late, hlate⟩ : ∃ late : Bool, late = true ↔ TimedOut c₀ i := by
    by_cases hT : TimedOut c₀ i
    · exact ⟨true, by simpa using hT⟩
    · exact ⟨false, by simpa using hT⟩
  obtain rfl := step_notified hn
  have hfate : Fated i late c := by
    refine hrun.invariant (I := Fated i late) ?_ (fated_of_popped hc₀ hu₀ hi hi' hlate)
    rintro c a c' h ⟨hP, hst⟩
    exact (hst.moves hP).invariant (fun _ _ h hmv => hmv.fated h) h
  rw [hfate.ended b he, ← hlate]
  cases late <;> simp

/-- Reader 0, whose `wait()` has a timeout, and reader 1, whose `wait()` has none, sleep
while thread 2 writes. -/
def oneTimed : List (CondAction ℕ Bool) :=
  [.lock (.acquire 0 .read .forever false), .wait 0 .read true, .leave 0,
    .lock (.acquire 1 .read .forever false), .wait 1 .read false, .leave 1,
    .lock (.acquire 2 .write .forever false), .lock (.clear 2)]

/-- Reader 0 is notified in time. -/
theorem notify_timely_awake : ∃ c₀ c : CondSystem ℕ Bool, c₀.queue.waiters = [0, 1] ∧
    c.ended 0 = some (.returned true) ∧ ¬ TimedOut c₀ 0 := by
  have hrun : ((Transition.replay (next InTask .thread .fair id) { shared := false }
      oneTimed).bind fun c₀ => (c₀.step .thread .fair id (.notify (some 2) .write 1)).bind
        fun r => (Transition.replay (next InTask .thread .fair id) r.2
          [.lock (.release (some 2) .write), .wake 0, .reacquire 0, .finish 0]).map fun c =>
            (r.1, c₀.queue.waiters, r.2.queue.waiters, c.ended 0)) =
      some (.notified, [0, 1], [1], some (.returned true)) := by
    decide
  obtain ⟨c₀, hc₀, hrun⟩ := Option.bind_eq_some_iff.1 hrun
  obtain ⟨⟨o, c₁⟩, hn, hrun⟩ := Option.bind_eq_some_iff.1 hrun
  obtain ⟨c, hc, hval⟩ := Option.map_eq_some_iff.1 hrun
  simp only [Prod.mk.injEq] at hval
  obtain ⟨rfl, hq₀, hq₁, he⟩ := hval
  have hr : Reachable .thread .fair id c₀ := ⟨{ shared := false }, _, rfl, run_of_replay hc₀⟩
  exact ⟨c₀, c, hq₀, he, (notify_timely hr hn (by simp [hq₀]) (by simp [hq₁])
    (run_of_replay hc) he).1 rfl⟩

/-- The timeout of reader 0 has passed when `notify(1)` pops it: its `wait()` returns
`False`, and reader 1 sleeps on. -/
theorem notify_swallowed : ∃ (c₀ c₁ c : CondSystem ℕ Bool) (as : List (CondAction ℕ Bool)),
    Reachable .thread .fair id c₀ ∧
      c₀.step .thread .fair id (.notify (some 2) .write 1) = some (.notified, c₁) ∧
      0 ∈ c₀.queue.waiters ∧ 0 ∉ c₁.queue.waiters ∧
      Transition.Run (Transition.restrict InTask (Step .thread .fair id)) c₁ as c ∧
      c.ended 0 = some (.returned false) ∧
      c.phase 1 = .sleeping ⟨1, .read, false, false⟩ false ∧ c.queue.state 1 = .pending := by
  have hrun : ((Transition.replay (next InTask .thread .fair id) { shared := false }
      (oneTimed ++ [.interrupt 0])).bind fun c₀ =>
        (c₀.step .thread .fair id (.notify (some 2) .write 1)).bind fun r =>
          (Transition.replay (next InTask .thread .fair id) r.2
            [.lock (.release (some 2) .write), .wake 0, .reacquire 0, .finish 0]).map fun c =>
              (r.1, decide (0 ∈ c₀.queue.waiters ∧ 0 ∉ r.2.queue.waiters), c.ended 0, c.phase 1,
                c.queue.state 1)) =
      some (.notified, true, some (.returned false),
        .sleeping ⟨1, .read, false, false⟩ false, .pending) := by
    decide
  obtain ⟨c₀, hc₀, hrun⟩ := Option.bind_eq_some_iff.1 hrun
  obtain ⟨⟨o, c₁⟩, hn, hrun⟩ := Option.bind_eq_some_iff.1 hrun
  obtain ⟨c, hc, hval⟩ := Option.map_eq_some_iff.1 hrun
  simp only [Prod.mk.injEq, decide_eq_true_eq] at hval
  obtain ⟨rfl, hq, he, h1, hs⟩ := hval
  exact ⟨c₀, c₁, c, _, ⟨{ shared := false }, _, rfl, run_of_replay hc₀⟩, hn, hq.1, hq.2,
    run_of_replay hc, he, h1, hs⟩

end CondSystem

end Rwlocker

/-
# One refresh at a time

What the global configuration cache promises, whatever its tasks call and wherever they
are cancelled: one task at a time refreshes the configuration (`one_refresh_at_a_time`); and
nobody is left behind in `wait_for` while nobody refreshes, unless a refresh was abandoned
(`rests_refreshed`), cancelled once more while its `except` clause waits for the lock.

That exception is not the code's.  It takes a task switch inside a block, which has no
`await` but the one in `wait_for`.  In an event loop nobody holds the lock at an `await`, so
no `acquire` waits, and no refresh is abandoned (`never_abandoned`).
-/

import Rwlocker.ConfigCache
import Rwlocker.Deadlock
import Rwlocker.Residue

namespace Rwlocker

open Rwlocker.System (HolderReachable)

variable {τ : Type} [DecidableEq τ] {cls : LockClass} {q q' : ConfigCache τ} {t u : τ}
  {s : ConfigCache.Stage} {p : Phase} {b : ConfigCache.Block} {e : ConfigCache.Event τ}

namespace ConfigCache

/-! ### What is true in every state -/

/-- The tasks release what they hold, and each is at one of its places. -/
structure Sound (cls : LockClass) (q : ConfigCache τ) : Prop where
  reach : CondSystem.HolderReachable .async cls notRefreshing q.cond
  fits : ∀ t, Fits q.cond t (q.stage t) (q.cond.phase t)

/-- The condition stays among its reachable states. -/
theorem Sound.reach_step (h : Sound cls q) (hst : q.step cls e = some q') :
    CondSystem.HolderReachable .async cls notRefreshing q'.cond := by
  have hcall : ∀ {t : τ} {a : CondAction τ Config} {k : CondOutcome → Stage},
      q.call cls t a k = some q' → CondSystem.ByHolder q.cond a →
      CondSystem.HolderReachable .async cls notRefreshing q'.cond := by
    intro t a k hst hby
    obtain ⟨o, c, hcond, rfl⟩ := call_eq_some hst
    exact h.reach.tail ⟨hby, o, hcond⟩
  have hsame : ∀ {t : τ} {s : Stage}, some (q.goto t s) = some q' →
      CondSystem.HolderReachable .async cls notRefreshing q'.cond := by
    rintro t s hst
    obtain rfl := Option.some.inj hst
    exact h.reach
  cases e with
  | getConfig t | forceRefresh t =>
      simp only [step] at hst
      split_ifs at hst
      exact hcall hst ⟨by simp [Action.caller], trivial⟩
  | go t =>
      simp only [step, go] at hst
      split at hst
      · cases hst
      · exact hcall hst ⟨by simp [Action.caller], trivial⟩
      · exact hcall hst ⟨by simp [Action.caller], trivial⟩
      · split_ifs at hst
        · refine hcall hst ?_
          unfold waitFor
          split <;> trivial
        · exact hsame hst
      · rename_i b _
        cases b with
        | get =>
            obtain rfl := Option.some.inj hst
            exact h.reach
        | claim | publish =>
            simp only [runBody] at hst
            exact hcall hst trivial
        | recover =>
            simp only [runBody] at hst
            split_ifs at hst
            · exact hcall hst trivial
            · exact hsame hst
      · exact hcall hst trivial
      · rename_i b raised hs
        have hf := h.fits t
        rw [hs] at hf
        obtain ⟨-, ⟨hone, -⟩, -⟩ := fits_out (by simp) hf
        refine hcall hst ⟨by simp [Action.caller], ?_⟩
        cases hm : b.mode with
        | read =>
            rw [hm] at hone
            have : q.cond.sys.holds.reads (some t) = 1 := hone.1
            show 0 < q.cond.sys.holds.reads (some t)
            omega
        | write =>
            rw [hm] at hone
            have : q.cond.sys.holds.writes (some t) = 1 := hone.2
            exact .inl (by omega)
  | cancel t =>
      simp only [step, cancel] at hst
      split at hst
      · exact hsame hst
      · exact hcall hst ⟨by simp [Action.caller], trivial⟩
      · exact hcall hst trivial
      · cases hst

/-- While a writer is in its block, nobody else is in one. -/
theorem Sound.not_inside (h : Sound cls q) (ht : Inside q.cond.sys t .write) (hu : u ≠ t)
    (m : Mode) : ¬ Inside q.cond.sys u m := by
  rintro ⟨hone, -⟩
  have hw : q.cond.sys.holds.writes (some t) = 1 := ht.1.2
  obtain ⟨hr, hw'⟩ :=
    h.reach.keeping.1.reach.exclusive (some t) (some u) (by omega) (by simpa using hu)
  cases m with
  | read =>
      have : q.cond.sys.holds.reads (some u) = 1 := hone.1
      omega
  | write =>
      have : q.cond.sys.holds.writes (some u) = 1 := hone.2
      omega

/-- A step leaves the lock state of the other tasks. -/
theorem Shift.others (h : q.Shift cls t s p q') (hr : HolderReachable .async cls q.cond.sys)
    (hu : u ≠ t) : Untouched u q.cond.sys q'.cond.sys := by
  rcases h.sys with heq | ⟨a, o, ha, hst, -⟩
  · rw [heq]
    exact System.untouched_refl ..
  · exact System.step_untouched hr.books hst (by simp [ha]) (by simpa [ha, eq_comm] using hu)

/-- The other tasks stay where they are. -/
theorem Shift.at_other (h : q.Shift cls t s p q') (hu : u ≠ t) :
    q'.stage u = q.stage u ∧ q'.cond.phase u = q.cond.phase u := by
  rw [h.stage, h.phase]
  exact ⟨Function.update_of_ne hu _ _, Function.update_of_ne hu _ _⟩

/-- Where the stepping task comes out. -/
theorem Shift.at_self (h : q.Shift cls t s p q') : q'.stage t = s ∧ q'.cond.phase t = p := by
  rw [h.stage, h.phase]
  exact ⟨Function.update_self .., Function.update_self ..⟩

/-- Who is left alone stays where it is, and nobody changes the flag behind it. -/
theorem Fits.others {c c' : CondSystem τ Config} (hf : Fits c u s p)
    (hun : Untouched u c.sys c'.sys) (hsh : ∀ m, Inside c.sys u m → c'.shared = c.shared) :
    Fits c' u s p := by
  have hin : ∀ {m}, Inside c.sys u m → Inside c'.sys u m := fun {m} h => by
    cases m <;> simpa only [Inside, OnlyHold, hun.reads, hun.writes, hun.pc] using h
  have hout : Outside c.sys u → Outside c'.sys u := fun h => by
    simpa only [Outside, NoHold, hun.reads, hun.writes, hun.pc] using h
  have hreg : ∀ {m}, Regains c.sys u m → Regains c'.sys u m := fun {m} h =>
    Keeps.untouched (p := .reacquiring ⟨0, m, false, true⟩ true false) h hun
  cases s <;> cases p <;> simp only [Fits] at hf ⊢
  case outside.out | fetching.out => exact hout hf
  case entering.out => exact hreg hf
  case entering.again | announcing.out | leaving.out => exact ⟨hin hf.1, hf.2⟩
  case entering.tested => exact ⟨hin hf.1, hsh _ hf.1 ▸ hf.2⟩
  case body.out => exact ⟨hin hf.1, hsh _ hf.1 ▸ hf.2⟩
  all_goals exact hf

/-- Everybody else stays where it is. -/
theorem Shift.all_fit (h : q.Shift cls t s p q') (hs : Sound cls q)
    (hsh : q'.cond.shared = q.cond.shared ∨ Inside q.cond.sys t .write) (u : τ) :
    Fits q'.cond u (q'.stage u) (q'.cond.phase u) := by
  by_cases hut : u = t
  · subst hut
    rw [h.at_self.1, h.at_self.2]
    exact h.fits
  · rw [(h.at_other hut).1, (h.at_other hut).2]
    refine (hs.fits u).others (h.others hs.reach.keeping.1.reach hut) fun m hin => ?_
    rcases hsh with hsh | hin'
    · exact hsh
    · exact absurd hin (hs.not_inside hin' hut m)

/-- **A step keeps every task at a place.** -/
theorem Does.fits (hd : Does cls q t q') (hs : Sound cls q) (u : τ) :
    Fits q'.cond u (q'.stage u) (q'.cond.phase u) := by
  cases hd with
  | quiet h hq | abandons _ h hq => exact h.all_fit hs (.inl hq.shared) u
  | sleeps _ h _ hsh | announces _ h _ hsh => exact h.all_fit hs (.inl hsh) u
  | copies _ h hc | finds _ h hc => exact h.all_fit hs (.inl (by rw [hc])) u
  | claims _ h hin | publishes _ h hin | recovers _ h hin => exact h.all_fit hs (.inr hin) u

/-- A step keeps every task where its hold says it is. -/
theorem Sound.step (h : Sound cls q) (hst : q.step cls e = some q') : Sound cls q' :=
  ⟨h.reach_step hst, (step_does h.reach.keeping.1 h.fits hst).fits h⟩

/-! ### One refresh at a time -/

/-- `t` refreshes the configuration. -/
def Refreshes (q : ConfigCache τ) (t : τ) : Prop := (q.stage t).refreshing = true

/-- At most one task refreshes, behind the flag. -/
structure Owned (q : ConfigCache τ) : Prop where
  unique : ∀ t u, q.Refreshes t → q.Refreshes u → t = u
  flag : ∀ t, q.Refreshes t → q.cond.shared.isRefreshing = true

omit [DecidableEq τ] in
/-- Whether a task refreshes depends on its stage. -/
theorem Refreshes.congr (h : q'.stage u = q.stage u) : q'.Refreshes u ↔ q.Refreshes u := by
  rw [Refreshes, Refreshes, h]

/-- A step of `t`, after which it refreshes behind the flag and alone, or not at all. -/
theorem Owned.step_of (h : Owned q) (hsh : q.Shift cls t s p q')
    (hnew : s.refreshing = true →
      q'.cond.shared.isRefreshing = true ∧ ∀ u, u ≠ t → ¬ q.Refreshes u)
    (hflag : q'.cond.shared.isRefreshing = q.cond.shared.isRefreshing ∨
      ∀ u, u ≠ t → ¬ q.Refreshes u) : Owned q' := by
  have hself : q'.Refreshes t → s.refreshing = true := fun ht => by
    rwa [Refreshes, hsh.at_self.1] at ht
  have hother : ∀ {u}, u ≠ t → q'.Refreshes u → q.Refreshes u := fun hu =>
    (Refreshes.congr (hsh.at_other hu).1).1
  refine ⟨fun u v hu hv => ?_, fun u hu => ?_⟩
  · by_cases hut : u = t <;> by_cases hvt : v = t
    · rw [hut, hvt]
    · exact absurd (hother hvt hv) ((hnew (hself (hut ▸ hu))).2 v hvt)
    · exact absurd (hother hut hu) ((hnew (hself (hvt ▸ hv))).2 u hut)
    · exact h.unique u v (hother hut hu) (hother hvt hv)
  · by_cases hut : u = t
    · exact (hnew (hself (hut ▸ hu))).1
    · rcases hflag with hflag | hnone
      · rw [hflag]
        exact h.flag u (hother hut hu)
      · exact absurd (hother hut hu) (hnone u hut)

omit [DecidableEq τ] in
/-- While `t` refreshes, nobody else does. -/
theorem Owned.alone (h : Owned q) (ht : q.Refreshes t) (hu : u ≠ t) : ¬ q.Refreshes u :=
  fun hur => hu (h.unique u t hur ht)

omit [DecidableEq τ] in
/-- While the flag is down, nobody refreshes. -/
theorem Owned.nobody (h : Owned q) (hflag : q.cond.shared.isRefreshing = false) (u : τ) :
    ¬ q.Refreshes u := fun hu => by
  rw [h.flag u hu] at hflag
  cases hflag

/-- In a block with `wait_for`, after it. -/
theorem Sound.flag_down (h : Sound cls q) (hs : q.stage t = .body b) (hw : b.waits = true) :
    q.cond.shared.isRefreshing = false := by
  have hf := h.fits t
  rw [hs] at hf
  exact (fits_out (by simp) hf).2.2 hw

/-- No step gives the flag to a second task. -/
theorem Does.owned (hd : Does cls q t q') (hs : Sound cls q) (h : Owned q) : Owned q' := by
  cases hd with
  | quiet hsh hq hr =>
      refine h.step_of hsh (fun hs' => ?_) (.inl (by rw [hq.shared]))
      have ht : q.Refreshes t := hr.symm.trans hs'
      exact ⟨hq.shared ▸ h.flag t ht, fun u hu => h.alone ht hu⟩
  | sleeps hst hsh _ hshared =>
      refine h.step_of hsh (fun hs' => ?_) (.inl (by rw [hshared]))
      have ht : q.Refreshes t := by rwa [Refreshes, hst]
      exact ⟨hshared ▸ h.flag t ht, fun u hu => h.alone ht hu⟩
  | abandons _ hsh hq => exact h.step_of hsh (by simp [Stage.refreshing]) (.inl (by rw [hq.shared]))
  | copies _ hsh hc | finds _ hsh hc =>
      exact h.step_of hsh (by simp [Stage.refreshing]) (.inl (by rw [hc]))
  | claims hst hsh _ hshared =>
      have hnone := h.nobody (hs.flag_down hst rfl)
      exact h.step_of hsh (fun _ => ⟨by rw [hshared], fun u _ => hnone u⟩)
        (.inr fun u _ => hnone u)
  | publishes hst hsh _ hshared | recovers hst hsh _ hshared =>
      have ht : q.Refreshes t := by
        rw [Refreshes, hst]
        rfl
      exact h.step_of hsh (by simp [Stage.refreshing]) (.inr fun u hu => h.alone ht hu)
  | @announces b _ hsh hw hshared =>
      refine h.step_of hsh ?_ (.inl (by rw [hshared]))
      cases b <;> simp_all [Stage.refreshing, Block.waits]

/-! ### What `get_config` returns -/

/-- The configuration has its version, and no answer was older than one before it. -/
structure Current (q : ConfigCache τ) : Prop where
  version : q.cond.shared.config = q.cond.shared.configVersion
  ordered : q.answers.Pairwise (· ≤ ·)
  past : ∀ v ∈ q.answers, v ≤ q.cond.shared.config

omit [DecidableEq τ] in
/-- A step that leaves configuration and answers. -/
theorem Current.same (h : Current q)
    (hc : q'.cond.shared.config = q.cond.shared.config ∧
      q'.cond.shared.configVersion = q.cond.shared.configVersion)
    (ha : q'.answers = q.answers) : Current q' where
  version := by rw [hc.1, hc.2, h.version]
  ordered := ha ▸ h.ordered
  past v hv := hc.1 ▸ h.past v (ha ▸ hv)

/-- Every answer is what the last refresh before it stored. -/
theorem Does.current (hd : Does cls q t q') (h : Current q) : Current q' := by
  cases hd with
  | quiet _ hq | abandons _ _ hq =>
      exact h.same (by rw [hq.shared]; exact ⟨rfl, rfl⟩) hq.answers
  | sleeps _ _ _ hsh ha | announces _ _ _ hsh ha =>
      exact h.same (by rw [hsh]; exact ⟨rfl, rfl⟩) ha
  | claims _ _ _ hsh _ ha | recovers _ _ _ hsh _ ha =>
      exact h.same (by rw [hsh]; exact ⟨rfl, rfl⟩) ha
  | finds _ _ hc ha => exact h.same (by rw [hc]; exact ⟨rfl, rfl⟩) ha
  | publishes _ _ _ hsh _ ha =>
      refine ⟨by rw [hsh], ha ▸ h.ordered, fun v hv => ?_⟩
      have hle := h.past v (ha ▸ hv)
      rw [h.version] at hle
      rw [hsh]
      exact hle.trans (Nat.le_succ _)
  | copies _ _ hc ha =>
      refine ⟨by rw [hc, h.version], ?_, fun v hv => ?_⟩
      · rw [ha, List.pairwise_append]
        refine ⟨h.ordered, List.pairwise_singleton .., fun v hv w hw => ?_⟩
        obtain rfl := List.mem_singleton.1 hw
        exact h.past v hv
      · rw [hc]
        rw [ha] at hv
        rcases List.mem_append.1 hv with hv | hv
        · exact h.past v hv
        · exact (List.mem_singleton.1 hv).le

/-- What every reachable state keeps. -/
theorem Reachable.kept (h : Reachable cls q) : Sound cls q ∧ Owned q ∧ Current q := by
  refine Transition.Reachable.invariant (I := fun q => Sound cls q ∧ Owned q ∧ Current q) ?_ ?_ h
  · rintro q rfl
    exact ⟨⟨.start rfl, fun t => ⟨⟨rfl, rfl⟩, rfl⟩⟩,
      ⟨by simp [Refreshes, Stage.refreshing], by simp [Refreshes, Stage.refreshing]⟩,
      ⟨rfl, .nil, by simp⟩⟩
  · rintro q e q' ⟨hs, ho, hc⟩ hst
    have hd := step_does hs.reach.keeping.1 hs.fits hst
    exact ⟨hs.step hst, hd.owned hs ho, hd.current hc⟩

/-- **One refresh at a time.**  However many tasks call the two methods, and wherever they
are cancelled: at most one task fetches or publishes a configuration, and only behind the
flag; whoever `wait_for` lets through to the configuration finds nobody refreshing; and the
answers of `get_config` never go back to an older version. -/
theorem one_refresh_at_a_time (h : Reachable cls q) :
    (∀ t u, q.Refreshes t → q.Refreshes u → t = u) ∧
      (∀ t, q.Refreshes t → q.cond.shared.isRefreshing = true) ∧
      (∀ t, q.stage t = .body .get → ∀ u, ¬ q.Refreshes u) ∧
      q.cond.shared.config = q.cond.shared.configVersion ∧
      q.answers.Pairwise (· ≤ ·) ∧ ∀ v ∈ q.answers, v ≤ q.cond.shared.config := by
  obtain ⟨hs, ho, hc⟩ := h.kept
  exact ⟨ho.unique, ho.flag, fun t ht => ho.nobody (hs.flag_down ht rfl), hc.version, hc.ordered,
    hc.past⟩

/-- A list of events that replays from the start is a run. -/
theorem reachable_of_replay {es : List (Event τ)}
    (h : Transition.replay (step cls) ({} : ConfigCache τ) es = some q) : Reachable cls q :=
  ⟨_, _, rfl, Transition.Run.of_replay (fun _ _ _ hst => hst) h⟩

/-- A task asks before a refresh, and again after one, while a second refresh is on. -/
theorem one_refresh_at_a_time_second : ∃ q : ConfigCache (Fin 2),
    (q.answers = [0, 1] ∧ q.Refreshes 0) ∧
    (∀ t u, q.Refreshes t → q.Refreshes u → t = u) ∧
      (∀ t, q.Refreshes t → q.cond.shared.isRefreshing = true) ∧
      (∀ t, q.stage t = .body .get → ∀ u, ¬ q.Refreshes u) ∧
      q.cond.shared.config = q.cond.shared.configVersion ∧
      q.answers.Pairwise (· ≤ ·) ∧ ∀ v ∈ q.answers, v ≤ q.cond.shared.config := by
  have hq := reachable_of_replay (show Transition.replay (step .read) ({} : ConfigCache (Fin 2))
    (.getConfig 1 :: .replicate 3 (.go 1) ++ .forceRefresh 0 :: .replicate 8 (.go 0) ++
      .getConfig 1 :: .replicate 3 (.go 1) ++ .forceRefresh 0 :: .replicate 3 (.go 0)) =
      some _ from rfl)
  refine ⟨_, ⟨?_, ?_⟩, one_refresh_at_a_time hq⟩
  · rfl
  · rfl

/-! ### Nobody is left behind -/

/-- Nobody sleeps in `wait_for` while the flag is down, unless an announcement is due. -/
def Watched (q : ConfigCache τ) : Prop :=
  q.cond.shared.isRefreshing = false → q.cond.queue.waiters ≠ [] →
    ∃ t b, q.stage t = .announcing b

/-- A step that leaves the flag alone, and leaves nobody asleep who was not. -/
theorem Watched.step_of (h : Watched q) (hsh : q.Shift cls t s p q')
    (hflag : q'.cond.shared.isRefreshing = q.cond.shared.isRefreshing)
    (hq : q'.cond.queue.waiters.Sublist q.cond.queue.waiters)
    (hdue : ∀ b, q.stage t ≠ .announcing b) : Watched q' := by
  intro hdown hne
  obtain ⟨u, b, hu⟩ := h (hflag ▸ hdown) fun hnil => hne (List.sublist_nil.1 (hnil ▸ hq))
  have hut : u ≠ t := by
    rintro rfl
    exact hdue b hu
  exact ⟨u, b, by rw [(hsh.at_other hut).1, hu]⟩

/-- After every step whoever sleeps does so behind the flag, or an announcement is due. -/
theorem Does.watched (hd : Does cls q t q') (h : Watched q) : Watched q' := by
  cases hd with
  | quiet hsh hq _ hdue => exact h.step_of hsh (by rw [hq.shared]) hq.waiters hdue
  | abandons hst hsh hq => exact h.step_of hsh (by rw [hq.shared]) hq.waiters (by simp [hst])
  | copies hst hsh hc | finds hst hsh hc =>
      exact h.step_of hsh (by rw [hc]) (by rw [hc]) (by simp [hst])
  | sleeps _ _ _ hshared _ hflag =>
      intro hdown
      rw [hshared, hflag] at hdown
      cases hdown
  | claims _ _ _ hshared =>
      intro hdown
      rw [hshared] at hdown
      cases hdown
  | publishes _ hsh | recovers _ hsh => exact fun _ _ => ⟨t, _, hsh.at_self.1⟩
  | announces _ _ _ _ _ hq => exact fun _ hne => absurd hq hne

/-- So it is in every reachable state. -/
theorem Reachable.watched (h : Reachable cls q) : Watched q := by
  refine (Transition.Reachable.invariant (I := fun q => Sound cls q ∧ Watched q) ?_ ?_ h).2
  · rintro q rfl
    exact ⟨⟨.start rfl, fun t => ⟨⟨rfl, rfl⟩, rfl⟩⟩, fun _ hne => absurd rfl hne⟩
  · rintro q e q' ⟨hs, hw⟩ hst
    exact ⟨hs.step hst, (step_does hs.reach.keeping.1 hs.fits hst).watched hw⟩

/-- A task sleeps in `wait_for`, and was not signalled. -/
def Dormant (q : ConfigCache τ) (t : τ) : Prop :=
  ∃ w, q.cond.phase t = .sleeping w false ∧ q.cond.queue.state w.call = .pending

/-- The flag is up and nobody will take it down; in an event loop that does not happen
(`never_abandoned`). -/
structure Abandoned (q : ConfigCache τ) : Prop where
  flag : q.cond.shared.isRefreshing = true
  nobody : ∀ t, ¬ q.Refreshes t

/-- A call the condition does not take. -/
theorem call_eq_none {a : CondAction τ Config} {k : CondOutcome → Stage}
    (h : q.call cls t a k = none) : q.cond.step .async cls notRefreshing a = none :=
  Option.map_eq_none_iff.1 h

/-- A step of `wait_for` is enabled, but for a task that sleeps and was not signalled. -/
theorem waitFor_eq_none (hk : Keeping .async cls q.cond)
    (hf : Fits q.cond t (.entering b) (q.cond.phase t)) (hpc : q.cond.sys.pc t = .idle)
    (hno : q.cond.step .async cls notRefreshing (q.waitFor t b.mode) = none) : q.Dormant t := by
  cases hph : q.cond.phase t with
  | out => simp [waitFor, CondSystem.step, CondSystem.free, hph, hpc] at hno
  | again m timed => simp [waitFor, CondSystem.step, hph] at hno
  | tested m timed =>
      rw [hph] at hf
      obtain ⟨hin, -, rfl, rfl, -⟩ := hf
      simp [waitFor, CondSystem.step, CondSystem.wait, CondSystem.leave, CondSystem.onLock,
        CondSystem.enqueue, CondSystem.goto, System.step, System.canCall, hph, hpc,
        hk.reach.checkWait_iff.2 hin.1] at hno
  | queued w =>
      rw [hph] at hf
      exact hf.elim
  | sleeping w i =>
      simp only [waitFor, CondSystem.step, hph] at hno
      split_ifs at hno with hpend
      exact ⟨w, by rw [hpend.2] at hph; exact hph, hpend.1⟩
  | woken w gotit err =>
      simp [waitFor, CondSystem.step, CondSystem.reacquire, CondSystem.onLock, System.step, hph,
        hpc] at hno
  | reacquiring w gotit err => simp [waitFor, CondSystem.step, hph, hpc] at hno

/-- **A task that cannot go on** is outside, sleeps in `wait()`, or sleeps in `acquire`. -/
theorem go_eq_none (hs : Sound cls q) (hgo : q.go cls t = none) :
    q.stage t = .outside ∨ q.Dormant t ∨ ∃ m, Asleep q.cond.sys.lock q.cond.sys.pc m t := by
  have hk := hs.reach.keeping.1
  have hf := hs.fits t
  unfold go at hgo
  cases hst : q.stage t with
  | outside => exact .inl rfl
  | fetching cancelled =>
      simp only [hst] at hgo
      rw [hst] at hf
      obtain ⟨hph, hout⟩ := fits_out (by simp) hf
      have hstep := call_eq_none hgo
      simp [CondSystem.step, CondSystem.onLock, System.step, Action.caller, hph, hout.2] at hstep
  | entering b =>
      rw [hst] at hf
      cases hpc : q.cond.sys.pc t with
      | waiting m seq timed i =>
          simp only [hst, hpc] at hgo
          have hstep := call_eq_none hgo
          have hsys : q.cond.sys.step .async cls (.resume t false) = none := by
            simp only [CondSystem.step, Action.caller, Option.map_some, Option.bind_some] at hstep
            rcases (fits_waiting hk hf (by simp [hpc])).2 with hph | ⟨w, gotit, err, hph, -⟩ <;>
              rw [hph] at hstep
            · exact Option.map_eq_none_iff.1 hstep
            · exact Option.map_eq_none_iff.1 hstep
          simp only [System.step, hpc] at hsys
          split_ifs at hsys with hp
          exact .inr (.inr ⟨m, hp.1, seq, timed, by rw [hpc, hp.2]⟩)
      | clearing => exact absurd hpc (hk.reach.not_clearing t)
      | idle =>
          simp only [hst, hpc] at hgo
          split_ifs at hgo
          exact .inr (.inl (waitFor_eq_none hk hf hpc (call_eq_none hgo)))
  | body b =>
      simp only [hst] at hgo
      rw [hst] at hf
      obtain ⟨hph, hin, -⟩ := fits_out (by simp) hf
      have hchange : ∀ x, q.cond.step .async cls notRefreshing (.change t x) ≠ none := by
        intro x
        simp [CondSystem.step, CondSystem.free, hph, hin.2]
      cases b with
      | get => cases hgo
      | claim | publish =>
          simp only [runBody] at hgo
          exact absurd (call_eq_none hgo) (hchange _)
      | recover =>
          simp only [runBody] at hgo
          split_ifs at hgo
          exact absurd (call_eq_none hgo) (hchange _)
  | announcing b | leaving b raised =>
      simp only [hst] at hgo
      rw [hst] at hf
      obtain ⟨hph, hin, -⟩ := fits_out (by simp) hf
      have hstep := call_eq_none hgo
      simp [CondSystem.step, CondSystem.free, CondSystem.canCall, CondSystem.onLock, System.step,
        System.canCall, Action.caller, hph, hin.2] at hstep

/-- A task that waits for the lock is entering a block. -/
theorem Sound.entering (h : Sound cls q) (hpc : q.cond.sys.pc t ≠ .idle) :
    ∃ b, q.stage t = .entering b := by
  have hf := h.fits t
  cases hst : q.stage t with
  | entering b => exact ⟨b, rfl⟩
  | outside | fetching =>
      rw [hst] at hf
      exact absurd (fits_out (by simp) hf).2.2 hpc
  | body | announcing | leaving =>
      rw [hst] at hf
      exact absurd (fits_out (by simp) hf).2.1.2 hpc

/-- Who holds the lock is in a block. -/
theorem Sound.no_hold (h : Sound cls q) (ht : q.stage t = .outside ∨ q.Dormant t ∨
    ∃ m, InFlight q.cond.sys.pc m t) : NoHold q.cond.sys.holds (some t) := by
  have hk := h.reach.keeping.1
  have hf := h.fits t
  rcases ht with ht | ⟨w, hph, -⟩ | ⟨m, hfl⟩
  · rw [ht] at hf
    exact (fits_out (by simp) hf).2.1
  · exact (hk.at_phase hph).1
  · have hpc : q.cond.sys.pc t ≠ .idle := fun hpc => not_inFlight_of_idle hpc m hfl
    obtain ⟨b, hst⟩ := h.entering hpc
    rw [hst] at hf
    rcases (fits_waiting hk hf hpc).1 with ⟨hno, -⟩ | ⟨-, hout⟩
    · exact hno
    · exact absurd hfl (hout m)

/-- Where no task can go on, nobody waits for the lock. -/
theorem Sound.lock_rests (h : Sound cls q) (hstuck : ∀ t, q.go cls t = none) :
    ∀ t, q.stage t = .outside ∨ q.Dormant t := by
  have hk := h.reach.keeping.1
  have hq : q.cond.sys.Quiescent := by
    rintro t m ⟨hfl, hno⟩
    have hidle : q.cond.sys.pc t ≠ .idle := fun hpc => not_inFlight_of_idle hpc m hfl
    rcases go_eq_none h (hstuck t) with hst | ⟨w, hph, -⟩ | ⟨m', hasl⟩
    · obtain ⟨b, hb⟩ := h.entering hidle
      cases hb.symm.trans hst
    · exact hidle (hk.at_phase hph).2
    · cases hasl.mode_eq hfl
      exact hno hasl
  have hfree : ∀ u, NoHold q.cond.sys.holds (some u) := fun u =>
    h.no_hold ((go_eq_none h (hstuck u)).imp_right
      (Or.imp_right fun ⟨m, hasl⟩ => ⟨m, hasl.inFlight⟩))
  intro t
  rcases go_eq_none h (hstuck t) with hout | hdorm | ⟨m, hasl⟩
  · exact .inl hout
  · exact .inr hdorm
  · rcases hq.held hk.reach.reachable hasl.inFlight with ⟨u, -, hw⟩ | ⟨u, -, hr⟩
    · have := (hfree u).2
      omega
    · have := (hfree u).1
      omega

/-- Whoever sleeps in `wait_for` does not refresh. -/
theorem Sound.not_refreshes (h : Sound cls q) (ht : q.stage t = .outside ∨ q.Dormant t) :
    ¬ q.Refreshes t ∧ ∀ b, q.stage t ≠ .announcing b := by
  rcases ht with ht | ⟨w, hph, -⟩
  · simp [Refreshes, ht, Stage.refreshing]
  · have hf := h.fits t
    rw [hph] at hf
    cases hst : q.stage t with
    | entering b =>
        rw [hst] at hf
        have hcall : Calls b w := hf
        simp [Refreshes, hst, Stage.refreshing, hcall.waits]
    | _ =>
        rw [hst] at hf
        exact hf.elim

/-- Who sleeps where no task can go on waits for a refresh that was abandoned. -/
theorem Reachable.abandoned_of_dormant (h : Reachable cls q)
    (hrest : ∀ t, q.stage t = .outside ∨ q.Dormant t) (ht : q.Dormant t) : Abandoned q := by
  obtain ⟨hs, -, -⟩ := h.kept
  obtain ⟨w, hph, hpend⟩ := ht
  refine ⟨?_, fun u => (hs.not_refreshes (hrest u)).1⟩
  by_contra hflag
  have hmem := hs.reach.keeping.2.1.parked t w (by rw [hph]; rfl) hpend
  obtain ⟨u, b, hu⟩ := h.watched (by simpa using hflag) (List.ne_nil_of_mem hmem)
  exact (hs.not_refreshes (hrest u)).2 b hu

/-- **The cache rests refreshed.**  Where no task can go on, every task is outside or sleeps
in `wait_for`; and if any sleeps, a refresh was abandoned. -/
theorem rests_refreshed (h : Reachable cls q) (hstuck : ∀ t, q.go cls t = none) :
    (∀ t, q.stage t = .outside ∨ q.Dormant t) ∧ ∀ t, q.Dormant t → Abandoned q := by
  have hrest := h.kept.1.lock_rests hstuck
  exact ⟨hrest, fun t ht => h.abandoned_of_dormant hrest ht⟩

/-- A refresh is cancelled while a task waits for it, takes the flag down, and the task gets
what there is. -/
theorem rests_refreshed_cancelled : ∃ q : ConfigCache (Fin 2),
    (q.answers = [0] ∧ q.cond.shared.isRefreshing = false) ∧
    (∀ t, q.stage t = .outside ∨ q.Dormant t) ∧ ∀ t, q.Dormant t → Abandoned q := by
  have hq := reachable_of_replay (show Transition.replay (step .read) ({} : ConfigCache (Fin 2))
    (.forceRefresh 0 :: .replicate 3 (.go 0) ++ .getConfig 1 :: .replicate 2 (.go 1) ++
      .cancel 0 :: .replicate 5 (.go 0) ++ .replicate 6 (.go 1)) = some _ from rfl)
  refine ⟨_, ⟨rfl, rfl⟩, rests_refreshed hq fun t => ?_⟩
  match t with
  | 0 => rfl
  | 1 => rfl

/-! ### In the event loop -/

end ConfigCache

/-- Where no call is in progress, a task that calls `acquire` only at rest leaves none. -/
theorem System.HolderReachable.idle_of_step {c c' : System τ} {a : Action τ} {o : Outcome}
    (h : HolderReachable .async cls c) (hidle : ∀ u, c.pc u = .idle)
    (hst : c.step .async cls a = some (o, c')) (ha : a.caller = some t)
    (hrest : ∀ m r x, a = .acquire t m r x → c.AtRest) (u : τ) : c'.pc u = .idle := by
  by_cases hut : u = t
  · subst hut
    cases step_effect h.books hst ha with
    | acquire =>
        have hin := (h.acquire_at_rest (hrest _ _ _ rfl) hst).2
        cases hpc : c'.pc u with
        | idle => rfl
        | waiting m => exact absurd ⟨_, _, _, hpc⟩ (hin m u)
        | clearing => exact absurd hpc ((h.step hst (by simp [ha]) trivial).not_clearing u)
    | resume => simp [System.step, hidle u] at hst
    | interrupt => simp [System.step, hidle u] at hst
    | clear hpc => cases (hidle u).symm.trans hpc
    | release _ hgb =>
        rw [hgb.pc]
        exact hidle u
    | downgrade _ _ hpc =>
        rw [hpc]
        exact hidle u
    | downgradeRaised => exact hidle u
  · rw [(step_untouched h.books hst (by simp [ha]) (by simpa [ha, eq_comm] using hut)).pc]
    exact hidle u

namespace ConfigCache

/-- `t` is outside the methods, or suspended at an `await`. -/
def suspended (q : ConfigCache τ) (t : τ) : Bool :=
  match q.stage t, q.cond.phase t with
  | .outside, _ | .fetching _, _ | .entering _, .sleeping _ _ => true
  | .entering _, _ => q.cond.sys.pc t ≠ .idle
  | .body _, _ | .announcing _, _ | .leaving _ _, _ => false

/-- A task runs while all others are suspended. -/
def InTurn (q : ConfigCache τ) (e : Event τ) : Prop := ∀ u, u ≠ e.task → q.suspended u

/-- The states that a cache can reach in an event loop, which lets a task run until it awaits
or returns. -/
def LoopReachable (cls : LockClass) : ConfigCache τ → Prop :=
  Transition.Reachable (Transition.restrict InTurn (Step cls)) fun q => q = {}

/-- No call of `acquire` waits, the flag has its task, and one task runs at a time. -/
structure Calm (q : ConfigCache τ) : Prop where
  idle : ∀ t, q.cond.sys.pc t = .idle
  owner : q.cond.shared.isRefreshing = true → ∃ t, q.Refreshes t
  turns : ∀ t u, ¬ q.suspended t → ¬ q.suspended u → t = u

/-- A suspended task holds nothing. -/
theorem Sound.suspended_free (h : Sound cls q) (hidle : q.cond.sys.pc t = .idle)
    (ht : q.suspended t) : NoHold q.cond.sys.holds (some t) := by
  have hf := h.fits t
  unfold suspended at ht
  split at ht
  · rw [‹q.stage t = _›] at hf
    exact (fits_out (by simp) hf).2.1
  · rw [‹q.stage t = _›] at hf
    exact (fits_out (by simp) hf).2.1
  · exact (show Keeps q.cond.sys t (.sleeping _ _) from h.reach.keeping.1.at_phase ‹_›).1
  · exact absurd hidle (of_decide_eq_true ht)
  all_goals cases ht

/-- **No `acquire` waits**: whoever calls it finds the lock at rest. -/
theorem Shift.idle (h : q.Shift cls t s p q') (hs : Sound cls q)
    (hturn : ∀ u, u ≠ t → q.suspended u) (hidle : ∀ u, q.cond.sys.pc u = .idle) (u : τ) :
    q'.cond.sys.pc u = .idle := by
  have hr := hs.reach.keeping.1.reach
  rcases h.sys with heq | ⟨a, o, ha, hst, hacquire⟩
  · rw [heq]
    exact hidle u
  · refine hr.idle_of_step hidle hst ha (fun m r x hacq => ?_) u
    have hfree : ∀ v, NoHold q.cond.sys.holds (some v) := fun v => by
      by_cases hvt : v = t
      · exact hvt ▸ hacquire m r x hacq
      · exact hs.suspended_free (hidle v) (hturn v hvt)
    exact ⟨fun m v => not_inFlight_of_idle (hidle v) m,
      Option.forall.2 ⟨⟨hr.ledger.reads none ▸ hr.books.noneReads, hr.ledger.noneWrites⟩, hfree⟩⟩

/-- The others stay suspended. -/
theorem Shift.others_suspended (h : q.Shift cls t s p q') (hs : Sound cls q) (hu : u ≠ t) :
    q'.suspended u = q.suspended u := by
  unfold ConfigCache.suspended
  rw [(h.at_other hu).1, (h.at_other hu).2, (h.others hs.reach.keeping.1.reach hu).pc]

/-- A step that leaves the flag alone, and does not stop `t` from refreshing. -/
theorem Shift.owner (h : q.Shift cls t s p q') (hc : Calm q)
    (hflag : q'.cond.shared.isRefreshing = q.cond.shared.isRefreshing)
    (hs : q.Refreshes t → s.refreshing = true) (hup : q'.cond.shared.isRefreshing = true) :
    ∃ u, q'.Refreshes u := by
  obtain ⟨u, hu⟩ := hc.owner (hflag ▸ hup)
  by_cases hut : u = t
  · exact ⟨t, by rw [Refreshes, h.at_self.1]; exact hs (hut ▸ hu)⟩
  · exact ⟨u, (Refreshes.congr (h.at_other hut).1).2 hu⟩

/-- The flag has its task after a step of `t`. -/
theorem Does.owner (hd : Does cls q t q') (hc : Calm q)
    (hup : q'.cond.shared.isRefreshing = true) : ∃ u, q'.Refreshes u := by
  have hother : ∀ {s : Stage}, q.stage t = s → s.refreshing = false →
      ∀ {s' : Stage}, q.Refreshes t → s'.refreshing = true := by
    intro s hst hs s' ht
    rw [Refreshes, hst, hs] at ht
    cases ht
  cases hd with
  | quiet hsh hq hr => exact hsh.owner hc (by rw [hq.shared]) (fun ht => hr.trans ht) hup
  | sleeps hst hsh _ hshared =>
      exact hsh.owner hc (by rw [hshared]) (fun ht => by rwa [Refreshes, hst] at ht) hup
  | abandons _ _ _ hpc =>
      obtain ⟨m, seq, timed, hpc⟩ := hpc
      cases (hc.idle t).symm.trans hpc
  | copies hst hsh hcond => exact hsh.owner hc (by rw [hcond]) (hother hst rfl) hup
  | claims _ hsh => exact ⟨t, by rw [Refreshes, hsh.at_self.1]; rfl⟩
  | publishes _ _ _ hshared | recovers _ _ _ hshared =>
      rw [hshared] at hup
      cases hup
  | finds _ _ hcond _ hflag =>
      rw [hcond, hflag] at hup
      cases hup
  | announces hst hsh _ hshared => exact hsh.owner hc (by rw [hshared]) (hother hst rfl) hup

/-- Every step moves one task. -/
theorem Does.shift (hd : Does cls q t q') : ∃ s p, q.Shift cls t s p q' := by
  cases hd with
  | quiet h | sleeps _ h | abandons _ h | copies _ h | claims _ h | publishes _ h | recovers _ h
  | finds _ h | announces _ h => exact ⟨_, _, h⟩

/-- A step of the running task, while the others are suspended, keeps `Calm`. -/
theorem Does.calm (hd : Does cls q t q') (hs : Sound cls q) (hc : Calm q)
    (hturn : ∀ u, u ≠ t → q.suspended u) : Calm q' := by
  obtain ⟨s, p, hsh⟩ := hd.shift
  have hrunning : ∀ u, ¬ q'.suspended u → u = t := fun u hu => by
    by_contra hut
    exact hu ((hsh.others_suspended hs hut).trans (hturn u hut))
  exact ⟨hsh.idle hs hturn hc.idle, hd.owner hc,
    fun u v hu hv => (hrunning u hu).trans (hrunning v hv).symm⟩

/-- The loop's runs are runs. -/
theorem LoopReachable.reachable (h : LoopReachable cls q) : Reachable cls q :=
  h.mono fun _ _ _ hst => hst.2

/-- On the event loop no task is abandoned. -/
theorem LoopReachable.calm (h : LoopReachable cls q) : Calm q := by
  refine (Transition.Reachable.invariant (I := fun q => Sound cls q ∧ Calm q) ?_ ?_ h).2
  · rintro q rfl
    exact ⟨⟨.start rfl, fun t => ⟨⟨rfl, rfl⟩, rfl⟩⟩, fun _ => rfl, by simp,
      fun t _ ht => absurd rfl ht⟩
  · rintro q e q' ⟨hs, hc⟩ ⟨hturn, hst⟩
    exact ⟨hs.step hst, (step_does hs.reach.keeping.1 hs.fits hst).calm hs hc hturn⟩

/-- **No refresh is abandoned.**  In an event loop one task runs at a time, nobody holds the
lock at an `await`, and so no `acquire` ever waits, the one of the `except` clause included.
However often tasks are cancelled and wherever, while the flag is up there is a task that
will take it down; and where no task can go on, the flag is down and nobody sleeps. -/
theorem never_abandoned (h : LoopReachable cls q) :
    (∀ t u, ¬ q.suspended t → ¬ q.suspended u → t = u) ∧
      (∀ t, q.suspended t → NoHold q.cond.sys.holds (some t)) ∧
      (∀ t, q.cond.sys.pc t = .idle) ∧
      (q.cond.shared.isRefreshing = true → ∃ t, q.Refreshes t) ∧
      ((∀ t, q.go cls t = none) →
        q.cond.shared.isRefreshing = false ∧ ∀ t, q.stage t = .outside) := by
  have hc := h.calm
  have hs := h.reachable.kept.1
  refine ⟨hc.turns, fun t => hs.suspended_free (hc.idle t), hc.idle, hc.owner, fun hstuck => ?_⟩
  have hrest := hs.lock_rests hstuck
  have hdown : q.cond.shared.isRefreshing = false := by
    by_contra hup
    obtain ⟨t, ht⟩ := hc.owner (by simpa using hup)
    exact (hs.not_refreshes (hrest t)).1 ht
  refine ⟨hdown, fun t => (hrest t).resolve_right fun ht => ?_⟩
  cases hdown.symm.trans (h.reachable.abandoned_of_dormant hrest ht).flag

/-- A step of the event loop. -/
def turn {n : ℕ} (cls : LockClass) (q : ConfigCache (Fin n)) (e : Event (Fin n)) :
    Option (ConfigCache (Fin n)) :=
  if ∀ u, u ≠ e.task → q.suspended u then q.step cls e else none

/-- A schedule that the loop can make. -/
theorem loopReachable_of_replay {n : ℕ} {es : List (Event (Fin n))} {q : ConfigCache (Fin n)}
    (h : Transition.replay (turn cls) {} es = some q) : LoopReachable cls q := by
  refine ⟨_, _, rfl, Transition.Run.of_replay (fun x e x' hst => ?_) h⟩
  unfold turn at hst
  split_ifs at hst with hturn
  exact ⟨hturn, hst⟩

/-- A refresh was cancelled while a task waits for it, and is about to take the flag down. -/
theorem never_abandoned_cancelled : ∃ q : ConfigCache (Fin 2),
    (q.Dormant 1 ∧ q.stage 0 = .body .recover) ∧
    (∀ t u, ¬ q.suspended t → ¬ q.suspended u → t = u) ∧
      (∀ t, q.suspended t → NoHold q.cond.sys.holds (some t)) ∧
      (∀ t, q.cond.sys.pc t = .idle) ∧
      (q.cond.shared.isRefreshing = true → ∃ t, q.Refreshes t) ∧
      ((∀ t, q.go .read t = none) →
        q.cond.shared.isRefreshing = false ∧ ∀ t, q.stage t = .outside) := by
  have hq := loopReachable_of_replay (show Transition.replay (turn .read)
    ({} : ConfigCache (Fin 2)) (.forceRefresh 0 :: .replicate 3 (.go 0) ++ .getConfig 1 ::
      .replicate 2 (.go 1) ++ .cancel 0 :: .replicate 2 (.go 0)) = some _ from rfl)
  exact ⟨_, ⟨⟨⟨0, .read, false, true⟩, rfl, rfl⟩, rfl⟩, never_abandoned hq⟩

end ConfigCache

end Rwlocker

/-
# How many pass a call that waits

Nobody waits in a lock forever as long as those who pass it are bounded in number.

A reader that waits in a read-preferring lock lets no writer take over, and in a reader-phase
fair lock one: the release of a writer gives it a place in the phase (`Drain`).  In a strict
fair lock the same holds of a reader that is asleep whenever a writer releases
(`waiting_reader_passed`).

A writer that waits in a strict fair lock is passed once by each writer ahead of it in the
line, and by the readers of the phases between them (`waiting_writer_passed`).  That takes
writers that neither barge nor give up.
-/

import Mathlib.Data.Set.Card
import Rwlocker.ReaderSignals
import Rwlocker.WriterOrder

namespace Rwlocker

variable {τ : Type} [DecidableEq τ]

instance (cls : LockClass) (s : RWLock τ) (seq : ℕ) : Decidable (Placed cls s seq) :=
  decidable_of_iff (cls.owner s = none ∧ s.readersTurn = true ∧
      (cls.policy = .fair → seq ≤ s.readerPhaseCutoff))
    ⟨fun ⟨ho, hturn, hcut⟩ => ⟨ho, hturn, hcut⟩, fun h => ⟨h.owner, h.turn, h.cutoff⟩⟩

namespace System

/-- The caller acquires a write lock that nobody owned. -/
def TakesOver (rt : Runtime) (cls : LockClass) (c : System τ) (a : Action τ) : Prop :=
  (c.step rt cls a).map Prod.fst = some (.acquired .write) ∧ cls.owner c.lock = none

instance (rt : Runtime) (cls : LockClass) (c : System τ) (a : Action τ) :
    Decidable (TakesOver rt cls c a) :=
  inferInstanceAs (Decidable (_ ∧ _))

/-- How often a list of actions takes the write lock over. -/
def takeovers (rt : Runtime) (cls : LockClass) : System τ → List (Action τ) → ℕ :=
  Transition.cost (fun c a => (c.step rt cls a).map Prod.snd)
    fun c a => if TakesOver rt cls c a then 1 else 0

/-- A step of a thread or task, after which `t` still waits under the same number. -/
def WaitsThrough (rt : Runtime) (cls : LockClass) (m : Mode) (t : τ) (seq : ℕ) (c : System τ)
    (a : Action τ) : Prop :=
  InTask c a ∧ ∀ r ∈ c.step rt cls a, Waits r.2 m t seq

instance (c : System τ) (m : Mode) (t : τ) (seq : ℕ) : Decidable (Waits c m t seq) :=
  inferInstanceAs (Decidable (∃ timed i, c.pc t = .waiting m seq timed i))

instance (rt : Runtime) (cls : LockClass) (m : Mode) (t : τ) (seq : ℕ) (c : System τ)
    (a : Action τ) : Decidable (WaitsThrough rt cls m t seq c a) :=
  inferInstanceAs (Decidable (_ ∧ _))

variable {rt : Runtime} {cls : LockClass} {c c' : System τ} {t u : τ} {a : Action τ}
  {o : Outcome} {seq n : ℕ}

/-! ### Readers that wait -/

/-- A step that reader `t` waits through; in a strict fair lock `t` is in the queue if it is
the last release. -/
def ReaderWaits (rt : Runtime) (cls : LockClass) (t : τ) (seq : ℕ) (c : System τ)
    (a : Action τ) : Prop :=
  WaitsThrough rt cls .read t seq c a ∧ (cls.policy = .fair →
    ∀ r ∈ c.step rt cls a, LastRelease cls c r.1 r.2 → t ∈ c.lock.queue .read)

instance (rt : Runtime) (cls : LockClass) (t : τ) (seq : ℕ) (c : System τ) (a : Action τ) :
    Decidable (ReaderWaits rt cls t seq c a) :=
  inferInstanceAs (Decidable (_ ∧ _))

/-- The writers that can still take over before waiter `seq` reads. -/
def writersAhead (cls : LockClass) (s : RWLock τ) (seq : ℕ) : ℕ :=
  if cls.policy = .read ∨ cls.owner s ≠ none ∨ Placed cls s seq then 0 else 1

/-- Somebody gives the write lock up, or turns it into a read lock. -/
theorem released_of_freed (hw : WellFormed cls c.lock c.pc)
    (hst : c.step rt cls a = some (o, c')) (ha : a.caller = some t)
    (howned : cls.owner c.lock ≠ none) (hfree : cls.owner c'.lock = none) :
    LastRelease cls c o c' ∨ o = .downgraded := by
  have hatt : ∀ {m}, ¬ Attempt rt cls c t c' m o := by
    intro m h
    cases h with
    | fails hs => exact howned (hs.owner.symm.trans hfree)
    | reads hs => exact howned (hs.owner.symm.trans hfree)
    | writes ho => cases ho.symm.trans hfree
  cases step_effect hw.books hst ha with
  | acquire _ h => exact absurd h hatt
  | resume _ h => exact absurd h hatt
  | interrupt _ _ hs => exact absurd (hs.owner.symm.trans hfree) howned
  | clear => exact absurd hfree howned
  | release ho =>
      rcases ho with rfl | ⟨e, rfl⟩
      · exact .inl ⟨rfl, howned, hfree⟩
      · -- a release that raises leaves the owner alone
        cases step_deed hw hst ha with
        | leaveRaises => exact absurd hfree howned
        | freeRaises =>
            exact absurd ((unmark_spec hw.books (some t)).2.1.symm.trans hfree) howned
  | downgrade => exact .inr rfl
  | downgradeRaised => exact absurd hfree howned

/-- A downgrade begins a phase for all who wait. -/
theorem placed_of_downgrade {s : RWLock τ}
    (hp : cls.policy = .readerPhaseFair ∨ cls.policy = .fair) (ho : cls.owner s = none)
    (hpos : 0 < s.read.thoseWaiting) (hle : seq ≤ s.read.waiterSeq) :
    Placed cls (cls.onDowngrade s) seq := by
  refine ⟨((cls.signals_onDowngrade s).owner cls).trans ho, ?_, fun hf => ?_⟩
  · unfold LockClass.onDowngrade
    rcases hp with hp | hp <;> simp only [hp]
    · exact RWLockReaderPhaseFairMixin.readersTurn_startReaderPhase s
    · exact (RWLockFairMixin.readersTurn_startReaderPhase s).trans (decide_eq_true hpos)
  · unfold LockClass.onDowngrade
    simp only [hf]
    exact hle.trans_eq (RWLockFairMixin.readerPhaseCutoff_startReaderPhase s).symm

/-- **Whoever waits when the write lock is given up has a place** in the phase after it. -/
theorem placed_of_freed (hp : cls.policy = .readerPhaseFair ∨ cls.policy = .fair)
    (h : Reachable rt cls c) (hst : c.step rt cls a = some (o, c')) (ha : a.caller = some u)
    (ht : Waits c .read t seq) (howned : cls.owner c.lock ≠ none)
    (hfree : cls.owner c'.lock = none)
    (hqueue : cls.policy = .fair → LastRelease cls c o c' → t ∈ c.lock.queue .read) :
    Placed cls c'.lock seq := by
  have hw := h.wellFormed
  obtain ⟨timed, i, hpc⟩ := ht
  have hfl : InFlight c.pc .read t := ⟨_, _, _, hpc⟩
  have hle := hw.seq_le .read t seq timed i hpc
  have hpos := hw.thoseWaiting_pos hfl
  rcases released_of_freed hw hst ha howned hfree with hlast | rfl
  · obtain ⟨hproxy, hturn, -⟩ := unmark_freeWriter_fields c.lock (some u)
    rw [lock_lastRelease hw hst ha hlast]
    by_cases hmem : t ∈ c.lock.queue .read
    · refine placed_of_queued hp (by simp) (by rwa [RWLock.read, hproxy]) ?_
        (by rwa [RWLock.read, hproxy])
      rw [RWLock.queue, hproxy]
      exact List.ne_nil_of_mem hmem
    · -- a signalled reader keeps the turn on in a reader-phase fair lock
      have hpol := hp.resolve_right fun hf => hmem (hqueue hf hlast)
      refine placed_of_turn (by simp) ?_ (fun hf => ?_) (by rwa [RWLock.read, hproxy])
      · rw [hturn]
        exact (h.called hpol t (h.parked .read t hfl)).resolve_left hmem
      · rw [hpol] at hf
        cases hf
  · cases step_deed hw hst ha with
    | waits _ _ _ _ hloop | goesOn _ _ _ hloop => cases hloop
    | downgrades =>
        have hplaced : Placed cls (cls.onDowngrade (c.lock.freeWriter.enterReader (some u))) seq :=
          placed_of_downgrade hp (by simp) hpos hle
        exact hplaced.congr rfl rfl rfl

/-- **A step that a reader waits through** pays for a takeover. -/
theorem readerWaits_pays (hp : cls.policy ≠ .write) (h : Reachable rt cls c)
    (ht : Waits c .read t seq) (hwait : ReaderWaits rt cls t seq c a)
    (hst : c.step rt cls a = some (o, c')) :
    (if TakesOver rt cls c a then 1 else 0) + writersAhead cls c'.lock seq ≤
      writersAhead cls c.lock seq := by
  obtain ⟨⟨hin, hthrough⟩, hqueue⟩ := hwait
  have hw := h.wellFormed
  have ht' : Waits c' .read t seq := hthrough (o, c') hst
  obtain ⟨u, hu⟩ := Option.ne_none_iff_exists'.1 (show a.caller ≠ none from hin)
  -- whoever takes over is admitted while the reader waits
  have htakes : TakesOver rt cls c a → cls.owner c'.lock ≠ none ∧ cls.AdmitsWriter c.lock := by
    rintro ⟨ho, hfree⟩
    obtain rfl : o = .acquired .write := by simpa [hst] using ho
    exact ⟨step_acquired_write hw.books hin hst, admitsWriter_of_acquired hw hst hu hfree⟩
  by_cases hread : cls.policy = .read
  · have hno : ¬ TakesOver rt cls c a := fun htake => by
      obtain ⟨-, -, hadm⟩ := (htakes htake).2
      simp only [hread] at hadm
      have : 0 < c.lock.read.thoseWaiting := hw.thoseWaiting_pos ht.inFlight
      omega
    simp [writersAhead, hread, hno]
  · have hpol : cls.policy = .readerPhaseFair ∨ cls.policy = .fair := by
      cases hcls : cls.policy with
      | write => exact absurd hcls hp
      | read => exact absurd hcls hread
      | readerPhaseFair => exact .inl rfl
      | fair => exact .inr rfl
    by_cases hserved : cls.owner c.lock ≠ none ∨ Placed cls c.lock seq
    · -- nobody can take over, and it stays that way
      have hno : ¬ TakesOver rt cls c a := fun htake => by
        rcases hserved with howned | hplaced
        · exact howned htake.2
        · obtain ⟨timed, i, hpc⟩ := ht
          exact (hplaced.serving hw (fun hf => h.slots hf) hpc).not_admitsWriter hpol
            (htakes htake).2
      have hserved' : cls.owner c'.lock ≠ none ∨ Placed cls c'.lock seq := by
        rcases hserved with howned | hplaced
        · by_cases hfree : cls.owner c'.lock = none
          · exact .inr (placed_of_freed hpol h hst hu ht howned hfree fun hf =>
              hqueue hf (o, c') hst)
          · exact .inl hfree
        · obtain ⟨timed, i, hpc⟩ := ht
          have hfollows : Follows cls t seq c :=
            ⟨fun hf => h.slots hf, hw.seq_le .read t seq timed i hpc, fun _ => hplaced⟩
          exact .inr ((hfollows.step hpol hw hst hin).placed ht')
      simp only [writersAhead, hread, false_or, if_pos hserved', if_neg hno]
      exact Nat.zero_le _
    · have hahead : writersAhead cls c.lock seq = 1 := if_neg (not_or.2 ⟨hread, hserved⟩)
      rw [hahead]
      by_cases htake : TakesOver rt cls c a
      · have hahead' : writersAhead cls c'.lock seq = 0 := if_pos (.inr (.inl (htakes htake).1))
        rw [if_pos htake, hahead']
      · have hahead' : writersAhead cls c'.lock seq ≤ 1 := by
          unfold writersAhead
          split_ifs <;> omega
        rw [if_neg htake]
        omega

/-- **A waiting reader is passed by one writer, at most.**  Along a run through which a
reader waits, nobody takes a read-preferring lock over, and a fair one is taken over at most
once, and not at all if a writer owns it or the phase that is on includes the reader; in a
strict fair lock, as long as the reader is in the queue whenever a writer releases. -/
theorem waiting_reader_passed {as : List (Action τ)} (hp : cls.policy ≠ .write)
    (h : Reachable rt cls c) (ht : Waits c .read t seq)
    (hrun : Transition.Run (Transition.restrict (ReaderWaits rt cls t seq) (Step rt cls)) c as c') :
    takeovers rt cls c as ≤ writersAhead cls c.lock seq := by
  have hcost : takeovers rt cls c as + writersAhead cls c'.lock seq ≤
      writersAhead cls c.lock seq := by
    refine hrun.cost_le (I := fun c => Reachable rt cls c ∧ Waits c .read t seq)
      (Φ := fun c => writersAhead cls c.lock seq) ?_ ?_ ⟨h, ht⟩
    · rintro c a c' ⟨-, o, hst⟩
      simp [hst]
    · rintro c a c' ⟨h, ht⟩ ⟨hwait, o, hst⟩
      exact ⟨⟨h.step hst hwait.1.1, hwait.1.2 (o, c') hst⟩, readerWaits_pays hp h ht hwait hst⟩
  omega

/-- A reader waits behind a reader and a writer: the writer passes it, and a second one does
not. -/
theorem waiting_reader_passed_once : ∃ c : System ℕ,
    takeovers .thread .fair c [.release (some 0) .read, .resume 1 false, .clear 1,
      .acquire 3 .write .forever false, .release (some 1) .write] = 1 ∧
    takeovers .thread .fair c [.release (some 0) .read, .resume 1 false, .clear 1,
      .acquire 3 .write .forever false, .release (some 1) .write] ≤
        writersAhead .fair c.lock 1 := by
  have hrun : ((Transition.replay (next InTask .thread .fair) ({} : System ℕ)
      [.acquire 0 .read .forever false, .acquire 1 .write .forever false,
        .acquire 2 .read .forever false]).bind fun c =>
        (Transition.replay (next (ReaderWaits .thread .fair 2 1) .thread .fair) c
          [.release (some 0) .read, .resume 1 false, .clear 1, .acquire 3 .write .forever false,
            .release (some 1) .write]).map fun _ => (c.pc 2, takeovers .thread .fair c
              [.release (some 0) .read, .resume 1 false, .clear 1,
                .acquire 3 .write .forever false, .release (some 1) .write])) =
      some (.waiting .read 1 false false, 1) := by
    decide
  obtain ⟨c, hc, hrun⟩ := Option.bind_eq_some_iff.1 hrun
  obtain ⟨d, hd, hval⟩ := Option.map_eq_some_iff.1 hrun
  simp only [Prod.mk.injEq] at hval
  exact ⟨c, hval.2, waiting_reader_passed (by decide) ⟨_, _, rfl, run_of_replay hc⟩
    ⟨_, _, hval.1⟩ (run_of_replay hd)⟩

/-! ### Writers that wait -/

/-- A step that neither barges nor makes a writer give up, and that writer `u` waits
through. -/
def WriterQueues (rt : Runtime) (u : τ) (n : ℕ) (c : System τ) (a : Action τ) : Prop :=
  (Patient rt c a ∧ ¬ Barges c a) ∧ WaitsThrough rt .fair .write u n c a

instance (rt : Runtime) (u : τ) (n : ℕ) (c : System τ) (a : Action τ) :
    Decidable (WriterQueues rt u n c a) :=
  inferInstanceAs (Decidable (_ ∧ _))

/-- How often a list of actions makes `v` take the write lock over. -/
def takeoversOf (rt : Runtime) (cls : LockClass) (v : τ) : System τ → List (Action τ) → ℕ :=
  Transition.cost (fun c a => (c.step rt cls a).map Prod.snd)
    fun c a => if TakesOver rt cls c a ∧ a.caller = some v then 1 else 0

/-- The turn of a writer ends: the write lock was owned, and is not any more. -/
def EndsTurn (rt : Runtime) (cls : LockClass) (c : System τ) (a : Action τ) : Prop :=
  cls.owner c.lock ≠ none ∧ ∃ r ∈ c.step rt cls a, cls.owner r.2.lock = none

instance (rt : Runtime) (cls : LockClass) (c : System τ) (a : Action τ) :
    Decidable (EndsTurn rt cls c a) :=
  inferInstanceAs (Decidable (_ ∧ _))

/-- How many turns of writers end along a list of actions. -/
def turns (rt : Runtime) (cls : LockClass) : System τ → List (Action τ) → ℕ :=
  Transition.cost (fun c a => (c.step rt cls a).map Prod.snd)
    fun c a => if EndsTurn rt cls c a then 1 else 0

/-- The writers that wait under a number less than `n`. -/
def ahead (c : System τ) (n : ℕ) : Set τ := {v | ∃ m, Waits c .write v m ∧ m < n}

/-- Finitely many writers are ahead. -/
theorem finite_ahead (hw : WellFormed cls c.lock c.pc) (n : ℕ) : (ahead c n).Finite := by
  obtain ⟨F, hF, -⟩ := hw.flight .write
  refine F.finite_toSet.subset ?_
  rintro v ⟨m, hv, -⟩
  exact (hF v).2 hv.inFlight

/-- Whoever has acquired does not wait. -/
theorem not_waits_of_acquired {m m' : Mode} (hw : WellFormed cls c.lock c.pc)
    (hst : c.step rt cls a = some (.acquired m, c')) (ha : a.caller = some t) (seq : ℕ) :
    ¬ Waits c' m' t seq := by
  intro ht
  cases step_deed hw hst ha with
  | enters => exact not_inFlight_succeed _ _ _ _ _ _ ht.inFlight
  | waits _ _ _ _ hloop | goesOn _ _ _ hloop =>
      cases hloop with
      | enters => exact not_inFlight_succeed _ _ _ _ _ _ ht.inFlight

omit [DecidableEq τ] in
/-- A writer is not ahead of itself. -/
theorem ahead_lt_card [Fintype τ] (hu : Waits c .write u n) :
    (ahead c n).ncard < Fintype.card τ := by
  have hout : u ∉ ahead c n := by
    rintro ⟨m, ⟨_, _, hm⟩, hmn⟩
    obtain ⟨_, _, hn⟩ := hu
    rw [hm] at hn
    cases hn
    omega
  have hsub : ahead c n ⊂ Set.univ := by
    refine Set.ssubset_univ_iff.2 fun hall => hout ?_
    rw [hall]
    exact Set.mem_univ u
  have hlt := Set.ncard_lt_ncard hsub Set.finite_univ
  rwa [Set.ncard_univ, Nat.card_eq_fintype_card] at hlt

/-- Nobody gets ahead of a writer that waits. -/
theorem ahead_subset (h : Reachable rt .fair c) (hin : a.caller ≠ none)
    (hst : c.step rt .fair a = some (o, c')) (hu : Waits c .write u n) :
    ahead c' n ⊆ ahead c n := by
  rintro v ⟨m, hv, hmn⟩
  obtain ⟨timed, i, hpc⟩ := hu
  have hle := h.wellFormed.seq_le .write u n timed i hpc
  rcases step_waits h.wellFormed hst hin hv with hv | ⟨-, -, -, rfl⟩
  · exact ⟨m, hv, hmn⟩
  · omega

/-- **Whoever takes over leaves the line** ahead of a writer that waits through it. -/
theorem WriterQueues.taker_ahead (hq : WriterQueues rt u n c a) (h : Reachable rt .fair c)
    (hline : InLine c) (hu : Waits c .write u n) (hst : c.step rt .fair a = some (o, c'))
    (htake : TakesOver rt .fair c a) (ht : a.caller = some t) :
    t ∈ ahead c n ∧ t ∉ ahead c' n := by
  obtain ⟨⟨⟨hin, -⟩, hbarge⟩, -, hthrough⟩ := hq
  have hw := h.wellFormed
  obtain rfl : o = .acquired .write := by simpa [hst] using htake.1
  have hut : u ≠ t := by
    rintro rfl
    exact not_waits_of_acquired hw hst ht n (hthrough _ hst)
  obtain ⟨m, hm, hmn⟩ := hline.first_acquires hw hst ht hbarge hut hu
  refine ⟨⟨m, hm, hmn⟩, ?_⟩
  rintro ⟨m', hm', -⟩
  exact not_waits_of_acquired hw hst ht m' hm'

/-- **A takeover shortens the line** ahead of a writer that waits through it. -/
theorem writerQueues_pays (h : Reachable rt .fair c) (hline : InLine c)
    (hu : Waits c .write u n) (hq : WriterQueues rt u n c a)
    (hst : c.step rt .fair a = some (o, c')) :
    (if TakesOver rt .fair c a then 1 else 0) + (ahead c' n).ncard ≤ (ahead c n).ncard := by
  have hin := hq.1.1.1
  have hfin := finite_ahead h.wellFormed n
  have hsub := ahead_subset h hin hst hu
  split_ifs with htake
  · obtain ⟨t, ht⟩ := Option.ne_none_iff_exists'.1 hin
    obtain ⟨hmem, hnot⟩ := hq.taker_ahead h hline hu hst htake ht
    have := Set.ncard_lt_ncard ((Set.ssubset_iff_of_subset hsub).2 ⟨t, hmem, hnot⟩) hfin
    omega
  · have := Set.ncard_le_ncard hsub hfin
    omega

/-- A writer that takes over pays with its own place in the line. -/
theorem writerQueues_pays_own (h : Reachable rt .fair c) (hline : InLine c)
    (hu : Waits c .write u n) (hq : WriterQueues rt u n c a)
    (hst : c.step rt .fair a = some (o, c')) (v : τ) :
    (if TakesOver rt .fair c a ∧ a.caller = some v then 1 else 0) +
      (ahead c' n ∩ {v}).ncard ≤ (ahead c n ∩ {v}).ncard := by
  have hsub := ahead_subset h hq.1.1.1 hst hu
  split_ifs with htake
  · obtain ⟨hmem, hnot⟩ := hq.taker_ahead h hline hu hst htake.1 htake.2
    rw [Set.inter_singleton_eq_empty.2 hnot, Set.inter_eq_right.2 (by simpa using hmem)]
    simp
  · have := Set.ncard_le_ncard (Set.inter_subset_inter_left {v} hsub)
      ((Set.finite_singleton v).subset Set.inter_subset_right)
    omega

/-- A writer owns the lock. -/
def owned (s : RWLock τ) : ℕ := if LockClass.fair.owner s = none then 0 else 1

/-- A phase has a slot for everybody, at most. -/
theorem Reachable.pending_le_card [Fintype τ] (h : Reachable rt .fair c) :
    c.lock.readerPhasePending.toNat ≤ Fintype.card τ := by
  have hslots := h.slots rfl
  cases hturn : c.lock.readersTurn with
  | false => simp [hslots.off hturn]
  | true =>
      obtain ⟨F, -, hcard⟩ := hslots.on hturn
      have := F.card_le_univ
      omega

/-- Where no writer gives up, the write lock is handed over by its owner. -/
theorem freed_of_handsOver (hw : WellFormed .fair c.lock c.pc)
    (hst : c.step rt .fair a = some (o, c')) (ha : a.caller = some t)
    (hpat : ¬ WriterGivesUp c a o) (hover : HandsOver .fair c a o c') :
    (o = .released ∨ o = .downgraded) ∧ LockClass.fair.owner c.lock ≠ none ∧
      LockClass.fair.owner c'.lock = none := by
  rcases hover with ⟨ho, howned, hfree⟩ | rfl | hgone
  · exact ⟨.inl ho, howned, hfree⟩
  · refine ⟨.inr rfl, ?_⟩
    cases step_deed hw hst ha with
    | waits _ _ _ _ hloop | goesOn _ _ _ hloop => cases hloop
    | downgrades _ ho =>
        refine ⟨by simp [ho], ?_⟩
        exact ((LockClass.fair.signals_onDowngrade _).owner .fair).trans (by simp)
  · refine absurd ?_ hpat
    cases a with
    | interrupt => exact hgone.2.elim
    | acquire | resume | clear | release | downgrade => exact hgone

/-- A lock that nobody owns and nobody takes over is owned by nobody. -/
theorem owned_le (hw : WellFormed .fair c.lock c.pc) (hst : c.step rt .fair a = some (o, c'))
    (ha : a.caller = some t) (hno : ¬ TakesOver rt .fair c a) : owned c'.lock ≤ owned c.lock := by
  unfold owned
  by_cases hfree : LockClass.fair.owner c.lock = none
  · have hfree' : LockClass.fair.owner c'.lock = none := by
      by_contra howned
      have ho := acquired_of_owned hw.books hst ha hfree howned
      exact hno ⟨by simp [hst, ho], hfree⟩
    rw [if_pos hfree']
    exact Nat.zero_le _
  · rw [if_neg hfree]
    split_ifs <;> omega

/-- **The end of a turn** is paid for by the writer whose turn it was, and a turn that begins
by a writer ahead. -/
theorem writerQueues_turns (h : Reachable rt .fair c) (hline : InLine c)
    (hu : Waits c .write u n) (hq : WriterQueues rt u n c a)
    (hst : c.step rt .fair a = some (o, c')) :
    (if EndsTurn rt .fair c a then 1 else 0) + ((ahead c' n).ncard + owned c'.lock) ≤
      (ahead c n).ncard + owned c.lock := by
  have hpays := writerQueues_pays h hline hu hq hst
  obtain ⟨t, ht⟩ := Option.ne_none_iff_exists'.1 hq.1.1.1
  split_ifs with hends
  · obtain ⟨howned, r, hr, hfree⟩ := hends
    rw [Option.mem_def, hst] at hr
    cases hr
    have hone : owned c.lock = 1 := if_neg howned
    have hzero : owned c'.lock = 0 := if_pos hfree
    omega
  · by_cases htake : TakesOver rt .fair c a
    · have hone : owned c'.lock ≤ 1 := by
        unfold owned
        split_ifs <;> omega
      rw [if_pos htake] at hpays
      omega
    · have := owned_le h.wellFormed hst ht htake
      omega

/-- **A newcomer that reads** pays with a slot; the end of a turn brings in slots for
everybody at most. -/
theorem writerQueues_reads [Fintype τ] (h : Reachable rt .fair c)
    (hu : Waits c .write u n) (hq : WriterQueues rt u n c a)
    (hst : c.step rt .fair a = some (o, c')) :
    (if LetsIn rt .fair c a then 1 else 0) + c'.lock.readerPhasePending.toNat ≤
      c.lock.readerPhasePending.toNat +
        Fintype.card τ * (if EndsTurn rt .fair c a then 1 else 0) := by
  obtain ⟨⟨⟨hin, hpat⟩, -⟩, -⟩ := hq
  have hw := h.wellFormed
  obtain ⟨t, ht⟩ := Option.ne_none_iff_exists'.1 (show a.caller ≠ none from hin)
  by_cases hover : HandsOver .fair c a o c'
  · -- the turn of a writer ends, and a phase may begin
    obtain ⟨ho, howned, hfree⟩ := freed_of_handsOver hw hst ht (hpat (o, c') hst) hover
    have hno : ¬ LetsIn rt .fair c a := fun hin => by
      have hread := hin.1
      rcases ho with rfl | rfl <;> simp [hst] at hread
    have hends : EndsTurn rt .fair c a := ⟨howned, (o, c'), hst, hfree⟩
    have hslots := (h.step hst hin).pending_le_card
    rw [if_neg hno, if_pos hends, Nat.mul_one]
    omega
  · have hseg : Segment rt .fair c a := by
      refine ⟨⟨hin, ?_⟩, hw.thoseWaiting_pos hu.inFlight⟩
      rintro r hr
      rw [Option.mem_def, hst] at hr
      cases hr
      exact hover
    exact (segment_pays rfl h hseg hst).trans (Nat.le_add_right ..)

/-- What a run that a writer waits through costs, when each of its steps pays. -/
theorem writerQueues_cost (h : Reachable rt .fair c) (hline : InLine c)
    (hu : Waits c .write u n) {as : List (Action τ)}
    (hrun : Transition.Run (Transition.restrict (WriterQueues rt u n) (Step rt .fair)) c as c')
    (Φ : System τ → ℕ) (price gain : System τ → Action τ → ℕ)
    (hpay : ∀ c a o c', Reachable rt .fair c → InLine c → Waits c .write u n →
      WriterQueues rt u n c a → c.step rt .fair a = some (o, c') →
        price c a + Φ c' ≤ Φ c + gain c a) :
    Transition.cost (fun c a => (c.step rt .fair a).map Prod.snd) price c as ≤
      Φ c + Transition.cost (fun c a => (c.step rt .fair a).map Prod.snd) gain c as := by
  refine le_trans (Nat.le_add_right _ (Φ c')) (hrun.cost_le_add
    (I := fun c => Reachable rt .fair c ∧ InLine c ∧ Waits c .write u n) ?_ ?_ ⟨h, hline, hu⟩)
  · rintro c a c' ⟨-, o, hst⟩
    simp [hst]
  · rintro c a c' ⟨h, hline, hu⟩ ⟨hq, o, hst⟩
    obtain ⟨⟨⟨hin, hpat⟩, hbarge⟩, -, hthrough⟩ := id hq
    obtain ⟨t, ht⟩ := Option.ne_none_iff_exists'.1 (show a.caller ≠ none from hin)
    exact ⟨⟨h.step hst hin,
      hline.step h.wellFormed h.turnServed hst ht (hpat (o, c') hst) hbarge,
      hthrough (o, c') hst⟩, hpay c a o c' h hline hu hq hst⟩

/-- **A waiting writer of a strict fair lock is passed by the line ahead of it.**  In a run in
which no writer barges or gives up, as long as a writer waits the lock is taken over at most
once by each writer ahead of it, and by nobody else; newcomers read at most as often as the
phase that is on has slots and as there are threads for every turn of a writer that ends; and
no more turns end than there are writers ahead, and the owner. -/
theorem waiting_writer_passed [Fintype τ] {as₀ as : List (Action τ)}
    (hrun₀ : Transition.Run (Transition.restrict (fun c a => Patient rt c a ∧ ¬ Barges c a)
      (Step rt .fair)) {} as₀ c) (hu : Waits c .write u n)
    (hrun : Transition.Run (Transition.restrict (WriterQueues rt u n) (Step rt .fair)) c as c') :
    (ahead c n).ncard < Fintype.card τ ∧ takeovers rt .fair c as ≤ (ahead c n).ncard ∧
      (∀ v, takeoversOf rt .fair v c as ≤ 1 ∧
        (v ∉ ahead c n → takeoversOf rt .fair v c as = 0)) ∧
      newReads rt .fair c as ≤ c.lock.readerPhasePending.toNat +
        Fintype.card τ * turns rt .fair c as ∧
      turns rt .fair c as ≤ (ahead c n).ncard + owned c.lock := by
  obtain ⟨h, hline⟩ := inLine_run hrun₀
  have htakes := writerQueues_cost h hline hu hrun (fun c => (ahead c n).ncard)
    (fun c a => if TakesOver rt .fair c a then 1 else 0) (fun _ _ => 0)
    fun _ _ _ _ h hline hu hq hst => writerQueues_pays h hline hu hq hst
  have hown := fun v => writerQueues_cost h hline hu hrun (fun c => (ahead c n ∩ {v}).ncard)
    (fun c a => if TakesOver rt .fair c a ∧ a.caller = some v then 1 else 0) (fun _ _ => 0)
    fun _ _ _ _ h hline hu hq hst => writerQueues_pays_own h hline hu hq hst v
  have hturns := writerQueues_cost h hline hu hrun (fun c => (ahead c n).ncard + owned c.lock)
    (fun c a => if EndsTurn rt .fair c a then 1 else 0) (fun _ _ => 0)
    fun _ _ _ _ h hline hu hq hst => writerQueues_turns h hline hu hq hst
  have hreads := writerQueues_cost h hline hu hrun (fun c => c.lock.readerPhasePending.toNat)
    (fun c a => if LetsIn rt .fair c a then 1 else 0)
    (fun c a => Fintype.card τ * if EndsTurn rt .fair c a then 1 else 0)
    fun _ _ _ _ h _ hu hq hst => writerQueues_reads h hu hq hst
  rw [Transition.cost_zero, Nat.add_zero] at htakes hturns
  rw [Transition.cost_mul] at hreads
  refine ⟨ahead_lt_card hu, htakes, fun v => ?_, hreads, hturns⟩
  have hle := hown v
  rw [Transition.cost_zero, Nat.add_zero] at hle
  refine ⟨hle.trans ?_, fun hv => ?_⟩
  · exact (Set.ncard_le_ncard Set.inter_subset_right).trans_eq (Set.ncard_singleton v)
  · rw [Set.inter_singleton_eq_empty.2 hv, Set.ncard_empty] at hle
    exact Nat.le_zero.1 hle

/-- Two writers and a reader wait for a reader; the second writer is passed by the first, and
by the reader of the phase that follows. -/
theorem waiting_writer_passed_second : ∃ (c : System (Fin 4)) (as : List (Action (Fin 4))),
    (takeovers .thread .fair c as = 1 ∧ newReads .thread .fair c as = 1 ∧
      turns .thread .fair c as = 1) ∧
    (ahead c 2).ncard < Fintype.card (Fin 4) ∧ takeovers .thread .fair c as ≤ (ahead c 2).ncard ∧
      (∀ v, takeoversOf .thread .fair v c as ≤ 1 ∧
        (v ∉ ahead c 2 → takeoversOf .thread .fair v c as = 0)) ∧
      newReads .thread .fair c as ≤ c.lock.readerPhasePending.toNat +
        Fintype.card (Fin 4) * turns .thread .fair c as ∧
      turns .thread .fair c as ≤ (ahead c 2).ncard + owned c.lock := by
  have hrun : ((Transition.replay (next (fun c a => Patient .thread c a ∧ ¬ Barges c a)
      .thread .fair) ({} : System (Fin 4))
      [.acquire 0 .read .forever false, .acquire 1 .write .forever false,
        .acquire 2 .write .forever false, .acquire 3 .read .forever false]).bind fun c =>
        (Transition.replay (next (WriterQueues .thread 2 2) .thread .fair) c
          [.release (some 0) .read, .resume 1 false, .clear 1, .release (some 1) .write,
            .resume 3 false]).map fun _ => (c.pc 2,
              takeovers .thread .fair c [.release (some 0) .read, .resume 1 false, .clear 1,
                .release (some 1) .write, .resume 3 false],
              newReads .thread .fair c [.release (some 0) .read, .resume 1 false, .clear 1,
                .release (some 1) .write, .resume 3 false],
              turns .thread .fair c [.release (some 0) .read, .resume 1 false, .clear 1,
                .release (some 1) .write, .resume 3 false])) =
      some (.waiting .write 2 false false, 1, 1, 1) := by
    decide
  obtain ⟨c, hc, hrun⟩ := Option.bind_eq_some_iff.1 hrun
  obtain ⟨d, hd, hval⟩ := Option.map_eq_some_iff.1 hrun
  simp only [Prod.mk.injEq] at hval
  exact ⟨c, _, hval.2,
    waiting_writer_passed (run_of_replay hc) ⟨_, _, hval.1⟩ (run_of_replay hd)⟩

end System

end Rwlocker

/-
# The ledger of acquisitions

When every release is made by a caller that holds what it releases, the books of
the lock are a ledger: a recorded read count is the number of read acquisitions
its owner has not given back, and the owner of the write side has acquired it
exactly `depth` times (`Ledger`).  The downgrade marker then names somebody with
a write hold only while that writer is about to clear it.

So the lock refines the readers–writer discipline of `ReadersWriter.Grant`: every
move is a grant or leaves the holds alone (`Move.grant`), and exclusion carries
over (`HolderReachable.exclusive`).

A plain class lets anybody release the write side, and then an owner may lose it
unasked.  Still the books never record more than was granted (`Backed`), whoever
calls what.
-/

import Rwlocker.Move

namespace Rwlocker

open ReadersWriter (Holds Grant)

variable {τ : Type} [DecidableEq τ]

/-- The books agree with the acquisitions granted and not given back (module
doc). -/
structure Ledger (cls : LockClass) (s : RWLock τ) (pc : τ → Pc) (h : Holds (Option τ)) :
    Prop where
  reads : ∀ k, s.readerOwners.count k = h.reads k
  writes : ∀ t, (h.writes (some t) : ℤ) = if cls.owner s = some t then cls.depth s else 0
  noneWrites : h.writes none = 0
  clearing : ∀ t, pc t = .clearing → 0 < h.writes (some t)
  marker : ∀ t, s.downgraded = some t → 0 < h.writes (some t) → pc t = .clearing

namespace Ledger

variable {cls : LockClass} {s s' : RWLock τ} {pc : τ → Pc} {h : Holds (Option τ)} {t : τ} {p : Pc}

/-- Nobody holds a new lock. -/
theorem init (cls : LockClass) : Ledger cls ({} : RWLock τ) (fun _ => .idle) .free where
  reads _ := rfl
  writes t := by simp [LockClass.owner]
  noneWrites := rfl
  clearing t ht := by cases ht
  marker t ht := by cases ht

/-! ### Reading the ledger -/

/-- Whoever holds the write lock owns it. -/
theorem owner_of_writes (hl : Ledger cls s pc h) {k : Option τ} (hk : 0 < h.writes k) :
    cls.owner s = k := by
  cases k with
  | none =>
      rw [hl.noneWrites] at hk
      omega
  | some t =>
      have := hl.writes t
      split_ifs at this with ho
      · exact ho
      · omega

/-- Callbacks hold nothing. -/
theorem ne_none_of_writes (hl : Ledger cls s pc h) {k : Option τ} (hk : 0 < h.writes k) :
    k ≠ none := by
  rintro rfl
  rw [hl.noneWrites] at hk
  omega

/-- Nobody but the owner holds the write lock. -/
theorem writes_eq_zero (hl : Ledger cls s pc h) {k : Option τ} (hk : cls.owner s ≠ k) :
    h.writes k = 0 := by
  by_contra hw
  exact hk (hl.owner_of_writes (by omega))

/-- The owner holds the write lock. -/
theorem writes_pos (hl : Ledger cls s pc h) (hb : Books cls s) (ho : cls.owner s = some t) :
    0 < h.writes (some t) := by
  have h₁ := hl.writes t
  have h₂ := hb.depth_pos (by simp [ho])
  rw [if_pos ho] at h₁
  omega

/-- A reentrant class checks who releases; elsewhere a caller that holds something
and meets an owner is that owner. -/
theorem owner_of_holding (hl : Ledger cls s pc h) (hb : Books cls s)
    (hh : cls.reentrant = false → System.Holding h (some t)) (ho : cls.owner s ≠ none)
    (hr : cls.reentrant = true → cls.owner s = some t) : cls.owner s = some t := by
  cases hc : cls.reentrant with
  | true => exact hr hc
  | false =>
      rcases hh hc with hw | hr'
      · exact hl.owner_of_writes hw
      · rcases hb.exclusive (some t) (by rw [hl.reads]; exact hr') with hn | ⟨hc', -⟩
        · exact absurd hn ho
        · exact hr hc'

/-! ### The ledger through a move -/

/-- Signals and proxies do not touch the ledger. -/
theorem congr (hl : Ledger cls s pc h) (hro : s'.readerOwners = s.readerOwners)
    (ho : cls.owner s' = cls.owner s) (hd : cls.depth s' = cls.depth s)
    (hm : s'.downgraded = s.downgraded) : Ledger cls s' pc h where
  reads k := hro ▸ hl.reads k
  writes t := by rw [ho, hd]; exact hl.writes t
  noneWrites := hl.noneWrites
  clearing := hl.clearing
  marker t ht := hl.marker t (hm ▸ ht)

/-- Signals change no hold. -/
theorem signals (hl : Ledger cls s pc h) (hs : RWLock.Signals s s') : Ledger cls s' pc h :=
  hl.congr hs.readerOwners (hs.owner cls) (hs.depth cls) hs.downgraded

/-- Nor do the proxies. -/
theorem onProxy (hl : Ledger cls s pc h) (m : Mode) (f : Proxy τ → Proxy τ) :
    Ledger cls (s.onProxy m f) pc h :=
  hl.congr rfl rfl rfl rfl

/-- A caller goes on outside the write proxy's epilogue. -/
theorem goto (hl : Ledger cls s pc h) (ht : pc t ≠ .clearing) (hp : p ≠ .clearing) :
    Ledger cls s (Function.update pc t p) h where
  reads := hl.reads
  writes := hl.writes
  noneWrites := hl.noneWrites
  clearing u hu := by
    by_cases hut : u = t
    · subst hut
      rw [Function.update_self] at hu
      exact absurd hu hp
    · rw [Function.update_of_ne hut] at hu
      exact hl.clearing u hu
  marker u hm hu := by
    have hpc := hl.marker u hm hu
    by_cases hut : u = t
    · subst hut
      exact absurd hpc ht
    · rwa [Function.update_of_ne hut]

/-- The marker is cleared; whoever cleared it goes on. -/
theorem unmark (hl : Ledger cls s pc h) : Ledger cls { s with downgraded := none } pc h where
  reads := hl.reads
  writes := hl.writes
  noneWrites := hl.noneWrites
  clearing := hl.clearing
  marker t ht := by cases ht

/-- The writer that clears the marker is done with its call. -/
theorem clear (hl : Ledger cls s pc h) (t : τ) :
    Ledger cls { s with downgraded := none } (Function.update pc t .idle) h where
  reads := hl.reads
  writes := hl.writes
  noneWrites := hl.noneWrites
  clearing u hu := by
    by_cases hut : u = t
    · subst hut
      simp at hu
    · exact hl.clearing u (by rwa [Function.update_of_ne hut] at hu)
  marker t ht := by cases ht

/-- A reader that enters holds the lock once more. -/
theorem enterReader (hl : Ledger cls s pc h) (k : Option τ) :
    Ledger cls (s.enterReader k) pc (h.addRead k) where
  reads j := by rw [RWLock.count_enterReader, Holds.addRead_reads, hl.reads, hl.reads]
  writes := hl.writes
  noneWrites := hl.noneWrites
  clearing := hl.clearing
  marker := hl.marker

/-- A reader that leaves holds it once less. -/
theorem dropReader (hl : Ledger cls s pc h) (k : Option τ) :
    Ledger cls (s.dropReader k) pc (h.dropRead k) where
  reads j := by rw [RWLock.count_dropReader, Holds.dropRead_reads, hl.reads, hl.reads]
  writes := hl.writes
  noneWrites := hl.noneWrites
  clearing := hl.clearing
  marker := hl.marker

/-- A writer enters; from now on it is about to clear the marker. -/
theorem ownWriter (hl : Ledger cls s pc h) (hb : Books cls s)
    (hadm : cls.AdmitsWriter s ∨ cls.reentrant = true ∧ cls.owner s = some t) :
    Ledger cls (s.ownWriter cls (some t)) (Function.update pc t .clearing)
      (h.addWrite (some t)) := by
  have hother : ∀ u, u ≠ t → h.writes (some u) = 0 := by
    intro u hu
    refine hl.writes_eq_zero ?_
    rcases hadm with hadm | ⟨-, ho⟩
    · simp [hadm.1]
    · rw [ho]
      simpa using hu.symm
  refine ⟨fun k => ?_, fun u => ?_, by simpa using hl.noneWrites, fun u hu => ?_,
    fun u hm hu => ?_⟩
  · refine Eq.trans ?_ (hl.reads k)
    unfold RWLock.ownWriter
    split_ifs <;> rfl
  · rw [LockClass.owner_ownWriter, LockClass.depth_ownWriter hb hadm, Holds.addWrite_writes]
    by_cases hut : u = t
    · subst hut
      have h₁ := hl.writes u
      have h₂ := hb.depth_eq_zero_iff
      simp only [if_true]
      rcases hadm with hadm | ⟨-, ho⟩
      · simp [hadm.1] at h₁
        simp [h₁, h₂.2 hadm.1]
      · simp [ho] at h₁
        omega
    · simp [hut, Ne.symm hut, hother u hut]
  · by_cases hut : u = t
    · subst hut
      simp
    · rw [Function.update_of_ne hut] at hu
      simpa [hut] using hl.clearing u hu
  · by_cases hut : u = t
    · subst hut
      exact Function.update_self ..
    · have := hother u hut
      simp [hut] at hu
      omega

/-- The write side is freed by its owner, which gives up its one hold. -/
theorem freeWriter (hl : Ledger cls s pc h) (ht : pc t ≠ .clearing)
    (ho : cls.owner s = some t) (hd : cls.depth s = 1) :
    Ledger cls s.freeWriter pc (h.dropWrite (some t)) := by
  have hzero : ∀ u, (h.dropWrite (some t)).writes (some u) = 0 := by
    intro u
    have := hl.writes u
    rw [Holds.dropWrite_writes]
    by_cases hut : u = t
    · subst hut
      rw [if_pos ho, hd] at this
      simp only [if_true]
      omega
    · rw [if_neg (by simpa [ho] using Ne.symm hut)] at this
      simp only [Option.some.injEq, hut, if_false]
      omega
  refine ⟨hl.reads, fun u => ?_, by simpa using hl.noneWrites, fun u hu => ?_, fun u _ hu => ?_⟩
  · rw [hzero u]
    simp
  · have h₁ := hl.owner_of_writes (hl.clearing u hu)
    rw [ho] at h₁
    cases h₁
    exact absurd hu ht
  · rw [hzero u] at hu
    omega

/-- A nested write release. -/
theorem countDown (hl : Ledger cls s pc h) (hc : cls.reentrant = true) (ht : pc t ≠ .clearing)
    (ho : cls.owner s = some t) (hd : 1 < cls.depth s) :
    Ledger cls { s with writeCount := s.writeCount - 1 } pc (h.dropWrite (some t)) := by
  have hown : cls.owner { s with writeCount := s.writeCount - 1 } = cls.owner s := rfl
  have hdepth : cls.depth { s with writeCount := s.writeCount - 1 } = cls.depth s - 1 := by
    simp [LockClass.depth, hc]
  have hother : ∀ u, u ≠ t → h.writes (some u) = 0 := fun u hu =>
    hl.writes_eq_zero (by rw [ho]; simpa using hu.symm)
  refine ⟨hl.reads, fun u => ?_, by simpa using hl.noneWrites, fun u hu => ?_, fun u hm hu => ?_⟩
  · have h₁ := hl.writes u
    rw [hown, hdepth, Holds.dropWrite_writes]
    by_cases hut : u = t
    · subst hut
      rw [if_pos ho] at h₁ ⊢
      simp only [if_true]
      omega
    · simp [hut, hother u hut, ho, Ne.symm hut]
  · have hut : u ≠ t := fun hut => ht (hut ▸ hu)
    simpa [hut] using hl.clearing u hu
  · refine hl.marker u hm ?_
    by_cases hut : u = t
    · subst hut
      simp at hu
      omega
    · simpa [hut] using hu

/-- The marker is set for a caller without a write hold. -/
theorem mark (hl : Ledger cls s pc h) (ht : h.writes (some t) = 0) :
    Ledger cls { s with downgraded := some t } pc h where
  reads := hl.reads
  writes := hl.writes
  noneWrites := hl.noneWrites
  clearing := hl.clearing
  marker u hu hw := by
    obtain rfl : t = u := Option.some.inj hu
    omega

end Ledger

variable {P : Holds (Option τ) → Option τ → Prop} {rt : Runtime} {cls : LockClass}
  {c c' : System τ}

/-- **Every move keeps the ledger**, if a plain class is released by holders only. -/
theorem Move.ledger (hP : cls.reentrant = false → ∀ h k, P h k → System.Holding h k)
    (hmv : Move P rt cls c c') (hb : Books cls c.lock) (hl : Ledger cls c.lock c.pc c.holds) :
    Ledger cls c'.lock c'.pc c'.holds := by
  cases hmv with
  | register m timed hpc hst =>
      refine Ledger.goto (hl.congr rfl rfl rfl rfl) ?_ ?_ <;> simp [hpc]
  | endWait hpc hon => exact hl.congr rfl rfl rfl rfl
  | park hpc hgone hno => refine Ledger.goto (hl.congr rfl rfl rfl rfl) ?_ ?_ <;> simp [hpc]
  | @abort t m seq timed i hpc hgone =>
      have hl := (hl.onProxy m fun p => { p with thoseWaiting := p.thoseWaiting - 1 }).goto
        (t := t) (p := .idle) (by simp [hpc]) (by simp)
      cases m with
      | read => exact hl.signals (cls.signals_onReaderAbort _ _)
      | write => exact hl.signals (cls.signals_onWriterAbort _ _)
  | @enterRead t hpc ho =>
      exact ((hl.enterReader _).signals (cls.signals_onReaderEnter ..)).goto (t := t)
        (by simp [hpc]) (by simp)
  | enterReadWaiting hpc hgone hadm =>
      refine Ledger.goto (((hl.enterReader _).signals (cls.signals_onReaderEnter ..)).congr
        rfl rfl rfl rfl) ?_ ?_ <;> simp [hpc]
  | @enterWrite t hpc hadm =>
      have hl := hl.ownWriter hb hadm
      cases rt with
      | thread => exact hl
      | async =>
          have := hl.clear t
          rwa [Function.update_idem] at this
  | @enterWriteWaiting t seq timed i hpc hgone hadm =>
      have hl := (hl.ownWriter (t := t) hb (.inl hadm)).onProxy .write
        fun p => { p with thoseWaiting := p.thoseWaiting - 1 }
      cases rt with
      | thread => exact hl
      | async =>
          have := hl.clear t
          rwa [Function.update_idem] at this
  | @timeout t m seq hpc => exact hl.goto (t := t) (by simp [hpc]) (by simp)
  | cancel hpc => refine Ledger.goto (hl.congr rfl rfl rfl rfl) ?_ ?_ <;> simp [hpc]
  | clear hpc => exact hl.clear _
  | unmark hpc hm hcount hPk => exact hl.unmark
  | releaseRead hpc hcount => exact (hl.dropReader _).signals (cls.signals_onReaderLeave _)
  | @releaseRouted t hpc hm hcount hPk =>
      have hw : ¬ 0 < c.holds.writes (some t) := by
        intro hw
        have := hl.marker t hm hw
        rw [hpc] at this
        cases this
      simp only [System.giveBack, if_neg hw]
      exact (hl.unmark.dropReader _).signals (cls.signals_onReaderLeave _)
  | releaseNested hpc hc ho hd hPk =>
      simp only [System.giveBack, if_pos (hl.writes_pos hb ho)]
      exact hl.countDown hc (by simp [hpc]) ho hd
  | releaseFinal hpc ho hr hd hPk =>
      have ho := hl.owner_of_holding hb (fun hc => hP hc _ _ hPk) ho hr
      simp only [System.giveBack, if_pos (hl.writes_pos hb ho)]
      exact (hl.freeWriter (by simp [hpc]) ho hd).signals (cls.signals_onWriterAbort _ _)
  | @downgrade t hpc ho hd =>
      have hpos := hl.writes_pos hb ho
      have hone := hl.writes t
      rw [if_pos ho, hd] at hone
      simp only [System.convert, if_pos hpos]
      refine (((hl.freeWriter (by simp [hpc]) ho hd).enterReader _).signals
        (cls.signals_onDowngrade _)).mark ?_
      simp
      omega

/-- **Every move is a grant of the readers–writer discipline**, or leaves the
holds alone. -/
theorem Move.grant (hP : cls.reentrant = false → ∀ h k, P h k → System.Holding h k)
    (hmv : Move P rt cls c c')
    (hb : Books cls c.lock) (hl : Ledger cls c.lock c.pc c.holds) :
    c'.holds = c.holds ∨ Grant c.holds c'.holds := by
  have hread : ∀ t : τ, (cls.owner c.lock = none ∨
      cls.reentrant = true ∧ cls.owner c.lock = some t) →
        Grant c.holds (c.holds.addRead (some t)) := by
    refine fun t ho => .acquireRead _ fun j hj => ?_
    by_contra hw
    have hoj := hl.owner_of_writes (k := j) (by omega)
    rcases ho with ho | ⟨-, ho⟩
    · exact hl.ne_none_of_writes (k := j) (by omega) (hoj.symm.trans ho)
    · exact hj (hoj.symm.trans ho)
  have hwrite : ∀ t : τ, (cls.AdmitsWriter c.lock ∨
      cls.reentrant = true ∧ cls.owner c.lock = some t) →
        Grant c.holds (c.holds.addWrite (some t)) := by
    refine fun t hadm => .acquireWrite _ fun j hj => ⟨?_, ?_⟩
    · rw [← hl.reads]
      by_contra hr
      rcases hadm with hadm | ⟨-, ho⟩
      · exact hr (hb.readersActive_eq_zero_iff.1 hadm.2.1 j)
      · rcases hb.exclusive j (by omega) with hn | ⟨-, hoj⟩
        · rw [ho] at hn
          cases hn
        · exact hj (hoj.symm.trans ho)
    · by_contra hw
      have hoj := hl.owner_of_writes (k := j) (by omega)
      rcases hadm with hadm | ⟨-, ho⟩
      · exact hl.ne_none_of_writes (k := j) (by omega) (hoj.symm.trans hadm.1)
      · exact hj (hoj.symm.trans ho)
  cases hmv with
  | register | endWait | park | abort | timeout | cancel | clear | unmark => exact .inl rfl
  | enterRead hpc ho => exact .inr (hread _ ho)
  | enterReadWaiting hpc hgone hadm => exact .inr (hread _ (.inl hadm.1))
  | enterWrite hpc hadm => exact .inr (hwrite _ hadm)
  | enterWriteWaiting hpc hgone hadm => exact .inr (hwrite _ (.inl hadm))
  | releaseRead hpc hcount => exact .inr (.releaseRead _ (hl.reads _ ▸ hcount))
  | @releaseRouted t hpc hm hcount hPk =>
      simp only [System.giveBack]
      split_ifs with hw
      · exact .inr (.releaseWrite _ hw)
      · exact .inr (.releaseRead _ (hl.reads _ ▸ hcount))
  | releaseNested hpc hc ho hd hPk =>
      simp only [System.giveBack, if_pos (hl.writes_pos hb ho)]
      exact .inr (.releaseWrite _ (hl.writes_pos hb ho))
  | releaseFinal hpc ho hr hd hPk =>
      have ho := hl.owner_of_holding hb (fun hc => hP hc _ _ hPk) ho hr
      simp only [System.giveBack, if_pos (hl.writes_pos hb ho)]
      exact .inr (.releaseWrite _ (hl.writes_pos hb ho))
  | downgrade hpc ho hd =>
      simp only [System.convert, if_pos (hl.writes_pos hb ho)]
      exact .inr (.downgrade _ (hl.writes_pos hb ho))

/-- Whoever the books record has acquired what they record, and not given it back. -/
structure Backed (cls : LockClass) (s : RWLock τ) (h : Holds (Option τ)) : Prop where
  reads : ∀ k, s.readerOwners.count k ≤ h.reads k
  writes : ∀ t, cls.owner s = some t → 0 < h.writes (some t)

namespace Backed

variable {s s' : RWLock τ} {h : Holds (Option τ)} {t : τ}

/-- A new lock records nobody. -/
theorem init (cls : LockClass) : Backed cls ({} : RWLock τ) .free where
  reads _ := le_rfl
  writes t ho := by simp [LockClass.owner] at ho

/-- It depends on the read counts and the owner alone. -/
theorem congr (hk : Backed cls s h) (hro : s'.readerOwners = s.readerOwners)
    (ho : cls.owner s' = cls.owner s) : Backed cls s' h where
  reads k := hro ▸ hk.reads k
  writes t ht := hk.writes t (ho ▸ ht)

/-- Signals record nobody. -/
theorem signals (hk : Backed cls s h) (hs : RWLock.Signals s s') : Backed cls s' h :=
  hk.congr hs.readerOwners (hs.owner cls)

/-- A reader that enters is recorded with its hold. -/
theorem enterReader (hk : Backed cls s h) (k : Option τ) :
    Backed cls (s.enterReader k) (h.addRead k) where
  reads j := by
    have := hk.reads j
    have := hk.reads k
    rw [RWLock.count_enterReader, Holds.addRead_reads]
    split_ifs <;> omega
  writes := hk.writes

/-- A reader that leaves gives both up. -/
theorem dropReader (hk : Backed cls s h) (k : Option τ) :
    Backed cls (s.dropReader k) (h.dropRead k) where
  reads j := by
    have := hk.reads j
    have := hk.reads k
    rw [RWLock.count_dropReader, Holds.dropRead_reads]
    split_ifs <;> omega
  writes := hk.writes

/-- A writer that enters is recorded as the owner with its hold. -/
theorem ownWriter (hk : Backed cls s h) (t : τ) :
    Backed cls (s.ownWriter cls (some t)) (h.addWrite (some t)) where
  reads k := by
    refine le_of_eq_of_le ?_ (hk.reads k)
    unfold RWLock.ownWriter
    split_ifs <;> rfl
  writes u ho := by
    rw [LockClass.owner_ownWriter] at ho
    cases ho
    simp

/-- Nobody reads and nobody writes: whatever was granted backs that. -/
theorem of_free (hr : ∀ k, s.readerOwners.count k = 0) (ho : cls.owner s = none)
    (h : Holds (Option τ)) : Backed cls s h where
  reads k := by
    rw [hr k]
    exact Nat.zero_le _
  writes t ht := by
    rw [ho] at ht
    cases ht

end Backed

/-- An owned lock of a plain class has no reader. -/
theorem Books.count_eq_zero {s : RWLock τ} (hb : Books cls s) (hc : cls.reentrant = false)
    (ho : cls.owner s ≠ none) (k : Option τ) : s.readerOwners.count k = 0 := by
  by_contra hk
  rcases hb.exclusive k (by omega) with hn | ⟨hre, -⟩
  · exact ho hn
  · rw [hc] at hre
    cases hre

/-- **Every move of a plain class keeps the books backed**, whoever makes it. -/
theorem Move.backed (hc : cls.reentrant = false) (hmv : Move P rt cls c c')
    (hb : Books cls c.lock) (h : Backed cls c.lock c.holds) : Backed cls c'.lock c'.holds := by
  -- with a reader recorded nobody owns the lock
  have hfree : ∀ k, 0 < c.lock.readerOwners.count k → cls.owner c.lock = none := fun k hk => by
    by_contra ho
    have := hb.count_eq_zero hc ho k
    omega
  cases hmv with
  | register | endWait | park | timeout | cancel | clear | unmark => exact h.congr rfl rfl
  | @abort t m seq timed i hpc hgone =>
      have hstop : Backed cls (c.lock.stopWaiting m) c.holds := h.congr rfl rfl
      cases m with
      | read => exact hstop.signals (cls.signals_onReaderAbort _ _)
      | write => exact hstop.signals (cls.signals_onWriterAbort _ _)
  | enterRead => exact (h.enterReader _).signals (cls.signals_onReaderEnter ..)
  | enterReadWaiting =>
      exact ((h.enterReader _).signals (cls.signals_onReaderEnter ..)).congr rfl rfl
  | @enterWrite t =>
      have hown := h.ownWriter t
      cases rt <;> exact hown.congr rfl rfl
  | @enterWriteWaiting t =>
      have hown := h.ownWriter t
      cases rt <;> exact hown.congr rfl rfl
  | releaseRead => exact (h.dropReader _).signals (cls.signals_onReaderLeave _)
  | @releaseRouted t hpc hm hcount =>
      refine Backed.signals (s := ({ c.lock with downgraded := none } : RWLock τ).dropReader
        (some t)) ?_ (cls.signals_onReaderLeave _)
      have hunmark : Backed cls { c.lock with downgraded := none } c.holds := h.congr rfl rfl
      refine ⟨fun k => ((hunmark.dropReader (some t)).reads k).trans ?_, fun u hu => ?_⟩
      · simp only [System.giveBack]
        split_ifs
        · exact c.holds.dropRead_reads_le (some t) k
        · exact le_rfl
      · cases (hfree _ hcount).symm.trans hu
  | releaseNested hpc hre => simp [hc] at hre
  | releaseFinal hpc ho =>
      have hzero := hb.count_eq_zero hc ho
      exact (Backed.of_free (s := c.lock.freeWriter) hzero (by simp) _).signals
        (cls.signals_onWriterAbort _ _)
  | @downgrade t hpc ho hd =>
      have hzero := hb.count_eq_zero hc (by simp [ho])
      have hfreed : Backed cls c.lock.freeWriter (c.holds.dropWrite (some t)) :=
        .of_free (s := c.lock.freeWriter) hzero (by simp) _
      simp only [System.convert, if_pos (h.writes t ho)]
      exact ((hfreed.enterReader (some t)).signals (cls.signals_onDowngrade _)).congr rfl rfl

namespace System

/-- **The ledger holds in every reachable state** of a run whose releases are
made by holders. -/
theorem HolderReachable.ledger (h : HolderReachable rt cls c) :
    Ledger cls c.lock c.pc c.holds :=
  h.of_move (I := fun c => Ledger cls c.lock c.pc c.holds) (.init cls)
    fun _ _ hw hl hmv => hmv.ledger (fun _ _ _ => id) hw.books hl

/-- A reentrant class checks who releases, so its ledger holds whoever calls what. -/
theorem Reachable.ledger (hc : cls.reentrant = true) (h : Reachable rt cls c) :
    Ledger cls c.lock c.pc c.holds :=
  h.of_move (I := fun c => Ledger cls c.lock c.pc c.holds) (.init cls)
    fun _ _ hw hl hmv => hmv.ledger (fun hp => by rw [hc] at hp; cases hp) hw.books hl

/-- **The books are backed in every reachable state**, whoever calls what. -/
theorem Reachable.backed (h : Reachable rt cls c) : Backed cls c.lock c.holds := by
  cases hc : cls.reentrant with
  | true =>
      have hl := h.ledger hc
      exact ⟨fun k => (hl.reads k).le, fun t ho => hl.writes_pos h.wellFormed.books ho⟩
  | false =>
      exact h.of_move (I := fun c => Backed cls c.lock c.holds) (.init cls)
        fun _ _ hw hk hmv => hmv.backed hc hw.books hk

/-- The books are in order while callers release what they hold. -/
theorem HolderReachable.books (h : HolderReachable rt cls c) : Books cls c.lock :=
  h.reachable.wellFormed.books

/-- A lock, in a run whose releases are made by holders, refines the
readers–writer discipline. -/
theorem simulates_grant (rt : Runtime) (cls : LockClass) :
    Transition.Simulates
      (Transition.restrict (fun c a => InTask c a ∧ ByHolder c a) (Step (τ := τ) rt cls)) Init
      Grant (· = .free)
      fun c h => c.holds = h ∧ WellFormed cls c.lock c.pc ∧ Ledger cls c.lock c.pc c.holds where
  init c hc := by
    subst hc
    exact ⟨.free, rfl, rfl, .init cls, .init cls⟩
  step c h a c' := by
    rintro ⟨rfl, hw, hl⟩ ⟨⟨ha, hby⟩, hst⟩
    have hmv := hst.moves (P := Holding) hw ha fun k hk => by rwa [hk] at hby
    refine hmv.invariant (I := fun d => ∃ b', (d.holds = b' ∧ WellFormed cls d.lock d.pc ∧
      Ledger cls d.lock d.pc d.holds) ∧ Relation.ReflTransGen Grant c.holds b') ?_ hw
      ⟨_, ⟨rfl, hw, hl⟩, .refl⟩
    rintro d d' - ⟨_, ⟨rfl, hw, hl⟩, hg⟩ hmv
    refine ⟨_, ⟨rfl, hmv.wellFormed hw, hmv.ledger (fun _ _ _ => id) hw.books hl⟩, ?_⟩
    rcases hmv.grant (fun _ _ _ => id) hw.books hl with heq | hgr
    · rwa [heq]
    · exact hg.tail hgr

/-- **Exclusion.**  While one caller holds the write lock nobody else holds
anything. -/
theorem HolderReachable.exclusive (h : HolderReachable rt cls c) : c.holds.Exclusive := by
  obtain ⟨b, ⟨rfl, -⟩, hex⟩ := (simulates_grant rt cls).reachable
    (J := Holds.Exclusive) (by rintro _ rfl; exact Holds.exclusive_free)
    (fun _ _ hex hg => hg.exclusive hex) h
  exact hex

/-- **The accounts balance.**  In every reachable state of a run whose releases are
made by holders (a) a write hold excludes every other hold, and a plain class
has no active writer beside active readers; (b) the active readers are the sum
of the recorded owners, no recorded count is empty, and each is the number of
read acquisitions its owner has not given back; (c) a reentrant class has a
writer exactly while the write count is positive, the count is the number of
its outstanding write acquisitions, and nobody else is recorded as a reader. -/
theorem HolderReachable.accounts (h : HolderReachable rt cls c) :
    (c.holds.Exclusive ∧ (cls.reentrant = false →
      ¬ (c.lock.writerActive = true ∧ 0 < c.lock.readersActive))) ∧
    (c.lock.readersActive = c.lock.readerOwners.total ∧ c.lock.readerOwners.Positive ∧
      ∀ k, c.lock.readerOwners.count k = c.holds.reads k) ∧
    (cls.reentrant = true → (c.lock.writerId ≠ none ↔ 0 < c.lock.writeCount) ∧
      ∀ t, c.lock.writerId = some t → c.lock.writeCount = c.holds.writes (some t) ∧
        ∀ k ∈ c.lock.readerOwners, k = some t) := by
  have hb := h.books
  have hl := h.ledger
  refine ⟨⟨h.exclusive, fun hc ⟨hwa, hra⟩ => ?_⟩, ⟨hb.total, hb.positive, hl.reads⟩, fun hc => ?_⟩
  · have hno : cls.owner c.lock ≠ none := fun ho => by
      rw [hb.writerActive_of_owner ho] at hwa
      cases hwa
    have hall := hb.readersActive_eq_zero_iff.2 (hb.count_eq_zero hc hno)
    omega
  · have hown := LockClass.owner_of_reentrant hc c.lock
    have hdepth : cls.depth c.lock = c.lock.writeCount := by simp [LockClass.depth, hc]
    obtain ⟨-, -, hnn, hz⟩ := hb.reentrant hc
    refine ⟨?_, fun t ht => ⟨?_, fun k hk => ?_⟩⟩
    · rw [Ne, ← hz]
      omega
    · have hw := hl.writes t
      rw [hown, hdepth, if_pos ht] at hw
      exact hw.symm
    · rcases hb.exclusive k ((Tally.count_pos_iff hb.positive).2 hk) with ho | ⟨-, ho⟩
      · rw [hown, ht] at ho
        cases ho
      · rw [← ho, hown, ht]

/-- A thread that writes twice and reads once inside, while another waits. -/
theorem accounts_nested : ∃ c : System ℕ,
    (c.lock.writerId = some 0 ∧ c.lock.writeCount = 2 ∧ c.lock.write.thoseWaiting = 1) ∧
    (c.holds.Exclusive ∧ (LockClass.writeReentrantWriter.reentrant = false →
      ¬ (c.lock.writerActive = true ∧ 0 < c.lock.readersActive))) ∧
    (c.lock.readersActive = c.lock.readerOwners.total ∧ c.lock.readerOwners.Positive ∧
      ∀ k, c.lock.readerOwners.count k = c.holds.reads k) ∧
    (LockClass.writeReentrantWriter.reentrant = true →
      (c.lock.writerId ≠ none ↔ 0 < c.lock.writeCount) ∧
      ∀ t, c.lock.writerId = some t → c.lock.writeCount = c.holds.writes (some t) ∧
        ∀ k ∈ c.lock.readerOwners, k = some t) := by
  have hrun : ((Transition.replay (next (fun c a => InTask c a ∧ ByHolder c a) .thread
      .writeReentrantWriter) {} [.acquire 0 .write .forever false, .clear 0,
      .acquire 0 .write .nonblocking false, .clear 0, .acquire 0 .read .forever false,
      .acquire 1 .write .timed false]).map fun c : System ℕ =>
        (c.lock.writerId, c.lock.writeCount, c.lock.write.thoseWaiting)) =
      some (some 0, 2, 1) := by
    decide
  obtain ⟨c, hc, hval⟩ := Option.map_eq_some_iff.1 hrun
  simp only [Prod.mk.injEq] at hval
  exact ⟨c, hval, HolderReachable.accounts ⟨_, _, rfl, run_of_replay hc⟩⟩

end System

end Rwlocker

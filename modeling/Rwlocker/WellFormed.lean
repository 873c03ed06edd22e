/-
# Waiters, queues and waiting counters

The second invariant of every lock, whoever calls what: how the calls in flight,
the waiter objects and the queues fit together (`WellFormed`).

A registered call is asleep when its waiter is pending and nothing has happened
to it, and on its way otherwise: it was signalled, timed out or cancelled and
has not run since.  Pending waiters are in their queue, queues hold only waiters
of calls in flight and hold none twice, `those_waiting` counts the calls in
flight, and a call in flight belongs to a caller that the lock tolerates
nothing of: it reads nothing and, in a reentrant class, does not own the lock.
-/

import Mathlib.Data.Finset.Card
import Rwlocker.Books
import Rwlocker.System

namespace Rwlocker

variable {τ : Type} [DecidableEq τ]

/-- `t` is in `acquire`, registered with the proxy `m`. -/
def InFlight (pc : τ → Pc) (m : Mode) (t : τ) : Prop :=
  ∃ seq timed interrupted, pc t = .waiting m seq timed interrupted

/-- `t` sleeps: its waiter is pending and it was neither timed out nor cancelled. -/
def Asleep (s : RWLock τ) (pc : τ → Pc) (m : Mode) (t : τ) : Prop :=
  s.waiter m t = .pending ∧ ∃ seq timed, pc t = .waiting m seq timed false

/-- `t` was signalled, timed out or cancelled, and has not run since. -/
def OnWay (s : RWLock τ) (pc : τ → Pc) (m : Mode) (t : τ) : Prop :=
  InFlight pc m t ∧ ¬ Asleep s pc m t

/-- The waiters of a lock (module doc). -/
structure WellFormed (cls : LockClass) (s : RWLock τ) (pc : τ → Pc) : Prop where
  books : Books cls s
  nodup : ∀ m, (s.queue m).Nodup
  queued : ∀ m t, t ∈ s.queue m → s.waiter m t = .pending ∨ s.waiter m t = .cancelled
  pending : ∀ m t, s.waiter m t = .pending → t ∈ s.queue m
  live : ∀ m t, s.waiter m t ≠ .gone → InFlight pc m t
  cancelled : ∀ m t seq timed interrupted, pc t = .waiting m seq timed interrupted →
    s.waiter m t = .cancelled → interrupted = true
  flight : ∀ m, ∃ F : Finset τ,
    (∀ t, t ∈ F ↔ InFlight pc m t) ∧ (s.proxy m).thoseWaiting = F.card
  seq_le : ∀ m t seq timed interrupted, pc t = .waiting m seq timed interrupted →
    seq ≤ (s.proxy m).waiterSeq
  stranger : ∀ m t, InFlight pc m t → s.readerOwners.count (some t) = 0 ∧
    ¬ (cls.reentrant = true ∧ cls.owner s = some t)

/-! ### Queues and counters through an update -/

namespace RWLock

omit [DecidableEq τ]

variable (s : RWLock τ) (m m' : Mode) (f : WaitQueue τ → WaitQueue τ)

theorem queue_onQueue :
    (s.onQueue m f).queue m' =
      if m' = m then (f (s.proxy m).condition).waiters else s.queue m' := by
  rw [queue, onQueue, onProxy_proxy]
  split_ifs <;> rfl

theorem waiter_onQueue (t : τ) :
    (s.onQueue m f).waiter m' t =
      if m' = m then (f (s.proxy m).condition).state t else s.waiter m' t := by
  rw [waiter, onQueue, onProxy_proxy]
  split_ifs <;> rfl

@[simp] theorem thoseWaiting_onQueue :
    ((s.onQueue m f).proxy m').thoseWaiting = (s.proxy m').thoseWaiting := by
  rw [onQueue, onProxy_proxy]
  split_ifs with h <;> simp [h]

@[simp] theorem waiterSeq_onQueue :
    ((s.onQueue m f).proxy m').waiterSeq = (s.proxy m').waiterSeq := by
  rw [onQueue, onProxy_proxy]
  split_ifs with h <;> simp [h]

@[simp] theorem queue_startWaiting : (s.startWaiting m).queue m' = s.queue m' := by
  rw [queue, startWaiting, onProxy_proxy]
  split_ifs with h <;> simp [h]

@[simp] theorem waiter_startWaiting (t : τ) : (s.startWaiting m).waiter m' t = s.waiter m' t := by
  rw [waiter, startWaiting, onProxy_proxy]
  split_ifs with h <;> simp [h]

theorem thoseWaiting_startWaiting :
    ((s.startWaiting m).proxy m').thoseWaiting =
      (s.proxy m').thoseWaiting + if m' = m then 1 else 0 := by
  rw [startWaiting, onProxy_proxy]
  split_ifs with h <;> simp [h]

theorem waiterSeq_startWaiting :
    ((s.startWaiting m).proxy m').waiterSeq =
      (s.proxy m').waiterSeq + if m' = m then 1 else 0 := by
  rw [startWaiting, onProxy_proxy]
  split_ifs with h <;> simp [h]

@[simp] theorem queue_stopWaiting : (s.stopWaiting m).queue m' = s.queue m' := by
  rw [queue, stopWaiting, onProxy_proxy]
  split_ifs with h <;> simp [h]

@[simp] theorem waiter_stopWaiting (t : τ) : (s.stopWaiting m).waiter m' t = s.waiter m' t := by
  rw [waiter, stopWaiting, onProxy_proxy]
  split_ifs with h <;> simp [h]

theorem thoseWaiting_stopWaiting :
    ((s.stopWaiting m).proxy m').thoseWaiting =
      (s.proxy m').thoseWaiting - if m' = m then 1 else 0 := by
  rw [stopWaiting, onProxy_proxy]
  split_ifs with h <;> simp [h]

@[simp] theorem waiterSeq_stopWaiting :
    ((s.stopWaiting m).proxy m').waiterSeq = (s.proxy m').waiterSeq := by
  rw [stopWaiting, onProxy_proxy]
  split_ifs with h <;> simp [h]

/-- Signals do not mind a change of a waiting counter. -/
theorem Signals.stopWaiting {s s' : RWLock τ} (h : Signals s s') (m : Mode) :
    Signals (s.stopWaiting m) (s'.stopWaiting m) where
  frame := by rw [RWLock.stopWaiting, RWLock.stopWaiting, RWLock.onProxy, RWLock.onProxy, h.frame]
  thoseWaiting m' := by rw [thoseWaiting_stopWaiting, thoseWaiting_stopWaiting, h.thoseWaiting]
  waiterSeq m' := by simpa using h.waiterSeq m'
  suffix m' := by simpa using h.suffix m'
  waiter m' t := by simpa using h.waiter m' t
  popped m' t := by simpa using h.popped m' t
  kept m' t := by simpa using h.kept m' t

end RWLock

/-! ### Program counters -/

omit [DecidableEq τ] in
/-- A call goes through one proxy. -/
theorem InFlight.mode_eq {pc : τ → Pc} {m m' : Mode} {t : τ} (h : InFlight pc m t)
    (h' : InFlight pc m' t) : m = m' := by
  obtain ⟨seq, timed, i, h⟩ := h
  obtain ⟨seq', timed', i', h'⟩ := h'
  rw [h] at h'
  cases h'
  rfl

omit [DecidableEq τ] in
/-- Whoever does not wait is in no call. -/
theorem not_inFlight {pc : τ → Pc} {t : τ} {p : Pc} (h : pc t = p)
    (hp : ∀ m seq timed i, p ≠ .waiting m seq timed i) (m : Mode) : ¬ InFlight pc m t := by
  rintro ⟨seq, timed, i, h'⟩
  exact hp m seq timed i (h.symm.trans h')

/-- A caller's move leaves the calls of the others. -/
theorem inFlight_update_of_ne {pc : τ → Pc} {t u : τ} (p : Pc) (hu : u ≠ t) (m : Mode) :
    InFlight (Function.update pc t p) m u ↔ InFlight pc m u := by
  simp [InFlight, hu]

/-- Whoever goes on elsewhere is in no call. -/
theorem not_inFlight_update {pc : τ → Pc} {t : τ} {p : Pc}
    (hp : ∀ m seq timed i, p ≠ .waiting m seq timed i) (m : Mode) :
    ¬ InFlight (Function.update pc t p) m t :=
  not_inFlight (Function.update_self ..) hp m

/-- Whoever goes on waiting is in that call. -/
theorem inFlight_update_waiting {pc : τ → Pc} {t : τ} {m m' : Mode} {seq : ℕ} {timed i : Bool} :
    InFlight (Function.update pc t (.waiting m seq timed i)) m' t ↔ m' = m := by
  constructor
  · rintro ⟨seq', timed', i', h⟩
    rw [Function.update_self] at h
    cases h
    rfl
  · rintro rfl
    exact ⟨seq, timed, i, Function.update_self ..⟩

namespace WellFormed

variable {cls : LockClass} {s s' : RWLock τ} {pc pc' : τ → Pc} {m : Mode} {t : τ} {p : Pc}

/-- Nobody waits for a new lock. -/
theorem init (cls : LockClass) : WellFormed cls ({} : RWLock τ) fun _ => .idle where
  books := .init cls
  nodup _ := List.nodup_nil
  queued m t h := absurd h List.not_mem_nil
  pending m t h := by cases h
  live m t h := absurd rfl h
  cancelled m t seq timed i h := by cases h
  flight m := ⟨∅, fun t => by simp [InFlight], rfl⟩
  seq_le m t seq timed i h := by cases h
  stranger m t h := by
    obtain ⟨_, _, _, h⟩ := h
    cases h

/-! ### Reading the invariant -/

/-- Whoever is queued is in a call. -/
theorem inFlight_of_mem (h : WellFormed cls s pc) (ht : t ∈ s.queue m) : InFlight pc m t := by
  refine h.live m t ?_
  rcases h.queued m t ht with h' | h' <;> rw [h'] <;> decide

/-- A queue is no longer than the waiting counter. -/
theorem length_le (h : WellFormed cls s pc) (m : Mode) :
    ((s.queue m).length : ℤ) ≤ (s.proxy m).thoseWaiting := by
  obtain ⟨F, hF, hcard⟩ := h.flight m
  have hsub : (s.queue m).toFinset ⊆ F := by
    intro u hu
    exact (hF u).2 (h.inFlight_of_mem (List.mem_toFinset.1 hu))
  have hle := Finset.card_le_card hsub
  rw [List.toFinset_card_of_nodup (h.nodup m)] at hle
  omega

/-- The waiting counter counts, so it is never negative. -/
theorem thoseWaiting_nonneg (h : WellFormed cls s pc) (m : Mode) :
    0 ≤ (s.proxy m).thoseWaiting := by
  have := h.length_le m
  omega

/-- The waiting counter is positive while a call is in flight. -/
theorem thoseWaiting_pos (h : WellFormed cls s pc) (ht : InFlight pc m t) :
    0 < (s.proxy m).thoseWaiting := by
  obtain ⟨F, hF, hcard⟩ := h.flight m
  have := Finset.card_pos.2 ⟨t, (hF t).2 ht⟩
  omega

/-- A positive waiting counter counts somebody. -/
theorem exists_inFlight (h : WellFormed cls s pc) (hm : 0 < (s.proxy m).thoseWaiting) :
    ∃ t, InFlight pc m t := by
  obtain ⟨F, hF, hcard⟩ := h.flight m
  obtain ⟨t, ht⟩ := Finset.card_pos.1 (show 0 < F.card by omega)
  exact ⟨t, (hF t).1 ht⟩

/-- Whoever sleeps is queued. -/
theorem mem_of_asleep (h : WellFormed cls s pc) (ht : Asleep s pc m t) : t ∈ s.queue m :=
  h.pending m t ht.1

/-! ### The invariant through a move -/

/-- Signals keep the invariant. -/
theorem signals (h : WellFormed cls s pc) (hs : RWLock.Signals s s') : WellFormed cls s' pc where
  books := h.books.signals hs
  nodup m := (h.nodup m).sublist (hs.suffix m).sublist
  queued m t ht := by
    have hm := (hs.suffix m).subset ht
    rw [hs.kept m t (h.nodup m) ht]
    exact h.queued m t hm
  pending m t hp := by
    have hm := h.pending m t (hs.pending hp)
    by_contra hm'
    exact hs.popped m t hm hm' hp
  live m t hl := by
    refine h.live m t ?_
    rcases hs.waiter m t with h' | ⟨hp, -, -⟩
    · rwa [h'] at hl
    · rw [hp]
      decide
  cancelled m t seq timed i hpc hc := by
    refine h.cancelled m t seq timed i hpc ?_
    rcases hs.waiter m t with h' | ⟨-, -, h'⟩
    · rwa [h'] at hc
    · rw [h'] at hc
      cases hc
  flight m := by
    obtain ⟨F, hF, hcard⟩ := h.flight m
    exact ⟨F, hF, (hs.thoseWaiting m).trans hcard⟩
  seq_le m t seq timed i hpc := by
    rw [hs.waiterSeq]
    exact h.seq_le m t seq timed i hpc
  stranger m t ht := by
    rw [hs.readerOwners, hs.owner]
    exact h.stranger m t ht

/-- The owners and counts may change, as long as no call in flight gets hold of
anything. -/
theorem books_move (h : WellFormed cls s pc) (hproxy : s'.proxy = s.proxy)
    (hb : Books cls s')
    (hst : ∀ m t, InFlight pc m t → s'.readerOwners.count (some t) = 0 ∧
      ¬ (cls.reentrant = true ∧ cls.owner s' = some t)) : WellFormed cls s' pc where
  books := hb
  nodup m := by
    rw [RWLock.queue, hproxy]
    exact h.nodup m
  queued m t := by
    rw [RWLock.queue, RWLock.waiter, hproxy]
    exact h.queued m t
  pending m t := by
    rw [RWLock.queue, RWLock.waiter, hproxy]
    exact h.pending m t
  live m t := by
    rw [RWLock.waiter, hproxy]
    exact h.live m t
  cancelled m t seq timed i := by
    rw [RWLock.waiter, hproxy]
    exact h.cancelled m t seq timed i
  flight m := by
    rw [hproxy]
    exact h.flight m
  seq_le m t seq timed i := by
    rw [hproxy]
    exact h.seq_le m t seq timed i
  stranger := hst

/-- A step of a caller that stays outside `acquire`'s slow path. -/
theorem goto (h : WellFormed cls s pc) (ht : ∀ m, ¬ InFlight pc m t)
    (hp : ∀ m seq timed i, p ≠ .waiting m seq timed i) :
    WellFormed cls s (Function.update pc t p) := by
  have hiff : ∀ m u, InFlight (Function.update pc t p) m u ↔ InFlight pc m u := by
    intro m u
    by_cases hu : u = t
    · subst hu
      exact iff_of_false (not_inFlight_update hp m) (ht m)
    · exact inFlight_update_of_ne p hu m
  have hpc : ∀ m u seq timed i, Function.update pc t p u = .waiting m seq timed i →
      pc u = .waiting m seq timed i := by
    intro m u seq timed i hw
    by_cases hu : u = t
    · subst hu
      rw [Function.update_self] at hw
      exact absurd hw (hp m seq timed i)
    · rwa [Function.update_of_ne hu] at hw
  refine ⟨h.books, h.nodup, h.queued, h.pending, fun m u hl => (hiff m u).2 (h.live m u hl),
    fun m u seq timed i hw => h.cancelled m u seq timed i (hpc m u seq timed i hw), fun m => ?_,
    fun m u seq timed i hw => h.seq_le m u seq timed i (hpc m u seq timed i hw),
    fun m u hu => h.stranger m u ((hiff m u).1 hu)⟩
  obtain ⟨F, hF, hcard⟩ := h.flight m
  exact ⟨F, fun u => (hF u).trans (hiff m u).symm, hcard⟩

/-- A call in flight, its waiter object gone, leaves the slow path. -/
theorem leave (h : WellFormed cls s pc) (ht : InFlight pc m t) (hg : s.waiter m t = .gone)
    (hp : ∀ m seq timed i, p ≠ .waiting m seq timed i) :
    WellFormed cls (s.stopWaiting m) (Function.update pc t p) := by
  have hne : ∀ m' u, InFlight (Function.update pc t p) m' u → u ≠ t ∧ InFlight pc m' u := by
    intro m' u hu
    have hut : u ≠ t := by
      rintro rfl
      exact not_inFlight_update hp m' hu
    exact ⟨hut, (inFlight_update_of_ne p hut m').1 hu⟩
  have hpc : ∀ m' u seq timed i, Function.update pc t p u = .waiting m' seq timed i →
      pc u = .waiting m' seq timed i := by
    intro m' u seq timed i hw
    have hut := (hne m' u ⟨seq, timed, i, hw⟩).1
    rwa [Function.update_of_ne hut] at hw
  refine ⟨h.books.onProxy .., by simpa using h.nodup, by simpa using h.queued,
    by simpa using h.pending, fun m' u hl => ?_, fun m' u seq timed i hw => ?_, fun m' => ?_,
    fun m' u seq timed i hw => ?_, fun m' u hu => h.stranger m' u (hne m' u hu).2⟩
  · rw [RWLock.waiter_stopWaiting] at hl
    have hu := h.live m' u hl
    refine (inFlight_update_of_ne p ?_ m').2 hu
    rintro rfl
    rw [hu.mode_eq ht] at hl
    exact hl hg
  · rw [RWLock.waiter_stopWaiting]
    exact h.cancelled m' u seq timed i (hpc m' u seq timed i hw)
  · obtain ⟨F, hF, hcard⟩ := h.flight m'
    rw [RWLock.thoseWaiting_stopWaiting]
    by_cases hm : m' = m
    · subst hm
      have htF := (hF t).2 ht
      refine ⟨F.erase t, fun u => ?_, ?_⟩
      · rw [Finset.mem_erase, hF]
        refine ⟨fun ⟨hut, hu⟩ => (inFlight_update_of_ne p hut m').2 hu, fun hu => hne m' u hu⟩
      · have hpos := Finset.card_pos.2 ⟨t, htF⟩
        rw [Finset.card_erase_of_mem htF, hcard, if_pos rfl]
        omega
    · refine ⟨F, fun u => ?_, by simpa [hm] using hcard⟩
      by_cases hut : u = t
      · subst hut
        exact iff_of_false (fun hu => hm (((hF u).1 hu).mode_eq ht)) (not_inFlight_update hp m')
      · rw [hF, inFlight_update_of_ne p hut m']
  · rw [RWLock.waiterSeq_stopWaiting]
    exact h.seq_le m' u seq timed i (hpc m' u seq timed i hw)

/-- A call registers. -/
theorem register (h : WellFormed cls s pc) (ht : ∀ m, ¬ InFlight pc m t)
    (hst : s.readerOwners.count (some t) = 0 ∧ ¬ (cls.reentrant = true ∧ cls.owner s = some t))
    (timed : Bool) :
    WellFormed cls (s.startWaiting m)
      (Function.update pc t (.waiting m ((s.proxy m).waiterSeq + 1) timed false)) := by
  refine ⟨h.books.onProxy .., by simpa using h.nodup, by simpa using h.queued,
    by simpa using h.pending, fun m' u hl => ?_, fun m' u seq timed' i hw hc => ?_, fun m' => ?_,
    fun m' u seq timed' i hw => ?_, fun m' u hu => ?_⟩
  · rw [RWLock.waiter_startWaiting] at hl
    have hu := h.live m' u hl
    refine (inFlight_update_of_ne _ ?_ m').2 hu
    rintro rfl
    exact ht m' hu
  · rw [RWLock.waiter_startWaiting] at hc
    have hu := h.live m' u (by rw [hc]; decide)
    have hut : u ≠ t := by
      rintro rfl
      exact ht m' hu
    rw [Function.update_of_ne hut] at hw
    exact h.cancelled m' u seq timed' i hw hc
  · obtain ⟨F, hF, hcard⟩ := h.flight m'
    rw [RWLock.thoseWaiting_startWaiting]
    have htF : t ∉ F := fun hm => ht m' ((hF t).1 hm)
    by_cases hm : m' = m
    · subst hm
      refine ⟨insert t F, fun u => ?_, ?_⟩
      · rw [Finset.mem_insert, hF]
        by_cases hut : u = t
        · subst hut
          exact iff_of_true (.inl rfl) (inFlight_update_waiting.2 rfl)
        · rw [inFlight_update_of_ne _ hut m', or_iff_right hut]
      · rw [Finset.card_insert_of_notMem htF, hcard, if_pos rfl]
        omega
    · refine ⟨F, fun u => ?_, by simpa [hm] using hcard⟩
      by_cases hut : u = t
      · subst hut
        exact iff_of_false htF (fun hu => hm (inFlight_update_waiting.1 hu))
      · rw [hF, inFlight_update_of_ne _ hut m']
  · rw [RWLock.waiterSeq_startWaiting]
    by_cases hut : u = t
    · subst hut
      rw [Function.update_self] at hw
      cases hw
      simp
    · rw [Function.update_of_ne hut] at hw
      have := h.seq_le m' u seq timed' i hw
      omega
  · by_cases hut : u = t
    · subst hut
      exact hst
    · exact h.stranger m' u ((inFlight_update_of_ne _ hut m').1 hu)

/-- The program counter of a call in flight gets new flags. -/
theorem reflag {seq : ℕ} {timed i j : Bool} (h : WellFormed cls s pc)
    (ht : pc t = .waiting m seq timed i) (hij : s.waiter m t = .cancelled → j = true) :
    WellFormed cls s (Function.update pc t (.waiting m seq timed j)) := by
  have hfl : InFlight pc m t := ⟨seq, timed, i, ht⟩
  have hiff : ∀ m' u, InFlight (Function.update pc t (.waiting m seq timed j)) m' u ↔
      InFlight pc m' u := by
    intro m' u
    by_cases hut : u = t
    · subst hut
      exact inFlight_update_waiting.trans ⟨fun hm => hm ▸ hfl, fun hm => hm.mode_eq hfl⟩
    · exact inFlight_update_of_ne _ hut m'
  refine ⟨h.books, h.nodup, h.queued, h.pending, fun m' u hl => (hiff m' u).2 (h.live m' u hl),
    fun m' u seq' timed' i' hw hc => ?_, fun m' => ?_, fun m' u seq' timed' i' hw => ?_,
    fun m' u hu => h.stranger m' u ((hiff m' u).1 hu)⟩
  · by_cases hut : u = t
    · subst hut
      rw [Function.update_self] at hw
      cases hw
      exact hij hc
    · rw [Function.update_of_ne hut] at hw
      exact h.cancelled m' u seq' timed' i' hw hc
  · obtain ⟨F, hF, hcard⟩ := h.flight m'
    exact ⟨F, fun u => (hF u).trans (hiff m' u).symm, hcard⟩
  · by_cases hut : u = t
    · subst hut
      rw [Function.update_self] at hw
      cases hw
      exact h.seq_le _ _ _ _ _ ht
    · rw [Function.update_of_ne hut] at hw
      exact h.seq_le m' u seq' timed' i' hw

/-- The waiter object of one call in flight changes, and its place in the queue
with it. -/
theorem requeue (h : WellFormed cls s pc) {f : WaitQueue τ → WaitQueue τ} (ht : InFlight pc m t)
    (hnd : (f (s.proxy m).condition).waiters.Nodup)
    (hmem : ∀ u, u ≠ t → (u ∈ (f (s.proxy m).condition).waiters ↔ u ∈ s.queue m))
    (hstate : ∀ u, u ≠ t → (f (s.proxy m).condition).state u = s.waiter m u)
    (hq : t ∈ (f (s.proxy m).condition).waiters →
      (f (s.proxy m).condition).state t = .pending ∨
        (f (s.proxy m).condition).state t = .cancelled)
    (hpd : (f (s.proxy m).condition).state t = .pending →
      t ∈ (f (s.proxy m).condition).waiters)
    (hc : ∀ seq timed i, pc t = .waiting m seq timed i →
      (f (s.proxy m).condition).state t = .cancelled → i = true) :
    WellFormed cls (s.onQueue m f) pc := by
  refine ⟨h.books.onProxy .., fun m' => ?_, fun m' u hu => ?_, fun m' u hu => ?_,
    fun m' u hu => ?_, fun m' u seq timed i hw hu => ?_, fun m' => ?_,
    fun m' u seq timed i hw => ?_, h.stranger⟩
  · rw [RWLock.queue_onQueue]
    split_ifs with hm
    · exact hnd
    · exact h.nodup m'
  · rw [RWLock.queue_onQueue] at hu
    rw [RWLock.waiter_onQueue]
    split_ifs at hu ⊢ with hm
    · subst hm
      by_cases hut : u = t
      · subst hut
        exact hq hu
      · rw [hstate u hut]
        exact h.queued _ u ((hmem u hut).1 hu)
    · exact h.queued m' u hu
  · rw [RWLock.waiter_onQueue] at hu
    rw [RWLock.queue_onQueue]
    split_ifs at hu ⊢ with hm
    · subst hm
      by_cases hut : u = t
      · subst hut
        exact hpd hu
      · exact (hmem u hut).2 (h.pending _ u (hstate u hut ▸ hu))
    · exact h.pending m' u hu
  · rw [RWLock.waiter_onQueue] at hu
    split_ifs at hu with hm
    · subst hm
      by_cases hut : u = t
      · subst hut
        exact ht
      · exact h.live _ u (hstate u hut ▸ hu)
    · exact h.live m' u hu
  · rw [RWLock.waiter_onQueue] at hu
    split_ifs at hu with hm
    · subst hm
      by_cases hut : u = t
      · subst hut
        exact hc seq timed i hw hu
      · exact h.cancelled _ u seq timed i hw (hstate u hut ▸ hu)
    · exact h.cancelled m' u seq timed i hw hu
  · rw [RWLock.thoseWaiting_onQueue]
    exact h.flight m'
  · rw [RWLock.waiterSeq_onQueue]
    exact h.seq_le m' u seq timed i hw

end WellFormed

end Rwlocker

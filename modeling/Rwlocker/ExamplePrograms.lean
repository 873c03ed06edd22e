/-
# Two of the examples

`examples/auth_token_manager.py` and `examples/transaction_ledger.py` as programs of `with`
blocks, and what their comments promise: of many tasks that find the token expired only one
fetches a new one, and a payment that downgrades reports the balance that it made.

What the outside world answers (the remote API, the amounts) is among the local variables of
a call, arbitrary from the start, and so is the identifier that `uuid4` draws.  `print` and
`sleep` are left out.  Balances and amounts are of any type with a sum and a comparison, as
floats are.
-/

import Mathlib.Algebra.Ring.Int.Defs
import Mathlib.Data.List.Infix
import Rwlocker.Serializable

namespace Rwlocker

/-- `pass` -/
def skip {L σ : Type} : Code L σ := .compute id

namespace AuthTokenManager

/-- `_token` and `_is_expired`, and what happened so far. -/
structure Data where
  token : ℕ
  isExpired : Bool := false
  /-- The requests that brought a token; one that fails is none. -/
  fetches : ℕ := 0
  invalidations : ℕ := 0
  /-- The invalidations up to the fetch of the token. -/
  fetchedAfter : ℕ := 0

/-- A call of a method. -/
structure Loc where
  /-- What the remote API answers, if it does. -/
  answer : Option ℕ
  isExpired : Bool := false
  result : Option ℕ := none
  /-- The invalidations up to the fetch of the result, and up to its return. -/
  fetchedAfter : ℕ := 0
  invalidations : ℕ := 0

/-- `if self._is_expired: a` and `else: b`. -/
def ifExpired (a b : Code Loc Data) : Code Loc Data :=
  .seq (.load fun l d => { l with isExpired := d.isExpired }) (.branch Loc.isExpired a b)

/-- `return self._token` -/
def returnToken : Code Loc Data :=
  .seq (.load fun l d => { l with
    result := some d.token, fetchedAfter := d.fetchedAfter, invalidations := d.invalidations })
    .ret

/-- The fetch, which may fail, and the two assignments. -/
def refresh : Code Loc Data :=
  .branch (fun l => l.answer.isSome)
    (.seq (.store fun l d => { d with
        token := l.answer.getD d.token, fetches := d.fetches + 1,
        fetchedAfter := d.invalidations })
      (.store fun _ d => { d with isExpired := false }))
    .raise

/-- `get_valid_token`: a look under the read lock, and another one under the write lock before
the request. -/
def getValidToken : Code Loc Data :=
  .seq (.withLock .read (ifExpired skip returnToken))
    (.withLock .write (.seq (ifExpired refresh skip) returnToken))

/-- `invalidate_token`. -/
def invalidateToken : Code Loc Data :=
  .withLock .write (.store fun _ d => { d with
    isExpired := true, invalidations := d.invalidations + 1 })

/-- An invalidation makes for one fetch; a token that is not expired was fetched after the
last invalidation, and so was every token when it was returned. -/
def Sound {τ : Type} (d : Data) (ls : τ → Loc) : Prop :=
  d.fetches + d.isExpired.toNat ≤ d.invalidations ∧
    (d.isExpired = false → d.fetchedAfter = d.invalidations) ∧
    ∀ t, (ls t).result ≠ none → (ls t).fetchedAfter = (ls t).invalidations

variable {τ : Type} [DecidableEq τ] {d : Data} {ls : τ → Loc} {t : τ}

/-- A call of `t` that keeps the counters and ends with a fresh result or none. -/
theorem sound_update {l : Loc} {d' : Data} (h : Sound d ls)
    (hcount : d'.fetches + d'.isExpired.toNat ≤ d'.invalidations)
    (hfresh : d'.isExpired = false → d'.fetchedAfter = d'.invalidations)
    (hres : l.result ≠ none → l.fetchedAfter = l.invalidations) :
    Sound d' (Function.update ls t l) := by
  refine ⟨hcount, hfresh, fun u hu => ?_⟩
  by_cases hut : u = t
  · subst hut
    rw [Function.update_self] at hu ⊢
    exact hres hu
  · rw [Function.update_of_ne hut] at hu ⊢
    exact h.2.2 u hu

/-- The fast path returns the token if it has not expired. -/
theorem readToken_keeps (re : Bool) :
    Atomic.Keeps re (Sound (τ := τ)) t (.withLock .read (ifExpired skip returnToken)) := by
  intro d ls h
  have ⟨hcount, hfresh, hres⟩ := h
  cases he : d.isExpired with
  | false =>
      refine ⟨_, by
        simp [exec, ifExpired, returnToken, Own.entry, Own.grant, Own.Free, he]
        rfl, ?_⟩
      exact sound_update h hcount hfresh fun _ => hfresh he
  | true =>
      refine ⟨_, by
        simp [exec, ifExpired, skip, Own.entry, Own.grant, Own.Free, he]
        rfl, ?_⟩
      exact sound_update h hcount hfresh (hres t)

/-- The slow path looks again, and fetches a token if it still has to. -/
theorem refreshToken_keeps (re : Bool) : Atomic.Keeps re (Sound (τ := τ)) t
    (.withLock .write (.seq (ifExpired refresh skip) returnToken)) := by
  intro d ls h
  have ⟨hcount, hfresh, hres⟩ := h
  cases he : d.isExpired with
  | false =>
      refine ⟨_, by
        simp [exec, ifExpired, skip, returnToken, Own.entry, Own.grant, Own.Free, he]
        rfl, ?_⟩
      exact sound_update h hcount hfresh fun _ => hfresh he
  | true =>
      cases ha : (ls t).answer with
      | none =>
          refine ⟨_, by
            simp [exec, ifExpired, refresh, Own.entry, Own.grant, Own.Free, he, ha]
            rfl, ?_⟩
          exact sound_update h hcount hfresh (hres t)
      | some token =>
          refine ⟨_, by
            simp [exec, ifExpired, refresh, returnToken, Own.entry, Own.grant, Own.Free, he, ha]
            rfl, ?_⟩
          simp only [he, Bool.toNat_true] at hcount
          exact sound_update h (by simpa using hcount) (fun _ => rfl) fun _ => rfl

/-- An invalidation keeps the counters. -/
theorem invalidateToken_keeps (re : Bool) :
    invalidateToken.All (Atomic.Keeps re (Sound (τ := τ)) t) := by
  intro d ls h
  have ⟨hcount, _, hres⟩ := h
  refine ⟨_, rfl, sound_update h ?_ (fun hno => by cases hno) (hres t)⟩
  show d.fetches + 1 ≤ d.invalidations + 1
  omega

/-- **Only one task fetches a new token.**  However many tasks ask for a token, and however
they are scheduled, fail and are cancelled: while nobody writes there were no more fetches
that brought a token than invalidations, one less if the token is expired; and whoever got a
token got one that was fetched after the last invalidation before its return.  A fetch that
fails leaves the token expired, and the next task makes another. -/
theorem one_fetch_per_invalidation {rt : Runtime} {cls : LockClass}
    {prog : τ → Code Loc Data} (hprog : ∀ t, prog t = getValidToken ∨ prog t = invalidateToken)
    {l : τ → Loc} (hl : ∀ t, (l t).result = none) {token : ℕ} {c : Client τ Loc Data}
    (h : Client.After rt cls prog l { token } c) :
    (∀ t, Client.Protected c t) ∧
    ((∀ t, (c.sys.own t).writes = 0) →
      c.data.fetches + c.data.isExpired.toNat ≤ c.data.invalidations) ∧
    ∀ t, (c.sys.own t).Free → (c.threads t).loc.result ≠ none →
      (c.threads t).loc.fetchedAfter = (c.threads t).loc.invalidations := by
  have hkeeps : ∀ t, (prog t).All (Atomic.Keeps cls.reentrant (Sound (τ := τ)) t) := by
    intro t
    rcases hprog t with hp | hp
    · rw [hp]
      exact ⟨readToken_keeps _, refreshToken_keeps _⟩
    · rw [hp]
      exact invalidateToken_keeps _
  have hinit : Sound { token } l := ⟨le_rfl, fun _ => rfl, fun t ht => absurd (hl t) ht⟩
  obtain ⟨s, hsound, hF, hprot⟩ := h.keeps hkeeps hinit
  refine ⟨hprot, fun hall => hF.data hall ▸ hsound.1, fun t hfree => ?_⟩
  have hloc : s.locs t = (c.threads t).loc := by
    rw [Atomic.locs, hF.outside t hfree, Thread.before_loc]
  exact hloc ▸ hsound.2.2 t

/-- A token is invalidated, two tasks find it expired, one of them fetches a new one. -/
theorem one_fetch_per_invalidation_two : ∃ c : Client (Fin 3) Loc Data,
    ((c.threads 1).loc.result = some 1 ∧ (c.threads 2).loc.result = some 1 ∧
      c.data.fetches = 1) ∧
    (∀ t, Client.Protected c t) ∧
    ((∀ t, (c.sys.own t).writes = 0) →
      c.data.fetches + c.data.isExpired.toNat ≤ c.data.invalidations) ∧
    ∀ t, (c.sys.own t).Free → (c.threads t).loc.result ≠ none →
      (c.threads t).loc.fetchedAfter = (c.threads t).loc.invalidations := by
  have hc := Client.after_of_replay (show Transition.replay (Client.step .async .write)
    (Client.start (fun t : Fin 3 => if t = 0 then invalidateToken else getValidToken)
      (fun t => { answer := some t.val }) { token := 7 })
    (.replicate 3 (.go 0) ++ .replicate 8 (.go 1) ++ .replicate 8 (.go 2) ++
      .replicate 2 (.go 1) ++ .replicate 2 (.go 2) ++ .replicate 16 (.go 1) ++
      .resume 2 :: .replicate 12 (.go 2)) = some _ from rfl)
  refine ⟨_, ⟨rfl, rfl, rfl⟩, one_fetch_per_invalidation (fun t => ?_) (fun _ => rfl) hc⟩
  split_ifs
  · exact .inr rfl
  · exact .inl rfl

end AuthTokenManager

namespace TransactionLedger

-- Of floats a sum and a comparison with zero are enough, without a law of arithmetic.
variable {α : Type} [Add α] [LT α] [Zero α] [DecidableLT α]

/-- `_balance` and `_audit_log`, with the amounts. -/
structure Data (α : Type) where
  balance : α
  auditLog : List (ℕ × α) := []

/-- A call of `process_payment`. -/
structure Loc (α : Type) where
  amount : α
  txId : ℕ
  /-- The balance that the test of the call has read. -/
  balance : α
  /-- The balance that `_dispatch_audit_event` reported. -/
  dispatched : Option α := none

/-- `write.acquire()` before a `try` with `write.release()` in its `finally` is a write
block. -/
def processPayment : Code (Loc α) (Data α) :=
  .withLock .write
    (.seq (.load fun l d => { l with balance := d.balance })
      (.seq (.branch (fun l => l.balance + l.amount < 0) .raise skip)
        (.seq (.store fun l d => { d with balance := d.balance + l.amount })
          (.seq (.store fun l d => { d with auditLog := d.auditLog ++ [(l.txId, l.amount)] })
            (.seq .downgrade
              (.load fun l d => { l with dispatched := some d.balance }))))))

/-- The balance after the payments in the log, one after the other: the order of the sums is
that of the log. -/
def total (initial : α) (log : List (ℕ × α)) : α := log.foldl (fun b p => b + p.2) initial

/-- The balance is what the log says, no payment in the log left it below zero, and every
report is the balance just after the payment that it reports. -/
structure Audited {τ : Type} (initial : α) (d : Data α) (ls : τ → Loc α) : Prop where
  balance : d.balance = total initial d.auditLog
  covered : ∀ log p, log ++ [p] <+: d.auditLog → ¬ total initial (log ++ [p]) < 0
  sent : ∀ t b, (ls t).dispatched = some b →
    ∃ log, log ++ [((ls t).txId, (ls t).amount)] <+: d.auditLog ∧
      b = total initial (log ++ [((ls t).txId, (ls t).amount)])

variable {τ : Type} [DecidableEq τ] {d : Data α} {ls : τ → Loc α} {t : τ} {initial : α}

omit [LT α] [Zero α] [DecidableLT α] in
/-- One payment more. -/
theorem total_append (log : List (ℕ × α)) (p : ℕ × α) :
    total initial (log ++ [p]) = total initial log + p.2 := by
  simp [total]

omit [DecidableLT α] in
/-- A call that raises leaves the data, and reports nothing. -/
theorem Audited.raised {l : Loc α} (h : Audited initial d ls) (htx : l.txId = (ls t).txId)
    (hamount : l.amount = (ls t).amount) (hsent : l.dispatched = (ls t).dispatched) :
    Audited initial d (Function.update ls t l) where
  balance := h.balance
  covered := h.covered
  sent u b hb := by
    by_cases hut : u = t
    · subst hut
      rw [Function.update_self] at hb ⊢
      rw [htx, hamount]
      exact h.sent u b (hsent ▸ hb)
    · rw [Function.update_of_ne hut] at hb ⊢
      exact h.sent u b hb

omit [DecidableLT α] in
/-- A payment goes through, and reports the balance that it made. -/
theorem Audited.pays {l : Loc α} (h : Audited initial d ls)
    (hcovered : ¬ d.balance + l.amount < 0)
    (hsent : l.dispatched = some (d.balance + l.amount)) :
    Audited initial
      { balance := d.balance + l.amount, auditLog := d.auditLog ++ [(l.txId, l.amount)] }
      (Function.update ls t l) := by
  have htotal : total initial (d.auditLog ++ [(l.txId, l.amount)]) = d.balance + l.amount := by
    rw [total_append, ← h.balance]
  refine ⟨htotal.symm, fun log p hpre => ?_, fun u b hb => ?_⟩
  · rcases List.prefix_concat_iff.1 hpre with heq | hpre
    · rw [heq, htotal]
      exact hcovered
    · exact h.covered log p hpre
  · by_cases hut : u = t
    · subst hut
      rw [Function.update_self] at hb ⊢
      obtain rfl := Option.some.inj (hsent.symm.trans hb)
      exact ⟨d.auditLog, List.prefix_refl _, htotal.symm⟩
    · rw [Function.update_of_ne hut] at hb ⊢
      obtain ⟨log, hpre, hb⟩ := h.sent u b hb
      exact ⟨log, hpre.trans (List.prefix_append _ _), hb⟩

/-- A call, run alone, keeps the log and the reports. -/
theorem processPayment_keeps (re : Bool) :
    processPayment.All (Atomic.Keeps re (Audited (τ := τ) initial) t) := by
  intro d ls h
  by_cases hlow : d.balance + (ls t).amount < 0
  · have hrun : exec re processPayment {} (ls t) d =
        some ⟨.raised, {}, { ls t with balance := d.balance }, d⟩ := by
      simp [processPayment, exec, Own.entry, Own.grant, Own.giveBack, Own.Free, hlow]
    exact ⟨_, hrun, h.raised rfl rfl rfl⟩
  · let l : Loc α :=
      { ls t with balance := d.balance, dispatched := some (d.balance + (ls t).amount) }
    have hrun : exec re processPayment {} (ls t) d = some ⟨.normal, {}, l,
        { balance := d.balance + l.amount,
          auditLog := d.auditLog ++ [(l.txId, l.amount)] }⟩ := by
      simp [l, processPayment, exec, skip, Own.entry, Own.grant, Own.giveBack, Own.Free,
        Own.downgrade, hlow]
    exact ⟨_, hrun, h.pays (l := l) hlow rfl⟩

/-- **A payment reports the balance that it made.**  Whatever payments run at the same time:
while nobody writes the balance is the initial one with the logged amounts added in the order
of the log, no logged payment left it below zero, and every report that was dispatched is the
balance just after its own payment, which the log has. -/
theorem reports_own_balance {rt : Runtime} {cls : LockClass} {l : τ → Loc α}
    (hl : ∀ t, (l t).dispatched = none) {c : Client τ (Loc α) (Data α)}
    (h : Client.After rt cls (fun _ => processPayment) l { balance := initial } c) :
    (∀ t, Client.Protected c t) ∧
    ((∀ t, (c.sys.own t).writes = 0) →
      c.data.balance = total initial c.data.auditLog ∧
      (∀ log p, log ++ [p] <+: c.data.auditLog → ¬ total initial (log ++ [p]) < 0) ∧
      ∀ t b, (c.sys.own t).Free → (c.threads t).loc.dispatched = some b →
        ∃ log, log ++ [((c.threads t).loc.txId, (c.threads t).loc.amount)] <+: c.data.auditLog ∧
          b = total initial (log ++ [((c.threads t).loc.txId, (c.threads t).loc.amount)])) := by
  have hinit : Audited initial { balance := initial } l :=
    ⟨rfl, fun log p hpre => absurd (List.prefix_nil.1 hpre) (by simp),
      fun t b hb => by cases (hl t).symm.trans hb⟩
  obtain ⟨s, haudit, hF, hprot⟩ := h.keeps (fun t => processPayment_keeps _) hinit
  refine ⟨hprot, fun hall => ?_⟩
  rw [hF.data hall] at haudit
  refine ⟨haudit.balance, haudit.covered, fun t b hfree hb => ?_⟩
  have hloc : s.locs t = (c.threads t).loc := by
    rw [Atomic.locs, hF.outside t hfree, Thread.before_loc]
  exact hloc ▸ haudit.sent t b (hloc ▸ hb)

/-- The first of two payments has reported, the second one has not begun. -/
theorem reports_own_balance_first : ∃ c : Client (Fin 2) (Loc ℤ) (Data ℤ),
    ((c.threads 0).loc.dispatched = some 1500 ∧ InFlight c.sys.pc .write 1) ∧
    (∀ t, Client.Protected c t) ∧
    ((∀ t, (c.sys.own t).writes = 0) →
      c.data.balance = total 1000 c.data.auditLog ∧
      (∀ log p, log ++ [p] <+: c.data.auditLog → ¬ total 1000 (log ++ [p]) < 0) ∧
      ∀ t b, (c.sys.own t).Free → (c.threads t).loc.dispatched = some b →
        ∃ log, log ++ [((c.threads t).loc.txId, (c.threads t).loc.amount)] <+: c.data.auditLog ∧
          b = total 1000 (log ++ [((c.threads t).loc.txId, (c.threads t).loc.amount)])) := by
  have hc := Client.after_of_replay (show Transition.replay
    (Client.step .thread .writeReentrantWriter)
    (Client.start (fun _ : Fin 2 => processPayment)
      (fun t => { amount := if t = 0 then 500 else -200, txId := t.val, balance := 0 })
      { balance := 1000 })
    (.go 0 :: .clear 0 :: .replicate 14 (.go 0) ++ .go 1 :: .replicate 4 (.go 0)) =
      some _ from rfl)
  exact ⟨_, ⟨rfl, 1, false, false, rfl⟩, reports_own_balance (fun _ => rfl) hc⟩

end TransactionLedger

end Rwlocker

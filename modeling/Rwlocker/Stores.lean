/-
# Two stores of the examples

`examples/in_memory_cache.py` and `examples/telemetry_dispatcher.py` keep a dictionary that
some threads or tasks update in a write block and others look at in a read block.

Both are linearizable: the order in which the updates were made explains everything.  The
store is what they come to (`Linear`), a look saw what some beginning of them comes to, all
updates of its own thread included, and never less than an earlier look; and what one thread
has finished, every look and every update that begins later comes after
(`InMemoryCache.linearizable`, `TelemetryDispatcher.broadcasts_one_state`).

`time.sleep`, `asyncio.sleep` and the sending of a broadcast stand outside the blocks and are
left out.  Nothing looks into the values that are stored.
-/

import Mathlib.Data.List.Basic
import Rwlocker.ExamplePrograms

namespace Rwlocker

/-! ### Statements inside and outside blocks -/

section Each

variable {L σ τ : Type} {p : Code L σ → Prop} {th th' : Thread L σ} {d d' : σ}

/-- Every statement of the code, those inside its blocks included, satisfies `p`. -/
def Code.Each (p : Code L σ → Prop) : Code L σ → Prop
  | .seq a b | .branch _ a b | .attempt a b => a.Each p ∧ b.Each p
  | .withLock _ a => a.Each p
  | a => p a

/-- Every statement that a thread may still come to satisfies `p`. -/
def Thread.Each (p : Code L σ → Prop) (th : Thread L σ) : Prop :=
  (match th.ctl with
    | .run a | .entering _ a => a.Each p
    | .ended _ => True) ∧
  ∀ f ∈ th.stack, match f with
    | .next b | .handler b => b.Each p
    | .exit _ => True

/-- A silent step leaves a statement of the same kind. -/
theorem Silent.each (hs : Silent th d th' d') (h : th.Each p) : th'.Each p := by
  obtain ⟨hctl, hst⟩ := h
  cases hs with
  | compute | load | store | raise | ret => exact ⟨trivial, hst⟩
  | seq | attempt => exact ⟨hctl.1, List.forall_mem_cons.2 ⟨hctl.2, hst⟩⟩
  | @branch p' a b st l =>
      refine ⟨?_, hst⟩
      by_cases hp : p' l = true
      · simpa only [if_pos hp] using hctl.1
      · simpa only [if_neg hp] using hctl.2
  | @next s b st l | @handler s b st l =>
      obtain ⟨hb, hst⟩ := List.forall_mem_cons.1 hst
      refine ⟨?_, hst⟩
      dsimp only
      split_ifs
      · exact hb
      · trivial

/-- So does a call on the lock. -/
theorem Invokes.each {t : τ} {a : Action τ} {k : Outcome → Thread L σ}
    (hk : Invokes t th a k) (h : th.Each p) (o : Outcome) : (k o).Each p := by
  obtain ⟨hctl, hst⟩ := h
  cases hk with
  | enter | resume =>
      cases o with
      | acquired => exact ⟨hctl, List.forall_mem_cons.2 ⟨trivial, hst⟩⟩
      | parked => exact ⟨hctl, hst⟩
      | _ => exact ⟨trivial, hst⟩
  | downgrade => exact ⟨trivial, hst⟩
  | exit => exact ⟨trivial, (List.forall_mem_cons.1 hst).2⟩
  | clear | interrupt => exact ⟨hctl, hst⟩

/-- A call on the lock leaves the local variables. -/
theorem Invokes.loc {t : τ} {a : Action τ} {k : Outcome → Thread L σ}
    (hk : Invokes t th a k) (o : Outcome) : (k o).loc = th.loc := by
  cases hk with
  | enter | resume => cases o <;> rfl
  | _ => rfl

end Each

namespace Store

/-- What can be done with a store `σ`: updates `U`, and looks `Q` with their results `R`. -/
structure Api (σ U Q R : Type) where
  apply : U → σ → σ
  answer : Q → σ → R

/-- A call of a method. -/
inductive Call (U Q : Type)
  | update (u : U)
  | look (q : Q)

/-- A store, with the updates so far and who made them. -/
structure Data (τ σ U : Type) where
  state : σ
  log : List (τ × U) := []

/-- A look, with the updates before it, in all and of its own thread. -/
structure Look (Q R : Type) where
  query : Q
  result : R
  seen : ℕ
  own : ℕ

/-- What a thread has done so far. -/
structure Loc (τ U Q R : Type) where
  me : τ
  updates : List U := []
  looks : List (Look Q R) := []

variable {τ σ U Q R : Type}

/-- A write block with an update, or a read block with a look. -/
def Call.code (api : Api σ U Q R) : Call U Q → Code (Loc τ U Q R) (Data τ σ U)
  | .update u => .withLock .write
      (.seq (.store fun l d => { state := api.apply u d.state, log := d.log ++ [(l.me, u)] })
        (.compute fun l => { l with updates := l.updates ++ [u] }))
  | .look q => .withLock .read (.load fun l d => { l with
      looks := l.looks ++ [⟨q, api.answer q d.state, d.log.length, l.updates.length⟩] })

/-- One call after the other. -/
def program (api : Api σ U Q R) (calls : List (Call U Q)) : Code (Loc τ U Q R) (Data τ σ U) :=
  calls.foldr (fun call rest => .seq (call.code api) rest) skip

/-- What updates come to. -/
def replay (api : Api σ U Q R) (init : σ) (log : List (τ × U)) : σ :=
  log.foldl (fun s u => api.apply u.2 s) init

/-- The updates of `t`. -/
def updatesOf [DecidableEq τ] (t : τ) (log : List (τ × U)) : List U :=
  (log.filter fun u => u.1 = t).map Prod.snd

variable [DecidableEq τ] {api : Api σ U Q R} {init : σ} {log : List (τ × U)} {t : τ} {u : U}
  {d : Data τ σ U} {ls : τ → Loc τ U Q R}

/-- The look is of a beginning of the log. -/
structure Explains (api : Api σ U Q R) (init : σ) (log : List (τ × U)) (t : τ)
    (updates : List U) (v : Look Q R) : Prop where
  seen : v.seen ≤ log.length
  own : v.own ≤ updates.length
  result : v.result = api.answer v.query (replay api init (log.take v.seen))
  mine : updatesOf t (log.take v.seen) = updates.take v.own

/-- The log explains what `t` has done. -/
structure Account (api : Api σ U Q R) (init : σ) (log : List (τ × U)) (t : τ)
    (l : Loc τ U Q R) : Prop where
  updates : updatesOf t log = l.updates
  looks : ∀ v ∈ l.looks, Explains api init log t l.updates v
  ordered : l.looks.Pairwise fun v w => v.seen ≤ w.seen

/-- The log explains the store and what everybody has done. -/
structure Linear (api : Api σ U Q R) (init : σ) (d : Data τ σ U) (ls : τ → Loc τ U Q R) :
    Prop where
  state : d.state = replay api init d.log
  me : ∀ t, (ls t).me = t
  accounts : ∀ t, Account api init d.log t (ls t)

omit [DecidableEq τ] in
/-- Replaying a log with one more update. -/
theorem replay_append (v : τ × U) :
    replay api init (log ++ [v]) = api.apply v.2 (replay api init log) := by
  simp [replay]

/-- The updates of a caller, with one more. -/
theorem updatesOf_append (t : τ) (v : τ × U) :
    updatesOf t (log ++ [v]) = updatesOf t log ++ if v.1 = t then [v.2] else [] := by
  unfold updatesOf
  split_ifs with h <;> simp [h]

/-- Later updates leave a look as it is. -/
theorem Explains.append {updates : List U} {v : Look Q R}
    (h : Explains api init log t updates v) (w : τ × U) (more : List U) :
    Explains api init (log ++ [w]) t (updates ++ more) v where
  seen := h.seen.trans (by simp)
  own := h.own.trans (by simp)
  result := by rw [List.take_append_of_le_length h.seen, h.result]
  mine := by
    rw [List.take_append_of_le_length h.seen, List.take_append_of_le_length h.own, h.mine]

/-- An account stays true when the log grows. -/
theorem Account.update {l : Loc τ U Q R} (h : Account api init log t l) (w : τ × U) :
    Account api init (log ++ [w]) t
      { l with updates := l.updates ++ if w.1 = t then [w.2] else [] } where
  updates := by rw [updatesOf_append, h.updates]
  looks v hv := (h.looks v hv).append w _
  ordered := h.ordered

/-- A look finds the updates that were made. -/
theorem Account.look {l : Loc τ U Q R} (h : Account api init log t l) (q : Q) :
    Account api init log t { l with looks := l.looks ++
      [⟨q, api.answer q (replay api init log), log.length, l.updates.length⟩] } where
  updates := h.updates
  looks v hv := by
    rcases List.mem_append.1 hv with hv | hv
    · exact h.looks v hv
    · obtain rfl := List.mem_singleton.1 hv
      exact ⟨le_rfl, le_rfl, by rw [List.take_length],
        by rw [List.take_length, List.take_length, h.updates]⟩
  ordered := by
    refine List.pairwise_append.2 ⟨h.ordered, List.pairwise_singleton .., fun v hv w hw => ?_⟩
    obtain rfl := List.mem_singleton.1 hw
    exact (h.looks v hv).seen

/-- Whoever makes an update leaves the others' accounts as they are. -/
theorem Linear.update (h : Linear api init d ls) (t : τ) (u : U) :
    Linear api init { state := api.apply u d.state, log := d.log ++ [((ls t).me, u)] }
      (Function.update ls t { ls t with updates := (ls t).updates ++ [u] }) where
  state := by rw [replay_append, h.state]
  me v := by
    by_cases hv : v = t
    · rw [hv, Function.update_self]
      exact h.me t
    · rw [Function.update_of_ne hv]
      exact h.me v
  accounts v := by
    have hacc := (h.accounts v).update ((ls t).me, u)
    rw [h.me t] at hacc ⊢
    by_cases hv : v = t
    · subst hv
      rw [Function.update_self]
      simpa using hacc
    · rw [Function.update_of_ne hv]
      simpa [Ne.symm hv] using hacc

/-- A look, answered from the log. -/
theorem Linear.look (h : Linear api init d ls) (t : τ) (q : Q) :
    Linear api init d (Function.update ls t { ls t with looks := (ls t).looks ++
      [⟨q, api.answer q d.state, d.log.length, (ls t).updates.length⟩] }) where
  state := h.state
  me v := by
    by_cases hv : v = t
    · rw [hv, Function.update_self]
      exact h.me t
    · rw [Function.update_of_ne hv]
      exact h.me v
  accounts v := by
    by_cases hv : v = t
    · subst hv
      rw [Function.update_self, h.state]
      exact (h.accounts v).look q
    · rw [Function.update_of_ne hv]
      exact h.accounts v

/-- Each call, run alone, keeps the log and the accounts. -/
theorem call_keeps (re : Bool) (call : Call U Q) :
    (call.code api).All (Atomic.Keeps re (Linear (τ := τ) api init) t) := by
  cases call with
  | update u =>
      intro d ls h
      refine ⟨_, by
        simp [Call.code, exec, Own.entry, Own.grant]
        rfl, h.update t u⟩
  | look q =>
      intro d ls h
      refine ⟨_, by
        simp [Call.code, exec, Own.entry, Own.grant, Own.Free]
        rfl, h.look t q⟩

/-- So does a program of calls. -/
theorem program_keeps (re : Bool) (calls : List (Call U Q)) :
    (program api calls).All (Atomic.Keeps re (Linear (τ := τ) api init) t) := by
  induction calls with
  | nil => exact fun d ls h => ⟨_, rfl, by simpa using h⟩
  | cons call calls ih => exact ⟨call_keeps re call, ih⟩

/-! ### Real time -/

/-- What a statement may do to the log and the looks: it appends. -/
def Appends : Code (Loc τ U Q R) (Data τ σ U) → Prop
  | .compute f => ∀ l, (f l).looks = l.looks
  | .load f => ∀ l d, ∃ v : Look Q R, v.seen = d.log.length ∧ (f l d).looks = l.looks ++ [v]
  | .store f => ∀ l d, d.log <+: (f l d).log
  | _ => True

/-- The log of `d'` continues the log of `d`, and the looks of `l'` since `l` saw all of the
log of `d`. -/
structure Continues (d : Data τ σ U) (l : Loc τ U Q R) (d' : Data τ σ U) (l' : Loc τ U Q R) :
    Prop where
  log : d.log <+: d'.log
  looks : ∃ more, l'.looks = l.looks ++ more ∧ ∀ v ∈ more, d.log.length ≤ v.seen

omit [DecidableEq τ] in
/-- Nothing happens. -/
theorem Continues.refl (d : Data τ σ U) (l : Loc τ U Q R) : Continues d l d l :=
  ⟨List.prefix_refl _, [], by simp⟩

omit [DecidableEq τ] in
/-- A run goes on, and on again. -/
theorem Continues.trans {d' d'' : Data τ σ U} {l l' l'' : Loc τ U Q R}
    (h : Continues d l d' l') (h' : Continues d' l' d'' l'') : Continues d l d'' l'' := by
  obtain ⟨more, hl, hmore⟩ := h.looks
  obtain ⟨more', hl', hmore'⟩ := h'.looks
  refine ⟨h.log.trans h'.log, more ++ more', by rw [hl', hl, List.append_assoc], fun v hv => ?_⟩
  rcases List.mem_append.1 hv with hv | hv
  · exact hmore v hv
  · exact h.log.length_le.trans (hmore' v hv)

omit [DecidableEq τ] in
/-- A silent step appends to the log. -/
theorem continues_of_silent {th th' : Thread (Loc τ U Q R) (Data τ σ U)} {d d' : Data τ σ U}
    (hs : Silent th d th' d') (h : th.Each Appends) : Continues d th.loc d' th'.loc := by
  cases hs with
  | @compute f st l d => exact ⟨List.prefix_refl _, [], by simpa using h.1 l, by simp⟩
  | @load f st l d =>
      obtain ⟨v, hv, hl⟩ := h.1 l d
      exact ⟨List.prefix_refl _, [v], hl, by simp [hv]⟩
  | @store f st l d => exact ⟨h.1 l d, [], by simp⟩
  | _ => exact .refl _ _

omit [DecidableEq τ] in
theorem program_appends (api : Api σ U Q R) (calls : List (Call U Q)) :
    (program (τ := τ) api calls).Each Appends := by
  induction calls with
  | nil => exact fun l => rfl
  | cons call calls ih =>
      refine ⟨?_, ih⟩
      cases call with
      | update u => exact ⟨fun l d => List.prefix_append _ _, fun l => rfl⟩
      | look q => exact fun l d => ⟨_, rfl, rfl⟩

variable {rt : Runtime} {cls : LockClass} {c c' : Client τ (Loc τ U Q R) (Data τ σ U)}

/-- So does every step of a client. -/
theorem continues_of_does (hd : Client.Does rt cls c t c')
    (h : ∀ u, (c.threads u).Each Appends) :
    (∀ u, (c'.threads u).Each Appends) ∧
      ∀ u, Continues c.data (c.threads u).loc c'.data (c'.threads u).loc := by
  cases hd with
  | @silent th d hpc hs =>
      have hcont := continues_of_silent hs (h t)
      refine ⟨fun u => ?_, fun u => ?_⟩
      · by_cases hut : u = t
        · subst hut
          simpa [Client.put] using hs.each (h u)
        · simpa [Client.put, hut] using h u
      · by_cases hut : u = t
        · subst hut
          simpa [Client.put] using hcont
        · simpa [Client.put, hut] using ⟨hcont.log, [], by simp⟩
  | @calls a k o s hk hst =>
      refine ⟨fun u => ?_, fun u => ?_⟩
      · by_cases hut : u = t
        · subst hut
          simpa [Client.put] using hk.each (h u) o
        · simpa [Client.put, hut] using h u
      · by_cases hut : u = t
        · subst hut
          simpa [Client.put, hk.loc] using Continues.refl c.data _
        · simpa [Client.put, hut] using Continues.refl c.data _

/-- The log of a run, and the looks made in it. -/
theorem continues_of_run {es : List (Event τ)}
    (hrun : Transition.Run (Client.Step rt cls) c es c')
    (h : ∀ u, (c.threads u).Each Appends) (t : τ) :
    Continues c.data (c.threads t).loc c'.data (c'.threads t).loc :=
  (hrun.invariant (I := fun x => (∀ u, (x.threads u).Each Appends) ∧
      ∀ u, Continues c.data (c.threads u).loc x.data (x.threads u).loc)
    (fun x e x' hx hst => by
      obtain ⟨heach, hcont⟩ := continues_of_does (Client.step_does hst) hx.1
      exact ⟨heach, fun u => (hx.2 u).trans (hcont u)⟩)
    ⟨h, fun u => .refl _ _⟩).2 t

/-- The log explains the store and whoever is outside, whenever nobody writes, and it keeps to
real time. -/
structure Linearizes (rt : Runtime) (cls : LockClass) (api : Api σ U Q R) (init : σ)
    (c : Client τ (Loc τ U Q R) (Data τ σ U)) : Prop where
  isProtected : ∀ t, Client.Protected c t
  state : (∀ t, (c.sys.own t).writes = 0) → c.data.state = replay api init c.data.log
  account : (∀ t, (c.sys.own t).writes = 0) → ∀ t, (c.sys.own t).Free →
    Account api init c.data.log t (c.threads t).loc
  realTime : ∀ es c', Transition.Run (Client.Step rt cls) c es c' → ∀ t,
    Continues c.data (c.threads t).loc c'.data (c'.threads t).loc

/-- **A store guarded by the lock is linearizable.** -/
theorem linearizes {calls : τ → List (Call U Q)}
    (h : Client.After rt cls (fun t => program api (calls t)) (fun t => { me := t })
      { state := init } c) : Linearizes rt cls api init c := by
  have heach : ∀ u, (c.threads u).Each Appends := by
    refine Transition.Reachable.invariant (I := fun x => ∀ u, (x.threads u).Each Appends)
      ?_ (fun x e x' hx hst => (continues_of_does (Client.step_does hst) hx).1) h
    rintro x rfl u
    exact ⟨program_appends api (calls u), by simp [Client.start]⟩
  have hinit : Linear api init { state := init } fun t : τ => ({ me := t } : Loc τ U Q R) :=
    ⟨rfl, fun _ => rfl, fun _ => ⟨rfl, by simp, .nil⟩⟩
  obtain ⟨s, hlin, hF, hprot⟩ := h.keeps (fun t => program_keeps _ (calls t)) hinit
  refine ⟨hprot, fun hall => hF.data hall ▸ hlin.state, fun hall t hfree => ?_,
    fun es c' hrun => continues_of_run hrun heach⟩
  have hloc : s.locs t = (c.threads t).loc := by
    rw [Atomic.locs, hF.outside t hfree, Thread.before_loc]
  exact hloc ▸ hF.data hall ▸ hlin.accounts t

end Store

namespace InMemoryCache

open Store

variable {τ K V : Type} [DecidableEq τ] [DecidableEq K]

/-- `_cache` -/
abbrev Cache (K V : Type) := K → Option V

/-- A cache: `set` writes one key, `get` reads one. -/
def api : Api (Cache K V) (K × V) K (Option V) where
  apply u d := Function.update d u.1 (some u.2)
  answer k d := d k

/-- `get`. -/
def get (key : K) : Call (K × V) K := .look key

/-- `set`. -/
def set (key : K) (value : V) : Call (K × V) K := .update (key, value)

/-- What the last `set` of `key` stored. -/
def lastSet (key : K) (log : List (τ × K × V)) : Option V :=
  (log.reverse.find? fun u => u.2.1 = key).map fun u => u.2.2

omit [DecidableEq τ] in
/-- The cache after the sets of the log holds the last of each key. -/
theorem replay_eq_lastSet (key : K) (log : List (τ × K × V)) :
    replay api (fun _ => none) log key = lastSet key log := by
  induction log using List.reverseRecOn with
  | nil => rfl
  | append_singleton log u ih =>
      rw [replay_append]
      by_cases hk : u.2.1 = key
      · simp [api, lastSet, hk]
      · simpa [api, lastSet, hk, Function.update_of_ne (Ne.symm hk)] using ih

/-- **The cache is linearizable.**  Every `get` returns what the last `set` of its key before
it stored, in one order of all of them that keeps to real time. -/
theorem linearizable {rt : Runtime} {cls : LockClass} {calls : τ → List (Call (K × V) K)}
    {c : Client τ (Loc τ (K × V) K (Option V)) (Data τ (Cache K V) (K × V))}
    (h : Client.After rt cls (fun t => program api (calls t)) (fun t => { me := t })
      { state := fun _ => none } c) :
    Linearizes rt cls api (fun _ => none) c ∧
    ((∀ t, (c.sys.own t).writes = 0) →
      (∀ key, c.data.state key = lastSet key c.data.log) ∧
      ∀ t, (c.sys.own t).Free → ∀ v ∈ (c.threads t).loc.looks,
        v.result = lastSet v.query (c.data.log.take v.seen)) := by
  have hlin := linearizes h
  refine ⟨hlin, fun hall => ⟨fun key => ?_, fun t hfree v hv => ?_⟩⟩
  · rw [hlin.state hall, replay_eq_lastSet]
  · rw [((hlin.account hall t hfree).looks v hv).result]
    exact replay_eq_lastSet ..

/-- A key is looked up before it is set, and by somebody who waits for that. -/
theorem linearizable_wait :
    ∃ c : Client (Fin 2) (Loc (Fin 2) (ℕ × ℕ) ℕ (Option ℕ)) (Data (Fin 2) (Cache ℕ ℕ) (ℕ × ℕ)),
    ((c.threads 1).loc.looks.map Look.result = [none, some 7] ∧ c.data.state 0 = some 7) ∧
    Linearizes .thread .read api (fun _ => none) c ∧
    ((∀ t, (c.sys.own t).writes = 0) →
      (∀ key, c.data.state key = lastSet key c.data.log) ∧
      ∀ t, (c.sys.own t).Free → ∀ v ∈ (c.threads t).loc.looks,
        v.result = lastSet v.query (c.data.log.take v.seen)) := by
  have hc := Client.after_of_replay (show Transition.replay (Client.step .thread .read)
    (Client.start
      (fun t : Fin 2 => program api (if t = 0 then [set 0 7, get 0] else [get 0, get 0]))
      (fun t => { me := t }) { state := fun _ => none })
    (.replicate 4 (.go 1) ++ [.go 0, .go 0, .clear 0] ++ .replicate 3 (.go 0) ++
      .replicate 3 (.go 1) ++ [.go 0, .go 0, .resume 1, .go 1, .go 1]) = some _ from rfl)
  exact ⟨_, ⟨rfl, rfl⟩, linearizable hc⟩

end InMemoryCache

namespace TelemetryDispatcher

open Store

variable {τ K V : Type} [DecidableEq τ]

/-- `_state` -/
abbrev State (K V : Type) := K → Option V

/-- The dispatcher: an ingest overwrites the keys it has, a broadcast reads them all. -/
def api : Api (State K V) (K → Option V) Unit (State K V) where
  apply newData d := fun key => (newData key).or (d key)
  answer _ d := d

/-- `ingest_sensor_data`. -/
def ingestSensorData (newData : K → Option V) : Call (K → Option V) Unit := .update newData

/-- `broadcast_to_clients`. -/
def broadcastToClients : Call (K → Option V) Unit := .look ()

/-- The newest reading of `key`. -/
def newest (init : State K V) (log : List (τ × (K → Option V))) (key : K) : Option V :=
  (log.reverse.findSome? fun u => u.2 key).or (init key)

omit [DecidableEq τ] in
/-- The state after the ingests of the log holds the newest readings. -/
theorem replay_eq_newest (init : State K V) (log : List (τ × (K → Option V))) :
    replay api init log = newest init log := by
  funext key
  induction log using List.reverseRecOn with
  | nil => rfl
  | append_singleton log u ih =>
      rw [replay_append]
      cases hk : u.2 key with
      | none => simpa [api, newest, hk] using ih
      | some v => simp [api, newest, hk]

/-- **A broadcast is one state.**  Every copy that a client sends has for each key the newest
reading, all of them after the same data, in one order that keeps to real time. -/
theorem broadcasts_one_state {rt : Runtime} {cls : LockClass}
    {calls : τ → List (Call (K → Option V) Unit)} {init : State K V}
    {c : Client τ (Loc τ (K → Option V) Unit (State K V)) (Data τ (State K V) (K → Option V))}
    (h : Client.After rt cls (fun t => program api (calls t)) (fun t => { me := t })
      { state := init } c) :
    Linearizes rt cls api init c ∧
    ((∀ t, (c.sys.own t).writes = 0) →
      c.data.state = newest init c.data.log ∧
      ∀ t, (c.sys.own t).Free → ∀ v ∈ (c.threads t).loc.looks,
        v.result = newest init (c.data.log.take v.seen)) := by
  have hlin := linearizes h
  refine ⟨hlin, fun hall => ⟨?_, fun t hfree v hv => ?_⟩⟩
  · rw [hlin.state hall, replay_eq_newest]
  · rw [((hlin.account hall t hfree).looks v hv).result, replay_eq_newest]
    rfl

/-- Data arrives between two broadcasts. -/
theorem broadcasts_one_state_between :
    ∃ c : Client (Fin 2) (Loc (Fin 2) (Bool → Option ℕ) Unit (State Bool ℕ))
      (Data (Fin 2) (State Bool ℕ) (Bool → Option ℕ)),
    ((c.threads 1).loc.looks.map (fun v => (v.result true, v.result false)) =
      [(some 0, some 0), (some 0, some 5)]) ∧
    Linearizes .async .fair api (fun _ => some 0) c ∧
    ((∀ t, (c.sys.own t).writes = 0) →
      c.data.state = newest (fun _ => some 0) c.data.log ∧
      ∀ t, (c.sys.own t).Free → ∀ v ∈ (c.threads t).loc.looks,
        v.result = newest (fun _ => some 0) (c.data.log.take v.seen)) := by
  have hc := Client.after_of_replay (show Transition.replay (Client.step .async .fair)
    (Client.start
      (fun t : Fin 2 => program api (if t = 0
        then [ingestSensorData fun key : Bool => if key then none else some 5]
        else [broadcastToClients, broadcastToClients]))
      (fun t => { me := t }) { state := fun _ => some 0 })
    (.replicate 5 (.go 1) ++ .replicate 8 (.go 0) ++ .replicate 5 (.go 1)) = some _ from rfl)
  exact ⟨_, rfl, broadcasts_one_state hc⟩

end TelemetryDispatcher

end Rwlocker

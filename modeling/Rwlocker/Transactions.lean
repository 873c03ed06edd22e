/-
# Blocks as transactions

What a program of `with` blocks means to who wrote it: a block runs from its `__enter__` to
its `__exit__` as if nobody else were there.

`exec` runs a piece of code alone, for a caller that holds what `Own` says.  It goes wrong
(`none`) where the lock does not protect the caller: a read of the data without a hold, an
update without the write lock, and a wait of a plain lock's owner for itself.  `finish` runs
the rest of a block, from any point inside it.

`Atomic` is the machine in which every statement outside all blocks, and every outermost
block as a whole, is one step.  It has no lock.
-/

import Rwlocker.Blocks

namespace Rwlocker

/-- What one thread holds. -/
@[ext] structure Own where
  reads : ℕ := 0
  writes : ℕ := 0
  deriving DecidableEq, Repr

/-- How `__enter__` comes out for a thread that holds the lock. -/
inductive Entry
  | granted
  /-- The upgrade error. -/
  | rejected
  /-- The thread waits for itself. -/
  | stuck
  deriving DecidableEq, Repr

namespace Own

/-- The thread is outside all blocks. -/
def Free (h : Own) : Prop := h.reads = 0 ∧ h.writes = 0

instance (h : Own) : Decidable h.Free := inferInstanceAs (Decidable (_ ∧ _))

/-- `__enter__` of the proxy `m`, with nobody else there. -/
def entry (re : Bool) (h : Own) (m : Mode) : Entry :=
  if m = .write ∧ h.writes = 0 ∧ 0 < h.reads then .rejected
  else if 0 < h.writes ∧ re = false then .stuck
  else .granted

/-- One hold more. -/
def grant (h : Own) : Mode → Own
  | .read => { h with reads := h.reads + 1 }
  | .write => { h with writes := h.writes + 1 }

/-- `__exit__` of the proxy `m`. -/
def giveBack (h : Own) : Mode → Own
  | .read => { h with reads := h.reads - 1 }
  | .write => if 0 < h.writes then { h with writes := h.writes - 1 }
      else { h with reads := h.reads - 1 }

/-- The only write hold becomes a read hold. -/
def downgrade (h : Own) : Own := ⟨h.reads + 1, 0⟩

/-- Whoever was granted a hold has one. -/
theorem grant_not_free (h : Own) (m : Mode) : ¬ (h.grant m).Free := by
  rintro ⟨hr, hw⟩
  cases m with
  | read => simp [grant] at hr
  | write => simp [grant] at hw

/-- A hold granted and given back. -/
theorem giveBack_grant (h : Own) (m : Mode) : (h.grant m).giveBack m = h := by
  cases m <;> simp [grant, giveBack]

/-- A downgrade leaves a hold. -/
theorem downgrade_not_free (h : Own) : ¬ h.downgrade.Free := fun hfree =>
  absurd hfree.1 (Nat.succ_ne_zero _)

/-- What a block leaves of the holds around it, when its body leaves its holds or downgrades
the only write hold. -/
theorem giveBack_body {h k : Own} {m : Mode}
    (hk : k = h.grant m ∨ (h.grant m).writes = 1 ∧ k = (h.grant m).downgrade) :
    k.giveBack m = h ∨ h.writes = 1 ∧ k.giveBack m = h.downgrade := by
  rcases hk with rfl | ⟨hw, rfl⟩
  · exact .inl (giveBack_grant h m)
  · cases m with
    | read => exact .inr ⟨hw, by simp [grant, giveBack, downgrade]⟩
    | write =>
        have hzero : h.writes = 0 := by simpa [grant] using hw
        exact .inl (Own.ext (by simp [grant, giveBack, downgrade])
          (by simp [grant, giveBack, downgrade, hzero]))

/-- A block inside a block gets the write lock from a block that has it. -/
theorem writes_of_granted {re : Bool} {h : Own} {m : Mode} (hfree : ¬ h.Free)
    (he : h.entry re m = .granted) (hw : 0 < (h.grant m).writes) : 0 < h.writes := by
  cases m with
  | read => exact hw
  | write =>
      by_contra hno
      have hzero : h.writes = 0 := by omega
      have hreads : 0 < h.reads := Nat.pos_of_ne_zero fun hr => hfree ⟨hr, hzero⟩
      simp [entry, hzero, hreads] at he

end Own

/-- How a piece of code ends, and what it leaves. -/
structure Upshot (L σ : Type) where
  status : Status
  own : Own
  loc : L
  data : σ

variable {τ L σ : Type}

/-- A piece of code that runs alone, `none` where it goes wrong (module doc). -/
def exec (re : Bool) : Code L σ → Own → L → σ → Option (Upshot L σ)
  | .compute f, h, l, d => some ⟨.normal, h, f l, d⟩
  | .load f, h, l, d => if h.Free then none else some ⟨.normal, h, f l d, d⟩
  | .store f, h, l, d => if 0 < h.writes then some ⟨.normal, h, l, f l d⟩ else none
  | .raise, h, l, d => some ⟨.raised, h, l, d⟩
  | .ret, h, l, d => some ⟨.returned, h, l, d⟩
  | .seq a b, h, l, d =>
      (exec re a h l d).bind fun r =>
        if r.status = .normal then exec re b r.own r.loc r.data else some r
  | .branch p a b, h, l, d => if p l then exec re a h l d else exec re b h l d
  | .attempt a b, h, l, d =>
      (exec re a h l d).bind fun r =>
        if r.status = .raised then exec re b r.own r.loc r.data else some r
  | .withLock m a, h, l, d =>
      match h.entry re m with
      | .granted => (exec re a (h.grant m) l d).map fun r => { r with own := r.own.giveBack m }
      | .rejected => some ⟨.raised, h, l, d⟩
      | .stuck => none
  | .downgrade, h, l, d =>
      if h.writes = 1 then some ⟨.normal, h.downgrade, l, d⟩ else some ⟨.raised, h, l, d⟩

/-- What is done around a piece of code that has ended, up to the `__exit__` that gives back
the last hold. -/
def leave (re : Bool) : List (Frame L σ) → Upshot L σ → Option (Thread L σ × σ)
  | [], _ => none
  | .next b :: st, r =>
      if r.status = .normal then (exec re b r.own r.loc r.data).bind (leave re st)
      else leave re st r
  | .handler b :: st, r =>
      if r.status = .raised then (exec re b r.own r.loc r.data).bind (leave re st)
      else leave re st r
  | .exit m :: st, r =>
      if (r.own.giveBack m).Free then some (⟨.ended r.status, st, r.loc⟩, r.data)
      else leave re st { r with own := r.own.giveBack m }

/-- The rest of the outermost block that a thread is in: the thread and the data after it. -/
def finish (re : Bool) (th : Thread L σ) (h : Own) (d : σ) : Option (Thread L σ × σ) :=
  match th.ctl with
  | .run a => (exec re a h th.loc d).bind (leave re th.stack)
  | .ended s => leave re th.stack ⟨s, h, th.loc, d⟩
  | .entering _ _ => none

/-! ### The equations -/

variable {re : Bool} {a b : Code L σ} {h : Own} {l : L} {d : σ} {r : Upshot L σ} {m : Mode}
  {st : List (Frame L σ)} {s : Status}

theorem exec_load {f : L → σ → L} : exec re (.load f) h l d =
    if h.Free then none else some ⟨.normal, h, f l d, d⟩ := rfl

theorem exec_store {f : L → σ → σ} : exec re (.store f) h l d =
    if 0 < h.writes then some ⟨.normal, h, l, f l d⟩ else none := rfl

theorem exec_seq : exec re (.seq a b) h l d = (exec re a h l d).bind fun r =>
    if r.status = .normal then exec re b r.own r.loc r.data else some r := rfl

theorem exec_branch {p : L → Bool} : exec re (.branch p a b) h l d =
    if p l then exec re a h l d else exec re b h l d := rfl

theorem exec_attempt : exec re (.attempt a b) h l d = (exec re a h l d).bind fun r =>
    if r.status = .raised then exec re b r.own r.loc r.data else some r := rfl

theorem exec_downgrade : exec re (.downgrade : Code L σ) h l d =
    if h.writes = 1 then some ⟨.normal, h.downgrade, l, d⟩ else some ⟨.raised, h, l, d⟩ := rfl

theorem exec_entry : exec re (.withLock m a) h l d =
    match h.entry re m with
    | .granted => (exec re a (h.grant m) l d).map fun r => { r with own := r.own.giveBack m }
    | .rejected => some ⟨.raised, h, l, d⟩
    | .stuck => none := rfl

/-- A block that gets the lock. -/
theorem exec_withLock (hg : h.entry re m = .granted) :
    exec re (.withLock m a) h l d =
      (exec re a (h.grant m) l d).map fun r => { r with own := r.own.giveBack m } := by
  rw [exec_entry, hg]

/-- A block that is turned away. -/
theorem exec_rejected (hg : h.entry re m = .rejected) :
    exec re (.withLock m a) h l d = some ⟨.raised, h, l, d⟩ := by
  rw [exec_entry, hg]

/-- A block that would wait for its own thread. -/
theorem exec_stuck (hg : h.entry re m = .stuck) : exec re (.withLock m a) h l d = none := by
  rw [exec_entry, hg]

theorem leave_next : leave re (.next b :: st) r =
    if r.status = .normal then (exec re b r.own r.loc r.data).bind (leave re st)
    else leave re st r := rfl

theorem leave_handler : leave re (.handler b :: st) r =
    if r.status = .raised then (exec re b r.own r.loc r.data).bind (leave re st)
    else leave re st r := rfl

theorem leave_exit : leave re (.exit m :: st) r =
    if (r.own.giveBack m).Free then some (⟨.ended r.status, st, r.loc⟩, r.data)
    else leave re st { r with own := r.own.giveBack m } := rfl

theorem finish_run : finish re ⟨.run a, st, l⟩ h d =
    (exec re a h l d).bind (leave re st) := rfl

theorem finish_ended : finish re ⟨.ended s, st, l⟩ h d = leave re st ⟨s, h, l, d⟩ := rfl

/-! ### What code does to the holds of its thread -/

/-- **Code leaves the holds of its thread**, or downgrades the only write hold. -/
theorem exec_own (hr : exec re a h l d = some r) :
    r.own = h ∨ h.writes = 1 ∧ r.own = h.downgrade := by
  -- two pieces of code one after the other
  have htwice : ∀ {r₁ r₂ : Upshot L σ} {h : Own},
      (r₁.own = h ∨ h.writes = 1 ∧ r₁.own = h.downgrade) →
      (r₂.own = r₁.own ∨ r₁.own.writes = 1 ∧ r₂.own = r₁.own.downgrade) →
      r₂.own = h ∨ h.writes = 1 ∧ r₂.own = h.downgrade := by
    rintro r₁ r₂ h h₁ (h₂ | ⟨hw, h₂⟩)
    · rwa [h₂]
    · rcases h₁ with h₁ | ⟨-, h₁⟩
      · rw [h₁] at hw h₂
        exact .inr ⟨hw, h₂⟩
      · simp [h₁, Own.downgrade] at hw
  induction a generalizing h l d r with
  | compute | raise | ret =>
      obtain rfl := Option.some.inj hr
      exact .inl rfl
  | load | store =>
      simp only [exec_load, exec_store] at hr
      split_ifs at hr with hfree
      cases hr
      exact .inl rfl
  | seq a b iha ihb =>
      obtain ⟨r₁, h₁, hr⟩ := Option.bind_eq_some_iff.1 hr
      split_ifs at hr with hs
      · exact htwice (iha h₁) (ihb hr)
      · cases hr
        exact iha h₁
  | branch p a b iha ihb =>
      rw [exec_branch] at hr
      split_ifs at hr with hp
      · exact iha hr
      · exact ihb hr
  | attempt a b iha ihb =>
      obtain ⟨r₁, h₁, hr⟩ := Option.bind_eq_some_iff.1 hr
      split_ifs at hr with hs
      · exact htwice (iha h₁) (ihb hr)
      · cases hr
        exact iha h₁
  | withLock m a ih =>
      cases hg : h.entry re m with
      | granted =>
          rw [exec_withLock hg] at hr
          obtain ⟨r₁, h₁, rfl⟩ := Option.map_eq_some_iff.1 hr
          exact Own.giveBack_body (ih h₁)
      | rejected =>
          rw [exec_rejected hg] at hr
          cases hr
          exact .inl rfl
      | stuck =>
          rw [exec_stuck hg] at hr
          cases hr
  | downgrade =>
      rw [exec_downgrade] at hr
      split_ifs at hr with hw
      · cases hr
        exact .inr ⟨hw, rfl⟩
      · cases hr
        exact .inl rfl

/-- A reader leaves the data as it is. -/
theorem exec_data (hr : exec re a h l d = some r) (hw : h.writes = 0) (hp : 0 < h.reads) :
    r.data = d := by
  have hkeep : ∀ {a : Code L σ} {h : Own} {l : L} {d : σ} {r : Upshot L σ}, h.writes = 0 →
      exec re a h l d = some r → r.own = h := by
    intro a h l d r hw hr
    rcases exec_own hr with ho | ⟨hone, -⟩
    · exact ho
    · omega
  induction a generalizing h l d r with
  | compute | raise | ret =>
      obtain rfl := Option.some.inj hr
      rfl
  | load =>
      rw [exec_load] at hr
      split_ifs at hr with hfree
      cases hr
      rfl
  | store =>
      rw [exec_store] at hr
      split_ifs at hr with hpos
      omega
  | seq a b iha ihb =>
      obtain ⟨r₁, h₁, hr⟩ := Option.bind_eq_some_iff.1 hr
      have ho := hkeep hw h₁
      split_ifs at hr with hs
      · rw [ho] at hr
        rw [ihb hr hw hp, iha h₁ hw hp]
      · cases hr
        exact iha h₁ hw hp
  | branch p a b iha ihb =>
      rw [exec_branch] at hr
      split_ifs at hr with hb
      · exact iha hr hw hp
      · exact ihb hr hw hp
  | attempt a b iha ihb =>
      obtain ⟨r₁, h₁, hr⟩ := Option.bind_eq_some_iff.1 hr
      have ho := hkeep hw h₁
      split_ifs at hr with hs
      · rw [ho] at hr
        rw [ihb hr hw hp, iha h₁ hw hp]
      · cases hr
        exact iha h₁ hw hp
  | withLock m a ih =>
      cases m with
      | write =>
          have hentry : h.entry re .write = .rejected := if_pos ⟨rfl, hw, hp⟩
          rw [exec_rejected hentry] at hr
          cases hr
          rfl
      | read =>
          have hentry : h.entry re .read = .granted := by simp [Own.entry, hw]
          rw [exec_withLock hentry] at hr
          obtain ⟨r₁, h₁, rfl⟩ := Option.map_eq_some_iff.1 hr
          have hsame : r₁.data = d := ih (h := h.grant .read) h₁ hw (Nat.succ_pos _)
          exact hsame
  | downgrade =>
      rw [exec_downgrade] at hr
      split_ifs at hr with hone
      · omega
      · cases hr
        rfl

/-- A read block leaves the data as it is. -/
theorem exec_readBlock (hr : exec re (.withLock .read a) {} l d = some r) : r.data = d := by
  rw [exec_withLock (by rfl)] at hr
  obtain ⟨r₁, h₁, rfl⟩ := Option.map_eq_some_iff.1 hr
  have hsame : r₁.data = d := exec_data h₁ rfl Nat.one_pos
  exact hsame

/-! ### The rest of a block -/

variable {th th' : Thread L σ} {d' : σ} {x : Thread L σ × σ}

/-- A block that is left by a reader leaves the data as it is. -/
theorem leave_data (hx : leave re st r = some x) (hw : r.own.writes = 0) (hp : 0 < r.own.reads) :
    x.2 = r.data := by
  induction st generalizing r with
  | nil => cases hx
  | cons f st ih =>
      have hcode : ∀ {b : Code L σ}, (exec re b r.own r.loc r.data).bind (leave re st) = some x →
          x.2 = r.data := by
        intro b hx
        obtain ⟨r₁, h₁, hx⟩ := Option.bind_eq_some_iff.1 hx
        have ho : r₁.own = r.own := by
          rcases exec_own h₁ with ho | ⟨hone, -⟩
          · exact ho
          · omega
        rw [ih hx (ho ▸ hw) (ho ▸ hp), exec_data h₁ hw hp]
      cases f with
      | next b =>
          rw [leave_next] at hx
          split_ifs at hx with hs
          · exact hcode hx
          · exact ih hx hw hp
      | handler b =>
          rw [leave_handler] at hx
          split_ifs at hx with hs
          · exact hcode hx
          · exact ih hx hw hp
      | exit m =>
          rw [leave_exit] at hx
          split_ifs at hx with hfree
          · cases hx
            rfl
          · have hback : (r.own.giveBack m).writes = 0 := by
              cases m <;> simp [Own.giveBack, hw]
            have hpos : 0 < (r.own.giveBack m).reads :=
              Nat.pos_of_ne_zero fun hzero => hfree ⟨hzero, hback⟩
            have hsame : x.2 = r.data := ih (r := { r with own := r.own.giveBack m }) hx hback hpos
            exact hsame

/-- Under read holds alone a thread leaves the data. -/
theorem finish_data (hx : finish re th h d = some x) (hw : h.writes = 0) (hp : 0 < h.reads) :
    x.2 = d := by
  unfold finish at hx
  split at hx
  · obtain ⟨r, hr, hx⟩ := Option.bind_eq_some_iff.1 hx
    have ho : r.own = h := by
      rcases exec_own hr with ho | ⟨hone, -⟩
      · exact ho
      · omega
    rw [leave_data hx (ho ▸ hw) (ho ▸ hp), exec_data hr hw hp]
  · exact leave_data hx hw hp
  · cases hx

/-- **A step inside a block is a step towards its end.** -/
theorem finish_silent (hs : Silent th d th' d') (hx : finish re th h d = some x) :
    finish re th' h d' = some x := by
  cases hs with
  | compute | raise | ret => exact hx
  | load =>
      rw [finish_run, exec_load] at hx
      split_ifs at hx with hfree
      · cases hx
      · exact hx
  | store =>
      rw [finish_run, exec_store] at hx
      split_ifs at hx with hw
      · exact hx
      · cases hx
  | @seq a b st l d =>
      rw [finish_run, exec_seq, Option.bind_assoc] at hx
      rw [finish_run, ← hx]
      congr 1
      funext r
      rw [leave_next]
      split_ifs <;> rfl
  | branch =>
      rw [finish_run, exec_branch] at hx
      rw [finish_run]
      split_ifs at hx with hp
      · rwa [if_pos hp]
      · rwa [if_neg hp]
  | attempt =>
      rw [finish_run, exec_attempt, Option.bind_assoc] at hx
      rw [finish_run, ← hx]
      congr 1
      funext r
      rw [leave_handler]
      split_ifs <;> rfl
  | @next s b =>
      rw [finish_ended, leave_next] at hx
      split_ifs at hx with hs
      · rw [if_pos hs]
        exact hx
      · rw [if_neg hs]
        exact hx
  | @handler s b =>
      rw [finish_ended, leave_handler] at hx
      split_ifs at hx with hs
      · rw [if_pos hs]
        exact hx
      · rw [if_neg hs]
        exact hx

/-- Only a writer changes the data. -/
theorem finish_writes (hs : Silent th d th' d') (hx : finish re th h d = some x) :
    d' = d ∨ 0 < h.writes := by
  cases hs with
  | store =>
      rw [finish_run, exec_store] at hx
      split_ifs at hx with hw
      · exact .inr hw
      · cases hx
  | _ => exact .inl rfl

/-- The outermost block, begun. -/
theorem finish_begun (hr : exec re (.withLock m a) {} l d = some r) (st : List (Frame L σ)) :
    finish re ⟨.run a, .exit m :: st, l⟩ (({} : Own).grant m) d =
      some (⟨.ended r.status, st, r.loc⟩, r.data) := by
  have hg : ({} : Own).entry re m = .granted := by simp [Own.entry]
  rw [exec_withLock hg] at hr
  obtain ⟨r₁, h₁, rfl⟩ := Option.map_eq_some_iff.1 hr
  have hfree : (r₁.own.giveBack m).Free := by
    rcases Own.giveBack_body (exec_own h₁) with ho | ⟨hw, -⟩
    · rw [ho]
      exact ⟨rfl, rfl⟩
    · cases hw
  rw [finish_run, h₁, Option.bind_some, leave_exit, if_pos hfree]

/-- A block inside a block, begun. -/
theorem finish_nested (hfree : ¬ h.Free) (hg : h.entry re m = .granted) :
    finish re ⟨.run (.withLock m a), st, l⟩ h d =
      finish re ⟨.run a, .exit m :: st, l⟩ (h.grant m) d := by
  rw [finish_run, finish_run, exec_withLock hg]
  cases h₁ : exec re a (h.grant m) l d with
  | none => rfl
  | some r =>
      have hback : ¬ (r.own.giveBack m).Free := by
        rcases Own.giveBack_body (exec_own h₁) with ho | ⟨-, ho⟩
        · rwa [ho]
        · rw [ho]
          exact h.downgrade_not_free
      rw [Option.map_some, Option.bind_some, Option.bind_some, leave_exit, if_neg hback]

theorem finish_rejected (hg : h.entry re m = .rejected) :
    finish re ⟨.run (.withLock m a), st, l⟩ h d = finish re ⟨.ended .raised, st, l⟩ h d := by
  rw [finish_run, exec_rejected hg, Option.bind_some, finish_ended]

theorem finish_stuck (hg : h.entry re m = .stuck) :
    finish re ⟨.run (.withLock m a), st, l⟩ h d = none := by
  rw [finish_run, exec_stuck hg, Option.bind_none]

theorem finish_exit : finish re ⟨.ended s, .exit m :: st, l⟩ h d =
    if (h.giveBack m).Free then some (⟨.ended s, st, l⟩, d)
    else finish re ⟨.ended s, st, l⟩ (h.giveBack m) d := rfl

theorem finish_downgrade (hw : h.writes = 1) : finish re ⟨.run .downgrade, st, l⟩ h d =
    finish re ⟨.ended .normal, st, l⟩ h.downgrade d := by
  rw [finish_run, exec_downgrade, if_pos hw, Option.bind_some, finish_ended]

theorem finish_downgrade_raises (hw : h.writes ≠ 1) : finish re ⟨.run .downgrade, st, l⟩ h d =
    finish re ⟨.ended .raised, st, l⟩ h d := by
  rw [finish_run, exec_downgrade, if_neg hw, Option.bind_some, finish_ended]

/-! ### The machine of whole blocks -/

/-- A statement, or a block with all that is in it. -/
def Code.IsStatement : Code L σ → Prop
  | .seq _ _ | .branch _ _ _ | .attempt _ _ => False
  | _ => True

/-- The steps of the control flow around statements. -/
inductive Flows : Thread L σ → Thread L σ → Prop
  | seq {a b : Code L σ} {st : List (Frame L σ)} {l : L} :
      Flows ⟨.run (.seq a b), st, l⟩ ⟨.run a, .next b :: st, l⟩
  | branch {p : L → Bool} {a b : Code L σ} {st : List (Frame L σ)} {l : L} :
      Flows ⟨.run (.branch p a b), st, l⟩ ⟨.run (if p l then a else b), st, l⟩
  | attempt {a b : Code L σ} {st : List (Frame L σ)} {l : L} :
      Flows ⟨.run (.attempt a b), st, l⟩ ⟨.run a, .handler b :: st, l⟩
  | next {s : Status} {b : Code L σ} {st : List (Frame L σ)} {l : L} :
      Flows ⟨.ended s, .next b :: st, l⟩ ⟨if s = .normal then .run b else .ended s, st, l⟩
  | handler {s : Status} {b : Code L σ} {st : List (Frame L σ)} {l : L} :
      Flows ⟨.ended s, .handler b :: st, l⟩ ⟨if s = .raised then .run b else .ended s, st, l⟩

/-- Threads that run whole blocks on shared data. -/
structure Atomic (τ L σ : Type) where
  data : σ
  threads : τ → Thread L σ

namespace Atomic

variable [DecidableEq τ]

/-- One step of `t`. -/
inductive Step (rt : Runtime) (re : Bool) (s : Atomic τ L σ) (t : τ) : Atomic τ L σ → Prop
  | runs {a : Code L σ} {st : List (Frame L σ)} {l : L} {r : Upshot L σ}
      (hth : s.threads t = ⟨.run a, st, l⟩) (ha : a.IsStatement)
      (hr : exec re a {} l s.data = some r) :
      Step rt re s t ⟨r.data, Function.update s.threads t ⟨.ended r.status, st, r.loc⟩⟩
  /-- A task is cancelled before it is in the block. -/
  | cancelled {m : Mode} {a : Code L σ} {st : List (Frame L σ)} {l : L} (hrt : rt = .async)
      (hth : s.threads t = ⟨.run (.withLock m a), st, l⟩) :
      Step rt re s t { s with threads := Function.update s.threads t ⟨.ended .raised, st, l⟩ }
  | flows {th : Thread L σ} (h : Flows (s.threads t) th) :
      Step rt re s t { s with threads := Function.update s.threads t th }

/-- No statement that is next goes wrong. -/
def Safe (re : Bool) (s : Atomic τ L σ) : Prop :=
  ∀ t a st l, s.threads t = ⟨.run a, st, l⟩ → a.IsStatement → (exec re a {} l s.data).isSome

/-- The states that the programs `prog` reach, from the local variables `l` and the
data `d`. -/
def Reachable (rt : Runtime) (re : Bool) (prog : τ → Code L σ) (l : τ → L) (d : σ) :
    Atomic τ L σ → Prop :=
  Transition.Reachable (fun s t s' => Step rt re s t s')
    (· = ⟨d, fun t => ⟨.run (prog t), [], l t⟩⟩)

end Atomic

/-! ### Invariants, block by block -/

/-- Every statement of the code, a whole block being one, satisfies `p`. -/
def Code.All (p : Code L σ → Prop) : Code L σ → Prop
  | .seq a b | .branch _ a b | .attempt a b => a.All p ∧ b.All p
  | a => p a

/-- Every statement of what a thread still has to do, outside all blocks, satisfies `p`. -/
def Thread.All (p : Code L σ → Prop) (th : Thread L σ) : Prop :=
  (∀ a, th.ctl = .run a → a.All p) ∧
    ∀ b, .next b ∈ th.stack ∨ .handler b ∈ th.stack → b.All p

/-- A statement is the one statement of its code. -/
theorem Code.All.statement {p : Code L σ → Prop} (h : a.All p) (ha : a.IsStatement) : p a := by
  cases a with
  | seq | branch | attempt => cases ha
  | _ => exact h

/-- The flow of control leads to statements of the program. -/
theorem Flows.all {p : Code L σ → Prop} (hf : Flows th th') (h : th.All p) : th'.All p := by
  obtain ⟨hctl, hst⟩ := h
  cases hf with
  | @seq a b st l =>
      have hall := hctl _ rfl
      refine ⟨fun c hc => ?_, fun c hc => ?_⟩
      · cases hc
        exact hall.1
      · simp only [List.mem_cons, Frame.next.injEq, reduceCtorEq, false_or] at hc
        rcases hc with (rfl | hc) | hc
        · exact hall.2
        · exact hst c (.inl hc)
        · exact hst c (.inr hc)
  | @branch p' a b st l =>
      have hall := hctl _ rfl
      refine ⟨fun c hc => ?_, hst⟩
      cases hc
      by_cases hp : p' l = true
      · rw [if_pos hp]
        exact hall.1
      · rw [if_neg hp]
        exact hall.2
  | @attempt a b st l =>
      have hall := hctl _ rfl
      refine ⟨fun c hc => ?_, fun c hc => ?_⟩
      · cases hc
        exact hall.1
      · simp only [List.mem_cons, Frame.handler.injEq, reduceCtorEq, false_or] at hc
        rcases hc with hc | rfl | hc
        · exact hst c (.inl hc)
        · exact hall.2
        · exact hst c (.inr hc)
  | @next s b st l =>
      refine ⟨fun c hc => ?_, fun c hc => hst c (hc.imp (.tail _) (.tail _))⟩
      by_cases hs : s = .normal
      · rw [if_pos hs] at hc
        cases hc
        exact hst b (.inl (.head _))
      · rw [if_neg hs] at hc
        cases hc
  | @handler s b st l =>
      refine ⟨fun c hc => ?_, fun c hc => hst c (hc.imp (.tail _) (.tail _))⟩
      by_cases hs : s = .raised
      · rw [if_pos hs] at hc
        cases hc
        exact hst b (.inr (.head _))
      · rw [if_neg hs] at hc
        cases hc

/-- Control alone leaves the local variables. -/
theorem Flows.loc (hf : Flows th th') : th'.loc = th.loc := by
  cases hf <;> rfl

namespace Atomic

variable [DecidableEq τ] {rt : Runtime} {prog : τ → Code L σ} {y y' : Atomic τ L σ} {t : τ}

/-- The statement does not go wrong for `t`, and keeps `I`. -/
def Keeps (re : Bool) (I : σ → (τ → L) → Prop) (t : τ) (a : Code L σ) : Prop :=
  ∀ d l, I d l → ∃ r, exec re a {} (l t) d = some r ∧ I r.data (Function.update l t r.loc)

/-- The local variables of the threads. -/
def locs (y : Atomic τ L σ) (t : τ) : L := (y.threads t).loc

/-- The local variables after a thread went on. -/
theorem locs_update (th : Thread L σ) (x : σ) :
    locs ⟨x, Function.update y.threads t th⟩ = Function.update y.locs t th.loc := by
  funext u
  by_cases hu : u = t
  · subst hu
    simp [locs]
  · simp [locs, hu]

/-- A step of `t` keeps what each of its statements keeps. -/
theorem Step.keeps {I : σ → (τ → L) → Prop} (hst : Step rt re y t y')
    (hall : ∀ u, (y.threads u).All (Keeps re I u)) (hI : I y.data y.locs) :
    (∀ u, (y'.threads u).All (Keeps re I u)) ∧ I y'.data y'.locs := by
  have hothers : ∀ {th : Thread L σ}, th.All (Keeps re I t) →
      ∀ u, (Function.update y.threads t th u).All (Keeps re I u) := by
    intro th hth u
    by_cases hu : u = t
    · subst hu
      rwa [Function.update_self]
    · rw [Function.update_of_ne hu]
      exact hall u
  have hended : ∀ {a : Code L σ} {st : List (Frame L σ)} {l l' : L} {s : Status},
      y.threads t = ⟨.run a, st, l⟩ → Thread.All (Keeps re I t) ⟨.ended s, st, l'⟩ := by
    intro a st l l' s hth
    have h := hall t
    rw [hth] at h
    exact ⟨fun _ hc => (by cases hc), h.2⟩
  cases hst with
  | @runs a st l r hth ha hr =>
      refine ⟨hothers (hended hth), ?_⟩
      have hkeep : Keeps re I t a := by
        have h := hall t
        rw [hth] at h
        exact (h.1 a rfl).statement ha
      have hloc : y.locs t = l := congrArg Thread.loc hth
      obtain ⟨r', hr', hI'⟩ := hkeep _ _ hI
      rw [hloc, hr] at hr'
      cases hr'
      rwa [locs_update]
  | @cancelled m a st l hrt hth =>
      refine ⟨hothers (hended hth), ?_⟩
      have hloc : y.locs t = l := congrArg Thread.loc hth
      rwa [locs_update, ← hloc, Function.update_eq_self]
  | @flows th hf =>
      refine ⟨hothers (hf.all (hall t)), ?_⟩
      rwa [locs_update, hf.loc, show (y.threads t).loc = y.locs t from rfl,
        Function.update_eq_self]

/-- **The rule of the resource invariant.**  What every statement of the programs keeps,
whole blocks being statements, holds in every state of the machine, and nothing goes wrong
there. -/
theorem Reachable.keeps {I : σ → (τ → L) → Prop} {l : τ → L}
    (hprog : ∀ t, (prog t).All (Keeps re I t)) (hI : I d l)
    (h : Reachable rt re prog l d y) : y.Safe re ∧ I y.data y.locs := by
  have hkeeps : (∀ u, (y.threads u).All (Keeps re I u)) ∧ I y.data y.locs := by
    refine Transition.Reachable.invariant
      (I := fun y : Atomic τ L σ => (∀ u, (y.threads u).All (Keeps re I u)) ∧ I y.data y.locs)
      ?_ (fun _ _ _ hy hst => hst.keeps hy.1 hy.2) h
    rintro y rfl
    refine ⟨fun u => ⟨fun a ha => ?_, fun b hb => ?_⟩, hI⟩
    · cases ha
      exact hprog u
    · rcases hb with hb | hb <;> cases hb
  refine ⟨fun t a st l hth ha => ?_, hkeeps.2⟩
  have h := hkeeps.1 t
  rw [hth] at h
  obtain ⟨r, hr, -⟩ := (h.1 a rfl).statement ha _ _ hkeeps.2
  have hloc : y.locs t = l := congrArg Thread.loc hth
  rw [← hloc, hr]
  rfl

end Atomic

end Rwlocker

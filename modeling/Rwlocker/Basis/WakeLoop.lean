/-
# A wake loop with a budget

A queue holds names of sleepers, and a store says what state each sleeper is
in.  The loop pops names from the front while the budget lasts.  A popped
sleeper that is still `live` is marked, which costs one unit; one that is not
live is dropped for free.

The first section lists what a loop pops.  By one induction along the loop
(`loop_induction`) the marked sleepers are the first live ones (`woken_wakeCalls`), the
store changes at these alone (`wakeLoop_state_eq`), and the loop stops at the last of
them (`wakeCalls_stop`).  The second section says what callers need: what stays in the
queue is a suffix of it (`wakeLoop_suffix`), a state only ever changes from live to
marked (`wakeLoop_state`), whoever leaves the queue is not live afterwards and whoever
stays is untouched (`wakeLoop_popped`, `wakeLoop_kept`), one unit marks somebody if
anybody is live (`wakeLoop_marks`), and a budget of the queue's length empties it
(`wakeLoop_all`).  The last one counts what becomes of a budget when some of the marked
sleepers are lost.
-/

import Mathlib.Logic.Function.Basic
import Mathlib.Data.Int.Notation
import Mathlib.Data.List.Nodup
import Mathlib.Tactic.SplitIfs

namespace WakeLoop

variable {ω V : Type*} [DecidableEq ω]

/-- Marks `w` if it is live; the flag says whether it was. -/
def wake (live : V → Bool) (mark : V → V) (w : ω) (st : ω → V) : Bool × (ω → V) :=
  if live (st w) then (true, Function.update st w (mark (st w))) else (false, st)

/-- Pops sleepers from the front while the budget `n` is positive.  Returns the
rest of the queue and the new store. -/
def wakeLoop (wake : ω → (ω → V) → Bool × (ω → V)) :
    List ω → ℤ → (ω → V) → List ω × (ω → V)
  | [], _, st => ([], st)
  | w :: ws, n, st =>
      if 0 < n then
        wakeLoop wake ws (if (wake w st).1 then n - 1 else n) (wake w st).2
      else (w :: ws, st)

variable {live : V → Bool} {mark : V → V}

/-! ### What a loop pops

The calls of `wake` that a loop makes, in order.  They account for everything it does:
the queue loses exactly the sleepers they name, and the store changes exactly at those
whose wake succeeded. -/

/-- The sleepers the loop pops, each with the flag of its wake. -/
def wakeCalls (wake : ω → (ω → V) → Bool × (ω → V)) :
    List ω → ℤ → (ω → V) → List (ω × Bool)
  | [], _, _ => []
  | w :: ws, n, st =>
      if 0 < n then
        (w, (wake w st).1) :: wakeCalls wake ws (if (wake w st).1 then n - 1 else n) (wake w st).2
      else []

/-- The sleepers whose wake succeeded. -/
def woken (calls : List (ω × Bool)) : List ω := (calls.filter (·.2)).map (·.1)

omit [DecidableEq ω] in
@[simp] theorem woken_nil : woken ([] : List (ω × Bool)) = [] := rfl

omit [DecidableEq ω] in
@[simp] theorem woken_cons_true (w : ω) (calls : List (ω × Bool)) :
    woken ((w, true) :: calls) = w :: woken calls := rfl

omit [DecidableEq ω] in
@[simp] theorem woken_cons_false (w : ω) (calls : List (ω × Bool)) :
    woken ((w, false) :: calls) = woken calls := rfl

omit [DecidableEq ω] in
theorem mem_woken {v : ω} {calls : List (ω × Bool)} : v ∈ woken calls ↔ (v, true) ∈ calls := by
  simp [woken]

omit [DecidableEq ω] in
/-- A wake that reads the states through `f` pops the same sleepers. -/
theorem wakeLoop_map {U : Type*} {wake : ω → (ω → V) → Bool × (ω → V)}
    {wake' : ω → (ω → U) → Bool × (ω → U)} {f : U → V}
    (h : ∀ w st, wake w (f ∘ st) = ((wake' w st).1, f ∘ (wake' w st).2)) (ws : List ω) (n : ℤ)
    (st : ω → U) :
    wakeLoop wake ws n (f ∘ st) = ((wakeLoop wake' ws n st).1, f ∘ (wakeLoop wake' ws n st).2) ∧
      wakeCalls wake ws n (f ∘ st) = wakeCalls wake' ws n st := by
  induction ws generalizing n st with
  | nil => exact ⟨rfl, rfl⟩
  | cons w ws ih =>
      by_cases hn : 0 < n
      · simp only [wakeLoop, wakeCalls, if_pos hn, h]
        exact ⟨(ih _ _).1, by rw [(ih _ _).2]⟩
      · simp only [wakeLoop, wakeCalls, if_neg hn, and_self]

omit [DecidableEq ω] in
/-- The popped sleepers and the rest are the queue. -/
theorem wakeCalls_append (wake : ω → (ω → V) → Bool × (ω → V)) (ws : List ω) (n : ℤ)
    (st : ω → V) :
    (wakeCalls wake ws n st).map (·.1) ++ (wakeLoop wake ws n st).1 = ws := by
  induction ws generalizing n st with
  | nil => rfl
  | cons w ws ih =>
      by_cases hn : 0 < n
      · rw [wakeCalls, wakeLoop, if_pos hn, if_pos hn, List.map_cons, List.cons_append, ih]
      · rw [wakeCalls, wakeLoop, if_neg hn, if_neg hn, List.map_nil, List.nil_append]

/-- Without a budget nothing is popped. -/
theorem wakeCalls_of_le {n : ℤ} (hn : n ≤ 0) (ws : List ω) (st : ω → V) :
    wakeCalls (wake live mark) ws n st = [] ∧ wakeLoop (wake live mark) ws n st = (ws, st) := by
  cases ws with
  | nil => exact ⟨rfl, rfl⟩
  | cons w ws => exact ⟨if_neg (by omega), if_neg (by omega)⟩

/-- A live head takes one unit. -/
theorem wakeCalls_live {n : ℤ} (hn : 0 < n) {w : ω} {st : ω → V} (hl : live (st w) = true)
    (ws : List ω) :
    wakeCalls (wake live mark) (w :: ws) n st = (w, true) ::
        wakeCalls (wake live mark) ws (n - 1) (Function.update st w (mark (st w))) ∧
      wakeLoop (wake live mark) (w :: ws) n st =
        wakeLoop (wake live mark) ws (n - 1) (Function.update st w (mark (st w))) := by
  have hw : wake live mark w st = (true, Function.update st w (mark (st w))) := if_pos hl
  rw [wakeCalls, wakeLoop, if_pos hn, if_pos hn, hw]
  exact ⟨rfl, rfl⟩

/-- A dead head costs nothing. -/
theorem wakeCalls_dead {n : ℤ} (hn : 0 < n) {w : ω} {st : ω → V} (hl : live (st w) = false)
    (ws : List ω) :
    wakeCalls (wake live mark) (w :: ws) n st =
        (w, false) :: wakeCalls (wake live mark) ws n st ∧
      wakeLoop (wake live mark) (w :: ws) n st = wakeLoop (wake live mark) ws n st := by
  have hw : wake live mark w st = (false, st) := by simp [wake, hl]
  rw [wakeCalls, wakeLoop, if_pos hn, if_pos hn, hw]
  exact ⟨rfl, rfl⟩

variable (ω) in
/-- **Induction along the loop**: it stops, marks its head or skips it. -/
@[elab_as_elim]
theorem loop_induction (live : V → Bool) (mark : V → V)
    {motive : List ω → ℤ → (ω → V) → Prop} (nil : ∀ n st, motive [] n st)
    (stop : ∀ ws n st, n ≤ 0 → motive ws n st)
    (marks : ∀ w ws n st, 0 < n → live (st w) = true →
      motive ws (n - 1) (Function.update st w (mark (st w))) → motive (w :: ws) n st)
    (skips : ∀ w ws n st, 0 < n → live (st w) = false → motive ws n st → motive (w :: ws) n st)
    (ws : List ω) (n : ℤ) (st : ω → V) : motive ws n st := by
  induction ws generalizing n st with
  | nil => exact nil n st
  | cons w ws ih =>
      by_cases hn : 0 < n
      · cases hl : live (st w) with
        | true => exact marks w ws n st hn hl (ih _ _)
        | false => exact skips w ws n st hn hl (ih _ _)
      · exact stop _ n st (by omega)

/-- Marking a sleeper takes its name out of the live ones, wherever it stands. -/
theorem filter_live_update (hmark : ∀ v, live (mark v) = false) (w : ω) (st : ω → V)
    (ws : List ω) :
    (ws.filter fun u => live (Function.update st w (mark (st w)) u)) =
      (ws.filter fun u => live (st u)).filter fun u => !u == w := by
  rw [List.filter_filter]
  refine List.filter_congr fun u _ => ?_
  by_cases hu : u = w
  · subst hu
    simp [hmark]
  · simp [hu]

/-- **The loop marks the first `n` live sleepers**, in the order of the queue.  A
sleeper that stands in the queue twice is live once. -/
theorem woken_wakeCalls (hmark : ∀ v, live (mark v) = false) (ws : List ω) (n : ℤ)
    (st : ω → V) :
    woken (wakeCalls (wake live mark) ws n st) =
      (ws.filter fun w => live (st w)).eraseDups.take n.toNat := by
  induction ws, n, st using loop_induction ω live mark with
  | nil n st => simp [wakeCalls]
  | stop ws n st hn =>
      rw [(wakeCalls_of_le hn ws st).1, show n.toNat = 0 by omega]
      rfl
  | marks w ws n st hn hl ih =>
      have hn' : n.toNat = (n - 1).toNat + 1 := by omega
      rw [(wakeCalls_live hn hl ws).1, woken_cons_true, ih, filter_live_update hmark,
        List.filter_cons_of_pos (p := fun u => live (st u)) hl, List.eraseDups_cons, hn',
        List.take_succ_cons]
  | skips w ws n st hn hl ih =>
      rw [(wakeCalls_dead hn hl ws).1, woken_cons_false, ih,
        List.filter_cons_of_neg (p := fun u => live (st u)) (by simp [hl])]

/-- Only live sleepers of the queue are marked. -/
theorem live_of_mem_woken (hmark : ∀ v, live (mark v) = false) {ws : List ω} {n : ℤ}
    {st : ω → V} {v : ω} (hv : v ∈ woken (wakeCalls (wake live mark) ws n st)) :
    v ∈ ws ∧ live (st v) = true := by
  rw [woken_wakeCalls hmark] at hv
  exact List.mem_filter.1 (List.mem_eraseDups.1 (List.mem_of_mem_take hv))

/-- A sleeper that was just marked is not marked again. -/
theorem not_mem_woken_update (hmark : ∀ v, live (mark v) = false) (ws : List ω) (n : ℤ)
    (st : ω → V) (w : ω) :
    w ∉ woken (wakeCalls (wake live mark) ws n (Function.update st w (mark (st w)))) := by
  intro hw
  have hl := (live_of_mem_woken hmark hw).2
  rw [Function.update_self, hmark] at hl
  exact absurd hl Bool.false_ne_true

/-- **Nobody is marked twice.** -/
theorem nodup_woken (hmark : ∀ v, live (mark v) = false) (ws : List ω) (n : ℤ) (st : ω → V) :
    (woken (wakeCalls (wake live mark) ws n st)).Nodup := by
  induction ws, n, st using loop_induction ω live mark with
  | nil n st => exact List.nodup_nil
  | stop ws n st hn =>
      rw [(wakeCalls_of_le hn ws st).1]
      exact List.nodup_nil
  | marks w ws n st hn hl ih =>
      rw [(wakeCalls_live hn hl ws).1, woken_cons_true]
      exact List.nodup_cons.2 ⟨not_mem_woken_update hmark ws (n - 1) st w, ih⟩
  | skips w ws n st hn hl ih =>
      rw [(wakeCalls_dead hn hl ws).1, woken_cons_false]
      exact ih

/-- **The store changes at the marked sleepers**, and nowhere else. -/
theorem wakeLoop_state_eq (hmark : ∀ v, live (mark v) = false) (ws : List ω) (n : ℤ)
    (st : ω → V) (v : ω) :
    (wakeLoop (wake live mark) ws n st).2 v =
      if v ∈ woken (wakeCalls (wake live mark) ws n st) then mark (st v) else st v := by
  induction ws, n, st using loop_induction ω live mark with
  | nil n st => rfl
  | stop ws n st hn =>
      rw [(wakeCalls_of_le hn ws st).1, (wakeCalls_of_le hn ws st).2]
      rfl
  | marks w ws n st hn hl ih =>
      rw [(wakeCalls_live hn hl ws).1, (wakeCalls_live hn hl ws).2, woken_cons_true, ih]
      by_cases hv : v = w
      · subst hv
        rw [if_neg (not_mem_woken_update hmark ws (n - 1) st v), Function.update_self,
          if_pos (List.mem_cons_self ..)]
      · simp [hv]
  | skips w ws n st hn hl ih =>
      rw [(wakeCalls_dead hn hl ws).1, (wakeCalls_dead hn hl ws).2, woken_cons_false, ih]

/-- **Whoever is popped without being marked is dead**: it was so from the start, or
its name stands in the queue twice. -/
theorem wakeCalls_false {ws : List ω} {n : ℤ} {st : ω → V} {v : ω}
    (hv : (v, false) ∈ wakeCalls (wake live mark) ws n st) :
    live (st v) = false ∨ v ∈ woken (wakeCalls (wake live mark) ws n st) := by
  induction ws, n, st using loop_induction ω live mark with
  | nil n st => simp [wakeCalls] at hv
  | stop ws n st hn =>
      rw [(wakeCalls_of_le hn ws st).1] at hv
      exact absurd hv List.not_mem_nil
  | marks w ws n st hn hl ih =>
      rw [(wakeCalls_live hn hl ws).1] at hv ⊢
      by_cases hvw : v = w
      · exact .inr (by simp [hvw])
      · rcases ih (by simpa using hv) with h | h
        · exact .inl (by rwa [Function.update_of_ne hvw] at h)
        · exact .inr (by simp [h])
  | skips w ws n st hn hl ih =>
      rw [(wakeCalls_dead hn hl ws).1] at hv ⊢
      by_cases hvw : v = w
      · exact .inl (hvw ▸ hl)
      · exact ih (by simpa [hvw] using hv)

/-- **The loop stops at the last sleeper it marks**, or runs through the whole queue
because the budget exceeds the live ones. -/
theorem wakeCalls_stop (hmark : ∀ v, live (mark v) = false) {n : ℤ} (hn : 0 < n)
    (ws : List ω) (st : ω → V) :
    (n ≤ (ws.filter fun w => live (st w)).eraseDups.length ∧
      ∃ w, (wakeCalls (wake live mark) ws n st).getLast? = some (w, true)) ∨
    (((ws.filter fun w => live (st w)).eraseDups.length : ℤ) < n ∧
      (wakeLoop (wake live mark) ws n st).1 = []) := by
  induction ws, n, st using loop_induction ω live mark with
  | nil n st => exact .inr ⟨by simpa using hn, rfl⟩
  | stop ws n st hn' => omega
  | marks w ws n st _ hl ih =>
      rw [(wakeCalls_live hn hl ws).1, (wakeCalls_live hn hl ws).2,
        List.filter_cons_of_pos (p := fun u => live (st u)) hl, List.eraseDups_cons,
        ← filter_live_update hmark, List.length_cons]
      by_cases hn' : 0 < n - 1
      · rcases ih hn' with ⟨hle, v, hv⟩ | ⟨hlt, hnil⟩
        · exact .inl ⟨by omega, v, by rw [List.getLast?_cons, hv]; rfl⟩
        · exact .inr ⟨by omega, hnil⟩
      · -- the unit was the last one
        rw [(wakeCalls_of_le (by omega) ws _).1]
        exact .inl ⟨by omega, w, rfl⟩
  | skips w ws n st _ hl ih =>
      rw [(wakeCalls_dead hn hl ws).1, (wakeCalls_dead hn hl ws).2,
        List.filter_cons_of_neg (p := fun u => live (st u)) (by simp [hl])]
      rcases ih hn with ⟨hle, v, hv⟩ | h
      · exact .inl ⟨hle, v, by rw [List.getLast?_cons, hv]; rfl⟩
      · exact .inr h

/-! ### What callers need -/

omit [DecidableEq ω] in
/-- What is left is a suffix of the queue. -/
theorem wakeLoop_suffix (wake : ω → (ω → V) → Bool × (ω → V)) (ws : List ω) (n : ℤ)
    (st : ω → V) : (wakeLoop wake ws n st).1 <:+ ws :=
  ⟨_, wakeCalls_append wake ws n st⟩

/-- **A state only changes from live to marked**, and only for a sleeper of the
queue. -/
theorem wakeLoop_state (hmark : ∀ v, live (mark v) = false) (ws : List ω) (n : ℤ)
    (st : ω → V) (v : ω) :
    (wakeLoop (wake live mark) ws n st).2 v = st v ∨
      live (st v) = true ∧ v ∈ ws ∧ (wakeLoop (wake live mark) ws n st).2 v = mark (st v) := by
  have hstate := wakeLoop_state_eq hmark ws n st v
  by_cases hv : v ∈ woken (wakeCalls (wake live mark) ws n st)
  · obtain ⟨hws, hl⟩ := live_of_mem_woken hmark hv
    exact .inr ⟨hl, hws, hstate.trans (if_pos hv)⟩
  · exact .inl (hstate.trans (if_neg hv))

/-- **Whoever leaves the queue is not live any more.** -/
theorem wakeLoop_popped (hmark : ∀ v, live (mark v) = false) {ws : List ω} {n : ℤ}
    {st : ω → V} {v : ω} (hv : v ∈ ws) (hv' : v ∉ (wakeLoop (wake live mark) ws n st).1) :
    live ((wakeLoop (wake live mark) ws n st).2 v) = false := by
  rw [← wakeCalls_append (wake live mark) ws n st, List.mem_append] at hv
  obtain ⟨⟨u, b⟩, hcall, rfl⟩ := List.mem_map.1 (hv.resolve_right hv')
  have hdead : live (st u) = false ∨ u ∈ woken (wakeCalls (wake live mark) ws n st) := by
    cases b with
    | true => exact .inr (mem_woken.2 hcall)
    | false => exact wakeCalls_false hcall
  rw [wakeLoop_state_eq hmark]
  split_ifs with hu
  · exact hmark _
  · exact hdead.resolve_right hu

/-- Whoever stays in a queue without duplicates keeps its state. -/
theorem wakeLoop_kept (hmark : ∀ v, live (mark v) = false) {ws : List ω} (hnd : ws.Nodup)
    {n : ℤ} {st : ω → V} {v : ω} (hv : v ∈ (wakeLoop (wake live mark) ws n st).1) :
    (wakeLoop (wake live mark) ws n st).2 v = st v := by
  rw [← wakeCalls_append (wake live mark) ws n st] at hnd
  have hnot : v ∉ woken (wakeCalls (wake live mark) ws n st) := fun h =>
    (List.nodup_append.1 hnd).2.2 v (List.mem_map_of_mem (mem_woken.1 h)) v hv rfl
  rw [wakeLoop_state_eq hmark, if_neg hnot]

/-- **A positive budget marks somebody**, if anybody in the queue is live. -/
theorem wakeLoop_marks (hmark : ∀ v, live (mark v) = false) {ws : List ω} {n : ℤ}
    {st : ω → V} (hn : 0 < n) (hlive : ∃ v ∈ ws, live (st v) = true) :
    ∃ v ∈ ws, live (st v) = true ∧
      (wakeLoop (wake live mark) ws n st).2 v = mark (st v) := by
  obtain ⟨u, hu, hl⟩ := hlive
  have hne : woken (wakeCalls (wake live mark) ws n st) ≠ [] := by
    have hmem : u ∈ (ws.filter fun w => live (st w)).eraseDups :=
      List.mem_eraseDups.2 (List.mem_filter.2 ⟨hu, hl⟩)
    rw [woken_wakeCalls hmark, Ne, List.take_eq_nil_iff, not_or]
    exact ⟨by omega, List.ne_nil_of_mem hmem⟩
  obtain ⟨v, hv⟩ := List.exists_mem_of_ne_nil _ hne
  obtain ⟨hws, hlv⟩ := live_of_mem_woken hmark hv
  exact ⟨v, hws, hlv, (wakeLoop_state_eq hmark ws n st v).trans (if_pos hv)⟩

omit [DecidableEq ω] in
/-- **A budget of the queue's length empties it.** -/
theorem wakeLoop_all (wake : ω → (ω → V) → Bool × (ω → V)) {ws : List ω} {n : ℤ}
    {st : ω → V} (hn : (ws.length : ℤ) ≤ n) : (wakeLoop wake ws n st).1 = [] := by
  induction ws generalizing n st with
  | nil => rfl
  | cons w ws ih =>
      have hlen : ((w :: ws).length : ℤ) = ws.length + 1 := by simp
      rw [wakeLoop, if_pos (by omega)]
      exact ih (by split_ifs <;> omega)

/-- A queue without duplicates is its own list of distinct names. -/
theorem eraseDups_of_nodup {ws : List ω} (hnd : ws.Nodup) : ws.eraseDups = ws := by
  induction ws with
  | nil => rfl
  | cons w ws ih =>
      obtain ⟨hw, hnd⟩ := List.nodup_cons.1 hnd
      have hfil : (ws.filter fun u => !u == w) = ws :=
        List.filter_eq_self.2 fun u hu => by simpa using fun h : u = w => hw (h ▸ hu)
      rw [List.eraseDups_cons, hfil, ih hnd]

/-- The loop marks the first `n` live sleepers of a queue without duplicates, and
nobody else. -/
theorem wakeLoop_take (hmark : ∀ v, live (mark v) = false) {ws : List ω} (hnd : ws.Nodup)
    (n : ℤ) (st : ω → V) (v : ω) :
    (wakeLoop (wake live mark) ws n st).2 v =
      if v ∈ (ws.filter fun w => live (st w)).take n.toNat then mark (st v) else st v := by
  rw [wakeLoop_state_eq hmark, woken_wakeCalls hmark, eraseDups_of_nodup (hnd.filter _)]

/-! ### Counting what a budget achieves

The first `n` live sleepers of a queue are marked.  Some sleepers are `lost`, all dead
ones among them, and a marked sleeper is `served` unless it is lost. -/

section Counting

variable {ws : List ω} {live lost served p : ω → Bool} {n : ℤ}

omit [DecidableEq ω] in
/-- What is true of live sleepers only counts in the first `k` and behind them. -/
theorem countP_live (hp : ∀ w ∈ ws, live w = false → p w = false) (k : ℕ) :
    ws.countP p =
      ((ws.filter live).take k).countP p + ((ws.filter live).drop k).countP p := by
  rw [← List.countP_append, List.take_append_drop, List.countP_filter]
  refine List.countP_congr fun w hw => ?_
  cases hl : live w with
  | true => simp
  | false => simp [hp w hw hl]

omit [DecidableEq ω] in
/-- **No unit of the budget is wasted** if none of the marked sleepers is lost, or
every live one behind them is. -/
theorem min_le_countP_served (hdead : ∀ w ∈ ws, live w = false → lost w = true)
    (hserved : ∀ w ∈ (ws.filter live).take n.toNat, served w = !lost w)
    (hcond : (∀ w ∈ (ws.filter live).take n.toNat, lost w = false) ∨
      ∀ w ∈ (ws.filter live).drop n.toNat, lost w = true) :
    min n (ws.countP fun w => !lost w) ≤ ws.countP served := by
  have hnot : ∀ w ∈ ws, live w = false → (!lost w) = false :=
    fun w hw hl => by simp [hdead w hw hl]
  have hcount := countP_live hnot n.toNat
  have heq : ((ws.filter live).take n.toNat).countP served =
      ((ws.filter live).take n.toNat).countP fun w => !lost w :=
    List.countP_congr fun w hw => by rw [hserved w hw]
  have hle : ((ws.filter live).take n.toNat).countP served ≤ ws.countP served :=
    ((List.take_sublist _ _).trans List.filter_sublist).countP_le
  rcases hcond with hcond | hcond
  · have hall : ((ws.filter live).take n.toNat).countP (fun w => !lost w) =
        ((ws.filter live).take n.toNat).length :=
      List.countP_eq_length.2 fun w hw => by simp [hcond w hw]
    have hdrop := List.countP_le_length (p := fun w => !lost w)
      (l := (ws.filter live).drop n.toNat)
    rw [List.length_take] at hall
    rw [List.length_drop] at hdrop
    omega
  · have hnone : ((ws.filter live).drop n.toNat).countP (fun w => !lost w) = 0 :=
      List.countP_eq_zero.2 fun w hw => by simp [hcond w hw]
    omega

omit [DecidableEq ω] in
/-- **And only then**, if nobody but a marked sleeper is served. -/
theorem of_min_le_countP_served (hdead : ∀ w ∈ ws, live w = false → lost w = true)
    (hserved : ∀ w ∈ (ws.filter live).take n.toNat, served w = !lost w)
    (hrest : ∀ w ∈ (ws.filter live).drop n.toNat, served w = false)
    (hdead' : ∀ w ∈ ws, live w = false → served w = false)
    (hmin : min n (ws.countP fun w => !lost w) ≤ ws.countP served) :
    (∀ w ∈ (ws.filter live).take n.toNat, lost w = false) ∨
      ∀ w ∈ (ws.filter live).drop n.toNat, lost w = true := by
  by_contra hcon
  rw [not_or] at hcon
  obtain ⟨htake, hdrop⟩ := hcon
  have hnot : ∀ w ∈ ws, live w = false → (!lost w) = false :=
    fun w hw hl => by simp [hdead w hw hl]
  have hcount := countP_live hnot n.toNat
  have hcount' := countP_live hdead' n.toNat
  have heq : ((ws.filter live).take n.toNat).countP served =
      ((ws.filter live).take n.toNat).countP fun w => !lost w :=
    List.countP_congr fun w hw => by rw [hserved w hw]
  have hnone : ((ws.filter live).drop n.toNat).countP served = 0 :=
    List.countP_eq_zero.2 fun w hw => by simp [hrest w hw]
  -- a marked sleeper is lost, and one behind them is not
  have hlt : ((ws.filter live).take n.toNat).countP (fun w => !lost w) <
      ((ws.filter live).take n.toNat).length := by
    refine Nat.lt_of_le_of_ne List.countP_le_length fun h => htake fun w hw => ?_
    simpa using List.countP_eq_length.1 h w hw
  have hpos : 0 < ((ws.filter live).drop n.toNat).countP fun w => !lost w := by
    refine List.countP_pos_iff.2 ?_
    by_contra hno
    refine hdrop fun w hw => ?_
    by_contra hl
    exact hno ⟨w, hw, by simpa using hl⟩
  have := List.countP_le_length (p := fun w => !lost w) (l := (ws.filter live).drop n.toNat)
  rw [List.length_take] at hlt
  rw [List.length_drop] at this
  omega

end Counting

end WakeLoop

/-
# The wake loop is exact

`rwlocker/queues.py`, lines 36 to 53.  `_notify_unlocked(n)` wakes the first `n` live
waiters of the deque, whatever else stands in it, takes out besides them only
finished waiters, and leaves the rest in order (`WaitQueue.notifyExact`);
`_notify_all_unlocked()` wakes every live waiter (`WaitQueue.notifyAll_state`).

One call says nothing about what becomes of a waiter.  The second half follows a
queue over its whole life: waiters are appended, discarded, cancelled and woken in
any order.  Waiter objects are numbered in the order in which `_waiter_factory` makes
them, and the history writes down which of them a notify popped, which it woke and
which a discard removed.  Then a deque and the two ways out of it hold every object
exactly once, and objects leave at the front in the order of their numbers
(`QueueHistory.Sound`), so none is lost and none is woken twice.
-/

import Rwlocker.Queues

namespace Rwlocker

namespace WaitQueue

variable {ω : Type} [DecidableEq ω]

/-- What `_notify_unlocked(n)` does to a queue.  An object that stood in the deque twice
would count as one live waiter. -/
structure NotifyExact (q : WaitQueue ω) (n : ℤ) : Prop where
  /-- It wakes the first live waiters, in arrival order. -/
  woken : q.wokenBy n = q.liveWaiters.eraseDups.take n.toNat
  /-- It wakes `min(max(n, 0), L)` of them. -/
  count : ((q.wokenBy n).length : ℤ) = min (max n 0) q.liveWaiters.eraseDups.length
  /-- It wakes none twice. -/
  once : (q.wokenBy n).Nodup
  /-- It changes nothing else about the waiter objects. -/
  state : ∀ w, (q.notify n).state w = if w ∈ q.wokenBy n then .woken else q.state w
  /-- It pops from the front and keeps the rest of the queue in order. -/
  split : q.poppedBy n ++ (q.notify n).waiters = q.waiters
  /-- What it pops without waking is finished. -/
  finished : ∀ w ∈ q.poppedBy n, w ∉ q.wokenBy n → (q.state w).live = false
  /-- It pops nothing without a budget. -/
  idle : n ≤ 0 → q.poppedBy n = []
  /-- The last waiter it pops is the last one it wakes, if there are enough live ones. -/
  stop : 0 < n → n ≤ q.liveWaiters.eraseDups.length →
    ∃ w, (q.wakeCalls n).getLast? = some (w, true)
  /-- It empties the queue if there are not. -/
  drain : (q.liveWaiters.eraseDups.length : ℤ) < n → (q.notify n).waiters = []

theorem wokenBy_eq (q : WaitQueue ω) (n : ℤ) :
    q.wokenBy n = q.liveWaiters.eraseDups.take n.toNat :=
  WakeLoop.woken_wakeCalls Waiter.not_live_woken q.waiters n q.state

theorem notify_state_wokenBy (q : WaitQueue ω) (n : ℤ) (w : ω) :
    (q.notify n).state w = if w ∈ q.wokenBy n then .woken else q.state w :=
  WakeLoop.wakeLoop_state_eq Waiter.not_live_woken q.waiters n q.state w

theorem poppedBy_append (q : WaitQueue ω) (n : ℤ) :
    q.poppedBy n ++ (q.notify n).waiters = q.waiters :=
  WakeLoop.wakeCalls_append wakeWaiter q.waiters n q.state

/-- A popped waiter was woken, or was not live before. -/
theorem live_of_mem_poppedBy {q : WaitQueue ω} {n : ℤ} {w : ω} (hw : w ∈ q.poppedBy n)
    (hnot : w ∉ q.wokenBy n) : (q.state w).live = false := by
  obtain ⟨⟨v, b⟩, hv, rfl⟩ := List.mem_map.1 hw
  cases b with
  | true => exact absurd (WakeLoop.mem_woken.2 hv) hnot
  | false => exact (WakeLoop.wakeCalls_false hv).resolve_right hnot

theorem wokenBy_sublist (q : WaitQueue ω) (n : ℤ) : (q.wokenBy n).Sublist (q.poppedBy n) :=
  List.filter_sublist.map _

/-- **Every call of the wake loop is exact.** -/
theorem notifyExact (q : WaitQueue ω) (n : ℤ) : q.NotifyExact n where
  woken := q.wokenBy_eq n
  count := by
    rw [q.wokenBy_eq, List.length_take]
    omega
  once := WakeLoop.nodup_woken Waiter.not_live_woken q.waiters n q.state
  state := q.notify_state_wokenBy n
  split := q.poppedBy_append n
  finished _ hw hnot := live_of_mem_poppedBy hw hnot
  idle hn := by
    have h : q.wakeCalls n = [] := (WakeLoop.wakeCalls_of_le hn q.waiters q.state).1
    rw [poppedBy, h, List.map_nil]
  stop hn hle := by
    rcases WakeLoop.wakeCalls_stop Waiter.not_live_woken hn q.waiters q.state with h | h
    · exact h.2
    · exact absurd hle (Int.not_le.2 h.1)
  drain hlt := by
    have hn : 0 < n := by omega
    rcases WakeLoop.wakeCalls_stop Waiter.not_live_woken hn q.waiters q.state with h | h
    · exact absurd h.1 (Int.not_le.2 hlt)
    · exact h.2

/-- The queue is at least as long as its live waiters are many. -/
theorem length_live_le (q : WaitQueue ω) :
    q.liveWaiters.eraseDups.length ≤ q.waiters.length := by
  -- a budget of just that many wakes them all, and whom it wakes it takes out of the queue
  have hwoken : q.wokenBy q.liveWaiters.eraseDups.length = q.liveWaiters.eraseDups := by
    rw [q.wokenBy_eq, Int.toNat_natCast, List.take_length]
  have hpop := (q.wokenBy_sublist q.liveWaiters.eraseDups.length).length_le
  have hsplit := congrArg List.length (q.poppedBy_append q.liveWaiters.eraseDups.length)
  rw [hwoken] at hpop
  rw [List.length_append] at hsplit
  omega

/-- The length of the deque is budget enough for all live waiters. -/
theorem wokenBy_length (q : WaitQueue ω) :
    q.wokenBy q.waiters.length = q.liveWaiters.eraseDups := by
  rw [q.wokenBy_eq, Int.toNat_natCast, List.take_of_length_le q.length_live_le]

/-- **`_notify_all_unlocked()` wakes every live waiter**, and nobody else. -/
theorem notifyAll_state (q : WaitQueue ω) (w : ω) :
    q.notifyAll.state w = if w ∈ q.liveWaiters then .woken else q.state w := by
  rw [notifyAll, q.notify_state_wokenBy, q.wokenBy_length]
  simp only [List.mem_eraseDups]

/-- Discarding a waiter that is not in the queue changes nothing. -/
theorem discardWaiter_of_not_mem {q : WaitQueue ω} {w : ω} (hw : w ∉ q.waiters) :
    q.discardWaiter w = q := by
  rw [discardWaiter, List.erase_of_not_mem hw]

/-- The loop passes over a cancelled waiter at no cost, and stops at the last it wakes. -/
example : (WaitQueue.mk [2, 0, 3, 1, 4] fun w => if w = 0 ∨ w = 1 then .cancelled
    else Waiter.pending).wakeCalls 2 = [(2, true), (0, false), (3, true)] := by decide

end WaitQueue

/-! ### The life of a queue -/

/-- What the callers of a queue do to it. -/
inductive QueueOp
  /-- `_append_waiter` of an object that `_waiter_factory` has just made. -/
  | append
  /-- `_discard_waiter`. -/
  | discard (w : ℕ)
  /-- `future.cancel()`. -/
  | cancel (w : ℕ)
  /-- A thread comes back from `waiter.acquire()`, and its lock is locked again. -/
  | relock (w : ℕ)
  /-- `_notify_unlocked(n)`. -/
  | notify (n : ℤ)
  /-- `_notify_all_unlocked()`. -/
  | notifyAll
  deriving Repr

/-- A queue with the record of its life. -/
structure QueueHistory where
  queue : WaitQueue ℕ := {}
  /-- How many waiter objects were made: they are `0`, `1`, … -/
  made : ℕ := 0
  /-- What the wake loops took out of the deque, in order. -/
  popped : List ℕ := []
  /-- What they woke, in order. -/
  woken : List ℕ := []
  /-- What a discard took out of the deque. -/
  discarded : List ℕ := []

namespace QueueHistory

/-- The record of `_notify_unlocked(n)`. -/
def notify (h : QueueHistory) (n : ℤ) : QueueHistory :=
  { h with
    queue := h.queue.notify n
    popped := h.popped ++ h.queue.poppedBy n
    woken := h.woken ++ h.queue.wokenBy n }

/-- One operation. -/
def step (h : QueueHistory) : QueueOp → QueueHistory
  | .append => { h with queue := h.queue.appendWaiter h.made, made := h.made + 1 }
  | .discard w =>
      { h with
        queue := h.queue.discardWaiter w
        discarded := if w ∈ h.queue.waiters then w :: h.discarded else h.discarded }
  | .cancel w => { h with queue := h.queue.cancelWaiter w }
  | .relock w =>
      if h.queue.state w = .woken then
        { h with queue.state := Function.update h.queue.state w .pending }
      else h
  | .notify n => h.notify n
  | .notifyAll => h.notify h.queue.waiters.length

/-- The life of a queue that starts empty. -/
def run (ops : List QueueOp) : QueueHistory := ops.foldl step {}

/-- A waiter that was woken while it gave up discards itself to no effect. -/
example : let h := run [.append, .append, .append, .cancel 1, .notify 1, .discard 0, .notify 1]
    (h.woken, h.popped, h.queue.waiters) = ([0, 2], [0, 1, 2], []) := by decide

/-- What holds of every history. -/
structure Sound (h : QueueHistory) : Prop where
  /-- Objects leave the deque at the front, in the order in which they were made. -/
  order : (h.popped ++ h.queue.waiters).Pairwise (· < ·)
  /-- Every object that was made is in exactly one place. -/
  account : (h.popped ++ h.queue.waiters ++ h.discarded).Perm (List.range h.made)
  /-- Only popped objects are woken, and in the same order. -/
  woken : h.woken.Sublist h.popped
  /-- A popped object that was not woken had been cancelled. -/
  passed : ∀ w ∈ h.popped, w ∉ h.woken → h.queue.state w = .cancelled
  /-- An object of the deque was not woken. -/
  queued : ∀ w ∈ h.queue.waiters, h.queue.state w = .pending ∨ h.queue.state w = .cancelled

/-- No waiter is lost, and none is woken twice. -/
structure NoneLost (h : QueueHistory) : Prop where
  /-- Objects are woken in the order in which they were made. -/
  order : h.woken.Pairwise (· < ·)
  once : h.woken.Nodup
  /-- Every object is still in the deque, was woken, was discarded, or had been cancelled
  when a notify passed over it. -/
  found : ∀ w < h.made, w ∈ h.queue.waiters ∨ w ∈ h.woken ∨ w ∈ h.discarded ∨
    w ∈ h.popped ∧ h.queue.state w = .cancelled
  /-- Whoever was woken is not in the deque any more. -/
  gone : ∀ w ∈ h.woken, w ∉ h.queue.waiters
  /-- Discarding an object that was popped changes nothing. -/
  discard : ∀ w ∈ h.popped, h.queue.discardWaiter w = h.queue

namespace Sound

variable {h : QueueHistory}

theorem lt_made (hs : h.Sound) {w : ℕ} (hw : w ∈ h.popped ++ h.queue.waiters) : w < h.made :=
  List.mem_range.1 (hs.account.subset (List.mem_append_left _ hw))

theorem not_mem_queue (hs : h.Sound) {w : ℕ} (hw : w ∈ h.popped) : w ∉ h.queue.waiters :=
  fun hq => absurd ((List.pairwise_append.1 hs.order).2.2 w hw w hq) (Nat.lt_irrefl w)

protected theorem append (hs : h.Sound) : (h.step .append).Sound where
  order := by
    rw [show (h.step .append).popped ++ (h.step .append).queue.waiters =
      h.popped ++ h.queue.waiters ++ [h.made] from (List.append_assoc ..).symm]
    refine List.pairwise_append.2 ⟨hs.order, List.pairwise_singleton .., fun w hw v hv => ?_⟩
    rw [List.mem_singleton.1 hv]
    exact hs.lt_made hw
  account := by
    have hp : (h.popped ++ (h.queue.waiters ++ [h.made]) ++ h.discarded).Perm
        (h.popped ++ h.queue.waiters ++ h.discarded ++ [h.made]) := by
      rw [← List.append_assoc, List.append_assoc _ [h.made], List.append_assoc _ h.discarded]
      exact List.perm_append_comm.append_left _
    refine hp.trans ?_
    rw [show (h.step .append).made = h.made + 1 from rfl, List.range_succ]
    exact hs.account.append_right _
  woken := hs.woken
  passed w hw hnot := by
    have hlt := hs.lt_made (List.mem_append_left _ hw)
    exact (Function.update_of_ne (Nat.ne_of_lt hlt) ..).trans (hs.passed w hw hnot)
  queued w hw := by
    rcases List.mem_append.1 hw with hw | hw
    · have hlt := hs.lt_made (List.mem_append_right _ hw)
      have heq : (h.step .append).queue.state w = h.queue.state w :=
        Function.update_of_ne (Nat.ne_of_lt hlt) ..
      exact heq ▸ hs.queued w hw
    · rw [List.mem_singleton.1 hw]
      exact .inl (Function.update_self ..)

protected theorem discard (hs : h.Sound) (w : ℕ) : (h.step (.discard w)).Sound where
  order := hs.order.sublist (List.erase_sublist.append_left _)
  account := by
    by_cases hw : w ∈ h.queue.waiters
    · have hp : (h.popped ++ h.queue.waiters.erase w ++ w :: h.discarded).Perm
          (h.popped ++ h.queue.waiters ++ h.discarded) := by
        rw [List.append_assoc, List.append_assoc]
        refine List.Perm.append_left _ ?_
        exact List.perm_middle.trans ((List.perm_cons_erase hw).symm.append_right _)
      have hd : (h.step (.discard w)).discarded = w :: h.discarded := if_pos hw
      rw [hd]
      exact hp.trans hs.account
    · have hd : (h.step (.discard w)).discarded = h.discarded := if_neg hw
      have hq : (h.step (.discard w)).queue = h.queue := WaitQueue.discardWaiter_of_not_mem hw
      rw [hd, hq]
      exact hs.account
  woken := hs.woken
  passed := hs.passed
  queued v hv := hs.queued v (List.mem_of_mem_erase hv)

protected theorem cancel (hs : h.Sound) (w : ℕ) : (h.step (.cancel w)).Sound where
  order := by
    rw [show (h.step (.cancel w)).queue.waiters = h.queue.waiters from
      h.queue.cancelWaiter_waiters w]
    exact hs.order
  account := by
    rw [show (h.step (.cancel w)).queue.waiters = h.queue.waiters from
      h.queue.cancelWaiter_waiters w]
    exact hs.account
  woken := hs.woken
  passed v hv hnot := by
    rw [show (h.step (.cancel w)).queue.state v = _ from h.queue.cancelWaiter_state w v,
      hs.passed v hv hnot, ite_self]
  queued v hv := by
    rw [show (h.step (.cancel w)).queue.state v = _ from h.queue.cancelWaiter_state w v]
    split_ifs with hc
    · exact .inr rfl
    · exact hs.queued v (h.queue.cancelWaiter_waiters w ▸ hv)

protected theorem relock (hs : h.Sound) (w : ℕ) : (h.step (.relock w)).Sound := by
  by_cases hw : h.queue.state w = .woken
  · -- whoever was woken has left the deque, and nobody passed over was woken
    have hkeep : ∀ v, h.queue.state v ≠ .woken →
        Function.update h.queue.state w .pending v = h.queue.state v :=
      fun v hv => Function.update_of_ne (fun h' : v = w => hv (h' ▸ hw)) ..
    rw [step, if_pos hw]
    refine ⟨hs.order, hs.account, hs.woken, fun v hv hnot => ?_, fun v hv => ?_⟩
    · have hc := hs.passed v hv hnot
      exact (hkeep v (by rw [hc]; decide)).trans hc
    · rcases hs.queued v hv with hp | hc
      · exact .inl ((hkeep v (by rw [hp]; decide)).trans hp)
      · exact .inr ((hkeep v (by rw [hc]; decide)).trans hc)
  · rw [step, if_neg hw]
    exact hs

protected theorem notify (hs : h.Sound) (n : ℤ) : (h.notify n).Sound where
  order := by
    rw [show (h.notify n).popped ++ (h.notify n).queue.waiters =
      h.popped ++ (h.queue.poppedBy n ++ (h.queue.notify n).waiters) from List.append_assoc ..,
      h.queue.poppedBy_append]
    exact hs.order
  account := by
    rw [show (h.notify n).popped ++ (h.notify n).queue.waiters =
      h.popped ++ (h.queue.poppedBy n ++ (h.queue.notify n).waiters) from List.append_assoc ..,
      h.queue.poppedBy_append]
    exact hs.account
  woken := hs.woken.append (h.queue.wokenBy_sublist n)
  passed w hw hnot := by
    obtain ⟨hold, hnew⟩ := not_or.1 (mt List.mem_append.2 hnot)
    have heq : (h.notify n).queue.state w = h.queue.state w :=
      (h.queue.notify_state_wokenBy n w).trans (if_neg hnew)
    rw [heq]
    rcases List.mem_append.1 hw with hw | hw
    · exact hs.passed w hw hold
    · -- the loop passed over it, and the deque holds no other dead objects
      have hdead := WaitQueue.live_of_mem_poppedBy hw hnew
      have hq : w ∈ h.queue.waiters := h.queue.poppedBy_append n ▸ List.mem_append_left _ hw
      rcases hs.queued w hq with hp | hc
      · rw [hp] at hdead
        exact absurd hdead (by decide)
      · exact hc
  queued w hw := by
    have hnot : w ∉ h.queue.wokenBy n := fun hw' => by
      have hord := hs.order
      rw [← h.queue.poppedBy_append n, List.pairwise_append] at hord
      exact Nat.lt_irrefl w
        ((List.pairwise_append.1 hord.2.1).2.2 w ((h.queue.wokenBy_sublist n).subset hw') w hw)
    have heq : (h.notify n).queue.state w = h.queue.state w :=
      (h.queue.notify_state_wokenBy n w).trans (if_neg hnot)
    rw [heq]
    exact hs.queued w ((h.queue.notify_suffix n).subset hw)

/-- **An operation keeps the account.** -/
protected theorem step (hs : h.Sound) (op : QueueOp) : (h.step op).Sound := by
  cases op with
  | append => exact hs.append
  | discard w => exact hs.discard w
  | cancel w => exact hs.cancel w
  | relock w => exact hs.relock w
  | notify n => exact hs.notify n
  | notifyAll => exact hs.notify _

theorem noneLost (hs : h.Sound) : h.NoneLost := by
  have horder := (List.pairwise_append.1 hs.order).1.sublist hs.woken
  refine ⟨horder, horder.imp Nat.ne_of_lt, fun w hw => ?_,
    fun w hw => hs.not_mem_queue (hs.woken.subset hw),
    fun w hw => WaitQueue.discardWaiter_of_not_mem (hs.not_mem_queue hw)⟩
  rcases List.mem_append.1 (hs.account.symm.subset (List.mem_range.2 hw)) with hw | hw
  · rcases List.mem_append.1 hw with hpop | hq
    · by_cases hwoken : w ∈ h.woken
      · exact .inr (.inl hwoken)
      · exact .inr (.inr (.inr ⟨hpop, hs.passed w hpop hwoken⟩))
    · exact .inl hq
  · exact .inr (.inr (.inl hw))

end Sound

/-- **Every history is sound.** -/
theorem sound_run (ops : List QueueOp) : (run ops).Sound := by
  suffices H : ∀ h : QueueHistory, h.Sound → (ops.foldl step h).Sound by
    exact H {} ⟨List.Pairwise.nil, List.Perm.refl _, List.Sublist.refl _, by simp, by simp⟩
  induction ops with
  | nil => exact fun h hs => hs
  | cons op ops ih => exact fun h hs => ih _ (hs.step op)

end QueueHistory

/-- **The wake loop is exact, and over the whole life of a queue no waiter is lost or
woken twice.** -/
theorem wake_loop_exact {ω : Type} [DecidableEq ω] :
    (∀ (q : WaitQueue ω) (n : ℤ), q.NotifyExact n) ∧
    (∀ q : WaitQueue ω, q.wokenBy q.waiters.length = q.liveWaiters.eraseDups ∧
      (∀ w, q.notifyAll.state w = if w ∈ q.liveWaiters then .woken else q.state w) ∧
      q.notifyAll.waiters = []) ∧
    ∀ ops : List QueueOp, (QueueHistory.run ops).NoneLost :=
  ⟨fun q n => q.notifyExact n,
    fun q => ⟨q.wokenBy_length, q.notifyAll_state, q.notifyAll_waiters⟩,
    fun ops => (QueueHistory.sound_run ops).noneLost⟩

end Rwlocker

/-
# Sleeping until a predicate holds

A monitor in its own terms: whether a predicate on some shared state holds, who
sleeps until it does, and whether a change of the state is still to be announced.
Sleepers go to sleep only while the predicate is false, a change has to be
announced, and an announcement wakes everybody.

Then nobody sleeps behind a predicate that holds, unless an announcement is due
(`Move.watched`).
-/

import Mathlib.Data.Set.Basic

namespace Monitor

variable {ω : Type*}

/-- The state of a monitor. -/
@[ext]
structure Board (ω : Type*) where
  ready : Prop
  asleep : Set ω
  due : Prop

/-- What may happen in a monitor. -/
inductive Move (b : Board ω) : Board ω → Prop
  | sleep (w : ω) (hb : ¬ b.ready) : Move b { b with asleep := insert w b.asleep }
  | wake {s : Set ω} (hs : s ⊆ b.asleep) : Move b { b with asleep := s }
  | change (r : Prop) {d : Prop} (hd : d) : Move b { b with ready := r, due := d }
  | announce (d : Prop) : Move b { b with asleep := ∅, due := d }

/-- Nobody sleeps behind a predicate that holds, unless an announcement is due. -/
def Board.Watched (b : Board ω) : Prop := b.ready → b.asleep.Nonempty → b.due

theorem watched_of_empty {b : Board ω} (h : b.asleep = ∅) : b.Watched :=
  fun _ hs => absurd h hs.ne_empty

/-- **Every move keeps watch.** -/
theorem Move.watched {b b' : Board ω} (hmv : Move b b') (h : b.Watched) : b'.Watched := by
  cases hmv with
  | sleep w hb => exact fun hr _ => absurd hr hb
  | wake hs => exact fun hr hne => h hr (hne.mono hs)
  | change r hd => exact fun _ _ => hd
  | announce d => exact watched_of_empty rfl

end Monitor

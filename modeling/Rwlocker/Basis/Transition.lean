/-
# Runs of a labelled transition system

A transition system is a relation `step : σ → α → σ → Prop`: in state `s` the
action `a` may lead to `s'`.  `Run` is a finite sequence of steps together with
its actions, `Reachable` the end of a run that starts in an initial state.

Every safety statement is one of three things: an invariant, which holds
initially and survives a step (`Reachable.invariant`, `Run.invariant`), a fact
that lasts until a first step of some kind (`Run.kept_or_broken`), or a fact
carried over from an abstract system that the concrete one simulates
(`Simulates.reachable`).  A system that has an answer to each step of another can follow
its runs (`Run.follow`), and two that answer each other have the same runs
(`LockStep.run_iff`).  A bound on what happens along a run comes from a potential that
pays for it (`Run.cost_le`, `Run.cost_le_add`, `Run.countP_le`), and so does termination
(`Run.length_le`, `exists_maximal`).  `restrict` cuts a system down to the steps its users
promise to make, and `Run.of_replay` replays a list of actions through a step function, so
that a concrete run is a computation.
-/

import Mathlib.Algebra.BigOperators.Group.Finset.Basic
import Mathlib.Algebra.Ring.Nat
import Mathlib.Logic.Relation

namespace Transition

variable {σ α β : Type*}

/-- `Run step s as s'`: the actions `as`, in order, lead from `s` to `s'`. -/
inductive Run (step : σ → α → σ → Prop) : σ → List α → σ → Prop
  | nil (s : σ) : Run step s [] s
  | cons {s s' s'' : σ} {a : α} {as : List α} :
      step s a s' → Run step s' as s'' → Run step s (a :: as) s''

/-- The states that end a run from an initial state. -/
def Reachable (step : σ → α → σ → Prop) (init : σ → Prop) (s : σ) : Prop :=
  ∃ s₀ as, init s₀ ∧ Run step s₀ as s

/-- The steps of a system that also satisfy `P`. -/
def restrict (P : σ → α → Prop) (step : σ → α → σ → Prop) : σ → α → σ → Prop :=
  fun s a s' => P s a ∧ step s a s'

namespace Run

variable {step step' : σ → α → σ → Prop} {s s' s'' : σ} {a : α} {as bs : List α}

theorem single (h : step s a s') : Run step s [a] s' :=
  .cons h (.nil _)

theorem append (h : Run step s as s') (h' : Run step s' bs s'') :
    Run step s (as ++ bs) s'' := by
  induction h with
  | nil => exact h'
  | cons hstep _ ih => exact .cons hstep (ih h')

/-- A run of two lists passes through a state between them. -/
theorem split (h : Run step s (as ++ bs) s') :
    ∃ s₁, Run step s as s₁ ∧ Run step s₁ bs s' := by
  induction as generalizing s with
  | nil => exact ⟨s, .nil s, h⟩
  | cons a as ih =>
      cases h with
      | cons hst hrun =>
          obtain ⟨s₁, h₁, h₂⟩ := ih hrun
          exact ⟨s₁, .cons hst h₁, h₂⟩

/-- **A property that every step keeps is kept by a run.** -/
theorem invariant {I : σ → Prop} (hstep : ∀ s a s', I s → step s a s' → I s')
    (h : Run step s as s') (hs : I s) : I s' := by
  induction h with
  | nil => exact hs
  | cons hst _ ih => exact ih (hstep _ _ _ hs hst)

/-- A run of a system is a run of every system with more steps. -/
theorem mono (hle : ∀ s a s', step s a s' → step' s a s') (h : Run step s as s') :
    Run step' s as s' := by
  induction h with
  | nil => exact .nil _
  | cons hst _ ih => exact .cons (hle _ _ _ hst) ih

/-- Where every step leaves no choice, neither does a run. -/
theorem unique (hdet : ∀ s a s₁ s₂, step s a s₁ → step s a s₂ → s₁ = s₂)
    (h : Run step s as s') (h' : Run step s as s'') : s' = s'' := by
  induction h with
  | nil =>
      cases h'
      rfl
  | cons hst _ ih =>
      cases h' with
      | cons hst' hrun' =>
          rw [hdet _ _ _ _ hst' hst] at hrun'
          exact ih hrun'

/-- A promise that every action of a run keeps. -/
theorem of_forall {P : σ → α → Prop} {Q : α → Prop} (h : Run (restrict P step) s as s')
    (hall : ∀ a ∈ as, Q a) : Run (restrict (fun s a => P s a ∧ Q a) step) s as s' := by
  induction h with
  | nil => exact .nil _
  | cons hst _ ih =>
      exact .cons ⟨⟨hst.1, hall _ (List.mem_cons_self ..)⟩, hst.2⟩
        (ih fun a ha => hall a (List.mem_cons_of_mem _ ha))

/-- A promise that a run does not keep is broken at one of its steps. -/
theorem broken {P Q : σ → α → Prop} (h : Run (restrict P step) s as s')
    (hn : ¬ Run (restrict (fun s a => P s a ∧ Q s a) step) s as s') :
    ∃ as₁ a as₂ s₁ s₂, as = as₁ ++ a :: as₂ ∧ Run (restrict P step) s as₁ s₁ ∧ P s₁ a ∧
      step s₁ a s₂ ∧ ¬ Q s₁ a := by
  induction h with
  | nil => exact absurd (.nil _) hn
  | @cons s s₁ s' a as hst hrun ih =>
      by_cases hQ : Q s a
      · obtain ⟨as₁, b, as₂, s₂, s₃, rfl, hrun₁, hP, hb, hno⟩ :=
          ih fun hrun' => hn (.cons ⟨⟨hst.1, hQ⟩, hst.2⟩ hrun')
        exact ⟨a :: as₁, b, as₂, s₂, s₃, rfl, .cons hst hrun₁, hP, hb, hno⟩
      · exact ⟨[], a, as, s, s₁, rfl, .nil s, hst.1, hst.2, hQ⟩

/-- **The rule for a fact that one kind of step destroys for good.**  `I` holds as long
as every step keeps the promise `Q`, and `J` from the first one on that does not. -/
theorem kept_or_broken {P Q : σ → α → Prop} {I J : σ → Prop}
    (hkeep : ∀ s a s', I s → P s a → Q s a → step s a s' → I s')
    (hbreak : ∀ s a s', I s → P s a → ¬ Q s a → step s a s' → J s')
    (hstay : ∀ s a s', J s → P s a → step s a s' → J s') (hdisj : ∀ s, I s → ¬ J s)
    (h : Run (restrict P step) s as s') (hs : I s) :
    Run (restrict (fun s a => P s a ∧ Q s a) step) s as s' ∧ I s' ∨
      ¬ Run (restrict (fun s a => P s a ∧ Q s a) step) s as s' ∧ J s' := by
  have hinv : Run (restrict (fun s a => P s a ∧ Q s a) step) s as s' → I s' := fun hrun =>
    hrun.invariant (fun _ _ _ hI hst => hkeep _ _ _ hI hst.1.1 hst.1.2 hst.2) hs
  suffices hJ : Run (restrict (fun s a => P s a ∧ Q s a) step) s as s' ∨ J s' by
    rcases hJ with hrun | hJ
    · exact .inl ⟨hrun, hinv hrun⟩
    · exact .inr ⟨fun hrun => hdisj _ (hinv hrun) hJ, hJ⟩
  clear hinv
  induction h with
  | nil => exact .inl (.nil _)
  | @cons s s₁ s' a as hst hrun ih =>
      by_cases hQ : Q s a
      · exact (ih (hkeep _ _ _ hs hst.1 hQ hst.2)).imp_left (.cons ⟨⟨hst.1, hQ⟩, hst.2⟩)
      · exact .inr (hrun.invariant (fun _ _ _ hJ hst => hstay _ _ _ hJ hst.1 hst.2)
          (hbreak _ _ _ hs hst.1 hQ hst.2))

end Run

namespace Reachable

variable {step step' : σ → α → σ → Prop} {init : σ → Prop} {s s' : σ} {a : α} {as : List α}

theorem start (h : init s) : Reachable step init s :=
  ⟨s, [], h, .nil s⟩

theorem run (h : Reachable step init s) (hr : Run step s as s') : Reachable step init s' := by
  obtain ⟨s₀, bs, h₀, hb⟩ := h
  exact ⟨s₀, bs ++ as, h₀, hb.append hr⟩

theorem tail (h : Reachable step init s) (hst : step s a s') : Reachable step init s' :=
  h.run (.single hst)

/-- **The invariant rule.**  What holds initially and is kept by every step
holds in every reachable state. -/
theorem invariant {I : σ → Prop} (hinit : ∀ s, init s → I s)
    (hstep : ∀ s a s', I s → step s a s' → I s') (h : Reachable step init s) : I s := by
  obtain ⟨s₀, as, h₀, hr⟩ := h
  exact hr.invariant hstep (hinit s₀ h₀)

theorem mono (hle : ∀ s a s', step s a s' → step' s a s') (h : Reachable step init s) :
    Reachable step' init s := by
  obtain ⟨s₀, as, h₀, hr⟩ := h
  exact ⟨s₀, as, h₀, hr.mono hle⟩

end Reachable

/-- **Forward simulation.**  `R` relates each concrete state to an abstract one,
and a concrete step is matched by any number of abstract steps. -/
structure Simulates (step : σ → α → σ → Prop) (init : σ → Prop)
    (astep : β → β → Prop) (ainit : β → Prop) (R : σ → β → Prop) : Prop where
  init : ∀ s, init s → ∃ b, ainit b ∧ R s b
  step : ∀ s b a s', R s b → step s a s' → ∃ b', R s' b' ∧ Relation.ReflTransGen astep b b'

/-- **An abstract invariant holds of the concrete system.**  Every reachable
concrete state is related to an abstract state that satisfies it. -/
theorem Simulates.reachable {step : σ → α → σ → Prop} {init : σ → Prop}
    {astep : β → β → Prop} {ainit : β → Prop} {R : σ → β → Prop}
    (h : Simulates step init astep ainit R) {J : β → Prop} (hinit : ∀ b, ainit b → J b)
    (hstep : ∀ b b', J b → astep b b' → J b') {s : σ} (hs : Reachable step init s) :
    ∃ b, R s b ∧ J b := by
  refine hs.invariant (I := fun s => ∃ b, R s b ∧ J b) ?_ ?_
  · intro s hs
    obtain ⟨b, hb, hR⟩ := h.init s hs
    exact ⟨b, hR, hinit b hb⟩
  · rintro s a s' ⟨b, hR, hJ⟩ hst
    obtain ⟨b', hR', hab⟩ := h.step s b a s' hR hst
    refine ⟨b', hR', ?_⟩
    clear hR'
    induction hab with
    | refl => exact hJ
    | tail _ hbc ih => exact hstep _ _ ih hbc

/-- **A run is followed step by step** by a system that has an answer to each step. -/
theorem Run.follow {step : σ → α → σ → Prop} {step' : β → α → β → Prop} {R : σ → β → Prop}
    (hforth : ∀ s b a s', R s b → step s a s' → ∃ b', step' b a b' ∧ R s' b') {s s' : σ} {b : β}
    {as : List α} (hrun : Run step s as s') (hR : R s b) :
    ∃ b', Run step' b as b' ∧ R s' b' := by
  induction hrun generalizing b with
  | nil => exact ⟨b, .nil b, hR⟩
  | cons hst _ ih =>
      obtain ⟨b₁, hst', hR₁⟩ := hforth _ _ _ _ hR hst
      obtain ⟨b', hrun', hR'⟩ := ih hR₁
      exact ⟨b', .cons hst' hrun', hR'⟩

/-- Two partial step functions with the same guard. -/
theorem rel_guard {R : σ → β → Prop} {g g' : Prop} [Decidable g] [Decidable g'] {s : σ} {b : β}
    (hg : g' ↔ g) (h : g → R s b) :
    Option.Rel R (if g then some s else none) (if g' then some b else none) := by
  by_cases hyes : g
  · rw [if_pos hyes, if_pos (hg.2 hyes)]
    exact .some (h hyes)
  · rw [if_neg hyes, if_neg (mt hg.1 hyes)]
    exact .none

/-- The answer to a step. -/
theorem exists_of_rel {R : σ → β → Prop} {s : σ} {r : Option β} (h : Option.Rel R (some s) r) :
    ∃ b, r = some b ∧ R s b := by
  cases h with
  | some h => exact ⟨_, rfl, h⟩

theorem rel_imp {R R' : σ → β → Prop} {r : Option σ} {r' : Option β} (h : Option.Rel R r r')
    (himp : ∀ s b, r = some s → R s b → R' s b) : Option.Rel R' r r' := by
  cases h with
  | some h => exact .some (himp _ _ rfl h)
  | none => exact .none

/-- Related answers look the same to whoever sees the same in related states. -/
theorem map_eq_of_rel {γ : Type*} {R : σ → β → Prop} {r : Option σ} {r' : Option β} {f : σ → γ}
    {g : β → γ} (h : Option.Rel R r r') (hfg : ∀ s b, R s b → g b = f s) :
    r'.map g = r.map f := by
  cases h with
  | some h => exact congrArg some (hfg _ _ h)
  | none => rfl

/-- **Lock step.**  Two systems over the same actions, and a relation between their states
that each step of one carries over to a step of the other. -/
structure LockStep (step : σ → α → σ → Prop) (step' : β → α → β → Prop)
    (R : σ → β → Prop) : Prop where
  forth : ∀ s b a s', R s b → step s a s' → ∃ b', step' b a b' ∧ R s' b'
  back : ∀ s b a b', R s b → step' b a b' → ∃ s', step s a s' ∧ R s' b'

namespace LockStep

variable {step : σ → α → σ → Prop} {step' : β → α → β → Prop} {R : σ → β → Prop}
  {s s' : σ} {b b' : β} {as : List α}

theorem swap (h : LockStep step step' R) : LockStep step' step fun b s => R s b :=
  ⟨fun b s => h.back s b, fun b s => h.forth s b⟩

/-- A run of one system is followed by the other. -/
theorem run_forth (h : LockStep step step' R) (hrun : Run step s as s') (hR : R s b) :
    ∃ b', Run step' b as b' ∧ R s' b' :=
  hrun.follow h.forth hR

/-- **Systems in lock step have the same runs.** -/
theorem run_iff (h : LockStep step step' R) (hR : R s b) :
    (∃ s', Run step s as s') ↔ ∃ b', Run step' b as b' := by
  constructor
  · rintro ⟨s', hrun⟩
    obtain ⟨b', hrun', -⟩ := h.run_forth hrun hR
    exact ⟨b', hrun'⟩
  · rintro ⟨b', hrun⟩
    obtain ⟨s', hrun', -⟩ := h.swap.run_forth hrun hR
    exact ⟨s', hrun'⟩

/-- The states that the same actions lead to are related, if the second system leaves no
choice. -/
theorem related (h : LockStep step step' R)
    (hdet : ∀ b a b₁ b₂, step' b a b₁ → step' b a b₂ → b₁ = b₂) (hrun : Run step s as s')
    (hrun' : Run step' b as b') (hR : R s b) : R s' b' := by
  obtain ⟨b₁, hrun₁, hR₁⟩ := h.run_forth hrun hR
  rwa [hrun'.unique hdet hrun₁]

end LockStep

/-- What a list of actions costs, step by step. -/
def cost (next : σ → α → Option σ) (price : σ → α → ℕ) : σ → List α → ℕ
  | _, [] => 0
  | s, a :: as => price s a + (next s a).elim 0 fun s' => cost next price s' as

/-- **The budget rule.**  When every step pays its price out of `Φ` and out of what it brings
in, a run costs no more than `Φ` held at its start and its steps brought in. -/
theorem Run.cost_le_add {step : σ → α → σ → Prop} {next : σ → α → Option σ}
    {price gain : σ → α → ℕ} {I : σ → Prop} {Φ : σ → ℕ}
    (hnext : ∀ s a s', step s a s' → next s a = some s')
    (hstep : ∀ s a s', I s → step s a s' → I s' ∧ price s a + Φ s' ≤ Φ s + gain s a)
    {s s' : σ} {as : List α} (h : Run step s as s') (hs : I s) :
    cost next price s as + Φ s' ≤ Φ s + cost next gain s as := by
  induction h with
  | nil => simp [cost]
  | @cons s s₁ s' a as hst _ ih =>
      obtain ⟨hI, hpay⟩ := hstep _ _ _ hs hst
      have := ih hI
      simp only [cost, hnext _ _ _ hst, Option.elim_some]
      omega

theorem cost_zero (next : σ → α → Option σ) (s : σ) (as : List α) :
    cost next (fun _ _ => 0) s as = 0 := by
  induction as generalizing s with
  | nil => rfl
  | cons a as ih => cases h : next s a <;> simp [cost, h, ih]

theorem cost_mul (next : σ → α → Option σ) (price : σ → α → ℕ) (k : ℕ) (s : σ) (as : List α) :
    cost next (fun s a => k * price s a) s as = k * cost next price s as := by
  induction as generalizing s with
  | nil => rfl
  | cons a as ih => cases h : next s a <;> simp [cost, h, ih, Nat.mul_add]

/-- **The potential rule.**  When every step pays its price out of `Φ`, a run costs no
more than `Φ` held at its start. -/
theorem Run.cost_le {step : σ → α → σ → Prop} {next : σ → α → Option σ} {price : σ → α → ℕ}
    {I : σ → Prop} {Φ : σ → ℕ} (hnext : ∀ s a s', step s a s' → next s a = some s')
    (hstep : ∀ s a s', I s → step s a s' → I s' ∧ price s a + Φ s' ≤ Φ s)
    {s s' : σ} {as : List α} (h : Run step s as s') (hs : I s) :
    cost next price s as + Φ s' ≤ Φ s := by
  have hle : cost next price s as + Φ s' ≤ Φ s + cost next (fun _ _ => 0) s as :=
    h.cost_le_add hnext hstep hs
  rwa [cost_zero, Nat.add_zero] at hle

/-- The budget rule for the number of steps of kind `p`, when the action alone decides the
kind of a step and what it brings in. -/
theorem Run.countP_le {step : σ → α → σ → Prop} {I : σ → Prop} {Φ : σ → ℕ} {p : α → Bool}
    {w : α → ℕ}
    (hstep : ∀ s a s', I s → step s a s' → I s' ∧ (p a).toNat + Φ s' ≤ Φ s + w a)
    {s s' : σ} {as : List α} (h : Run step s as s') (hs : I s) :
    as.countP p + Φ s' ≤ Φ s + (as.map w).sum := by
  induction h with
  | nil => simp
  | @cons s s₁ s' a as hst _ ih =>
      obtain ⟨hI, hpay⟩ := hstep _ _ _ hs hst
      have hrest := ih hI
      rw [List.countP_cons, List.map_cons, List.sum_cons]
      cases hp : p a with
      | false =>
          simp only [hp, Bool.toNat_false, Bool.false_eq_true, if_false] at hpay ⊢
          omega
      | true =>
          simp only [hp, Bool.toNat_true, if_true] at hpay ⊢
          omega

/-- **Termination.**  When every step lowers `Φ`, a run is no longer than `Φ` at its start. -/
theorem Run.length_le {step : σ → α → σ → Prop} {I : σ → Prop} {Φ : σ → ℕ}
    (hstep : ∀ s a s', I s → step s a s' → I s' ∧ Φ s' < Φ s)
    {s s' : σ} {as : List α} (h : Run step s as s') (hs : I s) : as.length + Φ s' ≤ Φ s := by
  induction h with
  | nil => simp
  | cons hst _ ih =>
      obtain ⟨hI, hlt⟩ := hstep _ _ _ hs hst
      have hrest := ih hI
      rw [List.length_cons]
      omega

/-- What the components of a system amount to, when one of them changes. -/
theorem sum_add_of_ne {ι : Type*} [Fintype ι] {f g : ι → ℕ} (i : ι)
    (h : ∀ j, j ≠ i → g j = f j) : ∑ j, g j + f i = ∑ j, f j + g i := by
  classical
  have hrest : ∑ j ∈ Finset.univ.erase i, g j = ∑ j ∈ Finset.univ.erase i, f j :=
    Finset.sum_congr rfl fun j hj => h j (Finset.ne_of_mem_erase hj)
  have hf := Finset.add_sum_erase Finset.univ f (Finset.mem_univ i)
  have hg := Finset.add_sum_erase Finset.univ g (Finset.mem_univ i)
  omega

/-- A terminating system has a run that cannot be continued, from every state. -/
theorem exists_maximal {step : σ → α → σ → Prop} {I : σ → Prop} {Φ : σ → ℕ}
    (hstep : ∀ s a s', I s → step s a s' → I s' ∧ Φ s' < Φ s) (s : σ) (hs : I s) :
    ∃ as s', Run step s as s' ∧ ∀ a s'', ¬ step s' a s'' := by
  induction hk : Φ s using Nat.strongRecOn generalizing s with
  | _ k ih =>
      by_cases hnext : ∃ a s₁, step s a s₁
      · obtain ⟨a, s₁, hst⟩ := hnext
        obtain ⟨hI, hlt⟩ := hstep _ _ _ hs hst
        obtain ⟨as, s', hrun, hmax⟩ := ih _ (hk ▸ hlt) s₁ hI rfl
        exact ⟨a :: as, s', .cons hst hrun, hmax⟩
      · exact ⟨[], s, .nil s, fun a s₁ hst => hnext ⟨a, s₁, hst⟩⟩

/-- Replays a list of actions through a partial step function. -/
def replay (next : σ → α → Option σ) : σ → List α → Option σ
  | s, [] => some s
  | s, a :: as => (next s a).bind fun s' => replay next s' as

/-- **A successful replay is a run** of every system that has the steps of the
function. -/
theorem Run.of_replay {next : σ → α → Option σ} {step : σ → α → σ → Prop}
    (hnext : ∀ s a s', next s a = some s' → step s a s') :
    ∀ {as : List α} {s s' : σ}, replay next s as = some s' → Run step s as s'
  | [], s, s', h => by
      obtain rfl : s = s' := by simpa [replay] using h
      exact .nil s
  | a :: as, s, s', h => by
      obtain ⟨t, ht, hr⟩ := Option.bind_eq_some_iff.1 h
      exact .cons (hnext s a t ht) (Run.of_replay hnext hr)

end Transition

import Mathlib.Logic.Basic

/-!
# Triples of state-passing programs

`Triple P x Q` says that the program `x`, started in a state with `P`, ends in a state that
is related to its result by `Q`. There is one rule for each way to build a program; `loop`
is a bounded loop with an early exit, and `Triple.loop` its invariant rule.
-/

set_option autoImplicit false

namespace Cdc2Net.Lib.StateTriple

universe u

variable {σ α β : Type u}

/-- A loop that runs `body` for `i`, `i + 1`, … `n` times, unless one of the runs gives a
result; `done` follows the last. -/
def loop (body : Nat → StateM σ (Option β)) (done : StateM σ β) : Nat → Nat → StateM σ β
  | 0, _ => done
  | n + 1, i => do
    match ← body i with
    | some b => pure b
    | none => loop body done n (i + 1)

/-- After a run of a loop's body: `S` of its result, or `I` for the next run. -/
def Exit (S : β → σ → Prop) (I : σ → Prop) : Option β → σ → Prop
  | some b => S b
  | none => I

/-- From `P` the program comes to `Q`. -/
def Triple (P : σ → Prop) (x : StateM σ α) (Q : α → σ → Prop) : Prop :=
  ∀ s, P s → Q (x.run s).1 (x.run s).2

variable {P P' : σ → Prop} {x : StateM σ α} {f : α → StateM σ β} {Q R : α → σ → Prop}
variable {S : β → σ → Prop}

theorem Triple.pure {a : α} (h : ∀ s, P s → Q a s) : Triple P (pure a) Q := h

theorem Triple.bind (hx : Triple P x R) (hf : ∀ a, Triple (R a) (f a) S) :
    Triple P (x >>= f) S := fun s hs => hf _ _ (hx s hs)

theorem Triple.modify {g : σ → σ} {T : PUnit → σ → Prop} (h : ∀ s, P s → T ⟨⟩ (g s)) :
    Triple P (modify g) T := h

theorem Triple.get {T : σ → σ → Prop} (h : ∀ s, P s → T s s) : Triple P get T := h

theorem run_get_bind (g : σ → StateM σ α) (s : σ) : (get >>= g).run s = (g s).run s := rfl

/-- A program between two changes of the state. -/
theorem run_between (g h : σ → σ) (x : StateM σ α) (s : σ) :
    (do modify g; let a ← x; modify h; pure a : StateM σ α).run s =
      ((x.run (g s)).1, h (x.run (g s)).2) := rfl

theorem of_run_eq {s t : σ} {a : α} (h : x.run s = (a, t)) (hQ : Q a t) :
    Q (x.run s).1 (x.run s).2 := by
  rw [h]
  exact hQ

theorem Triple.weaken (hx : Triple P x Q) (hP : ∀ s, P' s → P s) (hQ : ∀ a s, Q a s → R a s) :
    Triple P' x R := fun s hs => hQ _ _ (hx s (hP s hs))

theorem Triple.ite {c : Prop} [Decidable c] {y z : StateM σ α} (hy : c → Triple P y Q)
    (hz : ¬ c → Triple P z Q) : Triple P (if c then y else z) Q := by
  split
  · next h => exact hy h
  · next h => exact hz h

/-- An invariant `I i` of a loop holds at its end, or a run of the body gave the result. -/
theorem Triple.loop {body : Nat → StateM σ (Option β)} {done : StateM σ β} {N : Nat}
    {I : Nat → σ → Prop}
    (hbody : ∀ i, i < N → Triple (I i) (body i) (Exit S (I (i + 1))))
    (hdone : Triple (I N) done S) {n i : Nat} (h : i + n = N) :
    Triple (I i) (StateTriple.loop body done n i) S := by
  induction n generalizing i with
  | zero =>
    obtain rfl : i = N := h
    exact hdone
  | succ n ih =>
    refine Triple.bind (hbody i (by omega)) fun r => ?_
    cases r with
    | some b => exact Triple.pure fun s hs => hs
    | none => exact ih (by omega)

end Cdc2Net.Lib.StateTriple

import Mathlib.Data.List.Basic

/-!
# Stream machines

A stream machine reads one symbol at a time and emits a list of outputs for it.
A run over a concatenation is the run over the first part followed by the run
over the second (`run_append`). A function that handles whole chunks and agrees,
chunk by chunk, with a symbol machine therefore agrees with it on every way of
cutting a stream into chunks (`run_chunks_refines`): the chunk borders are not
visible in the outputs.
-/

set_option autoImplicit false

namespace Cdc2Net.Lib.Mealy

universe u v w x

variable {σ : Type u} {α : Type v} {β : Type w} {γ : Type x}

/-- A step function of a stream machine: next state and outputs of one symbol. -/
abbrev Step (σ : Type u) (α : Type v) (β : Type w) := σ → α → σ × List β

/-- State and outputs after reading a list of symbols. -/
def run (f : Step σ α β) : σ → List α → σ × List β
  | s, [] => (s, [])
  | s, a :: as => ((run f (f s a).1 as).1, (f s a).2 ++ (run f (f s a).1 as).2)

variable (f : Step σ α β)

@[simp] theorem run_nil (s : σ) : run f s [] = (s, []) := rfl

theorem run_cons (s : σ) (a : α) (as : List α) :
    run f s (a :: as) = ((run f (f s a).1 as).1, (f s a).2 ++ (run f (f s a).1 as).2) := rfl

theorem run_append (s : σ) (as bs : List α) :
    run f s (as ++ bs) =
      ((run f (run f s as).1 bs).1, (run f s as).2 ++ (run f (run f s as).1 bs).2) := by
  induction as generalizing s with
  | nil => rfl
  | cons a as ih => simp only [List.cons_append, run_cons, ih, List.append_assoc]

/-- A state predicate kept by every symbol holds after every run. -/
theorem run_invariant {I : σ → Prop} (hstep : ∀ s a, I s → I (f s a).1) :
    ∀ (as : List α) (s : σ), I s → I (run f s as).1
  | [], _, h => h
  | a :: as, s, h => run_invariant hstep as (f s a).1 (hstep s a h)

/-- `g` handles whole chunks; `obs` is what an output of `g` shows. If `g` and
the symbol machine `f` agree on every single chunk, they agree on every list of
chunks, read by `f` as one stream. -/
theorem run_chunks_refines (g : Step σ (List α) γ) (obs : γ → List β)
    (h : ∀ s c, (g s c).1 = (run f s c).1 ∧ (g s c).2.flatMap obs = (run f s c).2) :
    ∀ (cs : List (List α)) (s : σ), (run g s cs).1 = (run f s cs.flatten).1 ∧
      (run g s cs).2.flatMap obs = (run f s cs.flatten).2
  | [], _ => ⟨rfl, rfl⟩
  | c :: cs, s => by
    obtain ⟨hstate, hout⟩ := h s c
    obtain ⟨ihstate, ihout⟩ := run_chunks_refines g obs h cs (run f s c).1
    rw [List.flatten_cons, run_append, run_cons, hstate]
    exact ⟨ihstate, by simp only [List.flatMap_append, hout, ihout]⟩

end Cdc2Net.Lib.Mealy

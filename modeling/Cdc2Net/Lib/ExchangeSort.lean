import Mathlib.Data.List.Basic
import Mathlib.Data.List.Perm.Basic
import Mathlib.Order.Lattice

/-!
# Exchange sort, and the first of each name

`exchangeSort` sorts a list by descending keys: the element at each position is exchanged with
every later one that has a greater key. `firsts` keeps the first element of each name, and in
a sorted list this is one with the greatest key of its name (`key_le_of_mem_firsts`).
-/

set_option autoImplicit false

namespace Cdc2Net.Lib.ExchangeSort

universe u v w

variable {α : Type u} {κ : Type v} {ν : Type w} [LinearOrder κ] (key : α → κ)

/-- The inner loop for `x` and what is after it. -/
def settle : α → List α → α × List α
  | x, [] => (x, [])
  | x, y :: ys =>
    if key x < key y then ((settle y ys).1, x :: (settle y ys).2)
    else ((settle x ys).1, y :: (settle x ys).2)

/-- The outer loop for `n` positions. -/
def sortFrom : Nat → List α → List α
  | 0, l => l
  | _ + 1, [] => []
  | n + 1, x :: xs => (settle key x xs).1 :: sortFrom n (settle key x xs).2

/-- The list by descending keys. -/
def exchangeSort (l : List α) : List α := sortFrom key l.length l

section Sorting

variable {key} {x y : α} {l ys : List α} {n : Nat}

theorem settle_perm (x : α) (ys : List α) :
    ((settle key x ys).1 :: (settle key x ys).2).Perm (x :: ys) := by
  induction ys generalizing x with
  | nil => exact List.Perm.refl _
  | cons y ys ih =>
    rw [settle]
    split
    · exact (List.Perm.swap x _ _).trans ((ih y).cons x)
    · exact (List.Perm.swap y _ _).trans (((ih x).cons y).trans (List.Perm.swap x y ys))

/-- The greatest key comes to the front. -/
theorem le_settle (x : α) (ys : List α) : ∀ z ∈ x :: ys, key z ≤ key (settle key x ys).1 := by
  induction ys generalizing x with
  | nil =>
    intro z hz
    rw [List.mem_singleton.1 hz, settle]
  | cons y ys ih =>
    intro z hz
    rw [settle]
    split
    · next hlt =>
      rcases List.mem_cons.1 hz with rfl | hz
      · exact le_trans (le_of_lt hlt) (ih y y List.mem_cons_self)
      · exact ih y z hz
    · next hge =>
      rcases List.mem_cons.1 hz with rfl | hz
      · exact ih z z List.mem_cons_self
      · rcases List.mem_cons.1 hz with rfl | hz
        · exact le_trans (not_lt.1 hge) (ih x x List.mem_cons_self)
        · exact ih x z (List.mem_cons_of_mem x hz)

theorem sortFrom_perm (n : Nat) (l : List α) : (sortFrom key n l).Perm l := by
  induction n generalizing l with
  | zero => exact List.Perm.refl l
  | succ n ih =>
    cases l with
    | nil => exact List.Perm.refl []
    | cons x xs => exact ((ih _).cons _).trans (settle_perm x xs)

theorem sortFrom_sorted (h : l.length ≤ n) :
    (sortFrom key n l).Pairwise fun a b => key b ≤ key a := by
  induction n generalizing l with
  | zero =>
    rw [List.length_eq_zero_iff.1 (Nat.le_zero.1 h)]
    exact List.Pairwise.nil
  | succ n ih =>
    cases l with
    | nil => exact List.Pairwise.nil
    | cons x xs =>
      have hperm : ((settle key x xs).1 :: (settle key x xs).2).Perm (x :: xs) := settle_perm x xs
      have hlen := hperm.length_eq
      rw [List.length_cons, List.length_cons] at hlen
      rw [List.length_cons] at h
      refine List.Pairwise.cons (fun z hz => ?_) (ih (by omega))
      -- what is behind the front was in the list
      have hmem := (sortFrom_perm n _).subset hz
      exact le_settle x xs z (hperm.subset (List.mem_cons_of_mem _ hmem))

theorem exchangeSort_perm (l : List α) : (exchangeSort key l).Perm l := sortFrom_perm _ l

theorem exchangeSort_sorted (l : List α) :
    (exchangeSort key l).Pairwise fun a b => key b ≤ key a := sortFrom_sorted (Nat.le_refl _)

end Sorting

/-! ## The first of each name -/

section Firsts

variable [DecidableEq ν] (name : α → ν)

/-- The elements that have the name of none before them, in `earlier` or in the list. -/
def firsts : (earlier : List α) → List α → List α
  | _, [] => []
  | earlier, x :: xs =>
    if earlier.any (fun e => name e = name x) then firsts (earlier ++ [x]) xs
    else x :: firsts (earlier ++ [x]) xs

variable {name} {earlier l : List α} {r : α}

theorem firsts_sublist (earlier l : List α) : (firsts name earlier l).Sublist l := by
  induction l generalizing earlier with
  | nil => exact List.Sublist.refl []
  | cons x xs ih =>
    rw [firsts]
    split
    · exact (ih _).trans (List.sublist_cons_self x xs)
    · exact (ih _).cons_cons x

theorem mem_firsts : r ∈ firsts name earlier l ↔
    ∃ before after, l = before ++ r :: after ∧ ∀ e ∈ earlier ++ before, name e ≠ name r := by
  induction l generalizing earlier with
  | nil => simp [firsts]
  | cons x xs ih =>
    have hrest : r ∈ firsts name (earlier ++ [x]) xs ↔ ∃ before after,
        x :: xs = (x :: before) ++ r :: after ∧
          ∀ e ∈ earlier ++ x :: before, name e ≠ name r := by
      rw [ih]
      simp only [List.cons_append, List.cons.injEq, true_and, List.append_assoc,
        List.nil_append]
    rw [firsts]
    split
    · next hdup =>
      rw [hrest]
      constructor
      · rintro ⟨before, after, heq, hne⟩
        exact ⟨x :: before, after, heq, hne⟩
      · rintro ⟨before, after, heq, hne⟩
        cases before with
        | nil =>
          obtain ⟨rfl, rfl⟩ := List.cons.inj heq
          obtain ⟨e, he, hname⟩ := List.any_eq_true.1 hdup
          exact absurd (of_decide_eq_true hname) (hne e (List.mem_append_left _ he))
        | cons y before =>
          obtain ⟨rfl, rfl⟩ := List.cons.inj heq
          exact ⟨before, after, rfl, hne⟩
    · next hnew =>
      rw [List.mem_cons, hrest]
      constructor
      · rintro (rfl | ⟨before, after, heq, hne⟩)
        · refine ⟨[], xs, rfl, fun e he hname => hnew ?_⟩
          rw [List.append_nil] at he
          exact List.any_eq_true.2 ⟨e, he, decide_eq_true hname⟩
        · exact ⟨x :: before, after, heq, hne⟩
      · rintro ⟨before, after, heq, hne⟩
        cases before with
        | nil => exact Or.inl (List.cons.inj heq).1.symm
        | cons y before =>
          obtain ⟨rfl, rfl⟩ := List.cons.inj heq
          exact Or.inr ⟨before, after, rfl, hne⟩

theorem nodup_firsts (earlier l : List α) : ((firsts name earlier l).map name).Nodup := by
  induction l generalizing earlier with
  | nil => exact List.nodup_nil
  | cons x xs ih =>
    rw [firsts]
    split
    · exact ih _
    · rw [List.map_cons, List.nodup_cons]
      refine ⟨fun hmem => ?_, ih _⟩
      obtain ⟨r, hr, hname⟩ := List.mem_map.1 hmem
      obtain ⟨before, after, -, hne⟩ := mem_firsts.1 hr
      exact hne x (by simp) hname.symm

/-- Every name is kept. -/
theorem exists_mem_firsts (h : r ∈ l) : ∃ a ∈ firsts name [] l, name a = name r := by
  have hsplit : ∀ l : List α, r ∈ l → ∃ before a after, l = before ++ a :: after ∧
      name a = name r ∧ ∀ e ∈ before, name e ≠ name r := by
    intro l
    induction l with
    | nil => exact fun h => absurd h List.not_mem_nil
    | cons x xs ih =>
      intro h
      by_cases hx : name x = name r
      · exact ⟨[], x, xs, rfl, hx, fun e he => absurd he List.not_mem_nil⟩
      · have hmem : r ∈ xs := (List.mem_cons.1 h).resolve_left fun heq => hx (by rw [heq])
        obtain ⟨before, a, after, rfl, ha, hbefore⟩ := ih hmem
        refine ⟨x :: before, a, after, rfl, ha, fun e he => ?_⟩
        rcases List.mem_cons.1 he with rfl | he
        · exact hx
        · exact hbefore e he
  obtain ⟨before, a, after, heq, ha, hbefore⟩ := hsplit l h
  refine ⟨a, mem_firsts.2 ⟨before, after, heq, fun e he => ?_⟩, ha⟩
  rw [ha]
  exact hbefore e he

/-- In a list by descending keys the first of a name has its greatest key. -/
theorem key_le_of_mem_firsts {key : α → κ} (hsorted : l.Pairwise fun a b => key b ≤ key a)
    (hr : r ∈ firsts name [] l) {a : α} (ha : a ∈ l) (hname : name a = name r) :
    key a ≤ key r := by
  obtain ⟨before, after, rfl, hne⟩ := mem_firsts.1 hr
  rw [List.pairwise_append, List.pairwise_cons] at hsorted
  rcases List.mem_append.1 ha with hbefore | hrest
  · exact absurd hname (hne a hbefore)
  · rcases List.mem_cons.1 hrest with rfl | hafter
    · exact le_rfl
    · exact hsorted.2.1.1 a hafter

end Firsts

end Cdc2Net.Lib.ExchangeSort

import Mathlib.Data.List.Infix

/-!
# Searching for a pattern that restarts at its first symbol only

A search that keeps the number of symbols that match so far and, after a mismatch, looks at the
first symbol of the pattern only. If this symbol does not occur in the pattern again, the number
is always that of the longest proper prefix of the pattern in which the text ends, and the search
finds every occurrence (`LongestBorder.advance`).
-/

set_option autoImplicit false

namespace Cdc2Net.Lib.RestartMatcher

universe u

variable {α : Type u}

/-- The longest proper prefix of the pattern in which the text ends has this length. -/
structure LongestBorder (pat text : List α) (k : ℕ) : Prop where
  lt : k < pat.length
  ends : pat.take k <:+ text
  longest : ∀ j < pat.length, pat.take j <:+ text → j ≤ k

/-- One symbol more: what matches then, and whether the pattern is complete. -/
def advance [DecidableEq α] (pat : List α) (k : ℕ) (b : α) : ℕ × Bool :=
  if pat[k]? = some b then if k + 1 < pat.length then (k + 1, false) else (0, true)
  else (if pat.head? = some b then 1 else 0, false)

section Laws

variable {pat text p : List α} {a b : α} {j k : ℕ}

theorem longestBorder_nil (h : pat ≠ []) : LongestBorder pat [] 0 := by
  refine ⟨List.length_pos_iff.2 h, List.nil_suffix, fun j hj hsuf => ?_⟩
  have hlen := hsuf.length_le
  rw [List.length_take, List.length_nil] at hlen
  omega

theorem take_suffix_concat (h : j < pat.length) :
    pat.take (j + 1) <:+ text ++ [b] ↔ pat.take j <:+ text ∧ pat[j]? = some b := by
  rw [List.take_add_one, List.getElem?_eq_getElem h, Option.toList_some, List.suffix_concat_iff]
  constructor
  · rintro (hnil | ⟨t, heq, ht⟩)
    · exact absurd hnil (List.append_ne_nil_of_right_ne_nil _ (List.cons_ne_nil _ _))
    · obtain ⟨rfl, hb⟩ := List.append_inj' heq rfl
      exact ⟨ht, by simpa using hb⟩
  · rintro ⟨hsuf, hb⟩
    exact Or.inr ⟨_, by rw [Option.some.inj hb], hsuf⟩

/-- A pattern whose first symbol does not occur again has no borders inside. -/
theorem eq_of_take_suffix_take (ha : a ∉ p) (hj : 0 < j) (hk : k ≤ (a :: p).length)
    (h : (a :: p).take j <:+ (a :: p).take k) (hjk : j ≤ k) : j = k := by
  obtain ⟨j, rfl⟩ := Nat.exists_eq_add_of_lt hj
  obtain ⟨k, rfl⟩ := Nat.exists_eq_add_of_lt (hj.trans_le hjk)
  simp only [Nat.zero_add, List.take_succ_cons, List.length_cons] at h hk hjk ⊢
  rcases List.suffix_cons_iff.1 h with heq | hin
  · have hlen := congrArg List.length heq
    simp only [List.length_cons, List.length_take] at hlen
    omega
  · exact absurd (List.mem_of_mem_take (hin.subset List.mem_cons_self)) ha

theorem getElem?_eq_head (ha : a ∉ p) (h : (a :: p)[j]? = some a) : j = 0 := by
  cases j with
  | zero => rfl
  | succ j =>
    rw [List.getElem?_cons_succ] at h
    exact absurd (List.mem_of_getElem? h) ha

/-- The pattern is complete at the end of a text if and only if all but its last symbol stood
there before, and the last symbol came. -/
theorem pattern_suffix_concat (h : pat ≠ []) :
    pat <:+ text ++ [b] ↔
      pat.take (pat.length - 1) <:+ text ∧ pat[pat.length - 1]? = some b := by
  have hlen := List.length_pos_iff.2 h
  rw [← take_suffix_concat (by omega), Nat.sub_add_cancel hlen, List.take_length]

variable [DecidableEq α]

/-- One symbol more. -/
theorem LongestBorder.advance (h : LongestBorder (a :: p) text k) (ha : a ∉ p) (b : α) :
    LongestBorder (a :: p) (text ++ [b]) (advance (a :: p) k b).1 ∧
      ((advance (a :: p) k b).2 = true ↔ a :: p <:+ text ++ [b]) := by
  have hne : a :: p ≠ [] := List.cons_ne_nil a p
  have hlt := h.lt
  -- a border of the longer text is one of the text and the symbol behind it
  have hback : ∀ j, j + 1 < (a :: p).length → (a :: p).take (j + 1) <:+ text ++ [b] →
      (a :: p).take j <:+ text ∧ (a :: p)[j]? = some b ∧ j ≤ k := by
    intro j hj hsuf
    obtain ⟨htext, hsym⟩ := (take_suffix_concat (by omega)).1 hsuf
    exact ⟨htext, hsym, h.longest j (by omega) htext⟩
  have hwhole : a :: p <:+ text ++ [b] ↔ k + 1 = (a :: p).length ∧ (a :: p)[k]? = some b := by
    rw [pattern_suffix_concat hne]
    constructor
    · rintro ⟨htext, hsym⟩
      have hle := h.longest _ (by omega) htext
      obtain rfl : k = (a :: p).length - 1 := by omega
      exact ⟨by omega, hsym⟩
    · rintro ⟨hk, hsym⟩
      rw [← hk, Nat.add_sub_cancel]
      exact ⟨h.ends, hsym⟩
  rw [RestartMatcher.advance, hwhole]
  by_cases hmatch : (a :: p)[k]? = some b
  · rw [if_pos hmatch]
    by_cases hk : k + 1 < (a :: p).length
    · rw [if_pos hk]
      refine ⟨⟨hk, (take_suffix_concat hlt).2 ⟨h.ends, hmatch⟩, ?_⟩, ?_⟩
      · rintro (_ | j) hj hsuf
        · exact Nat.zero_le _
        · exact Nat.succ_le_succ (hback j hj hsuf).2.2
      · exact iff_of_false Bool.false_ne_true fun hand => by omega
    · rw [if_neg hk]
      have hfull : k + 1 = (a :: p).length := by omega
      refine ⟨⟨List.length_pos_iff.2 hne, List.nil_suffix, ?_⟩, iff_of_true rfl ⟨hfull, hmatch⟩⟩
      -- the whole pattern stands at the end, and no shorter prefix is a border of it
      have hpat : (a :: p).take (a :: p).length <:+ text ++ [b] := by
        rw [List.take_length]
        exact hwhole.2 ⟨hfull, hmatch⟩
      rintro (_ | j) hj hsuf
      · exact Nat.le_refl 0
      · have hin := List.suffix_of_suffix_length_le hsuf hpat (by
          simp only [List.length_take]
          omega)
        have heq := eq_of_take_suffix_take ha (Nat.succ_pos j) le_rfl hin hj.le
        omega
  · rw [if_neg hmatch]
    refine ⟨?_, iff_of_false Bool.false_ne_true fun hand => hmatch hand.2⟩
    by_cases hb : b = a
    · subst hb
      rw [List.head?_cons, if_pos rfl]
      -- the symbol is the first one; it does not match, so something has matched before
      have hk : k ≠ 0 := by
        rintro rfl
        exact hmatch rfl
      refine ⟨by omega, ?_, ?_⟩
      · exact (take_suffix_concat (by omega)).2 ⟨List.nil_suffix, rfl⟩
      · rintro (_ | j) hj hsuf
        · exact Nat.zero_le _
        · obtain ⟨-, hsym, -⟩ := hback j hj hsuf
          exact Nat.succ_le_succ (getElem?_eq_head ha hsym).le
    · rw [List.head?_cons, if_neg fun hab => hb (Option.some.inj hab).symm]
      refine ⟨List.length_pos_iff.2 hne, List.nil_suffix, ?_⟩
      rintro (_ | j) hj hsuf
      · exact Nat.le_refl 0
      · obtain ⟨htext, hsym, hle⟩ := hback j hj hsuf
        have hj0 : 0 < j := by
          rcases Nat.eq_zero_or_pos j with rfl | hpos
          · exact absurd (Option.some.inj hsym).symm hb
          · exact hpos
        -- a shorter border of the text would be one of the longest
        have hin := List.suffix_of_suffix_length_le htext h.ends (by
          simp only [List.length_take]
          omega)
        obtain rfl := eq_of_take_suffix_take ha hj0 hlt.le hin hle
        exact absurd hsym hmatch

end Laws

end Cdc2Net.Lib.RestartMatcher

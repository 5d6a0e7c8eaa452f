import Mathlib.Data.Fin.Basic
import Mathlib.Data.List.Range
import Mathlib.Data.Nat.ModEq
import Mathlib.Logic.Function.Basic

/-!
# A ring that holds the end of a log

Entry `i` of a log stands in slot `i % N` of a ring with `N` slots until entry `i + N`
overwrites it. `Retains` relates the slots to the whole log, and appending keeps it
(`Retains.put`).

A reader asks for the entries from a number on and gets a run of them, a batch, which starts
no earlier than the horizon of the ring. `Follows` is what holds of a reader that always asks
for what comes after the last entry it got: it has seen every entry that has not been
overwritten, once and in order (`Follows.poll`).
-/

set_option autoImplicit false

namespace Cdc2Net.Lib.RingLog

universe u

variable {α : Type u} {N : Nat}

/-- The slots of a ring. -/
abbrev Slots (α : Type u) (N : Nat) := Fin N → α

section Slots

variable [NeZero N] {r : Slots α N} {log : List α}

/-- Entry `i` goes into its slot. -/
def Slots.put (r : Slots α N) (i : Nat) (a : α) : Slots α N :=
  Function.update r (Fin.ofNat N i) a

/-- Every entry from the horizon on is in its slot. -/
def Retains (r : Slots α N) (log : List α) : Prop :=
  ∀ i a, log[i]? = some a → log.length - N ≤ i → r (Fin.ofNat N i) = a

theorem retains_nil (r : Slots α N) : Retains r [] := by
  intro i a hget
  cases hget

/-- Two entries that are less than a ring apart do not share a slot. -/
theorem slot_ne {i j : Nat} (hlt : i < j) (hnear : j < i + N) :
    Fin.ofNat N i ≠ Fin.ofNat N j := by
  intro heq
  have hmod : i % N = j % N := congrArg Fin.val heq
  have hdvd : N ∣ j - i := (Nat.modEq_iff_dvd' hlt.le).1 hmod
  have hle := Nat.le_of_dvd (by omega) hdvd
  omega

theorem Retains.put (h : Retains r log) (a : α) :
    Retains (r.put log.length a) (log ++ [a]) := by
  intro i b hget hhorizon
  rw [List.length_append, List.length_singleton] at hhorizon
  rcases Nat.lt_trichotomy i log.length with hlt | rfl | hgt
  · have hne : Fin.ofNat N i ≠ Fin.ofNat N log.length := slot_ne hlt (by omega)
    rw [List.getElem?_append_left hlt] at hget
    rw [Slots.put, Function.update_of_ne hne]
    exact h i b hget (by omega)
  · rw [List.getElem?_concat_length, Option.some.injEq] at hget
    rw [Slots.put, Function.update_self, hget]
  · rw [List.getElem?_eq_none (by rw [List.length_append, List.length_singleton]; omega)] at hget
    cases hget

end Slots

/-! ## Batches -/

/-- The numbered entries from `start` up to the end, as the slots have them. -/
def window [NeZero N] (r : Slots α N) (start len : Nat) : List (Nat × α) :=
  (List.range' start (len - start)).map fun i => (i, r (Fin.ofNat N i))

/-- A run of entries of the log from `since` on, or from the horizon if this is later. -/
structure IsBatch (N : Nat) (log : List α) (since : Nat) (batch : List (Nat × α)) : Prop where
  numbers : batch.map Prod.fst = List.range' (max since (log.length - N)) batch.length
  entries : ∀ e ∈ batch, log[e.1]? = some e.2

section Batches

variable {log : List α} {since : Nat} {batch : List (Nat × α)}

theorem length_window [NeZero N] (r : Slots α N) (start len : Nat) :
    (window r start len).length = len - start := by
  rw [window, List.length_map, List.length_range']

/-- What the ring holds from `since` on, or a first part of it, is a batch. -/
theorem Retains.isBatch [NeZero N] {r : Slots α N} (h : Retains r log) (since k : Nat) :
    IsBatch N log since
      ((window r (max since (log.length - N)) log.length).take k) := by
  constructor
  · rw [List.length_take, length_window, window, List.map_take, List.map_map]
    have hfst : (Prod.fst ∘ fun i => (i, r (Fin.ofNat N i))) = id := rfl
    rw [hfst, List.map_id]
    rcases Nat.le_total k (log.length - max since (log.length - N)) with hle | hle
    · rw [List.take_range'_of_length_ge hle, Nat.min_eq_left hle]
    · rw [List.take_range'_of_length_le hle, Nat.min_eq_right hle]
  · intro e he
    obtain ⟨i, hi, rfl⟩ := List.mem_map.1 (List.mem_of_mem_take he)
    rw [List.mem_range'_1] at hi
    have hlt : i < log.length := by omega
    have hget := List.getElem?_eq_getElem hlt
    rw [hget, h i _ hget (by omega)]

theorem IsBatch.le_of_mem (h : IsBatch N log since batch) {e : Nat × α} (he : e ∈ batch) :
    max since (log.length - N) ≤ e.1 ∧
      e.1 < max since (log.length - N) + batch.length := by
  have hmem : e.1 ∈ batch.map Prod.fst := List.mem_map_of_mem he
  rw [h.numbers, List.mem_range'_1] at hmem
  exact hmem

theorem IsBatch.exists_mem (h : IsBatch N log since batch) {i : Nat}
    (hle : max since (log.length - N) ≤ i)
    (hlt : i < max since (log.length - N) + batch.length) : i ∈ batch.map Prod.fst := by
  rw [h.numbers, List.mem_range'_1]
  exact ⟨hle, hlt⟩

end Batches

/-! ## Readers -/

/-- The number that a reader asks for next, and the entries it has got. -/
structure Reader (α : Type u) where
  next : Nat
  seen : List (Nat × α)

/-- The reader asks for what comes after the last entry it got. -/
def Reader.take (rd : Reader α) (batch : List (Nat × α)) : Reader α where
  next := batch.foldl (fun _ e => e.1 + 1) rd.next
  seen := rd.seen ++ batch

/-- The reader that first asked for `first` has seen what has not been overwritten. -/
structure Follows (N first : Nat) (log : List α) (rd : Reader α) : Prop where
  le : first ≤ rd.next
  inOrder : (rd.seen.map Prod.fst).Pairwise (· < ·)
  entries : ∀ e ∈ rd.seen, log[e.1]? = some e.2
  below : ∀ e ∈ rd.seen, e.1 < rd.next
  complete : ∀ i, first ≤ i → i < rd.next → i ∈ rd.seen.map Prod.fst ∨
    i < log.length - N

section Readers

variable {log : List α} {rd : Reader α} {batch : List (Nat × α)} {first : Nat}

theorem follows_start (N first : Nat) (log : List α) : Follows N first log ⟨first, []⟩ where
  le := le_rfl
  inOrder := List.Pairwise.nil
  entries := fun _ he => absurd he List.not_mem_nil
  below := fun _ he => absurd he List.not_mem_nil
  complete := fun _ hle hlt => absurd hlt (Nat.not_lt.2 hle)

/-- The log grows. -/
theorem Follows.append (h : Follows N first log rd) (more : List α) :
    Follows N first (log ++ more) rd where
  le := h.le
  inOrder := h.inOrder
  entries := fun e he => by
    have hget := h.entries e he
    have hlt := (List.getElem?_eq_some_iff.1 hget).1
    rw [List.getElem?_append_left hlt, hget]
  below := h.below
  complete := fun i hle hlt => by
    refine (h.complete i hle hlt).imp_right fun hover => ?_
    rw [List.length_append]
    omega

theorem foldl_next {start : Nat} (hnumbers : batch.map Prod.fst = List.range' start batch.length)
    (next : Nat) : batch.foldl (fun _ e => e.1 + 1) next =
      if batch = [] then next else start + batch.length := by
  induction batch generalizing start next with
  | nil => rfl
  | cons e batch ih =>
    rw [List.map_cons, List.length_cons, List.range'_succ, List.cons.injEq] at hnumbers
    rw [List.foldl_cons, ih hnumbers.2, hnumbers.1, if_neg (List.cons_ne_nil e batch),
      List.length_cons]
    split
    · next hnil => rw [hnil, List.length_nil]
    · omega

/-- Where the reader stands after a batch. -/
theorem IsBatch.next_take (h : IsBatch N log rd.next batch) :
    (rd.take batch).next =
      if batch = [] then rd.next else max rd.next (log.length - N) + batch.length :=
  foldl_next h.numbers rd.next

theorem Follows.poll (h : Follows N first log rd) (hbatch : IsBatch N log rd.next batch) :
    Follows N first log (rd.take batch) := by
  have hnext := hbatch.next_take
  have hstart : rd.next ≤ max rd.next (log.length - N) := Nat.le_max_left _ _
  have hge : rd.next ≤ (rd.take batch).next := by
    rw [hnext]
    split <;> omega
  refine ⟨h.le.trans hge, ?_, ?_, ?_, ?_⟩
  · change ((rd.seen ++ batch).map Prod.fst).Pairwise (· < ·)
    rw [List.map_append, List.pairwise_append]
    refine ⟨h.inOrder, ?_, ?_⟩
    · rw [hbatch.numbers]
      exact List.pairwise_lt_range'
    · -- what was seen before lies below the first number of the batch
      intro i hi j hj
      obtain ⟨e, he, rfl⟩ := List.mem_map.1 hi
      obtain ⟨f, hf, rfl⟩ := List.mem_map.1 hj
      have hbelow := h.below e he
      have hfrom := (hbatch.le_of_mem hf).1
      omega
  · intro e he
    rcases List.mem_append.1 he with hold | hnew
    · exact h.entries e hold
    · exact hbatch.entries e hnew
  · intro e he
    rcases List.mem_append.1 he with hold | hnew
    · exact lt_of_lt_of_le (h.below e hold) hge
    · rw [hnext, if_neg (List.ne_nil_of_mem hnew)]
      exact (hbatch.le_of_mem hnew).2
  · intro i hfirst hlt
    change i ∈ (rd.seen ++ batch).map Prod.fst ∨ _
    rw [List.map_append, List.mem_append]
    by_cases hold : i < rd.next
    · exact (h.complete i hfirst hold).imp_left Or.inl
    · -- the batch starts at the horizon if this has passed what was asked for
      by_cases hover : i < log.length - N
      · exact Or.inr hover
      · rw [hnext] at hlt
        split at hlt
        · omega
        · exact Or.inl (Or.inr (hbatch.exists_mem (by omega) hlt))

/-- A batch that is not empty takes the reader on. -/
theorem IsBatch.lt_next_take (h : IsBatch N log rd.next batch) (hne : batch ≠ []) :
    rd.next < (rd.take batch).next := by
  have hpos := List.length_pos_iff.2 hne
  rw [h.next_take, if_neg hne]
  omega

end Readers

end Cdc2Net.Lib.RingLog

import Cdc2Net.Lib.FixedBuffer
import Mathlib.Data.Nat.ModEq

/-!
# A queue in a ring of memory

Entries of a queue are numbered. Entry `i` stands in element `i % N` of a buffer, so a queue of
at most `N` entries has room whatever its first number is, and numbers may be kept modulo any
multiple of `N`. `Holds` says that a queue stands in a buffer; an element written behind the
last entry, a row of writes in one or two pieces, and entries dropped at the front keep it.

Nothing here asks that a writer and a reader take turns: `Holds` speaks of the queue together
with what was written behind it and not announced yet.
-/

set_option autoImplicit false

namespace Cdc2Net.Lib.FixedBuffer.Buf

universe u

variable {α : Type u} {cap : Nat}

/-- Reads at `i`, `i + 1`, and so on. -/
def readAll (b : Buf α cap) : Nat → Nat → Checked (List α)
  | _, 0 => .ok []
  | i, n + 1 => do
    let a ← b.read i
    let as ← b.readAll (i + 1) n
    return a :: as

end Cdc2Net.Lib.FixedBuffer.Buf

namespace Cdc2Net.Lib.RingQueue

open FixedBuffer

universe u

variable {α : Type u} {cap N head : Nat} {b : Buf α cap} {q : List α}

/-- The queue `q` stands in the first `N` elements of `b`; its first entry has number `head`. -/
structure Holds (b : Buf α cap) (N head : Nat) (q : List α) : Prop where
  length_le : q.length ≤ N
  size_le : N ≤ cap
  entries : ∀ i a, q[i]? = some a → b.elems[(head + i) % N]? = some a

theorem holds_nil (b : Buf α cap) (head : Nat) (hN : N ≤ cap) : Holds b N head [] where
  length_le := Nat.zero_le N
  size_le := hN
  entries := fun _ _ hget => by cases hget

/-- Only the remainder of the first number matters. -/
theorem Holds.congr (h : Holds b N head q) {head' : Nat} (hmod : head ≡ head' [MOD N]) :
    Holds b N head' q where
  length_le := h.length_le
  size_le := h.size_le
  entries := fun i a hget => by
    have hsame : (head + i) % N = (head' + i) % N := hmod.add_right i
    rw [← hsame]
    exact h.entries i a hget

/-- Two entries less than a ring apart do not share an element. -/
theorem slot_ne {i j : Nat} (hlt : i < j) (hnear : j < i + N) :
    (head + i) % N ≠ (head + j) % N := by
  intro heq
  have hdvd : N ∣ head + j - (head + i) := (Nat.modEq_iff_dvd' (by omega)).1 heq
  have hle := Nat.le_of_dvd (by omega) hdvd
  omega

/-! ## Writing -/

theorem Holds.write (h : Holds b N head q) {i : Nat} (a : α) (hroom : q.length < N)
    (hi : i = (head + q.length) % N) :
    ∃ b', b.write i a = .ok b' ∧ Holds b' N head (q ++ [a]) := by
  have hlt : i < cap := by
    have := Nat.mod_lt (head + q.length) (by omega : 0 < N)
    have := h.size_le
    omega
  refine ⟨⟨b.elems.set i a, b.set_length i a⟩, if_pos hlt, ?_, h.size_le, ?_⟩
  · rw [List.length_append, List.length_singleton]
    omega
  · intro j c hget
    rcases Nat.lt_trichotomy j q.length with hj | rfl | hj
    · -- an older entry keeps its element
      rw [List.getElem?_append_left hj] at hget
      have hne : i ≠ (head + j) % N := hi ▸ (slot_ne hj (by omega)).symm
      rw [List.getElem?_set_ne hne]
      exact h.entries j c hget
    · rw [List.getElem?_concat_length, Option.some.injEq] at hget
      rw [← hi, ← hget, List.getElem?_set_self (by rw [b.length_eq]; exact hlt)]
    · rw [List.getElem?_eq_none (by rw [List.length_append, List.length_singleton]; omega)]
        at hget
      cases hget

/-- A row of writes that does not run over the end of the ring. -/
theorem Holds.writeAll (as : List α) : ∀ {b : Buf α cap} {q : List α} {i : Nat},
    Holds b N head q → head + q.length ≡ i [MOD N] → i + as.length ≤ N →
    q.length + as.length ≤ N →
    ∃ b', b.writeAll i as = .ok b' ∧ Holds b' N head (q ++ as) := by
  induction as with
  | nil =>
    intro b q i h _ _ _
    exact ⟨b, rfl, by rw [List.append_nil]; exact h⟩
  | cons a as ih =>
    intro b q i h hmod hend hroom
    rw [List.length_cons] at hend hroom
    have hi : i = (head + q.length) % N := by
      have hsame : (head + q.length) % N = i % N := hmod
      rw [hsame, Nat.mod_eq_of_lt (by omega)]
    obtain ⟨b', hwrite, hb'⟩ := h.write a (by omega) hi
    have hlen : (q ++ [a]).length = q.length + 1 := by
      rw [List.length_append, List.length_singleton]
    have hnext : head + (q ++ [a]).length ≡ i + 1 [MOD N] := by
      rw [hlen, ← Nat.add_assoc]
      exact hmod.add_right 1
    obtain ⟨b'', hrest, hb''⟩ := ih hb' hnext (by omega) (by rw [hlen]; omega)
    refine ⟨b'', ?_, by rw [List.append_assoc] at hb''; exact hb''⟩
    rw [Buf.writeAll, hwrite, ok_bind, hrest]

/-- A row of writes in two pieces: up to the end of the ring, and the rest from its start. -/
theorem Holds.writePieces (h : Holds b N head q) (as : List α) {i : Nat} (hi : i < N)
    (hmod : head + q.length ≡ i [MOD N]) (hroom : q.length + as.length ≤ N) :
    ∃ b₁ b₂, b.writeAll i (as.take (N - i)) = .ok b₁ ∧
      b₁.writeAll 0 (as.drop (N - i)) = .ok b₂ ∧ Holds b₂ N head (q ++ as) := by
  have htake : (as.take (N - i)).length ≤ N - i := List.length_take_le _ _
  have hle : (as.take (N - i)).length ≤ as.length := List.length_take_le' _ _
  obtain ⟨b₁, h₁, hb₁⟩ := Holds.writeAll (as.take (N - i)) h hmod (by omega) (by omega)
  rcases Nat.le_total as.length (N - i) with hfits | hover
  · refine ⟨b₁, b₁, h₁, ?_, ?_⟩
    · rw [List.drop_eq_nil_of_le hfits]
      rfl
    · rw [List.take_of_length_le hfits] at hb₁
      exact hb₁
  · have hlen : (as.take (N - i)).length = N - i := by
      rw [List.length_take, Nat.min_eq_left hover]
    have hsum : (q ++ as.take (N - i)).length = q.length + (N - i) := by
      rw [List.length_append, hlen]
    -- the second piece starts where the entries' numbers reach a multiple of `N`
    have hstart : head + (q ++ as.take (N - i)).length ≡ 0 [MOD N] := by
      rw [hsum, ← Nat.add_assoc]
      refine (hmod.add_right (N - i)).trans ?_
      rw [Nat.add_sub_cancel' hi.le]
      exact (Nat.modEq_zero_iff_dvd).2 (Nat.dvd_refl N)
    have hdrop : (as.drop (N - i)).length = as.length - (N - i) := List.length_drop
    obtain ⟨b₂, h₂, hb₂⟩ :=
      Holds.writeAll (as.drop (N - i)) hb₁ hstart (by omega) (by omega)
    refine ⟨b₁, b₂, h₁, h₂, ?_⟩
    rw [List.append_assoc, List.take_append_drop] at hb₂
    exact hb₂

/-! ## Reading -/

theorem Holds.read (h : Holds b N head q) {i : Nat} {a : α} (hget : q[i]? = some a) :
    b.read ((head + i) % N) = .ok a :=
  b.read_eq (h.entries i a hget)

/-- A row of reads that does not run over the end of the ring. -/
theorem Holds.readAll {n : Nat} : ∀ {j i : Nat}, Holds b N head q →
    head + j ≡ i [MOD N] → i + n ≤ N → j + n ≤ q.length →
    b.readAll i n = .ok ((q.drop j).take n) := by
  induction n with
  | zero =>
    intro j i _ _ _ _
    rw [List.take_zero]
    rfl
  | succ n ih =>
    intro j i h hmod hend hlen
    have hi : (head + j) % N = i := by
      have hsame : (head + j) % N = i % N := hmod
      rw [hsame, Nat.mod_eq_of_lt (by omega)]
    have hget : q[j]? = some q[j] := List.getElem?_eq_getElem (by omega)
    have hread := h.read hget
    rw [hi] at hread
    have hnext : head + (j + 1) ≡ i + 1 [MOD N] := hmod.add_right 1
    rw [Buf.readAll, hread, ok_bind, ih h hnext (by omega) (by omega), ok_bind,
      List.drop_eq_getElem_cons (by omega : j < q.length), List.take_succ_cons]
    rfl

/-- A row of reads in two pieces. -/
theorem Holds.readPieces (h : Holds b N head q) {i n : Nat} (hi : i < N)
    (hmod : head ≡ i [MOD N]) (hn : n ≤ q.length) :
    b.readAll i (min (N - i) n) = .ok (q.take (min (N - i) n)) ∧
      b.readAll 0 (n - min (N - i) n) = .ok ((q.take n).drop (min (N - i) n)) := by
  have hlen := h.length_le
  refine ⟨h.readAll (j := 0) hmod (by omega) (by omega), ?_⟩
  rcases Nat.le_total n (N - i) with hfits | hover
  · rw [Nat.min_eq_right hfits, Nat.sub_self, List.drop_eq_nil_of_le (List.length_take_le _ _)]
    rfl
  · rw [Nat.min_eq_left hover]
    have hstart : head + (N - i) ≡ 0 [MOD N] := by
      refine (hmod.add_right (N - i)).trans ?_
      rw [Nat.add_sub_cancel' hi.le]
      exact (Nat.modEq_zero_iff_dvd).2 (Nat.dvd_refl N)
    rw [h.readAll hstart (by omega) (by omega), List.take_drop]
    congr 3
    omega

/-- Entries leave at the front. -/
theorem Holds.drop (h : Holds b N head q) (n : Nat) : Holds b N (head + n) (q.drop n) where
  length_le := by
    rw [List.length_drop]
    have := h.length_le
    omega
  size_le := h.size_le
  entries := fun i a hget => by
    rw [List.getElem?_drop] at hget
    rw [Nat.add_assoc]
    exact h.entries (n + i) a hget

/-- The entries behind the first ones are taken back, or have not been announced. -/
theorem Holds.take (h : Holds b N head q) (n : Nat) : Holds b N head (q.take n) where
  length_le := (List.length_take_le' n q).trans h.length_le
  size_le := h.size_le
  entries := fun i a hget => by
    rw [List.getElem?_take] at hget
    split at hget
    · exact h.entries i a hget
    · cases hget

end Cdc2Net.Lib.RingQueue

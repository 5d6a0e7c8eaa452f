import Mathlib.Data.List.Nodup
import Mathlib.Order.Lattice

/-!
# The last entry of each key

Entries come one after the other, each with a key, and a later one replaces an earlier one of
its key. Two containers keep what stands: a list that is sorted by key again after each entry
(`putSorted`), and a list of pairs in the order in which the keys first came (`setItem`).
`last` says what stands under a key. A sorted list is determined by what is in it
(`eq_of_sorted`), and for entries of different keys `last` does not depend on their order
(`last_perm`).
-/

set_option autoImplicit false

namespace Cdc2Net.Lib.LastEntry

universe u v w

variable {α : Type u} {β : Type v} {κ : Type w}

/-! ## What stands -/

section Last

variable [DecidableEq κ] (key : α → κ)

/-- The last entry with the key `k`. -/
def last (l : List α) (k : κ) : Option α := l.reverse.find? fun a => key a = k

variable {key} {l l' : List α} {a : α} {k : κ}

theorem last_concat (l : List α) (a : α) (k : κ) :
    last key (l ++ [a]) k = if key a = k then some a else last key l k := by
  rw [last, List.reverse_append, List.reverse_singleton, List.singleton_append, List.find?_cons]
  by_cases h : key a = k
  · rw [if_pos h, decide_eq_true h]
  · rw [if_neg h, decide_eq_false h]
    rfl

theorem last_append (l l' : List α) (k : κ) :
    last key (l ++ l') k = (last key l' k).or (last key l k) := by
  rw [last, List.reverse_append, List.find?_append]
  rfl

theorem mem_of_last (h : last key l k = some a) : a ∈ l :=
  List.mem_reverse.1 (List.mem_of_find?_eq_some h)

theorem key_of_last (h : last key l k = some a) : key a = k := by
  have hkey := List.find?_some h
  exact of_decide_eq_true hkey

theorem last_isSome_iff : (last key l k).isSome ↔ k ∈ l.map key := by
  rw [last, List.find?_isSome, List.mem_map]
  constructor
  · rintro ⟨a, ha, hk⟩
    exact ⟨a, List.mem_reverse.1 ha, of_decide_eq_true hk⟩
  · rintro ⟨a, ha, hk⟩
    exact ⟨a, List.mem_reverse.2 ha, decide_eq_true hk⟩

/-- Where every key comes once, each entry is the last of its key. -/
theorem last_eq_some_iff (hn : (l.map key).Nodup) :
    last key l k = some a ↔ a ∈ l ∧ key a = k := by
  constructor
  · intro h
    exact ⟨mem_of_last h, key_of_last h⟩
  · rintro ⟨ha, hk⟩
    have hsome : (last key l k).isSome := last_isSome_iff.2 (hk ▸ List.mem_map_of_mem ha)
    obtain ⟨b, hb⟩ := Option.isSome_iff_exists.1 hsome
    have hsame : b = a :=
      List.inj_on_of_nodup_map hn (mem_of_last hb) ha ((key_of_last hb).trans hk.symm)
    rw [hb, hsame]

theorem last_perm (h : l.Perm l') (hn : (l.map key).Nodup) : last key l k = last key l' k := by
  have hn' : (l'.map key).Nodup := (h.map key).nodup_iff.1 hn
  refine Option.ext fun a => ?_
  rw [last_eq_some_iff hn, last_eq_some_iff hn', h.mem_iff]

end Last

/-! ## Sorted by key -/

section Sorted

variable [LinearOrder κ] (key : β → κ)

/-- The list without the entries of the key of `b`, and with `b`, sorted. -/
def putSorted (l : List β) (b : β) : List β :=
  ((l.filter fun c => key c ≠ key b) ++ [b]).mergeSort fun c d => key c ≤ key d

variable {key} {l l' : List β} {b c : β}

theorem mem_putSorted : c ∈ putSorted key l b ↔ c = b ∨ c ∈ l ∧ key c ≠ key b := by
  rw [putSorted, List.mem_mergeSort, List.mem_append, List.mem_filter, List.mem_singleton,
    decide_eq_true_eq, or_comm]

theorem putSorted_sorted (h : l.Pairwise fun c d => key c < key d) :
    (putSorted key l b).Pairwise fun c d => key c < key d := by
  have hnodup : ((l.filter fun c => key c ≠ key b) ++ [b]).Pairwise fun c d => key c ≠ key d := by
    refine List.pairwise_append.2 ⟨?_, List.pairwise_singleton _ _, ?_⟩
    · exact (h.filter _).imp fun hlt => ne_of_lt hlt
    · intro c hc d hd
      rw [List.mem_singleton.1 hd]
      exact of_decide_eq_true (List.mem_filter.1 hc).2
  have hne : (putSorted key l b).Pairwise fun c d => key c ≠ key d :=
    (List.mergeSort_perm _ _).symm.pairwise hnodup fun hcd => hcd.symm
  have hle : (putSorted key l b).Pairwise fun c d => decide (key c ≤ key d) = true := by
    refine List.pairwise_mergeSort ?_ ?_ _
    · intro c d e hcd hde
      exact decide_eq_true (le_trans (of_decide_eq_true hcd) (of_decide_eq_true hde))
    · intro c d
      rw [Bool.or_eq_true, decide_eq_true_eq, decide_eq_true_eq]
      exact le_total (key c) (key d)
  exact hle.imp₂ (fun _ _ hcd hcd' => lt_of_le_of_ne (of_decide_eq_true hcd) hcd') hne

/-- A sorted list has each key once, so it is determined by its members. -/
theorem eq_of_sorted (h : l.Pairwise fun c d => key c < key d)
    (h' : l'.Pairwise fun c d => key c < key d) (hmem : ∀ c, c ∈ l ↔ c ∈ l') : l = l' := by
  have hn : l.Nodup := h.imp fun hlt heq => absurd (congrArg key heq) (ne_of_lt hlt)
  have hn' : l'.Nodup := h'.imp fun hlt heq => absurd (congrArg key heq) (ne_of_lt hlt)
  refine List.Perm.eq_of_pairwise ?_ h h' ((List.perm_ext_iff_of_nodup hn hn').2 hmem)
  intro c d _ _ hcd hdc
  exact absurd hcd (not_lt_of_gt hdc)

/-- A sorted list of what stands goes on to be one. -/
theorem mem_putSorted_last {akey : α → κ} {f : α → β} (hf : ∀ a, key (f a) = akey a)
    {rs : List α} (hl : ∀ b, b ∈ l ↔ ∃ a, last akey rs (key b) = some a ∧ b = f a) (a : α)
    (b : β) : b ∈ putSorted key l (f a) ↔
      ∃ a', last akey (rs ++ [a]) (key b) = some a' ∧ b = f a' := by
  rw [mem_putSorted, hl, last_concat, hf]
  constructor
  · rintro (rfl | ⟨⟨a', ha', rfl⟩, hne⟩)
    · exact ⟨a, if_pos (hf a).symm, rfl⟩
    · exact ⟨a', (if_neg hne.symm).trans ha', rfl⟩
  · rintro ⟨a', ha', rfl⟩
    split at ha'
    · cases ha'
      exact Or.inl rfl
    · next hne => exact Or.inr ⟨⟨a', ha', rfl⟩, fun heq => hne heq.symm⟩

end Sorted

/-! ## In the order of the first entries -/

section Items

variable [DecidableEq κ]

/-- Item assignment: the value of a key that is there, or a new pair at the end. -/
def setItem : List (κ × β) → κ → β → List (κ × β)
  | [], k, v => [(k, v)]
  | (k', v') :: d, k, v => if k' = k then (k', v) :: d else (k', v') :: setItem d k v

variable {d : List (κ × β)} {k k' : κ} {v : β}

theorem lookup_setItem (d : List (κ × β)) (k k' : κ) (v : β) :
    (setItem d k v).lookup k' = if k' = k then some v else d.lookup k' := by
  induction d with
  | nil =>
    rw [setItem, List.lookup_cons, List.lookup_nil]
    by_cases h : k' = k
    · rw [if_pos h, beq_iff_eq.2 h]
    · rw [if_neg h, beq_eq_false_iff_ne.2 h]
  | cons e d ih =>
    obtain ⟨k₁, v₁⟩ := e
    rw [setItem]
    by_cases h₁ : k₁ = k
    · subst h₁
      rw [if_pos rfl, List.lookup_cons, List.lookup_cons]
      by_cases h : k' = k₁
      · rw [if_pos h, beq_iff_eq.2 h]
      · rw [if_neg h, beq_eq_false_iff_ne.2 h]
    · rw [if_neg h₁, List.lookup_cons, List.lookup_cons, ih]
      by_cases h : k' = k₁
      · subst h
        simp only [beq_self_eq_true, if_neg h₁]
      · rw [beq_eq_false_iff_ne.2 h]

theorem mem_setItem : k' ∈ (setItem d k v).map Prod.fst ↔ k' = k ∨ k' ∈ d.map Prod.fst := by
  induction d with
  | nil => simp [setItem]
  | cons e d ih =>
    obtain ⟨k₁, v₁⟩ := e
    rw [setItem]
    split
    · next h =>
      subst h
      simp
    · rw [List.map_cons, List.map_cons, List.mem_cons, ih, List.mem_cons, or_left_comm]

/-- Each key stays once. -/
theorem nodup_setItem (h : (d.map Prod.fst).Nodup) : ((setItem d k v).map Prod.fst).Nodup := by
  induction d with
  | nil => exact List.nodup_singleton k
  | cons e d ih =>
    obtain ⟨k₁, v₁⟩ := e
    rw [List.map_cons, List.nodup_cons] at h
    rw [setItem]
    split
    · exact List.nodup_cons.2 h
    · next hne =>
      rw [List.map_cons, List.nodup_cons, mem_setItem]
      exact ⟨fun hmem => hmem.elim hne h.1, ih h.2⟩

end Items

end Cdc2Net.Lib.LastEntry

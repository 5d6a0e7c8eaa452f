import Mathlib.Algebra.GroupWithZero.Nat
import Mathlib.Data.List.FinRange
import Mathlib.Data.List.Nodup
import Mathlib.Logic.Function.Basic

/-!
# Maps in a fixed number of slots

A map with at most `n` entries, one in each slot. An insert replaces the entry of its
key, else takes the first free slot, else the entry in slot 0 gives way. That no two slots
hold one key is a field of `SlotMap`, so `insert` and `erase` prove it once.

`find_insert` and `find_erase` say what a change does to every key; `find_apply` says that
the value of a key is the one its last event left.
-/

set_option autoImplicit false

namespace Cdc2Net.Lib

universe u v

/-- The first hit of a scan is what stands at the first slot that passes. -/
theorem findSome?_eq_find?_bind {α : Type u} {β : Type v} {p : α → Bool} {f g : α → Option β}
    (h : ∀ a, f a = if p a then g a else none) (l : List α) (hg : ∀ a, p a → (g a).isSome) :
    l.findSome? f = (l.find? p).bind g := by
  induction l with
  | nil => rfl
  | cons a l ih =>
    rw [List.findSome?_cons, List.find?_cons, h a]
    cases hp : p a with
    | true =>
      obtain ⟨b, hb⟩ := Option.isSome_iff_exists.1 (hg a hp)
      simp [hb]
    | false => simpa using ih

/-- The slots; an occupied one holds a key and its value. -/
abbrev Slots (n : Nat) (κ : Type u) (ν : Type v) := Fin n → Option (κ × ν)

namespace Slots

variable {n : Nat} {κ : Type u} {ν : Type v} {s : Slots n κ ν} {i : Fin n} {k : κ}

/-- Slot `i` holds the key `k`. -/
def Holds (s : Slots n κ ν) (i : Fin n) (k : κ) : Prop := ∃ v, s i = some (k, v)

/-- The first free slot. -/
def freeSlot (s : Slots n κ ν) : Option (Fin n) :=
  (List.finRange n).find? fun i => (s i).isNone

theorem freeSlot_some (h : s.freeSlot = some i) : s i = none := by
  simpa using List.find?_some h

variable [DecidableEq κ]

/-- The first slot with the key `k`. -/
def slotOf (s : Slots n κ ν) (k : κ) : Option (Fin n) :=
  (List.finRange n).find? fun i => (s i).any fun e => e.1 = k

theorem slotOf_some (h : s.slotOf k = some i) : s.Holds i k := by
  have hany := List.find?_some h
  cases hs : s i with
  | none =>
    rw [hs] at hany
    cases hany
  | some e =>
    obtain ⟨k', v⟩ := e
    rw [hs] at hany
    have hk : k' = k := by simpa using hany
    exact ⟨v, by rw [hs, hk]⟩

theorem slotOf_none (h : s.slotOf k = none) (i : Fin n) : ¬ s.Holds i k := by
  rintro ⟨v, hv⟩
  have hany := List.find?_eq_none.1 h i (List.mem_finRange i)
  rw [hv] at hany
  simp at hany

/-- The slots without the entry of `k`. -/
def clear (s : Slots n κ ν) (k : κ) : Slots n κ ν :=
  match s.slotOf k with
  | none => s
  | some i => Function.update s i none

theorem holds_of_clear {j : Fin n} {c : κ} (h : (s.clear k).Holds j c) : s.Holds j c := by
  obtain ⟨v, hv⟩ := h
  cases hs : s.slotOf k with
  | none =>
    simp only [clear, hs] at hv
    exact ⟨v, hv⟩
  | some i =>
    simp only [clear, hs] at hv
    rcases eq_or_ne j i with rfl | hne
    · rw [Function.update_self] at hv
      cases hv
    · rw [Function.update_of_ne hne] at hv
      exact ⟨v, hv⟩

/-- The slot an insert of `k` writes. -/
def target [NeZero n] (s : Slots n κ ν) (k : κ) : Fin n :=
  (s.slotOf k).getD (s.freeSlot.getD 0)

end Slots

/-- A map in `n` slots. -/
structure SlotMap (n : Nat) (κ : Type u) (ν : Type v) where
  slots : Slots n κ ν
  unique : ∀ i j k, slots.Holds i k → slots.Holds j k → i = j

namespace SlotMap

variable {n : Nat} {κ : Type u} {ν : Type v}

/-- The map without entries. -/
def empty (n : Nat) (κ : Type u) (ν : Type v) : SlotMap n κ ν where
  slots := fun _ => none
  unique := by
    rintro i j k ⟨v, hv⟩
    cases hv

/-- The entries in slot order. -/
def toList (m : SlotMap n κ ν) : List (κ × ν) := (List.finRange n).filterMap m.slots

theorem toList_length (m : SlotMap n κ ν) : m.toList.length ≤ n := by
  have hle := List.length_filterMap_le m.slots (List.finRange n)
  rwa [List.length_finRange] at hle

/-- No key is listed twice. -/
theorem toList_nodup (m : SlotMap n κ ν) : (m.toList.map Prod.fst).Nodup := by
  rw [toList, List.map_filterMap]
  refine (List.nodup_finRange n).filterMap ?_
  intro i j k hi hj
  obtain ⟨e, he, rfl⟩ := Option.map_eq_some_iff.1 hi
  obtain ⟨e', he', heq⟩ := Option.map_eq_some_iff.1 hj
  refine m.unique i j e.1 ⟨e.2, he⟩ ⟨e'.2, ?_⟩
  rw [← heq]
  exact he'

variable [DecidableEq κ] {m : SlotMap n κ ν} {k k' : κ} {v w : ν} {i : Fin n}

/-- The value of a key. -/
def find (m : SlotMap n κ ν) (k : κ) : Option ν :=
  (m.slots.slotOf k).bind fun i => (m.slots i).map Prod.snd

theorem slotOf_eq (h : m.slots.Holds i k) : m.slots.slotOf k = some i := by
  cases hs : m.slots.slotOf k with
  | none => exact absurd h (Slots.slotOf_none hs i)
  | some j => rw [m.unique i j k h (Slots.slotOf_some hs)]

theorem find_eq_some : m.find k = some v ↔ ∃ i, m.slots i = some (k, v) := by
  constructor
  · intro h
    obtain ⟨i, hi, hv⟩ := Option.bind_eq_some_iff.1 h
    obtain ⟨w, hw⟩ := Slots.slotOf_some hi
    rw [hw] at hv
    exact ⟨i, by rw [hw, ← Option.some.inj hv]⟩
  · rintro ⟨i, hi⟩
    rw [find, slotOf_eq ⟨v, hi⟩]
    simp [hi]

theorem find_eq_none : m.find k = none ↔ ∀ i, ¬ m.slots.Holds i k := by
  constructor
  · rintro h i ⟨v, hv⟩
    rw [find_eq_some.2 ⟨i, hv⟩] at h
    cases h
  · intro h
    cases hf : m.find k with
    | none => rfl
    | some v =>
      obtain ⟨i, hi⟩ := find_eq_some.1 hf
      exact absurd ⟨v, hi⟩ (h i)

/-- What is listed is what is found. -/
theorem mem_toList : (k, v) ∈ m.toList ↔ m.find k = some v := by
  rw [find_eq_some, toList, List.mem_filterMap]
  exact ⟨fun ⟨i, _, hi⟩ => ⟨i, hi⟩, fun ⟨i, hi⟩ => ⟨i, List.mem_finRange i, hi⟩⟩

/-- Remove the entry of a key. -/
def erase (m : SlotMap n κ ν) (k : κ) : SlotMap n κ ν where
  slots := m.slots.clear k
  unique i j c hi hj := m.unique i j c (Slots.holds_of_clear hi) (Slots.holds_of_clear hj)

/-- An erase removes its key only. -/
theorem find_erase : (m.erase k).find k' = if k' = k then none else m.find k' := by
  cases hs : m.slots.slotOf k with
  | none =>
    -- nobody holds `k`, so nothing is cleared
    have hslots : (m.erase k).slots = m.slots := by simp only [erase, Slots.clear, hs]
    have hsame : (m.erase k).find k' = m.find k' := by simp only [find, hslots]
    rw [hsame]
    split
    · next heq =>
      rw [heq, find_eq_none]
      exact Slots.slotOf_none hs
    · rfl
  | some i =>
    have hslots : (m.erase k).slots = Function.update m.slots i none := by
      simp only [erase, Slots.clear, hs]
    have hi := Slots.slotOf_some hs
    split
    · next heq =>
      rw [heq, find_eq_none, hslots]
      rintro j ⟨v, hv⟩
      rcases eq_or_ne j i with rfl | hne
      · rw [Function.update_self] at hv
        cases hv
      · -- a second holder of `k` would have been slot `i`
        rw [Function.update_of_ne hne] at hv
        exact hne (m.unique j i k ⟨v, hv⟩ hi)
    · next hne =>
      refine Option.ext fun v => ?_
      rw [find_eq_some, find_eq_some, hslots]
      refine exists_congr fun j => ?_
      rcases eq_or_ne j i with rfl | hji
      · obtain ⟨w, hw⟩ := hi
        rw [Function.update_self, hw]
        refine iff_of_false (by simp) fun heq => hne ?_
        exact (Prod.ext_iff.1 (Option.some.inj heq)).1.symm
      · rw [Function.update_of_ne hji]

theorem erase_slots (i : Fin n) : (m.erase k).slots i = (m.slots i).filter fun e => e.1 ≠ k := by
  have hkeep : ¬ m.slots.Holds i k → m.slots i = (m.slots i).filter fun e => e.1 ≠ k := by
    intro hi
    cases he : m.slots i with
    | none => rfl
    | some e =>
      have hne : e.1 ≠ k := fun hk => hi ⟨e.2, by rw [he, ← hk]⟩
      rw [Option.filter, if_pos (decide_eq_true hne)]
  cases hs : m.slots.slotOf k with
  | none =>
    simp only [erase, Slots.clear, hs]
    exact hkeep (Slots.slotOf_none hs i)
  | some j =>
    simp only [erase, Slots.clear, hs]
    have hj := Slots.slotOf_some hs
    rcases eq_or_ne i j with rfl | hne
    · obtain ⟨v, hv⟩ := hj
      rw [Function.update_self, hv, Option.filter, if_neg (by simp)]
    · rw [Function.update_of_ne hne]
      exact hkeep fun hi => hne (m.unique i j k hi hj)

/-- An erase takes its key out of the list. -/
theorem toList_erase : (m.erase k).toList = m.toList.filter fun e => e.1 ≠ k := by
  rw [toList, toList, List.filter_filterMap]
  exact List.filterMap_congr fun i _ => erase_slots i

section Insert

variable [NeZero n]

theorem target_of_holds (h : m.slots.Holds i k) : m.slots.target k = i := by
  rw [Slots.target, slotOf_eq h]
  rfl

/-- Give a key a value. -/
def insert (m : SlotMap n κ ν) (k : κ) (v : ν) : SlotMap n κ ν where
  slots := Function.update m.slots (m.slots.target k) (some (k, v))
  unique := by
    -- a slot that still holds `k` is the one written
    have hwritten : ∀ j c, Slots.Holds (Function.update m.slots (m.slots.target k) (some (k, v)))
        j c → (j = m.slots.target k ∧ c = k) ∨ (c ≠ k ∧ m.slots.Holds j c) := by
      rintro j c ⟨w, hw⟩
      rcases eq_or_ne j (m.slots.target k) with heq | hne
      · rw [heq, Function.update_self] at hw
        exact .inl ⟨heq, (Prod.ext_iff.1 (Option.some.inj hw)).1.symm⟩
      · rw [Function.update_of_ne hne] at hw
        refine .inr ⟨?_, w, hw⟩
        rintro rfl
        exact hne (target_of_holds ⟨w, hw⟩).symm
    intro i j c hi hj
    rcases hwritten i c hi with ⟨hi, hc⟩ | ⟨hc, hi⟩
    · rcases hwritten j c hj with ⟨hj, -⟩ | ⟨hc', -⟩
      · rw [hi, hj]
      · exact absurd hc hc'
    · rcases hwritten j c hj with ⟨-, hc'⟩ | ⟨-, hj⟩
      · exact absurd hc' hc
      · exact m.unique i j c hi hj

/-- The key that gives way to an insert of `k`. -/
def evicted (m : SlotMap n κ ν) (k : κ) : Option κ :=
  if m.find k = none ∧ m.slots.freeSlot = none then (m.slots 0).map Prod.fst else none

/-- The slot written held no other key than the evicted one. -/
theorem evicted_of_target (h : m.slots.Holds (m.slots.target k) k') (hne : k' ≠ k) :
    m.evicted k = some k' := by
  obtain ⟨w, hw⟩ := h
  cases hs : m.slots.slotOf k with
  | some i =>
    -- `k` is overwritten where it stands
    obtain ⟨x, hx⟩ := Slots.slotOf_some hs
    rw [Slots.target, hs, Option.getD_some, hx] at hw
    exact absurd (Prod.ext_iff.1 (Option.some.inj hw)).1.symm hne
  | none =>
    cases hf : m.slots.freeSlot with
    | some i =>
      rw [Slots.target, hs, hf, Option.getD_none, Option.getD_some, Slots.freeSlot_some hf] at hw
      cases hw
    | none =>
      -- slot 0 is taken, whoever is in it
      rw [Slots.target, hs, hf, Option.getD_none, Option.getD_none] at hw
      rw [evicted, if_pos ⟨find_eq_none.2 (Slots.slotOf_none hs), hf⟩, hw]
      rfl

/-- An insert changes its key, and the key it evicts, only. -/
theorem find_insert : (m.insert k v).find k' =
    if k' = k then some v else if m.evicted k = some k' then none else m.find k' := by
  have hslots : (m.insert k v).slots =
      Function.update m.slots (m.slots.target k) (some (k, v)) := rfl
  rcases eq_or_ne k' k with rfl | hne
  · rw [if_pos rfl, find_eq_some, hslots]
    exact ⟨_, Function.update_self _ _ _⟩
  · rw [if_neg hne]
    have hother : ∀ w, (m.insert k v).find k' = some w ↔
        ∃ i, i ≠ m.slots.target k ∧ m.slots i = some (k', w) := by
      intro w
      rw [find_eq_some, hslots]
      refine exists_congr fun i => ?_
      rcases eq_or_ne i (m.slots.target k) with rfl | hi
      · rw [Function.update_self]
        refine iff_of_false (fun heq => hne ?_) fun h => h.1 rfl
        exact (Prod.ext_iff.1 (Option.some.inj heq)).1.symm
      · rw [Function.update_of_ne hi]
        exact ⟨fun h => ⟨hi, h⟩, fun h => h.2⟩
    split
    · next hev =>
      -- the evicted key was in the slot written, and in no other
      rw [evicted] at hev
      split at hev
      · next hfull =>
        obtain ⟨e, he, rfl⟩ := Option.map_eq_some_iff.1 hev
        have htarget : m.slots.target k = 0 := by
          have hs : m.slots.slotOf k = none := by
            cases hs : m.slots.slotOf k with
            | none => rfl
            | some i => exact absurd (Slots.slotOf_some hs) (find_eq_none.1 hfull.1 i)
          rw [Slots.target, hs, hfull.2]
          rfl
        cases hfind : (m.insert k v).find e.1 with
        | none => rfl
        | some w =>
          obtain ⟨i, hi, hw⟩ := (hother w).1 hfind
          rw [htarget] at hi
          exact absurd (m.unique i 0 e.1 ⟨w, hw⟩ ⟨e.2, he⟩) hi
      · cases hev
    · next hkeep =>
      -- every slot with `k'` is another than the one written
      refine Option.ext fun w => ?_
      rw [hother, find_eq_some]
      refine exists_congr fun i => ⟨fun h => h.2, fun h => ⟨?_, h⟩⟩
      rintro rfl
      exact hkeep (evicted_of_target ⟨w, h⟩ hne)

end Insert

/-! ## Histories -/

/-- A change of the map. -/
inductive Change (κ : Type u) (ν : Type v) where
  | insert (k : κ) (v : ν)
  | erase (k : κ)

/-- What happens to a key. -/
inductive Event (κ : Type u) (ν : Type v) where
  | stored (k : κ) (v : ν)
  /-- Erased or evicted. -/
  | gone (k : κ)
  deriving DecidableEq

/-- The value of `k` after an event. -/
def Event.after (k : κ) (old : Option ν) : Event κ ν → Option ν
  | .stored k' v => if k' = k then some v else old
  | .gone k' => if k' = k then none else old

/-- The value the last event about `k` left. -/
def latest (k : κ) (es : List (Event κ ν)) : Option ν := es.foldl (Event.after k) none

theorem latest_append (es es' : List (Event κ ν)) :
    latest k (es ++ es') = es'.foldl (Event.after k) (latest k es) :=
  List.foldl_append

variable [NeZero n]

/-- Make a change. -/
def apply (m : SlotMap n κ ν) : Change κ ν → SlotMap n κ ν
  | .insert k v => m.insert k v
  | .erase k => m.erase k

/-- What a change does to keys. -/
def events (m : SlotMap n κ ν) : Change κ ν → List (Event κ ν)
  | .insert k v => ((m.evicted k).map .gone).toList ++ [.stored k v]
  | .erase k => [.gone k]

/-- After a change each key has the value its last event left. -/
theorem find_apply (c : Change κ ν) :
    (m.apply c).find k = (m.events c).foldl (Event.after k) (m.find k) := by
  cases c with
  | insert k' v =>
    rw [apply, find_insert, events]
    cases hev : m.evicted k' with
    | none =>
      simp only [Option.map_none, Option.toList_none, List.nil_append, List.foldl_cons,
        List.foldl_nil, Event.after, reduceCtorEq, if_false, eq_comm]
    | some e =>
      simp only [Option.map_some, Option.toList_some, List.singleton_append, List.foldl_cons,
        List.foldl_nil, Event.after, Option.some.injEq, eq_comm (a := k)]
  | erase k' =>
    rw [apply, find_erase, events]
    simp only [List.foldl_cons, List.foldl_nil, Event.after, eq_comm]

end SlotMap

end Cdc2Net.Lib

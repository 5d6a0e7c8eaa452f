import Mathlib.Data.List.Nodup
import Mathlib.Logic.Function.Basic

/-!
# Records kept key by key

A store holds values under keys, and a record is written as a list of keys and values, one
call after the other. Every call takes effect at once, fails without effect, or is cut off by
a loss of power, and the first that does not succeed ends the sequence (`setAll`). The store
then holds the entries `landed`, a prefix of the record, over what it held before.

A `View` reads something at every key that depends on the entry of this key only.
`View.put_eq_iff` says when a part of a record leaves a view as it was.
-/

set_option autoImplicit false

namespace Cdc2Net.Lib.KeyedRecord

universe u v w x

/-- How a call goes. -/
inductive Call (ε : Type w) where
  | ok
  | fail (e : ε)
  | cut
  deriving DecidableEq, Repr

/-- How a sequence of calls ends. -/
inductive Ended (ε : Type w) where
  | done
  | failed (e : ε)
  | cut
  deriving DecidableEq, Repr

/-- The values under the keys. -/
abbrev Store (K : Type u) (V : Type v) := K → Option V

variable {K : Type u} {V : Type v} {ε : Type w} [DecidableEq K]

/-- Set the keys one after the other, call `n` first, as long as the calls succeed. -/
def setAll (calls : Nat → Call ε) : Nat → List (K × V) → Store K V → Ended ε × Store K V
  | _, [], s => (.done, s)
  | n, kv :: kvs, s =>
    match calls n with
    | .ok => setAll calls (n + 1) kvs (Function.update s kv.1 (some kv.2))
    | .fail e => (.failed e, s)
    | .cut => (.cut, s)

/-- The entries that are set. -/
def landed (calls : Nat → Call ε) : Nat → List (K × V) → List (K × V)
  | _, [] => []
  | n, kv :: kvs =>
    match calls n with
    | .ok => kv :: landed calls (n + 1) kvs
    | _ => []

/-- The store with the entries set. -/
def put (kvs : List (K × V)) (s : Store K V) : Store K V :=
  kvs.foldl (fun s kv => Function.update s kv.1 (some kv.2)) s

section Laws

variable {calls : Nat → Call ε} {kvs : List (K × V)} {s t : Store K V} {k : K} {v : V} {n : Nat}

omit [DecidableEq K] in
theorem landed_initial : landed calls n kvs <+: kvs := by
  induction kvs generalizing n with
  | nil => exact List.prefix_rfl
  | cons kv kvs ih =>
    rw [landed]
    split
    · exact (List.prefix_cons_inj kv).2 ih
    · exact List.nil_prefix

omit [DecidableEq K] in
/-- Everything lands if every call succeeds. -/
theorem landed_eq_iff : landed calls n kvs = kvs ↔ ∀ i < kvs.length, calls (n + i) = .ok := by
  induction kvs generalizing n with
  | nil => simp [landed]
  | cons kv kvs ih =>
    rw [landed]
    cases hc : calls n with
    | ok =>
      simp only [List.cons.injEq, true_and, ih, List.length_cons]
      constructor
      · rintro h (_ | i) hi
        · exact hc
        · rw [← Nat.add_assoc, Nat.add_right_comm]
          exact h i (by omega)
      · intro h i hi
        have := h (i + 1) (by omega)
        rwa [← Nat.add_assoc, Nat.add_right_comm] at this
    | fail e =>
      refine iff_of_false (by simp) fun h => ?_
      have := h 0 (by simp)
      rw [Nat.add_zero, hc] at this
      cases this
    | cut =>
      refine iff_of_false (by simp) fun h => ?_
      have := h 0 (by simp)
      rw [Nat.add_zero, hc] at this
      cases this

theorem setAll_store : (setAll calls n kvs s).2 = put (landed calls n kvs) s := by
  induction kvs generalizing n s with
  | nil => rfl
  | cons kv kvs ih =>
    rw [setAll, landed]
    cases calls n with
    | ok => exact ih
    | fail e => rfl
    | cut => rfl

theorem setAll_done : (setAll calls n kvs s).1 = .done ↔ landed calls n kvs = kvs := by
  induction kvs generalizing n s with
  | nil => simp [setAll, landed]
  | cons kv kvs ih =>
    rw [setAll, landed]
    cases calls n with
    | ok => simp [ih]
    | fail e => simp
    | cut => simp

/-- A key that is not set keeps its entry. -/
theorem put_of_notMem (h : ∀ kv ∈ kvs, kv.1 ≠ k) : put kvs s k = s k := by
  induction kvs generalizing s with
  | nil => rfl
  | cons kv kvs ih =>
    have hk : k ≠ kv.1 := fun hk => h kv (by simp) hk.symm
    refine (ih fun kv' hkv' => h kv' (by simp [hkv'])).trans ?_
    exact Function.update_of_ne hk _ _

theorem put_of_mem (hn : (kvs.map Prod.fst).Nodup) (h : (k, v) ∈ kvs) :
    put kvs s k = some v := by
  induction kvs generalizing s with
  | nil => cases h
  | cons kv kvs ih =>
    rw [List.map_cons, List.nodup_cons] at hn
    rcases List.mem_cons.1 h with rfl | h
    · have hrest : put kvs (Function.update s k (some v)) k = Function.update s k (some v) k := by
        refine put_of_notMem fun kv hkv hk => hn.1 ?_
        exact List.mem_map.2 ⟨kv, hkv, hk⟩
      exact hrest.trans (Function.update_self _ _ _)
    · exact ih hn.2 h

end Laws

/-- What is read at each key: it depends on the entry of the key only. -/
structure View (K : Type u) (V : Type v) (D : Type x) where
  read : Store K V → K → D
  congr : ∀ {s t : Store K V} {k : K}, s k = t k → read s k = read t k

section View

variable {D : Type x} {W : View K V D} {kvs : List (K × V)} {s : Store K V} {want : K → D}

/-- A record that was written in full is read back. -/
theorem View.put_eq (hn : (kvs.map Prod.fst).Nodup)
    (hw : ∀ kv ∈ kvs, ∀ t : Store K V, t kv.1 = some kv.2 → W.read t kv.1 = want kv.1) :
    ∀ kv ∈ kvs, W.read (put kvs s) kv.1 = want kv.1 :=
  fun kv hkv => hw kv hkv _ (put_of_mem hn hkv)

/-- Entries leave a view as it was if each is read as what it was before. -/
theorem View.put_eq_iff (hn : (kvs.map Prod.fst).Nodup)
    (hw : ∀ kv ∈ kvs, ∀ t : Store K V, t kv.1 = some kv.2 → W.read t kv.1 = want kv.1) :
    (∀ k, W.read (put kvs s) k = W.read s k) ↔ ∀ kv ∈ kvs, W.read s kv.1 = want kv.1 := by
  constructor
  · intro h kv hkv
    rw [← h kv.1]
    exact View.put_eq hn hw kv hkv
  · intro h k
    by_cases hk : ∃ kv ∈ kvs, kv.1 = k
    · obtain ⟨kv, hkv, rfl⟩ := hk
      rw [h kv hkv]
      exact View.put_eq hn hw kv hkv
    · refine W.congr (put_of_notMem fun kv hkv hkk => hk ⟨kv, hkv, hkk⟩)

end View

end Cdc2Net.Lib.KeyedRecord

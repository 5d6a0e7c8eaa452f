import Cdc2Net.Lib.SlotMap
import Cdc2Net.Lib.Transition
import Cdc2Net.Source.SerialCfg

/-!
# The writers of the per-device table

`serialcfg_upsert`, `serialcfg_delete` and `serialcfg_list` of `serialcfg.c`, beside the
reader of `Source.SerialCfg`. The results of the NVS calls are inputs. With calls that
succeed the namespace is a map in eight slots (`upsert_represents`,
`delete_represents`), and every run of the four functions keeps it one
(`serialcfg_bounded_map`).
-/

set_option autoImplicit false

namespace Cdc2Net.Source

open Cdc2Net.Lib
open Cdc2Net.Lib.Transition

/-! ## The functions -/

/-- What the NVS calls of a writer return. -/
structure NvsResults where
  openRw : EspErr
  setBlob : EspErr
  commit : EspErr
  deriving DecidableEq, Repr

/-- All three calls succeed. -/
def NvsResults.allOk : NvsResults := ⟨.ok, .ok, .ok⟩

/-- `snprintf(e.key, sizeof(e.key), "%s", key)` on zeroed memory. -/
def keyArray (key : List UInt8) : List UInt8 :=
  (cString key).take (serialcfgKeyLen - 1) ++
    List.replicate (serialcfgKeyLen - ((cString key).take (serialcfgKeyLen - 1)).length) 0

/-- `store_slot`. -/
def NvsTable.store (nvs : NvsTable) (i : Fin serialcfgMax) (e : Entry) : NvsTable :=
  { nvs with slot := Function.update nvs.slot i (some e) }

/-- The scan of `serialcfg_upsert`: `match` and `free_slot`, which stays unset behind a
match. -/
def upsertScan (nvs : NvsTable) (key : List UInt8) :
    List (Fin serialcfgMax) → Option (Fin serialcfgMax) →
      Option (Fin serialcfgMax) × Option (Fin serialcfgMax)
  | [], free => (none, free)
  | i :: is, free =>
    match loadSlot (nvs.slot i) with
    | some e => if e.key = key then (some i, free) else upsertScan nvs key is free
    | none => upsertScan nvs key is (if free = none then some i else free)

/-- The slot `serialcfg_upsert` writes. -/
def upsertSlot (nvs : NvsTable) (key : List UInt8) : Fin serialcfgMax :=
  let r := upsertScan nvs key (List.finRange serialcfgMax) none
  r.1.getD (r.2.getD ⟨0, by decide⟩)

/-- `serialcfg_upsert`. The first open for writing creates the namespace. -/
def serialcfgUpsert (r : NvsResults) (nvs : NvsTable) (key : List UInt8) (lc : LineCoding) :
    EspErr × NvsTable :=
  if key = [] then (.invalidArg, nvs)
  else if r.openRw ≠ .ok then (r.openRw, nvs)
  else
    let nvs := { nvs with opens := true }
    let slot := upsertSlot nvs key
    if r.setBlob ≠ .ok then (r.setBlob, nvs)
    else (r.commit, nvs.store slot ⟨serialcfgVer, 1, lc, keyArray key⟩)

/-- `serialcfg_delete`. -/
def serialcfgDelete (r : NvsResults) (nvs : NvsTable) (key : List UInt8) : EspErr × NvsTable :=
  if key = [] then (.invalidArg, nvs)
  else if r.openRw ≠ .ok then (r.openRw, nvs)
  else
    let nvs := { nvs with opens := true }
    let found := (List.finRange serialcfgMax).findSome? fun i =>
      (loadSlot (nvs.slot i)).bind fun e => if e.key = key then some (i, e) else none
    match found with
    | none => (.notFound, nvs)
    | some (i, e) =>
      if r.setBlob ≠ .ok then (r.setBlob, nvs)
      else (r.commit, nvs.store i { e with used := 0, key := keyArray e.key })

/-- `serialcfg_lookup` with its out parameter. -/
def serialcfgLookupOut (nvs : NvsTable) (key : List UInt8) (out : LineCoding) :
    Bool × LineCoding :=
  match serialcfgLookup nvs key with
  | some lc => (true, lc)
  | none => (false, out)

/-- `serialcfg_list`: at most `cap` entries, in slot order. -/
def serialcfgList (nvs : NvsTable) (cap : Int) : List (List UInt8 × LineCoding) :=
  if cap ≤ 0 then []
  else if nvs.opens = false then []
  else
    ((List.finRange serialcfgMax).filterMap fun i =>
      (loadSlot (nvs.slot i)).map fun e => (e.key, e.lc)).take cap.toNat

instance : NeZero serialcfgMax := ⟨by decide⟩

/-- A key of 1 to 32 characters. -/
def ValidKey (key : List UInt8) : Prop :=
  1 ≤ key.length ∧ key.length ≤ serialcfgKeyLen - 1 ∧ 0 ∉ key

instance (key : List UInt8) : Decidable (ValidKey key) := by
  unfold ValidKey
  infer_instance

/-! ## The namespace as a map -/

/-- The keys and codings in the slots. -/
def NvsTable.entries (nvs : NvsTable) : Slots serialcfgMax (List UInt8) LineCoding := fun i =>
  (loadSlot (nvs.slot i)).map fun e => (e.key, e.lc)

/-- The namespace holds the map `m`; one that does not open yet is empty. -/
structure NvsTable.Represents (nvs : NvsTable) (m : SlotMap serialcfgMax (List UInt8) LineCoding) :
    Prop where
  entries : nvs.entries = m.slots
  closed : nvs.opens = false → ∀ i, nvs.entries i = none

section Refinement

variable {nvs : NvsTable} {m : SlotMap serialcfgMax (List UInt8) LineCoding} {key : List UInt8}
  {lc : LineCoding} {i : Fin serialcfgMax}

theorem ValidKey.ne_nil (h : ValidKey key) : key ≠ [] := by
  rintro rfl
  exact absurd h.1 (by decide)

theorem cString_append_zeros {bytes : List UInt8} (h : 0 ∉ bytes) (n : Nat) :
    cString (bytes ++ List.replicate n 0) = bytes := by
  have hall : ∀ b ∈ bytes, decide (b ≠ 0) = true := by
    intro b hb
    have hne : b ≠ 0 := by
      rintro rfl
      exact h hb
    simpa using hne
  rw [cString, List.takeWhile_append_of_pos hall]
  cases n with
  | zero => exact List.append_nil bytes
  | succ n => exact List.append_nil bytes

theorem ValidKey.cString_eq (h : ValidKey key) : cString key = key := by
  simpa using cString_append_zeros h.2.2 0

/-- The slot gives a valid key back. -/
theorem ValidKey.loaded (h : ValidKey key) :
    cString ((keyArray key).take (serialcfgKeyLen - 1)) = key := by
  have htake : key.take (serialcfgKeyLen - 1) = key := List.take_of_length_le h.2.1
  rw [keyArray, h.cString_eq, htake, List.take_append, htake, List.take_replicate]
  exact cString_append_zeros h.2.2 _

theorem loadSlot_stored (h : ValidKey key) :
    loadSlot (some ⟨serialcfgVer, 1, lc, keyArray key⟩) = some ⟨serialcfgVer, 1, lc, key⟩ := by
  simp [loadSlot, h.loaded]

theorem entries_store (nvs : NvsTable) (i : Fin serialcfgMax) (e : Entry) :
    (nvs.store i e).entries =
      Function.update nvs.entries i ((loadSlot (some e)).map fun e => (e.key, e.lc)) := by
  funext j
  rcases eq_or_ne j i with rfl | hne
  · simp [NvsTable.entries, NvsTable.store]
  · simp [NvsTable.entries, NvsTable.store, Function.update_of_ne hne]

/-- `serialcfg_lookup` finds what the map holds. -/
theorem lookup_eq (h : nvs.Represents m) (hkey : key ≠ []) :
    serialcfgLookup nvs key = m.find key := by
  rw [serialcfgLookup, if_neg hkey]
  cases ho : nvs.opens with
  | false =>
    -- before the first write the read-only open fails
    rw [if_pos rfl, eq_comm, SlotMap.find_eq_none]
    rintro i ⟨lc, hlc⟩
    rw [← h.entries, h.closed ho i] at hlc
    cases hlc
  | true =>
    -- the scan stops at the first slot with the key
    rw [if_neg (by simp), SlotMap.find, ← h.entries, Slots.slotOf]
    refine findSome?_eq_find?_bind (fun i => ?_) _ fun i hi => ?_
    · rw [NvsTable.entries]
      cases loadSlot (nvs.slot i) with
      | none => rfl
      | some e => by_cases hk : e.key = key <;> simp [hk]
    · cases he : nvs.entries i with
      | none =>
        rw [he] at hi
        cases hi
      | some e => rfl

/-! ### Upsert -/

/-- The scan finds the key, or else the first free slot. -/
theorem upsertScan_eq (nvs : NvsTable) (key : List UInt8) (l : List (Fin serialcfgMax)) :
    ∀ free, (upsertScan nvs key l free).1 =
        l.find? (fun i => (nvs.entries i).any fun e => e.1 = key) ∧
      (l.find? (fun i => (nvs.entries i).any fun e => e.1 = key) = none →
        (upsertScan nvs key l free).2 = free.or (l.find? fun i => (nvs.entries i).isNone)) := by
  -- on the slots still to scan, for every free slot seen so far
  induction l with
  | nil => exact fun free => ⟨rfl, fun _ => by simp [upsertScan]⟩
  | cons i l ih =>
    intro free
    cases he : loadSlot (nvs.slot i) with
    | none =>
      have hentry : nvs.entries i = none := by simp [NvsTable.entries, he]
      obtain ⟨hfound, hfree⟩ := ih (if free = none then some i else free)
      simp only [upsertScan, he, List.find?_cons, hentry, Option.any_none, Option.isNone_none]
      refine ⟨hfound, fun hnone => ?_⟩
      rw [hfree hnone]
      cases free with
      | none => rfl
      | some j => rfl
    | some e =>
      have hentry : nvs.entries i = some (e.key, e.lc) := by simp [NvsTable.entries, he]
      simp only [upsertScan, he, List.find?_cons, hentry, Option.any_some, Option.isNone_some]
      by_cases hk : e.key = key
      · -- the scan ends here, and the free slot no longer counts
        simp [hk]
      · simp only [hk, if_false, decide_false]
        exact ih free

theorem upsertSlot_eq (h : nvs.entries = m.slots) : upsertSlot nvs key = m.slots.target key := by
  obtain ⟨hfound, hfree⟩ := upsertScan_eq nvs key (List.finRange serialcfgMax) none
  rw [upsertSlot, Slots.target, Slots.slotOf, Slots.freeSlot, ← h, ← hfound]
  cases hs : (upsertScan nvs key (List.finRange serialcfgMax) none).1 with
  | some i => rfl
  | none =>
    rw [hfound] at hs
    rw [hfree hs]
    rfl

/-- `serialcfg_upsert` is the insert of the map. -/
theorem upsert_represents (h : nvs.Represents m) (hkey : ValidKey key) (lc : LineCoding) :
    (serialcfgUpsert .allOk nvs key lc).1 = .ok ∧
      (serialcfgUpsert .allOk nvs key lc).2.Represents (m.insert key lc) := by
  have hup : serialcfgUpsert .allOk nvs key lc =
      (.ok, NvsTable.store { nvs with opens := true } (upsertSlot { nvs with opens := true } key)
        ⟨serialcfgVer, 1, lc, keyArray key⟩) := by
    rw [serialcfgUpsert, if_neg hkey.ne_nil]
    rfl
  rw [hup]
  refine ⟨rfl, ?_, fun hopen => by cases hopen⟩
  have hentries : NvsTable.entries { nvs with opens := true } = m.slots := h.entries
  rw [entries_store, loadSlot_stored hkey, upsertSlot_eq hentries, hentries]
  rfl

/-! ### Delete -/

/-- `serialcfg_delete` is the erase of the map. -/
theorem delete_represents (h : nvs.Represents m) (hkey : ValidKey key) :
    (serialcfgDelete .allOk nvs key).1 = (if m.find key = none then .notFound else .ok) ∧
      (serialcfgDelete .allOk nvs key).2.Represents (m.erase key) := by
  have hentries : NvsTable.entries { nvs with opens := true } = m.slots := h.entries
  have hscan : ((List.finRange serialcfgMax).findSome? fun i =>
      (loadSlot (nvs.slot i)).bind fun e => if e.key = key then some (i, e) else none) =
        (m.slots.slotOf key).bind fun i => (loadSlot (nvs.slot i)).map fun e => (i, e) := by
    rw [Slots.slotOf, ← h.entries]
    refine findSome?_eq_find?_bind (fun i => ?_) _ fun i hi => ?_
    · rw [NvsTable.entries]
      cases loadSlot (nvs.slot i) with
      | none => rfl
      | some e => by_cases hk : e.key = key <;> simp [hk]
    · rw [NvsTable.entries] at hi
      cases hl : loadSlot (nvs.slot i) with
      | none =>
        rw [hl] at hi
        cases hi
      | some e => rfl
  simp only [serialcfgDelete, if_neg hkey.ne_nil, hscan]
  cases hs : m.slots.slotOf key with
  | none =>
    have hfind : m.find key = none := SlotMap.find_eq_none.2 (Slots.slotOf_none hs)
    rw [if_pos hfind]
    refine ⟨rfl, ?_, fun hopen => by cases hopen⟩
    simp only [SlotMap.erase, Slots.clear, hs]
    exact hentries
  | some i =>
    obtain ⟨lc, hlc⟩ := Slots.slotOf_some hs
    have hfind : m.find key ≠ none := by
      rw [SlotMap.find_eq_some.2 ⟨i, hlc⟩]
      simp
    rw [← h.entries, NvsTable.entries] at hlc
    obtain ⟨e, he, -⟩ := Option.map_eq_some_iff.1 hlc
    -- the slot stays written, with `used` 0, and does not load any more
    rw [if_neg hfind, Option.bind_some, he]
    refine ⟨rfl, ?_, fun hopen => by cases hopen⟩
    simp only [SlotMap.erase, Slots.clear, hs]
    show (NvsTable.store { nvs with opens := true } i
      { e with used := 0, key := keyArray e.key }).entries = _
    rw [entries_store, hentries]
    simp [loadSlot]

/-! ### List -/

/-- `serialcfg_list` copies the map in slot order, up to `cap`. -/
theorem list_eq (h : nvs.Represents m) {cap : Int} (hcap : 0 < cap) :
    serialcfgList nvs cap = m.toList.take cap.toNat := by
  rw [serialcfgList, if_neg (by omega), SlotMap.toList, ← h.entries]
  cases ho : nvs.opens with
  | false =>
    have hnone : (List.finRange serialcfgMax).filterMap nvs.entries = [] :=
      List.filterMap_eq_nil_iff.2 fun i _ => h.closed ho i
    rw [if_pos rfl, hnone, List.take_nil]
  | true => rfl

/-- With room for eight entries the whole map is copied. -/
theorem list_eq_toList (h : nvs.Represents m) {cap : Int} (hcap : serialcfgMax ≤ cap) :
    serialcfgList nvs cap = m.toList := by
  have hlen := m.toList_length
  have hmax : serialcfgMax = 8 := rfl
  rw [list_eq h (by omega), List.take_of_length_le (by omega)]

end Refinement

/-! ## Runs of the four functions -/

/-- A call of the store. -/
inductive SerialcfgOp where
  | upsert (key : List UInt8) (lc : LineCoding)
  | delete (key : List UInt8)
  | lookup (key : List UInt8) (out : LineCoding)
  | list (cap : Int)

/-- The keys have 1 to 32 characters. -/
def SerialcfgOp.Valid : SerialcfgOp → Prop
  | .upsert key _ => ValidKey key
  | .delete key => ValidKey key
  | .lookup key _ => ValidKey key
  | .list _ => True

/-- The store; lookup and list leave it as it is. -/
def serialcfgSystem : Machine NvsTable SerialcfgOp where
  step nvs
    | .upsert key lc => some (serialcfgUpsert .allOk nvs key lc).2
    | .delete key => some (serialcfgDelete .allOk nvs key).2
    | .lookup _ _ => some nvs
    | .list _ => some nvs

/-- The key in slot 0, if an upsert of `key` has to evict it: `key` is new and all slots
are occupied. -/
def evictedKey (nvs : NvsTable) (key : List UInt8) : Option (List UInt8) :=
  if serialcfgLookup nvs key = none ∧ ∀ i, (loadSlot (nvs.slot i)).isSome = true then
    (loadSlot (nvs.slot ⟨0, by decide⟩)).map Entry.key
  else none

/-- What a call does to keys. -/
def serialcfgEvents (nvs : NvsTable) : SerialcfgOp → List (SlotMap.Event (List UInt8) LineCoding)
  | .upsert key lc => ((evictedKey nvs key).map .gone).toList ++ [.stored key lc]
  | .delete key => [.gone key]
  | .lookup _ _ => []
  | .list _ => []

/-- The namespace before the first write; a read-only open of it may fail. -/
def emptyTable (opens : Bool) : NvsTable := ⟨opens, fun _ => none⟩

/-- The store is a bounded map with the history `events`. -/
structure BoundedMap (nvs : NvsTable) (events : List (SlotMap.Event (List UInt8) LineCoding)) :
    Prop where
  unique : ∀ i j e e', loadSlot (nvs.slot i) = some e → loadSlot (nvs.slot j) = some e' →
    e.key = e'.key → i = j
  lookup : ∀ key out, ValidKey key → serialcfgLookupOut nvs key out =
    match SlotMap.latest key events with
    | some lc => (true, lc)
    | none => (false, out)
  upsert : ∀ key lc, ValidKey key → (serialcfgUpsert .allOk nvs key lc).1 = .ok ∧
    ∀ k, ValidKey k → serialcfgLookup (serialcfgUpsert .allOk nvs key lc).2 k =
      if k = key then some lc else if evictedKey nvs key = some k then none
      else serialcfgLookup nvs k
  delete : ∀ key, ValidKey key → (serialcfgDelete .allOk nvs key).1 =
      (if serialcfgLookup nvs key = none then .notFound else .ok) ∧
    ∀ k, ValidKey k → serialcfgLookup (serialcfgDelete .allOk nvs key).2 k =
      if k = key then none else serialcfgLookup nvs k
  bounded : ∀ cap, (serialcfgList nvs cap).length ≤ serialcfgMax
  listed : ∀ cap : Int, serialcfgMax ≤ cap → ((serialcfgList nvs cap).map Prod.fst).Nodup ∧
    ∀ key lc, (key, lc) ∈ serialcfgList nvs cap ↔
      ∃ i e, loadSlot (nvs.slot i) = some e ∧ e.key = key ∧ e.lc = lc

section Runs

variable {nvs nvs' : NvsTable} {m : SlotMap serialcfgMax (List UInt8) LineCoding}
  {events : List (SlotMap.Event (List UInt8) LineCoding)}

theorem evictedKey_eq (h : nvs.Represents m) {key : List UInt8} (hkey : ValidKey key) :
    evictedKey nvs key = m.evicted key := by
  have hfull : (∀ i, (loadSlot (nvs.slot i)).isSome = true) ↔ m.slots.freeSlot = none := by
    rw [← h.entries, Slots.freeSlot, List.find?_eq_none]
    refine ⟨fun hall i _ => ?_, fun hall i => ?_⟩
    · simpa [NvsTable.entries] using Option.isSome_iff_ne_none.1 (hall i)
    · have hi := hall i (List.mem_finRange i)
      simpa [NvsTable.entries, Option.isSome_iff_ne_none] using hi
  have hzero : (loadSlot (nvs.slot ⟨0, by decide⟩)).map Entry.key =
      (m.slots 0).map Prod.fst := by
    rw [← h.entries, NvsTable.entries, Option.map_map]
    rfl
  simp only [evictedKey, SlotMap.evicted, lookup_eq h hkey.ne_nil, hfull, hzero]

theorem entries_eq_some {i : Fin serialcfgMax} {key : List UInt8} {lc : LineCoding} :
    nvs.entries i = some (key, lc) ↔
      ∃ e, loadSlot (nvs.slot i) = some e ∧ e.key = key ∧ e.lc = lc := by
  rw [NvsTable.entries, Option.map_eq_some_iff]
  exact exists_congr fun e => and_congr_right fun _ => Prod.mk.injEq _ _ _ _ ▸ Iff.rfl

/-- A namespace that holds a map behaves as a bounded map. -/
theorem boundedMap_of_represents (h : nvs.Represents m)
    (hfind : ∀ key, m.find key = SlotMap.latest key events) : BoundedMap nvs events where
  unique i j e e' hi hj hkey := by
    have hi' := entries_eq_some.2 ⟨e, hi, rfl, rfl⟩
    have hj' := entries_eq_some.2 ⟨e', hj, rfl, rfl⟩
    rw [h.entries] at hi' hj'
    refine m.unique i j e.key ⟨e.lc, hi'⟩ ⟨e'.lc, ?_⟩
    rw [hkey]
    exact hj'
  lookup key out hkey := by
    rw [serialcfgLookupOut, lookup_eq h hkey.ne_nil, hfind]
  upsert key lc hkey := by
    obtain ⟨hok, hrep⟩ := upsert_represents h hkey lc
    refine ⟨hok, fun k hk => ?_⟩
    rw [lookup_eq hrep hk.ne_nil, lookup_eq h hk.ne_nil, SlotMap.find_insert, evictedKey_eq h hkey]
  delete key hkey := by
    obtain ⟨hok, hrep⟩ := delete_represents h hkey
    refine ⟨?_, fun k hk => ?_⟩
    · rw [hok, lookup_eq h hkey.ne_nil]
    · rw [lookup_eq hrep hk.ne_nil, lookup_eq h hk.ne_nil, SlotMap.find_erase]
  bounded cap := by
    -- also for a capacity the caller got wrong
    by_cases hcap : 0 < cap
    · rw [list_eq h hcap]
      exact le_trans (List.length_take_le' _ _) m.toList_length
    · rw [serialcfgList, if_pos (by omega)]
      exact Nat.zero_le _
  listed cap hcap := by
    rw [list_eq_toList h hcap]
    refine ⟨m.toList_nodup, fun key lc => ?_⟩
    rw [SlotMap.mem_toList, SlotMap.find_eq_some, ← h.entries]
    exact exists_congr fun i => entries_eq_some

/-- Every call moves the map and its history on together. -/
theorem represents_step {op : SerialcfgOp} (h : nvs.Represents m)
    (hfind : ∀ key, m.find key = SlotMap.latest key events) (hop : op.Valid)
    (hstep : serialcfgSystem.step nvs op = some nvs') :
    ∃ m' : SlotMap serialcfgMax (List UInt8) LineCoding, nvs'.Represents m' ∧
      ∀ key, m'.find key = SlotMap.latest key (events ++ serialcfgEvents nvs op) := by
  cases op with
  | upsert key lc =>
    cases hstep
    refine ⟨m.apply (.insert key lc), (upsert_represents h hop lc).2, fun k => ?_⟩
    rw [SlotMap.find_apply, SlotMap.latest_append, ← hfind, serialcfgEvents, evictedKey_eq h hop]
    rfl
  | delete key =>
    cases hstep
    refine ⟨m.apply (.erase key), (delete_represents h hop).2, fun k => ?_⟩
    rw [SlotMap.find_apply, SlotMap.latest_append, ← hfind, serialcfgEvents]
    rfl
  | lookup key out =>
    cases hstep
    refine ⟨m, h, fun k => ?_⟩
    rw [serialcfgEvents, List.append_nil, hfind]
  | list cap =>
    cases hstep
    refine ⟨m, h, fun k => ?_⟩
    rw [serialcfgEvents, List.append_nil, hfind]

/-- **The store is a bounded map.** Start from an empty namespace and let the four functions
be called in any order with keys of 1 to 32 characters. Then at most eight entries exist, no
two with one key; a lookup gives what the last event about its key left, and leaves `out`
alone when there is none; an upsert changes its key and at most the evicted one, a delete
its key; and a list with room for eight shows each entry once. -/
theorem serialcfg_bounded_map (opens : Bool)
    (hrun : (serialcfgSystem.record serialcfgEvents).Reaches (fun _ op => op.Valid)
      (emptyTable opens, []) (nvs, events)) : BoundedMap nvs events := by
  have hinv : ∃ m : SlotMap serialcfgMax (List UInt8) LineCoding, nvs.Represents m ∧
      ∀ key, m.find key = SlotMap.latest key events := by
    refine hrun.invariant (I := fun p => ∃ m : SlotMap serialcfgMax (List UInt8) LineCoding,
      p.1.Represents m ∧ ∀ key, m.find key = SlotMap.latest key p.2) ?_ ?_
    · refine ⟨.empty serialcfgMax _ _, ⟨rfl, fun _ _ => rfl⟩, fun key => ?_⟩
      rw [SlotMap.find_eq_none.2]
      · rfl
      · rintro i ⟨v, hv⟩
        cases hv
    · rintro ⟨s, es⟩ op ⟨t, es'⟩ ⟨m, hm, hfind⟩ hop hstep
      obtain ⟨hs, hes⟩ := Machine.record_step hstep
      obtain ⟨m', hm', hfind'⟩ := represents_step hm hfind hop hs
      exact ⟨m', hm', fun key => by rw [hfind', hes]⟩
  obtain ⟨m, hm, hfind⟩ := hinv
  exact boundedMap_of_represents hm hfind

end Runs

/-- Nine keys of one character, one after the other. -/
def nineUpserts : List SerialcfgOp :=
  [1, 2, 3, 4, 5, 6, 7, 8, 9].map fun b => .upsert [b] ⟨115200, 8, 0, 0⟩

instance : DecidablePred SerialcfgOp.Valid
  | .upsert key _ => inferInstanceAs (Decidable (ValidKey key))
  | .delete key => inferInstanceAs (Decidable (ValidKey key))
  | .lookup key _ => inferInstanceAs (Decidable (ValidKey key))
  | .list _ => .isTrue trivial

theorem serialcfg_bounded_map_evict : ∃ nvs events, BoundedMap nvs events ∧
    SlotMap.latest [1] events = none ∧ SlotMap.latest [9] events = some ⟨115200, 8, 0, 0⟩ := by
  obtain ⟨⟨nvs, events⟩, hrun, hgone, hlast⟩ := Machine.exists_reaches_of_runIf
    (serialcfgSystem.record serialcfgEvents) (fun _ op => op.Valid)
    (fun p => SlotMap.latest [1] p.2 = none ∧
      SlotMap.latest [9] p.2 = some ⟨115200, 8, 0, 0⟩) (emptyTable false, []) nineUpserts
    (by decide +kernel)
  exact ⟨nvs, events, serialcfg_bounded_map false hrun, hgone, hlast⟩

end Cdc2Net.Source

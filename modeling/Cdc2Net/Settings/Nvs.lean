import Cdc2Net.Lib.KeyedRecord
import Cdc2Net.Source.SerialCfg
import Mathlib.Algebra.GroupWithZero.Nat

/-!
# The NVS namespace of the settings

The namespace `cdc2net` holds the keys of `config.c` and the two of `net.c`. An entry has a
type, and reading it with another finds nothing. `nvsWrite` is the sequence of calls that
both writers make: open, the `nvs_set_*` calls, commit and close.
-/

set_option autoImplicit false

namespace Cdc2Net.Settings

open Cdc2Net.Lib.KeyedRecord
open Cdc2Net.Source (EspErr)

/-- A C string: bytes without a NUL. -/
abbrev Text := { bytes : List UInt8 // 0 ∉ bytes }

theorem noNul_nil : (0 : UInt8) ∉ ([] : List UInt8) := List.not_mem_nil

/-- The string in a `char` array of `size` bytes. -/
structure CStr (size : Nat) where
  bytes : List UInt8
  noNul : 0 ∉ bytes
  fits : bytes.length < size
  deriving DecidableEq

/-- The string of the array. -/
def CStr.text {size : Nat} (s : CStr size) : Text := ⟨s.bytes, s.noNul⟩

/-- An array that is all zero. -/
def CStr.empty (size : Nat) [h : NeZero size] : CStr size :=
  ⟨[], noNul_nil, Nat.pos_of_ne_zero h.out⟩

/-- `snprintf(dst, sizeof(dst), "%s", src)`. -/
def CStr.print (size : Nat) [h : NeZero size] (src : Text) : CStr size where
  bytes := src.1.take (size - 1)
  noNul hmem := src.2 (List.mem_of_mem_take hmem)
  fits := by
    have hpos := Nat.pos_of_ne_zero h.out
    rw [List.length_take]
    omega

theorem CStr.print_text {size : Nat} [NeZero size] (s : CStr size) : .print size s.text = s := by
  have hfits := s.fits
  cases s
  simp only [CStr.print, CStr.text, CStr.mk.injEq]
  exact List.take_of_length_le (by omega)

/-- The keys of the namespace. -/
inductive NvsKey where
  | tcpPort
  | staticIp
  | ip
  | mask
  | gw
  | dns
  | ethStatic
  | ethIp
  | ethMask
  | ethGw
  | ethDns
  | wdtEn
  | wdtTo
  | wifiSsid
  | wifiPass
  deriving DecidableEq, Repr

/-- An entry with its type. -/
inductive Value where
  | u8 (v : UInt8)
  | u16 (v : UInt16)
  | u32 (v : UInt32)
  | str (s : Text)
  deriving DecidableEq

/-- The namespace. It opens for reading once it has been opened for writing. -/
structure Nvs where
  opens : Bool
  entry : Store NvsKey Value
  closed : opens = false → ∀ k, entry k = none

/-! ## Reading -/

section Read

variable (e : Store NvsKey Value) (k : NvsKey)

/-- `nvs_get_u8`. -/
def nvsGetU8 : Option UInt8 :=
  match e k with
  | some (.u8 v) => some v
  | _ => none

/-- `nvs_get_u16`. -/
def nvsGetU16 : Option UInt16 :=
  match e k with
  | some (.u16 v) => some v
  | _ => none

/-- `nvs_get_u32`. -/
def nvsGetU32 : Option UInt32 :=
  match e k with
  | some (.u32 v) => some v
  | _ => none

/-- `nvs_get_str` into an array of `size` bytes; a longer string is an error. -/
def nvsGetStr (size : Nat) : Option (CStr size) :=
  match e k with
  | some (.str s) => if h : s.1.length < size then some ⟨s.1, s.2, h⟩ else none
  | _ => none

variable {e k}

theorem nvsGetStr_text {size : Nat} {s : CStr size} (h : e k = some (.str s.text)) :
    nvsGetStr e k size = some s := by
  rw [nvsGetStr, h]
  exact dif_pos s.fits

end Read

/-! ## Writing -/

/-- An error of a call. -/
abbrev Failure := { e : EspErr // e ≠ .ok }

/-- How the calls of a writer go; `set n` is the `n`-th `nvs_set_*`. -/
structure NvsCalls where
  openRw : Call Failure
  set : Nat → Call Failure
  commit : Call Failure
  /-- Power is lost before `nvs_close`. -/
  cutAtClose : Bool

/-- How a writer ends. -/
inductive End where
  | returned (e : EspErr)
  | cut
  deriving DecidableEq, Repr

namespace NvsCalls

/-- The end of a writer that comes to `nvs_close`. -/
def close (c : NvsCalls) (e : EspErr) : End := if c.cutAtClose then .cut else .returned e

/-- The entries that are set. -/
def landed (c : NvsCalls) (sets : List (NvsKey × Value)) : List (NvsKey × Value) :=
  match c.openRw with
  | .ok => Lib.KeyedRecord.landed c.set 0 sets
  | _ => []

/-- All calls of a writer with `n` keys succeed. -/
def Succeeds (c : NvsCalls) (n : Nat) : Prop :=
  c.openRw = .ok ∧ (∀ i < n, c.set i = .ok) ∧ c.commit = .ok ∧ c.cutAtClose = false

instance (c : NvsCalls) (n : Nat) : Decidable (c.Succeeds n) :=
  inferInstanceAs (Decidable (_ ∧ _ ∧ _ ∧ _))

end NvsCalls

/-- Open, the calls of `nvs_set_*` as long as they succeed, commit if all have, and close. -/
def nvsWrite (c : NvsCalls) (sets : List (NvsKey × Value)) (nvs : Nvs) : End × Nvs :=
  match c.openRw with
  | .cut => (.cut, nvs)
  | .fail e => (.returned e.1, nvs)
  | .ok =>
    let r := setAll c.set 0 sets nvs.entry
    let nvs' : Nvs := ⟨true, r.2, fun h => by cases h⟩
    match r.1 with
    | .cut => (.cut, nvs')
    | .failed e => (c.close e.1, nvs')
    | .done =>
      match c.commit with
      | .cut => (.cut, nvs')
      | .fail e => (c.close e.1, nvs')
      | .ok => (c.close .ok, nvs')

section Write

variable {c : NvsCalls} {sets : List (NvsKey × Value)} {nvs : Nvs}

/-- What a writer leaves in the namespace. -/
theorem nvsWrite_entry : (nvsWrite c sets nvs).2.entry = put (c.landed sets) nvs.entry := by
  rw [nvsWrite, NvsCalls.landed]
  cases c.openRw with
  | cut => rfl
  | fail e => rfl
  | ok =>
    have hstore : (setAll c.set 0 sets nvs.entry).2 =
        put (Lib.KeyedRecord.landed c.set 0 sets) nvs.entry := setAll_store
    dsimp only
    cases (setAll c.set 0 sets nvs.entry).1 with
    | cut => exact hstore
    | failed e => exact hstore
    | done =>
      cases c.commit with
      | cut => exact hstore
      | fail e => exact hstore
      | ok => exact hstore

theorem NvsCalls.close_eq_ok {e : EspErr} :
    c.close e = .returned .ok ↔ e = .ok ∧ c.cutAtClose = false := by
  rw [NvsCalls.close]
  cases c.cutAtClose <;> simp

/-- It returns `ESP_OK` if and only if every call succeeds. -/
theorem nvsWrite_ok : (nvsWrite c sets nvs).1 = .returned .ok ↔ c.Succeeds sets.length := by
  rw [nvsWrite, NvsCalls.Succeeds]
  cases hopen : c.openRw with
  | cut => simp
  | fail e => simpa using e.2
  | ok =>
    have hdone : (setAll c.set 0 sets nvs.entry).1 = .done ↔ ∀ i < sets.length, c.set i = .ok := by
      simpa using setAll_done.trans (landed_eq_iff (n := 0))
    dsimp only
    cases hset : (setAll c.set 0 sets nvs.entry).1 with
    | cut =>
      rw [hset] at hdone
      simp [← hdone]
    | failed e =>
      rw [hset] at hdone
      simp [← hdone, NvsCalls.close_eq_ok, e.2]
    | done =>
      rw [hset] at hdone
      cases c.commit with
      | cut => simp
      | fail e => simp [NvsCalls.close_eq_ok, e.2]
      | ok => simp [← hdone, NvsCalls.close_eq_ok]

/-- After a success everything has landed. -/
theorem NvsCalls.Succeeds.landed (h : c.Succeeds sets.length) : c.landed sets = sets := by
  obtain ⟨hopen, hset, -, -⟩ := h
  rw [NvsCalls.landed, hopen]
  refine landed_eq_iff.2 fun i hi => ?_
  rw [Nat.zero_add]
  exact hset i hi

theorem NvsCalls.landed_initial : c.landed sets <+: sets := by
  rw [NvsCalls.landed]
  split
  · exact Lib.KeyedRecord.landed_initial
  · exact List.nil_prefix

end Write

end Cdc2Net.Settings

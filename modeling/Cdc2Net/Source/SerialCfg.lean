import Mathlib.Data.List.FinRange

/-!
# Line codings and the per-device NVS table

`LineCoding` is `serialcfg_lc_t`, in CDC form. `NvsTable` is the NVS namespace
`serialcfg` with its eight slots; `serialcfgLookup` is the reader
`serialcfg_lookup` of `serialcfg.c`.
-/

set_option autoImplicit false

namespace Cdc2Net.Source

/-- The results of ESP-IDF and driver calls that the modelled code tells apart. -/
inductive EspErr where
  | ok
  | fail
  | invalidArg
  | invalidState
  | notFound
  | noMem
  | notSupported
  | notAllowed
  deriving DecidableEq, Repr

/-- `serialcfg_lc_t`: bits 5..8, parity 0 N / 1 O / 2 E / 3 M / 4 S, stop 0 = 1 /
1 = 1.5 / 2 = 2. -/
structure LineCoding where
  baud : UInt32
  bits : UInt8
  parity : UInt8
  stop : UInt8
  deriving DecidableEq, Repr

/-- `serialcfg_default`: 115200 8N1. -/
def serialcfgDefault : LineCoding := ⟨115200, 8, 0, 0⟩

/-- `SERIALCFG_MAX`. -/
def serialcfgMax : Nat := 8
/-- `SERIALCFG_KEY_LEN`, 32 characters and the NUL. -/
def serialcfgKeyLen : Nat := 33
/-- `VER` of `serialcfg.c`. -/
def serialcfgVer : UInt8 := 1

/-- The C string in a character array: the bytes before the first NUL. -/
def cString (bytes : List UInt8) : List UInt8 := bytes.takeWhile (· ≠ 0)

/-- The bytes of an ASCII literal. -/
def asciiBytes (s : String) : List UInt8 := s.toList.map fun c => UInt8.ofNat c.toNat

/-- What holds of every byte of a string is decided along the string, not byte value by byte
value. -/
instance decidableForallBytes (s : List UInt8) (p : UInt8 → Prop) [DecidablePred p] :
    Decidable (∀ b ∈ s, p b) :=
  List.decidableBAll p s

/-- `entry_t`, one NVS blob. -/
structure Entry where
  ver : UInt8
  used : UInt8
  lc : LineCoding
  key : List UInt8
  deriving DecidableEq, Repr

/-- The namespace `serialcfg`. `opens` is false when `nvs_open` fails, as it does
before the first write; `slot i` is `none` when `scfg<i>` holds no blob of the
size of `entry_t`. -/
structure NvsTable where
  opens : Bool
  slot : Fin serialcfgMax → Option Entry

/-- `load_slot`: only a current-version, occupied entry counts; the key is cut to
32 characters. -/
def loadSlot (blob : Option Entry) : Option Entry :=
  blob.bind fun e =>
    if e.ver = serialcfgVer ∧ e.used ≠ 0 then
      some { e with key := cString (e.key.take (serialcfgKeyLen - 1)) }
    else none

/-- `serialcfg_lookup`: the coding of the first slot that holds `key`. -/
def serialcfgLookup (nvs : NvsTable) (key : List UInt8) : Option LineCoding :=
  if key = [] then none
  else if nvs.opens = false then none
  else
    (List.finRange serialcfgMax).findSome? fun i =>
      (loadSlot (nvs.slot i)).bind fun e => if e.key = key then some e.lc else none

end Cdc2Net.Source

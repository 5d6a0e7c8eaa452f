import Cdc2Net.Source.SerialStore
import Mathlib.Data.List.Infix
import Mathlib.Data.List.TakeWhile

/-!
# The key of a USB device

Both USB sources derive the key of a device from its serial number, or from VID and PID if
it has none: `derive_key` is the same function in `source_usb.c` and
`source_usb_cherry.c`. What it is given is not. `str_desc_ascii` replaces a UTF-16 unit that
is not printable ASCII by a question mark; `fetch_str` keeps the low byte of every unit.
`same_key_iff` says for which serial numbers the keys are the same, and `same_key_fails` has
one for which they are not.
-/

set_option autoImplicit false

namespace Cdc2Net.Source

/-! ## String descriptors -/

/-- A unit on the wire. -/
def leBytes (u : UInt16) : List UInt8 := [u.toUInt8, (u >>> 8).toUInt8]

/-- A string descriptor: its UTF-16 units, as many as `bLength` can count. -/
structure StrDesc where
  units : List UInt16
  fits : units.length ≤ 126
  deriving DecidableEq

/-- `bLength`. -/
def StrDesc.bLength (sd : StrDesc) : UInt8 := UInt8.ofNat (2 + 2 * sd.units.length)

/-- The descriptor on the wire. -/
def StrDesc.bytes (sd : StrDesc) : List UInt8 :=
  sd.bLength :: 3 :: sd.units.flatMap leBytes

/-- A loop that appends `f c` to a character array of size `cap` until `stop c`. -/
def copyChars {α : Type} (stop : α → Bool) (f : α → UInt8) (cap : Nat) :
    Nat → List α → List UInt8
  | _, [] => []
  | o, c :: cs =>
    if o + 1 < cap ∧ stop c = false then f c :: copyChars stop f cap (o + 1) cs else []

/-! ## `source_usb.c` -/

/-- A printable ASCII character, or a question mark. -/
def asciiChar (c : UInt16) : UInt8 := if 0x20 ≤ c ∧ c < 0x7f then c.toUInt8 else 63

/-- `str_desc_ascii`. -/
def strDescAscii (sd : Option StrDesc) (cap : Nat) : List UInt8 :=
  match sd with
  | none => []
  | some sd =>
    copyChars (fun c => decide (c = 0)) asciiChar cap 0
      (sd.units.take ((sd.bLength.toNat - 2) / 2))

/-- `ok` of `derive_key`: letters, digits, `.`, `_` and `-`. -/
def okChar (c : UInt8) : Bool :=
  65 ≤ c ∧ c ≤ 90 ∨ 97 ≤ c ∧ c ≤ 122 ∨ 48 ≤ c ∧ c ≤ 57 ∨ c = 46 ∨ c = 95 ∨ c = 45

/-- A character of the key; any other becomes an underscore. -/
def keyChar (c : UInt8) : UInt8 := if okChar c then c else 95

/-- `%X` of a digit. -/
def hexDigit (n : Nat) : UInt8 := if n < 10 then UInt8.ofNat (48 + n) else UInt8.ofNat (55 + n)

/-- `%04X`. -/
def hex4 (x : UInt16) : List UInt8 :=
  [x.toNat / 4096, x.toNat / 256 % 16, x.toNat / 16 % 16, x.toNat % 16].map hexDigit

/-- `derive_key`, of both sources. -/
def deriveKey (vid pid : UInt16) (serial : List UInt8) (cap : Nat) : List UInt8 :=
  if serial ≠ [] then copyChars (fun c => decide (c = 0)) keyChar cap 0 serial
  else (hex4 vid ++ 58 :: hex4 pid).take (cap - 1)

/-- The key of a device with the esp-usb stack. -/
def espKey (vid pid : UInt16) (sd : Option StrDesc) : List UInt8 :=
  deriveKey vid pid (strDescAscii sd serialcfgKeyLen) serialcfgKeyLen

/-! ## `source_usb_cherry.c` -/

/-- The loop of `usbh_get_string_desc`: every other byte goes to the output. -/
def copyLow : List UInt8 → Nat → List UInt8 → List UInt8
  | [], _, dst => dst
  | [b], j, dst => dst.set j b
  | b :: _ :: src, j, dst => copyLow src (j + 1) (dst.set j b)

/-- `usbh_get_string_desc` on the answer of the device. -/
def usbhGetStringDesc (src : List UInt8) (dst : List UInt8) (outputLen : Nat) :
    Option (List UInt8) :=
  let len := (src.headD 0).toNat
  if outputLen < (len - 2) / 2 then none else some (copyLow ((src.take len).drop 2) 0 dst)

/-- `fetch_str`; a device without a serial number has index 0. -/
def fetchStr (sd : Option StrDesc) (cap : Nat) : List UInt8 :=
  match sd with
  | none => []
  | some sd =>
    match usbhGetStringDesc sd.bytes (List.replicate 128 0) 127 with
    | none => []
    | some buf => (cString (buf.set 127 0)).take (cap - 1)

/-- The key of a device with the CherryUSB stack. -/
def cherryKey (vid pid : UInt16) (sd : Option StrDesc) : List UInt8 :=
  deriveKey vid pid (fetchStr sd serialcfgKeyLen) serialcfgKeyLen

/-! ## What the loops do -/

section Loops

variable {α : Type} {stop : α → Bool} {f : α → UInt8} {cap : Nat} {sd : StrDesc}

theorem copyChars_eq (cs : List α) (o : Nat) :
    copyChars stop f cap o cs =
      ((cs.takeWhile fun c => !stop c).take (cap - 1 - o)).map f := by
  induction cs generalizing o with
  | nil => simp [copyChars]
  | cons c cs ih =>
    rw [copyChars, ih]
    cases hs : stop c with
    | true => simp [hs]
    | false =>
      by_cases ho : o + 1 < cap
      · obtain ⟨n, hn⟩ : ∃ n, cap - 1 - o = n + 1 := ⟨cap - 2 - o, by omega⟩
        have hn' : cap - 1 - (o + 1) = n := by omega
        simp [hs, ho, hn, hn']
      · have hz : cap - 1 - o = 0 := by omega
        simp [ho, hz]

theorem StrDesc.bLength_toNat : sd.bLength.toNat = 2 + 2 * sd.units.length := by
  have := sd.fits
  simp only [StrDesc.bLength, UInt8.toNat_ofNat']
  omega

/-- The serial number as `str_desc_ascii` sees it. -/
theorem strDescAscii_eq : strDescAscii (some sd) cap =
    ((sd.units.takeWhile fun c => !decide (c = 0)).take (cap - 1)).map asciiChar := by
  have hn : (sd.bLength.toNat - 2) / 2 = sd.units.length := by
    rw [StrDesc.bLength_toNat]
    omega
  rw [strDescAscii, hn, List.take_length, copyChars_eq, Nat.sub_zero]

theorem copyLow_eq (us : List UInt16) (pre : List UInt8) (n : Nat) (hn : us.length ≤ n) :
    copyLow (us.flatMap leBytes) pre.length
        (pre ++ List.replicate n 0) =
      pre ++ us.map UInt16.toUInt8 ++ List.replicate (n - us.length) 0 := by
  induction us generalizing pre n with
  | nil => simp [copyLow]
  | cons u us ih =>
    obtain ⟨m, rfl⟩ : ∃ m, n = m + 1 := ⟨n - 1, by simp at hn; omega⟩
    have hset : (pre ++ List.replicate (m + 1) 0).set pre.length u.toUInt8 =
        pre ++ [u.toUInt8] ++ List.replicate m 0 := by
      simp [List.replicate_succ]
    have hlen : (pre ++ [u.toUInt8]).length = pre.length + 1 := by simp
    have := ih (pre ++ [u.toUInt8]) m (by simpa using hn)
    rw [List.flatMap_cons]
    simp only [leBytes, List.cons_append, List.nil_append, copyLow, hset]
    rw [← hlen, this]
    simp

/-- The rest of a zeroed buffer is no part of its string. -/
theorem cString_append_replicate (bytes : List UInt8) (n : Nat) :
    cString (bytes ++ List.replicate n 0) = cString bytes := by
  induction bytes with
  | nil => cases n <;> simp [cString, List.replicate_succ]
  | cons b bytes ih =>
    simp only [cString, List.cons_append, List.takeWhile_cons] at ih ⊢
    rw [ih]

/-- The serial number as `fetch_str` sees it. -/
theorem fetchStr_eq : fetchStr (some sd) cap =
    (cString (sd.units.map UInt16.toUInt8)).take (cap - 1) := by
  have hfits := sd.fits
  have hlen : (sd.bytes.headD 0).toNat = 2 + 2 * sd.units.length := StrDesc.bLength_toNat
  have hbytes : sd.bytes.length = 2 + 2 * sd.units.length := by
    simp [StrDesc.bytes, leBytes, List.length_flatMap]
    omega
  have hget : usbhGetStringDesc sd.bytes (List.replicate 128 0) 127 =
      some (sd.units.map UInt16.toUInt8 ++ List.replicate (128 - sd.units.length) 0) := by
    have hroom : ¬ 127 < (2 + 2 * sd.units.length - 2) / 2 := by omega
    have hdrop : (sd.bytes.take (2 + 2 * sd.units.length)).drop 2 =
        sd.units.flatMap leBytes := by
      rw [List.take_of_length_le hbytes.le]
      rfl
    have hcopy := copyLow_eq sd.units [] 128 (by omega)
    simp only [List.length_nil, List.nil_append] at hcopy
    rw [usbhGetStringDesc, hlen, if_neg hroom, hdrop, hcopy]
  -- the last byte of the buffer is a NUL already
  have hset : (sd.units.map UInt16.toUInt8 ++ List.replicate (128 - sd.units.length) 0).set 127 0 =
      sd.units.map UInt16.toUInt8 ++ List.replicate (128 - sd.units.length) 0 := by
    obtain ⟨m, hm⟩ : ∃ m, 127 = (sd.units.map UInt16.toUInt8).length + m := by
      refine ⟨127 - sd.units.length, ?_⟩
      simp
      omega
    rw [hm, List.set_append_right _ _ (by omega)]
    simp
  rw [fetchStr, hget]
  simp only [hset]
  rw [cString_append_replicate]

end Loops

/-! ## The keys -/

theorem keyChar_ne_colon (c : UInt8) : keyChar c ≠ 58 := by
  intro h
  by_cases hok : okChar c = true
  · rw [keyChar, if_pos hok] at h
    rw [h] at hok
    exact absurd hok (by decide)
  · rw [keyChar, if_neg hok] at h
    exact absurd h (by decide)

theorem keyChar_ne_zero (c : UInt8) : keyChar c ≠ 0 := by
  intro h
  by_cases hok : okChar c = true
  · rw [keyChar, if_pos hok] at h
    rw [h] at hok
    exact absurd hok (by decide)
  · rw [keyChar, if_neg hok] at h
    exact absurd h (by decide)

section Keys

variable {vid pid : UInt16} {serial : List UInt8}

theorem deriveKey_nil : deriveKey vid pid [] serialcfgKeyLen = hex4 vid ++ 58 :: hex4 pid := by
  rw [deriveKey, if_neg (by simp), List.take_of_length_le]
  simp [hex4, serialcfgKeyLen]

/-- A serial number of at most 32 characters is sanitised as a whole. -/
theorem deriveKey_serial (hne : serial ≠ []) (hz : 0 ∉ serial)
    (hlen : serial.length ≤ serialcfgKeyLen - 1) :
    deriveKey vid pid serial serialcfgKeyLen = serial.map keyChar := by
  have hall : serial.takeWhile (fun c => !decide (c = 0)) = serial :=
    List.takeWhile_eq_self_iff.2 fun c hc => by
      simpa using fun h : c = 0 => hz (h ▸ hc)
  rw [deriveKey, if_pos hne, copyChars_eq, hall, Nat.sub_zero, List.take_of_length_le hlen]

/-- The fallback is not a sanitised serial number. -/
theorem map_keyChar_ne_fallback : serial.map keyChar ≠ hex4 vid ++ 58 :: hex4 pid := by
  intro h
  have hmem : (58 : UInt8) ∈ serial.map keyChar := by
    rw [h]
    simp
  obtain ⟨c, -, hc⟩ := List.mem_map.1 hmem
  exact keyChar_ne_colon c hc

theorem hexDigit_ne_zero {n : Nat} (h : n < 16) : hexDigit n ≠ 0 := by
  intro hz
  have h0 := congrArg UInt8.toNat hz
  rw [hexDigit] at h0
  split at h0 <;> simp only [UInt8.toNat_ofNat', UInt8.toNat_ofNat] at h0 <;> omega

theorem zero_not_mem_hex4 (x : UInt16) : (0 : UInt8) ∉ hex4 x := by
  have hx := x.toNat_lt
  intro h
  obtain ⟨n, hn, hz⟩ := List.mem_map.1 h
  refine hexDigit_ne_zero ?_ hz
  simp only [List.mem_cons, List.not_mem_nil, or_false] at hn
  omega

theorem hexDigit_inj {m n : Nat} (hm : m < 16) (hn : n < 16) (h : hexDigit m = hexDigit n) :
    m = n := by
  have h' := congrArg UInt8.toNat h
  rw [hexDigit, hexDigit] at h'
  split at h' <;> split at h' <;> simp only [UInt8.toNat_ofNat'] at h' <;> omega

theorem hex4_inj {x y : UInt16} (h : hex4 x = hex4 y) : x = y := by
  have hx := x.toNat_lt
  have hy := y.toNat_lt
  simp only [hex4, List.map_cons, List.map_nil, List.cons.injEq, and_true] at h
  obtain ⟨h1, h2, h3, h4⟩ := h
  have e1 := hexDigit_inj (by omega) (by omega) h1
  have e2 := hexDigit_inj (by omega) (by omega) h2
  have e3 := hexDigit_inj (by omega) (by omega) h3
  have e4 := hexDigit_inj (by omega) (by omega) h4
  exact UInt16.toNat_inj.1 (by omega)

/-- A derived key fits the store of the line codings. -/
theorem deriveKey_valid (hz : 0 ∉ serial) (hlen : serial.length ≤ serialcfgKeyLen - 1) :
    ValidKey (deriveKey vid pid serial serialcfgKeyLen) := by
  by_cases hne : serial = []
  · rw [hne, deriveKey_nil]
    refine ⟨by simp [hex4], by simp [hex4, serialcfgKeyLen], ?_⟩
    simp [zero_not_mem_hex4]
  · rw [deriveKey_serial hne hz hlen]
    refine ⟨?_, by simpa using hlen, fun h => ?_⟩
    · rw [List.length_map]
      exact List.length_pos_of_ne_nil hne
    · obtain ⟨c, -, hc⟩ := List.mem_map.1 h
      exact keyChar_ne_zero c hc

/-- A unit and its low byte give the same character of the key. -/
theorem keyChar_low_iff (u : UInt16) : keyChar (asciiChar u) = keyChar u.toUInt8 ↔
    u < 0x100 ∨ keyChar u.toUInt8 = 95 := by
  by_cases hp : 0x20 ≤ u ∧ u < 0x7f
  · have hlt : u < 0x100 := by
      have := UInt16.lt_iff_toNat_lt.1 hp.2
      exact UInt16.lt_iff_toNat_lt.2 (Nat.lt_trans this (by decide))
    exact iff_of_true (by rw [asciiChar, if_pos hp]) (Or.inl hlt)
  · have hq : keyChar (asciiChar u) = 95 := by
      rw [asciiChar, if_neg hp]
      decide
    rw [hq]
    by_cases hlt : u < 0x100
    · -- no letter or digit is below 0x20 or above 0x7e
      refine iff_of_true ?_ (Or.inl hlt)
      have hlow : u.toUInt8.toNat = u.toNat := by
        have := UInt16.lt_iff_toNat_lt.1 hlt
        simpa using this
      have hbad : okChar u.toUInt8 = false := by
        simp only [UInt16.le_iff_toNat_le, UInt16.lt_iff_toNat_lt] at hp
        simp only [okChar, UInt8.le_iff_toNat_le, ← UInt8.toNat_inj, hlow, decide_eq_false_iff_not]
        simp only [UInt16.toNat_ofNat, UInt8.toNat_ofNat, Nat.reducePow, Nat.reduceMod] at hp ⊢
        omega
      rw [keyChar, hbad]
      rfl
    · simp [hlt, eq_comm]

end Keys

/-- The units of the serial number that count: at most 32, and none from the first zero on. -/
def serialUnits : Option StrDesc → List UInt16
  | none => []
  | some sd => (sd.units.takeWhile fun c => !decide (c = 0)).take (serialcfgKeyLen - 1)

/-- A unit that both stacks make the same of. -/
def SameUnit (u : UInt16) : Prop := u < 0x100 ∨ u.toUInt8 ≠ 0 ∧ keyChar u.toUInt8 = 95

section Agreement

variable {vid pid : UInt16} {sd : Option StrDesc}

/-- The units before the first with a zero low byte. -/
def lowUnits : Option StrDesc → List UInt16
  | none => []
  | some sd => (sd.units.takeWhile fun c => !decide (c.toUInt8 = 0)).take (serialcfgKeyLen - 1)

theorem length_serialUnits : (serialUnits sd).length ≤ serialcfgKeyLen - 1 := by
  cases sd with
  | none => simp [serialUnits]
  | some sd =>
    rw [serialUnits, List.length_take]
    exact Nat.min_le_left _ _

theorem strDescAscii_serial :
    strDescAscii sd serialcfgKeyLen = (serialUnits sd).map asciiChar := by
  cases sd with
  | none => rfl
  | some sd => exact strDescAscii_eq

theorem fetchStr_low : fetchStr sd serialcfgKeyLen = (lowUnits sd).map UInt16.toUInt8 := by
  cases sd with
  | none => rfl
  | some sd =>
    rw [fetchStr_eq, cString, List.takeWhile_map, lowUnits, List.map_take]
    congr 3
    funext c
    simp

/-- A unit with a zero low byte ends the one string and not the other, unless it is zero. -/
theorem lowUnits_initial : lowUnits sd <+: serialUnits sd := by
  cases sd with
  | none => exact List.prefix_rfl
  | some sd =>
    refine List.IsPrefix.take ?_ _
    induction sd.units with
    | nil => exact List.prefix_rfl
    | cons c cs ih =>
      by_cases hc : c.toUInt8 = 0
      · simp [hc]
      · have hc' : c ≠ 0 := fun h => hc (by rw [h]; rfl)
        simpa [hc, hc'] using ih

theorem lowUnits_eq_iff : lowUnits sd = serialUnits sd ↔ ∀ u ∈ serialUnits sd, u.toUInt8 ≠ 0 := by
  cases sd with
  | none => simp [lowUnits, serialUnits]
  | some sd =>
    constructor
    · intro h u hu
      rw [← h] at hu
      simpa using List.mem_takeWhile_imp (List.mem_of_mem_take hu)
    · simp only [lowUnits, serialUnits]
      generalize serialcfgKeyLen - 1 = n
      induction sd.units generalizing n with
      | nil => simp
      | cons c cs ih =>
        intro h
        cases n with
        | zero => simp
        | succ n =>
          by_cases hc : c = 0
          · simp [hc]
          · have hlow : c.toUInt8 ≠ 0 := h c (by simp [hc])
            simp only [List.takeWhile_cons, hc, hlow, decide_false, Bool.not_false, if_true,
              List.take_succ_cons, List.cons.injEq, true_and]
            exact ih n fun u hu => h u (by simp [hc, hu])

theorem zero_not_mem_ascii : (0 : UInt8) ∉ (serialUnits sd).map asciiChar := by
  intro h
  obtain ⟨u, -, hu⟩ := List.mem_map.1 h
  by_cases hp : 0x20 ≤ u ∧ u < 0x7f
  · rw [asciiChar, if_pos hp] at hu
    have h1 := UInt16.le_iff_toNat_le.1 hp.1
    have h2 := UInt16.lt_iff_toNat_lt.1 hp.2
    have h3 := congrArg UInt8.toNat hu
    simp only [UInt16.toNat_toUInt8, UInt16.toNat_ofNat, UInt8.toNat_ofNat, Nat.reducePow,
      Nat.reduceMod] at h1 h2 h3
    omega
  · rw [asciiChar, if_neg hp] at hu
    exact absurd hu (by decide)

theorem zero_not_mem_low : (0 : UInt8) ∉ (lowUnits sd).map UInt16.toUInt8 := by
  cases sd with
  | none => simp [lowUnits]
  | some sd =>
    intro h
    obtain ⟨u, hu, hz⟩ := List.mem_map.1 h
    have hne := List.mem_takeWhile_imp (List.mem_of_mem_take hu)
    simp [hz] at hne

theorem espKey_valid : ValidKey (espKey vid pid sd) := by
  rw [espKey, strDescAscii_serial]
  exact deriveKey_valid zero_not_mem_ascii (by simpa using length_serialUnits)

theorem cherryKey_valid : ValidKey (cherryKey vid pid sd) := by
  rw [cherryKey, fetchStr_low]
  exact deriveKey_valid zero_not_mem_low
    (by simpa using lowUnits_initial.length_le.trans length_serialUnits)

theorem espKey_eq : espKey vid pid sd =
    if serialUnits sd = [] then hex4 vid ++ 58 :: hex4 pid
    else (serialUnits sd).map fun u => keyChar (asciiChar u) := by
  rw [espKey, strDescAscii_serial]
  split
  · next h => rw [h, List.map_nil, deriveKey_nil]
  · next h =>
    rw [deriveKey_serial (by simpa using h) zero_not_mem_ascii
      (by simpa using length_serialUnits), List.map_map]
    rfl

theorem cherryKey_eq : cherryKey vid pid sd =
    if lowUnits sd = [] then hex4 vid ++ 58 :: hex4 pid
    else (lowUnits sd).map fun u => keyChar u.toUInt8 := by
  rw [cherryKey, fetchStr_low]
  split
  · next h => rw [h, List.map_nil, deriveKey_nil]
  · next h =>
    rw [deriveKey_serial (by simpa using h) zero_not_mem_low
      (by simpa using (lowUnits_initial.length_le.trans length_serialUnits)), List.map_map]
    rfl

/-- Equal keys come from strings of one length. -/
theorem lowUnits_of_same_key (h : espKey vid pid sd = cherryKey vid pid sd) :
    lowUnits sd = serialUnits sd := by
  rw [espKey_eq, cherryKey_eq] at h
  refine lowUnits_initial.eq_of_length ?_
  have hle : (lowUnits sd).length ≤ (serialUnits sd).length := lowUnits_initial.length_le
  split at h
  · next hs => simpa [hs] using hle
  · split at h
    · -- the fallback is no sanitised serial number
      have hmap : ((serialUnits sd).map asciiChar).map keyChar = hex4 vid ++ 58 :: hex4 pid := by
        rw [List.map_map]
        exact h
      exact absurd hmap map_keyChar_ne_fallback
    · simpa using (congrArg List.length h).symm

/-- The two stacks give a device the same key if and only if each unit of the serial number
that counts is below 0x100, or has a low byte that is sanitised away and not zero. -/
theorem same_key_iff (vid pid : UInt16) (sd : Option StrDesc) :
    espKey vid pid sd = cherryKey vid pid sd ↔ ∀ u ∈ serialUnits sd, SameUnit u := by
  constructor
  · intro h u hu
    have hlow := lowUnits_of_same_key h
    have hne := lowUnits_eq_iff.1 hlow u hu
    have hempty : serialUnits sd ≠ [] := List.ne_nil_of_mem hu
    rw [espKey_eq, cherryKey_eq, hlow, if_neg hempty, if_neg hempty] at h
    rcases (keyChar_low_iff u).1 (List.map_inj_left.1 h u hu) with hlt | hbad
    · exact Or.inl hlt
    · exact Or.inr ⟨hne, hbad⟩
  · intro h
    have hne : ∀ u ∈ serialUnits sd, u.toUInt8 ≠ 0 := by
      intro u hu
      rcases h u hu with hlt | hbad
      · -- below 0x100 the low byte is the unit, which is not zero
        intro hz
        have h1 := UInt16.lt_iff_toNat_lt.1 hlt
        have h2 := congrArg UInt8.toNat hz
        simp only [UInt16.toNat_toUInt8, UInt16.toNat_ofNat, UInt8.toNat_ofNat, Nat.reducePow,
          Nat.reduceMod] at h1 h2
        have hu0 : u = 0 := UInt16.toNat_inj.1 (by simp; omega)
        cases sd with
        | none => cases hu
        | some sd =>
          have hnz := List.mem_takeWhile_imp (List.mem_of_mem_take hu)
          simp [hu0] at hnz
      · exact hbad.1
    rw [espKey_eq, cherryKey_eq, lowUnits_eq_iff.2 hne]
    split
    · rfl
    · refine List.map_congr_left fun u hu => (keyChar_low_iff u).2 ?_
      exact (h u hu).imp_right And.right

/-- A serial number with U+0130, whose low byte is the digit 0. -/
theorem same_key_fails : ∃ sd : StrDesc, espKey 0x0403 0x6001 (some sd) ≠
    cherryKey 0x0403 0x6001 (some sd) := ⟨⟨[0x130], by decide⟩, by decide⟩

end Agreement

end Cdc2Net.Source

import Cdc2Net.Lib.Json
import Cdc2Net.Source.SerialCfg

/-!
# Escaped strings

The escapes of `json_escape` of `webui.c` and of the loop in `log_buffer_get_since`: a quote
and a backslash get a backslash, a control byte becomes `\u00XX`. What they print stands in a
JSON string for what was printed (`readsString_jsonEscape`).
-/

set_option autoImplicit false

namespace Cdc2Net.Web

open Cdc2Net.Lib.Json

/-- A digit of `%x`. -/
def hexDigit (d : Nat) : UInt8 := if d < 10 then .ofNat (48 + d) else .ofNat (87 + d)

/-- What is printed for a byte. -/
def escapeChar (c : UInt8) : Bytes :=
  if c = quote ∨ c = backslash then [backslash, c]
  else if c < 32 then
    [backslash, 117, 48, 48, hexDigit (c.toNat / 16), hexDigit (c.toNat % 16)]
  else [c]

/-- The loop of `json_escape`, with `i` bytes in an array of `cap`. -/
def escapeLoop (cap : Nat) : Nat → Bytes → Bytes
  | _, [] => []
  | i, c :: src =>
    if i + 7 < cap then escapeChar c ++ escapeLoop cap (i + (escapeChar c).length) src else []

/-- `json_escape` into an array of `cap` bytes. -/
def jsonEscape (cap : Nat) (src : Bytes) : Bytes := escapeLoop cap 0 src

section Escape

variable {c : UInt8} {src : Bytes} {cap i : Nat}

theorem hexVal_hexDigit {d : Nat} (h : d < 16) : hexVal (hexDigit d) = some d := by
  have hall : ∀ d < 16, hexVal (hexDigit d) = some d := by decide
  exact hall d h

theorem readsString_escapeChar (c : UInt8) : ReadsString (escapeChar c) [c] := by
  rw [escapeChar]
  split
  · next hesc =>
    exact .escape (by rw [escapeByte, if_pos (hesc.imp_right Or.inl)])
  · next hplain =>
    split
    · next hctl =>
      have hlt : c.toNat < 32 := UInt8.lt_iff_toNat_lt.1 hctl
      have hutf : utf8 c.toNat = [c] := by
        rw [utf8, if_pos (by omega), UInt8.ofNat_toNat]
      rw [← hutf]
      have hzero : hexVal 48 = some 0 := rfl
      exact .unit hzero hzero (hexVal_hexDigit (by omega)) (hexVal_hexDigit (by omega))
        (by omega) (by omega)
    · next hctl => exact .plain ((isPlain_iff (UInt8.not_lt.1 hctl)).2 hplain)

/-- What has been printed when the array is full stands for what was printed. -/
theorem readsString_escapeLoop (cap i : Nat) (src : Bytes) :
    ∃ p, p <+: src ∧ ReadsString (escapeLoop cap i src) p := by
  induction src generalizing i with
  | nil => exact ⟨[], List.nil_prefix, .nil⟩
  | cons c src ih =>
    rw [escapeLoop]
    split
    · obtain ⟨p, hp, hreads⟩ := ih (i + (escapeChar c).length)
      exact ⟨c :: p, List.cons_prefix_cons.2 ⟨rfl, hp⟩, (readsString_escapeChar c).append hreads⟩
    · exact ⟨[], List.nil_prefix, .nil⟩

theorem readsString_jsonEscape (cap : Nat) (src : Bytes) :
    ∃ p, p <+: src ∧ ReadsString (jsonEscape cap src) p :=
  readsString_escapeLoop cap 0 src

end Escape

end Cdc2Net.Web

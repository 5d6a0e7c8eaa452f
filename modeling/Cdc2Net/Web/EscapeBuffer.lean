import Cdc2Net.Lib.FixedBuffer
import Cdc2Net.Settings.Nvs
import Cdc2Net.Web.JsonEscape

/-!
# `json_escape` in its array

`json_escape` of `webui.c` write by write. The loop goes on while seven bytes and more are
free, which is what `snprintf` takes for the longest escape and its NUL; so no write leaves the
array, and no escape is cut (`json_escape_prefix`). What is printed is what `jsonEscape` says.
-/

set_option autoImplicit false

namespace Cdc2Net.Web

open Cdc2Net.Lib.FixedBuffer
open Cdc2Net.Lib.Json
open Cdc2Net.Settings (Text)
open Cdc2Net.Source (cString)

/-! ## The writes -/

/-- `snprintf(dst + i, cap - i, …)` with the text it has to print: as much of it as fits
before a NUL. The result is the length of the text. -/
def snprintfAt {cap : Nat} (b : Buf UInt8 cap) (i : Nat) (text : Bytes) :
    Checked (Buf UInt8 cap × Nat) := do
  if cap - i = 0 then pure (b, text.length)
  else
    let b ← b.writeAll i (text.take (cap - i - 1) ++ [0])
    pure (b, text.length)

/-- The body of the loop, with `i` bytes written: the array and the next `i`. -/
def putChar {cap : Nat} (b : Buf UInt8 cap) (i : Nat) (c : UInt8) :
    Checked (Buf UInt8 cap × Nat) := do
  if c = quote ∨ c = backslash then
    let b ← b.writeAll i [backslash, c]
    pure (b, i + 2)
  else if c < 32 then
    -- `\u%04x`
    let (b, w) ← snprintfAt b i
      [backslash, 117, 48, 48, hexDigit (c.toNat / 16), hexDigit (c.toNat % 16)]
    pure (b, i + w)
  else
    let b ← b.write i c
    pure (b, i + 1)

/-- The loop of `json_escape`. -/
def putLoop {cap : Nat} : Buf UInt8 cap → Nat → Bytes → Checked (Buf UInt8 cap × Nat)
  | b, i, [] => pure (b, i)
  | b, i, c :: src =>
    if i + 7 < cap then do
      let (b, i) ← putChar b i c
      putLoop b i src
    else pure (b, i)

/-- `json_escape` into `dst`, an array of `cap` bytes. -/
def jsonEscapeInto {cap : Nat} (dst : Buf UInt8 cap) (src : Text) : Checked (Buf UInt8 cap) :=
  if cap = 0 then pure dst
  else do
    let (dst, i) ← putLoop dst 0 src.1
    dst.write i 0

/-! ## What is written -/

section Writes

variable {cap i : Nat} {c : UInt8}

/-- An escape has one, two or six bytes. -/
theorem escapeChar_length_le (c : UInt8) : (escapeChar c).length ≤ 6 := by
  rw [escapeChar]
  split
  · exact Nat.le_of_ble_eq_true rfl
  · split
    · exact Nat.le_refl 6
    · exact Nat.le_of_ble_eq_true rfl

theorem zero_notMem_escapeChar (hc : c ≠ 0) : 0 ∉ escapeChar c := by
  rw [escapeChar]
  split
  · next hesc => simp [Ne.symm hc, backslash]
  · split
    · next hctl =>
      have hdigit : ∀ d < 16, hexDigit d ≠ 0 := by decide
      have hlt : c.toNat < 32 := UInt8.lt_iff_toNat_lt.1 hctl
      have hhi := hdigit (c.toNat / 16) (by omega)
      have hlo := hdigit (c.toNat % 16) (by omega)
      simp [backslash, Ne.symm hhi, Ne.symm hlo]
    · simp [Ne.symm hc]

/-- One character is printed behind what is there. -/
theorem putChar_eq (b : Buf UInt8 cap) (h : i + 7 < cap) (c : UInt8) :
    ∃ b', putChar b i c = .ok (b', i + (escapeChar c).length) ∧
      b'.elems.take (i + (escapeChar c).length) = b.elems.take i ++ escapeChar c := by
  rw [putChar, escapeChar]
  by_cases hesc : c = quote ∨ c = backslash
  · have hfit : i + [backslash, c].length ≤ cap := by simp; omega
    refine ⟨b.splice i [backslash, c] hfit, ?_, ?_⟩
    · rw [if_pos hesc, if_pos hesc, b.writeAll_eq _ i hfit]
      rfl
    · rw [if_pos hesc, b.take_splice hfit (Nat.le_refl _), List.take_length]
  · by_cases hctl : c < 32
    · rw [if_neg hesc, if_neg hesc, if_pos hctl, if_pos hctl]
      generalize htext : [backslash, 117, 48, 48, hexDigit (c.toNat / 16),
        hexDigit (c.toNat % 16)] = text
      have hlen : text.length = 6 := by rw [← htext]; rfl
      have hfit : i + (text ++ [0]).length ≤ cap := by
        rw [List.length_append, hlen, List.length_singleton]
        omega
      refine ⟨b.splice i (text ++ [0]) hfit, ?_, ?_⟩
      · -- the text and its NUL fit
        rw [snprintfAt, if_neg (by omega), List.take_of_length_le (by omega),
          b.writeAll_eq _ i hfit]
        rfl
      · rw [b.take_splice hfit (by rw [List.length_append]; omega), List.take_left' rfl]
    · have hfit : i + [c].length ≤ cap := by simp; omega
      refine ⟨b.splice i [c] hfit, ?_, ?_⟩
      · rw [if_neg hesc, if_neg hesc, if_neg hctl, if_neg hctl, b.write_eq c hfit]
        rfl
      · rw [if_neg hesc, if_neg hctl, b.take_splice hfit (Nat.le_refl _), List.take_length]

/-- What is printed is `jsonEscape`, and one byte stays free behind it. -/
theorem putLoop_eq (src : Bytes) : ∀ (b : Buf UInt8 cap) (i : Nat), i < cap →
    ∃ b' i', putLoop b i src = .ok (b', i') ∧ i' < cap ∧
      b'.elems.take i' = b.elems.take i ++ escapeLoop cap i src := by
  induction src with
  | nil => exact fun b i hi => ⟨b, i, rfl, hi, (List.append_nil _).symm⟩
  | cons c src ih =>
    intro b i hi
    by_cases hroom : i + 7 < cap
    · obtain ⟨b₁, hput, htake⟩ := putChar_eq b hroom c
      have hlen := escapeChar_length_le c
      obtain ⟨b₂, i', hloop, hi', htake'⟩ := ih b₁ (i + (escapeChar c).length) (by omega)
      refine ⟨b₂, i', ?_, hi', ?_⟩
      · rw [putLoop, if_pos hroom, hput, ok_bind]
        exact hloop
      · rw [htake', htake, escapeLoop, if_pos hroom, List.append_assoc]
    · refine ⟨b, i, ?_, hi, ?_⟩
      · rw [putLoop, if_neg hroom]
        rfl
      · rw [escapeLoop, if_neg hroom, List.append_nil]

/-- What is printed is the escapes of the first characters. -/
theorem escapeLoop_eq_flatMap (cap i : Nat) (src : Bytes) :
    ∃ p, p <+: src ∧ escapeLoop cap i src = p.flatMap escapeChar := by
  induction src generalizing i with
  | nil => exact ⟨[], List.nil_prefix, rfl⟩
  | cons c src ih =>
    rw [escapeLoop]
    split
    · obtain ⟨p, hp, heq⟩ := ih (i + (escapeChar c).length)
      exact ⟨c :: p, List.cons_prefix_cons.2 ⟨rfl, hp⟩, by rw [heq, List.flatMap_cons]⟩
    · exact ⟨[], List.nil_prefix, rfl⟩

/-- Where no escape is longer than `w`, room for all of them is enough for all. -/
theorem escapeLoop_whole {w : Nat} (src : Bytes) :
    ∀ i, (∀ c ∈ src, (escapeChar c).length ≤ w) → i + w * src.length + 7 < cap + w →
      escapeLoop cap i src = src.flatMap escapeChar := by
  induction src with
  | nil => exact fun _ _ _ => rfl
  | cons c src ih =>
    intro i hlen hcap
    rw [List.length_cons, Nat.mul_succ] at hcap
    have hc := hlen c List.mem_cons_self
    rw [escapeLoop, if_pos (by omega), List.flatMap_cons,
      ih _ (fun c' hc' => hlen c' (List.mem_cons_of_mem c hc')) (by omega)]

theorem readsString_flatMap (p : Bytes) : ReadsString (p.flatMap escapeChar) p := by
  induction p with
  | nil => exact .nil
  | cons c p ih => exact (readsString_escapeChar c).append ih

end Writes

/-- `dst` holds a NUL-terminated text of whole escapes that stands for a prefix of `src`, all
of it if the array has room for six bytes a character and two more. -/
structure EscapesPrefix {cap : Nat} (dst : Buf UInt8 cap) (src : Text) : Prop where
  terminated : 0 ∈ dst.elems
  escapes : ∃ p, p <+: src.1 ∧ cString dst.elems = p.flatMap escapeChar ∧
    parse (quote :: cString dst.elems ++ [quote]) = some (.str p) ∧
    (6 * src.1.length + 2 ≤ cap → p = src.1)

/-- `json_escape` writes inside its array only, and leaves such a text. -/
theorem json_escape_prefix {cap : Nat} (hcap : 1 ≤ cap) (dst : Buf UInt8 cap) (src : Text) :
    ∃ dst', jsonEscapeInto dst src = .ok dst' ∧ EscapesPrefix dst' src ∧
      cString dst'.elems = jsonEscape cap src.1 := by
  obtain ⟨b, i, hloop, hi, htake⟩ := putLoop_eq src.1 dst 0 hcap
  rw [List.take_zero, List.nil_append] at htake
  have hfit : i + [(0 : UInt8)].length ≤ cap := hi
  obtain ⟨p, hp, hflat⟩ := escapeLoop_eq_flatMap cap 0 src.1
  have hzero : ∀ c ∈ escapeLoop cap 0 src.1, decide (c ≠ 0) = true := by
    rw [hflat]
    intro c hc
    obtain ⟨d, hd, hcd⟩ := List.mem_flatMap.1 hc
    have hne : d ≠ 0 := by
      rintro rfl
      exact src.2 (hp.subset hd)
    refine decide_eq_true ?_
    rintro rfl
    exact zero_notMem_escapeChar hne hcd
  have hstr : cString (b.splice i [0] hfit).elems = jsonEscape cap src.1 := by
    rw [Buf.splice_elems, htake, List.append_assoc, cString, List.takeWhile_append_of_pos hzero]
    exact List.append_nil _
  refine ⟨b.splice i [0] hfit, ?_, ⟨?_, p, hp, hstr.trans hflat, ?_, ?_⟩, hstr⟩
  · rw [jsonEscapeInto, if_neg (by omega), hloop, ok_bind]
    exact b.write_eq 0 hfit
  · rw [Buf.splice_elems]
    simp
  · rw [hstr, jsonEscape, hflat]
    exact (Reads.string (readsString_flatMap p)).parse
  · intro hroom
    have hwhole : escapeLoop cap 0 src.1 = src.1.flatMap escapeChar :=
      escapeLoop_whole (w := 6) src.1 0 (fun c _ => escapeChar_length_le c) (by omega)
    -- equal texts stand for the same string
    have hp' := (Reads.string (readsString_flatMap p)).parse
    rw [← hflat, hwhole, (Reads.string (readsString_flatMap src.1)).parse] at hp'
    exact (Value.str.inj (Option.some.inj hp')).symm

/-- A quote, a control byte and a letter in an array of twenty bytes. -/
theorem json_escape_prefix_twenty : ∃ dst' : Buf UInt8 20,
    jsonEscapeInto ⟨List.replicate 20 0xff, rfl⟩ ⟨[34, 1, 97], by decide⟩ = .ok dst' ∧
      EscapesPrefix dst' ⟨[34, 1, 97], by decide⟩ ∧
      cString dst'.elems = jsonEscape 20 [34, 1, 97] :=
  json_escape_prefix (by decide) _ _

end Cdc2Net.Web

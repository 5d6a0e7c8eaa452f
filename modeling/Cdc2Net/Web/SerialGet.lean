import Cdc2Net.Source.SerialSource
import Cdc2Net.Source.SerialStore
import Cdc2Net.Web.EscapeBuffer
import Cdc2Net.Web.Status

/-!
# `GET /api/serial`

`h_serial_get` of `webui.c`: the attached device, its line coding, and the entries of the table
in an array of 1024 bytes. The loop over the entries stops where fewer than 96 bytes are
free, and the end of the text is only printed where more than three are; neither is an error.
With keys that have no control bytes, the answer lists every entry exactly if each begins before
the loop stops and all of them leave room for the end (`listed_iff`).
-/

set_option autoImplicit false

namespace Cdc2Net.Web

open Cdc2Net.Lib.Json
open Cdc2Net.Source

/-! ## The handler -/

/-- `source_serial_info_t`. -/
structure SerialView where
  info : SerialInfo
  isVcp : Bool
  vid : UInt16
  pid : UInt16
  serial : Bytes

/-- `lcsrc_str`. -/
def lcsrcStr (s : UInt8) : Bytes :=
  if s = 1 then asciiBytes "nvs" else if s = 2 then asciiBytes "rfc2217" else asciiBytes "default"

/-- The attached device. -/
def attachedText (v : SerialView) : Bytes :=
  printFields [("connected", printBool v.info.connected), ("is_vcp", printBool v.isVcp),
    ("vid", printStr (printHex4 v.vid)), ("pid", printStr (printHex4 v.pid)),
    ("serial", printStr (jsonEscape 80 v.serial)), ("key", printStr (jsonEscape 80 v.info.key))]

/-- The coding in effect. -/
def effectiveText (v : SerialView) : Bytes :=
  printFields [("baud", decimal v.info.lc.baud.toNat), ("bits", decimal v.info.lc.bits.toNat),
    ("parity", decimal v.info.lc.parity.toNat), ("stop", decimal v.info.lc.stop.toNat),
    ("source", printStr (lcsrcStr v.info.lcSource))]

/-- The text up to the first entry. -/
def serialHead (v : SerialView) : Bytes :=
  123 :: (asciiBytes "\"attached\":" ++ attachedText v ++
    (asciiBytes ",\"effective\":" ++ effectiveText v ++ asciiBytes ",\"stored\":["))

/-- An entry of the table. -/
def entryText (e : Bytes × LineCoding) : Bytes :=
  printFields [("key", printStr (jsonEscape 80 e.1)), ("baud", decimal e.2.baud.toNat),
    ("bits", decimal e.2.bits.toNat), ("parity", decimal e.2.parity.toNat),
    ("stop", decimal e.2.stop.toNat)]

/-- The loop over the entries, from the `i`-th on, with `n` bytes in the array. -/
def storedLoop : Nat → Nat → List (Bytes × LineCoding) → Bytes
  | _, _, [] => []
  | i, n, e :: es =>
    if n < 1024 - 96 then
      let piece := (if i = 0 then [] else [comma]) ++ entryText e
      piece ++ storedLoop (i + 1) (n + piece.length) es
    else []

/-- What is printed in all, as far as it fits. -/
def serialText (v : SerialView) (items : List (Bytes × LineCoding)) : Bytes :=
  let text := serialHead v ++ storedLoop 0 (serialHead v).length items
  if text.length < 1024 - 3 then text ++ [93, 125] else text

/-- `h_serial_get`: the text, or `none` for the error 500 of a text that does not fit. -/
def hSerialGet (v : SerialView) (nvs : NvsTable) : Option Bytes :=
  let text := serialText v (serialcfgList nvs serialcfgMax)
  if 1024 ≤ text.length then none else some text

/-! ## The entries that are printed -/

/-- Entries with commas between them. -/
def joined (es : List (Bytes × LineCoding)) : Bytes := [comma].intercalate (es.map entryText)

/-- Every entry begins before the loop stops, with `n` bytes before the first. -/
def Begun (n : Nat) (es : List (Bytes × LineCoding)) : Prop :=
  ∀ before e, es = before ++ [e] → n + (joined before).length < 1024 - 96

section Loop

variable {es es' : List (Bytes × LineCoding)} {e : Bytes × LineCoding} {n : Nat}

theorem joined_concat (es : List (Bytes × LineCoding)) (e : Bytes × LineCoding) :
    joined (es ++ [e]) =
      joined es ++ ((if es.length = 0 then [] else [comma]) ++ entryText e) := by
  induction es with
  | nil => simp [joined]
  | cons a es ih =>
    cases es with
    | nil => simp [joined]
    | cons b es =>
      have hstep : ∀ l, joined (a :: b :: l) = entryText a ++ ([comma] ++ joined (b :: l)) := by
        intro l
        rw [joined, joined, List.map_cons, List.map_cons, List.intercalate_cons_cons]
        simp
      rw [List.cons_append, List.cons_append, hstep, ← List.cons_append, ih, hstep]
      simp

theorem joined_length_mono (h : es <+: es') : (joined es).length ≤ (joined es').length := by
  obtain ⟨more, rfl⟩ := h
  induction more using List.reverseRecOn with
  | nil => rw [List.append_nil]
  | append_singleton more e ih =>
    rw [← List.append_assoc, joined_concat, List.length_append]
    omega

/-- The loop prints the first entries; it stops where too little is free. -/
theorem storedLoop_prints (items : List (Bytes × LineCoding)) :
    ∀ done : List (Bytes × LineCoding), Begun n done →
      ∃ shown left, items = shown ++ left ∧ Begun n (done ++ shown) ∧
        joined done ++ storedLoop done.length (n + (joined done).length) items =
          joined (done ++ shown) ∧
        (left ≠ [] → 1024 - 96 ≤ n + (joined (done ++ shown)).length) := by
  induction items with
  | nil =>
    intro done hdone
    refine ⟨[], [], rfl, ?_, ?_, fun h => absurd rfl h⟩
    · rwa [List.append_nil]
    · rw [storedLoop, List.append_nil, List.append_nil]
  | cons e items ih =>
    intro done hdone
    by_cases hfree : n + (joined done).length < 1024 - 96
    · have hbegun : Begun n (done ++ [e]) := by
        intro before e' heq
        obtain ⟨rfl, -⟩ := List.append_inj' heq rfl
        exact hfree
      obtain ⟨shown, left, rfl, hshown, hprint, hleft⟩ := ih (done ++ [e]) hbegun
      rw [List.append_assoc, List.singleton_append] at hshown hprint hleft
      refine ⟨e :: shown, left, rfl, hshown, ?_, hleft⟩
      rw [← hprint, storedLoop, if_pos hfree, joined_concat, List.length_append,
        List.length_append, List.length_singleton]
      simp only [List.append_assoc, Nat.add_assoc]
    · refine ⟨[], e :: items, rfl, ?_, ?_, fun _ => ?_⟩
      · rwa [List.append_nil]
      · rw [storedLoop, if_neg hfree, List.append_nil, List.append_nil]
      · rw [List.append_nil]
        exact Nat.not_lt.1 hfree

end Loop

/-! ## What the answer reads as -/

/-- No key has a control byte, and every key has at most 32 bytes. -/
def PlainKeys (es : List (Bytes × LineCoding)) : Prop :=
  ∀ e ∈ es, e.1.length < serialcfgKeyLen ∧ ∀ b ∈ e.1, 32 ≤ b

/-- The answer is a JSON text whose `stored` has an object for each of the keys, and no
other. -/
def Lists (out : Option Bytes) (keys : List Bytes) : Prop :=
  ∃ text w vs, out = some text ∧ parse text = some w ∧
    w.members (asciiBytes "stored") = [.arr vs] ∧
    (vs.map fun x => x.members (asciiBytes "key")).Perm (keys.map fun k => [.str k])

/-- The bytes of a decimal number. -/
def digits (n : Nat) : Nat := (decimal n).length

/-- The bytes that a key without control bytes takes in the answer. -/
def keySize (k : Bytes) : Nat := k.length + k.countP fun b => b = quote || b = backslash

/-- The bytes that an entry takes. -/
def entrySize (e : Bytes × LineCoding) : Nat :=
  44 + keySize e.1 + digits e.2.baud.toNat + digits e.2.bits.toNat + digits e.2.parity.toNat +
    digits e.2.stop.toNat

/-- The bytes that entries take, with the commas between them. -/
def listSize (es : List (Bytes × LineCoding)) : Nat := (es.map entrySize).sum + (es.length - 1)

/-- The bytes in front of the entries. -/
def headSize (v : SerialView) : Nat :=
  154 + (printBool v.info.connected).length + (printBool v.isVcp).length +
    (jsonEscape 80 v.serial).length + (jsonEscape 80 v.info.key).length +
    digits v.info.lc.baud.toNat + digits v.info.lc.bits.toNat + digits v.info.lc.parity.toNat +
    digits v.info.lc.stop.toNat + (lcsrcStr v.info.lcSource).length

/-- Every entry begins where the loop goes on, and they leave room for the end. -/
def Fits (v : SerialView) (es : List (Bytes × LineCoding)) : Prop :=
  (∀ before e, es = before ++ [e] → headSize v + listSize before < 1024 - 96) ∧
    headSize v + listSize es < 1024 - 3

/-- What an entry reads as. -/
def entryFields (e : Bytes × LineCoding) : List (String × Lib.Json.Value) :=
  [("key", .str e.1), ("baud", .num (decimal e.2.baud.toNat)),
    ("bits", .num (decimal e.2.bits.toNat)), ("parity", .num (decimal e.2.parity.toNat)),
    ("stop", .num (decimal e.2.stop.toNat))]

def entryValue (e : Bytes × LineCoding) : Lib.Json.Value :=
  .obj ((entryFields e).map fun m => (asciiBytes m.1, m.2))

section Reading

variable {es : List (Bytes × LineCoding)} {e : Bytes × LineCoding} {k : Bytes} {v : SerialView}

theorem escapeChar_length_plain {c : UInt8} (h : 32 ≤ c) : (escapeChar c).length ≤ 2 := by
  rw [escapeChar]
  split
  · exact Nat.le_refl 2
  · rw [if_neg (UInt8.not_lt.2 h)]
    exact Nat.le_of_ble_eq_true rfl

/-- A key without control bytes is printed whole. -/
theorem jsonEscape_key (hlen : k.length < serialcfgKeyLen) (h : ∀ b ∈ k, 32 ≤ b) :
    jsonEscape 80 k = k.flatMap escapeChar := by
  have hmax : serialcfgKeyLen = 33 := rfl
  exact escapeLoop_whole k 0 (fun c hc => escapeChar_length_plain (h c hc)) (by omega)

theorem length_flatMap_escapeChar (h : ∀ b ∈ k, 32 ≤ b) :
    (k.flatMap escapeChar).length = keySize k := by
  induction k with
  | nil => rfl
  | cons c k ih =>
    have htail := ih fun b hb => h b (List.mem_cons_of_mem c hb)
    have hctl : ¬ c < 32 := UInt8.not_lt.2 (h c List.mem_cons_self)
    rw [List.flatMap_cons, List.length_append, htail, keySize, keySize, List.length_cons,
      List.countP_cons, escapeChar]
    by_cases hesc : c = quote ∨ c = backslash
    · rw [if_pos hesc, if_pos (by simpa using hesc)]
      simp only [List.length_cons, List.length_nil]
      omega
    · rw [if_neg hesc, if_neg hctl, if_neg (by simpa using hesc)]
      simp only [List.length_cons, List.length_nil]
      omega

theorem length_asciiBytes (t : String) : (asciiBytes t).length = t.toList.length := by
  rw [asciiBytes, List.length_map]

/-- The size of an object; four bytes of each member are not its name or its value. -/
theorem length_printFields {ms : List (String × Bytes)} (hne : ms ≠ []) :
    (printFields ms).length =
      1 + (ms.map fun m => m.1.toList.length + m.2.length + 4).sum := by
  have hjoin : ∀ ms : List (String × Bytes), ms ≠ [] →
      ([comma].intercalate ((ms.map fun m => (asciiBytes m.1, m.2)).map fun m =>
        quote :: m.1 ++ [quote, colon] ++ m.2)).length + 1 =
      (ms.map fun m => m.1.toList.length + m.2.length + 4).sum := by
    intro ms
    induction ms with
    | nil => exact fun h => absurd rfl h
    | cons m ms ih =>
      intro _
      cases ms with
      | nil =>
        simp [length_asciiBytes]
        omega
      | cons m' ms =>
        have htail := ih (List.cons_ne_nil m' ms)
        rw [List.map_cons (l := m' :: ms) (f := fun m => m.1.toList.length + m.2.length + 4),
          List.sum_cons, ← htail]
        simp [length_asciiBytes]
        omega
  rw [← hjoin ms hne, printFields, printObject, List.length_append, List.length_cons,
    List.length_singleton, Nat.add_comm 1]

theorem length_entryText (hlen : e.1.length < serialcfgKeyLen) (h : ∀ b ∈ e.1, 32 ≤ b) :
    (entryText e).length = entrySize e := by
  rw [entryText, length_printFields (List.cons_ne_nil _ _)]
  simp [entrySize, digits, printStr, jsonEscape_key hlen h, length_flatMap_escapeChar h]
  omega

theorem length_serialHead (v : SerialView) : (serialHead v).length = headSize v := by
  rw [serialHead, attachedText, effectiveText]
  simp [length_asciiBytes, length_printFields, printStr, printHex4, headSize, digits]
  omega

theorem reads_entryText (hlen : e.1.length < serialcfgKeyLen) (h : ∀ b ∈ e.1, 32 ≤ b) :
    Reads (entryText e) (entryValue e) := by
  refine reads_printFields ?_ ?_
  · simp only [entryFields, List.map_cons, List.map_nil]
    decide
  · have hkey : Reads (printStr (jsonEscape 80 e.1)) (.str e.1) := by
      rw [jsonEscape_key hlen h]
      exact .string (readsString_flatMap e.1)
    exact .cons ⟨rfl, hkey⟩ (.cons ⟨rfl, reads_decimal _⟩ (.cons ⟨rfl, reads_decimal _⟩
      (.cons ⟨rfl, reads_decimal _⟩ (.cons ⟨rfl, reads_decimal _⟩ .nil))))

theorem entryValue_key (e : Bytes × LineCoding) :
    (entryValue e).members (asciiBytes "key") = [.str e.1] := by
  refine members_of_mem ?_ (List.mem_map.2 ⟨("key", .str e.1), List.mem_cons_self, rfl⟩)
  simp only [entryFields, List.map_cons, List.map_nil]
  decide

/-- The entries and what they read as. -/
theorem exists_elements (h : PlainKeys es) : ∃ rs : List (Bytes × Lib.Json.Value),
    rs.map Prod.fst = es.map entryText ∧ rs.map Prod.snd = es.map entryValue ∧
      ∀ r ∈ rs, Reads r.1 r.2 := by
  refine ⟨es.map fun e => (entryText e, entryValue e), ?_, ?_, ?_⟩
  · rw [List.map_map]
    rfl
  · rw [List.map_map]
    rfl
  · intro r hr
    obtain ⟨e, he, rfl⟩ := List.mem_map.1 hr
    exact reads_entryText (h e he).1 (h e he).2

theorem readable_attachedText (v : SerialView) : Readable (attachedText v) := by
  refine readable_printFields ⟨by simp only [List.map_cons, List.map_nil]; decide, ?_⟩
  intro t ht
  simp only [List.map_cons, List.map_nil, List.mem_cons, List.not_mem_nil, or_false] at ht
  rcases ht with rfl | rfl | rfl | rfl | rfl | rfl
  · exact readable_printBool _
  · exact readable_printBool _
  · exact readable_printHex4 _
  · exact readable_printHex4 _
  · exact readable_jsonEscape _ _
  · exact readable_jsonEscape _ _

theorem plain_lcsrcStr (s : UInt8) : Plain (lcsrcStr s) := by
  rw [lcsrcStr]
  split
  · decide
  · split <;> decide

theorem readable_effectiveText (v : SerialView) : Readable (effectiveText v) := by
  refine readable_printFields ⟨by simp only [List.map_cons, List.map_nil]; decide, ?_⟩
  intro t ht
  simp only [List.map_cons, List.map_nil, List.mem_cons, List.not_mem_nil, or_false] at ht
  rcases ht with rfl | rfl | rfl | rfl | rfl
  · exact readable_decimal _
  · exact readable_decimal _
  · exact readable_decimal _
  · exact readable_decimal _
  · exact readable_printStr (plain_lcsrcStr _)

/-- The two fields before `stored`, with their names. -/
theorem serialHead_eq (v : SerialView) : serialHead v =
    123 :: ((quote :: asciiBytes "attached" ++ [quote, colon] ++ attachedText v ++ [comma]) ++
      (quote :: asciiBytes "effective" ++ [quote, colon] ++ effectiveText v ++ [comma]) ++
      (quote :: asciiBytes "stored" ++ [quote, colon] ++ [91])) := by
  have hattached : asciiBytes "\"attached\":" =
      quote :: asciiBytes "attached" ++ [quote, colon] := by decide
  have heffective : asciiBytes ",\"effective\":" =
      comma :: (quote :: asciiBytes "effective" ++ [quote, colon]) := by decide
  have hstored : asciiBytes ",\"stored\":[" =
      comma :: (quote :: asciiBytes "stored" ++ [quote, colon] ++ [91]) := by decide
  rw [serialHead, hattached, heffective, hstored]
  simp only [List.append_assoc, List.cons_append, List.nil_append]

/-- With its end the text is an object. -/
theorem closed_eq (v : SerialView) (es : List (Bytes × LineCoding)) :
    serialHead v ++ joined es ++ [93, 125] =
      printFields [("attached", attachedText v), ("effective", effectiveText v),
        ("stored", 91 :: joined es ++ [93])] := by
  rw [serialHead_eq, printFields, printObject]
  simp only [List.map_cons, List.map_nil, List.intercalate_cons_cons,
    List.intercalate_singleton, List.append_assoc, List.cons_append, List.nil_append]

theorem plain_attached : ∀ b ∈ asciiBytes "attached", isPlain b = true := by decide

theorem plain_effective : ∀ b ∈ asciiBytes "effective", isPlain b = true := by decide

theorem plain_stored : ∀ b ∈ asciiBytes "stored", isPlain b = true := by decide

/-- A text with its end lists the entries that are printed. -/
theorem closed_reads (h : PlainKeys es) : ∃ w,
    parse (serialHead v ++ joined es ++ [93, 125]) = some w ∧
      w.members (asciiBytes "stored") = [.arr (es.map entryValue)] := by
  obtain ⟨rs, hfst, hsnd, hreads⟩ := exists_elements h
  have harr := Reads.array hreads
  rw [hfst, hsnd] at harr
  have hbefore : ∀ m ∈ [(asciiBytes "attached", attachedText v),
      (asciiBytes "effective", effectiveText v)] ++ [],
      (∀ b ∈ m.1, isPlain b = true) ∧ Readable m.2 := by
    intro m hm
    rw [List.append_nil, List.mem_cons, List.mem_singleton] at hm
    rcases hm with rfl | rfl
    · exact ⟨plain_attached, readable_attachedText v⟩
    · exact ⟨plain_effective, readable_effectiveText v⟩
  have hnew : asciiBytes "stored" ∉ [asciiBytes "attached", asciiBytes "effective"] := by
    decide
  obtain ⟨w, hw, hmem⟩ := exists_members_eq plain_stored harr hbefore hnew
  refine ⟨w, ?_, hmem⟩
  rw [closed_eq]
  exact hw.parse

/-- The state after the text up to the first entry. -/
theorem run_serialHead (v : SerialView) : ∃ st, ∀ rest,
    run ⟨.value, []⟩ (serialHead v ++ rest) = run ⟨.item, .arr [] :: st⟩ rest := by
  obtain ⟨a, ha⟩ := readable_attachedText v
  obtain ⟨f, hf⟩ := readable_effectiveText v
  obtain ⟨fields, hfields, hprint⟩ : ∃ fields : List Field, (∀ g ∈ fields, g.Sound) ∧
      ∀ rest, serialHead v ++ rest = 123 :: (fields.flatMap (fun g => g.print ++ [comma]) ++
        ((quote :: asciiBytes "stored" ++ [quote, colon]) ++ 91 :: rest)) := by
    refine ⟨[⟨quote :: asciiBytes "attached" ++ [quote, colon], attachedText v,
      asciiBytes "attached", a⟩, ⟨quote :: asciiBytes "effective" ++ [quote, colon],
        effectiveText v, asciiBytes "effective", f⟩], ?_, fun rest => ?_⟩
    · intro g hg
      rw [List.mem_cons, List.mem_singleton] at hg
      rcases hg with rfl | rfl
      · exact ⟨.plain plain_attached, ha⟩
      · exact ⟨.plain plain_effective, hf⟩
    · rw [serialHead_eq]
      simp only [List.flatMap_cons, List.flatMap_nil, Field.print, List.append_assoc,
        List.cons_append, List.nil_append]
  have hbrace : step ⟨.value, []⟩ 123 = some ⟨.name [] true, []⟩ := rfl
  refine ⟨[.mem ([] ++ fields.map Field.member) (asciiBytes "stored")], fun rest => ?_⟩
  have hbracket : ∀ st, step ⟨.value, st⟩ 91 = some ⟨.item, .arr [] :: st⟩ := fun _ => rfl
  rw [hprint, run_cons, hbrace, Option.bind_some,
    run_open_value hfields (.plain plain_stored), run_cons, hbracket, Option.bind_some]

/-- A text without its end is no JSON. -/
theorem open_reads (h : PlainKeys es) : parse (serialHead v ++ joined es) = none := by
  obtain ⟨rs, hfst, -, hreads⟩ := exists_elements h
  obtain ⟨st, hopen⟩ := run_serialHead v
  rw [joined, ← hfst]
  exact parse_eq_none_of_elements hreads hopen

theorem PlainKeys.of_append {es' : List (Bytes × LineCoding)} (h : PlainKeys (es ++ es')) :
    PlainKeys es :=
  fun e he => h e (List.mem_append_left es' he)

theorem length_joined (h : PlainKeys es) : (joined es).length = listSize es := by
  induction es using List.reverseRecOn with
  | nil => rfl
  | append_singleton es e ih =>
    obtain ⟨hlen, hplain⟩ := h e (List.mem_append_right es (List.mem_singleton.2 rfl))
    rw [joined_concat, List.length_append, ih h.of_append, List.length_append,
      length_entryText hlen hplain]
    by_cases hnil : es.length = 0
    · rw [if_pos hnil]
      simp [listSize, hnil]
    · rw [if_neg hnil]
      simp [listSize]
      omega

theorem listSize_append_le (es es' : List (Bytes × LineCoding)) :
    listSize es ≤ listSize (es ++ es') := by
  rw [listSize, listSize, List.map_append, List.sum_append, List.length_append]
  omega

/-- With room for all of them where the loop stops, they fit. -/
theorem fits_of_size (h : headSize v + listSize es < 1024 - 96) : Fits v es := by
  refine ⟨fun before e heq => ?_, by omega⟩
  have hle := listSize_append_le before [e]
  rw [← heq] at hle
  omega

/-- The loop reaches the last entry, and the end is printed. -/
theorem fits_iff (h : PlainKeys es) : Fits v es ↔
    Begun (serialHead v).length es ∧ (serialHead v ++ joined es).length < 1024 - 3 := by
  rw [Fits, Begun, List.length_append, length_serialHead, length_joined h]
  refine and_congr_left fun _ => forall_congr' fun before => forall_congr' fun e => ?_
  refine forall_congr' fun heq => ?_
  rw [length_joined (heq ▸ h).of_append]

/-- Where no key has a control byte, the answer lists the entries if and only if they fit. -/
theorem listed_iff {nvs : NvsTable} (h : PlainKeys (serialcfgList nvs serialcfgMax)) :
    Lists (hSerialGet v nvs) ((serialcfgList nvs serialcfgMax).map Prod.fst) ↔
      Fits v (serialcfgList nvs serialcfgMax) := by
  generalize hitems : serialcfgList nvs serialcfgMax = items at h ⊢
  have hnone : Begun (serialHead v).length [] := by
    intro before e heq
    exact absurd heq.symm (by simp)
  obtain ⟨shown, left, rfl, hshown, hprint, hleft⟩ := storedLoop_prints items [] hnone
  rw [List.nil_append] at hshown hprint hleft
  have htext : serialHead v ++ storedLoop 0 (serialHead v).length (shown ++ left) =
      serialHead v ++ joined shown := by
    rw [← hprint]
    rfl
  have hplain : PlainKeys shown := h.of_append
  rw [fits_iff h, hSerialGet, hitems, serialText, htext]
  constructor
  · rintro ⟨text, w, vs, hout, hparse, hmem, hperm⟩
    by_cases hend : (serialHead v ++ joined shown).length < 1024 - 3
    · -- the text is complete, so it has as many objects as entries were printed
      rw [if_pos hend] at hout
      split at hout
      · cases hout
      · cases hout
        obtain ⟨w', hw', hmem'⟩ := closed_reads (v := v) hplain
        rw [hw'] at hparse
        cases hparse
        rw [hmem'] at hmem
        cases hmem
        have hlen := hperm.length_eq
        simp only [List.length_map, List.length_append] at hlen
        have hnil : left = [] := List.length_eq_zero_iff.1 (by omega)
        rw [hnil, List.append_nil]
        exact ⟨hshown, hend⟩
    · -- the text has no end
      rw [if_neg hend] at hout
      split at hout
      · cases hout
      · cases hout
        rw [open_reads hplain] at hparse
        cases hparse
  · rintro ⟨hbegun, hend⟩
    have hnil : left = [] := by
      refine Classical.byContradiction fun hne => ?_
      have hfull := hleft hne
      -- the last entry would begin before the loop stops
      have hlast := hbegun (shown ++ left.dropLast) (left.getLast hne) (by
        rw [List.append_assoc, List.dropLast_append_getLast])
      have hmono := joined_length_mono (List.prefix_append shown left.dropLast)
      omega
    subst hnil
    rw [List.append_nil] at hend ⊢
    have hshort : ¬ 1024 ≤ (serialHead v ++ joined shown ++ [93, 125]).length := by
      rw [List.length_append, List.length_cons, List.length_singleton]
      omega
    obtain ⟨w, hw, hmem⟩ := closed_reads (v := v) hplain
    rw [if_pos hend, if_neg hshort]
    refine ⟨_, w, _, rfl, hw, hmem, ?_⟩
    have hkeys : (shown.map entryValue).map (fun x => x.members (asciiBytes "key")) =
        (shown.map Prod.fst).map fun k => [.str k] := by
      rw [List.map_map, List.map_map]
      exact List.map_congr_left fun e _ => entryValue_key e
    rw [hkeys]

end Reading

end Cdc2Net.Web

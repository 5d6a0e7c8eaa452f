import Cdc2Net.Lib.RingLog
import Cdc2Net.Settings.Nvs
import Cdc2Net.Web.JsonEscape
import Mathlib.Data.List.TakeWhile

/-!
# The log ring

`log_buffer.c` and `h_log` of `webui.c`. `log_hook` puts what is logged into a ring of
`LB_MAX_LINES` lines, and `log_buffer_get_since` prints the lines from a sequence number on
into an array until the next one may not fit. The ring is translated with the number `N` of
its lines as a parameter, since `CDC2NET_LOG_BUFFER_LINES` sets it.
-/

set_option autoImplicit false

namespace Cdc2Net.Log

open Cdc2Net.Lib.Json
open Cdc2Net.Lib.RingLog
open Cdc2Net.Settings (CStr)
open Cdc2Net.Source (asciiBytes)
open Cdc2Net.Web (escapeChar)

/-! ## What is logged -/

/-- `strip_ansi_inplace`; `skip` after `ESC [`, up to the next `m`. -/
def stripAnsi : Bool → Bytes → Bytes
  | _, [] => []
  | true, c :: s => stripAnsi (c != 109) s
  | false, [c] => [c]
  | false, c :: d :: s =>
    if c = 0x1b ∧ d = 91 then stripAnsi true s else c :: stripAnsi false (d :: s)

/-- A line feed or a carriage return. -/
def isLineEnd (c : UInt8) : Bool := c = 10 || c = 13

/-- `tmp` in `log_hook` without the line ends: the formatted text in an array of 200 bytes, up
to its first NUL. -/
def hookText (text : Bytes) : Bytes :=
  ((stripAnsi false ((text.take 199).takeWhile (· ≠ 0))).reverse.dropWhile isLineEnd).reverse

/-- Up to the first line feed. -/
def firstLine (s : Bytes) : Bytes := s.takeWhile (· ≠ 10)

section HookText

variable {skip : Bool} {s text : Bytes}

theorem stripAnsi_sublist (skip : Bool) (s : Bytes) : (stripAnsi skip s).Sublist s := by
  induction skip, s using stripAnsi.induct with
  | case1 => simp [stripAnsi]
  | case2 c s ih =>
    rw [stripAnsi]
    exact ih.trans (List.sublist_cons_self c s)
  | case3 c => simp [stripAnsi]
  | case4 c d s hesc ih =>
    rw [stripAnsi, if_pos hesc]
    exact ih.trans ((List.sublist_cons_self d s).trans (List.sublist_cons_self c (d :: s)))
  | case5 c d s hesc ih =>
    rw [stripAnsi, if_neg hesc]
    exact ih.cons_cons c

theorem hookText_sublist (text : Bytes) :
    (hookText text).Sublist ((text.take 199).takeWhile (· ≠ 0)) := by
  have hdrop := (List.dropWhile_sublist isLineEnd
    (l := (stripAnsi false ((text.take 199).takeWhile (· ≠ 0))).reverse)).reverse
  rw [List.reverse_reverse] at hdrop
  exact hdrop.trans (stripAnsi_sublist false _)

theorem firstLine_sublist (text : Bytes) :
    (firstLine (hookText text)).Sublist ((text.take 199).takeWhile (· ≠ 0)) :=
  (List.takeWhile_sublist _).trans (hookText_sublist text)

theorem noNul_hookText (text : Bytes) : 0 ∉ firstLine (hookText text) := by
  intro hmem
  have hzero := List.mem_takeWhile_imp ((firstLine_sublist text).subset hmem)
  simp at hzero

theorem fits_hookText (text : Bytes) : (firstLine (hookText text)).length < 200 := by
  have hle := (firstLine_sublist text).length_le
  have htake := (List.takeWhile_sublist (· ≠ 0) (l := text.take 199)).length_le
  rw [List.length_take] at htake
  omega

end HookText

/-- What `log_hook` keeps of a formatted text; nothing of one that is only line ends. -/
def hookMsg (text : Bytes) : Option (CStr 200) :=
  if hookText text = [] then none
  else some ⟨firstLine (hookText text), noNul_hookText text, fits_hookText text⟩

/-- The line for `dropped` lines that met a locked mutex. -/
def markerText (dropped : UInt32) : Bytes :=
  60 :: (decimal dropped.toNat ++ asciiBytes " log lines dropped (mutex contention)>")

theorem length_marker_tail :
    (asciiBytes " log lines dropped (mutex contention)>").length = 38 := by
  decide

theorem notMem_marker_tail : 0 ∉ asciiBytes " log lines dropped (mutex contention)>" := by
  decide

theorem notMem_decimal {c : UInt8} (h : isDigit c = false) (n : Nat) : c ∉ decimal n := by
  intro hmem
  rw [isDigit_decimal c hmem] at h
  cases h

theorem length_decimal_uint32 (v : UInt32) : (decimal v.toNat).length ≤ 10 :=
  length_decimal_le (by decide) (lt_trans v.toNat_lt (by decide))

theorem noNul_markerText (dropped : UInt32) : 0 ∉ markerText dropped := by
  rw [markerText, List.mem_cons, List.mem_append]
  rintro (hopen | hnum | htail)
  · cases hopen
  · exact notMem_decimal rfl _ hnum
  · exact notMem_marker_tail htail

theorem length_markerText (dropped : UInt32) :
    (markerText dropped).length = (decimal dropped.toNat).length + 39 := by
  rw [markerText, List.length_cons, List.length_append, length_marker_tail]

theorem fits_markerText (dropped : UInt32) : (markerText dropped).length < 200 := by
  have hdigits := length_decimal_uint32 dropped
  rw [length_markerText]
  omega

/-- The marker in the array of a line. -/
def marker (dropped : UInt32) : CStr 200 :=
  ⟨markerText dropped, noNul_markerText dropped, fits_markerText dropped⟩

/-! ## The ring -/

/-- `LB_MAX_LINES` unless the build sets another number. -/
def lbMaxLines : Nat := 128

theorem lbMaxLines_ne_zero : lbMaxLines ≠ 0 := by decide

instance : NeZero lbMaxLines := ⟨lbMaxLines_ne_zero⟩

/-- `lb_line_t`. -/
structure Line where
  tsMs : UInt32
  msg : CStr 200
  deriving DecidableEq

/-- The state of `log_buffer.c`; `mtx` once `log_buffer_init` has created the mutex. -/
structure LogBuffer (N : Nat) where
  lines : Slots Line N
  headSeq : UInt32
  droppedPending : UInt32
  mtx : Bool

variable {N : Nat}

/-- The text of a line that is all zero. -/
theorem fits_nil : ([] : Bytes).length < 200 := by decide

/-- After `log_buffer_init`. -/
def LogBuffer.init (N : Nat) : LogBuffer N where
  lines _ := ⟨0, ⟨[], Settings.noNul_nil, fits_nil⟩⟩
  headSeq := 0
  droppedPending := 0
  mtx := true

/-- A line at the head. -/
def LogBuffer.put [NeZero N] (b : LogBuffer N) (l : Line) : LogBuffer N :=
  { b with lines := b.lines.put b.headSeq.toNat l, headSeq := b.headSeq + 1 }

/-- `log_hook` for a formatted text; `free` if it gets the mutex at once. `ts` and `ts'` are
the times of the marker and of the line. -/
def logHook [NeZero N] (b : LogBuffer N) (free : Bool) (ts ts' : UInt32) (text : Bytes) :
    LogBuffer N :=
  match hookMsg text with
  | none => b
  | some msg =>
    if b.mtx ∧ free then
      if b.droppedPending ≠ 0 then
        ({ b with droppedPending := 0 }.put ⟨ts, marker b.droppedPending⟩).put ⟨ts', msg⟩
      else b.put ⟨ts', msg⟩
    else if b.mtx then { b with droppedPending := b.droppedPending + 1 }
    else b

/-! ## Printing the lines -/

/-- The array `out`: the bytes in it, and `pos`, which a truncated `snprintf` takes past
them. -/
structure Out where
  text : Bytes
  pos : Nat

namespace Out

/-- `out[pos++] = c`. -/
def put (o : Out) (c : UInt8) : Out := ⟨o.text ++ [c], o.pos + 1⟩

/-- `pos += snprintf(out + pos, out_cap - pos, …)` of a text. -/
def print (cap : Nat) (o : Out) (s : Bytes) : Out :=
  ⟨o.text ++ s.take (cap - o.pos - 1), o.pos + s.length⟩

end Out

/-- `\u%04x` of a control byte. -/
def unitText (c : UInt8) : Bytes :=
  [backslash, 117, 48, 48, Web.hexDigit (c.toNat / 16), Web.hexDigit (c.toNat % 16)]

/-- The loop over the bytes of a message. -/
def msgLoop (cap : Nat) : Out → Bytes → Out
  | o, [] => o
  | o, c :: m =>
    if o.pos + 7 < cap then
      if c = quote ∨ c = backslash then msgLoop cap ((o.put backslash).put c) m
      else if c < 32 then msgLoop cap (o.print cap (unitText c)) m
      else msgLoop cap (o.put c) m
    else o

/-- `{"seq":%u,"ts":%u,"msg":"`. -/
def header (s : Nat) (ts : UInt32) : Bytes :=
  123 :: (asciiBytes "\"seq\":" ++ decimal s ++ asciiBytes ",\"ts\":" ++ decimal ts.toNat ++
    asciiBytes ",\"msg\":\"")

/-- `need`: the room that a line is taken to need. -/
def need (l : Line) : Nat := 32 + l.msg.bytes.length * 2 + 4

/-- The loop over the lines. -/
def lineLoop (cap : Nat) : Out → (first : Bool) → (count : Nat) → List (Nat × Line) → Out × Nat
  | o, _, count, [] => (o, count)
  | o, first, count, (s, l) :: rest =>
    if o.pos + need l ≥ cap then (o, count)
    else
      let o := if first then o else o.put comma
      let o := msgLoop cap (o.print cap (header s l.tsMs)) l.msg.bytes
      if o.pos + 2 ≥ cap then (o, count)
      else lineLoop cap ((o.put quote).put 125) false (count + 1) rest

/-- What `log_buffer_get_since` gives back; `text` is none if it leaves `out` alone. -/
structure Reply where
  text : Option Bytes
  count : Nat
  head : Nat
  oldest : Nat

/-- `o`: the oldest sequence number in the ring. -/
def LogBuffer.oldest (b : LogBuffer N) : Nat := b.headSeq.toNat - N

/-- The lines that the loop is over. -/
def LogBuffer.since [NeZero N] (b : LogBuffer N) (since : UInt32) : List (Nat × Line) :=
  window b.lines (max since.toNat b.oldest) b.headSeq.toNat

/-- `log_buffer_get_since` into an array of `cap` bytes. -/
def getSince [NeZero N] (b : LogBuffer N) (since : UInt32) (cap : Nat) : Reply :=
  if ¬ b.mtx ∨ cap = 0 then ⟨none, 0, 0, 0⟩
  else
    let r := lineLoop cap ⟨[], 0⟩ true 0 (b.since since)
    ⟨some r.1.text, r.2, b.headSeq.toNat, b.oldest⟩

/-- `h_log`, with the number of the query or none; its array of 7000 bytes is zero before the
first call. -/
def hLog [NeZero N] (b : LogBuffer N) (since : Option UInt32) : Bytes :=
  let r := getSince b (since.getD 0) 7000
  printObject
    [(asciiBytes "head", decimal r.head), (asciiBytes "oldest", decimal r.oldest),
      (asciiBytes "count", decimal r.count),
      (asciiBytes "lines", 91 :: r.text.getD [] ++ [93])]

/-- The ring after these texts, all logged at the same time. -/
def logged (N : Nat) [NeZero N] (ts : UInt32) (texts : List Bytes) : LogBuffer N :=
  texts.foldl (fun b text => logHook b true ts ts text) (.init N)

end Cdc2Net.Log

import Cdc2Net.Lib.Mealy
import Cdc2Net.Lib.RestartMatcher
import Cdc2Net.Source.SerialCfg
import Mathlib.Data.List.Induction

/-!
# The radio's reboot banner

`scan_for_radio_reboot` of `source_uart.c`: the ROM banner is looked for across the chunks that
`uart_rx_task` reads, and the TCP clients are dropped where it ends, unless this happened less
than two seconds ago. After a mismatch only the first character of the banner is looked at,
which does not occur in it again, so no occurrence is missed (`reboot_scanner_exact`).
-/

set_option autoImplicit false

namespace Cdc2Net.Source.RebootScan

open Cdc2Net.Lib
open Cdc2Net.Lib.RestartMatcher

/-- `ROM_BANNER`. -/
def romBanner : List UInt8 := asciiBytes "ESP-ROM:"
/-- `REBOOT_DEBOUNCE_MS`. -/
def rebootDebounceMs : Int := 2000

/-- A byte, and what `esp_timer_get_time` returns when it is looked at, in microseconds. -/
abbrev TimedByte := UInt8 × Int

/-- The static variables of `scan_for_radio_reboot`. -/
structure Scan where
  matched : Nat
  lastHitUs : Int
  deriving DecidableEq, Repr

/-- Their values at the start. -/
def Scan.start : Scan := ⟨0, 0⟩

/-- One pass of the loop, and whether `sink_tcp_drop_clients` is called in it. -/
def scanByte (s : Scan) (x : TimedByte) : Scan × Bool :=
  if romBanner[s.matched]? = some x.1 then
    if s.matched + 1 < romBanner.length then ({ s with matched := s.matched + 1 }, false)
    -- a boot loop prints the banner every second
    else if x.2 - s.lastHitUs < rebootDebounceMs * 1000 then ({ s with matched := 0 }, false)
    else (⟨0, x.2⟩, true)
  else ({ s with matched := if romBanner.head? = some x.1 then 1 else 0 }, false)

/-- `scan_for_radio_reboot` on a chunk: for each byte whether the clients are dropped at it. -/
def scanForRadioReboot (s : Scan) : List TimedByte → Scan × List Bool
  | [] => (s, [])
  | x :: buf =>
    ((scanForRadioReboot (scanByte s x).1 buf).1,
      (scanByte s x).2 :: (scanForRadioReboot (scanByte s x).1 buf).2)

/-- The loop of `uart_rx_task`: one call for each chunk that is read. -/
def uartRxTask (s : Scan) (chunks : List (List TimedByte)) : Scan × List Bool :=
  Mealy.run scanForRadioReboot s chunks

/-- The clients are dropped at those bytes where the banner ends and the debounce time has
passed since they were dropped before. -/
def DropsExactly (stream : List TimedByte) (drops : List Bool) : Prop :=
  drops.length = stream.length ∧
    ∀ i x, stream[i]? = some x →
      (drops[i]? = some true ↔ romBanner <:+ (stream.take (i + 1)).map Prod.fst ∧
        ∀ j < i, ∀ y, drops[j]? = some true → stream[j]? = some y →
          rebootDebounceMs * 1000 ≤ x.2 - y.2)

/-- The scanner on a stream that comes in chunks: it drops the clients exactly where it should,
and however the stream was cut up to some byte, the scanner has there matched the longest proper
prefix of the banner in which the bytes read so far end. -/
structure ScansExactly (chunks : List (List TimedByte)) : Prop where
  drops : DropsExactly chunks.flatten (uartRxTask .start chunks).2
  matched : ∀ read : List (List TimedByte), read.flatten <+: chunks.flatten →
    LongestBorder romBanner (read.flatten.map Prod.fst) (uartRxTask .start read).1.matched ∧
      (uartRxTask .start read).1.matched < 8

/-- The times do not go back, and begin two seconds after the start. -/
structure SinceBoot (stream : List TimedByte) : Prop where
  nondecreasing : (stream.map Prod.snd).Pairwise (· ≤ ·)
  late : ∀ x, stream.head? = some x → rebootDebounceMs * 1000 ≤ x.2

section Scanner

variable {s : Scan} {x : TimedByte} {stream pre : List TimedByte}

/-- The chunks are read as one stream. -/
theorem uartRxTask_eq (s : Scan) (chunks : List (List TimedByte)) :
    uartRxTask s chunks = scanForRadioReboot s chunks.flatten := by
  have hloop : ∀ (buf : List TimedByte) (s : Scan), scanForRadioReboot s buf =
      Mealy.run (fun s x => ((scanByte s x).1, [(scanByte s x).2])) s buf := by
    intro buf
    induction buf with
    | nil => exact fun s => rfl
    | cons x buf ih =>
      intro s
      rw [scanForRadioReboot, Mealy.run_cons, ih]
      rfl
  have hflags : ∀ flags : List Bool, flags.flatMap (fun b => [b]) = flags := List.flatMap_singleton'
  obtain ⟨hstate, hout⟩ := Mealy.run_chunks_refines _ scanForRadioReboot (fun b => [b])
    (fun s buf => ⟨congrArg Prod.fst (hloop buf s),
      (hflags _).trans (congrArg Prod.snd (hloop buf s))⟩) chunks s
  rw [hflags] at hout
  rw [hloop]
  exact Prod.ext hstate hout

theorem scan_concat (s : Scan) (stream : List TimedByte) (x : TimedByte) :
    scanForRadioReboot s (stream ++ [x]) =
      ((scanByte (scanForRadioReboot s stream).1 x).1,
        (scanForRadioReboot s stream).2 ++ [(scanByte (scanForRadioReboot s stream).1 x).2]) := by
  induction stream generalizing s with
  | nil => rfl
  | cons y stream ih =>
    rw [List.cons_append, scanForRadioReboot, ih]
    rfl

theorem scan_length (s : Scan) (stream : List TimedByte) :
    (scanForRadioReboot s stream).2.length = stream.length := by
  induction stream generalizing s with
  | nil => rfl
  | cons x stream ih =>
    rw [scanForRadioReboot, List.length_cons, List.length_cons, ih]

theorem getElem?_concat_iff {β : Type} {l : List β} {a y : β} {j : ℕ} :
    (l ++ [a])[j]? = some y ↔ l[j]? = some y ∨ j = l.length ∧ a = y := by
  rcases lt_trichotomy j l.length with hlt | rfl | hgt
  · rw [List.getElem?_append_left hlt]
    simp [hlt.ne]
  · simp
  · rw [List.getElem?_eq_none (by simpa using Nat.succ_le_of_lt hgt), List.getElem?_eq_none hgt.le]
    simp [hgt.ne']

/-- The first character of the banner does not occur in it again. -/
theorem romBanner_restarts : ∃ a p, romBanner = a :: p ∧ a ∉ p :=
  ⟨69, asciiBytes "SP-ROM:", by decide, by decide⟩

/-- The search for the banner. -/
theorem advance_romBanner {text : List UInt8} {k : ℕ} (h : LongestBorder romBanner text k)
    (b : UInt8) :
    LongestBorder romBanner (text ++ [b]) (advance romBanner k b).1 ∧
      ((advance romBanner k b).2 = true ↔ romBanner <:+ text ++ [b]) := by
  obtain ⟨a, p, hbanner, ha⟩ := romBanner_restarts
  rw [hbanner] at h ⊢
  exact h.advance ha b

/-- One byte for the search. -/
theorem scanByte_matched (s : Scan) (x : TimedByte) :
    (scanByte s x).1.matched = (advance romBanner s.matched x.1).1 := by
  rw [scanByte, advance]
  split
  · split
    · rfl
    · split
      · rfl
      · rfl
  · rfl

/-- One byte for the debounce. -/
theorem scanByte_drop (s : Scan) (x : TimedByte) :
    (scanByte s x).2 = true ↔ (advance romBanner s.matched x.1).2 = true ∧
      rebootDebounceMs * 1000 ≤ x.2 - s.lastHitUs := by
  rw [scanByte, advance]
  split
  · split
    · exact iff_of_false Bool.false_ne_true fun h => Bool.false_ne_true h.1
    · split
      · next hsoon => exact iff_of_false Bool.false_ne_true fun h => absurd h.2 (by omega)
      · next hlate => exact iff_of_true rfl ⟨rfl, by omega⟩
  · exact iff_of_false Bool.false_ne_true fun h => Bool.false_ne_true h.1

theorem scanByte_lastHit (s : Scan) (x : TimedByte) :
    (scanByte s x).1.lastHitUs = if (scanByte s x).2 = true then x.2 else s.lastHitUs := by
  rw [scanByte]
  split
  · split
    · rfl
    · split
      · rfl
      · rfl
  · rfl

/-- The time of the last drop, zero if there was none. -/
structure LastHit (stream : List TimedByte) (drops : List Bool) (lastHitUs : Int) : Prop where
  latest : ∀ (j : ℕ) (y : TimedByte), drops[j]? = some true → stream[j]? = some y →
    y.2 ≤ lastHitUs
  hit : lastHitUs = 0 ∨ ∃ (j : ℕ) (y : TimedByte),
    drops[j]? = some true ∧ stream[j]? = some y ∧ y.2 = lastHitUs

/-- After a stream. -/
structure ScanInv (stream : List TimedByte) (r : Scan × List Bool) : Prop where
  matched : LongestBorder romBanner (stream.map Prod.fst) r.1.matched
  lastHit : LastHit stream r.2 r.1.lastHitUs
  drops : DropsExactly stream r.2

theorem scanInv_start : ScanInv [] (scanForRadioReboot .start []) :=
  ⟨longestBorder_nil (by decide), ⟨fun j y h => (by cases h), Or.inl rfl⟩,
    rfl, fun i x h => (by cases h)⟩

/-- The debounce time has passed since the last drop if and only if it has since every drop. -/
theorem LastHit.passed_iff {drops : List Bool} {last : Int} (h : LastHit stream drops last)
    (hlate : rebootDebounceMs * 1000 ≤ x.2) :
    rebootDebounceMs * 1000 ≤ x.2 - last ↔
      ∀ (j : ℕ) (y : TimedByte), drops[j]? = some true → stream[j]? = some y →
        rebootDebounceMs * 1000 ≤ x.2 - y.2 := by
  constructor
  · intro hpassed j y hj hy
    have hle := h.latest j y hj hy
    omega
  · intro hall
    rcases h.hit with hzero | ⟨j, y, hj, hy, hlast⟩
    · omega
    · have hpassed := hall j y hj hy
      omega

/-- One byte more. -/
theorem ScanInv.concat (h : ScanInv stream (scanForRadioReboot .start stream))
    (htime : SinceBoot (stream ++ [x])) :
    ScanInv (stream ++ [x]) (scanForRadioReboot .start (stream ++ [x])) := by
  have hlen := scan_length .start stream
  have hpair := htime.nondecreasing
  rw [List.map_append, List.pairwise_append] at hpair
  -- no earlier byte has a later time
  have hle : ∀ (j : ℕ) (y : TimedByte), stream[j]? = some y → y.2 ≤ x.2 := fun j y hy =>
    hpair.2.2 _ (List.mem_map_of_mem (List.mem_of_getElem? hy)) _ (List.mem_singleton_self _)
  have hlate : rebootDebounceMs * 1000 ≤ x.2 := by
    cases hs : stream with
    | nil => exact htime.late x (by rw [hs]; rfl)
    | cons y rest =>
      have hy := htime.late y (by rw [hs]; rfl)
      have hyx := hle 0 y (by rw [hs]; rfl)
      omega
  obtain ⟨hmatched, hhit⟩ := advance_romBanner h.matched x.1
  have hdrop := scanByte_drop (scanForRadioReboot .start stream).1 x
  rw [h.lastHit.passed_iff hlate, hhit] at hdrop
  rw [scan_concat]
  refine ⟨?_, ⟨?_, ?_⟩, ?_, ?_⟩
  · rw [List.map_append, scanByte_matched]
    exact hmatched
  · intro j y hj hy
    rw [scanByte_lastHit]
    rcases getElem?_concat_iff.1 hy with hy | ⟨rfl, rfl⟩
    · split
      · exact hle j y hy
      · rcases getElem?_concat_iff.1 hj with hj | ⟨rfl, hlast⟩
        · exact h.lastHit.latest j y hj hy
        · rw [hlen, List.getElem?_eq_none le_rfl] at hy
          cases hy
    · rcases getElem?_concat_iff.1 hj with hj | ⟨-, hlast⟩
      · rw [← hlen, List.getElem?_eq_none le_rfl] at hj
        cases hj
      · rw [if_pos hlast]
  · rw [scanByte_lastHit]
    split
    · next hlast =>
      exact Or.inr ⟨stream.length, x, getElem?_concat_iff.2 (Or.inr ⟨hlen.symm, hlast⟩),
        getElem?_concat_iff.2 (Or.inr ⟨rfl, rfl⟩), rfl⟩
    · refine h.lastHit.hit.imp_right ?_
      rintro ⟨j, y, hj, hy, hlast⟩
      exact ⟨j, y, getElem?_concat_iff.2 (Or.inl hj), getElem?_concat_iff.2 (Or.inl hy), hlast⟩
  · rw [List.length_append, List.length_append, hlen]
    rfl
  · intro i z hz
    rcases getElem?_concat_iff.1 hz with hz | ⟨rfl, rfl⟩
    · -- a byte before the last one
      have hi : i < stream.length := (List.getElem?_eq_some_iff.1 hz).1
      rw [List.getElem?_append_left (by omega), h.drops.2 i z hz,
        List.take_append_of_le_length (by omega)]
      refine and_congr_right fun _ => forall₂_congr fun j hj => forall_congr' fun y => ?_
      rw [List.getElem?_append_left (by omega), List.getElem?_append_left (by omega)]
    · have hlast : ((scanForRadioReboot .start stream).2 ++
          [(scanByte (scanForRadioReboot .start stream).1 x).2])[stream.length]? = some true ↔
            (scanByte (scanForRadioReboot .start stream).1 x).2 = true := by
        rw [← hlen, List.getElem?_concat_length, Option.some_inj]
      rw [hlast, hdrop, List.take_of_length_le (by simp), List.map_append]
      refine and_congr_right fun _ => ⟨fun hall j hj y => ?_, fun hall j y hj hy => ?_⟩
      · rw [List.getElem?_append_left (by omega), List.getElem?_append_left hj]
        exact hall j y
      · have hj' : j < stream.length := (List.getElem?_eq_some_iff.1 hy).1
        refine hall j hj' y ?_ ?_
        · rwa [List.getElem?_append_left (by omega)]
        · rwa [List.getElem?_append_left hj']

theorem SinceBoot.mono (h : SinceBoot stream) (hpre : pre <+: stream) : SinceBoot pre := by
  obtain ⟨rest, rfl⟩ := hpre
  refine ⟨?_, fun x hx => h.late x ?_⟩
  · have hpair := h.nondecreasing
    rw [List.map_append] at hpair
    exact (List.pairwise_append.1 hpair).1
  · rw [List.head?_append, hx]
    rfl

theorem scanInv_run (h : SinceBoot stream) : ScanInv stream (scanForRadioReboot .start stream) := by
  induction stream using List.reverseRecOn with
  | nil => exact scanInv_start
  | append_singleton stream x ih => exact (ih (h.mono (List.prefix_append _ _))).concat h

end Scanner

/-- For every stream and every cut of it into chunks, at times that do not go back and begin two
seconds after the start: the clients are dropped exactly where the banner ends and the debounce
time has passed since they were dropped before, and at every byte the scanner has matched the
longest proper prefix of the banner in which what was read ends. -/
theorem reboot_scanner_exact (chunks : List (List TimedByte)) (h : SinceBoot chunks.flatten) :
    ScansExactly chunks := by
  constructor
  · rw [uartRxTask_eq]
    exact (scanInv_run h).drops
  · intro read hread
    rw [uartRxTask_eq]
    have hmatched := (scanInv_run (h.mono hread)).matched
    exact ⟨hmatched, hmatched.lt⟩

/-- A reboot, and the second banner of a boot loop a second later, in two chunks. -/
def bootLoop : List (List TimedByte) :=
  [(asciiBytes "EEESP-").map fun b => (b, 5000000),
    (asciiBytes "ROM:").map (fun b => (b, 5000000)) ++
      (asciiBytes "ESP-ROM:").map fun b => (b, 6000000)]

theorem reboot_scanner_exact_bootLoop :
    ScansExactly bootLoop ∧ ((uartRxTask .start bootLoop).2.count true = 1) := by
  refine ⟨reboot_scanner_exact bootLoop ⟨?_, ?_⟩, by decide +kernel⟩
  · decide +kernel
  · intro x hx
    cases hx
    decide

end Cdc2Net.Source.RebootScan

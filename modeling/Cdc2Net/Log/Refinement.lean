import Cdc2Net.Lib.Transition
import Cdc2Net.Log.Reply

/-!
# The log ring as an unbounded log

What is logged, with the markers of dropped lines, is a log that only grows; `log_buffer.c`
keeps the end of it in a ring and prints a part of that. For lines of at least twelve bytes
without an escaped one, the estimate of `log_buffer_get_since` leaves room for what it lets
in, so a reply is a whole number of lines (`getSince_answers`). The ring therefore
refines the log: every reply is a run of it, and a reader that asks for what comes after its
last line sees all that was not overwritten, once and in order (`ring_refines_log`).
-/

set_option autoImplicit false

namespace Cdc2Net.Log

open Cdc2Net.Lib.Json
open Cdc2Net.Lib.RingLog
open Cdc2Net.Lib.Transition
open Cdc2Net.Settings (CStr)
open Cdc2Net.Source (asciiBytes)
open Cdc2Net.Web (escapeChar escapeLoop readsString_escapeLoop)

/-! ## Lines that need no escape -/

/-- A byte that is printed as it is. -/
def NoEscape (c : UInt8) : Prop := c ≠ quote ∧ c ≠ backslash ∧ ¬ c < 32

instance (c : UInt8) : Decidable (NoEscape c) := by
  unfold NoEscape
  infer_instance

/-- A message of at least twelve bytes without an escaped one. -/
structure Printable (m : Bytes) : Prop where
  length : 12 ≤ m.length
  noEscape : ∀ c ∈ m, NoEscape c

theorem printable_iff (m : Bytes) :
    (12 ≤ m.length ∧ ∀ c ∈ m, NoEscape c) ↔ Printable m :=
  ⟨fun h => ⟨h.1, h.2⟩, fun h => ⟨h.length, h.noEscape⟩⟩

instance (m : Bytes) : Decidable (Printable m) :=
  haveI : Decidable (∀ c ∈ m, NoEscape c) := List.decidableBAll _ m
  decidable_of_iff _ (printable_iff m)

theorem stripAnsi_noEscape {m : Bytes} (h : ∀ c ∈ m, NoEscape c) : stripAnsi false m = m := by
  induction m with
  | nil => rfl
  | cons c m ih =>
    have hrest := ih fun c' hc' => h c' (List.mem_cons_of_mem c hc')
    have hesc : c ≠ 0x1b := by
      rintro rfl
      exact (h _ List.mem_cons_self).2.2 (by decide)
    cases m with
    | nil => rfl
    | cons d s =>
      rw [stripAnsi, if_neg (fun hboth => hesc hboth.1), hrest]

/-- A printable text that fits in the array is kept as it is. -/
theorem hookMsg_printable {text : Bytes} (h : Printable text) (hlen : text.length ≤ 199) :
    ∃ msg, hookMsg text = some msg ∧ msg.bytes = text := by
  have hbyte : ∀ c ∈ text, c ≠ 0 ∧ isLineEnd c = false ∧ c ≠ 10 := by
    intro c hc
    have hctl := (h.noEscape c hc).2.2
    refine ⟨?_, ?_, ?_⟩
    · rintro rfl
      exact hctl (by decide)
    · rw [Bool.eq_false_iff]
      intro hend
      simp only [isLineEnd, Bool.or_eq_true, decide_eq_true_eq] at hend
      rcases hend with rfl | rfl <;> exact hctl (by decide)
    · rintro rfl
      exact hctl (by decide)
  have hkeep : text.takeWhile (· ≠ 0) = text :=
    List.takeWhile_eq_self_iff.2 fun c hc => by simpa using (hbyte c hc).1
  have hend : text.reverse.dropWhile isLineEnd = text.reverse := by
    rw [List.dropWhile_eq_self_iff]
    intro hpos
    rw [(hbyte _ (List.mem_reverse.1 (List.getElem_mem hpos))).2.1]
    exact Bool.false_ne_true
  have hhook : hookText text = text := by
    rw [hookText, List.take_of_length_le hlen, hkeep, stripAnsi_noEscape h.noEscape, hend,
      List.reverse_reverse]
  have hfirst : firstLine text = text :=
    List.takeWhile_eq_self_iff.2 fun c hc => by simpa using (hbyte c hc).2.2
  have hne : text ≠ [] := by
    rintro rfl
    exact absurd h.length (by decide)
  refine ⟨_, if_neg (by rwa [hhook]), ?_⟩
  change firstLine (hookText text) = text
  rw [hhook, hfirst]

/-- The JSON of a run of lines. -/
def printLines (batch : List (Nat × Line)) : Bytes := [comma].intercalate (batch.map lineText)

/-- The object of a line and its value. -/
def shown (e : Nat × Line) : Bytes × Value := (lineText e, lineValue e e.2.msg.bytes)

section Printing

variable {cap i count : Nat} {m : Bytes} {o : Out} {first : Bool} {es : List (Nat × Line)}
  {ds : List (Bytes × Value)}

theorem escapeChar_noEscape {c : UInt8} (h : NoEscape c) : escapeChar c = [c] := by
  obtain ⟨hquote, hbackslash, hctl⟩ := h
  have hesc : ¬ (c = quote ∨ c = backslash) := by
    rintro (rfl | rfl)
    · exact hquote rfl
    · exact hbackslash rfl
  rw [escapeChar, if_neg hesc, if_neg hctl]

theorem escaped_noEscape (h : ∀ c ∈ m, NoEscape c) : escaped m = m := by
  induction m with
  | nil => rfl
  | cons c m ih =>
    rw [escaped, List.flatMap_cons, escapeChar_noEscape (h c List.mem_cons_self)]
    exact congrArg (c :: ·) (ih fun c' hc' => h c' (List.mem_cons_of_mem c hc'))

/-- The loop over a message that needs no escape gets to its end if the last byte has room. -/
theorem escapeLoop_noEscape (h : ∀ c ∈ m, NoEscape c) (hroom : i + m.length + 6 < cap) :
    escapeLoop cap i m = m := by
  induction m generalizing i with
  | nil => rfl
  | cons c m ih =>
    rw [List.length_cons] at hroom
    rw [escapeLoop, if_pos (by omega), escapeChar_noEscape (h c List.mem_cons_self),
      List.length_singleton, ih (fun c' hc' => h c' (List.mem_cons_of_mem c hc')) (by omega)]
    rfl

/-- The header of a line takes up to 41 bytes. -/
theorem length_header_le {s : Nat} (hs : s < 2 ^ 32) (ts : UInt32) :
    (header s ts).length ≤ 41 := by
  have hseq : (asciiBytes "\"seq\":").length = 6 := by decide
  have hts : (asciiBytes ",\"ts\":").length = 6 := by decide
  have hmsg : (asciiBytes ",\"msg\":\"").length = 8 := by decide
  have hnum : (decimal s).length ≤ 10 :=
    length_decimal_le (by decide) (Nat.lt_trans hs (by decide))
  have htime := length_decimal_uint32 ts
  simp only [header, List.length_cons, List.length_append, hseq, hts, hmsg]
  omega

/-- A line that is let in is printed whole, and the loop goes on. -/
theorem lineLoop_printable_cons {e : Nat × Line} (h : AtLine ds o first count)
    (he : Printable e.2.msg.bytes) (hnum : e.1 < 2 ^ 32) (hin : o.pos + need e.2 < cap)
    (es : List (Nat × Line)) : ∃ o', AtLine (ds ++ [shown e]) o' false (count + 1) ∧
      lineLoop cap o first count (e :: es) = lineLoop cap o' false (count + 1) es := by
  obtain ⟨s, l⟩ := e
  have hcons := lineLoop_cons (s := s) first count es h.pos hin
  dsimp only at hcons he hnum hin
  rw [h.sep] at hcons
  have hhead := length_header_le hnum l.tsMs
  have hlong := he.length
  have hsep := h.pos_eq
  rw [need] at hin
  rw [escapeLoop_noEscape he.noEscape (by omega), if_neg (by omega)] at hcons
  have hnext := h.next (readsString_escaped l.msg.bytes)
    (by rw [escaped_noEscape he.noEscape]; exact l.msg.noNul) (s, l)
  rw [escaped_noEscape he.noEscape] at hnext
  refine ⟨_, ?_, hcons⟩
  rw [shown, lineText, escaped_noEscape he.noEscape]
  exact hnext

/-- The loop over printable lines prints a first part of them, and at least one if the array
takes the longest. -/
theorem lineLoop_printable (h : AtLine ds o first count)
    (hes : ∀ e ∈ es, Printable e.2.msg.bytes ∧ e.1 < 2 ^ 32) :
    ∃ k first', k ≤ es.length ∧
      AtLine (ds ++ (es.take k).map shown) (lineLoop cap o first count es).1 first'
        (lineLoop cap o first count es).2 ∧
      (es ≠ [] → o.pos + 434 < cap → 0 < k) := by
  induction es generalizing ds o first count with
  | nil => exact ⟨0, first, le_rfl, by simpa [lineLoop] using h, fun hne => absurd rfl hne⟩
  | cons e es ih =>
    obtain ⟨hprintable, hnum⟩ := hes e List.mem_cons_self
    by_cases hin : o.pos + need e.2 < cap
    · obtain ⟨o', hnext, hloop⟩ := lineLoop_printable_cons h hprintable hnum hin es
      have hrest : ∀ e' ∈ es, Printable e'.2.msg.bytes ∧ e'.1 < 2 ^ 32 :=
        fun e' he' => hes e' (List.mem_cons_of_mem e he')
      obtain ⟨k, first', hk, hat, -⟩ := ih hnext hrest
      refine ⟨k + 1, first', Nat.succ_le_succ hk, ?_, fun _ _ => Nat.succ_pos k⟩
      rw [hloop, List.take_succ_cons, List.map_cons]
      rwa [List.append_assoc] at hat
    · refine ⟨0, first, Nat.zero_le _, ?_, ?_⟩
      · obtain ⟨s, l⟩ := e
        rw [lineLoop, if_pos (Nat.le_of_not_lt hin)]
        simpa using h
      · intro _ hroom
        have hfits := e.2.msg.fits
        rw [need] at hin
        omega

end Printing

/-! ## One reply -/

/-- The reply shows a run of the log from `since` on, or from the horizon. -/
structure Answers (N : Nat) (log : List Line) (since : Nat) (r : Reply)
    (batch : List (Nat × Line)) : Prop where
  isBatch : IsBatch N log since batch
  text : r.text = some (printLines batch)
  count : r.count = batch.length
  head : r.head = log.length
  oldest : r.oldest = log.length - N
  progress : since < log.length → batch ≠ []

/-- The ring holds the end of the log. -/
structure LogBuffer.Holds {N : Nat} [NeZero N] (b : LogBuffer N) (log : List Line) : Prop where
  retains : Retains b.lines log
  head : b.headSeq.toNat = log.length
  mtx : b.mtx = true

section Replies

variable {N : Nat} [NeZero N] {b : LogBuffer N} {log : List Line} {cap : Nat}

theorem getSince_answers (h : b.Holds log) (hlog : ∀ l ∈ log, Printable l.msg.bytes)
    (since : UInt32) (hcap : 2048 ≤ cap) :
    ∃ batch, Answers N log since.toNat (getSince b since cap) batch := by
  have hsince : b.since since =
      window b.lines (max since.toNat (log.length - N)) log.length := by
    rw [LogBuffer.since, LogBuffer.oldest, h.head]
  have hes : ∀ e ∈ b.since since, Printable e.2.msg.bytes ∧ e.1 < 2 ^ 32 := by
    intro e he
    have hbatch := h.retains.isBatch since.toNat (b.since since).length
    rw [← hsince, List.take_length] at hbatch
    have hget := hbatch.entries e he
    have hlt := (List.getElem?_eq_some_iff.1 hget).1
    refine ⟨hlog _ (List.mem_of_getElem? hget), ?_⟩
    rw [← h.head] at hlt
    exact Nat.lt_trans hlt b.headSeq.toNat_lt
  obtain ⟨k, first, hk, hat, hpos⟩ := lineLoop_printable (o := ⟨[], 0⟩) atLine_start hes
  have hbatch : IsBatch N log since.toNat ((b.since since).take k) := by
    rw [hsince]
    exact h.retains.isBatch since.toNat k
  refine ⟨(b.since since).take k, hbatch, ?_, ?_, ?_, ?_, ?_⟩
  · rw [getSince_eq h.mtx (by omega), hat.text, List.nil_append, List.map_map]
    rfl
  · rw [getSince_eq h.mtx (by omega), hat.count, List.nil_append, List.length_map]
  · rw [getSince_eq h.mtx (by omega), h.head]
  · rw [getSince_eq h.mtx (by omega), LogBuffer.oldest, h.head]
  · intro hlt
    have hlen : (b.since since).length = log.length - max since.toNat (log.length - N) := by
      rw [hsince, length_window]
    have hN : 0 < N := Nat.pos_of_ne_zero (NeZero.ne N)
    have hne : b.since since ≠ [] := by
      intro hnil
      rw [hnil, List.length_nil] at hlen
      omega
    have hk := hpos hne (Nat.lt_of_lt_of_le (by decide) hcap)
    rw [ne_eq, List.take_eq_nil_iff, not_or]
    exact ⟨Nat.ne_of_gt hk, hne⟩

/-- What `h_log` sends. -/
theorem hLog_answers (h : b.Holds log) (hlog : ∀ l ∈ log, Printable l.msg.bytes)
    (since : UInt32) : ∃ batch, IsBatch N log since.toNat batch ∧
      (since.toNat < log.length → batch ≠ []) ∧ hLog b (some since) = printObject
        [(asciiBytes "head", decimal log.length), (asciiBytes "oldest", decimal (log.length - N)),
          (asciiBytes "count", decimal batch.length),
          (asciiBytes "lines", 91 :: printLines batch ++ [93])] := by
  have hcap : 2048 ≤ 7000 := by decide
  obtain ⟨batch, hans⟩ := getSince_answers h hlog since hcap
  refine ⟨batch, hans.isBatch, hans.progress, ?_⟩
  simp only [hLog, Option.getD_some, hans.text, hans.count, hans.head, hans.oldest]

end Replies

/-! ## Reading a reply -/

theorem lineValue_inj {e e' : Nat × Line}
    (h : lineValue e e.2.msg.bytes = lineValue e' e'.2.msg.bytes) : e = e' := by
  obtain ⟨s, ts, msg⟩ := e
  obtain ⟨s', ts', msg'⟩ := e'
  simp only [lineValue, Value.obj.injEq, List.cons.injEq, Prod.mk.injEq, true_and, and_true,
    Value.num.injEq, Value.str.injEq] at h
  obtain ⟨hs, hts, hmsg⟩ := h
  have hmsg' : msg = msg' := by
    cases msg
    cases msg'
    cases hmsg
    rfl
  rw [decimal_inj hs, UInt32.toNat_inj.1 (decimal_inj hts), hmsg']

/-- A reply is the JSON of one batch only. -/
theorem printLines_inj {batch batch' : List (Nat × Line)}
    (h : printLines batch = printLines batch') : batch = batch' := by
  have hparse : ∀ batch : List (Nat × Line), parse (91 :: printLines batch ++ [93]) =
      some (.arr (batch.map fun e => lineValue e e.2.msg.bytes)) := by
    intro batch
    have hlines : ∀ d ∈ batch.map shown, Reads d.1 d.2 := by
      intro d hd
      obtain ⟨e, -, rfl⟩ := List.mem_map.1 hd
      exact reads_lineAs (readsString_escaped e.2.msg.bytes) e
    have hreads := Reads.array hlines
    rw [List.map_map, List.map_map] at hreads
    exact hreads.parse
  have hvalues := (hparse batch).symm.trans (h ▸ hparse batch')
  rw [Option.some.injEq, Value.arr.injEq] at hvalues
  exact List.map_injective_iff.2 (fun _ _ => lineValue_inj) hvalues

/-! ## The log -/

/-- All that was logged: the lines with the markers between them, the lines dropped since
the last, and the lines dropped in all. -/
structure FullLog where
  log : List Line
  dropped : Nat
  lost : Nat

/-- A line is logged, after the marker of those dropped before it, or is dropped itself. -/
def FullLog.append (s : FullLog) (free : Bool) (ts ts' : UInt32) (msg : CStr 200) : FullLog :=
  if free then
    { s with
      log := s.log ++
        if s.dropped ≠ 0 then [⟨ts, marker (.ofNat s.dropped)⟩, ⟨ts', msg⟩] else [⟨ts', msg⟩]
      dropped := 0 }
  else { s with dropped := s.dropped + 1, lost := s.lost + 1 }

/-- The number of lines in all. -/
def FullLog.total (s : FullLog) : Nat := s.log.length + s.lost

/-- The ring, the log, and a reader of the ring. -/
structure LogState (N : Nat) where
  ring : LogBuffer N
  full : FullLog
  reader : Reader Line

/-- What happens to the ring. -/
inductive LogLabel where
  /-- A text is logged, at these times of the marker and of the line; `free` if the mutex is. -/
  | hook (free : Bool) (ts ts' : UInt32) (text : Bytes)
  /-- The reader asks with an array of `cap` bytes and reads these lines. -/
  | poll (cap : Nat) (batch : List (Nat × Line))

/-- What the ring prints for the reader. -/
def LogState.polled {N : Nat} [NeZero N] (s : LogState N) (cap : Nat) : Reply :=
  getSince s.ring (.ofNat s.reader.next) cap

/-- Texts are logged and the reader polls, in any order. -/
def logSystem (N : Nat) [NeZero N] : Machine (LogState N) LogLabel where
  step s
    | .hook free ts ts' text => some { s with
        ring := logHook s.ring free ts ts' text
        full := (hookMsg text).elim s.full (s.full.append free ts ts') }
    | .poll cap batch =>
      if (s.polled cap).text = some (printLines batch) then
        some { s with reader := s.reader.take batch }
      else none

/-- What is logged is printable, and an array is not too small. -/
def PrintableRun {N : Nat} (_ : LogState N) : LogLabel → Prop
  | .hook _ _ _ text => ∀ msg ∈ hookMsg text, Printable msg.bytes
  | .poll cap _ => 2048 ≤ cap

instance {N : Nat} (s : LogState N) : DecidablePred (PrintableRun s) := fun l => by
  unfold PrintableRun
  split <;> infer_instance

/-- After `log_buffer_init`; the reader first asks for `first`. -/
def LogState.start (N first : Nat) : LogState N := ⟨.init N, ⟨[], 0, 0⟩, ⟨first, []⟩⟩

/-- The ring holds the end of the log and the number of dropped lines, and the reader has
followed. -/
structure Refines {N : Nat} [NeZero N] (first : Nat) (s : LogState N) : Prop where
  holds : s.ring.Holds s.full.log
  dropped : s.ring.droppedPending.toNat = s.full.dropped
  dropped_le : s.full.dropped ≤ s.full.lost
  printable : ∀ l ∈ s.full.log, Printable l.msg.bytes
  follows : Follows N first s.full.log s.reader
  next_le : s.reader.next ≤ max first s.full.log.length

theorem noEscape_marker_tail :
    ∀ c ∈ asciiBytes " log lines dropped (mutex contention)>", NoEscape c := by
  decide

theorem noEscape_of_isDigit {c : UInt8} (h : isDigit c = true) : NoEscape c := by
  simp only [isDigit, Bool.and_eq_true, decide_eq_true_eq, UInt8.le_iff_toNat_le] at h
  simp only [NoEscape, ne_eq, ← UInt8.toNat_inj, UInt8.lt_iff_toNat_lt, quote, backslash]
  simp at h ⊢
  omega

theorem printable_marker (dropped : UInt32) : Printable (marker dropped).bytes := by
  refine ⟨?_, ?_⟩
  · change 12 ≤ (markerText dropped).length
    rw [length_markerText]
    omega
  · change ∀ c ∈ markerText dropped, NoEscape c
    intro c hc
    rw [markerText, List.mem_cons, List.mem_append] at hc
    rcases hc with rfl | hnum | htail
    · decide
    · exact noEscape_of_isDigit (isDigit_decimal c hnum)
    · exact noEscape_marker_tail c htail

section Runs

variable {N first : Nat} [NeZero N] {b : LogBuffer N} {log : List Line} {s t : LogState N}
  {l : LogLabel}

theorem LogBuffer.Holds.put (h : b.Holds log) (line : Line) (hlt : log.length + 1 < 2 ^ 32) :
    (b.put line).Holds (log ++ [line]) where
  retains := by
    change Retains (b.lines.put b.headSeq.toNat line) (log ++ [line])
    rw [h.head]
    exact h.retains.put line
  head := by
    change (b.headSeq + 1).toNat = (log ++ [line]).length
    rw [UInt32.toNat_add, h.head, List.length_append, List.length_singleton]
    exact Nat.mod_eq_of_lt hlt
  mtx := h.mtx

/-- Nothing is taken from the log. -/
theorem total_le_step (hs : (logSystem N).step s l = some t) : s.full.total ≤ t.full.total := by
  cases l with
  | hook free ts ts' text =>
    cases hs
    cases hookMsg text with
    | none => exact le_rfl
    | some msg =>
      cases free with
      | false => exact Nat.le_succ _
      | true =>
        simp only [FullLog.total, Option.elim_some, FullLog.append, if_true, List.length_append]
        omega
  | poll cap batch =>
    simp only [logSystem] at hs
    split at hs
    · cases hs
      exact le_rfl
    · cases hs

theorem refines_start (N first : Nat) [NeZero N] : Refines first (.start N first) where
  holds := ⟨retains_nil _, rfl, rfl⟩
  dropped := rfl
  dropped_le := le_rfl
  printable _ hl := absurd hl List.not_mem_nil
  follows := follows_start N first []
  next_le := Nat.le_max_left _ _

/-- A log that has grown by `more`, with the ring that holds it. -/
theorem Refines.grow (h : Refines first s) {more : List Line} (hring : b.Holds (s.full.log ++ more))
    (hdropped : b.droppedPending = 0) (hmore : ∀ l ∈ more, Printable l.msg.bytes) :
    Refines first ⟨b, ⟨s.full.log ++ more, 0, s.full.lost⟩, s.reader⟩ where
  holds := hring
  dropped := by rw [hdropped]; rfl
  dropped_le := Nat.zero_le _
  printable l hl := (List.mem_append.1 hl).elim (h.printable l) (hmore l)
  follows := h.follows.append more
  next_le := by
    have hle := h.next_le
    change s.reader.next ≤ max first (s.full.log ++ more).length
    rw [List.length_append]
    omega

theorem refines_hook (h : Refines first s) {msg : CStr 200} (hmsg : Printable msg.bytes)
    {free : Bool} {ts ts' : UInt32} {text : Bytes} (htext : hookMsg text = some msg)
    (htotal : (s.full.append free ts ts' msg).total < 2 ^ 32) :
    Refines first
      ⟨logHook s.ring free ts ts' text, s.full.append free ts ts' msg, s.reader⟩ := by
  have hmtx := h.holds.mtx
  rw [logHook, htext]
  dsimp only
  cases free with
  | false =>
    have hle := h.dropped_le
    have hlost : s.full.lost + 1 < 2 ^ 32 := by
      simp only [FullLog.total, FullLog.append, Bool.false_eq_true, if_false] at htotal
      omega
    rw [if_neg (fun hfree => by cases hfree.2), if_pos hmtx]
    refine ⟨⟨h.holds.retains, h.holds.head, h.holds.mtx⟩, ?_, Nat.succ_le_succ hle, h.printable,
      h.follows, h.next_le⟩
    change (s.ring.droppedPending + 1).toNat = s.full.dropped + 1
    rw [UInt32.toNat_add, h.dropped]
    exact Nat.mod_eq_of_lt (Nat.lt_of_le_of_lt (Nat.succ_le_succ hle) hlost)
  | true =>
    simp only [FullLog.total, FullLog.append, if_true, List.length_append] at htotal
    rw [if_pos ⟨hmtx, rfl⟩, FullLog.append, if_pos rfl]
    have hpending : s.ring.droppedPending = .ofNat s.full.dropped := by
      rw [← h.dropped, UInt32.ofNat_toNat]
    by_cases hzero : s.full.dropped = 0
    · have hnone : s.ring.droppedPending = 0 := by rw [hpending, hzero]; rfl
      have hone : s.full.log.length + 1 < 2 ^ 32 := by
        simp only [hzero, ne_eq, not_true_eq_false, if_false, List.length_singleton] at htotal
        omega
      rw [if_neg (not_not_intro hnone), if_neg (not_not_intro hzero)]
      exact h.grow (h.holds.put _ hone) hnone (by simpa using hmsg)
    · have hsome : s.ring.droppedPending ≠ 0 := by
        intro hnone
        rw [hnone] at hpending
        have hdrop := h.dropped
        rw [hnone] at hdrop
        exact hzero hdrop.symm
      have htwo : s.full.log.length + 1 + 1 < 2 ^ 32 := by
        simp only [hzero, ne_eq, not_false_eq_true, if_true, List.length_cons,
          List.length_nil] at htotal
        omega
      rw [if_pos hsome, if_pos hzero, hpending]
      have hcleared : LogBuffer.Holds { s.ring with droppedPending := 0 } s.full.log :=
        ⟨h.holds.retains, h.holds.head, h.holds.mtx⟩
      have hfirst := hcleared.put ⟨ts, marker (.ofNat s.full.dropped)⟩ (by omega)
      have hboth := hfirst.put ⟨ts', msg⟩
        (by rw [List.length_append, List.length_singleton]; exact htwo)
      rw [List.append_assoc] at hboth
      refine h.grow hboth rfl ?_
      intro line hline
      rcases List.mem_cons.1 hline with rfl | hlast
      · exact printable_marker _
      · rw [List.mem_singleton.1 hlast]
        exact hmsg

theorem refines_poll (h : Refines first s) (hfirst : first < 2 ^ 32)
    (htotal : s.full.total < 2 ^ 32) {cap : Nat} (hcap : 2048 ≤ cap) {batch : List (Nat × Line)}
    (htext : (s.polled cap).text = some (printLines batch)) :
    Refines first { s with reader := s.reader.take batch } := by
  have hle := h.next_le
  have hnext : (UInt32.ofNat s.reader.next).toNat = s.reader.next := by
    rw [FullLog.total] at htotal
    have hlt : s.reader.next < 2 ^ 32 := by omega
    exact UInt32.toNat_ofNat_of_lt' hlt
  obtain ⟨batch', hans⟩ := getSince_answers h.holds h.printable (.ofNat s.reader.next) hcap
  rw [hnext] at hans
  -- what the reader reads is what was printed
  have hsame : batch = batch' :=
    printLines_inj (Option.some.inj (htext.symm.trans hans.text))
  subst hsame
  refine ⟨h.holds, h.dropped, h.dropped_le, h.printable, h.follows.poll hans.isBatch, ?_⟩
  change (s.reader.take batch).next ≤ max first s.full.log.length
  rw [hans.isBatch.next_take]
  split
  · exact hle
  · next hne =>
    -- the last line of the batch is in the log
    have hpos := List.length_pos_iff.2 hne
    have hlast := hans.isBatch.exists_mem
      (Nat.le_sub_one_of_lt (Nat.lt_add_of_pos_right hpos)) (by omega)
    obtain ⟨e', he', hnum⟩ := List.mem_map.1 hlast
    have hget := (List.getElem?_eq_some_iff.1 (hans.isBatch.entries e' he')).1
    omega

theorem refines_step (h : Refines first s) (hfirst : first < 2 ^ 32) (hok : PrintableRun s l)
    (hs : (logSystem N).step s l = some t) (htotal : t.full.total < 2 ^ 32) :
    Refines first t := by
  cases l with
  | hook free ts ts' text =>
    cases hs
    cases htext : hookMsg text with
    | none => simpa [logHook, htext] using h
    | some msg =>
      rw [htext] at htotal
      exact refines_hook h (hok msg htext) htext htotal
  | poll cap batch =>
    simp only [logSystem] at hs
    split at hs
    · next htext =>
      cases hs
      exact refines_poll h hfirst htotal hok htext
    · cases hs

/-- **The ring refines an unbounded log.** In every run of fewer than `2 ^ 32` printable lines,
dropped ones included, and of polls with arrays of 2048 bytes or more: whatever is asked for,
the reply is a run of the log from there or from the horizon, in the lines' own numbers, times
and texts, and it is not empty if there is such a line; and the reader has seen every line from
`first` up to the one it asks for next that was not overwritten, once and in order. -/
theorem ring_refines_log (hfirst : first < 2 ^ 32)
    (h : (logSystem N).Reaches PrintableRun (.start N first) s) (htotal : s.full.total < 2 ^ 32) :
    (∀ (since : UInt32) (cap : Nat), 2048 ≤ cap →
      ∃ batch, Answers N s.full.log since.toNat (getSince s.ring since cap) batch) ∧
    Follows N first s.full.log s.reader := by
  have hinv : s.full.total < 2 ^ 32 → Refines first s := by
    refine Machine.Reaches.invariant (I := fun s => s.full.total < 2 ^ 32 → Refines first s) h
      (fun _ => refines_start N first) ?_
    intro s l t hs hok hstep ht
    have hbefore := Nat.lt_of_le_of_lt (total_le_step hstep) ht
    exact refines_step (hs hbefore) hfirst hok hstep ht
  have hrefines := hinv htotal
  exact ⟨fun since cap hcap =>
    getSince_answers hrefines.holds hrefines.printable since hcap, hrefines.follows⟩

end Runs

/-- A line, a line that is dropped, a line after its marker, and a poll. -/
theorem ring_refines_log_marker : ∃ s : LogState lbMaxLines, s.reader.next = 3 ∧
    Follows lbMaxLines 0 s.full.log s.reader := by
  obtain ⟨s, hrun, htotal, hnext⟩ := Machine.exists_reaches_of_runIf (logSystem lbMaxLines)
    PrintableRun (fun s => s.full.total < 2 ^ 32 ∧ s.reader.next = 3)
    (.start lbMaxLines 0)
    [.hook true 5 5 (asciiBytes "I (5) main: up"), .hook false 6 6 (asciiBytes "I (6) main: busy"),
      .hook true 7 8 (asciiBytes "I (8) main: free"),
      .poll 2048
        [(0, ⟨5, ⟨asciiBytes "I (5) main: up", by decide +kernel, by decide +kernel⟩⟩),
          (1, ⟨7, marker 1⟩),
          (2, ⟨8, ⟨asciiBytes "I (8) main: free", by decide +kernel, by decide +kernel⟩⟩)]]
    (by decide +kernel)
  exact ⟨s, hnext, (ring_refines_log (by decide) hrun htotal).2⟩

end Cdc2Net.Log

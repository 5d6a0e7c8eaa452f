import Cdc2Net.Log.Refinement

/-!
# The log on the page

`pollLog` of the page against the ring. The page keeps a cursor, `logSeq`, and the device
counts lines from 0 again after a restart; `pollLog` moves a cursor that lies before the
ring, but not one that lies behind its head. A poll shows a line appended since the poll before
exactly if there is one from the cursor on, the lines up to it go into the reply, and no line
of the reply is cut (`showsNew_iff`); for a whole run of appends, polls and restarts this is
`view_live_iff`.
-/

set_option autoImplicit false

namespace Cdc2Net.Log

open Cdc2Net.Lib.Json
open Cdc2Net.Lib.RingLog
open Cdc2Net.Source (asciiBytes)

/-! ## The page -/

/-- A member that is a number. -/
def numberOf (k : Bytes) (v : Value) : Option Nat :=
  match v.members k with
  | [.num lit] => some (digitsValue lit)
  | _ => none

/-- `r.lines`. -/
def linesOf (v : Value) : List Value :=
  match v.members (asciiBytes "lines") with
  | [.arr ls] => ls
  | _ => []

/-- The loop over the lines: `logSeq = l.seq + 1`. -/
def seqLoop (logSeq : Nat) (ls : List Value) : Nat :=
  ls.foldl (fun n l => (numberOf (asciiBytes "seq") l).elim n (· + 1)) logSeq

/-- `pollLog` on the body of the response: the new `logSeq` and the lines it shows. -/
def pollLog (logSeq : Nat) (body : Bytes) : Nat × List Value :=
  match parse body with
  -- `r.json()` throws
  | none => (logSeq, [])
  | some r =>
    if linesOf r ≠ [] then (seqLoop logSeq (linesOf r), linesOf r)
    else
      match numberOf (asciiBytes "oldest") r with
      | none => (logSeq, [])
      | some oldest => (if logSeq < oldest then oldest else logSeq, [])

/-- `strtoul` of the query, into 32 bits. -/
def sinceOf (logSeq : Nat) : UInt32 := .ofNat (min logSeq (2 ^ 32 - 1))

/-! ## The page and the device -/

/-- The lines that one `log_hook` puts into the ring. -/
def hookLines {N : Nat} (b : LogBuffer N) (free : Bool) (ts ts' : UInt32) (text : Bytes) :
    List Line :=
  match hookMsg text with
  | none => []
  | some msg =>
    if b.mtx ∧ free then
      if b.droppedPending ≠ 0 then [⟨ts, marker b.droppedPending⟩, ⟨ts', msg⟩] else [⟨ts', msg⟩]
    else []

/-- One line more on the lines since the counter was 0. -/
def note (log : List Line) (l : Line) : List Line :=
  if log.length + 1 = 2 ^ 32 then [] else log ++ [l]

/-- The device with its ring and the page with its cursor. `log` is the lines since the counter
was 0, `fresh` the number of those appended since the last poll. -/
structure View (N : Nat) where
  ring : LogBuffer N
  log : List Line
  fresh : Nat
  logSeq : Nat

/-- What happens to them. -/
inductive ViewAct where
  /-- `log_hook`. -/
  | hook (free : Bool) (ts ts' : UInt32) (text : Bytes)
  /-- The page polls. -/
  | poll
  /-- The device restarts. -/
  | restart
  deriving DecidableEq

section View

variable {N : Nat} [NeZero N]

/-- What the page gets to see at a poll, and where its cursor is then. -/
def View.polled (v : View N) : Nat × List Value :=
  pollLog v.logSeq (hLog v.ring (some (sinceOf v.logSeq)))

/-- One of them happens. -/
def View.step (v : View N) : ViewAct → View N
  | .hook free ts ts' text =>
    { v with
      ring := logHook v.ring free ts ts' text
      log := (hookLines v.ring free ts ts' text).foldl note v.log
      fresh := v.fresh + (hookLines v.ring free ts ts' text).length }
  | .poll => { v with fresh := 0, logSeq := v.polled.1 }
  | .restart => { v with ring := .init N, log := [], fresh := 0 }

/-- The device has started and the page has been opened. -/
def View.start (N : Nat) : View N := ⟨.init N, [], 0, 0⟩

/-- A poll shows a line appended since the poll before. -/
def View.ShowsNew (v : View N) : Prop :=
  ∃ l ∈ v.polled.2, ∃ i line, v.log[i]? = some line ∧ v.log.length ≤ i + v.fresh ∧
    ShowsLine (i, line) l

/-- The lines that a poll asks for. -/
def View.asked (v : View N) : List (Nat × Line) := v.ring.since (sinceOf v.logSeq)

/-- From the cursor on there is a line appended since the poll before, the estimate lets the
lines up to it into the array of `h_log`, and no line that is let in is cut. -/
def View.Unblocked (v : View N) : Prop :=
  Fits 7000 v.asked ∧ ∃ k e, v.asked[k]? = some e ∧ v.log.length ≤ e.1 + v.fresh ∧
    ∀ j e', j ≤ k → v.asked[j]? = some e' → offset (v.asked.take j) - 1 + need e'.2 < 7000

/-- Each poll of a run that finds a new line in the ring shows one. -/
def Live : View N → List ViewAct → Prop
  | _, [] => True
  | v, a :: as => (a = .poll → 0 < v.fresh → v.ShowsNew) ∧ Live (v.step a) as

/-- Each poll of a run that finds a new line in the ring is unblocked. -/
def AllUnblocked : View N → List ViewAct → Prop
  | _, [] => True
  | v, a :: as => (a = .poll → 0 < v.fresh → v.Unblocked) ∧ AllUnblocked (v.step a) as

variable {b : LogBuffer N} {log : List Line} {cap start : Nat} {es : List (Nat × Line)}

/-- The ring holds the end of what was appended since the counter was 0. -/
theorem LogBuffer.Holds.note (h : b.Holds log) (l : Line) : (b.put l).Holds (note log l) := by
  have hlt : log.length < 2 ^ 32 := h.head ▸ b.headSeq.toNat_lt
  rw [Log.note]
  split
  · next hwrap =>
    -- the counter is 0 again
    refine ⟨retains_nil _, ?_, h.mtx⟩
    change (b.headSeq + 1).toNat = 0
    rw [UInt32.toNat_add, h.head]
    change (log.length + 1) % 2 ^ 32 = 0
    rw [hwrap]
    exact Nat.mod_self _
  · exact h.put l (by omega)

theorem logHook_holds (h : b.Holds log) (free : Bool) (ts ts' : UInt32) (text : Bytes) :
    (logHook b free ts ts' text).Holds ((hookLines b free ts ts' text).foldl Log.note log) := by
  rw [logHook, hookLines]
  cases hookMsg text with
  | none => exact h
  | some msg =>
    dsimp only
    split
    · split
      · have hcleared : LogBuffer.Holds { b with droppedPending := 0 } log :=
          ⟨h.retains, h.head, h.mtx⟩
        exact (hcleared.note _).note _
      · exact h.note _
    · split
      · exact ⟨h.retains, h.head, h.mtx⟩
      · exact h

theorem view_holds_step {v : View N} (h : v.ring.Holds v.log) (a : ViewAct) :
    (v.step a).ring.Holds (v.step a).log := by
  cases a with
  | hook free ts ts' text => exact logHook_holds h free ts ts' text
  | poll => exact h
  | restart => exact ⟨retains_nil _, rfl, rfl⟩

/-- How many lines the estimate lets in. -/
theorem lt_admitted_iff {k : Nat} : k < admitted cap start es ↔
    k < es.length ∧ ∀ j e, j ≤ k → es[j]? = some e →
      start + offset (es.take j) - 1 + need e.2 < cap := by
  induction es generalizing start k with
  | nil => simp [admitted]
  | cons e es ih =>
    have hoffset : ∀ j, start + offset ((e :: es).take (j + 1)) =
        start + (lineText e).length + 1 + offset (es.take j) := by
      intro j
      rw [List.take_succ_cons, offset, offset, List.map_cons, List.sum_cons]
      omega
    rw [admitted]
    split
    · next hin =>
      cases k with
      | zero =>
        refine iff_of_true (Nat.succ_pos _) ⟨Nat.succ_pos _, ?_⟩
        intro j e' hj hget
        obtain rfl := Nat.le_zero.1 hj
        cases hget
        exact hin
      | succ k =>
        rw [Nat.succ_lt_succ_iff, ih, List.length_cons, Nat.succ_lt_succ_iff]
        refine and_congr_right fun _ => ?_
        constructor
        · intro h j e' hj hget
          cases j with
          | zero =>
            cases hget
            exact hin
          | succ j =>
            rw [hoffset]
            exact h j e' (Nat.le_of_succ_le_succ hj) hget
        · intro h j e' hj hget
          have hnext := h (j + 1) e' (Nat.succ_le_succ hj) hget
          rwa [hoffset] at hnext
    · next hout =>
      refine iff_of_false (Nat.not_lt_zero k) ?_
      rintro ⟨-, hall⟩
      exact hout (hall 0 e (Nat.zero_le k) rfl)

/-! ## The reply on the page -/

theorem plain_lines : ∀ c ∈ asciiBytes "lines", isPlain c = true := by decide

/-- The members of the reply before the lines. -/
def replyFields (head oldest count : Nat) : List Field :=
  [(asciiBytes "head", head), (asciiBytes "oldest", oldest), (asciiBytes "count", count)].map
    fun m => ⟨quote :: m.1 ++ [quote, colon], decimal m.2, m.1, .num (decimal m.2)⟩

theorem replyFields_sound (head oldest count : Nat) :
    ∀ f ∈ replyFields head oldest count, f.Sound := by
  have hhead : ∀ c ∈ asciiBytes "head", isPlain c = true := by decide
  have holdest : ∀ c ∈ asciiBytes "oldest", isPlain c = true := by decide
  have hcount : ∀ c ∈ asciiBytes "count", isPlain c = true := by decide
  intro f hf
  simp only [replyFields, List.map_cons, List.map_nil, List.mem_cons, List.not_mem_nil,
    or_false] at hf
  rcases hf with rfl | rfl | rfl
  · exact ⟨.plain hhead, reads_decimal head⟩
  · exact ⟨.plain holdest, reads_decimal oldest⟩
  · exact ⟨.plain hcount, reads_decimal count⟩

/-- What `h_log` sends, up to the text of the lines, and what follows it. -/
theorem hLog_eq (h : b.Holds log) (since : UInt32) : hLog b (some since) =
    123 :: ((replyFields log.length b.oldest (getSince b since 7000).count).flatMap
        (fun f => f.print ++ [comma]) ++ (quote :: asciiBytes "lines" ++ [quote, colon] ++ [91])) ++
      (lineLoop 7000 ⟨[], 0⟩ true 0 (b.since since)).1.text ++ [93, 125] := by
  have hget := getSince_eq h.mtx (by decide : 0 < 7000) since
  simp only [hLog, Option.getD_some, hget, h.head, printObject, replyFields, Field.print,
    List.map_cons, List.map_nil, List.intercalate_cons_cons, List.intercalate_singleton,
    List.flatMap_cons, List.flatMap_nil, List.append_assoc, List.cons_append, List.nil_append,
    List.append_nil]

/-- A reply with a line that is cut is no JSON. -/
theorem parse_hLog_cut (h : b.Holds log) {since : UInt32} (hfits : ¬ Fits 7000 (b.since since)) :
    parse (hLog b (some since)) = none := by
  obtain ⟨ds, u, hu, hds, hdangles⟩ := lineLoop_dangles atLine_start hfits
  have hplain : ∀ c ∈ ([93, 125] : Bytes), isPlain c = true := by decide
  rw [hLog_eq h, hu]
  refine not_parse_dangles _ _ [.mem ([] ++ (replyFields log.length b.oldest
    (getSince b since 7000).count).map Field.member) (asciiBytes "lines")] ?_ ?_ hplain hds
    hdangles
  · -- the head of the reply opens the array
    intro rest
    have hrun := run_open_value (replyFields_sound log.length b.oldest
      (getSince b since 7000).count) (ReadsName.plain plain_lines) [] true [] (91 :: rest)
    rw [List.cons_append, run_cons, List.append_assoc, List.append_assoc]
    exact hrun
  · change List.countP closes [93, 125] < 1 + 2
    decide

/-- A reply without one is read as the lines that were let in. -/
theorem parse_hLog_fits (h : b.Holds log) {since : UInt32} (hfits : Fits 7000 (b.since since)) :
    ∃ r, parse (hLog b (some since)) = some r ∧ List.Forall₂ ShowsLine
      ((b.since since).take (admitted 7000 0 (b.since since))) (linesOf r) := by
  obtain ⟨ds, text, heq, htext, -, -, hreads, -, hall⟩ :=
    getSince_fits h.mtx (by decide : 0 < 7000) hfits
  have hmembers : ReadsMembers
      [(asciiBytes "head", decimal b.headSeq.toNat), (asciiBytes "oldest", decimal b.oldest),
        (asciiBytes "count", decimal (admitted 7000 0 (b.since since))),
        (asciiBytes "lines", 91 :: text ++ [93])]
      [(asciiBytes "head", .num (decimal b.headSeq.toNat)),
        (asciiBytes "oldest", .num (decimal b.oldest)),
        (asciiBytes "count", .num (decimal (admitted 7000 0 (b.since since)))),
        (asciiBytes "lines", .arr (ds.map Prod.snd))] := by
    have hhead : ∀ c ∈ asciiBytes "head", isPlain c = true := by decide
    have holdest : ∀ c ∈ asciiBytes "oldest", isPlain c = true := by decide
    have hcount : ∀ c ∈ asciiBytes "count", isPlain c = true := by decide
    refine .cons ⟨hhead, rfl, reads_decimal _⟩ (.cons ⟨holdest, rfl, reads_decimal _⟩
      (.cons ⟨hcount, rfl, reads_decimal _⟩ (.cons ⟨plain_lines, rfl, ?_⟩ .nil)))
    rw [htext]
    exact .array hreads
  have hlines : ∀ v₁ v₂ v₃ v₄ : Value, (Value.obj [(asciiBytes "head", v₁),
      (asciiBytes "oldest", v₂), (asciiBytes "count", v₃), (asciiBytes "lines", v₄)]).members
        (asciiBytes "lines") = [v₄] := by
    intro v₁ v₂ v₃ v₄
    refine members_of_mem ?_ (by simp)
    change [asciiBytes "head", asciiBytes "oldest", asciiBytes "count", asciiBytes "lines"].Nodup
    decide
  refine ⟨_, (congrArg parse ?_).trans (Reads.printObject hmembers).parse, ?_⟩
  · rw [hLog, Option.getD_some, heq]
    rfl
  · rw [linesOf, hlines]
    exact List.forall₂_map_right_iff.2 hall

/-! ## Polls and runs -/

theorem pollLog_shown {n : Nat} {body : Bytes} {r : Value} (h : parse body = some r) :
    (pollLog n body).2 = linesOf r := by
  simp only [pollLog, h]
  split
  · rfl
  · next hnil =>
    rw [not_not.1 hnil]
    split <;> rfl

theorem exists_of_forall₂ {α β : Type} {R : α → β → Prop} {as : List α} {bs : List β}
    (h : List.Forall₂ R as bs) {a : α} (ha : a ∈ as) : ∃ b ∈ bs, R a b := by
  induction h with
  | nil => cases ha
  | @cons a' b' as bs hab _ ih =>
    rcases List.mem_cons.1 ha with rfl | hrest
    · exact ⟨b', List.mem_cons_self, hab⟩
    · obtain ⟨b, hb, hr⟩ := ih hrest
      exact ⟨b, List.mem_cons_of_mem b' hb, hr⟩

/-- A value shows lines of one number only. -/
theorem showsLine_number {e e' : Nat × Line} {l : Value} (h : ShowsLine e l)
    (h' : ShowsLine e' l) : e.1 = e'.1 := by
  obtain ⟨p, -, rfl⟩ := h
  obtain ⟨p', -, heq⟩ := h'
  simp only [lineValue, Value.obj.injEq, List.cons.injEq, Prod.mk.injEq, true_and,
    Value.num.injEq] at heq
  exact decimal_inj heq.1

variable {v : View N}

/-- The lines that are asked for are lines of the log. -/
theorem asked_entries (h : v.ring.Holds v.log) {e : Nat × Line} (he : e ∈ v.asked) :
    v.log[e.1]? = some e.2 := by
  have hbatch := h.retains.isBatch (sinceOf v.logSeq).toNat v.asked.length
  rw [← h.head] at hbatch
  have hall : IsBatch N v.log (sinceOf v.logSeq).toNat v.asked := by
    rwa [View.asked, LogBuffer.since, LogBuffer.oldest, h.head, List.take_length] at *
  exact hall.entries e he

/-- What a poll shows: nothing of a reply with a line that is cut, else the lines that were
let in. -/
theorem polled_shown (h : v.ring.Holds v.log) :
    (¬ Fits 7000 v.asked ∧ v.polled.2 = []) ∨
      (Fits 7000 v.asked ∧
        List.Forall₂ ShowsLine (v.asked.take (admitted 7000 0 v.asked)) v.polled.2) := by
  by_cases hfits : Fits 7000 v.asked
  · obtain ⟨r, hparse, hall⟩ := parse_hLog_fits h hfits
    rw [View.polled, pollLog_shown hparse]
    exact Or.inr ⟨hfits, hall⟩
  · refine Or.inl ⟨hfits, ?_⟩
    rw [View.polled, pollLog, parse_hLog_cut h hfits]

/-- A poll shows a new line exactly if it is unblocked. -/
theorem showsNew_iff (h : v.ring.Holds v.log) : v.ShowsNew ↔ v.Unblocked := by
  rcases polled_shown h with ⟨hcut, hnone⟩ | ⟨hfits, hall⟩
  · refine iff_of_false ?_ fun hun => hcut hun.1
    rintro ⟨l, hl, -⟩
    rw [hnone] at hl
    cases hl
  · constructor
    · rintro ⟨l, hl, i, line, -, hnew, hshows⟩
      obtain ⟨e, he, hr⟩ := exists_of_forall₂ hall.flip hl
      have hnum : e.1 = i := showsLine_number hr hshows
      obtain ⟨k, hk, hget⟩ := List.getElem_of_mem he
      rw [List.length_take] at hk
      rw [List.getElem_take] at hget
      obtain ⟨-, hroom⟩ := lt_admitted_iff.1 (Nat.lt_of_lt_of_le hk (Nat.min_le_left _ _))
      have hsome := List.getElem?_eq_some_iff.2 ⟨Nat.lt_of_lt_of_le hk (Nat.min_le_right _ _), hget⟩
      refine ⟨hfits, k, e, hsome, hnum ▸ hnew, ?_⟩
      intro j e' hj hget'
      have hin := hroom j e' hj hget'
      rwa [Nat.zero_add] at hin
    · rintro ⟨-, k, e, hget, hnew, hroom⟩
      have hlt : k < admitted 7000 0 v.asked := by
        refine lt_admitted_iff.2 ⟨(List.getElem?_eq_some_iff.1 hget).1, ?_⟩
        intro j e' hj hget'
        rw [Nat.zero_add]
        exact hroom j e' hj hget'
      have hmem : e ∈ v.asked.take (admitted 7000 0 v.asked) :=
        List.mem_of_getElem? ((List.getElem?_take_of_lt hlt).trans hget)
      obtain ⟨l, hl, hshows⟩ := exists_of_forall₂ hall hmem
      exact ⟨l, hl, e.1, e.2, asked_entries h (List.mem_of_getElem? hget), hnew, hshows⟩

/-- A run from a state whose ring holds the log. -/
theorem live_iff_allUnblocked (h : v.ring.Holds v.log) (acts : List ViewAct) :
    Live v acts ↔ AllUnblocked v acts := by
  induction acts generalizing v with
  | nil => exact Iff.rfl
  | cons a acts ih =>
    rw [Live, AllUnblocked, ih (view_holds_step h a), showsNew_iff h]

/-- **When the log view gets stuck.** In a run of appends, polls and restarts, each poll that
finds a new line in the ring shows one if and only if each such poll is unblocked. -/
theorem view_live_iff (N : Nat) [NeZero N] (acts : List ViewAct) :
    Live (View.start N) acts ↔ AllUnblocked (View.start N) acts :=
  live_iff_allUnblocked ⟨retains_nil _, rfl, rfl⟩ acts

end View

theorem view_live_iff_up : Live (View.start lbMaxLines)
      [.hook true 5 5 (asciiBytes "I (5) main: up"), .poll] ↔
    AllUnblocked (View.start lbMaxLines)
      [.hook true 5 5 (asciiBytes "I (5) main: up"), .poll] :=
  view_live_iff lbMaxLines _

/-- A line, a poll, a restart, and a line that the page does not ask for. -/
theorem view_live_fails : ¬ ∀ acts : List ViewAct, Live (View.start lbMaxLines) acts := by
  intro hall
  have hlive := hall [.hook true 5 5 (asciiBytes "I (5) main: up"), .poll, .restart,
    .hook true 5 5 (asciiBytes "I (5) main: up"), .poll]
  obtain ⟨-, -, -, -, hlast, -⟩ := hlive
  obtain ⟨l, hl, -⟩ := hlast rfl (by decide +kernel)
  have hnone : ((((((View.start lbMaxLines).step
      (.hook true 5 5 (asciiBytes "I (5) main: up"))).step .poll).step .restart).step
        (.hook true 5 5 (asciiBytes "I (5) main: up"))).polled.2).length = 0 := by
    decide +kernel
  rw [List.length_eq_zero_iff.1 hnone] at hl
  cases hl

end Cdc2Net.Log

import Cdc2Net.Log.Buffer

/-!
# The JSON of the log

What `log_buffer_get_since` prints, for any content of the ring and any array. A line goes
into the array if its estimated size does, and the estimate is short for two kinds of lines:
one whose header is longer than 32 bytes allow, and one with a control byte, which takes six
bytes. Where it is short at the end of the array, an object is left open and the text is no
JSON (`not_parse_dangles`). `Fits` says that this does not happen, in terms of the lines
alone, and then the text is an array of complete lines (`getSince_wellFormed_iff`). Either way
the text ends inside the array (`getSince_text_lt`).
-/

set_option autoImplicit false

namespace Cdc2Net.Log

open Cdc2Net.Lib.Json
open Cdc2Net.Lib.RingLog
open Cdc2Net.Settings (CStr)
open Cdc2Net.Source (asciiBytes)
open Cdc2Net.Web (escapeChar escapeLoop readsString_escapeChar readsString_escapeLoop)

/-! ## One line -/

/-- A message as it stands in the text. -/
def escaped (m : Bytes) : Bytes := m.flatMap escapeChar

/-- The object of a line with `raw` for its message. -/
def lineAs (e : Nat × Line) (raw : Bytes) : Bytes := header e.1 e.2.tsMs ++ raw ++ [quote, 125]

/-- The object of a line with its whole message. -/
def lineText (e : Nat × Line) : Bytes := lineAs e (escaped e.2.msg.bytes)

/-- The value of the object of a line with `p` for its message. -/
def lineValue (e : Nat × Line) (p : Bytes) : Value :=
  .obj [(asciiBytes "seq", .num (decimal e.1)), (asciiBytes "ts", .num (decimal e.2.tsMs.toNat)),
    (asciiBytes "msg", .str p)]

/-- A value shows the line and a first part of its message. -/
def ShowsLine (e : Nat × Line) (v : Value) : Prop :=
  ∃ p, p <+: e.2.msg.bytes ∧ v = lineValue e p

section Line

variable {cap i s : Nat} {ts : UInt32} {m raw p : Bytes} {o : Out} {c : UInt8} {e : Nat × Line}

theorem seq_text : asciiBytes "\"seq\":" = quote :: asciiBytes "seq" ++ [quote, colon] := by
  decide

theorem ts_text :
    asciiBytes ",\"ts\":" = comma :: quote :: asciiBytes "ts" ++ [quote, colon] := by
  decide

theorem msg_text : asciiBytes ",\"msg\":\"" =
    comma :: quote :: asciiBytes "msg" ++ [quote, colon, quote] := by
  decide

theorem lineAs_eq (e : Nat × Line) (raw : Bytes) :
    lineAs e raw = printObject [(asciiBytes "seq", decimal e.1),
      (asciiBytes "ts", decimal e.2.tsMs.toNat), (asciiBytes "msg", quote :: raw ++ [quote])] := by
  simp only [lineAs, header, printObject, seq_text, ts_text, msg_text, List.map_cons, List.map_nil,
    List.intercalate_cons_cons, List.intercalate_singleton, List.append_assoc,
    List.cons_append, List.nil_append]

theorem plain_seq : ∀ b ∈ asciiBytes "seq", isPlain b = true := by decide

theorem plain_ts : ∀ b ∈ asciiBytes "ts", isPlain b = true := by decide

theorem plain_msg : ∀ b ∈ asciiBytes "msg", isPlain b = true := by decide

theorem reads_lineAs (h : ReadsString raw p) (e : Nat × Line) :
    Reads (lineAs e raw) (lineValue e p) := by
  rw [lineAs_eq]
  refine Reads.printObject (.cons ⟨plain_seq, rfl, reads_decimal _⟩
    (.cons ⟨plain_ts, rfl, reads_decimal _⟩ (.cons ⟨plain_msg, rfl, ?_⟩ .nil)))
  exact .string h

theorem readsString_escaped (m : Bytes) : ReadsString (escaped m) m := by
  induction m with
  | nil => exact .nil
  | cons c m ih => exact (readsString_escapeChar c).append ih

/-! ### The loop over a message -/

theorem length_escapeChar (c : UInt8) :
    (escapeChar c).length = if c = quote ∨ c = backslash then 2 else if c < 32 then 6 else 1 := by
  rw [escapeChar]
  split
  · rfl
  · split <;> rfl

theorem length_escapeChar_le (c : UInt8) : (escapeChar c).length ≤ 6 := by
  rw [length_escapeChar]
  split
  · omega
  · split <;> omega

/-- The loop prints what `json_escape` does. -/
theorem msgLoop_eq (ho : o.text.length = o.pos) (m : Bytes) :
    msgLoop cap o m =
      ⟨o.text ++ escapeLoop cap o.pos m, o.pos + (escapeLoop cap o.pos m).length⟩ := by
  induction m generalizing o with
  | nil => rw [msgLoop, escapeLoop, List.append_nil, List.length_nil, Nat.add_zero]
  | cons c m ih =>
    rw [msgLoop, escapeLoop]
    by_cases hroom : o.pos + 7 < cap
    · rw [if_pos hroom, if_pos hroom]
      have hemit : ∀ o' : Out, o'.text = o.text ++ escapeChar c →
          o'.pos = o.pos + (escapeChar c).length →
          msgLoop cap o' m = ⟨o.text ++ (escapeChar c ++
              escapeLoop cap (o.pos + (escapeChar c).length) m),
            o.pos + (escapeChar c ++ escapeLoop cap (o.pos + (escapeChar c).length) m).length⟩ := by
        intro o' htext hpos
        rw [ih (by rw [htext, hpos, List.length_append, ho]), htext, hpos, List.append_assoc,
          List.length_append, Nat.add_assoc]
      split
      · next hesc =>
        refine hemit _ ?_ ?_ <;> simp [Out.put, escapeChar, hesc]
      · next hesc =>
        split
        · next hctl =>
          -- the array takes all six bytes
          have hsix : (unitText c).length = 6 := rfl
          have htake : (unitText c).take (cap - o.pos - 1) = unitText c :=
            List.take_of_length_le (by omega)
          refine hemit _ ?_ ?_
          · rw [Out.print, htake, unitText, escapeChar, if_neg hesc, if_pos hctl]
          · rw [Out.print, unitText, escapeChar, if_neg hesc, if_pos hctl]
        · next hctl =>
          refine hemit _ ?_ ?_ <;> simp [Out.put, escapeChar, hesc, hctl]
    · rw [if_neg hroom, if_neg hroom, List.append_nil, List.length_nil, Nat.add_zero]

theorem msgLoop_full (h : cap ≤ o.pos + 7) (m : Bytes) : msgLoop cap o m = o := by
  cases m with
  | nil => rfl
  | cons c m => rw [msgLoop, if_neg (by omega)]

theorem escapeLoop_full (h : cap ≤ i + 7) (m : Bytes) : escapeLoop cap i m = [] := by
  cases m with
  | nil => rfl
  | cons c m => rw [escapeLoop, if_neg (by omega)]

/-- The loop stops at the end of the message or of the array. -/
theorem escapeLoop_stops (cap i : Nat) (m : Bytes) :
    escapeLoop cap i m = escaped m ∨ cap ≤ i + (escapeLoop cap i m).length + 7 := by
  induction m generalizing i with
  | nil => exact Or.inl rfl
  | cons c m ih =>
    rw [escapeLoop]
    split
    · rcases ih (i + (escapeChar c).length) with hall | hfull
      · refine Or.inl ?_
        rw [hall]
        rfl
      · refine Or.inr ?_
        rw [List.length_append]
        omega
    · refine Or.inr ?_
      rw [List.length_nil]
      omega

/-- The loop never takes the last byte but one of the array. -/
theorem escapeLoop_le (cap i : Nat) (m : Bytes) :
    i + (escapeLoop cap i m).length + 2 ≤ max (i + 2) cap := by
  induction m generalizing i with
  | nil => exact Nat.le_max_left _ _
  | cons c m ih =>
    rw [escapeLoop]
    split
    · have hrest := ih (i + (escapeChar c).length)
      have hsix := length_escapeChar_le c
      rw [List.length_append]
      omega
    · exact Nat.le_max_left _ _

theorem length_escapeLoop_le (cap i : Nat) (m : Bytes) :
    (escapeLoop cap i m).length ≤ (escaped m).length := by
  induction m generalizing i with
  | nil => exact le_rfl
  | cons c m ih =>
    rw [escapeLoop]
    split
    · have hrest := ih (i + (escapeChar c).length)
      rw [escaped, List.flatMap_cons, List.length_append, List.length_append]
      exact Nat.add_le_add_left hrest _
    · exact Nat.zero_le _

end Line

/-! ## The lines that go into the array -/

/-- Where the object after those of `es` starts. -/
def offset (es : List (Nat × Line)) : Nat := (es.map fun e => (lineText e).length + 1).sum

/-- The number of lines that the estimate lets into an array of `cap` bytes, if the object of
the first starts at `start`. -/
def admitted (cap : Nat) : (start : Nat) → List (Nat × Line) → Nat
  | _, [] => 0
  | start, e :: es =>
    if start - 1 + need e.2 < cap then
      admitted cap (start + (lineText e).length + 1) es + 1
    else 0

/-- The object of a line is closed before the end of the array: its header is, and no control
byte of its message is printed up to the last two bytes. -/
structure HasRoom (cap start : Nat) (e : Nat × Line) : Prop where
  header : start + (header e.1 e.2.tsMs).length + 2 < cap
  control : ∀ i c, e.2.msg.bytes[i]? = some c → c < 32 →
    start + (Log.header e.1 e.2.tsMs).length + (escaped (e.2.msg.bytes.take i)).length + 8 ≠ cap

/-- Every line that the estimate lets in has room. -/
def FitsFrom (cap start : Nat) (es : List (Nat × Line)) : Prop :=
  ∀ k e, k < admitted cap start es → es[k]? = some e →
    HasRoom cap (start + offset (es.take k)) e

/-- Every line that the estimate lets into the array has room in it. -/
def Fits (cap : Nat) (es : List (Nat × Line)) : Prop := FitsFrom cap 0 es

section Room

variable {cap start i : Nat} {e : Nat × Line} {es : List (Nat × Line)} {m : Bytes}

theorem fitsFrom_nil : FitsFrom cap start [] := by
  intro k e _ hget
  cases hget

theorem fitsFrom_cons : FitsFrom cap start (e :: es) ↔
    (start - 1 + need e.2 < cap →
      HasRoom cap start e ∧ FitsFrom cap (start + (lineText e).length + 1) es) := by
  have hoffset : ∀ k, start + offset ((e :: es).take (k + 1)) =
      start + (lineText e).length + 1 + offset (es.take k) := by
    intro k
    rw [List.take_succ_cons, offset, offset, List.map_cons, List.sum_cons]
    omega
  constructor
  · intro h hin
    have hcount : admitted cap start (e :: es) =
        admitted cap (start + (lineText e).length + 1) es + 1 := if_pos hin
    refine ⟨h 0 e (by omega) rfl, fun k e' hk hget => ?_⟩
    rw [← hoffset]
    exact h (k + 1) e' (by omega) hget
  · intro h k e' hk hget
    rw [admitted] at hk
    split at hk
    · next hin =>
      obtain ⟨hhead, htail⟩ := h hin
      cases k with
      | zero =>
        cases hget
        exact hhead
      | succ k =>
        rw [hoffset]
        exact htail k e' (by omega) hget
    · exact absurd hk (Nat.not_lt_zero k)

/-- From byte `i` on, the loop over a message leaves room for the end of the object unless a
control byte fills it. -/
theorem escapeLoop_room (cap i : Nat) (m : Bytes) :
    i + (escapeLoop cap i m).length + 2 < cap ↔
      i + 2 < cap ∧ ∀ j c, m[j]? = some c → c < 32 →
        i + (escaped (m.take j)).length + 8 ≠ cap := by
  induction m generalizing i with
  | nil => simp [escapeLoop]
  | cons c m ih =>
    have hcons : ∀ j, (escaped ((c :: m).take (j + 1))).length =
        (escapeChar c).length + (escaped (m.take j)).length := by
      intro j
      rw [List.take_succ_cons, escaped, List.flatMap_cons, List.length_append]
      rfl
    rw [escapeLoop]
    by_cases hroom : i + 7 < cap
    · rw [if_pos hroom, List.length_append, ← Nat.add_assoc, ih]
      have hsize := length_escapeChar c
      constructor
      · rintro ⟨hlt, hctl⟩
        refine ⟨by omega, fun j c' hget hc' => ?_⟩
        cases j with
        | zero =>
          rw [List.getElem?_cons_zero, Option.some.injEq] at hget
          subst hget
          rw [List.take_zero, escaped, List.flatMap_nil, List.length_nil]
          have hquote : ¬ (c = quote ∨ c = backslash) := by
            rintro (rfl | rfl) <;> exact absurd hc' (by decide)
          rw [if_neg hquote, if_pos hc'] at hsize
          omega
        | succ j =>
          rw [hcons, ← Nat.add_assoc]
          exact hctl j c' hget hc'
      · rintro ⟨hlt, hctl⟩
        refine ⟨?_, fun j c' hget hc' => ?_⟩
        · have hfirst := hctl 0 c rfl
          rw [List.take_zero, escaped, List.flatMap_nil, List.length_nil] at hfirst
          split at hsize
          · omega
          · split at hsize
            · next hc' =>
              have hne := hfirst hc'
              omega
            · omega
        · have hnext := hctl (j + 1) c' hget hc'
          rwa [hcons, ← Nat.add_assoc] at hnext
    · rw [if_neg hroom, List.length_nil, Nat.add_zero]
      refine ⟨fun hlt => ⟨hlt, fun j c' _ _ => by omega⟩, And.left⟩

theorem hasRoom_iff : HasRoom cap start e ↔
    start + (header e.1 e.2.tsMs).length +
      (escapeLoop cap (start + (header e.1 e.2.tsMs).length) e.2.msg.bytes).length + 2 < cap := by
  rw [escapeLoop_room]
  exact ⟨fun h => ⟨h.header, h.control⟩, fun h => ⟨h.1, h.2⟩⟩

end Room

/-! ## One turn of the loop over the lines -/

/-- The text before the object of the next line. -/
def sepText (first : Bool) (text : Bytes) : Bytes := if first then text else text ++ [comma]

section Turn

variable {cap s count : Nat} {l : Line} {o : Out} {first : Bool} {rest : List (Nat × Line)}

theorem printLine_eq (ho : o.text.length = o.pos) (hdr m : Bytes) :
    msgLoop cap (o.print cap hdr) m =
      ⟨o.text ++ hdr.take (cap - o.pos - 1) ++ escapeLoop cap (o.pos + hdr.length) m,
        o.pos + hdr.length + (escapeLoop cap (o.pos + hdr.length) m).length⟩ := by
  by_cases hfull : cap ≤ o.pos + hdr.length
  · -- the header is cut, and nothing follows it
    have hstop : cap ≤ (o.print cap hdr).pos + 7 := Nat.le_trans hfull (Nat.le_add_right _ 7)
    rw [msgLoop_full hstop, escapeLoop_full (by omega), List.append_nil, List.length_nil,
      Nat.add_zero, Out.print]
  · have htake : hdr.take (cap - o.pos - 1) = hdr := List.take_of_length_le (by omega)
    have hlen : (o.print cap hdr).text.length = (o.print cap hdr).pos := by
      rw [Out.print, htake, List.length_append, ho]
    rw [msgLoop_eq hlen, Out.print, htake]

/-- The text before the object of a line, and what `lineLoop` does with the line. -/
theorem lineLoop_cons (first : Bool) (count : Nat) (rest : List (Nat × Line))
    (ho : o.text.length = o.pos) (hin : o.pos + need l < cap) :
    let pre := sepText first o.text
    let i := pre.length + (header s l.tsMs).length
    let raw := escapeLoop cap i l.msg.bytes
    lineLoop cap o first count ((s, l) :: rest) =
      if i + raw.length + 2 ≥ cap then
        (⟨pre ++ (header s l.tsMs).take (cap - pre.length - 1) ++ raw, i + raw.length⟩, count)
      else lineLoop cap ⟨pre ++ lineAs (s, l) raw, (pre ++ lineAs (s, l) raw).length⟩ false
        (count + 1) rest := by
  intro pre i raw
  rw [lineLoop, if_neg (by omega)]
  have hsep : (if first then o else o.put comma) = ⟨pre, pre.length⟩ := by
    cases first with
    | true => exact congrArg (Out.mk o.text) ho.symm
    | false =>
      change Out.put o comma = ⟨o.text ++ [comma], (o.text ++ [comma]).length⟩
      rw [Out.put, List.length_append, ho]
      rfl
  have hprint : msgLoop cap (Out.print cap ⟨pre, pre.length⟩ (header s l.tsMs)) l.msg.bytes =
      ⟨pre ++ (header s l.tsMs).take (cap - pre.length - 1) ++ raw, i + raw.length⟩ :=
    printLine_eq rfl _ _
  simp only [hsep, hprint]
  split
  · rfl
  · next hroom =>
    have htake : (header s l.tsMs).take (cap - pre.length - 1) = header s l.tsMs :=
      List.take_of_length_le (by omega)
    have htext : pre ++ header s l.tsMs ++ raw ++ [quote] ++ [125] = pre ++ lineAs (s, l) raw := by
      simp only [lineAs, List.append_assoc, List.cons_append, List.nil_append]
    have hpos : i + raw.length + 1 + 1 = (pre ++ lineAs (s, l) raw).length := by
      rw [← htext]
      simp only [List.length_append, List.length_singleton]
      omega
    rw [htake]
    exact congrArg (fun o => lineLoop cap o false (count + 1) rest)
      (congrArg₂ Out.mk htext hpos)

/-- Nothing goes into an array that is full. -/
theorem lineLoop_full (h : cap ≤ o.pos + 36) (es : List (Nat × Line)) :
    lineLoop cap o first count es = (o, count) := by
  cases es with
  | nil => rfl
  | cons e es =>
    obtain ⟨s, l⟩ := e
    rw [lineLoop, if_pos]
    rw [need]
    omega

end Turn

/-! ## The loop over the lines -/

/-- Objects, each with the comma after it. -/
def opened (ds : List (Bytes × Value)) : Bytes := ds.flatMap fun d => d.1 ++ [comma]

/-- The array before a line, after the objects `ds`. -/
structure AtLine (ds : List (Bytes × Value)) (o : Out) (first : Bool) (count : Nat) : Prop where
  text : o.text = [comma].intercalate (ds.map Prod.fst)
  pos : o.text.length = o.pos
  first : first = ds.isEmpty
  count : count = ds.length
  reads : ∀ d ∈ ds, Reads d.1 d.2
  noNul : 0 ∉ o.text

/-- A text that ends inside an object: in the header of a line or in its message. -/
def Dangles (u : Bytes) : Prop :=
  (∃ s ts n, u = (header s ts).take (n + 1)) ∨
    ∃ s ts raw p, u = header s ts ++ raw ∧ ReadsString raw p

section Lines

variable {cap s count start : Nat} {e : Nat × Line} {l : Line} {o : Out} {first : Bool}
  {es : List (Nat × Line)} {ds : List (Bytes × Value)} {d : Bytes × Value} {raw p u : Bytes}

theorem opened_concat (ds : List (Bytes × Value)) (d : Bytes × Value) :
    opened (ds ++ [d]) = opened ds ++ d.1 ++ [comma] := by
  rw [opened, List.flatMap_append, List.flatMap_singleton, List.append_assoc]
  rfl

theorem intercalate_concat (ds : List (Bytes × Value)) (d : Bytes × Value) :
    [comma].intercalate ((ds ++ [d]).map Prod.fst) = opened ds ++ d.1 := by
  induction ds with
  | nil => exact List.intercalate_singleton
  | cons d' ds ih =>
    rw [opened, List.flatMap_cons]
    cases ds with
    | nil => simp
    | cons d'' ds =>
      rw [List.cons_append, List.cons_append, List.map_cons, List.map_cons,
        List.intercalate_cons_cons, List.append_assoc, List.append_assoc]
      rw [List.cons_append, List.map_cons] at ih
      rw [ih, opened, List.append_assoc]

theorem AtLine.sep (h : AtLine ds o first count) : sepText first o.text = opened ds := by
  rw [h.text, h.first]
  rcases List.eq_nil_or_concat ds with rfl | ⟨ds', d, rfl⟩
  · rfl
  · rw [List.concat_eq_append, intercalate_concat, opened_concat, sepText, if_neg]
    simp

theorem AtLine.pos_eq (h : AtLine ds o first count) : (opened ds).length - 1 = o.pos := by
  rw [← h.pos, h.text]
  rcases List.eq_nil_or_concat ds with rfl | ⟨ds', d, rfl⟩
  · rfl
  · rw [List.concat_eq_append, intercalate_concat, opened_concat, List.length_append,
      List.length_singleton]
    rfl

theorem notMem_header (s : Nat) (ts : UInt32) : 0 ∉ header s ts := by
  have hseq : 0 ∉ asciiBytes "\"seq\":" := by decide
  have hts : 0 ∉ asciiBytes ",\"ts\":" := by decide
  have hmsg : 0 ∉ asciiBytes ",\"msg\":\"" := by decide
  rw [header, List.mem_cons]
  simp only [List.mem_append, not_or]
  exact ⟨by decide, ⟨⟨⟨hseq, notMem_decimal rfl s⟩, hts⟩, notMem_decimal rfl _⟩, hmsg⟩

theorem notMem_escapeChar {c : UInt8} (h : c ≠ 0) : 0 ∉ escapeChar c := by
  rw [escapeChar]
  split
  · simp [Ne.symm h, backslash]
  · split
    · next hctl =>
      have hlt : c.toNat < 32 := UInt8.lt_iff_toNat_lt.1 hctl
      have hdigit : ∀ d < 16, 0 ≠ Web.hexDigit d := by decide
      have hhigh := hdigit (c.toNat / 16) (by omega)
      have hlow := hdigit (c.toNat % 16) (by omega)
      simp [hhigh, hlow, backslash]
    · simp [Ne.symm h]

theorem notMem_escapeLoop {m : Bytes} (h : 0 ∉ m) (cap i : Nat) : 0 ∉ escapeLoop cap i m := by
  induction m generalizing i with
  | nil => exact List.not_mem_nil
  | cons c m ih =>
    rw [List.mem_cons, not_or] at h
    rw [escapeLoop]
    split
    · rw [List.mem_append, not_or]
      exact ⟨notMem_escapeChar (Ne.symm h.1), ih h.2 _⟩
    · exact List.not_mem_nil

/-- After one more object. -/
theorem AtLine.next (h : AtLine ds o first count) (hraw : ReadsString raw p) (hnul : 0 ∉ raw)
    (e : Nat × Line) :
    AtLine (ds ++ [(lineAs e raw, lineValue e p)])
      ⟨opened ds ++ lineAs e raw, (opened ds ++ lineAs e raw).length⟩ false (count + 1) where
  text := (intercalate_concat ds (lineAs e raw, lineValue e p)).symm
  pos := rfl
  first := by simp
  count := by rw [h.count, List.length_append, List.length_singleton]
  reads d hd := by
    rcases List.mem_append.1 hd with hold | hnew
    · exact h.reads d hold
    · rw [List.mem_singleton.1 hnew]
      exact reads_lineAs hraw e
  noNul := by
    have hpre : 0 ∉ opened ds := by
      rw [← h.sep, sepText]
      split
      · exact h.noNul
      · rw [List.mem_append, not_or]
        exact ⟨h.noNul, by decide⟩
    simp only [lineAs, List.mem_append, not_or]
    exact ⟨hpre, ⟨notMem_header _ _, hnul⟩, by decide⟩

theorem length_lineAs (e : Nat × Line) (raw : Bytes) :
    (lineAs e raw).length = (header e.1 e.2.tsMs).length + raw.length + 2 := by
  rw [lineAs, List.length_append, List.length_append]
  rfl

theorem admitted_full (h : cap ≤ start - 1 + 36) (es : List (Nat × Line)) :
    admitted cap start es = 0 := by
  cases es with
  | nil => rfl
  | cons e es =>
    rw [admitted, if_neg]
    rw [need]
    omega

theorem fitsFrom_of_admitted (h : admitted cap start es = 0) : FitsFrom cap start es := by
  intro k e hk
  omega

/-- What the loop leaves of a line that is let in and has room: the whole line, or a first
part after which no other goes in. -/
theorem line_whole_or_last (e : Nat × Line)
    (hstop : raw = escaped e.2.msg.bytes ∨
      cap ≤ start + (header e.1 e.2.tsMs).length + raw.length + 7)
    (hle : raw.length ≤ (escaped e.2.msg.bytes).length) :
    lineAs e raw = lineText e ∨
      cap ≤ start + (lineAs e raw).length + 36 ∧
        ∀ es, admitted cap (start + (lineText e).length + 1) es = 0 := by
  refine hstop.imp (fun hraw => by rw [hraw, lineText]) fun hfull => ?_
  have hlen := length_lineAs e raw
  have hall := length_lineAs e (escaped e.2.msg.bytes)
  refine ⟨by omega, admitted_full ?_⟩
  rw [lineText]
  omega

/-- If every line that is let in has room, the loop ends between two objects, and it has
printed those lines. -/
theorem lineLoop_fits (h : AtLine ds o first count) (hcap : o.pos < cap)
    (hfits : FitsFrom cap (opened ds).length es) :
    ∃ ds' first', AtLine (ds ++ ds') (lineLoop cap o first count es).1 first'
        (lineLoop cap o first count es).2 ∧
      (lineLoop cap o first count es).1.pos < cap ∧
      ds'.length = admitted cap (opened ds).length es ∧
      List.Forall₂ (fun e d => ShowsLine e d.2) (es.take ds'.length) ds' := by
  induction es generalizing ds o first count with
  | nil => exact ⟨[], first, by rwa [List.append_nil, lineLoop], hcap, rfl, .nil⟩
  | cons e es ih =>
    obtain ⟨s, l⟩ := e
    by_cases hin : o.pos + need l < cap
    · have hstart := hin
      rw [← h.pos_eq] at hstart
      obtain ⟨hroom, hrest⟩ := fitsFrom_cons.1 hfits hstart
      have hcons := lineLoop_cons (s := s) first count es h.pos hin
      dsimp only at hcons
      rw [h.sep] at hcons
      have hlt := hasRoom_iff.1 hroom
      dsimp only at hlt
      obtain ⟨p, hprefix, hreads⟩ := readsString_escapeLoop cap
        ((opened ds).length + (header s l.tsMs).length) l.msg.bytes
      have hnul := notMem_escapeLoop l.msg.noNul cap
        ((opened ds).length + (header s l.tsMs).length)
      have hstops := escapeLoop_stops cap ((opened ds).length + (header s l.tsMs).length)
        l.msg.bytes
      have hle := length_escapeLoop_le cap ((opened ds).length + (header s l.tsMs).length)
        l.msg.bytes
      generalize hraw : escapeLoop cap ((opened ds).length + (header s l.tsMs).length)
        l.msg.bytes = raw at *
      rw [if_neg (by omega)] at hcons
      have hnext := h.next hreads hnul (s, l)
      have hshow : ShowsLine (s, l) (lineValue (s, l) p) := ⟨p, hprefix, rfl⟩
      have hlen := length_lineAs (s, l) raw
      dsimp only at hlen
      have hcountIn : admitted cap (opened ds).length ((s, l) :: es) =
          admitted cap ((opened ds).length + (lineText (s, l)).length + 1) es + 1 :=
        if_pos hstart
      have hend : (opened ds ++ lineAs (s, l) raw).length < cap := by
        rw [List.length_append]
        omega
      rw [hcons, hcountIn]
      rcases line_whole_or_last (s, l) hstops hle with hwhole | ⟨hfull, hnone⟩
      · have hlen' : (opened (ds ++ [(lineAs (s, l) raw, lineValue (s, l) p)])).length =
            (opened ds).length + (lineText (s, l)).length + 1 := by
          rw [opened_concat, List.length_append, List.length_append, List.length_singleton, hwhole]
        rw [← hlen'] at hrest ⊢
        obtain ⟨ds', first', hat, hpos, hcount, hall⟩ := ih hnext hend hrest
        rw [List.append_assoc] at hat
        exact ⟨_ :: ds', first', hat, hpos, by rw [List.length_cons, hcount], .cons hshow hall⟩
      · rw [← List.length_append] at hfull
        rw [lineLoop_full hfull, hnone]
        exact ⟨[_], false, hnext, hend, rfl, .cons hshow .nil⟩
    · have hzero : admitted cap (opened ds).length ((s, l) :: es) = 0 := by
        rw [admitted, h.pos_eq, if_neg hin]
      rw [lineLoop, if_pos (by omega), hzero]
      exact ⟨[], first, by rwa [List.append_nil], hcap, rfl, .nil⟩

/-- If one of the lines that are let in has no room, the text ends inside its object. -/
theorem lineLoop_dangles (h : AtLine ds o first count)
    (hfits : ¬ FitsFrom cap (opened ds).length es) :
    ∃ ds' u, (lineLoop cap o first count es).1.text = opened ds' ++ u ∧
      (∀ d ∈ ds', Reads d.1 d.2) ∧ Dangles u := by
  induction es generalizing ds o first count with
  | nil => exact absurd fitsFrom_nil hfits
  | cons e es ih =>
    obtain ⟨s, l⟩ := e
    rw [fitsFrom_cons, Classical.not_imp, not_and_or] at hfits
    obtain ⟨hstart, hfits⟩ := hfits
    dsimp only at hstart
    have hin := hstart
    rw [h.pos_eq] at hin
    have hcons := lineLoop_cons (s := s) first count es h.pos hin
    dsimp only at hcons
    rw [h.sep] at hcons
    rw [hcons]
    obtain ⟨p, -, hreads⟩ := readsString_escapeLoop cap
      ((opened ds).length + (header s l.tsMs).length) l.msg.bytes
    by_cases hroom : HasRoom cap (opened ds).length (s, l)
    · have hlt := hasRoom_iff.1 hroom
      dsimp only at hlt
      have hrest := hfits.resolve_left (not_not_intro hroom)
      have hnul := notMem_escapeLoop l.msg.noNul cap
        ((opened ds).length + (header s l.tsMs).length)
      have hstops := escapeLoop_stops cap ((opened ds).length + (header s l.tsMs).length)
        l.msg.bytes
      have hle := length_escapeLoop_le cap ((opened ds).length + (header s l.tsMs).length)
        l.msg.bytes
      rw [if_neg (by omega)]
      rcases line_whole_or_last (s, l) hstops hle with hwhole | ⟨-, hnone⟩
      · rw [hwhole]
        have hnext := h.next hreads hnul (s, l)
        rw [hwhole] at hnext
        refine ih hnext ?_
        rwa [opened_concat, List.length_append, List.length_append, List.length_singleton]
      · exact absurd (fitsFrom_of_admitted (hnone es)) hrest
    · have hge := mt hasRoom_iff.2 hroom
      dsimp only at hge
      rw [if_pos (by omega)]
      refine ⟨ds, _, List.append_assoc _ _ _, h.reads, ?_⟩
      by_cases hcut : cap ≤ (opened ds).length + (header s l.tsMs).length + 7
      · -- at most the header is printed
        rw [escapeLoop_full hcut, List.append_nil]
        have hpos : cap - (opened ds).length - 1 = cap - (opened ds).length - 2 + 1 := by
          have hneed : 36 ≤ need l := by
            rw [need]
            omega
          omega
        exact Or.inl ⟨s, l.tsMs, _, congrArg (fun n => (header s l.tsMs).take n) hpos⟩
      · rw [List.take_of_length_le (by omega)]
        exact Or.inr ⟨s, l.tsMs, _, p, rfl, hreads⟩

/-- What is printed stays below the end of the array. -/
theorem lineLoop_lt (h : AtLine ds o first count) (hcap : o.pos < cap) :
    (lineLoop cap o first count es).1.text.length < cap := by
  induction es generalizing ds o first count with
  | nil =>
    rw [lineLoop, h.pos]
    exact hcap
  | cons e es ih =>
    obtain ⟨s, l⟩ := e
    by_cases hin : o.pos + need l < cap
    · have hcons := lineLoop_cons (s := s) first count es h.pos hin
      dsimp only at hcons
      rw [h.sep] at hcons
      rw [hcons]
      obtain ⟨p, -, hreads⟩ := readsString_escapeLoop cap
        ((opened ds).length + (header s l.tsMs).length) l.msg.bytes
      have hnul := notMem_escapeLoop l.msg.noNul cap
        ((opened ds).length + (header s l.tsMs).length)
      split
      · have hpos := h.pos_eq
        have hneed : 36 ≤ need l := by
          rw [need]
          omega
        simp only [List.length_append, List.length_take]
        by_cases hcut : cap ≤ (opened ds).length + (header s l.tsMs).length + 7
        · rw [escapeLoop_full hcut, List.length_nil]
          omega
        · have hroom := escapeLoop_le cap ((opened ds).length + (header s l.tsMs).length)
            l.msg.bytes
          omega
      · next hroom =>
        refine ih (h.next hreads hnul (s, l)) ?_
        have hlen := length_lineAs (s, l) (escapeLoop cap
          ((opened ds).length + (header s l.tsMs).length) l.msg.bytes)
        rw [List.length_append, hlen]
        dsimp only
        omega
    · rw [lineLoop, if_pos (by omega), h.pos]
      exact hcap

/-! ## Texts that dangle -/

theorem not_closes_header (s : Nat) (ts : UInt32) : (header s ts).countP closes = 0 := by
  have hseq : ∀ b ∈ asciiBytes "\"seq\":", ¬ closes b = true := by decide
  have hts : ∀ b ∈ asciiBytes ",\"ts\":", ¬ closes b = true := by decide
  have hmsg : ∀ b ∈ asciiBytes ",\"msg\":\"", ¬ closes b = true := by decide
  have hdigits : ∀ n, ∀ b ∈ decimal n, ¬ closes b = true := by
    intro n b hb hclose
    have hdigit := isDigit_decimal b hb
    rw [closes, Bool.or_eq_true, decide_eq_true_eq, decide_eq_true_eq] at hclose
    rcases hclose with rfl | rfl <;> cases hdigit
  rw [List.countP_eq_zero]
  intro b hb
  rw [header, List.mem_cons] at hb
  simp only [List.mem_append] at hb
  rcases hb with rfl | (((hb | hb) | hb) | hb) | hb
  · decide
  · exact hseq b hb
  · exact hdigits s b hb
  · exact hts b hb
  · exact hdigits _ b hb
  · exact hmsg b hb

/-- The members before the message of a line. -/
def lineFields (s : Nat) (ts : UInt32) : List Field :=
  [⟨quote :: asciiBytes "seq" ++ [quote, colon], decimal s, asciiBytes "seq", .num (decimal s)⟩,
    ⟨quote :: asciiBytes "ts" ++ [quote, colon], decimal ts.toNat, asciiBytes "ts",
      .num (decimal ts.toNat)⟩]

theorem sound_lineFields (s : Nat) (ts : UInt32) : ∀ f ∈ lineFields s ts, f.Sound := by
  rintro f (_ | ⟨_, _ | ⟨_, hf⟩⟩)
  · exact ⟨.plain plain_seq, reads_decimal s⟩
  · exact ⟨.plain plain_ts, reads_decimal ts.toNat⟩
  · cases hf

/-- The state in the message of a line. -/
theorem run_header (s : Nat) (ts : UInt32) {vs : List Value} {st : List Frame} (rest : Bytes) :
    run ⟨.name [] true, .arr vs :: st⟩ ((header s ts).tail ++ rest) =
      run ⟨.string .value .empty .plain,
        .mem [(asciiBytes "seq", .num (decimal s)), (asciiBytes "ts", .num (decimal ts.toNat))]
          (asciiBytes "msg") :: .arr vs :: st⟩ rest := by
  have hopen := run_open_value (sound_lineFields s ts) (ReadsName.plain plain_msg) []
    true (.arr vs :: st) (quote :: rest)
  have htext : (header s ts).tail ++ rest =
      (lineFields s ts).flatMap (fun f => f.print ++ [comma]) ++
        (quote :: asciiBytes "msg" ++ [quote, colon] ++ quote :: rest) := by
    simp only [header, lineFields, seq_text, ts_text, msg_text, List.tail_cons,
      List.flatMap_cons, List.flatMap_nil, Field.print, List.append_assoc, List.cons_append,
      List.nil_append]
  rw [htext, hopen]
  rfl

/-- A text that dangles in the array of an object, or in an array alone, is no JSON. -/
theorem not_parse_dangles (pre tail : Bytes) (st : List Frame)
    (hpre : ∀ rest, run ⟨.value, []⟩ (pre ++ rest) = run ⟨.item, .arr [] :: st⟩ rest)
    (htail : tail.countP closes < st.length + 2) (hplain : ∀ b ∈ tail, isPlain b = true)
    (hds : ∀ d ∈ ds, Reads d.1 d.2) (hu : Dangles u) :
    parse (pre ++ (opened ds ++ u) ++ tail) = none := by
  have hopen : ∀ rest, run ⟨.value, []⟩ (pre ++ (opened ds ++ 123 :: rest)) =
      run ⟨.name [] true, .arr (ds.map Prod.snd) :: st⟩ rest := fun rest => by
    rw [hpre]
    exact run_open_object hds rest
  rcases hu with ⟨s, ts, n, rfl⟩ | ⟨s, ts, raw, p, rfl, hraw⟩
  · -- no byte of a header closes anything
    refine parse_eq_none_of_depth fun t ht => ?_
    have hhead : (header s ts).take (n + 1) = 123 :: (header s ts).tail.take n := rfl
    rw [hhead, hopen] at ht
    have hdepth := run_depth ht
    have hnone : ((header s ts).tail.take n).countP closes = 0 := by
      have hle := ((List.take_sublist n _).trans (List.tail_sublist (header s ts))).countP_le
        (p := closes)
      rw [not_closes_header] at hle
      exact Nat.le_zero.1 hle
    rw [hnone] at hdepth
    simp only [State.depth, Phase.depth, List.length_cons] at hdepth ⊢
    omega
  · have hhead : header s ts = 123 :: (header s ts).tail := rfl
    have hrun : run ⟨.value, []⟩ (pre ++ (opened ds ++ (header s ts ++ raw))) =
        some ⟨.string .value ⟨p, none⟩ .plain,
          .mem [(asciiBytes "seq", .num (decimal s)),
            (asciiBytes "ts", .num (decimal ts.toNat))] (asciiBytes "msg") ::
            .arr (ds.map Prod.snd) :: st⟩ := by
      rw [hhead, List.cons_append, hopen, run_header]
      have hstring := hraw .value .empty (.mem [(asciiBytes "seq", .num (decimal s)),
        (asciiBytes "ts", .num (decimal ts.toNat))] (asciiBytes "msg") ::
          .arr (ds.map Prod.snd) :: st) [] rfl
      rwa [List.append_nil, run_nil] at hstring
    exact parse_eq_none_of_string rfl hrun hplain

end Lines

/-! ## The whole text -/

/-- The text is NUL-terminated in `out`, and between brackets it is an array of `count`
objects, which show the first lines of `es`. -/
def WellFormed (cap : Nat) (es : List (Nat × Line)) (r : Reply) : Prop :=
  ∃ text vs, r.text = some text ∧ text.length < cap ∧ 0 ∉ text ∧
    parse (91 :: text ++ [93]) = some (.arr vs) ∧ vs.length = r.count ∧
    List.Forall₂ ShowsLine (es.take r.count) vs

section Whole

variable {N : Nat} [NeZero N] {b : LogBuffer N} {since : UInt32} {cap : Nat}

theorem atLine_start : AtLine [] ⟨[], 0⟩ true 0 where
  text := rfl
  pos := rfl
  first := rfl
  count := rfl
  reads := fun _ hd => absurd hd List.not_mem_nil
  noNul := List.not_mem_nil

theorem getSince_eq (hmtx : b.mtx = true) (hcap : 0 < cap) (since : UInt32) :
    getSince b since cap =
      ⟨some (lineLoop cap ⟨[], 0⟩ true 0 (b.since since)).1.text,
        (lineLoop cap ⟨[], 0⟩ true 0 (b.since since)).2, b.headSeq.toNat, b.oldest⟩ := by
  rw [getSince, if_neg]
  rintro (hno | rfl)
  · exact hno hmtx
  · exact absurd hcap (lt_irrefl 0)

/-- Whatever the lines, their text ends inside the array. -/
theorem getSince_text_lt (hmtx : b.mtx = true) (hcap : 0 < cap) {text : Bytes}
    (htext : (getSince b since cap).text = some text) : text.length < cap := by
  rw [getSince_eq hmtx hcap, Option.some.injEq] at htext
  rw [← htext]
  exact lineLoop_lt atLine_start hcap

/-- If the lines that are let in have room, they are what is printed. -/
theorem getSince_fits (hmtx : b.mtx = true) (hcap : 0 < cap) (h : Fits cap (b.since since)) :
    ∃ ds text, getSince b since cap =
        ⟨some text, admitted cap 0 (b.since since), b.headSeq.toNat, b.oldest⟩ ∧
      text = [comma].intercalate (ds.map Prod.fst) ∧ text.length < cap ∧ 0 ∉ text ∧
      (∀ d ∈ ds, Reads d.1 d.2) ∧ ds.length = admitted cap 0 (b.since since) ∧
      List.Forall₂ (fun e d => ShowsLine e d.2)
        ((b.since since).take (admitted cap 0 (b.since since))) ds := by
  obtain ⟨ds, first, hat, hpos, hcount, hall⟩ := lineLoop_fits atLine_start hcap h
  rw [List.nil_append] at hat
  have hlen : ds.length = admitted cap 0 (b.since since) := hcount
  rw [hlen] at hall
  refine ⟨ds, _, ?_, hat.text, by rwa [hat.pos], hat.noNul, hat.reads, hlen, hall⟩
  rw [getSince_eq hmtx hcap, hat.count, hlen]

theorem plain_bracket : ∀ b ∈ ([93] : Bytes), isPlain b = true := by
  intro b hb
  rw [List.mem_singleton.1 hb]
  rfl

/-- A text that is JSON between brackets is of lines that have room. -/
theorem fits_of_parse (hmtx : b.mtx = true) (hcap : 0 < cap) {text : Bytes} {v : Value}
    (htext : (getSince b since cap).text = some text)
    (hparse : parse (91 :: text ++ [93]) = some v) : Fits cap (b.since since) := by
  by_contra hfits
  obtain ⟨ds, u, hu, hds, hdangles⟩ := lineLoop_dangles atLine_start hfits
  have hnone := not_parse_dangles [91] [93] [] (fun _ => rfl) (by decide) plain_bracket hds hdangles
  rw [getSince_eq hmtx hcap, Option.some.injEq, hu] at htext
  rw [htext, List.singleton_append, hparse] at hnone
  cases hnone

/-- The text of `log_buffer_get_since` is an array of complete lines if and only if the lines
that are let in have room. -/
theorem getSince_wellFormed_iff (hmtx : b.mtx = true) (hcap : 0 < cap) :
    WellFormed cap (b.since since) (getSince b since cap) ↔ Fits cap (b.since since) := by
  constructor
  · rintro ⟨text, vs, htext, -, -, hparse, -, -⟩
    exact fits_of_parse hmtx hcap htext hparse
  · intro h
    obtain ⟨ds, text, heq, htext, hlt, hnul, hreads, hlen, hall⟩ := getSince_fits hmtx hcap h
    rw [heq]
    refine ⟨text, ds.map Prod.snd, rfl, hlt, hnul, ?_, by rw [List.length_map, hlen], ?_⟩
    · rw [htext]
      exact (Reads.array hreads).parse
    · exact List.forall₂_map_right_iff.2 hall

end Whole

/-- Nine lines of tabs, and a tenth whose last tab is printed up to the end of the array of
`h_log`. -/
def tabLog : LogBuffer lbMaxLines :=
  logged lbMaxLines 7 (List.replicate 9 (List.replicate 116 9) ++
    [[97, 97, 97] ++ List.replicate 79 9])

theorem tabLog_mtx : tabLog.mtx = true := by decide

theorem not_fits_tabLog : ¬ Fits 7000 (tabLog.since 0) := by
  have hcountIn : 9 < admitted 7000 0 (tabLog.since 0) := by decide +kernel
  have htenth : ∃ e, (tabLog.since 0)[9]? = some e ∧ e.2.msg.bytes[81]? = some 9 ∧
      offset ((tabLog.since 0).take 9) + (header e.1 e.2.tsMs).length +
        (escaped (e.2.msg.bytes.take 81)).length + 8 = 7000 := by
    refine ⟨(9, ⟨7, ⟨[97, 97, 97] ++ List.replicate 79 9, by decide,
      by decide +kernel⟩⟩), ?_, ?_, ?_⟩ <;> decide +kernel
  obtain ⟨e, hget, htab, heq⟩ := htenth
  intro h
  have hroom := (h 9 e hcountIn hget).control 81 9 htab (by decide)
  rw [Nat.zero_add] at hroom
  exact hroom heq

/-- Not every text of `log_buffer_get_since` is an array of complete lines. -/
theorem getSince_dangles : ¬ ∀ (N : Nat) [NeZero N] (b : LogBuffer N) (since : UInt32)
    (cap : Nat), b.mtx = true → 0 < cap →
      WellFormed cap (b.since since) (getSince b since cap) := by
  intro h
  obtain ⟨text, vs, htext, -, -, hparse, -, -⟩ :=
    h lbMaxLines tabLog 0 7000 tabLog_mtx (by decide)
  exact not_fits_tabLog (fits_of_parse tabLog_mtx (by decide) htext hparse)

/-- The ring after one line. -/
theorem getSince_wellFormed_iff_hello :
    WellFormed 7000 ((logged lbMaxLines 7 [asciiBytes "hello"]).since 0)
        (getSince (logged lbMaxLines 7 [asciiBytes "hello"]) 0 7000) ↔
      Fits 7000 ((logged lbMaxLines 7 [asciiBytes "hello"]).since 0) :=
  getSince_wellFormed_iff (by decide +kernel) (by decide)

end Cdc2Net.Log

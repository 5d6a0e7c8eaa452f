import Cdc2Net.Lib.FixedBuffer
import Cdc2Net.Source.SerialCfg
import Mathlib.Data.List.DropRight

/-!
# Sending the stick into its bootloader

`h_cul_dfu_enter` of `webui.c`. The command of the body goes through an array of 32 bytes that
holds `B01` beforehand, and only one receive call fills it. A body of 29 bytes and more is not
received at all, so that `B01` is sent in its place; of a shorter one the first part is sent, up
to a NUL (`enter_exact_iff`).
-/

set_option autoImplicit false

namespace Cdc2Net.Dfu.Enter

open Cdc2Net.Lib.FixedBuffer
open Cdc2Net.Source (EspErr asciiBytes cString)

abbrev Bytes := List UInt8

/-! ## The handler -/

/-- The array `cmd`. -/
abbrev Cmd := Buf UInt8 32

theorem cmdInit_length : (asciiBytes "B01" ++ List.replicate 29 0).length = 32 := rfl

/-- `char cmd[32] = "B01"`. -/
def cmdInit : Cmd := ⟨asciiBytes "B01" ++ List.replicate 29 0, cmdInit_length⟩

/-- A carriage return or a line feed. -/
def isEol (b : UInt8) : Bool := b = 13 || b = 10

/-- `strlen(cmd)`, which needs a NUL in the array. -/
def strlen (cmd : Cmd) : Checked Nat :=
  if 0 ∈ cmd.elems then pure (cString cmd.elems).length else .error (.outOfBounds 32)

/-- `strcpy(cmd, s)`. -/
def strcpy (cmd : Cmd) (s : Bytes) : Checked Cmd := cmd.writeAll 0 (s ++ [0])

/-- `strcat(cmd, s)`. -/
def strcat (cmd : Cmd) (s : Bytes) : Checked Cmd := do
  let n ← strlen cmd
  cmd.writeAll n (s ++ [0])

/-- The loop that clears the end of the line, from `cmd[i - 1]` down. -/
def stripLoop : Nat → Cmd → Checked Cmd
  | 0, cmd => pure cmd
  | i + 1, cmd => do
    let c ← cmd.read i
    if isEol c then do
      let cmd ← cmd.write i 0
      stripLoop i cmd
    else pure cmd

/-- The answer of the handler. -/
inductive Answer where
  | ok
  /-- 400 `source not ready`. -/
  | notReady
  /-- `ESP_FAIL` without an answer: the server closes the connection. -/
  | closed
  deriving DecidableEq, Repr

/-- What the source gets, and the answer. -/
structure Result where
  sent : Option Bytes
  answer : Answer
  deriving DecidableEq, Repr

/-- `bridge_tx_to_source` without a sink, so without the lock: a ready source gets the bytes, and
`tx` is what it returns for them. -/
def bridgeTx (src : Option (Bytes → EspErr)) (data : Bytes) : Result :=
  match src with
  | none => ⟨none, .notReady⟩
  | some tx => ⟨some data, if tx data = .ok then .ok else .notReady⟩

/-- `if (cmd[0] == '\0') strcpy(cmd, "B01")`. -/
def fillIn (cmd : Cmd) : Checked Cmd := do
  let c ← cmd.read 0
  if c = 0 then strcpy cmd (asciiBytes "B01") else pure cmd

/-- The end of the handler, with what has been received in the array. -/
def finish (src : Option (Bytes → EspErr)) (cmd : Cmd) : Checked Result := do
  let cmd ← fillIn cmd
  let cmd ← strcat cmd [13, 10]
  let n ← strlen cmd
  let data ← cmd.readFirst n
  pure (bridgeTx src data)

/-- `h_cul_dfu_enter`. The receive call returns at most `arrived` bytes; it fails for `none`. -/
def hCulDfuEnter (src : Option (Bytes → EspErr)) (body : Bytes) (arrived : Option Nat) :
    Checked Result :=
  if 0 < body.length ∧ body.length < 32 - 3 then
    match arrived.map fun n => body.take n with
    | none => pure ⟨none, .closed⟩
    | some [] => pure ⟨none, .closed⟩
    | some got => do
      let cmd ← cmdInit.writeAll 0 got
      let cmd ← cmd.write got.length 0
      let cmd ← stripLoop got.length cmd
      finish src cmd
  else finish src cmdInit

/-! ## What is sent -/

/-- Bytes without the end of the line. -/
def stripEol (bs : Bytes) : Bytes := bs.rdropWhile isEol

/-- The command itself, or the one that is built in. -/
def orBuiltin (cmd : Bytes) : Bytes := if cmd = [] then asciiBytes "B01" else cmd

section Sent

variable {cmd : Cmd} {s rest : Bytes} {src : Option (Bytes → EspErr)}

theorem cString_cons {b : UInt8} (hb : b ≠ 0) (s : Bytes) : cString (b :: s) = b :: cString s :=
  List.takeWhile_cons_of_pos (decide_eq_true hb)

theorem cString_append_nul (s rest : Bytes) : cString (s ++ 0 :: rest) = cString s := by
  induction s with
  | nil => rfl
  | cons b s ih =>
    by_cases hb : b = 0
    · subst hb
      rfl
    · rw [List.cons_append, cString_cons hb, cString_cons hb, ih]

/-- The first NUL behind a string. -/
theorem exists_nul (s rest : Bytes) : ∃ rest', s ++ 0 :: rest = cString s ++ 0 :: rest' := by
  induction s with
  | nil => exact ⟨rest, rfl⟩
  | cons b s ih =>
    by_cases hb : b = 0
    · subst hb
      exact ⟨s ++ 0 :: rest, rfl⟩
    · obtain ⟨rest', hsplit⟩ := ih
      refine ⟨rest', ?_⟩
      rw [cString_cons hb, List.cons_append, hsplit, List.cons_append]

theorem zero_notMem_cString (s : Bytes) : 0 ∉ cString s := by
  intro hmem
  have hne := List.mem_takeWhile_imp hmem
  simp at hne

theorem cString_eq_self (h : 0 ∉ s) : cString s = s := by
  refine List.takeWhile_eq_self_iff.2 fun b hb => decide_eq_true ?_
  rintro rfl
  exact h hb

theorem cString_initial (s : Bytes) : cString s <+: s := List.takeWhile_prefix _

/-- The array holds the string `s` and its NUL. -/
def HoldsStr (cmd : Cmd) (s : Bytes) : Prop := 0 ∉ s ∧ ∃ rest, cmd.elems = s ++ 0 :: rest

theorem HoldsStr.cString_eq (h : HoldsStr cmd s) : cString cmd.elems = s := by
  obtain ⟨hzero, rest, heq⟩ := h
  rw [heq, cString_append_nul, cString_eq_self hzero]

theorem HoldsStr.strlen_eq (h : HoldsStr cmd s) : strlen cmd = .ok s.length := by
  have hstr := h.cString_eq
  obtain ⟨-, rest, heq⟩ := h
  have hmem : 0 ∈ cmd.elems := by
    rw [heq]
    exact List.mem_append_right s List.mem_cons_self
  rw [strlen, if_pos hmem, hstr]
  rfl

/-- Bytes and a NUL, written behind what is there. -/
theorem writeAll_str (cmd : Cmd) {i : Nat} {s : Bytes} (h : i + (s ++ [0]).length ≤ 32) :
    ∃ cmd' rest, cmd.writeAll i (s ++ [0]) = .ok cmd' ∧
      cmd'.elems = cmd.elems.take i ++ s ++ 0 :: rest := by
  refine ⟨cmd.splice i (s ++ [0]) h, cmd.elems.drop (i + (s ++ [0]).length),
    cmd.writeAll_eq (s ++ [0]) i h, ?_⟩
  rw [Buf.splice_elems]
  simp only [List.append_assoc, List.singleton_append]

theorem strcpy_eq (cmd : Cmd) {s : Bytes} (hs : 0 ∉ s) (hlen : s.length < 32) :
    ∃ cmd', strcpy cmd s = .ok cmd' ∧ HoldsStr cmd' s := by
  obtain ⟨cmd', rest, hwrite, helems⟩ := writeAll_str cmd (i := 0) (s := s)
    (by rw [List.length_append, List.length_singleton]; omega)
  refine ⟨cmd', hwrite, hs, rest, ?_⟩
  rw [helems, List.take_zero, List.nil_append]

theorem strcat_eq {t : Bytes} (h : HoldsStr cmd s) (ht : 0 ∉ t)
    (hlen : s.length + t.length < 32) :
    ∃ cmd', strcat cmd t = .ok cmd' ∧ HoldsStr cmd' (s ++ t) := by
  obtain ⟨cmd', rest, hwrite, helems⟩ := writeAll_str cmd (i := s.length) (s := t)
    (by rw [List.length_append, List.length_singleton]; omega)
  have hstrlen := h.strlen_eq
  obtain ⟨hzero, rest', heq⟩ := h
  refine ⟨cmd', ?_, ?_, rest, ?_⟩
  · rw [strcat, hstrlen, ok_bind, hwrite]
  · rw [List.mem_append]
    exact fun hor => hor.elim hzero ht
  · rw [helems, heq, List.take_left' rfl]

theorem fillIn_eq (h : HoldsStr cmd s) (hlen : s.length < 32 - 3) :
    ∃ cmd', fillIn cmd = .ok cmd' ∧ HoldsStr cmd' (orBuiltin s) ∧
      (orBuiltin s).length < 32 - 3 := by
  have hheld := h
  obtain ⟨hzero, rest, heq⟩ := h
  cases s with
  | nil =>
    have hbuiltin : 0 ∉ asciiBytes "B01" := by decide
    have hread : cmd.read 0 = .ok 0 := cmd.read_eq (by rw [heq]; rfl)
    obtain ⟨cmd', hcpy, hstr⟩ := strcpy_eq cmd hbuiltin (by decide)
    refine ⟨cmd', ?_, hstr, by decide⟩
    rw [fillIn, hread, ok_bind, if_pos rfl, hcpy]
  | cons b s =>
    have hread : cmd.read 0 = .ok b := cmd.read_eq (by rw [heq]; rfl)
    have hb : b ≠ 0 := by
      rintro rfl
      exact hzero List.mem_cons_self
    rw [orBuiltin, if_neg (List.cons_ne_nil b s)]
    refine ⟨cmd, ?_, hheld, hlen⟩
    rw [fillIn, hread, ok_bind, if_neg hb]
    rfl

/-- The end of the handler sends the string of the array, or `B01`. -/
theorem finish_eq (h : HoldsStr cmd s) (hlen : s.length < 32 - 3) :
    finish src cmd = .ok (bridgeTx src (orBuiltin s ++ [13, 10])) := by
  obtain ⟨cmd₁, hfill, hheld₁, hshort⟩ := fillIn_eq h hlen
  have hfit : (orBuiltin s).length + [(13 : UInt8), 10].length < 32 := by
    rw [List.length_cons, List.length_singleton]
    omega
  obtain ⟨cmd₂, hcat, hheld₂⟩ := strcat_eq hheld₁ (t := [13, 10]) (by decide) hfit
  have hlen₂ : (orBuiltin s ++ [13, 10]).length ≤ 32 := by
    rw [List.length_append]
    omega
  have hstrlen := hheld₂.strlen_eq
  obtain ⟨-, rest, heq⟩ := hheld₂
  have hdata : cmd₂.readFirst (orBuiltin s ++ [13, 10]).length =
      .ok (orBuiltin s ++ [13, 10]) := by
    rw [cmd₂.readFirst_eq hlen₂, heq, List.take_left' rfl]
  rw [finish, hfill, ok_bind, hcat, ok_bind, hstrlen, ok_bind, hdata]
  rfl

/-- The loop clears the end of the line. -/
theorem stripLoop_eq (got : Bytes) : ∀ (cmd : Cmd) (rest : Bytes),
    cmd.elems = got ++ 0 :: rest →
      ∃ cmd' rest', stripLoop got.length cmd = .ok cmd' ∧
        cmd'.elems = stripEol got ++ 0 :: rest' := by
  induction got using List.reverseRecOn with
  | nil => exact fun cmd rest h => ⟨cmd, rest, rfl, h⟩
  | append_singleton got c ih =>
    intro cmd rest h
    have hread : cmd.read got.length = .ok c := by
      refine cmd.read_eq ?_
      rw [h, List.append_assoc, List.getElem?_append_right (Nat.le_refl _), Nat.sub_self]
      rfl
    rw [List.length_append, List.length_singleton, stripLoop, hread, ok_bind, stripEol]
    by_cases hc : isEol c = true
    · have hfit : got.length + [(0 : UInt8)].length ≤ 32 := by
        have hlen := cmd.length_eq
        rw [h] at hlen
        simp only [List.length_append, List.length_cons, List.length_nil] at hlen ⊢
        omega
      have helems : (cmd.splice got.length [0] hfit).elems = got ++ 0 :: 0 :: rest := by
        rw [List.append_assoc] at h
        rw [Buf.splice_elems, h, List.append_assoc, List.take_left' rfl, ← List.drop_drop,
          List.drop_left' rfl]
        rfl
      obtain ⟨cmd', rest', hloop, hcmd'⟩ := ih _ _ helems
      refine ⟨cmd', rest', ?_, ?_⟩
      · rw [if_pos hc, cmd.write_eq 0 hfit, ok_bind, hloop]
      · rw [hcmd', List.rdropWhile_concat_pos _ _ _ hc]
        rfl
    · refine ⟨cmd, rest, ?_, ?_⟩
      · rw [if_neg hc]
        rfl
      · rw [List.rdropWhile_concat_neg _ _ _ hc, h]

/-- What the handler does with the first part of a short body. -/
theorem enter_short {body got : Bytes} {n : Nat} (hshort : 0 < body.length ∧ body.length < 32 - 3)
    (hgot : body.take n = got) (hne : got ≠ []) :
    hCulDfuEnter src body (some n) =
      .ok (bridgeTx src (orBuiltin (cString (stripEol got)) ++ [13, 10])) := by
  have hlen : got.length < 32 - 3 := by
    rw [← hgot, List.length_take]
    omega
  have hfit : 0 + got.length ≤ 32 := by omega
  have hnul : got.length + [(0 : UInt8)].length ≤ 32 := by
    rw [List.length_singleton]
    omega
  have helems : ((cmdInit.splice 0 got hfit).splice got.length [0] hnul).elems =
      got ++ 0 :: (cmdInit.elems.drop got.length).drop 1 := by
    rw [Buf.splice_elems, Buf.splice_elems, List.take_zero, List.nil_append, Nat.zero_add,
      List.take_left' rfl, ← List.drop_drop, List.drop_left' rfl, List.append_assoc]
    rfl
  obtain ⟨cmd, rest, hloop, hcmd⟩ := stripLoop_eq got _ _ helems
  have hstr : HoldsStr cmd (cString (stripEol got)) := by
    obtain ⟨rest', hsplit⟩ := exists_nul (stripEol got) rest
    exact ⟨zero_notMem_cString _, rest', hcmd.trans hsplit⟩
  have hshortStr : (cString (stripEol got)).length < 32 - 3 := by
    have hcut := (cString_initial (stripEol got)).length_le
    have hstrip := (List.rdropWhile_prefix isEol got).length_le
    have hdef : stripEol got = got.rdropWhile isEol := rfl
    rw [← hdef] at hstrip
    omega
  rw [hCulDfuEnter, if_pos hshort, Option.map_some, hgot]
  cases got with
  | nil => exact absurd rfl hne
  | cons b got =>
    dsimp only
    rw [cmdInit.writeAll_eq _ 0 hfit, ok_bind, Buf.write_eq _ 0 hnul, ok_bind, hloop, ok_bind]
    exact finish_eq hstr hshortStr

/-- A body that is empty or does not fit sends what is built in. -/
theorem enter_builtin {body : Bytes} {arrived : Option Nat}
    (h : ¬ (0 < body.length ∧ body.length < 32 - 3)) :
    hCulDfuEnter src body arrived = .ok (bridgeTx src (asciiBytes "B01" ++ [13, 10])) := by
  have hstr : HoldsStr cmdInit (asciiBytes "B01") :=
    ⟨by decide, List.replicate 28 0, rfl⟩
  have hpick : orBuiltin (asciiBytes "B01") = asciiBytes "B01" := by decide
  rw [hCulDfuEnter, if_neg h, finish_eq hstr (by decide), hpick]

end Sent

/-! ## Sending exactly the command -/

/-- Nothing is sent and an error is the outcome, or the body without the end of its line is
sent, with a line feed behind a carriage return, `B01` if nothing is left of it. -/
def Exact (body : Bytes) (r : Result) : Prop :=
  match r.sent with
  | none => r.answer ≠ .ok
  | some data => data = orBuiltin (stripEol body) ++ [13, 10]

/-- No source is ready, or nothing of a body that is received arrives. -/
def SendsNothing (src : Option (Bytes → EspErr)) (body : Bytes) (arrived : Option Nat) : Prop :=
  src = none ∨ (0 < body.length ∧ body.length < 29 ∧ arrived.getD 0 = 0)

/-- The command comes through: a short one without a NUL that arrives whole, or in a long body
none but `B01`. -/
def ComesThrough (body : Bytes) (arrived : Option Nat) : Prop :=
  if body.length < 29 then 0 ∉ stripEol body ∧ (stripEol body).length ≤ arrived.getD 0
  else stripEol body = [] ∨ stripEol body = asciiBytes "B01"

section Exact

variable {src : Option (Bytes → EspErr)} {body : Bytes} {arrived : Option Nat} {n : Nat}

theorem exact_error {answer : Answer} (h : answer ≠ .ok) : Exact body ⟨none, answer⟩ := h

/-- Without a ready source nothing is sent. -/
theorem exact_bridgeTx_iff (cmd : Bytes) :
    Exact body (bridgeTx src (cmd ++ [13, 10])) ↔ src = none ∨ cmd = orBuiltin (stripEol body) := by
  cases src with
  | none => exact iff_of_true (exact_error (by decide)) (.inl rfl)
  | some tx =>
    have hsome : some tx ≠ none := Option.some_ne_none tx
    rw [or_iff_right hsome]
    exact List.append_left_inj [13, 10]

theorem stripEol_append {s w : Bytes} (hw : ∀ b ∈ w, isEol b = true) :
    stripEol (s ++ w) = stripEol s := by
  induction w using List.reverseRecOn with
  | nil => rw [List.append_nil]
  | append_singleton w c ih =>
    have hc : isEol c = true := hw c (List.mem_append_right w (List.mem_singleton.2 rfl))
    have htail := ih fun b hb => hw b (List.mem_append_left _ hb)
    rw [stripEol, ← List.append_assoc, List.rdropWhile_concat_pos _ _ _ hc]
    exact htail

theorem stripEol_stripEol (s : Bytes) : stripEol (stripEol s) = stripEol s :=
  List.rdropWhile_idempotent isEol s

/-- A body is its command and the end of the line. -/
theorem exists_eol (body : Bytes) : ∃ w, body = stripEol body ++ w ∧ ∀ b ∈ w, isEol b = true := by
  refine ⟨body.rtakeWhile isEol, ?_, fun b hb => List.mem_rtakeWhile_imp hb⟩
  exact List.rdropWhile_append_rtakeWhile.symm

/-- The first part that arrives has the command if it is long enough. -/
theorem stripEol_take (h : (stripEol body).length ≤ n) :
    stripEol (body.take n) = stripEol body := by
  obtain ⟨w, heq, hw⟩ := exists_eol body
  have htake : body.take n = stripEol body ++ w.take (n - (stripEol body).length) := by
    conv_lhs => rw [heq, List.take_append, List.take_of_length_le h]
  rw [htake, stripEol_append fun b hb => hw b (List.mem_of_mem_take hb), stripEol_stripEol]

/-- A string that begins with a character is not empty after its end has been cleared. -/
theorem cString_stripEol_ne_nil {b : UInt8} (heol : isEol b = false) (hb : b ≠ 0) (t : Bytes) :
    cString (stripEol (b :: t)) ≠ [] := by
  have hinit : stripEol (b :: t) <+: b :: t := List.rdropWhile_prefix isEol (b :: t)
  cases hs : stripEol (b :: t) with
  | nil =>
    have hall := List.rdropWhile_eq_nil_iff.1 hs b List.mem_cons_self
    rw [heol] at hall
    cases hall
  | cons c s =>
    rw [hs, List.cons_prefix_cons] at hinit
    rw [hinit.1, cString_cons hb]
    exact List.cons_ne_nil _ _

/-- What is sent of a short body is its command if and only if that has no NUL and has
arrived. -/
theorem sent_eq_iff (hgot : body.take n ≠ []) :
    orBuiltin (cString (stripEol (body.take n))) = orBuiltin (stripEol body) ↔
      0 ∉ stripEol body ∧ (stripEol body).length ≤ n := by
  constructor
  · intro heq
    by_cases hempty : stripEol body = []
    · rw [hempty]
      exact ⟨List.not_mem_nil, Nat.zero_le n⟩
    · by_cases hcut : cString (stripEol (body.take n)) = []
      · -- only the command `B01` is the one that is built in, and it does not get lost
        rw [hcut, orBuiltin, orBuiltin, if_pos rfl, if_neg hempty] at heq
        obtain ⟨w, hbody, -⟩ := exists_eol body
        have hcons : body = 66 :: (48 :: 49 :: w) := by
          rw [hbody, ← heq]
          rfl
        cases n with
        | zero => exact absurd (List.take_zero) hgot
        | succ n =>
          rw [hcons, List.take_succ_cons] at hcut
          exact absurd hcut (cString_stripEol_ne_nil rfl (by decide) _)
      · rw [orBuiltin, orBuiltin, if_neg hcut, if_neg hempty] at heq
        have hlen := (cString_initial (stripEol (body.take n))).length_le.trans
          (List.rdropWhile_prefix isEol (body.take n)).length_le
        rw [heq, List.length_take] at hlen
        exact ⟨heq ▸ zero_notMem_cString _, by omega⟩
  · rintro ⟨hzero, hlen⟩
    rw [stripEol_take hlen, cString_eq_self hzero]

theorem orBuiltin_eq_iff (cmd : Bytes) :
    asciiBytes "B01" = orBuiltin cmd ↔ cmd = [] ∨ cmd = asciiBytes "B01" := by
  rw [orBuiltin]
  split
  · next h => exact iff_of_true rfl (.inl h)
  · next h => rw [or_iff_right h, eq_comm]

/-- A short body. -/
theorem enter_exact_short (hshort : 0 < body.length ∧ body.length < 32 - 3) :
    ∃ r, hCulDfuEnter src body arrived = .ok r ∧
      (Exact body r ↔ SendsNothing src body arrived ∨ ComesThrough body arrived) := by
  have hclosed : Exact body ⟨none, .closed⟩ := exact_error (by decide)
  cases harr : arrived.map fun n => body.take n with
  | none =>
    refine ⟨⟨none, .closed⟩, ?_, iff_of_true hclosed (.inl (.inr ⟨hshort.1, hshort.2, ?_⟩))⟩
    · rw [hCulDfuEnter, if_pos hshort, harr]
      rfl
    · rw [Option.map_eq_none_iff.1 harr]
      rfl
  | some got =>
    obtain ⟨n, rfl, hgot⟩ := Option.map_eq_some_iff.1 harr
    by_cases hnil : got = []
    · -- the connection has been closed
      subst hnil
      have hn : n = 0 := by
        have hlen := congrArg List.length hgot
        rw [List.length_take, List.length_nil] at hlen
        omega
      refine ⟨⟨none, .closed⟩, ?_, iff_of_true hclosed (.inl (.inr ⟨hshort.1, hshort.2, hn⟩))⟩
      rw [hCulDfuEnter, if_pos hshort, harr]
      rfl
    · have hn : n ≠ 0 := by
        rintro rfl
        exact hnil hgot.symm
      have hnothing : SendsNothing src body (some n) ↔ src = none :=
        or_iff_left fun h => hn h.2.2
      refine ⟨_, enter_short hshort hgot hnil, ?_⟩
      subst hgot
      rw [exact_bridgeTx_iff, sent_eq_iff hnil, hnothing, ComesThrough, if_pos hshort.2]
      rfl

/-- For every source, body and first receive: what the handler does is exact if and only if it
sends nothing or the command comes through. -/
theorem enter_exact_iff (src : Option (Bytes → EspErr)) (body : Bytes) (arrived : Option Nat) :
    ∃ r, hCulDfuEnter src body arrived = .ok r ∧
      (Exact body r ↔ SendsNothing src body arrived ∨ ComesThrough body arrived) := by
  by_cases hshort : 0 < body.length ∧ body.length < 32 - 3
  · exact enter_exact_short hshort
  · have hnothing : SendsNothing src body arrived ↔ src = none :=
      or_iff_left fun h => hshort ⟨h.1, h.2.1⟩
    refine ⟨_, enter_builtin hshort, ?_⟩
    rw [exact_bridgeTx_iff, orBuiltin_eq_iff, hnothing]
    refine or_congr_right ?_
    by_cases hempty : body = []
    · subst hempty
      exact iff_of_true (.inl rfl) ⟨List.not_mem_nil, Nat.zero_le _⟩
    · have hlong : ¬ body.length < 29 := fun h => hshort ⟨List.length_pos_iff.2 hempty, h⟩
      rw [ComesThrough, if_neg hlong]

end Exact

/-- A body of 29 bytes is sent as `B01`, and of a command that arrives in two parts the first
part is sent. -/
theorem enter_exact_fails :
    (∃ r, hCulDfuEnter (some fun _ => .ok) (asciiBytes "ABCDEFGHIJKLMNOPQRSTUVWXYZ012")
        (some 29) = .ok r ∧ r.sent = some (asciiBytes "B01\r\n") ∧
        ¬ Exact (asciiBytes "ABCDEFGHIJKLMNOPQRSTUVWXYZ012") r) ∧
      ∃ r, hCulDfuEnter (some fun _ => .ok) (asciiBytes "reset") (some 2) = .ok r ∧
        r.sent = some (asciiBytes "re\r\n") ∧ ¬ Exact (asciiBytes "reset") r := by
  constructor
  · refine ⟨⟨some (asciiBytes "B01\r\n"), .ok⟩, by decide +kernel, rfl, ?_⟩
    rw [Exact]
    decide +kernel
  · refine ⟨⟨some (asciiBytes "re\r\n"), .ok⟩, by decide +kernel, rfl, ?_⟩
    rw [Exact]
    decide +kernel

end Cdc2Net.Dfu.Enter

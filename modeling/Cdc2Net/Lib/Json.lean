import Mathlib.Data.Nat.Digits.Lemmas
import Mathlib.Data.List.Forall2

/-!
# JSON texts

A JSON text is read byte by byte: a state is the stack of open containers and what stands at
the read head. A byte from 128 on is part of an unescaped character and stands for itself; a
unit `\uXXXX` stands for its UTF-8 bytes, two of a surrogate pair for those of the pair.

`Reads t v` says that `t` reads as the value `v` wherever a value may stand. Printers are
composed along it: a number (`reads_decimal`), a string (`Reads.string`), an array
(`Reads.array`) and an object (`Reads.object`) read as what they were made of, and a text
that reads as a value is the text of this value (`Reads.parse`).
-/

set_option autoImplicit false

namespace Cdc2Net.Lib.Json

abbrev Bytes := List UInt8

/-- A value; a number is its literal, an object the list of its members. -/
inductive Value where
  | null
  | bool (b : Bool)
  | num (lit : Bytes)
  | str (s : Bytes)
  | arr (vs : List Value)
  | obj (ms : List (Bytes × Value))

/-- The values of the members with the name `k`. -/
def Value.members (k : Bytes) : Value → List Value
  | .obj ms => (ms.filter fun m => m.1 = k).map Prod.snd
  | _ => []

theorem members_nil {ms : List (Bytes × Value)} {k : Bytes} (h : k ∉ ms.map Prod.fst) :
    (Value.obj ms).members k = [] := by
  have hfilter : ms.filter (fun m => m.1 = k) = [] := by
    rw [List.filter_eq_nil_iff]
    intro m hm hmk
    exact h (List.mem_map.2 ⟨m, hm, of_decide_eq_true hmk⟩)
  rw [Value.members, hfilter]
  rfl

theorem members_append (ms ms' : List (Bytes × Value)) (k : Bytes) :
    (Value.obj (ms ++ ms')).members k = (Value.obj ms).members k ++ (Value.obj ms').members k := by
  simp only [Value.members, List.filter_append, List.map_append]

/-- A name that no other member has. -/
theorem members_eq {ms ms' : List (Bytes × Value)} {k : Bytes} {v : Value}
    (h : k ∉ ms.map Prod.fst) (h' : k ∉ ms'.map Prod.fst) :
    (Value.obj (ms ++ (k, v) :: ms')).members k = [v] := by
  have hcons : (k, v) :: ms' = [(k, v)] ++ ms' := rfl
  rw [members_append, hcons, members_append, members_nil h, members_nil h']
  simp [Value.members]

/-- With distinct names a member is the only one of its name. -/
theorem members_of_mem {ms : List (Bytes × Value)} {k : Bytes} {v : Value}
    (hn : (ms.map Prod.fst).Nodup) (h : (k, v) ∈ ms) : (Value.obj ms).members k = [v] := by
  obtain ⟨before, after, rfl⟩ := List.append_of_mem h
  rw [List.map_append, List.map_cons, List.nodup_append, List.nodup_cons] at hn
  obtain ⟨-, ⟨hafter, -⟩, hdisj⟩ := hn
  exact members_eq (fun hk => hdisj k hk k List.mem_cons_self rfl) hafter

/-! ## The bytes of a text -/

abbrev quote : UInt8 := 34
abbrev backslash : UInt8 := 92
abbrev comma : UInt8 := 44
abbrev colon : UInt8 := 58

/-- Blank, tab, line feed and carriage return. -/
def isBlank (b : UInt8) : Bool := b = 32 || b = 9 || b = 10 || b = 13

def isDigit (b : UInt8) : Bool := 48 ≤ b && b ≤ 57

/-- A byte that ends a number. -/
def isDelim (b : UInt8) : Bool := isBlank b || b = comma || b = 93 || b = 125

/-- A byte that may stand in a string for itself. -/
def isPlain (b : UInt8) : Bool := 32 ≤ b && b ≠ quote && b ≠ backslash

def hexVal (b : UInt8) : Option Nat :=
  if 48 ≤ b ∧ b ≤ 57 then some (b.toNat - 48)
  else if 97 ≤ b ∧ b ≤ 102 then some (b.toNat - 87)
  else if 65 ≤ b ∧ b ≤ 70 then some (b.toNat - 55)
  else none

/-! ## Strings -/

/-- The UTF-8 bytes of a code point; a lone surrogate is encoded as any other. -/
def utf8 (c : Nat) : Bytes :=
  if c < 0x80 then [.ofNat c]
  else if c < 0x800 then [.ofNat (0xC0 + c / 64), .ofNat (0x80 + c % 64)]
  else if c < 0x10000 then
    [.ofNat (0xE0 + c / 4096), .ofNat (0x80 + c / 64 % 64), .ofNat (0x80 + c % 64)]
  else
    [.ofNat (0xF0 + c / 262144), .ofNat (0x80 + c / 4096 % 64), .ofNat (0x80 + c / 64 % 64),
      .ofNat (0x80 + c % 64)]

/-- The content of a string that is being read, with a high surrogate that waits for the low
one. -/
structure Content where
  bytes : Bytes
  high : Option Nat

namespace Content

def empty : Content := ⟨[], none⟩

/-- The content if nothing more belongs to the surrogate. -/
def close (c : Content) : Bytes :=
  match c.high with
  | none => c.bytes
  | some h => c.bytes ++ utf8 h

def push (c : Content) (b : UInt8) : Content := ⟨c.close ++ [b], none⟩

/-- A unit of `\uXXXX`. -/
def pushUnit (c : Content) (u : Nat) : Content :=
  match c.high with
  | some h =>
    if 0xDC00 ≤ u ∧ u < 0xE000 then
      ⟨c.bytes ++ utf8 (0x10000 + (h - 0xD800) * 1024 + (u - 0xDC00)), none⟩
    else if 0xD800 ≤ u ∧ u < 0xDC00 then ⟨c.close, some u⟩
    else ⟨c.close ++ utf8 u, none⟩
  | none =>
    if 0xD800 ≤ u ∧ u < 0xDC00 then ⟨c.bytes, some u⟩ else ⟨c.bytes ++ utf8 u, none⟩

end Content

/-- Inside a string: between characters, after a backslash, or before `left + 1` more hex
digits. -/
inductive StrPos where
  | plain
  | escape
  | hex (left v : Nat)

/-- The byte of a short escape. -/
def escapeByte (b : UInt8) : Option UInt8 :=
  if b = quote ∨ b = backslash ∨ b = 47 then some b
  else if b = 98 then some 8
  else if b = 102 then some 12
  else if b = 110 then some 10
  else if b = 114 then some 13
  else if b = 116 then some 9
  else none

/-! ## Numbers -/

/-- Inside a number, after the named part. -/
inductive NumPos where
  | minus
  | zero
  | int
  | dot
  | frac
  | exp
  | expSign
  | expDigits

/-- A fraction or an exponent begins. -/
def NumPos.tail (b : UInt8) : Option NumPos :=
  if b = 46 then some .dot else if b = 101 ∨ b = 69 then some .exp else none

/-- The integer part begins. -/
def NumPos.lead (b : UInt8) : Option NumPos :=
  if b = 48 then some .zero else if isDigit b then some .int else none

def NumPos.step : NumPos → UInt8 → Option NumPos
  | .minus, b => NumPos.lead b
  | .zero, b => NumPos.tail b
  | .int, b => if isDigit b then some .int else NumPos.tail b
  | .dot, b => if isDigit b then some .frac else none
  | .frac, b =>
    if isDigit b then some .frac else if b = 101 ∨ b = 69 then some .exp else none
  | .exp, b =>
    if isDigit b then some .expDigits else if b = 43 ∨ b = 45 then some .expSign else none
  | .expSign, b => if isDigit b then some .expDigits else none
  | .expDigits, b => if isDigit b then some .expDigits else none

/-- The number may end here. -/
def NumPos.ends : NumPos → Bool
  | .zero | .int | .frac | .expDigits => true
  | _ => false

def NumPos.start (b : UInt8) : Option NumPos :=
  if b = 45 then some .minus else NumPos.lead b

/-- A number after more bytes. -/
def NumPos.run (p : NumPos) (bs : Bytes) : Option NumPos := bs.foldlM NumPos.step p

/-- The literal of a number. -/
def isNumber : Bytes → Bool
  | [] => false
  | b :: bs => ((NumPos.start b).bind fun p => p.run bs).any NumPos.ends

/-! ## The reader -/

/-- An open container: the elements so far, or the members so far and the name of the
next. -/
inductive Frame where
  | arr (vs : List Value)
  | mem (ms : List (Bytes × Value)) (k : Bytes)

/-- What a string is: a name in an object with these members, or a value. -/
inductive Role where
  | name (ms : List (Bytes × Value))
  | value

/-- What stands at the read head. -/
inductive Phase where
  | value
  /-- After `[`. -/
  | item
  /-- A name; `}` may stand there if `close`. -/
  | name (ms : List (Bytes × Value)) (close : Bool)
  | colon (ms : List (Bytes × Value)) (k : Bytes)
  | string (role : Role) (c : Content) (p : StrPos)
  | number (p : NumPos) (lit : Bytes)
  /-- The rest of `null`, `true` or `false`. -/
  | literal (left : Bytes) (v : Value)
  | after (v : Value)

structure State where
  phase : Phase
  stack : List Frame

/-- After a value. -/
def stepAfter (v : Value) (st : List Frame) (b : UInt8) : Option State :=
  if isBlank b then some ⟨.after v, st⟩
  else
    match st with
    | [] => none
    | .arr vs :: st =>
      if b = comma then some ⟨.value, .arr (vs ++ [v]) :: st⟩
      else if b = 93 then some ⟨.after (.arr (vs ++ [v])), st⟩
      else none
    | .mem ms k :: st =>
      if b = comma then some ⟨.name (ms ++ [(k, v)]) false, st⟩
      else if b = 125 then some ⟨.after (.obj (ms ++ [(k, v)])), st⟩
      else none

/-- At a value. -/
def stepValue (st : List Frame) (b : UInt8) : Option State :=
  if isBlank b then some ⟨.value, st⟩
  else if b = quote then some ⟨.string .value .empty .plain, st⟩
  else if b = 91 then some ⟨.item, .arr [] :: st⟩
  else if b = 123 then some ⟨.name [] true, st⟩
  else if b = 110 then some ⟨.literal [117, 108, 108] .null, st⟩
  else if b = 116 then some ⟨.literal [114, 117, 101] (.bool true), st⟩
  else if b = 102 then some ⟨.literal [97, 108, 115, 101] (.bool false), st⟩
  else (NumPos.start b).map fun p => ⟨.number p [b], st⟩

/-- After a string. -/
def Role.close (c : Content) : Role → Phase
  | .name ms => .colon ms c.close
  | .value => .after (.str c.close)

/-- In a string. -/
def stepString (role : Role) (c : Content) (st : List Frame) :
    StrPos → UInt8 → Option State
  | .plain, b =>
    if b = quote then some ⟨role.close c, st⟩
    else if b = backslash then some ⟨.string role c .escape, st⟩
    else if b < 32 then none
    else some ⟨.string role (c.push b) .plain, st⟩
  | .escape, b =>
    if b = 117 then some ⟨.string role c (.hex 3 0), st⟩
    else (escapeByte b).map fun e => ⟨.string role (c.push e) .plain, st⟩
  | .hex left v, b =>
    (hexVal b).map fun d =>
      match left with
      | 0 => ⟨.string role (c.pushUnit (16 * v + d)) .plain, st⟩
      | left + 1 => ⟨.string role c (.hex left (16 * v + d)), st⟩

/-- One byte. -/
def step (s : State) (b : UInt8) : Option State :=
  match s.phase with
  | .value => stepValue s.stack b
  | .item =>
    if isBlank b then some s
    else if b = 93 then
      match s.stack with
      | .arr vs :: st => some ⟨.after (.arr vs), st⟩
      | _ => none
    else stepValue s.stack b
  | .name ms close =>
    if isBlank b then some s
    else if b = quote then some ⟨.string (.name ms) .empty .plain, s.stack⟩
    else if b = 125 ∧ close = true then some ⟨.after (.obj ms), s.stack⟩
    else none
  | .colon ms k =>
    if isBlank b then some s
    else if b = colon then some ⟨.value, .mem ms k :: s.stack⟩
    else none
  | .string role c p => stepString role c s.stack p b
  | .number p lit =>
    match p.step b with
    | some p' => some ⟨.number p' (lit ++ [b]), s.stack⟩
    | none => if p.ends then stepAfter (.num lit) s.stack b else none
  | .literal left v =>
    match left with
    | [] => none
    | c :: left =>
      if b = c then some (if left = [] then ⟨.after v, s.stack⟩ else ⟨.literal left v, s.stack⟩)
      else none
  | .after v => stepAfter v s.stack b

/-- The bytes one after the other. -/
def run (s : State) (bs : Bytes) : Option State := bs.foldlM step s

/-- A value between blanks; one more blank ends a number. -/
def parse (text : Bytes) : Option Value :=
  match run ⟨.value, []⟩ (text ++ [32]) with
  | some ⟨.after v, []⟩ => some v
  | _ => none

@[simp] theorem run_nil (s : State) : run s [] = some s := rfl

theorem run_cons (s : State) (b : UInt8) (bs : Bytes) :
    run s (b :: bs) = (step s b).bind fun t => run t bs := rfl

theorem run_append (s : State) (as bs : Bytes) :
    run s (as ++ bs) = (run s as).bind fun t => run t bs :=
  List.foldlM_append

/-! ## Texts of strings -/

section Strings

variable {role : Role} {c : Content} {st : List Frame} {s t : Bytes} {b : UInt8}

theorem step_quote : step ⟨.string role c .plain, st⟩ quote = some ⟨role.close c, st⟩ := rfl

theorem step_backslash :
    step ⟨.string role c .plain, st⟩ backslash = some ⟨.string role c .escape, st⟩ := rfl

/-- `raw` stands in a string for the bytes `s`. -/
def ReadsString (raw s : Bytes) : Prop :=
  ∀ role c st rest, c.high = none →
    run ⟨.string role c .plain, st⟩ (raw ++ rest) =
      run ⟨.string role ⟨c.bytes ++ s, none⟩ .plain, st⟩ rest

theorem ReadsString.nil : ReadsString [] [] := by
  rintro role ⟨bytes, high⟩ st rest rfl
  rw [List.append_nil]
  rfl

theorem ReadsString.append {raw raw' s s' : Bytes} (h : ReadsString raw s)
    (h' : ReadsString raw' s') : ReadsString (raw ++ raw') (s ++ s') := by
  intro role c st rest hc
  rw [List.append_assoc, h role c st _ hc, h' role ⟨_, none⟩ st rest rfl, List.append_assoc]

theorem Content.push_of_high (hc : c.high = none) (b : UInt8) :
    c.push b = ⟨c.bytes ++ [b], none⟩ := by
  rw [Content.push, Content.close, hc]

theorem not_lt_of_isPlain (h : isPlain b = true) : b ≠ quote ∧ b ≠ backslash ∧ ¬ b < 32 := by
  simp only [isPlain, Bool.and_eq_true, decide_eq_true_eq] at h
  exact ⟨h.1.2, h.2, fun hlt => absurd hlt (UInt8.not_lt.2 h.1.1)⟩

theorem isPlain_iff (h : 32 ≤ b) : isPlain b = true ↔ ¬ (b = quote ∨ b = backslash) := by
  simp [isPlain, h]

/-- An unescaped byte. -/
theorem ReadsString.plain (h : isPlain b = true) : ReadsString [b] [b] := by
  intro role c st rest hc
  obtain ⟨hquote, hback, hlt⟩ := not_lt_of_isPlain h
  rw [List.singleton_append, run_cons]
  simp only [step, stepString, if_neg hquote, if_neg hback, if_neg hlt, Option.bind_some,
    Content.push_of_high hc]

/-- A short escape. -/
theorem ReadsString.escape {e : UInt8} (h : escapeByte b = some e) :
    ReadsString [backslash, b] [e] := by
  intro role c st rest hc
  have hu : b ≠ 117 := by
    rintro rfl
    cases h
  rw [List.cons_append, List.singleton_append, run_cons, step_backslash, Option.bind_some,
    run_cons, step]
  simp only [stepString, if_neg hu, h, Option.map_some, Option.bind_some,
    Content.push_of_high hc]

theorem step_hex {left v d : Nat} (h : hexVal b = some d) :
    step ⟨.string role c (.hex (left + 1) v), st⟩ b =
      some ⟨.string role c (.hex left (16 * v + d)), st⟩ := by
  simp only [step, stepString, h, Option.map_some]

/-- A unit that is no surrogate. -/
theorem ReadsString.unit {h₁ h₂ h₃ h₄ : UInt8} {d₁ d₂ d₃ d₄ u : Nat} (e₁ : hexVal h₁ = some d₁)
    (e₂ : hexVal h₂ = some d₂) (e₃ : hexVal h₃ = some d₃) (e₄ : hexVal h₄ = some d₄)
    (hu : u = 16 * (16 * (16 * d₁ + d₂) + d₃) + d₄) (hlow : u < 0xD800) :
    ReadsString [backslash, 117, h₁, h₂, h₃, h₄] (utf8 u) := by
  intro role c st rest hc
  have hopen : run ⟨.string role c .plain, st⟩ (backslash :: 117 :: h₁ :: h₂ :: h₃ :: h₄ :: rest) =
      run ⟨.string role c (.hex 3 0), st⟩ (h₁ :: h₂ :: h₃ :: h₄ :: rest) := rfl
  have hunit : c.pushUnit u = ⟨c.bytes ++ utf8 u, none⟩ := by
    rw [Content.pushUnit, hc]
    exact if_neg (by omega)
  refine hopen.trans ?_
  rw [run_cons, step_hex e₁, Option.bind_some, run_cons, step_hex e₂, Option.bind_some, run_cons,
    step_hex e₃, Option.bind_some, run_cons, step]
  simp only [stepString, e₄, Option.map_some, Option.bind_some, Nat.mul_zero, Nat.zero_add,
    ← hu, hunit]

/-- Plain bytes stand for themselves. -/
theorem ReadsString.of_plain (h : ∀ b ∈ s, isPlain b = true) : ReadsString s s := by
  induction s with
  | nil => exact .nil
  | cons b s ih =>
    exact (ReadsString.plain (h b List.mem_cons_self)).append
      (ih fun b' hb' => h b' (List.mem_cons_of_mem b hb'))

/-- A string between its quotes. -/
theorem ReadsString.quoted {raw s : Bytes} (h : ReadsString raw s) (role : Role)
    (st : List Frame) (rest : Bytes) :
    run ⟨.string role .empty .plain, st⟩ (raw ++ quote :: rest) =
      run ⟨role.close ⟨s, none⟩, st⟩ rest := by
  rw [h role .empty st _ rfl, run_cons, step_quote]
  rfl

end Strings

/-! ## Texts of values -/

/-- `t` reads as `v` wherever a value may stand and be followed by a delimiter. -/
def Reads (t : Bytes) (v : Value) : Prop :=
  ∀ st b rest, isDelim b = true →
    run ⟨.value, st⟩ (t ++ b :: rest) = run ⟨.after v, st⟩ (b :: rest)

/-- `t` reads as the name `k` and its colon. -/
def ReadsName (t k : Bytes) : Prop :=
  ∀ ms close st rest,
    run ⟨.name ms close, st⟩ (t ++ rest) = run ⟨.value, .mem ms k :: st⟩ rest

section Texts

variable {t s lit k : Bytes} {v : Value} {b : UInt8}

/-- A text that reads as a value is a text of this value. -/
theorem Reads.parse (h : Reads t v) : parse t = some v := by
  rw [Json.parse, h [] 32 [] rfl]
  rfl

theorem isDelim_of_isBlank (h : isBlank b = true) : isDelim b = true := by
  simp [isDelim, h]

/-- Blanks before a value. -/
theorem Reads.blank_left (hb : isBlank b = true) (h : Reads t v) : Reads (b :: t) v := by
  intro st b' rest hb'
  rw [List.cons_append, run_cons, step]
  simp only [stepValue, if_pos hb, Option.bind_some]
  exact h st b' rest hb'

theorem Reads.blanks_left {ws : Bytes} (hws : ∀ b ∈ ws, isBlank b = true) (h : Reads t v) :
    Reads (ws ++ t) v := by
  induction ws with
  | nil => exact h
  | cons b ws ih =>
    exact .blank_left (hws b List.mem_cons_self)
      (ih fun b' hb' => hws b' (List.mem_cons_of_mem b hb'))

/-- Blanks after a value. -/
theorem Reads.blanks_right {ws : Bytes} (hws : ∀ b ∈ ws, isBlank b = true) (h : Reads t v) :
    Reads (t ++ ws) v := by
  intro st b rest hb
  have hskip : ∀ {ws : Bytes}, (∀ b ∈ ws, isBlank b = true) →
      run ⟨.after v, st⟩ (ws ++ b :: rest) = run ⟨.after v, st⟩ (b :: rest) := by
    intro ws
    induction ws with
    | nil => exact fun _ => rfl
    | cons b' ws ih =>
      intro hws
      rw [List.cons_append, run_cons, step]
      simp only [stepAfter, if_pos (hws b' List.mem_cons_self), Option.bind_some]
      exact ih fun b'' hb'' => hws b'' (List.mem_cons_of_mem b' hb'')
  cases ws with
  | nil =>
    rw [List.append_nil]
    exact h st b rest hb
  | cons b' ws =>
    rw [List.append_assoc, List.cons_append,
      h st b' _ (isDelim_of_isBlank (hws b' List.mem_cons_self)), ← List.cons_append]
    exact hskip hws

/-- A string. -/
theorem Reads.string {raw : Bytes} (h : ReadsString raw s) :
    Reads (quote :: raw ++ [quote]) (.str s) := by
  intro st b rest hb
  rw [List.append_assoc, List.cons_append, run_cons]
  exact h.quoted .value st (b :: rest)

theorem Reads.true : Reads [116, 114, 117, 101] (.bool Bool.true) := fun _ _ _ _ => rfl

theorem Reads.false : Reads [102, 97, 108, 115, 101] (.bool Bool.false) := fun _ _ _ _ => rfl

theorem Reads.null : Reads [110, 117, 108, 108] .null := fun _ _ _ _ => rfl

/-! ### Numbers -/

theorem isDelim_cases (h : isDelim b = Bool.true) :
    b = 32 ∨ b = 9 ∨ b = 10 ∨ b = 13 ∨ b = 44 ∨ b = 93 ∨ b = 125 := by
  simpa [isDelim, isBlank, or_assoc] using h

/-- No number goes on over a delimiter. -/
theorem NumPos.step_delim (p : NumPos) (h : isDelim b = Bool.true) : p.step b = none := by
  rcases isDelim_cases h with rfl | rfl | rfl | rfl | rfl | rfl | rfl <;> cases p <;> rfl

theorem run_number {p q : NumPos} {bs : Bytes} (h : p.run bs = some q) (st : List Frame)
    (rest : Bytes) :
    run ⟨.number p lit, st⟩ (bs ++ rest) = run ⟨.number q (lit ++ bs), st⟩ rest := by
  induction bs generalizing p lit with
  | nil =>
    cases h
    rw [List.append_nil]
    rfl
  | cons b bs ih =>
    obtain ⟨p', hp', hrun⟩ := Option.bind_eq_some_iff.1 h
    rw [List.cons_append, run_cons, Json.step]
    simp only [hp', Option.bind_some]
    rw [ih hrun, List.append_assoc, List.singleton_append]

/-- The first byte of a number opens nothing else. -/
theorem stepValue_start {p : NumPos} (h : NumPos.start b = some p) (st : List Frame) :
    stepValue st b = some ⟨.number p [b], st⟩ := by
  have hrange : 45 ≤ b.toNat ∧ b.toNat ≤ 57 := by
    rw [NumPos.start] at h
    split at h
    · next hminus =>
      subst hminus
      decide
    · rw [NumPos.lead] at h
      split at h
      · next hzero =>
        subst hzero
        decide
      · split at h
        · next hdigit =>
          simp only [isDigit, Bool.and_eq_true, decide_eq_true_eq,
            UInt8.le_iff_toNat_le] at hdigit
          exact ⟨Nat.le_trans (by decide) hdigit.1, hdigit.2⟩
        · cases h
  have hne : ∀ c : UInt8, c.toNat < 45 ∨ 57 < c.toNat → b ≠ c := by
    rintro c hc rfl
    omega
  have hblank : isBlank b = Bool.false := by
    simp [isBlank, hne 32 (by decide), hne 9 (by decide), hne 10 (by decide),
      hne 13 (by decide)]
  simp only [stepValue, hblank, Bool.false_eq_true, if_false, if_neg (hne quote (by decide)),
    if_neg (hne 91 (by decide)), if_neg (hne 123 (by decide)), if_neg (hne 110 (by decide)),
    if_neg (hne 116 (by decide)), if_neg (hne 102 (by decide)), h, Option.map_some]

/-- A number. -/
theorem Reads.number (h : isNumber lit = Bool.true) : Reads lit (.num lit) := by
  intro st b rest hb
  cases lit with
  | nil => cases h
  | cons c bs =>
    simp only [isNumber, Option.any_eq_true, Option.bind_eq_some_iff] at h
    obtain ⟨q, ⟨p, hstart, hrun⟩, hends⟩ := h
    rw [List.cons_append, run_cons, Json.step]
    simp only [stepValue_start hstart, Option.bind_some]
    rw [run_number hrun, List.singleton_append, run_cons, run_cons, Json.step, Json.step]
    simp only [NumPos.step_delim q hb, hends, if_true]

/-- A byte that stands at no place of a number. -/
theorem notMem_number {c : UInt8} (hstart : NumPos.start c = none)
    (hstep : ∀ p : NumPos, p.step c = none) (h : isNumber lit = Bool.true) : c ∉ lit := by
  have hrun : ∀ {bs : Bytes} {p q : NumPos}, p.run bs = some q → c ∉ bs := by
    intro bs
    induction bs with
    | nil => exact fun _ => List.not_mem_nil
    | cons b bs ih =>
      intro p q hpq hmem
      obtain ⟨p', hp', hq⟩ := Option.bind_eq_some_iff.1 hpq
      rcases List.mem_cons.1 hmem with rfl | hmem
      · rw [hstep p] at hp'
        cases hp'
      · exact ih hq hmem
  cases lit with
  | nil => exact List.not_mem_nil
  | cons b bs =>
    simp only [isNumber, Option.any_eq_true, Option.bind_eq_some_iff] at h
    obtain ⟨q, ⟨p, hb, hbs⟩, -⟩ := h
    intro hmem
    rcases List.mem_cons.1 hmem with rfl | hmem
    · rw [hstart] at hb
      cases hb
    · exact hrun hbs hmem

theorem isDigit_step (h : isDigit b = Bool.true) : NumPos.step .int b = some .int := by
  rw [NumPos.step, if_pos h]

theorem run_digits {bs : Bytes} (h : ∀ b ∈ bs, isDigit b = Bool.true) :
    NumPos.run .int bs = some .int := by
  induction bs with
  | nil => rfl
  | cons b bs ih =>
    exact Option.bind_eq_some_iff.2 ⟨.int, isDigit_step (h b List.mem_cons_self),
      ih fun b' hb' => h b' (List.mem_cons_of_mem b hb')⟩

/-- The decimal digits of a number. -/
def decimal (n : Nat) : Bytes :=
  if n = 0 then [48] else (Nat.digits 10 n).reverse.map fun d => UInt8.ofNat (48 + d)

theorem isDigit_ofNat {d : Nat} (h : d < 10) : isDigit (.ofNat (48 + d)) = Bool.true := by
  simp only [isDigit, Bool.and_eq_true, decide_eq_true_eq, UInt8.le_iff_toNat_le,
    UInt8.toNat_ofNat']
  simp
  omega

theorem isDigit_decimal {n : Nat} : ∀ b ∈ decimal n, isDigit b = Bool.true := by
  intro b hb
  rw [decimal] at hb
  split at hb
  · rw [List.mem_singleton.1 hb]
    rfl
  · obtain ⟨d, hd, rfl⟩ := List.mem_map.1 hb
    exact isDigit_ofNat (Nat.digits_lt_base (by decide) (List.mem_reverse.1 hd))

theorem isNumber_decimal (n : Nat) : isNumber (decimal n) = Bool.true := by
  have hdigits := isDigit_decimal (n := n)
  by_cases hn : n = 0
  · subst hn
    rfl
  · have hlast := Nat.getLast_digit_ne_zero 10 hn
    have hne : Nat.digits 10 n ≠ [] := Nat.digits_ne_nil_iff_ne_zero.2 hn
    rw [decimal, if_neg hn] at hdigits ⊢
    have hrev : (Nat.digits 10 n).reverse =
        (Nat.digits 10 n).getLast hne :: (Nat.digits 10 n).dropLast.reverse := by
      rw [← List.reverse_concat, List.dropLast_append_getLast]
    rw [hrev, List.map_cons] at hdigits ⊢
    have hlt : (Nat.digits 10 n).getLast hne < 10 :=
      Nat.digits_lt_base (by decide) (List.getLast_mem hne)
    have hstart : NumPos.start (.ofNat (48 + (Nat.digits 10 n).getLast hne)) = some .int := by
      have hminus : UInt8.ofNat (48 + (Nat.digits 10 n).getLast hne) ≠ 45 := by
        simp only [ne_eq, ← UInt8.toNat_inj, UInt8.toNat_ofNat']
        simp
        omega
      have hzero : UInt8.ofNat (48 + (Nat.digits 10 n).getLast hne) ≠ 48 := by
        simp only [ne_eq, ← UInt8.toNat_inj, UInt8.toNat_ofNat']
        simp
        omega
      rw [NumPos.start, if_neg hminus, NumPos.lead, if_neg hzero,
        if_pos (hdigits _ List.mem_cons_self)]
    simp only [isNumber, hstart, Option.bind_some,
      run_digits fun b hb => hdigits b (List.mem_cons_of_mem _ hb), Option.any_some]
    rfl

/-- A number after a minus sign. -/
theorem isNumber_minus {b : UInt8} {bs : Bytes} (hb : b ≠ 45)
    (h : isNumber (b :: bs) = Bool.true) : isNumber (45 :: b :: bs) = Bool.true := by
  rw [isNumber, NumPos.start, if_neg hb] at h
  rw [isNumber, NumPos.start, if_pos rfl, Option.bind_some, NumPos.run, List.foldlM_cons]
  exact h

theorem reads_decimal (n : Nat) : Reads (decimal n) (.num (decimal n)) :=
  .number (isNumber_decimal n)

theorem length_decimal_le {n k : Nat} (hk : 0 < k) (h : n < 10 ^ k) : (decimal n).length ≤ k := by
  rw [decimal]
  split
  · exact hk
  · rw [List.length_map, List.length_reverse]
    exact (Nat.digits_length_le_iff (by decide) n).2 h

/-- The number that digits stand for. -/
def digitsValue (t : Bytes) : Nat := t.foldl (fun v c => c.toNat - 48 + 10 * v) 0

theorem digitsValue_decimal (n : Nat) : digitsValue (decimal n) = n := by
  by_cases hn : n = 0
  · rw [hn]
    rfl
  · rw [digitsValue, decimal, if_neg hn, List.foldl_map, List.foldl_reverse]
    have hdigits : (Nat.digits 10 n).foldr
        (fun d v => (UInt8.ofNat (48 + d)).toNat - 48 + 10 * v) 0 =
        (Nat.digits 10 n).foldr (fun d v => d + 10 * v) 0 := by
      refine List.foldr_ext _ _ _ fun d hd v => ?_
      have hlt : d < 10 := Nat.digits_lt_base (by decide) hd
      rw [UInt8.toNat_ofNat', Nat.mod_eq_of_lt (by omega), Nat.add_sub_cancel_left]
    rw [hdigits]
    have hof := Nat.ofDigits_eq_foldr 10 (Nat.digits 10 n)
    rw [Nat.ofDigits_digits] at hof
    exact hof.symm

theorem decimal_inj {m n : Nat} (h : decimal m = decimal n) : m = n := by
  rw [← digitsValue_decimal m, h, digitsValue_decimal]

/-! ### Arrays and objects -/

/-- The first element of an array is read as any value. -/
theorem Reads.item (h : Reads t v) {b : UInt8} (hb : isDelim b = Bool.true) (st : List Frame)
    (rest : Bytes) :
    run ⟨.item, .arr [] :: st⟩ (t ++ b :: rest) =
      run ⟨.after v, .arr [] :: st⟩ (b :: rest) := by
  induction t with
  | nil =>
    -- the empty text is not a value
    have hnil := h [] 32 [] rfl
    cases hnil
  | cons c t ih =>
    by_cases hblank : isBlank c = Bool.true
    · have htail : Reads t v := by
        intro st' b' rest' hb'
        have hcons := h st' b' rest' hb'
        rw [List.cons_append, run_cons, Json.step] at hcons
        simpa only [stepValue, if_pos hblank, Option.bind_some] using hcons
      rw [List.cons_append, run_cons, Json.step]
      simp only [if_pos hblank, Option.bind_some]
      exact ih htail
    · have hclose : c ≠ 93 := by
        rintro rfl
        have hvalue := h [] 32 [] rfl
        cases hvalue
      rw [← h (.arr [] :: st) b rest hb, List.cons_append, run_cons, run_cons, Json.step,
        Json.step]
      simp only [if_neg hblank, if_neg hclose]

/-- The elements of an array, after some. -/
theorem run_elements {es : List (Bytes × Value)} (h : ∀ e ∈ es, Reads e.1 e.2) (hne : es ≠ [])
    (vs : List Value) (st : List Frame) (rest : Bytes) :
    run ⟨.value, .arr vs :: st⟩ ([comma].intercalate (es.map Prod.fst) ++ 93 :: rest) =
      run ⟨.after (.arr (vs ++ es.map Prod.snd)), st⟩ rest := by
  induction es generalizing vs with
  | nil => exact absurd rfl hne
  | cons e es ih =>
    have hhead := h e List.mem_cons_self
    cases es with
    | nil =>
      rw [List.map_singleton, List.intercalate_singleton, hhead _ 93 rest rfl]
      rfl
    | cons e' es =>
      rw [List.map_cons, List.map_cons, List.intercalate_cons_cons, List.append_assoc,
        List.append_assoc, List.singleton_append, hhead _ comma _ rfl, run_cons]
      refine (ih (fun e'' he'' => h e'' (List.mem_cons_of_mem e he'')) (by simp)
        (vs ++ [e.2])).trans ?_
      rw [List.append_assoc]
      rfl

/-- An array of texts that read as values. -/
theorem Reads.array {es : List (Bytes × Value)} (h : ∀ e ∈ es, Reads e.1 e.2) :
    Reads (91 :: [comma].intercalate (es.map Prod.fst) ++ [93]) (.arr (es.map Prod.snd)) := by
  intro st b rest hb
  cases es with
  | nil => rfl
  | cons e es =>
    have hhead := h e List.mem_cons_self
    rw [List.append_assoc, List.cons_append, run_cons]
    cases es with
    | nil =>
      rw [List.map_singleton, List.intercalate_singleton]
      exact hhead.item rfl st (b :: rest)
    | cons e' es =>
      rw [List.map_cons, List.map_cons, List.intercalate_cons_cons, List.append_assoc,
        List.append_assoc, List.singleton_append]
      refine (hhead.item rfl st _).trans ?_
      rw [run_cons]
      exact run_elements (fun e'' he'' => h e'' (List.mem_cons_of_mem e he'')) (by simp)
        [e.2] st (b :: rest)

/-- A member of an object: the texts of its name, up to the colon, and of its value, and what
they read as. -/
structure Field where
  name : Bytes
  text : Bytes
  key : Bytes
  value : Value

namespace Field

/-- The text of the member. -/
def print (f : Field) : Bytes := f.name ++ f.text

/-- The member. -/
def member (f : Field) : Bytes × Value := (f.key, f.value)

/-- Its texts read as it says. -/
def Sound (f : Field) : Prop := ReadsName f.name f.key ∧ Reads f.text f.value

end Field

/-- The text of an object. -/
def object (fs : List Field) : Bytes :=
  123 :: [comma].intercalate (fs.map Field.print) ++ [125]

theorem run_members {fs : List Field} (h : ∀ f ∈ fs, f.Sound) (hne : fs ≠ [])
    (ms : List (Bytes × Value)) (close : Bool) (st : List Frame) (rest : Bytes) :
    run ⟨.name ms close, st⟩ ([comma].intercalate (fs.map Field.print) ++ 125 :: rest) =
      run ⟨.after (.obj (ms ++ fs.map Field.member)), st⟩ rest := by
  induction fs generalizing ms close with
  | nil => exact absurd rfl hne
  | cons f fs ih =>
    obtain ⟨hname, htext⟩ := h f List.mem_cons_self
    cases fs with
    | nil =>
      rw [List.map_singleton, List.intercalate_singleton, Field.print, List.append_assoc, hname,
        htext _ 125 rest rfl]
      rfl
    | cons f' fs =>
      rw [List.map_cons, List.map_cons, List.intercalate_cons_cons, Field.print,
        List.append_assoc, List.append_assoc, List.append_assoc, hname, List.singleton_append,
        htext _ comma _ rfl, run_cons]
      refine (ih (fun f'' hf'' => h f'' (List.mem_cons_of_mem f hf'')) (by simp)
        (ms ++ [f.member]) false).trans ?_
      rw [List.append_assoc]
      rfl

/-- An object of members that read as they say. -/
theorem Reads.object {fs : List Field} (h : ∀ f ∈ fs, f.Sound) :
    Reads (object fs) (.obj (fs.map Field.member)) := by
  intro st b rest _
  cases fs with
  | nil => rfl
  | cons f fs =>
    rw [Json.object, List.append_assoc, List.cons_append, run_cons]
    exact run_members h (by simp) [] Bool.true st (b :: rest)

/-- A name in quotes and its colon, with blanks before each. -/
theorem ReadsName.quoted {raw ws ws' : Bytes} (hws : ∀ b ∈ ws, isBlank b = Bool.true)
    (h : ReadsString raw k) (hws' : ∀ b ∈ ws', isBlank b = Bool.true) :
    ReadsName (ws ++ (quote :: raw ++ quote :: (ws' ++ [colon]))) k := by
  intro ms close st rest
  have hbefore : ∀ {ws rest : Bytes}, (∀ b ∈ ws, isBlank b = Bool.true) →
      run ⟨.name ms close, st⟩ (ws ++ rest) = run ⟨.name ms close, st⟩ rest := by
    intro ws rest
    induction ws with
    | nil => exact fun _ => rfl
    | cons b ws ih =>
      intro hws
      rw [List.cons_append, run_cons, Json.step]
      simp only [if_pos (hws b List.mem_cons_self), Option.bind_some]
      exact ih fun b' hb' => hws b' (List.mem_cons_of_mem b hb')
  have hafter : ∀ {ws : Bytes}, (∀ b ∈ ws, isBlank b = Bool.true) →
      run ⟨.colon ms k, st⟩ (ws ++ colon :: rest) = run ⟨.value, .mem ms k :: st⟩ rest := by
    intro ws
    induction ws with
    | nil => exact fun _ => rfl
    | cons b ws ih =>
      intro hws
      rw [List.cons_append, run_cons, Json.step]
      simp only [if_pos (hws b List.mem_cons_self), Option.bind_some]
      exact ih fun b' hb' => hws b' (List.mem_cons_of_mem b hb')
  rw [List.append_assoc, hbefore hws, List.append_assoc, List.cons_append, run_cons,
    List.cons_append, List.append_assoc, List.singleton_append, ← hafter hws']
  exact h.quoted (.name ms) st (ws' ++ colon :: rest)

end Texts

/-! ### Printers -/

/-- A name that needs no escapes. -/
theorem ReadsName.plain {k : Bytes} (h : ∀ b ∈ k, isPlain b = true) :
    ReadsName (quote :: k ++ [quote, colon]) k := by
  have hblank : ∀ b ∈ ([] : Bytes), isBlank b = true := by simp
  simpa using ReadsName.quoted hblank (.of_plain h) hblank

/-- An object from names that need no escapes and the texts of their values. -/
def printObject (ms : List (Bytes × Bytes)) : Bytes :=
  123 :: [comma].intercalate (ms.map fun m => quote :: m.1 ++ [quote, colon] ++ m.2) ++ [125]

theorem length_intercalate_comma (ts : List Bytes) :
    ([comma].intercalate ts).length ≤ (ts.map fun t => t.length + 1).sum := by
  induction ts with
  | nil => exact Nat.le_refl 0
  | cons t ts ih =>
    rw [List.map_cons, List.sum_cons]
    cases ts with
    | nil => simp [List.intercalate]
    | cons u us =>
      rw [List.intercalate_cons_cons, List.length_append, List.length_append]
      simp only [List.length_singleton]
      omega

/-- The length of an object's text. -/
theorem length_printObject_le (ms : List (Bytes × Bytes)) :
    (printObject ms).length ≤ (ms.map fun m => m.1.length + m.2.length + 4).sum + 2 := by
  have hmembers := length_intercalate_comma
    (ms.map fun m => quote :: m.1 ++ [quote, colon] ++ m.2)
  have hmember : (fun m : Bytes × Bytes => (quote :: m.1 ++ [quote, colon] ++ m.2).length + 1) =
      fun m => m.1.length + m.2.length + 4 := by
    funext m
    simp only [List.length_append, List.length_cons, List.length_nil]
    omega
  rw [List.map_map, Function.comp_def, hmember] at hmembers
  rw [printObject, List.length_append, List.length_cons, List.length_singleton]
  omega
/-- The text of some value. -/
def Readable (t : Bytes) : Prop := ∃ v, Reads t v

/-- The members of a text and what they read as. -/
def ReadsMembers (ms : List (Bytes × Bytes)) (vs : List (Bytes × Value)) : Prop :=
  List.Forall₂ (fun m v => (∀ b ∈ m.1, isPlain b = true) ∧ m.1 = v.1 ∧ Reads m.2 v.2) ms vs

section Printers

variable {ms before after : List (Bytes × Bytes)} {vs : List (Bytes × Value)} {k t : Bytes}
  {v : Value}

theorem Reads.printObject (h : ReadsMembers ms vs) : Reads (printObject ms) (.obj vs) := by
  obtain ⟨fs, hprint, hmember, hsound⟩ : ∃ fs : List Field,
      fs.map Field.print = ms.map (fun m => quote :: m.1 ++ [quote, colon] ++ m.2) ∧
        fs.map Field.member = vs ∧ ∀ f ∈ fs, f.Sound := by
    induction h with
    | nil => exact ⟨[], rfl, rfl, by simp⟩
    | @cons m v ms vs hm _ ih =>
      obtain ⟨fs, hprint, hmember, hsound⟩ := ih
      obtain ⟨hplain, hkey, hreads⟩ := hm
      refine ⟨⟨quote :: m.1 ++ [quote, colon], m.2, m.1, v.2⟩ :: fs, ?_, ?_, ?_⟩
      · rw [List.map_cons, hprint]
        rfl
      · rw [List.map_cons, hmember, Field.member, hkey]
      · rintro f (_ | ⟨_, hf⟩)
        · exact ⟨.plain hplain, hreads⟩
        · exact hsound f hf
  rw [Json.printObject, ← hprint, ← hmember]
  exact Reads.object hsound

/-- Texts that all read as some value are the members of an object. -/
theorem exists_readsMembers (h : ∀ m ∈ ms, (∀ b ∈ m.1, isPlain b = true) ∧ Readable m.2) :
    ∃ vs, ReadsMembers ms vs ∧ vs.map Prod.fst = ms.map Prod.fst := by
  induction ms with
  | nil => exact ⟨[], .nil, rfl⟩
  | cons m ms ih =>
    obtain ⟨hplain, v, hv⟩ := h m List.mem_cons_self
    obtain ⟨vs, hvs, hkeys⟩ := ih fun m' hm' => h m' (List.mem_cons_of_mem m hm')
    exact ⟨(m.1, v) :: vs, .cons ⟨hplain, rfl, hv⟩ hvs, by rw [List.map_cons, hkeys]; rfl⟩

theorem Readable.array {ts : List Bytes} (h : ∀ t ∈ ts, Readable t) :
    Readable (91 :: [comma].intercalate ts ++ [93]) := by
  obtain ⟨es, hts, hes⟩ : ∃ es : List (Bytes × Value), es.map Prod.fst = ts ∧
      ∀ e ∈ es, Reads e.1 e.2 := by
    induction ts with
    | nil => exact ⟨[], rfl, by simp⟩
    | cons t ts ih =>
      obtain ⟨v, hv⟩ := h t List.mem_cons_self
      obtain ⟨es, hts, hes⟩ := ih fun t' ht' => h t' (List.mem_cons_of_mem t ht')
      refine ⟨(t, v) :: es, by rw [List.map_cons, hts], ?_⟩
      rintro e (_ | ⟨_, he⟩)
      · exact hv
      · exact hes e he
  rw [← hts]
  exact ⟨_, .array hes⟩

theorem Readable.printObject (h : ∀ m ∈ ms, (∀ b ∈ m.1, isPlain b = true) ∧ Readable m.2) :
    Readable (printObject ms) :=
  let ⟨vs, hvs, _⟩ := exists_readsMembers h
  ⟨.obj vs, .printObject hvs⟩

/-- A name that no other member has, in an object whose other members read as some value. -/
theorem exists_members_eq (hk : ∀ b ∈ k, isPlain b = true) (hv : Reads t v)
    (h : ∀ m ∈ before ++ after, (∀ b ∈ m.1, isPlain b = true) ∧ Readable m.2)
    (hne : k ∉ (before ++ after).map Prod.fst) :
    ∃ w, Reads (printObject (before ++ (k, t) :: after)) w ∧ w.members k = [v] := by
  obtain ⟨vs, hvs, hkeys⟩ := exists_readsMembers fun m hm => h m (List.mem_append_left _ hm)
  obtain ⟨vs', hvs', hkeys'⟩ := exists_readsMembers fun m hm => h m (List.mem_append_right _ hm)
  refine ⟨.obj (vs ++ (k, v) :: vs'), .printObject ?_, ?_⟩
  · exact List.rel_append hvs (.cons ⟨hk, rfl, hv⟩ hvs')
  · rw [List.map_append, List.mem_append, not_or, ← hkeys, ← hkeys'] at hne
    exact members_eq hne.1 hne.2

end Printers

/-! ## Texts that leave a container open -/

/-- An object is open before its first member has a frame. -/
def Phase.depth : Phase → Nat
  | .name _ _ => 1
  | .colon _ _ => 1
  | .string (.name _) _ _ => 1
  | _ => 0

/-- The number of open containers. -/
def State.depth (s : State) : Nat := s.phase.depth + s.stack.length

/-- A byte that may close a container. -/
def closes (b : UInt8) : Bool := b = 93 || b = 125

section Open

variable {s t : State} {v : Value} {st : List Frame} {b : UInt8} {u tail : Bytes}

theorem stepAfter_depth (h : stepAfter v st b = some t) :
    st.length ≤ t.depth + if closes b = Bool.true then 1 else 0 := by
  unfold stepAfter at h
  split at h
  · cases h
    simp [State.depth, Phase.depth]
  · cases st with
    | nil => cases h
    | cons f st =>
      cases f with
      | arr vs =>
        dsimp only at h
        split at h
        · cases h
          simp [State.depth, Phase.depth]
        · split at h
          · next hclose =>
            cases h
            simp [State.depth, Phase.depth, closes, hclose]
          · cases h
      | mem ms k =>
        dsimp only at h
        split at h
        · cases h
          simp [State.depth, Phase.depth, Nat.add_comm]
        · split at h
          · next hclose =>
            cases h
            simp [State.depth, Phase.depth, closes, hclose]
          · cases h

theorem stepValue_depth (h : stepValue st b = some t) : st.length ≤ t.depth := by
  rw [stepValue] at h
  split_ifs at h
  case neg =>
    obtain ⟨p, -, rfl⟩ := Option.map_eq_some_iff.1 h
    simp [State.depth]
  all_goals
    cases h
    simp [State.depth, Phase.depth]

theorem stepString_depth {role : Role} {c : Content} {p : StrPos}
    (h : stepString role c st p b = some t) :
    State.depth ⟨.string role c p, st⟩ ≤ t.depth := by
  cases p with
  | plain =>
    rw [stepString] at h
    split_ifs at h
    · cases h
      cases role <;> simp [State.depth, Phase.depth, Role.close]
    all_goals
      cases h
      cases role <;> simp [State.depth, Phase.depth]
  | escape =>
    rw [stepString] at h
    split_ifs at h
    · cases h
      cases role <;> simp [State.depth, Phase.depth]
    · obtain ⟨e, -, rfl⟩ := Option.map_eq_some_iff.1 h
      cases role <;> simp [State.depth, Phase.depth]
  | hex left w =>
    rw [stepString] at h
    obtain ⟨d, -, rfl⟩ := Option.map_eq_some_iff.1 h
    cases left <;> cases role <;> simp [State.depth, Phase.depth]

/-- A byte closes at most one container, and only a closing byte does. -/
theorem step_depth (h : step s b = some t) :
    s.depth ≤ t.depth + if closes b = Bool.true then 1 else 0 := by
  obtain ⟨phase, st⟩ := s
  cases phase with
  | value =>
    have hle := stepValue_depth h
    simp only [State.depth, Phase.depth] at hle ⊢
    omega
  | item =>
    simp only [step] at h
    split_ifs at h with hblank hclose
    · cases h
      simp
    · cases st with
      | nil => cases h
      | cons f st =>
        cases f with
        | arr vs =>
          cases h
          simp [State.depth, Phase.depth, closes, hclose]
        | mem ms k => cases h
    · have hle := stepValue_depth h
      simp only [State.depth, Phase.depth] at hle ⊢
      omega
  | name ms close =>
    simp only [step] at h
    split_ifs at h with hblank hquote hclose
    · cases h
      simp
    · cases h
      simp [State.depth, Phase.depth]
    · cases h
      simp [State.depth, Phase.depth, closes, hclose.1, Nat.add_comm]
  | colon ms k =>
    simp only [step] at h
    split_ifs at h
    · cases h
      simp
    · cases h
      simp [State.depth, Phase.depth, Nat.add_comm]
  | string role c p => exact (stepString_depth h).trans (Nat.le_add_right _ _)
  | number p lit =>
    simp only [step] at h
    split at h
    · cases h
      simp [State.depth, Phase.depth]
    · split at h
      · have hle := stepAfter_depth h
        simp only [State.depth, Phase.depth] at hle ⊢
        omega
      · cases h
  | literal left w =>
    cases left with
    | nil => cases h
    | cons c left =>
      simp only [step] at h
      split_ifs at h <;>
      · cases h
        simp [State.depth, Phase.depth]
  | after w =>
    have hle := stepAfter_depth h
    simp only [State.depth, Phase.depth] at hle ⊢
    omega

theorem run_depth (h : run s u = some t) : s.depth ≤ t.depth + u.countP closes := by
  induction u generalizing s with
  | nil =>
    cases h
    exact Nat.le_add_right _ _
  | cons b u ih =>
    rw [run_cons, Option.bind_eq_some_iff] at h
    obtain ⟨r, hr, hrest⟩ := h
    have hhead := step_depth hr
    have htail := ih hrest
    rw [List.countP_cons]
    omega

/-- A text is no value if it leaves more containers open than the rest can close. -/
theorem parse_eq_none_of_depth
    (h : ∀ t, run ⟨.value, []⟩ u = some t → tail.countP closes < t.depth) :
    parse (u ++ tail) = none := by
  rw [parse, List.append_assoc, run_append]
  cases hu : run ⟨.value, []⟩ u with
  | none => rfl
  | some t =>
    rw [Option.bind_some]
    cases htail : run t (tail ++ [32]) with
    | none => rfl
    | some r =>
      have hdeep := h t hu
      have hle := run_depth htail
      rw [List.countP_append, List.countP_singleton, if_neg (by decide)] at hle
      obtain ⟨phase, st⟩ := r
      have hpos : 0 < State.depth ⟨phase, st⟩ := by omega
      cases phase with
      | after v =>
        cases st with
        | nil => cases hpos
        | cons f st => rfl
      | _ => rfl

/-- Nor if it ends inside a string. -/
theorem parse_eq_none_of_string {c : Content} (hc : c.high = none)
    (h : run ⟨.value, []⟩ u = some ⟨.string .value c .plain, st⟩)
    (htail : ∀ b ∈ tail, isPlain b = Bool.true) : parse (u ++ tail) = none := by
  have hplain : ∀ b ∈ tail ++ [32], isPlain b = Bool.true := by
    intro b hb
    rcases List.mem_append.1 hb with hmem | hlast
    · exact htail b hmem
    · rw [List.mem_singleton.1 hlast]
      rfl
  have hrun := ReadsString.of_plain hplain .value c st [] hc
  rw [List.append_nil] at hrun
  rw [parse, List.append_assoc, run_append, h, Option.bind_some, hrun]
  rfl

/-- The state at an object in an array, after some elements. -/
theorem run_open_object {es : List (Bytes × Value)} (h : ∀ e ∈ es, Reads e.1 e.2)
    (rest : Bytes) :
    run ⟨.item, .arr [] :: st⟩ (es.flatMap (fun e => e.1 ++ [comma]) ++ 123 :: rest) =
      run ⟨.name [] Bool.true, .arr (es.map Prod.snd) :: st⟩ rest := by
  have htail : ∀ (es : List (Bytes × Value)), (∀ e ∈ es, Reads e.1 e.2) → ∀ vs,
      run ⟨.value, .arr vs :: st⟩ (es.flatMap (fun e => e.1 ++ [comma]) ++ 123 :: rest) =
        run ⟨.name [] Bool.true, .arr (vs ++ es.map Prod.snd) :: st⟩ rest := by
    intro es
    induction es with
    | nil =>
      intro _ vs
      rw [List.map_nil, List.append_nil]
      rfl
    | cons e es ih =>
      intro hes vs
      rw [List.flatMap_cons, List.append_assoc, List.append_assoc, List.singleton_append,
        hes e List.mem_cons_self _ comma _ rfl, run_cons]
      refine (ih (fun e' he' => hes e' (List.mem_cons_of_mem e he')) (vs ++ [e.2])).trans ?_
      rw [List.map_cons, List.append_assoc, List.singleton_append]
  cases es with
  | nil => rfl
  | cons e es =>
    rw [List.flatMap_cons, List.append_assoc, List.append_assoc, List.singleton_append,
      (h e List.mem_cons_self).item rfl, run_cons]
    exact htail es (fun e' he' => h e' (List.mem_cons_of_mem e he')) [e.2]

/-- A text is no value if it ends after some elements of an array. -/
theorem parse_eq_none_of_elements {es : List (Bytes × Value)} (h : ∀ e ∈ es, Reads e.1 e.2)
    (hu : ∀ rest, run ⟨.value, []⟩ (u ++ rest) = run ⟨.item, .arr [] :: st⟩ rest) :
    parse (u ++ [comma].intercalate (es.map Prod.fst)) = none := by
  have htail : ∀ (es : List (Bytes × Value)) (e : Bytes × Value), (∀ e' ∈ e :: es,
      Reads e'.1 e'.2) → ∀ vs, ∃ f v,
        run ⟨.value, .arr vs :: st⟩ ([comma].intercalate ((e :: es).map Prod.fst) ++ [32]) =
          some ⟨.after v, f :: st⟩ := by
    intro es
    induction es with
    | nil =>
      intro e he vs
      refine ⟨.arr vs, e.2, ?_⟩
      rw [List.map_singleton, List.intercalate_singleton, he e List.mem_cons_self _ 32 [] rfl]
      rfl
    | cons e' es ih =>
      intro e he vs
      obtain ⟨f, v, hrun⟩ := ih e' (fun e'' he'' => he e'' (List.mem_cons_of_mem e he''))
        (vs ++ [e.2])
      refine ⟨f, v, ?_⟩
      rw [List.map_cons, List.map_cons, List.intercalate_cons_cons, List.append_assoc,
        List.append_assoc, List.singleton_append, he e List.mem_cons_self _ comma _ rfl, run_cons]
      exact hrun
  rw [parse, List.append_assoc, hu]
  cases es with
  | nil => rfl
  | cons e es =>
    have hhead := h e List.mem_cons_self
    cases es with
    | nil =>
      rw [List.map_singleton, List.intercalate_singleton, hhead.item rfl]
      rfl
    | cons e' es =>
      obtain ⟨f, v, hrun⟩ := htail es e' (fun e'' he'' => h e'' (List.mem_cons_of_mem e he''))
        [e.2]
      have hfirst : run ⟨.item, .arr [] :: st⟩
          ([comma].intercalate ((e :: e' :: es).map Prod.fst) ++ [32]) =
            some ⟨.after v, f :: st⟩ := by
        rw [List.map_cons, List.map_cons, List.intercalate_cons_cons, List.append_assoc,
          List.append_assoc, List.singleton_append]
        refine (hhead.item rfl st _).trans ?_
        rw [run_cons]
        exact hrun
      rw [hfirst]

/-- The state at the value of a member, after some members. -/
theorem run_open_value {fs : List Field} (h : ∀ f ∈ fs, f.Sound) {name k : Bytes}
    (hname : ReadsName name k) (ms : List (Bytes × Value)) (close : Bool) (st : List Frame)
    (rest : Bytes) :
    run ⟨.name ms close, st⟩ (fs.flatMap (fun f => f.print ++ [comma]) ++ (name ++ rest)) =
      run ⟨.value, .mem (ms ++ fs.map Field.member) k :: st⟩ rest := by
  induction fs generalizing ms close with
  | nil =>
    rw [List.flatMap_nil, List.nil_append, hname, List.map_nil, List.append_nil]
  | cons f fs ih =>
    obtain ⟨hf, htext⟩ := h f List.mem_cons_self
    rw [List.flatMap_cons, Field.print, List.append_assoc, List.append_assoc, List.append_assoc,
      hf, List.singleton_append, htext _ comma _ rfl, run_cons]
    refine (ih (fun f' hf' => h f' (List.mem_cons_of_mem f hf')) (ms ++ [f.member]) false).trans
      ?_
    rw [List.map_cons, List.append_assoc, List.singleton_append]

end Open

/-! ## What a text has given so far -/

/-- The text of a value that is no container; a literal is its own. -/
def Value.text : Value → Option Bytes
  | .null => some [110, 117, 108, 108]
  | .bool true => some [116, 114, 117, 101]
  | .bool false => some [102, 97, 108, 115, 101]
  | .num lit => some lit
  | .str s => some s
  | .arr _ | .obj _ => none

/-- After a member of the outermost object: the members so far. -/
def State.members : State → List (Bytes × Value)
  | ⟨.name ms _, []⟩ => ms
  | ⟨.after v, [.mem ms k]⟩ => ms ++ [(k, v)]
  | ⟨.after (.obj ms), []⟩ => ms
  | _ => []

/-- The texts of the values that a text has for a name of its outermost object. A member
counts as soon as it is complete, also if the text ends or goes wrong behind it. -/
def given (t k : Bytes) : List Bytes :=
  t.inits.flatMap fun u =>
    match run ⟨.value, []⟩ u with
    | none => []
    | some s => (s.members.filter fun m => m.1 = k).filterMap fun m => m.2.text

section Given

variable {t u k x ws : Bytes} {s : State} {v : Value} {ms : List (Bytes × Value)}
  {st : List Frame}

theorem mem_given (hu : u <+: t) (hrun : run ⟨.value, []⟩ u = some s) (hm : (k, v) ∈ s.members)
    (hx : v.text = some x) : x ∈ given t k := by
  refine List.mem_flatMap.2 ⟨u, (List.mem_inits u t).2 hu, ?_⟩
  rw [hrun]
  exact List.mem_filterMap.2 ⟨(k, v), List.mem_filter.2 ⟨hm, decide_eq_true rfl⟩, hx⟩

/-- What a text gives is given also if more follows. -/
theorem given_mono (hu : u <+: t) (hx : x ∈ given u k) : x ∈ given t k := by
  obtain ⟨w, hw, hxw⟩ := List.mem_flatMap.1 hx
  exact List.mem_flatMap.2
    ⟨w, (List.mem_inits w t).2 (((List.mem_inits w u).1 hw).trans hu), hxw⟩

theorem run_blanks (hws : ∀ b ∈ ws, isBlank b = true) (t : Bytes) :
    run ⟨.value, st⟩ (ws ++ t) = run ⟨.value, st⟩ t := by
  induction ws with
  | nil => rfl
  | cons b ws ih =>
    rw [List.cons_append, run_cons, step]
    simp only [stepValue, if_pos (hws b List.mem_cons_self), Option.bind_some]
    exact ih fun b' hb' => hws b' (List.mem_cons_of_mem b hb')

/-- A member is complete with the byte that ends its value. -/
theorem exists_run_delim (v : Value) (ms : List (Bytes × Value)) (k : Bytes) {b : UInt8}
    (hb : isDelim b = true) (hne : b ≠ 93) :
    ∃ s, run ⟨.after v, [.mem ms k]⟩ [b] = some s ∧ (k, v) ∈ s.members := by
  rcases isDelim_cases hb with rfl | rfl | rfl | rfl | rfl | rfl | rfl
  case inr.inr.inr.inr.inr.inl => exact absurd rfl hne
  all_goals exact ⟨_, rfl, by simp [State.members]⟩

end Given

end Cdc2Net.Lib.Json

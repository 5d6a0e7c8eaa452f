import Cdc2Net.Lib.Json

/-!
# Flat objects

The texts of objects whose values are strings, numbers and booleans, with blanks and tabs
between the tokens and with the escapes of the quote and the backslash. A `FlatObject` is
such an object with its layout, so that every one of them has a text; the text reads as the
object (`FlatObject.parse_print`).
-/

set_option autoImplicit false

namespace Cdc2Net.Lib.Json

/-- Blanks and tabs. -/
abbrev Blanks := { ws : Bytes // ∀ b ∈ ws, b = 32 ∨ b = 9 }

/-- The content of a string that needs no other escapes. -/
abbrev Printable := { s : Bytes // ∀ b ∈ s, 32 ≤ b }

/-- The literal of a number. -/
abbrev NumberText := { lit : Bytes // isNumber lit = true }

/-- A value that is no container. -/
inductive Scalar where
  | str (s : Printable)
  | num (lit : NumberText)
  | bool (b : Bool)
  deriving DecidableEq

/-- The content of a string between its quotes. -/
def escape (s : Bytes) : Bytes :=
  s.flatMap fun b => if b = quote ∨ b = backslash then [backslash, b] else [b]

namespace Scalar

def print : Scalar → Bytes
  | .str s => quote :: escape s.1 ++ [quote]
  | .num lit => lit.1
  | .bool true => [116, 114, 117, 101]
  | .bool false => [102, 97, 108, 115, 101]

def value : Scalar → Value
  | .str s => .str s.1
  | .num lit => .num lit.1
  | .bool b => .bool b

end Scalar

/-- A member with its layout. -/
structure FlatMember where
  key : Printable
  scalar : Scalar
  beforeName : Blanks
  beforeColon : Blanks
  beforeValue : Blanks
  afterValue : Blanks

/-- The name in its quotes, and the rest after it. -/
def FlatMember.print (m : FlatMember) : Bytes :=
  m.beforeName.1 ++ (quote :: escape m.key.1 ++ quote :: (m.beforeColon.1 ++ [colon])) ++
    (m.beforeValue.1 ++ m.scalar.print ++ m.afterValue.1)

/-- An object with its layout; `inner` is what stands in an empty one. -/
structure FlatObject where
  members : List FlatMember
  before : Blanks
  inner : Blanks
  after : Blanks

namespace FlatObject

/-- What stands between the braces. -/
def body (o : FlatObject) : Bytes :=
  match o.members with
  | [] => o.inner.1
  | ms => [comma].intercalate (ms.map FlatMember.print)

def print (o : FlatObject) : Bytes := o.before.1 ++ (123 :: o.body ++ [125]) ++ o.after.1

def value (o : FlatObject) : Value := .obj (o.members.map fun m => (m.key.1, m.scalar.value))

/-- The value of a name. -/
def lookup (o : FlatObject) (k : Bytes) : Option Scalar :=
  (o.members.find? fun m => m.key.1 = k).map FlatMember.scalar

/-- No name occurs twice. -/
def Distinct (o : FlatObject) : Prop := (o.members.map fun m => m.key.1).Nodup

instance (o : FlatObject) : Decidable o.Distinct := inferInstanceAs (Decidable (List.Nodup _))

end FlatObject

section Reads

variable {o : FlatObject} {m : FlatMember}

theorem escape_nil : escape [] = [] := rfl

theorem escape_cons (b : UInt8) (s : Bytes) :
    escape (b :: s) =
      (if b = quote ∨ b = backslash then [backslash, b] else [b]) ++ escape s := rfl

theorem escape_of_plain {s : Bytes} (h : ∀ b ∈ s, isPlain b = true) : escape s = s := by
  induction s with
  | nil => rfl
  | cons b s ih =>
    obtain ⟨hquote, hback, -⟩ := not_lt_of_isPlain (h b List.mem_cons_self)
    rw [escape_cons, if_neg (by simp [hquote, hback]),
      ih fun b' hb' => h b' (List.mem_cons_of_mem b hb'), List.singleton_append]

/-- The escaped content stands for the content. -/
theorem readsString_escape {s : Bytes} (h : ∀ b ∈ s, 32 ≤ b) : ReadsString (escape s) s := by
  induction s with
  | nil => exact .nil
  | cons b s ih =>
    have htail := ih fun b' hb' => h b' (List.mem_cons_of_mem b hb')
    rw [escape_cons]
    split
    · next hesc =>
      exact (ReadsString.escape (b := b) (e := b) (by
        rw [escapeByte, if_pos (hesc.imp_right Or.inl)])).append htail
    · next hplain =>
      exact (ReadsString.plain ((isPlain_iff (h b List.mem_cons_self)).2 hplain)).append htail

theorem Blanks.isBlank (ws : Blanks) : ∀ b ∈ ws.1, isBlank b = true := by
  intro b hb
  rcases ws.2 b hb with rfl | rfl <;> rfl

theorem Scalar.reads (v : Scalar) : Reads v.print v.value := by
  cases v with
  | str s => exact .string (readsString_escape s.2)
  | num lit => exact .number lit.2
  | bool b => cases b <;> exact fun _ _ _ _ => rfl

/-- The member as a field of a text. -/
def FlatMember.field (m : FlatMember) : Field where
  name := m.beforeName.1 ++ (quote :: escape m.key.1 ++ quote :: (m.beforeColon.1 ++ [colon]))
  text := m.beforeValue.1 ++ m.scalar.print ++ m.afterValue.1
  key := m.key.1
  value := m.scalar.value

theorem FlatMember.sound (m : FlatMember) : m.field.Sound :=
  ⟨.quoted m.beforeName.isBlank (readsString_escape m.key.2) m.beforeColon.isBlank,
    (m.scalar.reads.blanks_left m.beforeValue.isBlank).blanks_right m.afterValue.isBlank⟩

theorem reads_empty {ws : Bytes} (hws : ∀ b ∈ ws, isBlank b = true) :
    Reads (123 :: ws ++ [125]) (.obj []) := by
  intro st b rest hb
  have hskip : ∀ {ws : Bytes}, (∀ b ∈ ws, isBlank b = true) →
      run ⟨.name [] true, st⟩ (ws ++ 125 :: b :: rest) =
        run ⟨.after (.obj []), st⟩ (b :: rest) := by
    intro ws
    induction ws with
    | nil => exact fun _ => rfl
    | cons c ws ih =>
      intro hws
      rw [List.cons_append, run_cons, step]
      simp only [if_pos (hws c List.mem_cons_self), Option.bind_some]
      exact ih fun b' hb' => hws b' (List.mem_cons_of_mem c hb')
  rw [List.append_assoc, List.cons_append, run_cons]
  exact hskip hws

theorem FlatObject.reads (o : FlatObject) : Reads (123 :: o.body ++ [125]) o.value := by
  rw [FlatObject.body, FlatObject.value]
  cases hms : o.members with
  | nil => exact reads_empty o.inner.isBlank
  | cons m ms =>
    have hsound : ∀ f ∈ (m :: ms).map FlatMember.field, f.Sound := by
      intro f hf
      obtain ⟨m', -, rfl⟩ := List.mem_map.1 hf
      exact m'.sound
    have hfields := Reads.object hsound
    rwa [object, List.map_map, List.map_map] at hfields

/-- The text of a flat object is read as this object. -/
theorem FlatObject.parse_print (o : FlatObject) : parse o.print = some o.value :=
  ((o.reads.blanks_left o.before.isBlank).blanks_right o.after.isBlank).parse

end Reads

end Cdc2Net.Lib.Json

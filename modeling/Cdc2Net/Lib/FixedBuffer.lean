import Mathlib.Data.List.Basic

/-!
# Buffers of a fixed size

A buffer keeps its number of elements. Reads and writes are checked: an access outside the
buffer, like a loop that is cut off, is a fault, so a program that returns `ok` made none.
A row of writes is one replacement of a segment (`writeAll_eq`).
-/

set_option autoImplicit false

namespace Cdc2Net.Lib.FixedBuffer

universe u

variable {α β : Type u} {cap : Nat}

/-- What a checked program can fail with. -/
inductive Fault where
  | outOfBounds (index : Nat)
  /-- The loop ran longer than it was allowed to. -/
  | outOfFuel
  deriving DecidableEq, Repr

/-- The result of a checked program. -/
abbrev Checked := Except Fault

/-- A buffer of `cap` elements. -/
structure Buf (α : Type u) (cap : Nat) where
  elems : List α
  length_eq : elems.length = cap

theorem ok_bind (a : α) (f : α → Checked β) : ((Except.ok a : Checked α) >>= f) = f a := rfl

namespace Buf

@[ext] theorem ext' {b c : Buf α cap} (h : b.elems = c.elems) : b = c := by
  cases b
  cases c
  cases h
  rfl

/-- `buf[i]` -/
def read (b : Buf α cap) (i : Nat) : Checked α :=
  match b.elems[i]? with
  | some a => .ok a
  | none => .error (.outOfBounds i)

/-- The first `n` elements, as a call reads them that is given the buffer and `n`. -/
def readFirst (b : Buf α cap) (n : Nat) : Checked (List α) :=
  if n ≤ cap then .ok (b.elems.take n) else .error (.outOfBounds cap)

theorem set_length (b : Buf α cap) (i : Nat) (a : α) : (b.elems.set i a).length = cap :=
  List.length_set.trans b.length_eq

/-- `buf[i] = a` -/
def write (b : Buf α cap) (i : Nat) (a : α) : Checked (Buf α cap) :=
  if i < cap then .ok ⟨b.elems.set i a, b.set_length i a⟩ else .error (.outOfBounds i)

/-- Writes at `i`, `i + 1`, and so on. -/
def writeAll (b : Buf α cap) : Nat → List α → Checked (Buf α cap)
  | _, [] => .ok b
  | i, a :: as => do
    let b' ← b.write i a
    b'.writeAll (i + 1) as

theorem splice_length (b : Buf α cap) (i : Nat) (as : List α) (h : i + as.length ≤ cap) :
    (b.elems.take i ++ as ++ b.elems.drop (i + as.length)).length = cap := by
  have hb := b.length_eq
  simp only [List.length_append, List.length_take, List.length_drop]
  omega

/-- The segment from `i` on replaced by `as`. -/
def splice (b : Buf α cap) (i : Nat) (as : List α) (h : i + as.length ≤ cap) : Buf α cap :=
  ⟨b.elems.take i ++ as ++ b.elems.drop (i + as.length), b.splice_length i as h⟩

theorem splice_elems (b : Buf α cap) (i : Nat) (as : List α) (h : i + as.length ≤ cap) :
    (b.splice i as h).elems = b.elems.take i ++ as ++ b.elems.drop (i + as.length) := rfl

/-- A splice as far as its elements go. -/
theorem take_splice (b : Buf α cap) {i k : Nat} {as : List α} (h : i + as.length ≤ cap)
    (hk : k ≤ as.length) :
    (b.splice i as h).elems.take (i + k) = b.elems.take i ++ as.take k := by
  have hlen : (b.elems.take i).length = i := by
    rw [List.length_take, b.length_eq]
    omega
  rw [splice_elems, List.append_assoc, List.take_append, List.take_of_length_le (by omega),
    hlen, Nat.add_sub_cancel_left, List.take_append_of_le_length hk]

theorem read_eq (b : Buf α cap) {i : Nat} {a : α} (h : b.elems[i]? = some a) :
    b.read i = .ok a := by
  rw [read, h]

theorem readFirst_eq (b : Buf α cap) {n : Nat} (h : n ≤ cap) :
    b.readFirst n = .ok (b.elems.take n) :=
  if_pos h

theorem write_eq (b : Buf α cap) {i : Nat} (a : α) (h : i + [a].length ≤ cap) :
    b.write i a = .ok (b.splice i [a] h) := by
  have hi : i < cap := h
  rw [write, if_pos hi]
  refine congrArg Except.ok (Buf.ext' ?_)
  rw [splice_elems, List.append_assoc, List.singleton_append]
  exact List.set_eq_take_append_cons_drop.trans (if_pos (by rw [b.length_eq]; exact hi))

/-- Writes inside the buffer replace a segment of it. -/
theorem writeAll_eq (as : List α) : ∀ (b : Buf α cap) (i : Nat) (h : i + as.length ≤ cap),
    b.writeAll i as = .ok (b.splice i as h) := by
  induction as with
  | nil =>
    intro b i h
    refine congrArg Except.ok (Buf.ext' ?_)
    simp [splice]
  | cons a as ih =>
    intro b i h
    rw [List.length_cons] at h
    have hone : i + [a].length ≤ cap := by rw [List.length_singleton]; omega
    rw [writeAll, b.write_eq a hone, ok_bind, ih _ (i + 1) (by omega)]
    refine congrArg Except.ok (Buf.ext' ?_)
    -- the first element is the last one before the segment of the rest
    have hlen : (b.elems.take i ++ [a]).length = i + 1 := by
      rw [List.length_append, List.length_take, b.length_eq, List.length_singleton]
      omega
    rw [splice_elems, splice_elems, splice_elems, List.take_left' hlen, ← List.drop_drop,
      List.drop_left' hlen, List.drop_drop]
    simp [Nat.add_comm 1, Nat.add_assoc]

end Buf

end Cdc2Net.Lib.FixedBuffer

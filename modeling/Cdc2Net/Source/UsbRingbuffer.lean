import Cdc2Net.Lib.RingQueue
import Mathlib.Algebra.Order.Ring.Nat

/-!
# `usb_ringbuffer.h`

The ring buffer between the USB host's interrupt and the task that reads a stick. `in` and `out`
are counters of 32 bits that run freely and wrap; only their difference and their last bits are
used. A ring represents a queue (`Represents`) when the difference is the queue's length and
the queue stands in the pool from `out` on. Reset, the tests and sizes, and writing, overwriting,
peeking, reading and dropping a byte or a block compute on the ring what the bounded queue `Fifo`
computes on the list, and touch no byte outside the pool. The four `linear` operations, which
nothing calls, are left out.

`usb_ringbuffer_overwrite` of more than a whole ring keeps the first bytes of its data, not the
last (`Fifo.overwrite`).
-/

set_option autoImplicit false

namespace Cdc2Net.Source

open Lib.FixedBuffer Lib.RingQueue

/-- `usb_ringbuffer_t` with its pool -/
structure UsbRingbuffer (cap : Nat) where
  /-- `in` -/
  inp : UInt32
  out : UInt32
  mask : UInt32
  pool : Buf UInt8 cap

/-- The source of a `memcpy`: `n` bytes from `start` on. -/
def memcpySource (data : List UInt8) (start n : Nat) : Checked (List UInt8) :=
  if start + n ≤ data.length then .ok ((data.drop start).take n)
  else .error (.outOfBounds data.length)

namespace UsbRingbuffer

variable {cap : Nat}

/-- `usb_ringbuffer_init` -/
def init (pool : Buf UInt8 cap) (size : UInt32) : Option (UsbRingbuffer cap) :=
  if size < 2 ∨ size &&& (size - 1) ≠ 0 then none
  else some { inp := 0, out := 0, mask := size - 1, pool := pool }

section Operations

variable (rb : UsbRingbuffer cap)

/-- `usb_ringbuffer_reset` -/
def reset : UsbRingbuffer cap := { rb with inp := 0, out := 0 }

/-- `usb_ringbuffer_reset_read` -/
def resetRead : UsbRingbuffer cap := { rb with out := rb.inp }

/-- `usb_ringbuffer_get_size` -/
def getSize : UInt32 := rb.mask + 1

/-- `usb_ringbuffer_get_used` -/
def getUsed : UInt32 := rb.inp - rb.out

/-- `usb_ringbuffer_get_free` -/
def getFree : UInt32 := (rb.mask + 1) - (rb.inp - rb.out)

/-- `usb_ringbuffer_check_full` -/
def checkFull : Bool := decide (rb.mask < rb.getUsed)

/-- `usb_ringbuffer_check_empty` -/
def checkEmpty : Bool := rb.inp == rb.out

/-- `((uint8_t *)(rb->pool))[rb->in & rb->mask] = byte; rb->in++;` -/
def putByte (byte : UInt8) : Checked (UsbRingbuffer cap) := do
  let pool ← rb.pool.write (rb.inp &&& rb.mask).toNat byte
  return { rb with pool := pool, inp := rb.inp + 1 }

/-- `usb_ringbuffer_write_byte` -/
def writeByte (byte : UInt8) : Checked (Bool × UsbRingbuffer cap) :=
  if rb.checkFull then .ok (false, rb)
  else do
    let rb' ← rb.putByte byte
    return (true, rb')

/-- `usb_ringbuffer_overwrite_byte` -/
def overwriteByte (byte : UInt8) : Checked (Bool × UsbRingbuffer cap) := do
  let rb' ← (if rb.checkFull then { rb with out := rb.out + 1 } else rb).putByte byte
  return (true, rb')

/-- `usb_ringbuffer_peek_byte`; `none` for `false` -/
def peekByte : Checked (Option UInt8) :=
  if rb.checkEmpty then .ok none
  else do
    let byte ← rb.pool.read (rb.out &&& rb.mask).toNat
    return some byte

/-- `usb_ringbuffer_read_byte` -/
def readByte : Checked (Option UInt8 × UsbRingbuffer cap) := do
  let ret ← rb.peekByte
  return (ret, { rb with out := rb.out + if ret.isSome then 1 else 0 })

/-- `usb_ringbuffer_drop_byte` -/
def dropByte : Bool × UsbRingbuffer cap :=
  if rb.checkEmpty then (false, rb) else (true, { rb with out := rb.out + 1 })

/-- The two `memcpy` of `usb_ringbuffer_write` and `usb_ringbuffer_overwrite`, and
`rb->in += size;` -/
def store (data : List UInt8) (size : UInt32) : Checked (UsbRingbuffer cap) := do
  let offset := rb.inp &&& rb.mask
  let remain := rb.mask + 1 - offset
  let remain := if size < remain then size else remain
  let first ← memcpySource data 0 remain.toNat
  let pool ← rb.pool.writeAll offset.toNat first
  let second ← memcpySource data remain.toNat (size - remain).toNat
  let pool ← pool.writeAll 0 second
  return { rb with pool := pool, inp := rb.inp + size }

/-- `usb_ringbuffer_write` -/
def write (data : List UInt8) (size : UInt32) : Checked (UInt32 × UsbRingbuffer cap) := do
  let unused := (rb.mask + 1) - (rb.inp - rb.out)
  let size := if unused < size then unused else size
  let rb' ← rb.store data size
  return (size, rb')

/-- `usb_ringbuffer_overwrite` -/
def overwrite (data : List UInt8) (size : UInt32) : Checked (UInt32 × UsbRingbuffer cap) := do
  let unused := (rb.mask + 1) - (rb.inp - rb.out)
  if unused < size then
    let size := if rb.mask + 1 < size then rb.mask + 1 else size
    let rb' ← { rb with out := rb.out + (size - unused) }.store data size
    return (size, rb')
  else
    let rb' ← rb.store data size
    return (size, rb')

/-- `usb_ringbuffer_peek`: the size it returns, and the bytes it wrote to `data` -/
def peek (size : UInt32) : Checked (UInt32 × List UInt8) := do
  let used := rb.inp - rb.out
  let size := if used < size then used else size
  let offset := rb.out &&& rb.mask
  let remain := rb.mask + 1 - offset
  let remain := if size < remain then size else remain
  let first ← rb.pool.readAll offset.toNat remain.toNat
  let second ← rb.pool.readAll 0 (size - remain).toNat
  return (size, first ++ second)

/-- `usb_ringbuffer_read` -/
def read (size : UInt32) : Checked ((UInt32 × List UInt8) × UsbRingbuffer cap) := do
  let ret ← rb.peek size
  return (ret, { rb with out := rb.out + ret.1 })

/-- `usb_ringbuffer_drop` -/
def drop (size : UInt32) : UInt32 × UsbRingbuffer cap :=
  let used := rb.inp - rb.out
  let size := if used < size then used else size
  (size, { rb with out := rb.out + size })

/-- `rb->mask + 1` as a number -/
def size : Nat := rb.mask.toNat + 1

end Operations

/-- The ring stands for the queue `q`. -/
structure Represents (rb : UsbRingbuffer cap) (q : List UInt8) : Prop where
  pow : ∃ k, k < 32 ∧ rb.size = 2 ^ k
  used : rb.getUsed.toNat = q.length
  holds : Holds rb.pool rb.size rb.out.toNat q

/-! ## Counters -/

section Counters

variable {rb : UsbRingbuffer cap} {q : List UInt8}

theorem size_pos (rb : UsbRingbuffer cap) : 0 < rb.size := Nat.succ_pos _

theorem Represents.size_dvd (h : Represents rb q) : rb.size ∣ 2 ^ 32 := by
  obtain ⟨k, hk, hsize⟩ := h.pow
  rw [hsize]
  exact Nat.pow_dvd_pow 2 hk.le

theorem Represents.size_lt (h : Represents rb q) : rb.size < 2 ^ 32 := by
  obtain ⟨k, hk, hsize⟩ := h.pow
  rw [hsize]
  exact Nat.pow_lt_pow_right (by omega) hk

/-- `x & rb->mask` is the element of entry `x`. -/
theorem Represents.and_mask (h : Represents rb q) (x : UInt32) :
    (x &&& rb.mask).toNat = x.toNat % rb.size := by
  obtain ⟨k, hk, hsize⟩ := h.pow
  have hmask : rb.mask.toNat = 2 ^ k - 1 := by
    rw [← hsize, size]
    omega
  rw [UInt32.toNat_and, hmask, Nat.and_two_pow_sub_one_eq_mod, hsize]

theorem Represents.toNat_getSize (h : Represents rb q) : (rb.mask + 1).toNat = rb.size := by
  have hlt := h.size_lt
  rw [UInt32.toNat_add, size]
  rw [size] at hlt
  exact Nat.mod_eq_of_lt hlt

theorem Represents.toNat_getFree (h : Represents rb q) :
    (rb.mask + 1 - (rb.inp - rb.out)).toNat = rb.size - q.length := by
  have hused : (rb.inp - rb.out).toNat = q.length := h.used
  have hle := h.holds.length_le
  rw [UInt32.toNat_sub_of_le, h.toNat_getSize, hused]
  rw [UInt32.le_iff_toNat_le, h.toNat_getSize, hused]
  exact hle

/-- A counter that has wrapped is still the same modulo the ring's size. -/
theorem Represents.toNat_add_mod (h : Represents rb q) (x n : UInt32) :
    (x + n).toNat ≡ x.toNat + n.toNat [MOD rb.size] := by
  rw [UInt32.toNat_add]
  exact (Nat.mod_modEq _ _).of_dvd h.size_dvd

theorem Represents.inp_mod (h : Represents rb q) :
    rb.inp.toNat ≡ rb.out.toNat + q.length [MOD rb.size] := by
  have hsum : rb.out + rb.getUsed = rb.inp := by
    rw [getUsed, UInt32.add_comm, UInt32.sub_add_cancel]
  have hmod := h.toNat_add_mod rb.out rb.getUsed
  rw [hsum, h.used] at hmod
  exact hmod

theorem Represents.checkFull_eq (h : Represents rb q) :
    rb.checkFull = decide (q.length = rb.size) := by
  have hle := h.holds.length_le
  have hused := h.used
  rw [checkFull, decide_eq_decide, UInt32.lt_iff_toNat_lt, hused]
  rw [size] at hle ⊢
  omega

theorem Represents.checkEmpty_eq (h : Represents rb q) : rb.checkEmpty = q.isEmpty := by
  rw [Bool.eq_iff_iff, checkEmpty, beq_iff_eq, List.isEmpty_iff, ← List.length_eq_zero_iff,
    ← h.used, getUsed]
  constructor
  · intro heq
    rw [heq, UInt32.sub_self]
    rfl
  · intro hzero
    have hsub : rb.inp - rb.out = 0 := UInt32.toNat_inj.1 hzero
    rw [← UInt32.sub_add_cancel rb.inp rb.out, hsub, UInt32.zero_add]

end Counters

/-! ## The operations on a ring that represents a queue -/

section Spec

variable {rb : UsbRingbuffer cap} {q : List UInt8}

theorem memcpySource_eq {data : List UInt8} {start n : Nat} (h : start + n ≤ data.length) :
    memcpySource data start n = .ok ((data.drop start).take n) :=
  if_pos h

theorem toNat_getUsed_advance {n : UInt32} (hn : n.toNat ≤ rb.getUsed.toNat) :
    (getUsed { rb with out := rb.out + n }).toNat = rb.getUsed.toNat - n.toNat := by
  have hsplit : rb.inp - (rb.out + n) = rb.inp - rb.out - n := by
    rw [UInt32.sub_eq_add_neg rb.inp, UInt32.neg_add, UInt32.sub_eq_add_neg (-rb.out),
      ← UInt32.add_assoc, ← UInt32.sub_eq_add_neg, ← UInt32.sub_eq_add_neg]
  show (rb.inp - (rb.out + n)).toNat = _
  rw [hsplit]
  exact UInt32.toNat_sub_of_le _ _ (UInt32.le_iff_toNat_le.2 hn)

/-- Entries leave at the front when `out` moves. -/
theorem Represents.advance (h : Represents rb q) {n : UInt32} (hn : n.toNat ≤ q.length) :
    Represents { rb with out := rb.out + n } (q.drop n.toNat) where
  pow := h.pow
  used := by
    rw [toNat_getUsed_advance (hn.trans_eq h.used.symm), h.used, List.length_drop]
  holds := (h.holds.drop n.toNat).congr (h.toNat_add_mod rb.out n).symm

/-- The queue with what was stored behind it, when `in` moves. -/
theorem Represents.announce (h : Represents rb q) {data : List UInt8} {n : UInt32}
    {pool : Buf UInt8 cap} (hn : n.toNat = data.length)
    (hholds : Holds pool rb.size rb.out.toNat (q ++ data)) :
    Represents { rb with pool := pool, inp := rb.inp + n } (q ++ data) where
  pow := h.pow
  used := by
    have hused : (rb.inp - rb.out).toNat = q.length := h.used
    have hlt := h.size_lt
    have hle := hholds.length_le
    have hsplit : rb.inp + n - rb.out = (rb.inp - rb.out) + n := by
      rw [UInt32.sub_eq_add_neg, UInt32.sub_eq_add_neg, UInt32.add_assoc, UInt32.add_comm n,
        ← UInt32.add_assoc]
    show (rb.inp + n - rb.out).toNat = (q ++ data).length
    rw [List.length_append] at hle ⊢
    rw [hsplit, UInt32.toNat_add, hused, hn, Nat.mod_eq_of_lt (by omega)]
  holds := hholds

theorem Represents.putByte (h : Represents rb q) (byte : UInt8) (hroom : q.length < rb.size) :
    ∃ rb', rb.putByte byte = .ok rb' ∧ rb'.mask = rb.mask ∧ Represents rb' (q ++ [byte]) := by
  have hidx : (rb.inp &&& rb.mask).toNat = (rb.out.toNat + q.length) % rb.size := by
    rw [h.and_mask]
    exact h.inp_mod
  obtain ⟨pool, hwrite, hpool⟩ := h.holds.write byte hroom hidx
  refine ⟨{ rb with pool := pool, inp := rb.inp + 1 }, ?_, rfl, h.announce rfl hpool⟩
  rw [UsbRingbuffer.putByte, hwrite]
  rfl

/-- What `remain` is after the line that cuts it. -/
theorem Represents.toNat_remain (h : Represents rb q) (x n : UInt32) :
    (if n < rb.mask + 1 - (x &&& rb.mask) then n
      else rb.mask + 1 - (x &&& rb.mask)).toNat =
      min (rb.size - x.toNat % rb.size) n.toNat := by
  have hlt := Nat.mod_lt x.toNat rb.size_pos
  have hsub : (rb.mask + 1 - (x &&& rb.mask)).toNat = rb.size - x.toNat % rb.size := by
    rw [UInt32.toNat_sub_of_le, h.toNat_getSize, h.and_mask]
    rw [UInt32.le_iff_toNat_le, h.toNat_getSize, h.and_mask]
    exact hlt.le
  split
  · next hcut =>
    rw [UInt32.lt_iff_toNat_lt, hsub] at hcut
    omega
  · next hcut =>
    rw [UInt32.lt_iff_toNat_lt, hsub] at hcut
    rw [hsub]
    omega

theorem Represents.store (h : Represents rb q) (data : List UInt8) (n : UInt32)
    (hn : n.toNat ≤ data.length) (hroom : q.length + n.toNat ≤ rb.size) :
    ∃ rb', rb.store data n = .ok rb' ∧ rb'.mask = rb.mask ∧
      Represents rb' (q ++ data.take n.toNat) := by
  have hlen : (data.take n.toNat).length = n.toNat := by
    rw [List.length_take, Nat.min_eq_left hn]
  have hlt := Nat.mod_lt rb.inp.toNat rb.size_pos
  have hmod : rb.out.toNat + q.length ≡ rb.inp.toNat % rb.size [MOD rb.size] :=
    h.inp_mod.symm.trans (Nat.mod_modEq _ _).symm
  obtain ⟨pool₁, pool₂, h₁, h₂, hpool⟩ :=
    h.holds.writePieces (data.take n.toNat) hlt hmod (by rw [hlen]; exact hroom)
  have hremain := h.toNat_remain rb.inp n
  -- the two pieces are cut from `data`, and their lengths add up to `n`
  have hfirst : memcpySource data 0 (min (rb.size - rb.inp.toNat % rb.size) n.toNat) =
      .ok ((data.take n.toNat).take (rb.size - rb.inp.toNat % rb.size)) := by
    rw [memcpySource_eq (by omega), List.drop_zero, List.take_take]
  have hrest : (n - if n < rb.mask + 1 - (rb.inp &&& rb.mask) then n
      else rb.mask + 1 - (rb.inp &&& rb.mask)).toNat =
      n.toNat - min (rb.size - rb.inp.toNat % rb.size) n.toNat := by
    rw [UInt32.toNat_sub_of_le, hremain]
    rw [UInt32.le_iff_toNat_le, hremain]
    exact Nat.min_le_right _ _
  have hsecond : memcpySource data (min (rb.size - rb.inp.toNat % rb.size) n.toNat)
      (n.toNat - min (rb.size - rb.inp.toNat % rb.size) n.toNat) =
      .ok ((data.take n.toNat).drop (rb.size - rb.inp.toNat % rb.size)) := by
    rw [memcpySource_eq (by omega), List.drop_take]
    rcases Nat.le_total n.toNat (rb.size - rb.inp.toNat % rb.size) with hle | hle
    · rw [Nat.min_eq_right hle, Nat.sub_self, Nat.sub_eq_zero_of_le hle, List.take_zero,
        List.take_zero]
    · rw [Nat.min_eq_left hle]
  refine ⟨{ rb with pool := pool₂, inp := rb.inp + n }, ?_, rfl, h.announce hlen.symm hpool⟩
  simp only [UsbRingbuffer.store, hremain, hrest, hfirst, hsecond, ok_bind, h.and_mask, h₁, h₂]
  rfl

theorem Represents.write (h : Represents rb q) {data : List UInt8} {n : UInt32}
    (hn : n.toNat ≤ data.length) :
    ∃ m rb', rb.write data n = .ok (m, rb') ∧ m.toNat = min (rb.size - q.length) n.toNat ∧
      rb'.mask = rb.mask ∧ Represents rb' (q ++ data.take m.toNat) := by
  have hfree := h.toNat_getFree
  have hle := h.holds.length_le
  let m := if rb.mask + 1 - (rb.inp - rb.out) < n then rb.mask + 1 - (rb.inp - rb.out) else n
  have hm : m.toNat = min (rb.size - q.length) n.toNat := by
    show (if rb.mask + 1 - (rb.inp - rb.out) < n then rb.mask + 1 - (rb.inp - rb.out)
      else n).toNat = _
    split
    · next hcut =>
      rw [UInt32.lt_iff_toNat_lt, hfree] at hcut
      rw [hfree]
      omega
    · next hcut =>
      rw [UInt32.lt_iff_toNat_lt, hfree] at hcut
      omega
  obtain ⟨rb', hstore, hmask, hrb'⟩ := h.store data m (by omega) (by omega)
  refine ⟨m, rb', ?_, hm, hmask, hrb'⟩
  show (do let rb' ← rb.store data m; return (m, rb')) = _
  rw [hstore]
  rfl

theorem Represents.overwrite (h : Represents rb q) {data : List UInt8} {n : UInt32}
    (hn : n.toNat ≤ data.length) :
    ∃ m rb', rb.overwrite data n = .ok (m, rb') ∧ m.toNat = min rb.size n.toNat ∧
      rb'.mask = rb.mask ∧
      Represents rb' (q.drop (m.toNat - (rb.size - q.length)) ++ data.take m.toNat) := by
  have hfree := h.toNat_getFree
  have hsize := h.toNat_getSize
  have hle := h.holds.length_le
  by_cases hcut : rb.mask + 1 - (rb.inp - rb.out) < n
  · have hcut' := hcut
    rw [UInt32.lt_iff_toNat_lt, hfree] at hcut'
    let m := if rb.mask + 1 < n then rb.mask + 1 else n
    have hm : m.toNat = min rb.size n.toNat := by
      show (if rb.mask + 1 < n then rb.mask + 1 else n).toNat = _
      split
      · next hbig =>
        rw [UInt32.lt_iff_toNat_lt, hsize] at hbig
        rw [hsize]
        omega
      · next hbig =>
        rw [UInt32.lt_iff_toNat_lt, hsize] at hbig
        omega
    -- the oldest entries make room
    have hgone : (m - (rb.mask + 1 - (rb.inp - rb.out))).toNat =
        m.toNat - (rb.size - q.length) := by
      rw [UInt32.toNat_sub_of_le, hfree]
      rw [UInt32.le_iff_toNat_le, hfree]
      omega
    have hadv := h.advance (n := m - (rb.mask + 1 - (rb.inp - rb.out))) (by omega)
    obtain ⟨rb', hstore, hmask, hrb'⟩ := hadv.store data m (by omega)
      (by
        have hsame : UsbRingbuffer.size
          { rb with out := rb.out + (m - (rb.mask + 1 - (rb.inp - rb.out))) } = rb.size := rfl
        rw [hsame, List.length_drop]
        omega)
    refine ⟨m, rb', ?_, hm, hmask, by rw [← hgone]; exact hrb'⟩
    rw [UsbRingbuffer.overwrite]
    simp only [if_pos hcut]
    show (do
      let rb' ← UsbRingbuffer.store
        { rb with out := rb.out + (m - (rb.mask + 1 - (rb.inp - rb.out))) } data m
      return (m, rb')) = _
    rw [hstore]
    rfl
  · have hcut' := hcut
    rw [UInt32.lt_iff_toNat_lt, hfree] at hcut'
    obtain ⟨rb', hstore, hmask, hrb'⟩ := h.store data n hn (by omega)
    refine ⟨n, rb', ?_, by omega, hmask, ?_⟩
    · rw [UsbRingbuffer.overwrite]
      simp only [if_neg hcut]
      rw [hstore]
      rfl
    · have hnone : n.toNat - (rb.size - q.length) = 0 := by omega
      rw [hnone, List.drop_zero]
      exact hrb'

theorem Represents.peek (h : Represents rb q) (n : UInt32) :
    ∃ m, rb.peek n = .ok (m, q.take n.toNat) ∧ m.toNat = min q.length n.toNat := by
  have hused : (rb.inp - rb.out).toNat = q.length := h.used
  have hlt := Nat.mod_lt rb.out.toNat rb.size_pos
  let m := if rb.inp - rb.out < n then rb.inp - rb.out else n
  have hm : m.toNat = min q.length n.toNat := by
    show (if rb.inp - rb.out < n then rb.inp - rb.out else n).toNat = _
    split
    · next hcut =>
      rw [UInt32.lt_iff_toNat_lt, hused] at hcut
      rw [hused]
      omega
    · next hcut =>
      rw [UInt32.lt_iff_toNat_lt, hused] at hcut
      omega
  obtain ⟨h₁, h₂⟩ := h.holds.readPieces (n := m.toNat) hlt (Nat.mod_modEq _ _).symm (by omega)
  have hremain := h.toNat_remain rb.out m
  have hrest : (m - if m < rb.mask + 1 - (rb.out &&& rb.mask) then m
      else rb.mask + 1 - (rb.out &&& rb.mask)).toNat =
      m.toNat - min (rb.size - rb.out.toNat % rb.size) m.toNat := by
    rw [UInt32.toNat_sub_of_le, hremain]
    rw [UInt32.le_iff_toNat_le, hremain]
    exact Nat.min_le_right _ _
  refine ⟨m, ?_, hm⟩
  show (do
    let first ← rb.pool.readAll (rb.out &&& rb.mask).toNat
      (if m < rb.mask + 1 - (rb.out &&& rb.mask) then m
        else rb.mask + 1 - (rb.out &&& rb.mask)).toNat
    let second ← rb.pool.readAll 0 (m - if m < rb.mask + 1 - (rb.out &&& rb.mask) then m
      else rb.mask + 1 - (rb.out &&& rb.mask)).toNat
    return (m, first ++ second)) = _
  rw [hremain, hrest, h.and_mask, h₁, ok_bind, h₂, ok_bind]
  have hjoin : q.take (min (rb.size - rb.out.toNat % rb.size) m.toNat) ++
      (q.take m.toNat).drop (min (rb.size - rb.out.toNat % rb.size) m.toNat) =
      q.take m.toNat := by
    have hfirst : q.take (min (rb.size - rb.out.toNat % rb.size) m.toNat) =
        (q.take m.toNat).take (min (rb.size - rb.out.toNat % rb.size) m.toNat) := by
      rw [List.take_take, Nat.min_eq_left (Nat.min_le_right _ _)]
    rw [hfirst, List.take_append_drop]
  have htake : q.take m.toNat = q.take n.toNat := by
    rw [hm, Nat.min_comm, ← List.take_take, List.take_length]
  rw [hjoin, htake]
  rfl

end Spec

/-! ## The bounded queue -/

/-- A caller's `data` and `size`: there are `size` bytes at `data`. -/
structure Block where
  data : List UInt8
  size : UInt32
  size_le : size.toNat ≤ data.length

/-- The bytes of a block. -/
def Block.bytes (d : Block) : List UInt8 := d.data.take d.size.toNat

theorem Block.length_bytes (d : Block) : d.bytes.length = d.size.toNat := by
  rw [Block.bytes, List.length_take, Nat.min_eq_left d.size_le]

/-- A call. -/
inductive Op where
  | reset
  | resetRead
  | getUsed
  | getFree
  | checkFull
  | checkEmpty
  | writeByte (byte : UInt8)
  | overwriteByte (byte : UInt8)
  | peekByte
  | readByte
  | dropByte
  | write (d : Block)
  | overwrite (d : Block)
  | peek (size : UInt32)
  | read (size : UInt32)
  | drop (size : UInt32)

/-- What a call returns. -/
inductive Reply where
  | done
  | flag (b : Bool)
  | count (n : Nat)
  | byte (b : Option UInt8)
  | bytes (n : Nat) (data : List UInt8)
  deriving DecidableEq

/-- A call on the ring. -/
def step (rb : UsbRingbuffer cap) : Op → Checked (Reply × UsbRingbuffer cap)
  | .reset => .ok (.done, rb.reset)
  | .resetRead => .ok (.done, rb.resetRead)
  | .getUsed => .ok (.count rb.getUsed.toNat, rb)
  | .getFree => .ok (.count rb.getFree.toNat, rb)
  | .checkFull => .ok (.flag rb.checkFull, rb)
  | .checkEmpty => .ok (.flag rb.checkEmpty, rb)
  | .writeByte byte => do
    let r ← rb.writeByte byte
    return (.flag r.1, r.2)
  | .overwriteByte byte => do
    let r ← rb.overwriteByte byte
    return (.flag r.1, r.2)
  | .peekByte => do
    let r ← rb.peekByte
    return (.byte r, rb)
  | .readByte => do
    let r ← rb.readByte
    return (.byte r.1, r.2)
  | .dropByte => .ok (.flag rb.dropByte.1, rb.dropByte.2)
  | .write d => do
    let r ← rb.write d.data d.size
    return (.count r.1.toNat, r.2)
  | .overwrite d => do
    let r ← rb.overwrite d.data d.size
    return (.count r.1.toNat, r.2)
  | .peek size => do
    let r ← rb.peek size
    return (.bytes r.1.toNat r.2, rb)
  | .read size => do
    let r ← rb.read size
    return (.bytes r.1.1.toNat r.1.2, r.2)
  | .drop size => .ok (.count (rb.drop size).1.toNat, (rb.drop size).2)

/-- Calls one after the other. -/
def run (rb : UsbRingbuffer cap) : List Op → Checked (List Reply × UsbRingbuffer cap)
  | [] => .ok ([], rb)
  | op :: ops => do
    let r ← rb.step op
    let rest ← r.2.run ops
    return (r.1 :: rest.1, rest.2)

end UsbRingbuffer

namespace Fifo

open UsbRingbuffer

variable (N : Nat)

/-- Old entries leave until `data` fits; of more than `N` bytes the first `N` stay. -/
def overwrite (q data : List UInt8) : List UInt8 :=
  q.drop (q.length + min N data.length - N) ++ data.take N

/-- A call on a queue of at most `N` bytes. -/
def step (q : List UInt8) : Op → Reply × List UInt8
  | .reset => (.done, [])
  | .resetRead => (.done, [])
  | .getUsed => (.count q.length, q)
  | .getFree => (.count (N - q.length), q)
  | .checkFull => (.flag (q.length = N), q)
  | .checkEmpty => (.flag q.isEmpty, q)
  | .writeByte byte => if q.length < N then (.flag true, q ++ [byte]) else (.flag false, q)
  | .overwriteByte byte => (.flag true, overwrite N q [byte])
  | .peekByte => (.byte q.head?, q)
  | .readByte => (.byte q.head?, q.tail)
  | .dropByte => (.flag !q.isEmpty, q.tail)
  | .write d => (.count (min (N - q.length) d.bytes.length), q ++ d.bytes.take (N - q.length))
  | .overwrite d => (.count (min N d.bytes.length), overwrite N q d.bytes)
  | .peek size => (.bytes (q.take size.toNat).length (q.take size.toNat), q)
  | .read size => (.bytes (q.take size.toNat).length (q.take size.toNat), q.drop size.toNat)
  | .drop size => (.count (q.take size.toNat).length, q.drop size.toNat)

/-- Calls one after the other. -/
def run (q : List UInt8) : List Op → List Reply × List UInt8
  | [] => ([], q)
  | op :: ops =>
    let r := step N q op
    let rest := run r.2 ops
    (r.1 :: rest.1, rest.2)

end Fifo

namespace UsbRingbuffer

/-! ## The ring refines the queue -/

section Refinement

variable {cap : Nat} {rb : UsbRingbuffer cap} {q : List UInt8}

/-- The ring answers as the queue does, and stands for the queue afterwards. -/
def Refines (rb : UsbRingbuffer cap) (result : Checked (Reply × UsbRingbuffer cap))
    (expected : Reply × List UInt8) : Prop :=
  ∃ rb', result = .ok (expected.1, rb') ∧ rb'.mask = rb.mask ∧ Represents rb' expected.2

theorem toNat_getUsed_of_eq (h : rb.inp = rb.out) : rb.getUsed.toNat = 0 := by
  rw [getUsed, h, UInt32.sub_self]
  rfl

theorem Represents.reset (h : Represents rb q) : Represents rb.reset [] where
  pow := h.pow
  used := toNat_getUsed_of_eq rfl
  holds := holds_nil _ _ h.holds.size_le

theorem Represents.resetRead (h : Represents rb q) : Represents rb.resetRead [] where
  pow := h.pow
  used := toNat_getUsed_of_eq rfl
  holds := holds_nil _ _ h.holds.size_le

theorem Represents.refines_writeByte (h : Represents rb q) (byte : UInt8) :
    Refines rb (rb.step (.writeByte byte)) (Fifo.step rb.size q (.writeByte byte)) := by
  have hle := h.holds.length_le
  rw [step, UsbRingbuffer.writeByte, h.checkFull_eq, Fifo.step]
  by_cases hfull : q.length = rb.size
  · rw [if_pos (decide_eq_true hfull), if_neg (by omega)]
    exact ⟨rb, rfl, rfl, h⟩
  · rw [if_neg (by rw [decide_eq_true_eq]; exact hfull), if_pos (by omega)]
    obtain ⟨rb', hput, hmask, hrb'⟩ := h.putByte byte (by omega)
    rw [hput]
    exact ⟨rb', rfl, hmask, hrb'⟩

theorem Represents.refines_overwriteByte (h : Represents rb q) (byte : UInt8) :
    Refines rb (rb.step (.overwriteByte byte)) (Fifo.step rb.size q (.overwriteByte byte)) := by
  have hle := h.holds.length_le
  have hpos := rb.size_pos
  have hone : ([byte] : List UInt8).take rb.size = [byte] := List.take_of_length_le hpos
  have hmin : min rb.size ([byte] : List UInt8).length = 1 := Nat.min_eq_right hpos
  rw [step, UsbRingbuffer.overwriteByte, h.checkFull_eq, Fifo.step, Fifo.overwrite, hone, hmin]
  by_cases hfull : q.length = rb.size
  · -- the oldest byte leaves
    rw [if_pos (decide_eq_true hfull), hfull, Nat.add_sub_cancel_left]
    have hadv := h.advance (n := 1) (by show 1 ≤ q.length; omega)
    obtain ⟨rb', hput, hmask, hrb'⟩ := hadv.putByte byte (by
      show (q.drop 1).length < rb.size
      rw [List.length_drop]
      omega)
    rw [hput]
    exact ⟨rb', rfl, hmask, hrb'⟩
  · rw [if_neg (by rw [decide_eq_true_eq]; exact hfull)]
    obtain ⟨rb', hput, hmask, hrb'⟩ := h.putByte byte (by omega)
    have hnone : q.length + 1 - rb.size = 0 := by omega
    rw [hput, hnone, List.drop_zero]
    exact ⟨rb', rfl, hmask, hrb'⟩

theorem Represents.peekByte_eq (h : Represents rb q) : rb.peekByte = .ok q.head? := by
  rw [UsbRingbuffer.peekByte, h.checkEmpty_eq, h.and_mask]
  cases q with
  | nil => rfl
  | cons a q =>
    have hread := h.holds.read (i := 0) (a := a) rfl
    rw [Nat.add_zero] at hread
    rw [hread]
    rfl

theorem Represents.refines_readByte (h : Represents rb q) :
    Refines rb (rb.step .readByte) (Fifo.step rb.size q .readByte) := by
  rw [step, UsbRingbuffer.readByte, h.peekByte_eq, Fifo.step]
  cases q with
  | nil =>
    refine ⟨{ rb with out := rb.out + 0 }, rfl, rfl, ?_⟩
    rw [UInt32.add_zero]
    exact h
  | cons a q => exact ⟨{ rb with out := rb.out + 1 }, rfl, rfl, h.advance (n := 1) (by simp)⟩

theorem Represents.refines_dropByte (h : Represents rb q) :
    Refines rb (rb.step .dropByte) (Fifo.step rb.size q .dropByte) := by
  rw [step, UsbRingbuffer.dropByte, h.checkEmpty_eq, Fifo.step]
  cases q with
  | nil => exact ⟨rb, rfl, rfl, h⟩
  | cons a q => exact ⟨{ rb with out := rb.out + 1 }, rfl, rfl, h.advance (n := 1) (by simp)⟩

theorem Represents.refines_write (h : Represents rb q) (d : Block) :
    Refines rb (rb.step (.write d)) (Fifo.step rb.size q (.write d)) := by
  obtain ⟨m, rb', hwrite, hm, hmask, hrb'⟩ := h.write d.size_le
  rw [step, hwrite, Fifo.step, d.length_bytes, ← hm]
  refine ⟨rb', rfl, hmask, ?_⟩
  have htake : d.bytes.take (rb.size - q.length) = d.data.take m.toNat := by
    rw [Block.bytes, List.take_take, hm]
  rw [htake]
  exact hrb'

theorem Represents.refines_overwrite (h : Represents rb q) (d : Block) :
    Refines rb (rb.step (.overwrite d)) (Fifo.step rb.size q (.overwrite d)) := by
  have hle := h.holds.length_le
  obtain ⟨m, rb', hwrite, hm, hmask, hrb'⟩ := h.overwrite d.size_le
  rw [step, hwrite, Fifo.step, Fifo.overwrite, d.length_bytes, ← hm]
  refine ⟨rb', rfl, hmask, ?_⟩
  have htake : d.bytes.take rb.size = d.data.take m.toNat := by
    rw [Block.bytes, List.take_take, hm]
  have hgone : q.length + m.toNat - rb.size = m.toNat - (rb.size - q.length) := by omega
  rw [htake, hgone]
  exact hrb'

theorem Represents.refines_read (h : Represents rb q) (n : UInt32) :
    Refines rb (rb.step (.read n)) (Fifo.step rb.size q (.read n)) := by
  obtain ⟨m, hpeek, hm⟩ := h.peek n
  have hlen : (q.take n.toNat).length = m.toNat := by
    rw [List.length_take, hm, Nat.min_comm]
  rw [step, UsbRingbuffer.read, hpeek, Fifo.step, hlen]
  refine ⟨{ rb with out := rb.out + m }, rfl, rfl, ?_⟩
  have hdrop : q.drop n.toNat = q.drop m.toNat := by
    rcases Nat.le_total n.toNat q.length with hle | hle
    · rw [hm, Nat.min_eq_right hle]
    · rw [hm, Nat.min_eq_left hle, List.drop_of_length_le hle, List.drop_length]
  rw [hdrop]
  exact h.advance (by omega)

theorem Represents.refines_drop (h : Represents rb q) (n : UInt32) :
    Refines rb (rb.step (.drop n)) (Fifo.step rb.size q (.drop n)) := by
  have hused : (rb.inp - rb.out).toNat = q.length := h.used
  rw [step, UsbRingbuffer.drop, Fifo.step, List.length_take]
  by_cases hcut : rb.inp - rb.out < n
  · have hcut' := hcut
    rw [UInt32.lt_iff_toNat_lt, hused] at hcut'
    have hall := h.advance (n := rb.inp - rb.out) hused.le
    rw [hused, List.drop_length] at hall
    rw [Nat.min_eq_right hcut'.le, List.drop_of_length_le hcut'.le]
    simp only [if_pos hcut, hused]
    exact ⟨_, rfl, rfl, hall⟩
  · have hcut' := hcut
    rw [UInt32.lt_iff_toNat_lt, hused] at hcut'
    rw [Nat.min_eq_left (by omega)]
    simp only [if_neg hcut]
    exact ⟨_, rfl, rfl, h.advance (by omega)⟩

/-- One call. -/
theorem Represents.step (h : Represents rb q) (op : Op) :
    Refines rb (rb.step op) (Fifo.step rb.size q op) := by
  cases op with
  | reset => exact ⟨rb.reset, rfl, rfl, h.reset⟩
  | resetRead => exact ⟨rb.resetRead, rfl, rfl, h.resetRead⟩
  | getUsed =>
    rw [UsbRingbuffer.step, h.used]
    exact ⟨rb, rfl, rfl, h⟩
  | getFree =>
    rw [UsbRingbuffer.step, getFree, h.toNat_getFree]
    exact ⟨rb, rfl, rfl, h⟩
  | checkFull =>
    rw [UsbRingbuffer.step, h.checkFull_eq]
    exact ⟨rb, rfl, rfl, h⟩
  | checkEmpty =>
    rw [UsbRingbuffer.step, h.checkEmpty_eq]
    exact ⟨rb, rfl, rfl, h⟩
  | writeByte byte => exact h.refines_writeByte byte
  | overwriteByte byte => exact h.refines_overwriteByte byte
  | peekByte =>
    rw [UsbRingbuffer.step, h.peekByte_eq]
    exact ⟨rb, rfl, rfl, h⟩
  | readByte => exact h.refines_readByte
  | dropByte => exact h.refines_dropByte
  | write d => exact h.refines_write d
  | overwrite d => exact h.refines_overwrite d
  | peek n =>
    obtain ⟨m, hpeek, hm⟩ := h.peek n
    rw [UsbRingbuffer.step, hpeek, Fifo.step, List.length_take, Nat.min_comm, ← hm]
    exact ⟨rb, rfl, rfl, h⟩
  | read n => exact h.refines_read n
  | drop n => exact h.refines_drop n

/-- Calls one after the other. -/
theorem Represents.run (ops : List Op) : ∀ {rb : UsbRingbuffer cap} {q : List UInt8},
    Represents rb q →
    ∃ rb', rb.run ops = .ok ((Fifo.run rb.size q ops).1, rb') ∧
      Represents rb' (Fifo.run rb.size q ops).2 := by
  induction ops with
  | nil =>
    intro rb q h
    exact ⟨rb, rfl, h⟩
  | cons op ops ih =>
    intro rb q h
    obtain ⟨rb', hstep, hmask, hrb'⟩ := h.step op
    have hsize : rb'.size = rb.size := by rw [size, size, hmask]
    obtain ⟨rb'', hrun, hrb''⟩ := ih hrb'
    rw [hsize] at hrun hrb''
    refine ⟨rb'', ?_, hrb''⟩
    rw [UsbRingbuffer.run, hstep, ok_bind, hrun]
    rfl

theorem init_eq {pool : Buf UInt8 cap} {size : UInt32} (h : init pool size = some rb) :
    rb = { inp := 0, out := 0, mask := size - 1, pool := pool } ∧
      ∃ k, 1 ≤ k ∧ k < 32 ∧ size.toNat = 2 ^ k := by
  rw [init] at h
  split at h
  · cases h
  · next hok =>
    rw [not_or, Decidable.not_not, UInt32.lt_iff_toNat_lt] at hok
    obtain ⟨hge, hand⟩ := hok
    have hnat : size.toNat &&& (size.toNat - 1) = 0 := by
      rw [← UInt32.toNat_inj, UInt32.toNat_and, UInt32.toNat_sub_of_le] at hand
      · exact hand
      · rw [UInt32.le_iff_toNat_le]
        show 1 ≤ size.toNat
        have htwo : (2 : UInt32).toNat = 2 := rfl
        omega
    have htwo : (2 : UInt32).toNat = 2 := rfl
    obtain ⟨k, hk⟩ := (Nat.and_sub_one_eq_zero_iff_isPowerOfTwo (by omega)).1 hnat
    refine ⟨(Option.some.inj h).symm, k, ?_, ?_, hk⟩
    · rcases Nat.eq_zero_or_pos k with rfl | hpos
      · rw [Nat.pow_zero] at hk
        omega
      · exact hpos
    · have hlt : 2 ^ k < 2 ^ 32 := hk ▸ size.toNat_lt
      exact (Nat.pow_lt_pow_iff_right (by omega)).1 hlt

theorem size_of_init {pool : Buf UInt8 cap} {size : UInt32} (h : init pool size = some rb) :
    rb.size = size.toNat := by
  obtain ⟨rfl, k, hk, -, hsize⟩ := init_eq h
  have hpos : 1 ≤ size.toNat := hsize ▸ Nat.one_le_two_pow
  show (size - 1).toNat + 1 = size.toNat
  rw [UInt32.toNat_sub_of_le _ _ (by rw [UInt32.le_iff_toNat_le]; exact hpos)]
  exact Nat.sub_add_cancel hpos

/-- A new ring is an empty queue. -/
theorem represents_init {pool : Buf UInt8 cap} {size : UInt32} (hcap : size.toNat ≤ cap)
    (h : init pool size = some rb) : Represents rb [] := by
  have hsize := size_of_init h
  obtain ⟨rfl, k, -, hk, hpow⟩ := init_eq h
  exact ⟨⟨k, hk, hsize.trans hpow⟩, toNat_getUsed_of_eq rfl,
    holds_nil _ _ (hsize.trans_le hcap)⟩

/-- From `usb_ringbuffer_init` on, every sequence of calls returns on the ring what it returns
on the bounded queue, and no call touches a byte outside the pool. -/
theorem ringbuffer_refines_queue (pool : Buf UInt8 cap) (size : UInt32)
    (hcap : size.toNat ≤ cap) (rb : UsbRingbuffer cap) (hinit : init pool size = some rb)
    (ops : List Op) :
    ∃ rb', rb.run ops = .ok ((Fifo.run size.toNat [] ops).1, rb') ∧
      Represents rb' (Fifo.run size.toNat [] ops).2 := by
  have hrun := (represents_init hcap hinit).run ops
  rw [size_of_init hinit] at hrun
  exact hrun

/-- Four bytes of memory. -/
def fourBytes : Buf UInt8 4 := ⟨[0, 0, 0, 0], rfl⟩

/-- A ring of four bytes, written and read over its end. -/
theorem ringbuffer_refines_queue_wrap :
    ∃ rb', run { inp := 0, out := 0, mask := 3, pool := fourBytes }
        [.write ⟨[1, 2, 3], 3, by decide⟩, .read 2,
          .overwrite ⟨[4, 5, 6, 7], 4, by decide⟩, .read 9] =
      .ok ([.count 3, .bytes 2 [1, 2], .count 4, .bytes 4 [4, 5, 6, 7]], rb') := by
  obtain ⟨rb', hrun, -⟩ := ringbuffer_refines_queue fourBytes 4 (by decide) _ rfl
    [.write ⟨[1, 2, 3], 3, by decide⟩, .read 2, .overwrite ⟨[4, 5, 6, 7], 4, by decide⟩,
      .read 9]
  exact ⟨rb', hrun⟩

end Refinement

end UsbRingbuffer

end Cdc2Net.Source

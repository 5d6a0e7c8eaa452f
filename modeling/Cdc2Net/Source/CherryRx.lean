import Cdc2Net.Lib.Transition
import Cdc2Net.Source.UsbRingbuffer

/-!
# Reception in `usbh_serial.c`

The interrupt hands every finished transfer to `usbh_serial_callback`, which submits the URB
again on the other of two buffers and copies the finished one into the ring; `stick_task` takes
the bytes out in `usbh_serial_read`; `SET_ATTR`, from any task, kills the URB, empties the ring
and submits the URB. No lock is held around the ring, so every store is a step, every byte of a
`memcpy` too, and the three run in any order. What a ring operation loads from the counters before
its first `memcpy` it loads in one step (`startRead`, `startWrite`). The host controller may write
into the buffer of the URB in flight at any time.

`SET_ATTR` empties the ring with two stores to counters that the reader uses as well. As long as
these stores do not fall into a read (`Quiet`), what is read is a prefix of what was accepted,
and a reader that sleeps has everything (`RxInv`). A store into a read leaves the counters with
a difference near `2 ^ 32` (`Runaway`).
-/

set_option autoImplicit false

namespace Cdc2Net.Source.CherryRx

open Cdc2Net.Lib.Transition Cdc2Net.Lib.FixedBuffer Cdc2Net.Lib.RingQueue
open UsbRingbuffer

/-! ## The state -/

/-- `CONFIG_USBHOST_SERIAL_RX_SIZE` -/
abbrev rxSize : Nat := 2048

/-- `USBH_SERIAL_RX_NOCACHE_SIZE`, the largest packet of a bulk endpoint -/
abbrev packetSize : Nat := 512

def errIo : Int := -12

def errShutdown : Int := -13

def errBusy : Int := -6

/-- The locals of the two `memcpy` of a ring operation, and how many bytes are copied. -/
structure Copy where
  offset : UInt32
  remain : UInt32
  size : UInt32
  done : Nat
  deriving DecidableEq

/-- The element of the pool that the next byte goes to or comes from. -/
def Copy.address (c : Copy) : Nat :=
  if c.done < c.remain.toNat then c.offset.toNat + c.done else c.done - c.remain.toNat

/-- The locals of a ring operation that starts at a counter. -/
def startCopy (mask counter size : UInt32) : Copy :=
  let offset := counter &&& mask
  let remain := mask + 1 - offset
  let remain := if size < remain then size else remain
  { offset := offset, remain := remain, size := size, done := 0 }

/-- `usb_ringbuffer_write(rb, _, size)` up to its first `memcpy` -/
def startWrite (rb : UsbRingbuffer rxSize) (size : UInt32) : Copy :=
  let unused := (rb.mask + 1) - (rb.inp - rb.out)
  startCopy rb.mask rb.inp (if unused < size then unused else size)

/-- `usb_ringbuffer_read(rb, _, size)` up to its first `memcpy` -/
def startRead (rb : UsbRingbuffer rxSize) (size : UInt32) : Copy :=
  let used := rb.inp - rb.out
  startCopy rb.mask rb.out (if used < size then used else size)

/-- Where `usbh_serial_callback` stands. -/
inductive CallbackPc where
  | idle
  /-- Before `rx_errorcode` is set to a failure. -/
  | failed (code : Int)
  /-- With `nbytes` received, before the URB is submitted again. -/
  | entered (nbytes : Nat)
  /-- Before `usb_ringbuffer_write`, and in it with the buffer it copies from. -/
  | submitted (nbytes : Nat)
  | copying (half : Bool) (c : Copy)
  /-- Before `rx_buf_index ^= 1`. -/
  | copied
  /-- Before `rx_errorcode = 0`. -/
  | toggled
  /-- Before `usb_osal_sem_give`. -/
  | give
  deriving DecidableEq

/-- Where `usbh_serial_read` stands. -/
inductive ReaderPc where
  | idle
  /-- Before `usb_ringbuffer_get_used`. -/
  | entered (buflen : UInt32)
  /-- In `usb_osal_sem_take`. -/
  | waiting (buflen : UInt32)
  /-- Before the test of `rx_errorcode`. -/
  | woken (buflen : UInt32)
  /-- Before `usb_ringbuffer_read`, and in it with the bytes copied. -/
  | reading (buflen : UInt32)
  | copying (c : Copy) (bytes : List UInt8)
  deriving DecidableEq

/-- Where `USBH_SERIAL_CMD_SET_ATTR` stands. -/
inductive ControlPc where
  | idle
  /-- Before `usbh_kill_urb`, and in the callback with `-USB_ERR_SHUTDOWN` that it calls. -/
  | kill
  | killed
  | killGive
  /-- Before `set_line_coding`. -/
  | coding
  /-- Before `usbh_serial_tiocmset`. -/
  | lineState
  /-- Before `rb->in = 0`, and before `rb->out = 0`. -/
  | resetIn
  | resetOut
  /-- Before `usb_osal_sem_reset`. -/
  | semReset
  /-- Before `rx_buf_index = 0`. -/
  | index
  /-- Before `usbh_submit_urb`. -/
  | submit
  deriving DecidableEq

/-- What the three share, and where they stand. -/
structure Port where
  /-- `rx_rb` -/
  rb : UsbRingbuffer rxSize
  /-- The two receive buffers; `true` is the one at `USBH_SERIAL_RX2_NOCACHE_OFFSET`. -/
  io : Bool → Buf UInt8 packetSize
  /-- `rx_buf_index` -/
  index : Bool
  /-- `rx_errorcode` -/
  errorcode : Int
  /-- The count of `rx_complete_sem`, at most one. -/
  sem : Bool
  /-- The receive buffer of `bulkin_urb` while it is in flight. -/
  urb : Option Bool
  callback : CallbackPc
  reader : ReaderPc
  control : ControlPc
  /-- An access fell outside a buffer. -/
  fault : Bool

/-- After `usbh_serial_open`, with anything in the buffers. -/
def opened (pool : Buf UInt8 rxSize) (io : Bool → Buf UInt8 packetSize) : Port where
  rb := { inp := 0, out := 0, mask := 2047, pool := pool }
  io := io
  index := false
  errorcode := 0
  sem := false
  urb := none
  callback := .idle
  reader := .idle
  control := .idle
  fault := false

/-! ## The steps -/

/-- What happens next. -/
inductive Label where
  /-- The host controller writes into the buffer of the URB in flight. -/
  | dma (content : Buf UInt8 packetSize)
  /-- The URB is finished, with a number of bytes or a negative error. -/
  | complete (nbytes : Int)
  /-- The callback goes on; `ret` is what `usbh_submit_urb` returns if it is called. -/
  | callback (ret : Int)
  /-- `usbh_serial_read` is called. -/
  | read (buflen : UInt32)
  /-- The reader goes on; `timeout` if `usb_osal_sem_take` gives up. -/
  | reader (timeout : Bool)
  /-- `usbh_serial_control` is called with `USBH_SERIAL_CMD_SET_ATTR`. -/
  | setAttr
  /-- `SET_ATTR` goes on; `ret` is what the call returns that it makes. -/
  | control (ret : Int)

/-- One byte of the `memcpy` into the ring, from `hdr` on in the receive buffer. -/
def copyIn (hdr : Nat) (s : Port) (half : Bool) (c : Copy) : Port :=
  match (s.io half).read (hdr + c.done) with
  | .error _ => { s with fault := true }
  | .ok byte =>
    match s.rb.pool.write c.address byte with
    | .error _ => { s with fault := true }
    | .ok pool =>
      { s with rb := { s.rb with pool := pool }
               callback := .copying half { c with done := c.done + 1 } }

/-- One byte of the `memcpy` out of the ring. -/
def copyOut (s : Port) (c : Copy) (bytes : List UInt8) : Port :=
  match s.rb.pool.read c.address with
  | .error _ => { s with fault := true }
  | .ok byte => { s with reader := .copying { c with done := c.done + 1 } (bytes ++ [byte]) }

/-- `usbh_serial_callback`; `hdr` is the driver's `ignore_rx_header`. -/
def callbackStep (hdr : Nat) (s : Port) (ret : Int) : Option Port :=
  match s.callback with
  | .idle => none
  | .failed code => some { s with errorcode := code, callback := .give }
  | .entered n =>
    -- an URB in flight is not taken a second time
    if s.urb.isSome then some { s with callback := .failed errBusy }
    else if ret < 0 then some { s with callback := .failed ret }
    else some { s with urb := some (!s.index), callback := .submitted n }
  | .submitted n =>
    some { s with callback := .copying s.index (startWrite s.rb (UInt32.ofNat (n - hdr))) }
  | .copying half c =>
    if c.done < c.size.toNat then some (copyIn hdr s half c)
    else some { s with rb := { s.rb with inp := s.rb.inp + c.size }, callback := .copied }
  | .copied => some { s with index := !s.index, callback := .toggled }
  | .toggled => some { s with errorcode := 0, callback := .give }
  | .give => some { s with sem := true, callback := .idle }

/-- The call of `usbh_serial_read`. -/
def readStep (s : Port) (buflen : UInt32) : Option Port :=
  match s.reader with
  | .idle => some { s with reader := .entered buflen }
  | _ => none

/-- `usbh_serial_read` -/
def readerStep (s : Port) (timeout : Bool) : Option Port :=
  match s.reader with
  | .idle => none
  | .entered buflen =>
    if s.rb.getUsed = 0 then some { s with reader := .waiting buflen }
    else some { s with reader := .reading buflen }
  | .waiting buflen =>
    if s.sem then
      if timeout then none else some { s with sem := false, reader := .woken buflen }
    else if timeout then some { s with reader := .idle } else none
  | .woken buflen =>
    if s.errorcode < 0 then some { s with reader := .idle }
    else some { s with reader := .reading buflen }
  | .reading buflen => some { s with reader := .copying (startRead s.rb buflen) [] }
  | .copying c bytes =>
    if c.done < c.size.toNat then some (copyOut s c bytes)
    else some { s with rb := { s.rb with out := s.rb.out + c.size }, reader := .idle }

/-- `USBH_SERIAL_CMD_SET_ATTR` -/
def controlStep (s : Port) (ret : Int) : Option Port :=
  match s.control with
  | .idle => none
  | .kill =>
    if s.urb.isSome then some { s with urb := none, control := .killed }
    else some { s with control := .coding }
  | .killed => some { s with errorcode := errShutdown, control := .killGive }
  | .killGive => some { s with sem := true, control := .coding }
  | .coding => some { s with control := if ret < 0 then .idle else .lineState }
  | .lineState => some { s with control := if ret < 0 then .idle else .resetIn }
  | .resetIn => some { s with rb := { s.rb with inp := 0 }, control := .resetOut }
  | .resetOut => some { s with rb := { s.rb with out := 0 }, control := .semReset }
  | .semReset => some { s with sem := false, control := .index }
  | .index => some { s with index := false, control := .submit }
  | .submit =>
    if s.urb.isSome ∨ ret < 0 then some { s with control := .idle }
    else some { s with urb := some s.index, control := .idle }

/-- The interrupt calls the callback. -/
def completeStep (hdr : Nat) (s : Port) (nbytes : Int) : Option Port :=
  match s.urb, s.callback with
  | some _, .idle =>
    if nbytes < 0 then some { s with urb := none, callback := .failed nbytes }
    else if nbytes < hdr then some { s with urb := none, callback := .failed errIo }
    else if nbytes ≤ packetSize then
      some { s with urb := none, callback := .entered nbytes.toNat }
    else none
  | _, _ => none

/-- The driver with everything that acts on it. -/
def rx (hdr : Nat) : Machine Port Label where
  step s
    | .dma content => s.urb.map fun half =>
      { s with io := fun h => if h = half then content else s.io h }
    | .complete nbytes => completeStep hdr s nbytes
    | .callback ret => callbackStep hdr s ret
    | .read buflen => readStep s buflen
    | .reader timeout => readerStep s timeout
    | .setAttr => if s.control = .idle then some { s with control := .kill } else none
    | .control ret => controlStep s ret

/-! ## What happens, seen from outside -/

inductive Event where
  /-- A transfer brought these bytes behind its header. -/
  | arrived (payload : List UInt8)
  /-- The ring takes the first `n` of them. -/
  | accepted (n : Nat)
  /-- `usbh_serial_read` returned these bytes. -/
  | got (bytes : List UInt8)
  /-- `SET_ATTR` has emptied the ring. -/
  | reset
  /-- The URB came back and was not submitted again. -/
  | stopped
  /-- `SET_ATTR` has submitted the URB. -/
  | armed

/-- What a step shows. -/
def emit (hdr : Nat) (s : Port) : Label → List Event
  | .complete nbytes =>
    match s.urb with
    | none => []
    | some half =>
      if nbytes < hdr then [.stopped]
      else [.arrived (((s.io half).elems.take nbytes.toNat).drop hdr)]
  | .callback ret =>
    match s.callback with
    | .entered _ => if s.urb.isNone ∧ ret < 0 then [.stopped] else []
    | .submitted n => [.accepted (startWrite s.rb (UInt32.ofNat (n - hdr))).size.toNat]
    | _ => []
  | .reader _ =>
    match s.reader with
    | .copying c bytes => if c.done < c.size.toNat then [] else [.got bytes]
    | _ => []
  | .control ret =>
    match s.control with
    | .kill => if s.urb.isSome then [.stopped] else []
    | .resetOut => [.reset]
    | .submit => if s.urb.isSome ∨ ret < 0 then [] else [.armed]
    | _ => []
  | _ => []

/-- The last transfer, and since the ring was emptied what was accepted and what was read. -/
structure Tally where
  payload : List UInt8
  kept : List UInt8
  got : List UInt8

def Tally.add (t : Tally) : Event → Tally
  | .arrived payload => { t with payload := payload }
  | .accepted n => { t with kept := t.kept ++ t.payload.take n }
  | .got bytes => { t with got := t.got ++ bytes }
  | .reset => { t with kept := [], got := [] }
  | _ => t

def tally (es : List Event) : Tally := es.foldl Tally.add ⟨[], [], []⟩

theorem tally_append (es fs : List Event) : tally (es ++ fs) = fs.foldl Tally.add (tally es) :=
  List.foldl_append

end Cdc2Net.Source.CherryRx

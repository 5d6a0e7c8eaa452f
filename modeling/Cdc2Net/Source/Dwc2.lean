import Cdc2Net.Lib.Transition
import Mathlib.Data.List.Basic
import Mathlib.Logic.Function.Basic

/-!
# Transfers in `usb_hc_dwc2.c`, on one core

`usbh_submit_urb` takes a channel from the pool, binds the URB to it and starts it; with a timeout
it then sleeps on the semaphore of the channel, without one it returns. The interrupt of a channel
that has halted moves a control transfer to its next stage or ends the transfer: it wakes the
sleeper, or frees the channel. `usbh_kill_urb` ends a transfer from any task, and the sleeper
itself calls it when its time is over.

A step is a statement of a task on shared data, a critical section, or one run of the interrupt's
handler for a channel. The model is of the driver on one core: the handler runs to its end between
two steps of the tasks. On a second core tasks run beside the handler, which takes no lock, and
nothing here speaks of that. Every URB has one caller at a time. The port is full speed: no split
transactions.
-/

set_option autoImplicit false

namespace Cdc2Net.Source.Dwc2

open Cdc2Net.Lib.Transition

def errNomem : Int := -1
def errBusy : Int := -6
def errStall : Int := -8
def errBabble : Int := -9
def errNak : Int := -10
def errDt : Int := -11
def errIo : Int := -12
def errShutdown : Int := -13
def errTimeout : Int := -14

/-- `DWC2_EP0_STATE_…` -/
inductive Ep0State where
  | setup
  | inData
  | outData
  | inStatus
  | outStatus
  deriving DecidableEq, Repr

/-- Whether the stage goes to the host, the `EPDIR` it is started with. -/
def Ep0State.dirIn : Ep0State → Bool
  | .inData | .inStatus => true
  | .setup | .outData | .outStatus => false

/-- The part of `struct usb_setup_packet` that the driver looks at. -/
structure Setup where
  bmRequestType : UInt8
  wLength : UInt16
  deriving DecidableEq, Repr

/-- The stage after the setup stage. -/
def Setup.next (setup : Setup) : Ep0State :=
  if setup.wLength ≠ 0 then
    if setup.bmRequestType &&& 0x80 ≠ 0 then .inData else .outData
  else .inStatus

/-- The endpoint of a URB, with `urb->setup`. -/
inductive Endpoint where
  | control (setup : Setup)
  /-- Bulk or interrupt. -/
  | bulk (dirIn : Bool)
  deriving DecidableEq, Repr

/-- Why a channel has halted, by the first bit of `HCINT` that the handler looks at. -/
inductive Cause where
  | xfrc
  | ahberr
  | stall
  | nak
  | nyet
  | txerr
  | bberr
  | dterr
  | frmor
  deriving DecidableEq, Repr

/-- The `errorcode` for a halt that is not a completed stage. -/
def Cause.code : Cause → Option Int
  | .xfrc => none
  | .ahberr => some errIo
  | .stall => some errStall
  | .nak => some errNak
  | .nyet => some errNak
  | .txerr => some errIo
  | .bberr => some errBabble
  | .dterr => some errDt
  | .frmor => some errIo

/-- The controller's side of a channel. -/
inductive Hw where
  | off
  | running
  /-- `CHENA` is clear and the interrupt pending. -/
  | halted (cause : Cause)
  deriving DecidableEq, Repr

/-- `struct dwc2_chan`, with the registers of the channel. -/
structure Chan where
  inuse : Bool
  urb : Option Nat
  /-- The count of `waitsem`, a semaphore of at most one. -/
  waitsem : Bool
  ep0State : Ep0State
  /-- `HCCHAR.EPDIR` -/
  epDir : Bool
  hw : Hw
  deriving DecidableEq, Repr

/-- `struct usbh_urb`; `timeout` says that the field is not 0. -/
structure Urb where
  endpoint : Endpoint
  hcpriv : Option Nat
  errorcode : Int
  timeout : Bool
  deriving DecidableEq, Repr

/-- Where the caller of a URB stands in `usbh_submit_urb`, with its `chan` and `ret`. -/
inductive SubmitPc where
  | idle
  /-- Past the checks. -/
  | entered
  /-- `dwc2_chan_alloc` has returned. -/
  | allocated (c : Nat)
  /-- Past the section that binds the URB to the channel. -/
  | bound (c : Nat)
  /-- In `usb_osal_sem_take`. -/
  | waiting (c : Nat)
  /-- It returned 0. -/
  | woken (c : Nat)
  /-- Past `urb->timeout = 0`. -/
  | cleared (c : Nat)
  /-- Past `ret = urb->errorcode`. -/
  | freeing (c : Nat) (ret : Int)
  /-- The time is over: at `errout_timeout`. -/
  | expired
  /-- At the call of `usbh_kill_urb`. -/
  | killing
  /-- Past the check of `urb->hcpriv` in it. -/
  | inKill
  deriving DecidableEq, Repr

/-- The pool, the URBs, their callers, and other tasks in `usbh_kill_urb` past its check. -/
structure Hcd where
  chan : Nat → Chan
  urb : Nat → Urb
  sub : Nat → SubmitPc
  killer : Nat → Option Nat
  /-- A NULL pointer was dereferenced. -/
  crashed : Bool

/-- After `usb_hc_init`: nothing in use, no URB submitted yet. -/
def Hcd.init : Hcd where
  chan _ := ⟨false, none, false, .setup, false, .off⟩
  urb _ := ⟨.bulk false, none, 0, false⟩
  sub _ := .idle
  killer _ := none
  crashed := false

namespace Hcd

def setChan (s : Hcd) (c : Nat) (chan : Chan) : Hcd :=
  { s with chan := Function.update s.chan c chan }

def setUrb (s : Hcd) (u : Nat) (urb : Urb) : Hcd :=
  { s with urb := Function.update s.urb u urb }

def setSub (s : Hcd) (u : Nat) (pc : SubmitPc) : Hcd :=
  { s with sub := Function.update s.sub u pc }

/-- `dwc2_chan_alloc` in a pool of `n`: the first channel that is not in use. -/
def chanAlloc (n : Nat) (s : Hcd) : Option Nat :=
  (List.range n).find? fun c => !(s.chan c).inuse

/-- `dwc2_chan_free` -/
def chanFree (s : Hcd) (c : Nat) : Hcd :=
  match (s.chan c).urb with
  | some u =>
    (s.setUrb u { s.urb u with hcpriv := none }).setChan c
      { s.chan c with urb := none, inuse := false }
  | none => s.setChan c { s.chan c with inuse := false }

end Hcd

/-- `dwc2_control_urb_init` -/
def Chan.controlUrbInit (chan : Chan) : Chan :=
  { chan with epDir := chan.ep0State.dirIn, hw := .running }

/-- `dwc2_bulk_intr_urb_init` -/
def Chan.bulkIntrUrbInit (chan : Chan) (dirIn : Bool) : Chan :=
  { chan with epDir := dirIn, hw := .running }

/-- The channel is disabled. -/
def Chan.stop (chan : Chan) : Chan := { chan with hw := .off }

/-- The start of a transfer in `usbh_submit_urb`. -/
def Chan.start (chan : Chan) : Endpoint → Chan
  | .control _ => { chan with ep0State := .setup }.controlUrbInit
  | .bulk dirIn => chan.bulkIntrUrbInit dirIn

/-- The handlers' part for `XFRC`, on a disabled channel: the channel, and the `errorcode` if
the transfer is complete. -/
def Chan.xfrc (chan : Chan) : Endpoint → Chan × Option Int
  | .bulk _ => (chan, some 0)
  | .control setup =>
    if chan.epDir then
      match chan.ep0State with
      | .inData => ({ chan with ep0State := .outStatus }.controlUrbInit, none)
      | .inStatus => ({ chan with ep0State := .setup }, some 0)
      | _ => (chan, none)
    else
      match chan.ep0State with
      | .setup => ({ chan with ep0State := setup.next }.controlUrbInit, none)
      | .outData => ({ chan with ep0State := .inStatus }.controlUrbInit, none)
      | .outStatus => ({ chan with ep0State := .setup }, some 0)
      | _ => (chan, none)

namespace Hcd

/-- `usb_osal_sem_give` if somebody waits, else `dwc2_chan_free`: what the interrupt and
`usbh_kill_urb` do with the channel of a URB that is over. -/
def release (s : Hcd) (u c : Nat) : Hcd :=
  if (s.urb u).timeout then s.setChan c { s.chan c with waitsem := true } else s.chanFree c

/-- `urb->errorcode = code` and `dwc2_urb_waitup` -/
def waitup (s : Hcd) (u : Nat) (code : Int) : Hcd :=
  match (s.urb u).hcpriv with
  | some c => (s.setUrb u { s.urb u with errorcode := code }).release u c
  | none => { s with crashed := true }

/-- `dwc2_halt`: a channel that has halted by itself is left as it is. -/
def halt (s : Hcd) (c : Nat) : Hcd :=
  match (s.chan c).hw with
  | .running => s.setChan c (s.chan c).stop
  | _ => s

/-- The critical section of `usbh_kill_urb`. -/
def killSection (s : Hcd) (u : Nat) : Hcd :=
  match (s.urb u).hcpriv with
  | some c => ((s.halt c).setUrb u { s.urb u with errorcode := errShutdown }).release u c
  | none => { s with crashed := true }

/-- `dwc2_inchan_irq_handler` and `dwc2_outchan_irq_handler`, with no task's step in between. -/
def irq (s : Hcd) (c : Nat) (cause : Cause) : Hcd :=
  let s := s.setChan c (s.chan c).stop
  match (s.chan c).urb with
  | none => { s with crashed := true }
  | some u =>
    match cause.code with
    | some code => s.waitup u code
    | none =>
      let r := (s.chan c).xfrc (s.urb u).endpoint
      match r.2 with
      | some code => (s.setChan c r.1).waitup u code
      | none => s.setChan c r.1

/-- The caller fills the URB and calls `usbh_submit_urb`, up to its check of `errorcode`. -/
def call (s : Hcd) (u : Nat) (endpoint : Endpoint) (timeout : Bool) : Option Hcd :=
  match s.sub u with
  | .idle =>
    let s := s.setUrb u { s.urb u with endpoint, timeout }
    some (if (s.urb u).errorcode = errBusy then s else s.setSub u .entered)
  | _ => none

/-- The next step of the caller of a URB. -/
def submit (n : Nat) (s : Hcd) (u : Nat) : Option Hcd :=
  match s.sub u with
  | .idle => none
  | .entered =>
    match s.chanAlloc n with
    | some c => some ((s.setChan c { s.chan c with inuse := true }).setSub u (.allocated c))
    | none => some (s.setSub u .idle)
  | .allocated c =>
    some (((s.setChan c { s.chan c with urb := some u }).setUrb u
      { s.urb u with hcpriv := some c, errorcode := errBusy }).setSub u (.bound c))
  | .bound c =>
    -- the test of `urb->timeout` reads what the caller itself has stored
    some ((s.setChan c ((s.chan c).start (s.urb u).endpoint)).setSub u
      (if (s.urb u).timeout then .waiting c else .idle))
  | .waiting c =>
    if (s.chan c).waitsem then
      some ((s.setChan c { s.chan c with waitsem := false }).setSub u (.woken c))
    else none
  | .woken c => some ((s.setUrb u { s.urb u with timeout := false }).setSub u (.cleared c))
  | .cleared c => some (s.setSub u (.freeing c (s.urb u).errorcode))
  | .freeing c _ => some ((s.chanFree c).setSub u .idle)
  | .expired => some ((s.setUrb u { s.urb u with timeout := false }).setSub u .killing)
  | .killing => some (s.setSub u (if (s.urb u).hcpriv.isSome then .inKill else .idle))
  | .inKill => some ((s.killSection u).setSub u .idle)

/-- `usb_osal_sem_take` gives up. -/
def expire (s : Hcd) (u : Nat) : Option Hcd :=
  match s.sub u with
  | .waiting c => if (s.chan c).waitsem then none else some (s.setSub u .expired)
  | _ => none

/-- Another task calls `usbh_kill_urb`, up to its check of `urb->hcpriv`. -/
def kill (s : Hcd) (k u : Nat) : Option Hcd :=
  match s.killer k with
  | none => some (if (s.urb u).hcpriv.isSome then
      { s with killer := Function.update s.killer k (some u) } else s)
  | some _ => none

/-- Its section. -/
def killerSection (s : Hcd) (k : Nat) : Option Hcd :=
  match s.killer k with
  | some u => some { s.killSection u with killer := Function.update s.killer k none }
  | none => none

/-- The controller ends what it does on a channel. -/
def chanHalted (s : Hcd) (c : Nat) (cause : Cause) : Option Hcd :=
  match (s.chan c).hw with
  | .running => some (s.setChan c { s.chan c with hw := .halted cause })
  | _ => none

/-- The interrupt of a channel. -/
def irqHandler (s : Hcd) (c : Nat) : Option Hcd :=
  match (s.chan c).hw with
  | .halted cause => some (s.irq c cause)
  | _ => none

end Hcd

/-- The steps of the tasks, the interrupt and the controller. -/
inductive Label where
  | call (u : Nat) (endpoint : Endpoint) (timeout : Bool)
  | submit (u : Nat)
  | expire (u : Nat)
  | kill (k u : Nat)
  | killSection (k : Nat)
  | halted (c : Nat) (cause : Cause)
  | irq (c : Nat)
  deriving DecidableEq, Repr

/-- The driver on one core, with a pool of `n` channels and a full-speed port; nothing runs after a
crash. -/
def dwc2 (n : Nat) : Machine Hcd Label where
  step s l :=
    if s.crashed then none
    else
      match l with
      | .call u endpoint timeout => s.call u endpoint timeout
      | .submit u => s.submit n u
      | .expire u => s.expire u
      | .kill k u => s.kill k u
      | .killSection k => s.killerSection k
      | .halted c cause => s.chanHalted c cause
      | .irq c => s.irqHandler c

/-! ## What a run shows -/

inductive Event where
  /-- A URB was bound to a channel, to be started. -/
  | submitted (u : Nat) (endpoint : Endpoint)
  /-- A stage of a control transfer is complete. -/
  | stage (u : Nat) (st : Ep0State)
  /-- A transfer is over: `urb->complete`, if there is one. -/
  | completed (u : Nat) (code : Int)
  /-- `usbh_submit_urb` was woken and returned this. -/
  | returned (u : Nat) (ret : Int)
  deriving DecidableEq, Repr

/-- What the section of `usbh_kill_urb` shows. -/
def emitKill (s : Hcd) (u : Nat) : List Event :=
  match (s.urb u).hcpriv with
  | some _ => [.completed u errShutdown]
  | none => []

/-- What the handler of a channel shows. -/
def emitIrq (s : Hcd) (c : Nat) (cause : Cause) : List Event :=
  match (s.chan c).urb with
  | none => []
  | some u =>
    match cause.code, (s.urb u).endpoint with
    | some code, _ => [.completed u code]
    | none, .bulk _ => [.completed u 0]
    | none, .control setup =>
      .stage u (s.chan c).ep0State ::
        (((s.chan c).xfrc (.control setup)).2.map fun code => .completed u code).toList

/-- What a step shows. -/
def emit (s : Hcd) : Label → List Event
  | .submit u =>
    match s.sub u with
    | .allocated _ => [.submitted u (s.urb u).endpoint]
    | .freeing _ ret => [.returned u ret]
    | .inKill => emitKill s u
    | _ => []
  | .killSection k =>
    match s.killer k with
    | some u => emitKill s u
    | none => []
  | .irq c =>
    match (s.chan c).hw with
    | .halted cause => emitIrq s c cause
    | _ => []
  | _ => []

end Cdc2Net.Source.Dwc2

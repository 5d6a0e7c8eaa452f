import Cdc2Net.Source.SerialSource

/-!
# `POST /api/serial`

`h_serial_post` of `webui.c`, from the fields it takes out of the body. It writes the NVS
table and applies a coding live if the attached device has the key of the request and the
coding on the line is not marked as an RFC2217 controller's.

An upsert agrees with what a revert and a reopened device resolve from the table
(`postsAgree_upsert`); a delete does exactly for a source whose own default is 115200 8N1
(`default_agreement`).
-/

set_option autoImplicit false

namespace Cdc2Net.Web

open Cdc2Net.Lib
open Cdc2Net.Source

universe u v w x

/-- The fields of a request; `none` where `json_field` fails, else the string, or what
`atol` and `atoi` make of it. -/
structure SerialRequest where
  key : Option (List UInt8)
  delete : Bool
  baud : Option Int
  bits : Option Int
  parity : Option Int
  stop : Option Int
  deriving DecidableEq, Repr

/-- The response. -/
inductive SerialResponse where
  | err (code : Nat) (text : String)
  | deleted (reverted : Bool)
  | saved (applied : Bool)
  deriving DecidableEq, Repr

/-- A field in range, or the default. -/
def inRangeOr (v : Option Int) (lo hi default : Int) : Int :=
  match v with
  | some b => if lo ≤ b ∧ b ≤ hi then b else default
  | none => default

/-- The coding of an upsert: fields that are missing or out of range are 115200 8N1. -/
def SerialRequest.coding (req : SerialRequest) : LineCoding where
  baud := .ofNat (inRangeOr req.baud 300 4000000 serialcfgDefault.baud.toNat).toNat
  bits := .ofNat (inRangeOr req.bits 5 8 serialcfgDefault.bits.toNat).toNat
  parity := .ofNat (inRangeOr req.parity 0 4 serialcfgDefault.parity.toNat).toNat
  stop := .ofNat (inRangeOr req.stop 0 2 serialcfgDefault.stop.toNat).toNat

/-- What is left to do after the table: answer, or apply a coding and answer with
whether that worked. -/
inductive PostAction where
  | answer (resp : SerialResponse)
  | apply (lc : LineCoding) (lcSrc : UInt8) (resp : Bool → SerialResponse)

/-- `si.connected && si.lc_source != 2 && strcmp(si.key, key) == 0`; without a source the
snapshot is all zeros. -/
def appliesLive (info : Option SerialInfo) (key : List UInt8) : Bool :=
  info.any fun si => si.connected && si.lcSource ≠ 2 && si.key = key

/-- `h_serial_post` up to the apply. -/
def postDecide (info : Option SerialInfo) (req : SerialRequest) (r : NvsResults)
    (nvs : NvsTable) : NvsTable × PostAction :=
  match req.key with
  | none => (nvs, .answer (.err 400 "key required"))
  | some key =>
    if key = [] then (nvs, .answer (.err 400 "key required"))
    else if req.delete then
      -- the result of `serialcfg_delete` is not looked at
      ((serialcfgDelete r nvs key).2,
        if appliesLive info key then .apply serialcfgDefault 0 .deleted
        else .answer (.deleted false))
    else
      let u := serialcfgUpsert r nvs key req.coding
      (u.2,
        if u.1 ≠ .ok then .answer (.err 500 "save failed")
        else if appliesLive info key then .apply req.coding 1 .saved
        else .answer (.saved false))

section Handler

variable {σ : Type u} {ρ : Type v} {δ : Type w} {W : Type x} (src : SerialSource σ ρ δ W)

/-- `source_apply_line_coding`. -/
def sourceApply (s : Option σ) (d : ρ) (lc : LineCoding) (lcSrc : UInt8) : EspErr × Option σ :=
  match s with
  | none => (.notSupported, none)
  | some s => ((src.applyLc d s lc lcSrc).1, some (src.applyLc d s lc lcSrc).2)

/-- `h_serial_post`: the response, the table and the source; `d` is what the driver of the
source answers to an apply. -/
def hSerialPost (req : SerialRequest) (r : NvsResults) (d : ρ) (nvs : NvsTable) (s : Option σ) :
    SerialResponse × NvsTable × Option σ :=
  let p := postDecide (s.map src.serialInfo) req r nvs
  match p.2 with
  | .answer resp => (resp, p.1, s)
  | .apply lc lcSrc resp =>
    let a := sourceApply src s d lc lcSrc
    (resp (a.1 = .ok), p.1, a.2)

/-! ## The codings of one key -/

/-- A revert and a reopened device would apply `lc` too. -/
def ResolvesTo (s : σ) (nvs : NvsTable) (lc : LineCoding) : Prop :=
  (src.revertCoding nvs s).1 = lc ∧ (src.openCoding nvs s).1 = lc

/-- For the attached device the codings agree: a delete applies live what a revert and a
reopening resolve right after it, and an upsert that is saved stores and applies what they
resolve then. -/
structure PostsAgree (nvs : NvsTable) (s : σ) : Prop where
  delete : ∀ req, req.key = some (src.serialInfo s).key → req.delete = true →
    ∀ lc t resp, (postDecide (src.serialInfo s) req .allOk nvs).2 = .apply lc t resp →
      ResolvesTo src s (postDecide (src.serialInfo s) req .allOk nvs).1 lc
  upsert : ∀ req r, req.key = some (src.serialInfo s).key → req.delete = false →
    (serialcfgUpsert r nvs (src.serialInfo s).key req.coding).1 = .ok →
      ResolvesTo src s (postDecide (src.serialInfo s) req r nvs).1 req.coding ∧
        ∀ lc t resp, (postDecide (src.serialInfo s) req r nvs).2 = .apply lc t resp →
          lc = req.coding

variable {src} {nvs : NvsTable} {s : σ} {m : SlotMap serialcfgMax (List UInt8) LineCoding}

/-- A revert and an open resolve alike: the entry of the key, or the source's default. -/
theorem resolvesTo_iff (hconn : (src.serialInfo s).connected = true) (lc : LineCoding) :
    ResolvesTo src s nvs lc ↔
      (serialcfgLookup nvs (src.serialInfo s).key).getD src.default = lc := by
  rw [ResolvesTo, src.revert_resolves nvs s hconn, src.open_resolves nvs s hconn, resolveCoding]
  cases serialcfgLookup nvs (src.serialInfo s).key with
  | none => exact and_self_iff
  | some lc' => exact and_self_iff

/-- A saved upsert can be looked up. -/
theorem lookup_upsert_of_ok (h : nvs.Represents m) {key : List UInt8} (hkey : ValidKey key)
    {r : NvsResults} {lc : LineCoding} (hok : (serialcfgUpsert r nvs key lc).1 = .ok) :
    serialcfgLookup (serialcfgUpsert r nvs key lc).2 key = some lc := by
  -- an upsert that returns `ESP_OK` wrote what one without errors writes
  have hsame : (serialcfgUpsert r nvs key lc).2 = (serialcfgUpsert .allOk nvs key lc).2 := by
    simp only [serialcfgUpsert, if_neg hkey.ne_nil] at hok ⊢
    split at hok
    · next hopen => exact absurd hok hopen
    · next hopen =>
      split at hok
      · next hset => exact absurd hok hset
      · next hset =>
        rw [if_neg hopen, if_neg hset]
        rfl
  obtain ⟨-, hrep⟩ := upsert_represents h hkey lc
  rw [hsame, lookup_eq hrep hkey.ne_nil, SlotMap.find_insert, if_pos rfl]

theorem postsAgree_upsert (h : nvs.Represents m) (hconn : (src.serialInfo s).connected = true)
    (req : SerialRequest) (r : NvsResults) (hkey : req.key = some (src.serialInfo s).key)
    (hdel : req.delete = false)
    (hok : (serialcfgUpsert r nvs (src.serialInfo s).key req.coding).1 = .ok) :
    ResolvesTo src s (postDecide (src.serialInfo s) req r nvs).1 req.coding ∧
      ∀ lc t resp, (postDecide (src.serialInfo s) req r nvs).2 = .apply lc t resp →
        lc = req.coding := by
  have hvalid := src.keyed s hconn
  simp only [postDecide, hkey, if_neg hvalid.ne_nil, hdel, Bool.false_eq_true, if_false, hok,
    ne_eq, not_true_eq_false]
  refine ⟨?_, fun lc t resp happly => ?_⟩
  · rw [resolvesTo_iff hconn, lookup_upsert_of_ok h hvalid hok]
    rfl
  · split at happly
    · cases happly
      rfl
    · cases happly

/-- A source that is not under a controller takes a live apply for its own key. -/
theorem appliesLive_own (hconn : (src.serialInfo s).connected = true) :
    appliesLive (src.serialInfo s) (src.serialInfo s).key = true ↔
      (src.serialInfo s).lcSource ≠ 2 := by
  simp [appliesLive, hconn]

/-- For an attached device the codings agree exactly if the source's own default is the
global one, or nothing is applied live. -/
theorem postsAgree_iff (h : nvs.Represents m) (hconn : (src.serialInfo s).connected = true) :
    PostsAgree src nvs s ↔
      src.default = serialcfgDefault ∨ (src.serialInfo s).lcSource = 2 := by
  have hvalid := src.keyed s hconn
  have hgone : serialcfgLookup (serialcfgDelete .allOk nvs (src.serialInfo s).key).2
      (src.serialInfo s).key = none := by
    obtain ⟨-, hrep⟩ := delete_represents h hvalid
    rw [lookup_eq hrep hvalid.ne_nil, SlotMap.find_erase, if_pos rfl]
  constructor
  · intro hagree
    by_cases hsrc : (src.serialInfo s).lcSource = 2
    · exact .inr hsrc
    · -- the request that deletes the attached device's entry
      left
      have happly := hagree.delete
        ⟨some (src.serialInfo s).key, true, none, none, none, none⟩ rfl rfl serialcfgDefault 0
        .deleted
      simp only [postDecide, if_neg hvalid.ne_nil, if_true,
        (appliesLive_own hconn).2 hsrc, true_imp_iff] at happly
      rw [resolvesTo_iff hconn, hgone] at happly
      exact happly
  · intro hdef
    refine ⟨fun req hkey hdel lc t resp happly => ?_, postsAgree_upsert h hconn⟩
    simp only [postDecide, hkey, if_neg hvalid.ne_nil, hdel, if_true] at happly ⊢
    split at happly
    · next hlive =>
      -- the entry is gone, so a revert falls back to the source's own default
      cases happly
      have hsrc := (appliesLive_own hconn).1 hlive
      rw [resolvesTo_iff hconn, hgone]
      exact hdef.resolve_right hsrc
    · cases happly

end Handler

/-! ## The three sources -/

/-- **Which sources resolve one default.** For every table and every attached device: on
both USB stacks the web handler, the revert and the reopening agree; on the UART they do
exactly if the profile's default is 115200 8N1 or nothing is applied live. -/
theorem default_agreement {nvs : NvsTable} {m : SlotMap serialcfgMax (List UInt8) LineCoding}
    (h : nvs.Represents m) :
    (∀ s : Usb.State, s.connected = true →
      PostsAgree espUsbSource nvs s ∧ PostsAgree cherrySource nvs s) ∧
    ∀ (p : Uart.Profile) (hkey : ValidKey p.key) (s : Uart.State), s.ready = true →
      (PostsAgree (uartSource p hkey) nvs s ↔
        p.default = serialcfgDefault ∨ s.lcSource = 2) := by
  refine ⟨fun s hconn => ⟨?_, ?_⟩, fun p hkey s hready => ?_⟩
  · have hesp : (espUsbSource.serialInfo s).connected = true := hconn
    exact (postsAgree_iff h hesp).2 (.inl rfl)
  · have hcherry : (cherrySource.serialInfo s).connected = true := hconn
    exact (postsAgree_iff h hcherry).2 (.inl rfl)
  · have huart : ((uartSource p hkey).serialInfo s).connected = true := hready
    exact postsAgree_iff h huart

/-- The TCM515 after start-up, with an entry for it: `tcm515` at 57600. -/
def tcmTable : NvsTable :=
  (serialcfgUpsert .allOk (emptyTable false) (asciiBytes "tcm515") ⟨57600, 8, 0, 0⟩).2

theorem tcm515_key : ValidKey (Uart.tcm515 460800).key := by decide

theorem tcmTable_represents : ∃ m, tcmTable.Represents m := by
  have hempty : (emptyTable false).Represents (.empty serialcfgMax (List UInt8) LineCoding) :=
    ⟨rfl, fun _ _ => rfl⟩
  exact ⟨_, (upsert_represents hempty tcm515_key ⟨57600, 8, 0, 0⟩).2⟩

theorem default_agreement_tcm515 :
    ¬ PostsAgree (uartSource (Uart.tcm515 460800) tcm515_key) tcmTable
        (Uart.sourceUartInit (Uart.tcm515 460800) tcmTable) ∧
      PostsAgree (uartSource (Uart.tcm515 115200) (by decide)) tcmTable
        (Uart.sourceUartInit (Uart.tcm515 115200) tcmTable) := by
  obtain ⟨m, hm⟩ := tcmTable_represents
  constructor
  · rw [(default_agreement hm).2 _ tcm515_key _ rfl]
    decide
  · rw [(default_agreement hm).2 _ _ _ rfl]
    decide

/-- Deleting the entry of a TCM515 puts its line to 115200 baud; a revert or a restart
puts it to 460800. -/
theorem default_agreement_fails :
    ∃ (req : SerialRequest) (nvs : NvsTable) (s : Uart.State),
      (hSerialPost (uartSource (Uart.tcm515 460800) tcm515_key) req .allOk .allOk tcmTable
        (some (Uart.sourceUartInit (Uart.tcm515 460800) tcmTable))) =
          (.deleted true, nvs, some s) ∧
      s.port.baud = 115200 ∧
      (Uart.opRevertLineCoding (Uart.tcm515 460800) nvs s .allOk).port.baud = 460800 ∧
      (Uart.sourceUartInit (Uart.tcm515 460800) nvs).port.baud = 460800 :=
  ⟨⟨some (asciiBytes "tcm515"), true, none, none, none, none⟩, _, _, rfl, rfl, rfl, rfl⟩

end Cdc2Net.Web

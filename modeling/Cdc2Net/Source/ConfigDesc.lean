import Mathlib.Data.List.Basic
import Mathlib.Logic.Function.Basic

/-!
# The configuration descriptor in `usbh_core.c`

`parse_config_descriptor` walks over the descriptors that the device has sent into
`ep0_request_buffer` and copies its interface and endpoint descriptors into the tables of the
port. It tests the index of an interface and of its alternate setting against the tables, the
index of an endpoint only through `bNumEndpoints`, and it looks at one descriptor more than the
device has sent: the loop ends when `desc_len` has passed `length`, not when it has reached it.

`parse_overruns_iff` says that the loop ends, which buffers make it write outside the tables, and
how far behind the descriptor a byte can decide anything. A read is no event here: the test reads
`p[DESC_bLength]` before `desc_len`, so that the last byte looked at can lie up to 255 behind
`length`, and decides nothing there. The tables that it leaves are the subject of
`Source.ConfigTables`.
-/

set_option autoImplicit false

namespace Cdc2Net.Source.Enumerate

def errNomem : Int := -1
def errInval : Int := -2

/-- `CONFIG_USBHOST_MAX_INTERFACES` -/
def maxInterfaces : Nat := 8

/-- `CONFIG_USBHOST_MAX_INTF_ALTSETTINGS` -/
def maxIntfAltsettings : Nat := 2

/-- `CONFIG_USBHOST_MAX_ENDPOINTS` -/
def maxEndpoints : Nat := 4

def sizeofConfigDesc : Nat := 9

def typeConfiguration : UInt8 := 2
def typeInterface : UInt8 := 4
def typeEndpoint : UInt8 := 5

/-- The bytes from the start of `ep0_request_buffer` on, also those behind it. -/
abbrev Memory := Nat → UInt8

/-- A `uint16_t` of a descriptor. -/
def le16 (m : Memory) (p : Nat) : UInt16 := (m p).toUInt16 ||| (m (p + 1)).toUInt16 <<< 8

/-- `struct usb_configuration_descriptor` -/
structure ConfigDesc where
  bLength : UInt8
  bDescriptorType : UInt8
  wTotalLength : UInt16
  bNumInterfaces : UInt8
  bConfigurationValue : UInt8
  iConfiguration : UInt8
  bmAttributes : UInt8
  bMaxPower : UInt8
  deriving DecidableEq, Repr

def ConfigDesc.read (m : Memory) (p : Nat) : ConfigDesc :=
  ⟨m p, m (p + 1), le16 m (p + 2), m (p + 4), m (p + 5), m (p + 6), m (p + 7), m (p + 8)⟩

/-- `struct usb_interface_descriptor` -/
structure InterfaceDesc where
  bLength : UInt8
  bDescriptorType : UInt8
  bInterfaceNumber : UInt8
  bAlternateSetting : UInt8
  bNumEndpoints : UInt8
  bInterfaceClass : UInt8
  bInterfaceSubClass : UInt8
  bInterfaceProtocol : UInt8
  iInterface : UInt8
  deriving DecidableEq, Repr

def InterfaceDesc.read (m : Memory) (p : Nat) : InterfaceDesc :=
  ⟨m p, m (p + 1), m (p + 2), m (p + 3), m (p + 4), m (p + 5), m (p + 6), m (p + 7), m (p + 8)⟩

/-- `struct usb_endpoint_descriptor` -/
structure EndpointDesc where
  bLength : UInt8
  bDescriptorType : UInt8
  bEndpointAddress : UInt8
  bmAttributes : UInt8
  wMaxPacketSize : UInt16
  bInterval : UInt8
  deriving DecidableEq, Repr

def EndpointDesc.read (m : Memory) (p : Nat) : EndpointDesc :=
  ⟨m p, m (p + 1), m (p + 2), m (p + 3), le16 m (p + 4), m (p + 6)⟩

/-- `struct usbh_interface_altsetting`. `ep` has `maxEndpoints` entries. -/
@[ext]
structure AltSetting where
  intfDesc : InterfaceDesc
  ep : Nat → EndpointDesc

/-- `struct usbh_interface`. `altsetting` has `maxIntfAltsettings` entries. -/
structure Interface where
  altsetting : Nat → AltSetting
  altsettingNum : Nat

/-- `struct usbh_configuration`. `intf` has `maxInterfaces` entries. -/
structure Configuration where
  configDesc : ConfigDesc
  intf : Nat → Interface

def InterfaceDesc.zero : InterfaceDesc := ⟨0, 0, 0, 0, 0, 0, 0, 0, 0⟩

def EndpointDesc.zero : EndpointDesc := ⟨0, 0, 0, 0, 0, 0⟩

def AltSetting.zero : AltSetting := ⟨.zero, fun _ => .zero⟩

/-- What `memset` leaves. -/
def Interface.zero : Interface := ⟨fun _ => .zero, 0⟩

def AltSetting.setEp (t : AltSetting) (e : Nat) (d : EndpointDesc) : AltSetting :=
  { t with ep := Function.update t.ep e d }

/-- The `memcpy` of an interface descriptor, and `altsetting_num`. -/
def Interface.setDesc (t : Interface) (a : Nat) (d : InterfaceDesc) : Interface :=
  ⟨Function.update t.altsetting a { t.altsetting a with intfDesc := d }, a + 1⟩

/-- The `memcpy` of an endpoint descriptor. -/
def Interface.setEp (t : Interface) (a e : Nat) (d : EndpointDesc) : Interface :=
  { t with altsetting := Function.update t.altsetting a ((t.altsetting a).setEp e d) }

/-- Interface `i` of the table changed. -/
def Configuration.setIntf (c : Configuration) (i : Nat) (t : Interface) : Configuration :=
  { c with intf := Function.update c.intf i t }

def Configuration.setInterface (c : Configuration) (d : InterfaceDesc) : Configuration :=
  c.setIntf d.bInterfaceNumber.toNat
    ((c.intf d.bInterfaceNumber.toNat).setDesc d.bAlternateSetting.toNat d)

def Configuration.setEndpoint (c : Configuration) (i a e : Nat) (d : EndpointDesc) :
    Configuration :=
  c.setIntf i ((c.intf i).setEp a e d)

/-- `cur_iface`, `cur_alt_setting` and `cur_ep`. -/
structure Cursor where
  curIface : Nat
  curAltSetting : Nat
  curEp : Nat
  deriving DecidableEq, Repr

def Cursor.init : Cursor := ⟨0xff, 0xff, 0xff⟩

/-- How `parse_config_descriptor` ends. -/
inductive Parsed where
  | ret (code : Int) (c : Configuration)
  /-- A `memcpy` to an entry that the tables do not have. -/
  | overrun
  /-- The loop has not ended. -/
  | running

/-- What follows a pass of the loop. -/
inductive Next where
  | go (s : Cursor) (c : Configuration)
  | stop (r : Parsed)

/-- `case USB_DESCRIPTOR_TYPE_INTERFACE` -/
def onInterface (d : InterfaceDesc) (c : Configuration) : Next :=
  if maxInterfaces ≤ d.bInterfaceNumber.toNat then .stop (.ret errNomem c)
  else if maxEndpoints ≤ d.bNumEndpoints.toNat then .stop (.ret errNomem c)
  else if maxIntfAltsettings ≤ d.bAlternateSetting.toNat then .stop (.ret errNomem c)
  else .go ⟨d.bInterfaceNumber.toNat, d.bAlternateSetting.toNat, 0⟩ (c.setInterface d)

/-- `case USB_DESCRIPTOR_TYPE_ENDPOINT` -/
def onEndpoint (d : EndpointDesc) (s : Cursor) (c : Configuration) : Next :=
  if s.curIface < maxInterfaces ∧ s.curAltSetting < maxIntfAltsettings ∧
      s.curEp < maxEndpoints then
    .go { s with curEp := s.curEp + 1 } (c.setEndpoint s.curIface s.curAltSetting s.curEp d)
  else .stop .overrun

/-- The `switch` on the descriptor at `p`. -/
def onDescriptor (m : Memory) (p : Nat) (s : Cursor) (c : Configuration) : Next :=
  if m (p + 1) = typeInterface then onInterface (.read m p) c
  else if m (p + 1) = typeEndpoint then onEndpoint (.read m p) s c
  else .go s c

/-- The `while` loop. `fuel` bounds the number of passes. -/
def parseLoop (m : Memory) (length : Nat) : Nat → Nat → Cursor → Configuration → Parsed
  | 0, _, _, _ => .running
  | fuel + 1, descLen, s, c =>
    if m descLen ≠ 0 ∧ descLen ≤ length then
      match onDescriptor m descLen s c with
      | .go s' c' => parseLoop m length fuel (descLen + (m descLen).toNat) s' c'
      | .stop r => r
    else .ret 0 c

/-- What the walk starts from: the tables of the port cleared, its descriptor copied. -/
def Configuration.start (m : Memory) : Configuration := ⟨.read m 0, fun _ => .zero⟩

def parseConfigDescriptor (m : Memory) (length : Nat) (c : Configuration) : Parsed :=
  if m 0 ≠ 9 then .ret errInval c
  else if m 1 ≠ typeConfiguration then .ret errInval c
  else if length ≤ sizeofConfigDesc then .ret 0 c
  else parseLoop m length (length + 1) sizeofConfigDesc .init (.start m)

/-! ## The walk as a list of descriptors -/

/-- What the loop tells apart. -/
inductive Desc where
  | interface (d : InterfaceDesc)
  | endpoint (d : EndpointDesc)
  | other
  deriving DecidableEq, Repr

/-- The descriptor at `p`. -/
def Desc.read (m : Memory) (p : Nat) : Desc :=
  if m (p + 1) = typeInterface then .interface (.read m p)
  else if m (p + 1) = typeEndpoint then .endpoint (.read m p)
  else .other

/-- The descriptors that the loop comes to, each at most once the one before it is passed. -/
def chain (m : Memory) (length : Nat) : Nat → Nat → List Desc
  | 0, _ => []
  | fuel + 1, p =>
    if m p ≠ 0 ∧ p ≤ length then .read m p :: chain m length fuel (p + (m p).toNat) else []

/-- One pass, by what the descriptor is. -/
def Desc.apply (s : Cursor) (c : Configuration) : Desc → Next
  | .interface d => onInterface d c
  | .endpoint d => onEndpoint d s c
  | .other => .go s c

/-- The passes over a list of descriptors. -/
def walk : List Desc → Cursor → Configuration → Parsed
  | [], _, c => .ret 0 c
  | d :: ds, s, c =>
    match d.apply s c with
    | .go s' c' => walk ds s' c'
    | .stop r => r

section Walk

variable {m m' : Memory} {length : Nat} {s : Cursor} {c : Configuration}

theorem onDescriptor_eq (m : Memory) (p : Nat) (s : Cursor) (c : Configuration) :
    onDescriptor m p s c = (Desc.read m p).apply s c := by
  unfold onDescriptor Desc.read
  split
  · rfl
  · split <;> rfl

/-- Every pass is over a byte further on, so that the loop ends by its own condition. -/
theorem parseLoop_eq_walk {fuel p : Nat} (h : length < p + fuel) (s : Cursor) (c : Configuration) :
    parseLoop m length (fuel + 1) p s c = walk (chain m length (fuel + 1) p) s c := by
  induction fuel generalizing p s c with
  | zero =>
    have hp : ¬(m p ≠ 0 ∧ p ≤ length) := fun hc => by omega
    rw [parseLoop, chain, if_neg hp, if_neg hp, walk]
  | succ fuel ih =>
    rw [parseLoop, chain]
    by_cases hp : m p ≠ 0 ∧ p ≤ length
    · -- a pass moves `p` on by `bLength`, which is not zero
      have hpos : 0 < (m p).toNat := by
        rw [Nat.pos_iff_ne_zero]
        exact fun h0 => hp.1 (UInt8.toNat_inj.mp h0)
      rw [if_pos hp, if_pos hp, walk, onDescriptor_eq]
      cases (Desc.read m p).apply s c with
      | go s' c' => exact ih (by omega) _ _
      | stop r => rfl
    · rw [if_neg hp, if_neg hp, walk]

/-- `parse_config_descriptor`, by the descriptors that its loop comes to. -/
theorem parse_eq (m : Memory) (length : Nat) (c : Configuration) :
    parseConfigDescriptor m length c =
      if m 0 ≠ 9 then .ret errInval c
      else if m 1 ≠ typeConfiguration then .ret errInval c
      else if length ≤ sizeofConfigDesc then .ret 0 c
      else walk (chain m length (length + 1) sizeofConfigDesc) .init (.start m) := by
  rw [parseConfigDescriptor, parseLoop_eq_walk (by unfold sizeofConfigDesc; omega)]

/-- A pass stops with an error or an overrun. -/
theorem Desc.apply_ne_running (x : Desc) : x.apply s c ≠ .stop .running := by
  intro h
  cases x with
  | interface d =>
    rw [Desc.apply, onInterface] at h
    repeat' split at h
    all_goals cases h
  | endpoint e =>
    rw [Desc.apply, onEndpoint] at h
    split at h <;> cases h
  | other => cases h

theorem walk_ne_running (ds : List Desc) : walk ds s c ≠ .running := by
  induction ds generalizing s c with
  | nil => exact Parsed.noConfusion
  | cons x ds ih =>
    rw [walk]
    cases hx : x.apply s c with
    | go s' c' => exact ih
    | stop r =>
      rintro rfl
      exact x.apply_ne_running hx

/-- The descriptor at `p` is read from the nine bytes at `p`. -/
theorem Desc.read_congr {p p' : Nat} (h : ∀ i < 9, m (p + i) = m' (p' + i)) :
    Desc.read m p = Desc.read m' p' := by
  have h0 : m p = m' p' := h 0 (by decide)
  unfold Desc.read InterfaceDesc.read EndpointDesc.read le16
  simp only [Nat.add_assoc, Nat.reduceAdd]
  rw [h0, h 1 (by decide), h 2 (by decide), h 3 (by decide), h 4 (by decide), h 5 (by decide),
    h 6 (by decide), h 7 (by decide), h 8 (by decide)]

theorem chain_congr (h : ∀ i < length + 9, m i = m' i) (fuel p : Nat) :
    chain m length fuel p = chain m' length fuel p := by
  induction fuel generalizing p with
  | zero => rfl
  | succ fuel ih =>
    unfold chain
    by_cases hp : p ≤ length
    · rw [h p (by omega), ih, Desc.read_congr fun i hi => h (p + i) (by omega)]
    · rw [if_neg fun hc => hp hc.2, if_neg fun hc => hp hc.2]

end Walk

/-! ## Where the tables end -/

/-- Whether the `case` returns `-USB_ERR_NOMEM`. -/
def InterfaceDesc.Refused (d : InterfaceDesc) : Prop :=
  maxInterfaces ≤ d.bInterfaceNumber.toNat ∨ maxEndpoints ≤ d.bNumEndpoints.toNat ∨
    maxIntfAltsettings ≤ d.bAlternateSetting.toNat

instance (d : InterfaceDesc) : Decidable d.Refused :=
  inferInstanceAs (Decidable (_ ∨ _ ∨ _))

/-- The endpoint descriptors since the last interface descriptor, once there was one. -/
def tally : Option Nat → Desc → Option Nat
  | _, .interface _ => some 0
  | o, .endpoint _ => o.map (· + 1)
  | o, .other => o

/-- Whether the tables have no entry for the next endpoint descriptor. -/
def Full : Option Nat → Prop
  | none => True
  | some n => maxEndpoints ≤ n

/-- The loop comes to an endpoint descriptor without an entry, before it refuses an interface. -/
def Overruns (o : Option Nat) (ds : List Desc) : Prop :=
  ∃ pre e post, ds = pre ++ .endpoint e :: post ∧
    (∀ d, .interface d ∈ pre → ¬ d.Refused) ∧ Full (pre.foldl tally o)

/-- The cursor stands where the count says. -/
def Cursor.Counts (s : Cursor) : Option Nat → Prop
  | none => maxInterfaces ≤ s.curIface
  | some n => s.curIface < maxInterfaces ∧ s.curAltSetting < maxIntfAltsettings ∧ s.curEp = n

section Overrun

variable {m m' : Memory} {length : Nat} {s : Cursor} {c : Configuration} {o : Option Nat}
  {d : InterfaceDesc} {e : EndpointDesc} {ds : List Desc}

theorem not_refused_iff : ¬ d.Refused ↔ d.bInterfaceNumber.toNat < maxInterfaces ∧
    d.bNumEndpoints.toNat < maxEndpoints ∧ d.bAlternateSetting.toNat < maxIntfAltsettings := by
  unfold InterfaceDesc.Refused
  rw [not_or, not_or, Nat.not_le, Nat.not_le, Nat.not_le]

theorem onInterface_refused (h : d.Refused) (c : Configuration) :
    onInterface d c = .stop (.ret errNomem c) := by
  unfold onInterface
  split
  · rfl
  · split
    · rfl
    · exact if_pos ((h.resolve_left ‹_›).resolve_left ‹_›)

theorem onInterface_accepted (h : ¬ d.Refused) (c : Configuration) :
    onInterface d c =
      .go ⟨d.bInterfaceNumber.toNat, d.bAlternateSetting.toNat, 0⟩ (c.setInterface d) := by
  obtain ⟨h1, h2, h3⟩ := not_refused_iff.mp h
  rw [onInterface, if_neg (Nat.not_le.mpr h1), if_neg (Nat.not_le.mpr h2),
    if_neg (Nat.not_le.mpr h3)]

theorem onEndpoint_full (hs : s.Counts o) (h : Full o) : onEndpoint e s c = .stop .overrun := by
  refine if_neg fun hc => ?_
  cases o with
  | none => exact absurd hc.1 (Nat.not_lt.mpr hs)
  | some n =>
    have hn : maxEndpoints ≤ s.curEp := hs.2.2 ▸ h
    exact absurd hc.2.2 (Nat.not_lt.mpr hn)

theorem counts_tally_endpoint (hs : s.Counts o) (h : ¬ Full o) :
    onEndpoint e s c =
        .go { s with curEp := s.curEp + 1 } (c.setEndpoint s.curIface s.curAltSetting s.curEp e) ∧
      Cursor.Counts { s with curEp := s.curEp + 1 } (tally o (.endpoint e)) := by
  cases o with
  | none => exact absurd trivial h
  | some n =>
    obtain ⟨hi, ha, rfl⟩ := hs
    exact ⟨if_pos ⟨hi, ha, Nat.not_le.mp h⟩, hi, ha, rfl⟩

theorem not_overruns_nil (o : Option Nat) : ¬ Overruns o [] := by
  rintro ⟨pre, e, post, h, -⟩
  cases pre <;> simp at h

theorem overruns_cons (x : Desc) :
    Overruns o (x :: ds) ↔
      ((∃ e, x = .endpoint e) ∧ Full o) ∨
        ((∀ d, x = .interface d → ¬ d.Refused) ∧ Overruns (tally o x) ds) := by
  constructor
  · rintro ⟨pre, e, post, h, hd, hf⟩
    cases pre with
    | nil =>
      obtain ⟨rfl, -⟩ := List.cons.inj h
      exact .inl ⟨⟨e, rfl⟩, hf⟩
    | cons y pre =>
      obtain ⟨rfl, rfl⟩ := List.cons.inj h
      refine .inr ⟨fun d hx => hd d (hx ▸ List.mem_cons_self), pre, e, post, rfl, ?_, hf⟩
      exact fun d hm => hd d (List.mem_cons_of_mem _ hm)
  · rintro (⟨⟨e, rfl⟩, hf⟩ | ⟨hx, pre, e, post, rfl, hd, hf⟩)
    · exact ⟨[], e, ds, rfl, fun d hm => absurd hm List.not_mem_nil, hf⟩
    · refine ⟨x :: pre, e, post, rfl, fun d hm => ?_, hf⟩
      cases hm with
      | head => exact hx d rfl
      | tail _ hm => exact hd d hm

/-- The walk writes outside the tables exactly when the descriptors overrun them: the cursor keeps
the count. -/
theorem walk_overrun_iff (hs : s.Counts o) : walk ds s c = .overrun ↔ Overruns o ds := by
  induction ds generalizing s c o with
  | nil => exact ⟨fun h => by simp [walk] at h, fun h => absurd h (not_overruns_nil o)⟩
  | cons x ds ih =>
    rw [overruns_cons, walk]
    cases x with
    | interface d =>
      by_cases hd : d.Refused
      · -- the loop ends here, so that nothing behind counts
        have hw : Desc.apply s c (.interface d) = .stop (.ret errNomem c) :=
          onInterface_refused hd c
        rw [hw]
        simp [hd]
      · -- `cur_ep` starts at zero again, and so does the count
        have hw : Desc.apply s c (.interface d) = .go _ _ := onInterface_accepted hd c
        rw [hw]
        obtain ⟨h1, -, h3⟩ := not_refused_iff.mp hd
        have hs' : Cursor.Counts ⟨d.bInterfaceNumber.toNat, d.bAlternateSetting.toNat, 0⟩
            (tally o (.interface d)) := ⟨h1, h3, rfl⟩
        refine (ih hs').trans ⟨fun h => .inr ⟨?_, h⟩, fun h => (h.resolve_left ?_).2⟩
        · intro d' hx
          obtain rfl := Desc.interface.inj hx
          exact hd
        · rintro ⟨⟨e, he⟩, -⟩
          cases he
    | endpoint e =>
      by_cases hf : Full o
      · have hw : Desc.apply s c (.endpoint e) = .stop .overrun := onEndpoint_full hs hf
        rw [hw]
        simp [hf]
      · obtain ⟨hw, hs'⟩ := counts_tally_endpoint (e := e) (c := c) hs hf
        have hw' : Desc.apply s c (.endpoint e) = .go _ _ := hw
        rw [hw']
        refine (ih hs').trans ⟨fun h => .inr ⟨nofun, h⟩, fun h => ?_⟩
        exact (h.resolve_left fun hc => hf hc.2).2
    | other =>
      refine (ih hs).trans ⟨fun h => .inr ⟨nofun, h⟩, fun h => ?_⟩
      refine (h.resolve_left ?_).2
      rintro ⟨⟨e, he⟩, -⟩
      cases he

theorem start_congr (h : ∀ i < length + 9, m i = m' i) :
    Configuration.start m = Configuration.start m' := by
  unfold Configuration.start ConfigDesc.read le16
  simp only [Nat.zero_add, Nat.reduceAdd]
  rw [h 0 (by omega), h 1 (by omega), h 2 (by omega), h 3 (by omega), h 4 (by omega),
    h 5 (by omega), h 6 (by omega), h 7 (by omega), h 8 (by omega)]

theorem parse_congr (h : ∀ i < length + 9, m i = m' i) (c : Configuration) :
    parseConfigDescriptor m length c = parseConfigDescriptor m' length c := by
  rw [parse_eq, parse_eq, chain_congr h, start_congr h, h 0 (by omega), h 1 (by omega)]

theorem parse_ne_running (m : Memory) (length : Nat) (c : Configuration) :
    parseConfigDescriptor m length c ≠ .running := by
  rw [parse_eq]
  split
  · exact Parsed.noConfusion
  · split
    · exact Parsed.noConfusion
    · split
      · exact Parsed.noConfusion
      · exact walk_ne_running _

/-- Whatever the buffer holds: the loop ends by its own condition, a byte behind the ninth after
the descriptor decides nothing, and the tables are overrun exactly when the loop comes to an
endpoint descriptor before the first interface or to a fifth one of an interface. -/
theorem parse_overruns_iff (m : Memory) (length : Nat) (c : Configuration) :
    parseConfigDescriptor m length c ≠ .running ∧
      (∀ m', (∀ i < length + 9, m i = m' i) →
        parseConfigDescriptor m length c = parseConfigDescriptor m' length c) ∧
      (parseConfigDescriptor m length c = .overrun ↔
        m 0 = 9 ∧ m 1 = typeConfiguration ∧ sizeofConfigDesc < length ∧
          Overruns none (chain m length (length + 1) sizeofConfigDesc)) := by
  refine ⟨parse_ne_running m length c, fun m' h => parse_congr h c, ?_⟩
  rw [parse_eq]
  by_cases h0 : m 0 = 9
  · by_cases h1 : m 1 = typeConfiguration
    · by_cases hl : length ≤ sizeofConfigDesc
      · simp [h0, h1, hl, Nat.not_lt.mpr hl]
      · have hs : Cursor.init.Counts none := show maxInterfaces ≤ 0xff by decide
        rw [if_neg (not_not.mpr h0), if_neg (not_not.mpr h1), if_neg hl, walk_overrun_iff hs]
        exact ⟨fun h => ⟨h0, h1, Nat.not_le.mp hl, h⟩, fun h => h.2.2.2⟩
    · simp [h0, h1]
  · simp [h0]

end Overrun

end Cdc2Net.Source.Enumerate

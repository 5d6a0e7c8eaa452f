import Cdc2Net.Lib.Transition
import Cdc2Net.Web.JsonField
import Cdc2Net.Web.Status

/-!
# `POST /api/config`

`h_config_post` of `webui.c`: the fields that the body has go over the settings, and the
settings are saved. Nothing looks at the bytes of an address, and `GET /api/config` and
`GET /api/status` print them without escapes.

As long as no body puts a quote, a backslash or a control byte into an address, both answers
stay well formed and give the addresses back in every run (`config_round_trip`). One address
with a quote is enough to break them (`config_round_trip_fails`).
-/

set_option autoImplicit false

namespace Cdc2Net.Web

open Cdc2Net.Lib
open Cdc2Net.Lib.Json
open Cdc2Net.Settings
open Cdc2Net.Source (asciiBytes cString EspErr)

/-! ## The fields of the body -/

section Fields

variable {text key p : Bytes} {cap : Nat} {size : Nat}

theorem readQuoted_out (room : Nat) (p : Bytes) :
    (readQuoted room p).1.length ≤ room ∧ ∀ b ∈ (readQuoted room p).1, b ∈ p := by
  fun_induction readQuoted room p with
  | case1 p => simp
  | case2 room => simp
  | case3 room p => simp
  | case4 room => simp
  | case5 room c p hne ih =>
    refine ⟨by simpa using ih.1, ?_⟩
    rintro b' (_ | ⟨_, hb'⟩)
    · simp
    · exact List.mem_cons_of_mem _ (List.mem_cons_of_mem _ (ih.2 b' hb'))
  | case6 room b p hb hne ih =>
    refine ⟨by simpa using ih.1, ?_⟩
    rintro b' (_ | ⟨_, hb'⟩)
    · simp
    · exact List.mem_cons_of_mem _ (ih.2 b' hb')

theorem strstr_suffix {pat : Bytes} (h : strstr pat text = some p) : p <:+ text := by
  induction text with
  | nil =>
    rw [strstr] at h
    split at h
    · cases h
      exact List.suffix_rfl
    · cases h
  | cons b text ih =>
    rw [strstr] at h
    split at h
    · cases h
      exact List.suffix_rfl
    · exact (ih h).trans (List.suffix_cons b text)

theorem strchr_suffix {c : UInt8} (h : strchr c text = some p) : p <:+ text := by
  induction text with
  | nil => cases h
  | cons b text ih =>
    rw [strchr] at h
    split at h
    · cases h
      exact List.suffix_rfl
    · exact (ih h).trans (List.suffix_cons b text)

theorem afterColon_suffix (h : afterColon text key = some p) : p <:+ text := by
  rw [afterColon] at h
  split at h
  · cases h
  · next q hq =>
    split at h
    · cases h
    · next r hr =>
      cases h
      exact (List.drop_suffix 1 r).trans ((strchr_suffix hr).trans
        ((List.drop_suffix _ q).trans (strstr_suffix hq)))

/-- What `json_field` writes is a string of bytes of the text that fits the array. -/
theorem jsonField_out {out : Bytes} (hcap : 0 < cap) (h : (jsonField text key cap).2 = some out) :
    out.length < cap ∧ ∀ b ∈ out, b ∈ text := by
  rw [jsonField] at h
  split at h
  · cases h
  · next p hp =>
    have hmem : ∀ b ∈ p.dropWhile (fun b => decide (b = 32) || decide (b = 9)), b ∈ text :=
      fun b hb => ((List.dropWhile_suffix _).trans (afterColon_suffix hp)).mem hb
    rw [readValue] at h
    split at h
    · next q hq =>
      cases h
      rw [hq] at hmem
      obtain ⟨hlen, hin⟩ := readQuoted_out (cap - 1) q
      exact ⟨by omega, fun b hb => hmem b (List.mem_cons_of_mem _ (hin b hb))⟩
    · cases h
      refine ⟨?_, fun b hb => hmem b (List.takeWhile_subset _ (List.mem_of_mem_take hb))⟩
      rw [List.length_take]
      omega

theorem sixteen_ne_zero : (16 : Nat) ≠ 0 := by decide

/-- `sizeof(c.ip)`. -/
instance neZero_sixteen : NeZero 16 := ⟨sixteen_ne_zero⟩

/-- The string that `json_field` leaves in an array of `size` bytes, if it writes one. -/
def fieldStr (size : Nat) [hs : NeZero size] (text : Text) (key : String) :
    Option (CStr size) :=
  (jsonField text.1 (asciiBytes key) size).2.pmap
    (fun out (h : 0 ∉ out ∧ out.length < size) => ⟨out, h.1, h.2⟩)
    fun _ hout =>
      have hfield := jsonField_out (Nat.pos_of_ne_zero hs.out) hout
      ⟨fun hmem => text.2 (hfield.2 0 hmem), hfield.1⟩

end Fields

/-- `atoi`, with a `long` of 32 bits. -/
def atoi (s : Bytes) : Int :=
  let s := s.dropWhile fun b => b = 32 || (9 ≤ b && b ≤ 13)
  let digits : Bytes → Nat := fun s =>
    (s.takeWhile isDigit).foldl (fun n b => 10 * n + (b.toNat - 48)) 0
  match s with
  | 45 :: s => max (-(digits s : Int)) (-2147483648)
  | 43 :: s => min (digits s : Int) 2147483647
  | s => min (digits s : Int) 2147483647

/-! ## The handler -/

section Handler

variable (body : Text) (key : String)

/-- `json_field(body, key, v, sizeof(v)) == 0` with `char v[24]`, and what it leaves in
`v`. -/
def fieldV : Option Bytes :=
  match jsonField body.1 (asciiBytes key) 24 with
  | (true, out) => out
  | (false, _) => none

/-- A flag that the body may set. -/
def overlayFlag (cur : Bool) : Bool :=
  match fieldV body key with
  | some v => asciiBytes "true" <+: v || v.head? = some 49
  | none => cur

/-- An address that the body may set; the result of `json_field` is not looked at. -/
def overlayStr (cur : CStr 16) : CStr 16 := (fieldStr 16 body key).getD cur

/-- The port that the body may set. -/
def overlayPort (cur : UInt16) : UInt16 :=
  match fieldV body key with
  | some v => if 0 < atoi v ∧ atoi v < 65536 then .ofNat (atoi v).toNat else cur
  | none => cur

/-- The timeout that the body may set. -/
def overlayTimeout (cur : UInt32) : UInt32 :=
  match fieldV body key with
  | some v => if 30 ≤ atoi v then .ofNat (atoi v).toNat else cur
  | none => cur

/-- The settings with the fields of the body. -/
def overlayCfg (c : Cfg) : Cfg where
  tcpPort := overlayPort body "tcp_port" c.tcpPort
  staticIp := overlayFlag body "static_ip" c.staticIp
  ip := overlayStr body "ip" c.ip
  mask := overlayStr body "mask" c.mask
  gw := overlayStr body "gw" c.gw
  dns := overlayStr body "dns" c.dns
  ethStaticIp := overlayFlag body "eth_static_ip" c.ethStaticIp
  ethIp := overlayStr body "eth_ip" c.ethIp
  ethMask := overlayStr body "eth_mask" c.ethMask
  ethGw := overlayStr body "eth_gw" c.ethGw
  ethDns := overlayStr body "eth_dns" c.ethDns
  wdtEnable := overlayFlag body "wdt_enable" c.wdtEnable
  wdtTimeoutS := overlayTimeout body "wdt_timeout_s" c.wdtTimeoutS

end Handler

/-- A request: what the server receives for its body, and how the calls of the save go. -/
structure ConfigPost where
  recvs : List Recv
  calls : NvsCalls

theorem noNul_cString (bs : Bytes) : (0 : UInt8) ∉ cString bs := by
  intro hmem
  have hne := List.mem_takeWhile_imp hmem
  simp at hne

/-- The string in `body`, an array of 512 bytes. -/
def ConfigPost.body (p : ConfigPost) : Text :=
  ⟨cString (readBody 511 p.recvs), noNul_cString _⟩

/-- The answer to a request. -/
inductive ConfigResponse where
  | saved
  | err (code : Nat) (text : String)
  deriving DecidableEq, Repr

/-- `h_config_post`: the answer, if power is not lost before it, and the namespace. -/
def hConfigPost (p : ConfigPost) (nvs : Nvs) : Option ConfigResponse × Nvs :=
  let c := overlayCfg p.body (configLoad nvs)
  if c.staticIp = true ∧ (c.ip.bytes = [] ∨ c.mask.bytes = [] ∨ c.gw.bytes = []) then
    (some (.err 400 "static IP needs ip/mask/gw"), nvs)
  else if c.ethStaticIp = true ∧
      (c.ethIp.bytes = [] ∨ c.ethMask.bytes = [] ∨ c.ethGw.bytes = []) then
    (some (.err 400 "eth static IP needs ip/mask/gw"), nvs)
  else
    let r := configSave p.calls nvs (some c)
    match r.1 with
    | .cut => (none, r.2)
    | .returned e => (some (if e = .ok then .saved else .err 500 "save failed"), r.2)

/-! ## The round trip -/

/-- Requests one after the other. -/
def configPosts : Transition.Machine Nvs ConfigPost where
  step nvs p := some (hConfigPost p nvs).2

/-- What the body has for an address needs no escapes. -/
def ConfigPost.PlainAddresses (p : ConfigPost) : Prop :=
  ∀ f ∈ addressFields, ∀ s ∈ fieldStr 16 p.body f.1, Plain s.bytes

instance (p : ConfigPost) : Decidable p.PlainAddresses :=
  inferInstanceAs (Decidable (∀ f ∈ addressFields, ∀ s ∈ fieldStr 16 p.body f.1, Plain s.bytes))

section RoundTrip

variable {c : Cfg} {nvs nvs' : Nvs} {p : ConfigPost}

/-- An address is the old one or the one of the body. -/
theorem plain_overlayStr {f : String × NvsKey} {cur : CStr 16} (hf : f ∈ addressFields)
    (hp : p.PlainAddresses) (hcur : Plain cur.bytes) :
    Plain (overlayStr p.body f.1 cur).bytes := by
  rw [overlayStr]
  cases hs : fieldStr 16 p.body f.1 with
  | none => exact hcur
  | some s => exact hp f hf s hs

theorem plainCfg_overlay (hc : PlainCfg c) (hp : p.PlainAddresses) :
    PlainCfg (overlayCfg p.body c) := by
  have hstr : ∀ {f : String × NvsKey} {cur : CStr 16} {s : Text}, f ∈ addressFields →
      c.value f.2 = some (.str cur.text) →
      some (Settings.Value.str (overlayStr p.body f.1 cur).text) = some (.str s) → Plain s.1 := by
    intro f cur s hf hcur hs
    cases hs
    exact plain_overlayStr hf hp (hc f.2 _ hcur)
  intro k s hs
  cases k with
  | ip => exact hstr (f := ("ip", .ip)) (by simp [addressFields]) rfl hs
  | mask => exact hstr (f := ("mask", .mask)) (by simp [addressFields]) rfl hs
  | gw => exact hstr (f := ("gw", .gw)) (by simp [addressFields]) rfl hs
  | dns => exact hstr (f := ("dns", .dns)) (by simp [addressFields]) rfl hs
  | ethIp => exact hstr (f := ("eth_ip", .ethIp)) (by simp [addressFields]) rfl hs
  | ethMask => exact hstr (f := ("eth_mask", .ethMask)) (by simp [addressFields]) rfl hs
  | ethGw => exact hstr (f := ("eth_gw", .ethGw)) (by simp [addressFields]) rfl hs
  | ethDns => exact hstr (f := ("eth_dns", .ethDns)) (by simp [addressFields]) rfl hs
  | _ => cases hs

theorem plainCfg_loaded (hc : PlainCfg c) : PlainCfg c.loaded := by
  intro k s hs
  refine hc k s ?_
  cases k with
  | tcpPort => cases hs
  | wdtTo => cases hs
  | _ => exact hs

/-- A save that is cut short leaves old and new addresses. -/
theorem plainCfg_save (calls : NvsCalls) (hc : PlainCfg c) (hn : PlainCfg (configLoad nvs)) :
    PlainCfg (configLoad (configSave calls nvs (some c)).2) := by
  intro k s hs
  rcases value_configSave calls nvs c k with hold | hnew
  · exact hn k s (hold ▸ hs)
  · exact plainCfg_loaded hc k s (hnew ▸ hs)

/-- A request without special bytes in its addresses leaves addresses without any. -/
theorem plainCfg_post (hp : p.PlainAddresses) (hn : PlainCfg (configLoad nvs)) :
    PlainCfg (configLoad (hConfigPost p nvs).2) := by
  have hsave := plainCfg_save p.calls (plainCfg_overlay hn hp) hn
  rw [hConfigPost]
  dsimp only
  split
  · exact hn
  · split
    · exact hn
    · split
      · exact hsave
      · exact hsave

/-- From addresses that need no escapes, and as long as the bodies bring none that do, every
state of every run has answers that give the addresses back: `GET /api/config`, and
`GET /api/status` of a device whose own strings need no escapes either and fit. -/
theorem config_round_trip (h0 : PlainCfg (configLoad nvs))
    (hrun : configPosts.Reaches (fun _ p => p.PlainAddresses) nvs nvs') :
    (∃ v, parse (hConfigGet nvs') = some v ∧ GivesBack v (configLoad nvs')) ∧
      ∀ d : DeviceInfo, d.Plain → (statusText d (configLoad nvs')).length < 3072 →
        ∃ text v cfg, hStatus d nvs' = some text ∧ parse text = some v ∧
          v.members (asciiBytes "cfg") = [cfg] ∧ GivesBack cfg (configLoad nvs') := by
  have hplain : PlainCfg (configLoad nvs') := by
    refine hrun.invariant (I := fun nvs => PlainCfg (configLoad nvs)) h0 ?_
    intro nvs p nvs' hn hp hstep
    cases hstep
    exact plainCfg_post hp hn
  exact ⟨hConfigGet_back hplain, fun d hd hfits => hStatus_back hd hfits hplain⟩

end RoundTrip

/-- A namespace that has never been written. -/
def erasedNvs : Nvs := ⟨false, fun _ => none, fun _ _ => rfl⟩

/-- A request whose calls succeed. -/
def postText (text : String) : ConfigPost :=
  ⟨[.data (asciiBytes text)], ⟨.ok, fun _ => .ok, .ok, false⟩⟩

def addressPost : ConfigPost := postText "\x7b\"ip\":\"10.0.0.2\"\x7d"

theorem plainCfg_erased : PlainCfg (configLoad erasedNvs) := by
  intro k s hs b hb
  cases k <;> cases hs <;> cases hb

theorem config_round_trip_address :
    (hConfigPost addressPost erasedNvs).1 = some .saved ∧
      ∃ v, parse (hConfigGet (hConfigPost addressPost erasedNvs).2) = some v ∧
        GivesBack v (configLoad (hConfigPost addressPost erasedNvs).2) :=
  ⟨by decide +kernel, (config_round_trip plainCfg_erased
    (Relation.ReflTransGen.single ⟨addressPost, by decide +kernel, rfl⟩)).1⟩

theorem printable_ip : ∀ b ∈ asciiBytes "ip", 32 ≤ b := by decide +kernel

theorem printable_quote : ∀ b ∈ asciiBytes "1\"2", 32 ≤ b := by decide +kernel

/-- An address with a quote, as a JSON object. -/
def quoteAddress : FlatObject :=
  plainObject [plainMember ⟨asciiBytes "ip", printable_ip⟩
    (.str ⟨asciiBytes "1\"2", printable_quote⟩)]

def quotePost : ConfigPost := postText "\x7b\"ip\":\"1\\\"2\"\x7d"

/-- One address with a quote is accepted, and `GET /api/config` answers with no JSON text. -/
theorem config_round_trip_fails :
    quoteAddress.print = quotePost.body.1 ∧ quoteAddress.Distinct ∧
      (hConfigPost quotePost erasedNvs).1 = some .saved ∧
      (configLoad (hConfigPost quotePost erasedNvs).2).ip.bytes = asciiBytes "1\"2" ∧
      (parse (hConfigGet (hConfigPost quotePost erasedNvs).2)).isNone = true := by
  decide +kernel

end Cdc2Net.Web

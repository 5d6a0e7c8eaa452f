import Cdc2Net.Web.ConfigPost
import Cdc2Net.Web.SerialGet
import Cdc2Net.Web.SerialPost

/-!
# Listing and deleting the stored codings

`GET /api/serial` against `POST /api/serial`, over every table that requests can leave. A key is
whatever bytes `json_field` takes from a body. The listing gives each key back as a JSON string,
and `json_field` undoes only the escapes of JSON that it knows: a backslash stands for the byte
behind it. So a key with a control byte is stored and is listed, but the request that names it
in JSON names another key (`deletes_iff`). With all keys free of control bytes, what is left
is whether the listing has room (`list_delete_iff`).
-/

set_option autoImplicit false

namespace Cdc2Net.Web

open Cdc2Net.Lib
open Cdc2Net.Lib.Json
open Cdc2Net.Settings (Text)
open Cdc2Net.Source

/-! ## The requests -/

/-- `json_field(body, key, v, sizeof(v)) == 0`, and what it leaves in `v`. -/
def serialField (body : Text) (key : String) (size : Nat) : Option Bytes :=
  match jsonField body.1 (asciiBytes key) size with
  | (true, out) => out
  | (false, _) => none

/-- What `h_serial_post` takes out of the body. -/
def readSerialRequest (body : Text) : SerialRequest where
  key := serialField body "key" serialcfgKeyLen
  delete := jsonFieldTruthy body.1 (asciiBytes "delete")
  baud := (serialField body "baud" 16).map atoi
  bits := (serialField body "bits" 16).map atoi
  parity := (serialField body "parity" 16).map atoi
  stop := (serialField body "stop" 16).map atoi

/-- A request: what the server receives for its body, the attached device, and how the calls of
the store go. -/
structure SerialCall where
  recvs : List Recv
  info : Option SerialInfo
  results : NvsResults

/-- The string in `body`, an array of 256 bytes. -/
def SerialCall.body (p : SerialCall) : Text :=
  ⟨cString (readBody 255 p.recvs), noNul_cString _⟩

/-- The table after a request. -/
def serialPost (p : SerialCall) (nvs : NvsTable) : NvsTable :=
  (postDecide p.info (readSerialRequest p.body) p.results nvs).1

/-- The table is what `h_serial_post` leaves. -/
theorem hSerialPost_table {σ ρ δ W : Type} (src : SerialSource σ ρ δ W) (p : SerialCall) (d : ρ)
    (nvs : NvsTable) (s : Option σ) (hinfo : p.info = s.map src.serialInfo) :
    (hSerialPost src (readSerialRequest p.body) p.results d nvs s).2.1 = serialPost p nvs := by
  rw [serialPost, hinfo, hSerialPost]
  dsimp only
  split
  · rfl
  · rfl

/-- Requests one after the other. -/
def serialPosts : Transition.Machine NvsTable SerialCall where
  step nvs p := some (serialPost p nvs)

/-- What the web page's `JSON.stringify` prints for a byte of a string. -/
def stringifyByte (c : UInt8) : Bytes :=
  if c = 8 then [backslash, 98]
  else if c = 9 then [backslash, 116]
  else if c = 10 then [backslash, 110]
  else if c = 12 then [backslash, 102]
  else if c = 13 then [backslash, 114]
  else escapeChar c

/-- The text of `{key: k, delete: true}`. -/
def deleteText (k : Bytes) : Bytes :=
  printFields [("key", printStr (k.flatMap stringifyByte)), ("delete", printBool true)]

/-- The request that deletes a key; all calls of the store succeed. -/
def deleteCall (k : Bytes) (info : Option SerialInfo) : SerialCall :=
  ⟨[.data (deleteText k)], info, .allOk⟩

/-- The entries of the table. -/
def storedList (nvs : NvsTable) : List (Bytes × LineCoding) := serialcfgList nvs serialcfgMax

/-- Posting the key with `delete` takes its entry out of the table, and nothing else. -/
def Deletes (nvs : NvsTable) (k : Bytes) : Prop :=
  ∀ info, storedList (serialPost (deleteCall k info) nvs) =
    (storedList nvs).filter fun e => e.1 ≠ k

/-! ## The tables that requests leave -/

/-- The table is a map of keys of 1 to 32 characters. -/
structure Holds (nvs : NvsTable) (m : SlotMap serialcfgMax (List UInt8) LineCoding) : Prop where
  represents : nvs.Represents m
  valid : ∀ k lc, m.find k = some lc → ValidKey k

section Tables

variable {nvs nvs' : NvsTable} {m : SlotMap serialcfgMax (List UInt8) LineCoding}
  {key k : List UInt8} {lc : LineCoding} {r : NvsResults} {req : SerialRequest}
  {info : Option SerialInfo}

theorem holds_opened (h : Holds nvs m) : Holds { nvs with opens := true } m :=
  ⟨⟨h.represents.entries, fun hopen => (by cases hopen)⟩, h.valid⟩

/-- A call that fails leaves the table, or opens the namespace. -/
theorem upsert_table (r : NvsResults) (nvs : NvsTable) (key : List UInt8) (lc : LineCoding) :
    (serialcfgUpsert r nvs key lc).2 = nvs ∨
      (serialcfgUpsert r nvs key lc).2 = { nvs with opens := true } ∨
      (serialcfgUpsert r nvs key lc).2 = (serialcfgUpsert .allOk nvs key lc).2 := by
  by_cases hkey : key = []
  · left
    rw [serialcfgUpsert, if_pos hkey]
  · by_cases hopen : r.openRw = .ok
    · right
      by_cases hset : r.setBlob = .ok
      · right
        simp only [serialcfgUpsert, if_neg hkey, hopen, hset]
        rfl
      · left
        simp only [serialcfgUpsert, if_neg hkey, hopen]
        rw [if_neg (by simp), if_pos hset]
    · left
      rw [serialcfgUpsert, if_neg hkey, if_pos hopen]

theorem delete_table (r : NvsResults) (nvs : NvsTable) (key : List UInt8) :
    (serialcfgDelete r nvs key).2 = nvs ∨
      (serialcfgDelete r nvs key).2 = { nvs with opens := true } ∨
      (serialcfgDelete r nvs key).2 = (serialcfgDelete .allOk nvs key).2 := by
  by_cases hkey : key = []
  · left
    rw [serialcfgDelete, if_pos hkey]
  · by_cases hopen : r.openRw = .ok
    · right
      by_cases hset : r.setBlob = .ok
      · right
        simp only [serialcfgDelete, if_neg hkey, hopen, hset, NvsResults.allOk, ne_eq,
          not_true_eq_false, if_false]
        split
        · rfl
        · rfl
      · left
        simp only [serialcfgDelete, if_neg hkey, hopen]
        rw [if_neg (by simp)]
        split
        · rfl
        · rw [if_pos hset]
    · left
      rw [serialcfgDelete, if_neg hkey, if_pos hopen]

theorem holds_upsert (h : Holds nvs m) (hkey : ValidKey key) (lc : LineCoding) :
    Holds (serialcfgUpsert .allOk nvs key lc).2 (m.insert key lc) := by
  refine ⟨(upsert_represents h.represents hkey lc).2, fun k lc' hk => ?_⟩
  rw [SlotMap.find_insert] at hk
  split at hk
  · next heq => exact heq ▸ hkey
  · split at hk
    · cases hk
    · exact h.valid k lc' hk

theorem holds_delete (h : Holds nvs m) (hkey : ValidKey key) :
    Holds (serialcfgDelete .allOk nvs key).2 (m.erase key) := by
  refine ⟨(delete_represents h.represents hkey).2, fun k lc hk => ?_⟩
  rw [SlotMap.find_erase] at hk
  split at hk
  · cases hk
  · exact h.valid k lc hk

/-- A key that `json_field` writes is one of the store, or empty. -/
theorem validKey_read {body : Text} (h : (readSerialRequest body).key = some key) :
    key = [] ∨ ValidKey key := by
  have hout : (jsonField body.1 (asciiBytes "key") serialcfgKeyLen).2 = some key := by
    simp only [readSerialRequest, serialField] at h
    split at h
    · next heq => rw [heq, h]
    · cases h
  obtain ⟨hlen, hmem⟩ := jsonField_out (by decide) hout
  rcases List.eq_nil_or_concat key with hnil | ⟨l, b, heq⟩
  · exact .inl hnil
  · refine .inr ⟨?_, Nat.le_sub_one_of_lt hlen, fun hzero => body.2 (hmem 0 hzero)⟩
    rw [heq, List.length_concat]
    exact Nat.le_add_left 1 _

/-- A request keeps the map, erases its key, or inserts it. -/
theorem post_table (h : Holds nvs m) (p : SerialCall) :
    Holds (serialPost p nvs) m ∨
      ∃ key, (readSerialRequest p.body).key = some key ∧
        (Holds (serialPost p nvs) (m.erase key) ∨
          ∃ lc, Holds (serialPost p nvs) (m.insert key lc)) := by
  rw [serialPost]
  cases hread : (readSerialRequest p.body).key with
  | none =>
    left
    rw [postDecide, hread]
    exact h
  | some key =>
    by_cases hnil : key = []
    · left
      rw [postDecide, hread]
      simp only [if_pos hnil]
      exact h
    · have hkey := (validKey_read hread).resolve_left hnil
      simp only [postDecide, hread, if_neg hnil]
      split
      · rcases delete_table p.results nvs key with heq | heq | heq
        · left
          rw [heq]
          exact h
        · left
          rw [heq]
          exact holds_opened h
        · right
          rw [heq]
          exact ⟨key, rfl, .inl (holds_delete h hkey)⟩
      · rcases upsert_table p.results nvs key (readSerialRequest p.body).coding with
          heq | heq | heq
        · left
          rw [heq]
          exact h
        · left
          rw [heq]
          exact holds_opened h
        · right
          rw [heq]
          exact ⟨key, rfl, .inr ⟨_, holds_upsert h hkey _⟩⟩

/-- Every table that requests leave is such a map. -/
theorem holds_of_reaches {opens : Bool}
    (hrun : serialPosts.Reaches (fun _ _ => True) (emptyTable opens) nvs) : ∃ m, Holds nvs m := by
  refine hrun.invariant (I := fun nvs => ∃ m, Holds nvs m) ?_ ?_
  · refine ⟨.empty serialcfgMax _ _, ⟨rfl, fun _ _ => rfl⟩, fun k lc hk => ?_⟩
    obtain ⟨i, hi⟩ := SlotMap.find_eq_some.1 hk
    cases hi
  · rintro nvs p nvs' ⟨m, hm⟩ - hstep
    cases hstep
    rcases post_table hm p with h | ⟨key, -, h | ⟨lc, h⟩⟩
    · exact ⟨_, h⟩
    · exact ⟨_, h⟩
    · exact ⟨_, h⟩

theorem storedList_eq (h : Holds nvs m) : storedList nvs = m.toList :=
  list_eq_toList h.represents (Int.le_refl _)

end Tables

/-! ## A request that names a key -/

section Naming

variable {nvs : NvsTable} {m : SlotMap serialcfgMax (List UInt8) LineCoding} {k : Bytes}
  {lc : LineCoding} {c : UInt8} {info : Option SerialInfo}

theorem stringifyByte_plain (hc : 32 ≤ c) : stringifyByte c = escapeChar c := by
  have hne : ∀ d : UInt8, d < 32 → c ≠ d := by
    rintro d hd rfl
    exact UInt8.not_lt.2 hc hd
  rw [stringifyByte, if_neg (hne 8 (by decide)), if_neg (hne 9 (by decide)),
    if_neg (hne 10 (by decide)), if_neg (hne 12 (by decide)), if_neg (hne 13 (by decide))]

/-- A control byte is printed as a backslash and a letter. -/
theorem stringifyByte_control (hc : c < 32) :
    ∃ l t, stringifyByte c = backslash :: l :: t ∧ 32 ≤ l := by
  have hquote : ¬ (c = quote ∨ c = backslash) := by
    rintro (rfl | rfl)
    · exact absurd hc (by decide)
    · exact absurd hc (by decide)
  rw [stringifyByte]
  split
  · exact ⟨_, _, rfl, by decide⟩
  · split
    · exact ⟨_, _, rfl, by decide⟩
    · split
      · exact ⟨_, _, rfl, by decide⟩
      · split
        · exact ⟨_, _, rfl, by decide⟩
        · split
          · exact ⟨_, _, rfl, by decide⟩
          · rw [escapeChar, if_neg hquote, if_pos hc]
            exact ⟨_, _, rfl, by decide⟩

theorem length_stringifyByte_le (c : UInt8) : (stringifyByte c).length ≤ 6 := by
  have hshort : ∀ b : UInt8, [backslash, b].length ≤ 6 := fun b => Nat.le_of_ble_eq_true rfl
  rw [stringifyByte]
  repeat' split
  all_goals first | exact hshort _ | exact escapeChar_length_le c

theorem zero_notMem_stringifyByte (hc : c ≠ 0) : 0 ∉ stringifyByte c := by
  rw [stringifyByte]
  repeat' split
  all_goals first | exact zero_notMem_escapeChar hc | decide

theorem isKey_key : IsKey (asciiBytes "key") := isKey_of_mem (by decide)

theorem isKey_delete : IsKey (asciiBytes "delete") := isKey_of_mem (by decide)

theorem length_flatMap_le (k : Bytes) : (k.flatMap stringifyByte).length ≤ 6 * k.length := by
  induction k with
  | nil => exact Nat.le_refl 0
  | cons c k ih =>
    have hc := length_stringifyByte_le c
    rw [List.flatMap_cons, List.length_append, List.length_cons]
    omega

/-- The text from its first name on. -/
theorem deleteText_eq (k : Bytes) : deleteText k =
    123 :: (needle (asciiBytes "key") ++ colon :: quote ::
      (k.flatMap stringifyByte ++ quote :: asciiBytes ",\"delete\":true\x7d")) := by
  have hneedle := needle_eq isKey_key
  have htail : asciiBytes ",\"delete\":true\x7d" =
      comma :: (quote :: asciiBytes "delete" ++ [quote, colon] ++ asciiBytes "true" ++ [125]) := by
    decide
  rw [hneedle, htail, deleteText, printFields, printObject]
  simp [printStr, printBool]

/-- The array holds the request whole. -/
theorem deleteCall_body (hk : ValidKey k) (info : Option SerialInfo) :
    (deleteCall k info).body.1 = deleteText k := by
  have hlen : (deleteText k).length ≤ 255 := by
    have hmax : serialcfgKeyLen = 33 := rfl
    have hflat := length_flatMap_le k
    have hkey := hk.2.1
    rw [deleteText, length_printFields (List.cons_ne_nil _ _)]
    generalize k.flatMap stringifyByte = raw at hflat ⊢
    simp [printStr, printBool, length_asciiBytes]
    omega
  have hne : deleteText k ≠ [] := List.cons_ne_nil _ _
  have hzero : 0 ∉ deleteText k := by
    have hraw : 0 ∉ k.flatMap stringifyByte := by
      intro hmem
      obtain ⟨c, hc, hzero⟩ := List.mem_flatMap.1 hmem
      have hne : c ≠ 0 := by
        rintro rfl
        exact hk.2.2 hc
      exact zero_notMem_stringifyByte hne hzero
    have hneedle : 0 ∉ needle (asciiBytes "key") := by decide
    have htail : 0 ∉ quote :: asciiBytes ",\"delete\":true\x7d" := by decide
    rw [deleteText_eq, List.mem_cons, List.mem_append, List.mem_cons, List.mem_cons,
      List.mem_append]
    rintro (h | h | h | h | h | h)
    · cases h
    · exact hneedle h
    · cases h
    · cases h
    · exact hraw h
    · exact htail h
  have hread : readBody 255 (deleteCall k info).recvs = deleteText k := by
    rw [deleteCall, readBody, if_neg (by simp [hne]), List.take_of_length_le hlen, readBody,
      List.append_nil]
  show cString (readBody 255 (deleteCall k info).recvs) = deleteText k
  rw [hread]
  simpa using cString_append_zeros hzero 0

theorem readQuoted_backslash (room : Nat) (c : UInt8) (p : Bytes) :
    readQuoted (room + 1) (backslash :: c :: p) =
      (c :: (readQuoted room p).1, (readQuoted room p).2) := rfl

theorem readQuoted_plain (room : Nat) (hquote : c ≠ quote) (hback : c ≠ backslash) (p : Bytes) :
    readQuoted (room + 1) (c :: p) = (c :: (readQuoted room p).1, (readQuoted room p).2) := by
  rw [readQuoted.eq_def]
  simp only [if_neg hquote, if_neg hback]

/-- With a control byte in the key, another key is read. -/
theorem readQuoted_control (rest : Bytes) (h : ∃ b ∈ k, b < 32) :
    ∀ room, (readQuoted room (k.flatMap stringifyByte ++ rest)).1 ≠ k := by
  induction k with
  | nil =>
    obtain ⟨b, hb, -⟩ := h
    cases hb
  | cons c k ih =>
    intro room
    cases room with
    | zero => exact (List.cons_ne_nil c k).symm
    | succ room =>
      rw [List.flatMap_cons, List.append_assoc]
      by_cases hc : c < 32
      · -- the letter behind the backslash is taken for the byte
        obtain ⟨l, t, hprint, hl⟩ := stringifyByte_control hc
        rw [hprint, List.cons_append, List.cons_append, readQuoted_backslash]
        intro heq
        have hlc : l = c := (List.cons.inj heq).1
        exact UInt8.not_lt.2 hl (hlc ▸ hc)
      · have hrest : ∃ b ∈ k, b < 32 := by
          obtain ⟨b, hb, hlt⟩ := h
          rcases List.mem_cons.1 hb with rfl | hb
          · exact absurd hlt hc
          · exact ⟨b, hb, hlt⟩
        rw [stringifyByte_plain (UInt8.not_lt.1 hc), escapeChar]
        by_cases hesc : c = quote ∨ c = backslash
        · rw [if_pos hesc, List.cons_append, List.cons_append, readQuoted_backslash]
          exact fun heq => ih hrest room (List.cons.inj heq).2
        · obtain ⟨hquote, hback⟩ := not_or.1 hesc
          rw [if_neg hesc, if_neg hc, List.singleton_append, readQuoted_plain room hquote hback]
          exact fun heq => ih hrest room (List.cons.inj heq).2

/-- The value of `key` begins right behind the colon. -/
theorem afterColon_deleteText (k : Bytes) :
    afterColon (deleteText k) (asciiBytes "key") =
      some (quote :: (k.flatMap stringifyByte ++ quote :: asciiBytes ",\"delete\":true\x7d")) := by
  have hfind : strstr (needle (asciiBytes "key")) (deleteText k) =
      some ((deleteText k).drop 1) := by
    have hskip : ∀ text, strstr (needle (asciiBytes "key")) (123 :: text) =
        strstr (needle (asciiBytes "key")) text := by
      intro text
      rw [needle_eq isKey_key]
      exact strstr_skip (by decide)
    have hhead : ∀ rest, strstr (needle (asciiBytes "key")) (needle (asciiBytes "key") ++ rest) =
        some (needle (asciiBytes "key") ++ rest) := by
      intro rest
      have hpre := List.prefix_append (needle (asciiBytes "key")) rest
      rw [needle_eq isKey_key] at hpre ⊢
      exact if_pos hpre
    rw [deleteText_eq, hskip, hhead]
    rfl
  rw [afterColon, hfind, deleteText_eq]
  simp only [List.drop_succ_cons, List.drop_zero, List.drop_left, strchr_cons]

theorem read_key (hk : ValidKey k) (info : Option SerialInfo) :
    (readSerialRequest (deleteCall k info).body).key =
      match readValue serialcfgKeyLen (quote :: (k.flatMap stringifyByte ++
        quote :: asciiBytes ",\"delete\":true\x7d")) with
      | (true, out) => out
      | (false, _) => none := by
  simp only [readSerialRequest, serialField, deleteCall_body hk, jsonField,
    afterColon_deleteText]

/-- A key with a control byte is not the one that the handler reads. -/
theorem read_ne_of_control (hk : ValidKey k) (h : ∃ b ∈ k, b < 32) (info : Option SerialInfo) :
    (readSerialRequest (deleteCall k info).body).key ≠ some k := by
  have hne := readQuoted_control (quote :: asciiBytes ",\"delete\":true\x7d") h
    (serialcfgKeyLen - 1)
  rw [read_key hk, readValue_quote rfl]
  split
  · next heq =>
    have hout := (Prod.mk.inj heq).2
    rw [← hout]
    exact fun hsome => hne (Option.some.inj hsome)
  · exact fun hsome => by cases hsome

/-- The object of a request whose key needs no other escapes. -/
def deleteObject (k : Printable) : FlatObject :=
  plainObject [plainMember ⟨asciiBytes "key", printable_key⟩ (.str k),
    plainMember ⟨asciiBytes "delete", printable_delete⟩ (.bool true)]

theorem deleteObject_own_key {k : Printable} {w : Mention}
    (hw : firstMention (asciiBytes "key") (deleteObject k).members = some w) :
    w.Own (asciiBytes "key") := by
  have hfirst : firstMention (asciiBytes "key") (deleteObject k).members =
      some (.name (plainMember ⟨asciiBytes "key", printable_key⟩ (.str k))
        (deleteObject k).members.tail) := if_pos (.inl rfl)
  rw [hfirst] at hw
  cases hw
  rfl

/-- The key may mention `delete`, but the name is next. -/
theorem deleteObject_own_delete {k : Printable} {w : Mention}
    (hw : firstMention (asciiBytes "delete") (deleteObject k).members = some w) :
    w.Own (asciiBytes "delete") := by
  have hname : ¬ Mentions (asciiBytes "delete") (asciiBytes "key") := by decide
  rw [deleteObject, plainObject, firstMention, plainMember] at hw
  dsimp only at hw
  rw [if_neg hname] at hw
  split at hw
  · cases hw
    rfl
  · rw [firstMention, plainMember] at hw
    dsimp only at hw
    rw [if_pos (.inl rfl)] at hw
    cases hw
    rfl

/-- Any other key is read as it is, and so is the order to delete it. -/
theorem read_of_plain (hk : ValidKey k) (h : ∀ b ∈ k, 32 ≤ b) (info : Option SerialInfo) :
    (readSerialRequest (deleteCall k info).body).key = some k ∧
      (readSerialRequest (deleteCall k info).body).delete = true := by
  have hraw : k.flatMap stringifyByte = escape k := by
    refine List.flatMap_congr fun c hc => ?_
    rw [stringifyByte_plain (h c hc), escapeChar, if_neg (UInt8.not_lt.2 (h c hc))]
  have hprint : deleteText k = (deleteObject ⟨k, h⟩).print := by
    have htrue : asciiBytes "true" = [116, 114, 117, 101] := by decide
    have hnames := escape_of_plain isKey_key.isPlain
    have hdelete := escape_of_plain isKey_delete.isPlain
    rw [deleteText, printFields, hraw]
    simp [deleteObject, plainObject, plainMember, noBlanks, FlatObject.print, FlatObject.body,
      FlatMember.print, printObject, printStr, printBool, Scalar.print, hnames, hdelete, htrue]
  have hbody := deleteCall_body hk info
  obtain ⟨hkey, -⟩ := lookups_agree isKey_key (deleteObject ⟨k, h⟩) serialcfgKeyLen
    fun w hw => .inl (deleteObject_own_key hw)
  obtain ⟨-, hdelete⟩ := lookups_agree isKey_delete (deleteObject ⟨k, h⟩) 0
    fun w hw => .inl (deleteObject_own_delete hw)
  have hfield := hkey (Nat.lt_of_le_of_lt hk.2.1 (by decide))
  rw [readSerialRequest]
  simp only [serialField, hbody, hprint]
  constructor
  · rw [hfield]
    rfl
  · exact hdelete

end Naming

/-! ## Deleting what is listed -/

section Deleting

variable {nvs : NvsTable} {m : SlotMap serialcfgMax (List UInt8) LineCoding} {k : Bytes}
  {lc : LineCoding}

/-- A request about another key does not do what a deletion of `k` should. -/
theorem storedList_other (h : Holds nvs m) (hk : m.find k = some lc) {p : SerialCall}
    (hread : (readSerialRequest p.body).key ≠ some k) :
    storedList (serialPost p nvs) ≠ (storedList nvs).filter fun e => e.1 ≠ k := by
  intro heq
  rw [storedList_eq h] at heq
  -- what is listed afterwards has another key, and was stored before
  have hback : ∀ {m' : SlotMap serialcfgMax (List UInt8) LineCoding} {k' : Bytes}
      {lc' : LineCoding}, Holds (serialPost p nvs) m' → m'.find k' = some lc' →
        k' ≠ k ∧ m.find k' = some lc' := by
    intro m' k' lc' hm' hfind
    have hmem := SlotMap.mem_toList.2 hfind
    rw [← storedList_eq hm', heq, List.mem_filter] at hmem
    exact ⟨of_decide_eq_true hmem.2, SlotMap.mem_toList.1 hmem.1⟩
  rcases post_table h p with hsame | ⟨key, hkey, herase | ⟨lc', hinsert⟩⟩
  · exact (hback hsame hk).1 rfl
  · have hne : k ≠ key := fun hkk => hread (hkk ▸ hkey)
    have hkept : (m.erase key).find k = some lc := by rw [SlotMap.find_erase, if_neg hne, hk]
    exact (hback herase hkept).1 rfl
  · have hne : k ≠ key := fun hkk => hread (hkk ▸ hkey)
    by_cases hev : m.evicted key = some k
    · -- the new key takes the place of `k`
      have hnew : (m.insert key lc').find key = some lc' := by
        rw [SlotMap.find_insert, if_pos rfl]
      have hold := (hback hinsert hnew).2
      rw [SlotMap.evicted] at hev
      split at hev
      · next hfull =>
        rw [hfull.1] at hold
        cases hold
      · cases hev
    · have hkept : (m.insert key lc').find k = some lc := by
        rw [SlotMap.find_insert, if_neg hne, if_neg hev, hk]
      exact (hback hinsert hkept).1 rfl

/-- A stored key can be deleted by its name if and only if it has no control byte. -/
theorem deletes_iff (h : Holds nvs m) (hk : m.find k = some lc) :
    Deletes nvs k ↔ ∀ b ∈ k, 32 ≤ b := by
  have hvalid := h.valid k lc hk
  constructor
  · intro hdel
    refine Classical.byContradiction fun hnot => ?_
    obtain ⟨b, hb⟩ := Classical.not_forall.1 hnot
    obtain ⟨hmem, hlt⟩ := Classical.not_imp.1 hb
    have hread := read_ne_of_control hvalid ⟨b, hmem, UInt8.not_le.1 hlt⟩ none
    exact storedList_other h hk hread (hdel none)
  · intro hplain info
    obtain ⟨hkey, hdelete⟩ := read_of_plain hvalid hplain info
    have hpost : serialPost (deleteCall k info) nvs = (serialcfgDelete .allOk nvs k).2 := by
      rw [serialPost, postDecide, hkey]
      simp only [if_neg hvalid.ne_nil, hdelete, if_true]
      rfl
    rw [hpost, storedList_eq (holds_delete h hvalid), storedList_eq h, SlotMap.toList_erase]

/-- The entries are listed, and each can be deleted, if and only if no key has a control byte
and they fit. -/
theorem list_delete_iff (h : Holds nvs m) (v : SerialView) :
    (Lists (hSerialGet v nvs) ((storedList nvs).map Prod.fst) ∧
        ∀ e ∈ storedList nvs, Deletes nvs e.1) ↔
      (∀ e ∈ storedList nvs, ∀ b ∈ e.1, 32 ≤ b) ∧ Fits v (storedList nvs) := by
  have hfind : ∀ e ∈ storedList nvs, m.find e.1 = some e.2 := by
    intro e he
    rw [storedList_eq h] at he
    exact SlotMap.mem_toList.1 he
  have hdeletes : (∀ e ∈ storedList nvs, Deletes nvs e.1) ↔
      ∀ e ∈ storedList nvs, ∀ b ∈ e.1, 32 ≤ b :=
    forall_congr' fun e => forall_congr' fun he => deletes_iff h (hfind e he)
  rw [hdeletes, and_comm]
  refine and_congr_right fun hplain => listed_iff fun e he => ?_
  have hvalid := h.valid e.1 e.2 (hfind e he)
  exact ⟨Nat.lt_of_le_of_lt hvalid.2.1 (by decide), hplain e he⟩

/-- In every table that requests leave, and for every attached device: the answer lists every
entry once under its key, and posting each key back deletes its entry, if and only if no stored
key has a control byte and the entries fit. -/
theorem serial_list_delete_iff {opens : Bool}
    (hrun : serialPosts.Reaches (fun _ _ => True) (emptyTable opens) nvs) (v : SerialView) :
    (Lists (hSerialGet v nvs) ((storedList nvs).map Prod.fst) ∧
        ∀ e ∈ storedList nvs, Deletes nvs e.1) ↔
      (∀ e ∈ storedList nvs, ∀ b ∈ e.1, 32 ≤ b) ∧ Fits v (storedList nvs) := by
  obtain ⟨m, hm⟩ := holds_of_reaches hrun
  exact list_delete_iff hm v

end Deleting

/-- A request whose calls succeed. -/
def storeCall (body : Bytes) : SerialCall := ⟨[.data body], none, .allOk⟩

/-- An attached stick. -/
def cul : SerialView :=
  ⟨⟨true, asciiBytes "0403:6001", ⟨38400, 8, 0, 0⟩, 0⟩, true, 0x0403, 0x6001, asciiBytes "A1"⟩

theorem serial_list_delete_iff_one :
    ∃ nvs, (storedList nvs).map Prod.fst = [asciiBytes "a"] ∧
      Lists (hSerialGet cul nvs) ((storedList nvs).map Prod.fst) ∧
      ∀ e ∈ storedList nvs, Deletes nvs e.1 := by
  obtain ⟨nvs, hrun, hkeys, hplain, hfits⟩ := serialPosts.exists_reaches_of_runIf
    (fun _ _ => True)
    (fun nvs => (storedList nvs).map Prod.fst = [asciiBytes "a"] ∧
      (∀ e ∈ storedList nvs, ∀ b ∈ e.1, 32 ≤ b) ∧
      headSize cul + listSize (storedList nvs) < 1024 - 96) (emptyTable false)
    [storeCall (asciiBytes "\x7b\"key\":\"a\"\x7d")] (by decide +kernel)
  exact ⟨nvs, hkeys, (serial_list_delete_iff hrun cul).2 ⟨hplain, fits_of_size hfits⟩⟩

/-- Eight keys of quotes and a digit. -/
def quoteCalls : List SerialCall :=
  [49, 50, 51, 52, 53, 54, 55, 56].map fun d =>
    storeCall (printFields [("key", printStr ((List.replicate 31 quote ++ [d]).flatMap
      stringifyByte))])

/-- A key of the byte 1 is stored, and posting `\u0001` with `delete` leaves it there; eight
keys of quotes are stored, and the answer is no list of them. -/
theorem serial_list_delete_fails :
    (∃ nvs, serialPosts.Reaches (fun _ _ => True) (emptyTable false) nvs ∧
      (storedList nvs).map Prod.fst = [[1]] ∧ ¬ Deletes nvs [1]) ∧
    ∃ nvs, serialPosts.Reaches (fun _ _ => True) (emptyTable false) nvs ∧
      (storedList nvs).length = 8 ∧
      ¬ Lists (hSerialGet cul nvs) ((storedList nvs).map Prod.fst) := by
  constructor
  · obtain ⟨nvs, hrun, hkeys⟩ := serialPosts.exists_reaches_of_runIf (fun _ _ => True)
      (fun nvs => (storedList nvs).map Prod.fst = [[1]]) (emptyTable false)
      [storeCall (asciiBytes "\x7b\"key\":\"" ++ 1 :: asciiBytes "\"\x7d")] (by decide +kernel)
    refine ⟨nvs, hrun, hkeys, fun hdel => ?_⟩
    obtain ⟨m, hm⟩ := holds_of_reaches hrun
    have hmem : [1] ∈ (storedList nvs).map Prod.fst := hkeys ▸ List.mem_singleton.2 rfl
    obtain ⟨e, he, hek⟩ := List.mem_map.1 hmem
    rw [storedList_eq hm] at he
    have hfind : m.find [1] = some e.2 := hek ▸ SlotMap.mem_toList.1 he
    have hplain := (deletes_iff hm hfind).1 hdel 1 (List.mem_singleton.2 rfl)
    exact absurd hplain (by decide)
  · obtain ⟨nvs, hrun, hlen, hkeys, hsize⟩ := serialPosts.exists_reaches_of_runIf
      (fun _ _ => True)
      (fun nvs => (storedList nvs).length = 8 ∧
        (∀ e ∈ storedList nvs, e.1.length < serialcfgKeyLen ∧ ∀ b ∈ e.1, 32 ≤ b) ∧
        1024 - 3 ≤ headSize cul + listSize (storedList nvs)) (emptyTable false) quoteCalls
      (by decide +kernel)
    refine ⟨nvs, hrun, hlen, fun hlists => ?_⟩
    have hfits := (listed_iff hkeys).1 hlists
    exact absurd hfits.2 (Nat.not_lt.2 hsize)

end Cdc2Net.Web

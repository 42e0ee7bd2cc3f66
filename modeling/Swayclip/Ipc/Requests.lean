import Swayclip.Cli.Message
import Swayclip.Daemon.Requests

/-! # Requests as JSON

The payload of a request is a JSON object that names its type. `request_callback` looks up the
fields that the type needs; in which order the fields come, and what else is there, does not
matter.
-/

namespace Swayclip
open Library

/-- What json-c makes of a text. A double keeps its text. -/
inductive JsonValue where
  | null
  | bool (b : Bool)
  | double (text : Bytes)
  | int (n : ℤ)
  | string (s : Bytes)
  | array (elems : List JsonValue)
  | object (fields : List (Bytes × JsonValue))

/-! ## Looking up fields -/

namespace JsonValue

/-- `json_object_object_get`; null is a NULL pointer, like a field that is missing. -/
def objectGet (key : String) : JsonValue → Option JsonValue
  | .object fields =>
    match (fields.find? fun field => field.1 = jsonKey key).map Prod.snd with
    | some .null => none
    | value => value
  | _ => none

def int64Min : ℤ := -9223372036854775808

def int64Max : ℤ := 9223372036854775807

/-- `JSON_EXTRACT_INT`; numbers out of range are cut off. -/
def extractInt (key : String) (obj : JsonValue) : Option ℤ :=
  match obj.objectGet key with
  | some (.int n) => some (max int64Min (min int64Max n))
  | _ => none

def extractStr (key : String) (obj : JsonValue) : Option CString :=
  match obj.objectGet key with
  | some (.string s) => some (CString.ofBytes s)
  | _ => none

def extractArray (key : String) (obj : JsonValue) : Option (List JsonValue) :=
  match obj.objectGet key with
  | some (.array elems) => some elems
  | _ => none

end JsonValue

/-! ## Reading a request -/

/-- The comparisons with `IPC_EVENT_*`. -/
def EventArg.ofName (name : Bytes) : EventArg :=
  if name = jsonKey "entry_add" then .flag .entryAdd
  else if name = jsonKey "entry_delete" then .flag .entryDelete
  else if name = jsonKey "entry_update" then .flag .entryUpdate
  else if name = jsonKey "entry_move" then .flag .entryMove
  else if name = jsonKey "entry_state" then .flag .entryState
  else .unknown name

/-- `json_object_get_string` turns any value into a text. -/
def EventArg.ofJson (text : JsonValue → Bytes) : JsonValue → EventArg
  | .null => .null
  | .string s => .ofName (CString.ofBytes s).bytes
  | j => .ofName (CString.ofBytes (text j)).bytes

def PinArg.ofName (name : Bytes) : PinArg :=
  if name = jsonKey "yes" then .yes
  else if name = jsonKey "no" then .no
  else if name = jsonKey "toggle" then .toggle
  else .other

/-- The comparisons of `request_callback` with `IPC_REQ_*`, and the fields that it looks up. -/
def Request.ofType (text : JsonValue → Bytes) (payload : JsonValue) (type : Bytes) : Request :=
  if type = jsonKey "subscribe" then
    .subscribe ((payload.extractArray "events").map (List.map (EventArg.ofJson text)))
  else if type = jsonKey "get_history_length" then .getHistoryLength
  else if type = jsonKey "get_history" then
    .getHistory (payload.extractInt "start") (payload.extractInt "n")
  else if type = jsonKey "get_data" then
    .getData (payload.extractInt "id") (payload.extractStr "mime_type")
  else if type = jsonKey "set_clipboard" then .setClipboard (payload.extractInt "id")
  else if type = jsonKey "delete_entry" then .deleteEntry (payload.extractInt "id")
  else if type = jsonKey "pin_entry" then
    .pinEntry (payload.extractInt "id")
      ((payload.extractStr "pin").map fun name => .ofName name.bytes)
  else if type = jsonKey "get_current" then .getCurrent
  else if type = jsonKey "hold_requests" then .holdRequests (payload.extractInt "n")
  else .invalid

def Request.ofJson (text : JsonValue → Bytes) (payload : JsonValue) : Request :=
  match payload.extractStr "type" with
  | none => .invalid
  | some type => .ofType text payload type.bytes

/-! ## Building a request -/

namespace Cli

inductive Ask where
  | subscribe (events : List CString)
  | getHistoryLength
  | getHistory (start n : ℤ)
  | getData (id : ℤ) (mimeType : CString)
  | setClipboard (id : ℤ)
  | deleteEntry (id : ℤ)
  | pinEntry (id : ℤ) (pin : PinArg)
  | getCurrent

/-- `pinstr`; there are three of them. -/
def pinStr : PinArg → String
  | .no => "no"
  | .toggle => "toggle"
  | _ => "yes"

namespace Ask

def fields : Ask → List (Bytes × JsonValue)
  | .subscribe events => [(jsonKey "type", .string (jsonKey "subscribe")),
      (jsonKey "events", .array (events.map fun name => .string name.bytes))]
  | .getHistoryLength => [(jsonKey "type", .string (jsonKey "get_history_length"))]
  | .getHistory start n => [(jsonKey "type", .string (jsonKey "get_history")),
      (jsonKey "start", .int start), (jsonKey "n", .int n)]
  | .getData id mimeType => [(jsonKey "type", .string (jsonKey "get_data")),
      (jsonKey "id", .int id), (jsonKey "mime_type", .string mimeType.bytes)]
  | .setClipboard id => [(jsonKey "type", .string (jsonKey "set_clipboard")),
      (jsonKey "id", .int id)]
  | .deleteEntry id => [(jsonKey "type", .string (jsonKey "delete_entry")),
      (jsonKey "id", .int id)]
  | .pinEntry id pin => [(jsonKey "type", .string (jsonKey "pin_entry")),
      (jsonKey "id", .int id), (jsonKey "pin", .string (jsonKey (pinStr pin)))]
  | .getCurrent => [(jsonKey "type", .string (jsonKey "get_current"))]

def payload (ask : Ask) : JsonValue := .object ask.fields

def request : Ask → Request
  | .subscribe events => .subscribe (some (events.map fun name => .ofName name.bytes))
  | .getHistoryLength => .getHistoryLength
  | .getHistory start n => .getHistory (some start) (some n)
  | .getData id mimeType => .getData (some id) (some mimeType)
  | .setClipboard id => .setClipboard (some id)
  | .deleteEntry id => .deleteEntry (some id)
  | .pinEntry id pin => .pinEntry (some id) (some pin)
  | .getCurrent => .getCurrent

/-- The numbers are of type `int64_t`, and the pin argument is one of the three words. -/
def Fits : Ask → Prop
  | .getHistory start n => InRange start ∧ InRange n
  | .getData id _ | .setClipboard id | .deleteEntry id => InRange id
  | .pinEntry id pin => InRange id ∧ pin ≠ .other
  | _ => True
where
  InRange (n : ℤ) : Prop := JsonValue.int64Min ≤ n ∧ n ≤ JsonValue.int64Max

end Ask

end Cli

/-! ## Reading what was built -/

theorem CString.ofBytes_bytes (s : CString) : CString.ofBytes s.bytes = s := by
  have hnonul : ∀ b ∈ s.bytes, decide (b ≠ 0) = true := fun b hb =>
    decide_eq_true (ne_of_mem_of_not_mem hb s.nonul)
  have hall : (s.bytes ++ []).takeWhile (· ≠ 0) = s.bytes ++ [] :=
    List.takeWhile_append_of_pos hnonul
  rw [List.append_nil] at hall
  cases s
  simpa [CString.ofBytes] using hall

section Fields
variable {fields : List (Bytes × JsonValue)} (hkeys : (fields.map Prod.fst).Nodup)
include hkeys

/-- Keys are unique, so that a field is found wherever it is. -/
theorem objectGet_of_mem {key : String} {value : JsonValue} (hnull : value ≠ .null)
    (h : (jsonKey key, value) ∈ fields) : (JsonValue.object fields).objectGet key = some value := by
  have hfind : fields.find? (fun field => field.1 = jsonKey key) = some (jsonKey key, value) := by
    induction fields with
    | nil => exact absurd h List.not_mem_nil
    | cons first fields ih =>
      obtain ⟨hfirst, hkeys⟩ := List.nodup_cons.mp hkeys
      rcases List.mem_cons.mp h with rfl | h
      · exact List.find?_cons_of_pos (decide_eq_true rfl)
      · have hother : first.1 ≠ jsonKey key := fun heq =>
          hfirst (heq ▸ List.mem_map_of_mem (f := Prod.fst) h)
        rw [List.find?_cons_of_neg (by simpa using hother)]
        exact ih hkeys h
  rw [JsonValue.objectGet, hfind]
  cases value <;> first | rfl | exact absurd rfl hnull

theorem extractInt_of_mem {key : String} {n : ℤ} (h : (jsonKey key, JsonValue.int n) ∈ fields)
    (hrange : Cli.Ask.Fits.InRange n) : (JsonValue.object fields).extractInt key = some n := by
  have hget := objectGet_of_mem hkeys (by simp) h
  rw [JsonValue.extractInt, hget]
  dsimp only
  rw [min_eq_right hrange.2, max_eq_right hrange.1]

theorem extractStr_of_mem {key : String} {s : CString}
    (h : (jsonKey key, JsonValue.string s.bytes) ∈ fields) :
    (JsonValue.object fields).extractStr key = some s := by
  have hget := objectGet_of_mem hkeys (by simp) h
  rw [JsonValue.extractStr, hget]
  dsimp only
  rw [CString.ofBytes_bytes]

/-- Words of the protocol are read as they are written. -/
theorem extractStr_of_word {key : String} {word : Bytes} (hword : 0 ∉ word)
    (h : (jsonKey key, JsonValue.string word) ∈ fields) :
    ∃ s, (JsonValue.object fields).extractStr key = some s ∧ s.bytes = word :=
  ⟨⟨word, hword⟩, extractStr_of_mem hkeys (s := ⟨word, hword⟩) h, rfl⟩

theorem extractArray_of_mem {key : String} {elems : List JsonValue}
    (h : (jsonKey key, JsonValue.array elems) ∈ fields) :
    (JsonValue.object fields).extractArray key = some elems := by
  have hget := objectGet_of_mem hkeys (by simp) h
  rw [JsonValue.extractArray, hget]

end Fields

/-- The names that `swctl events` is given are read as they are. -/
theorem ofJson_names (text : JsonValue → Bytes) (names : List CString) :
    (names.map fun name => JsonValue.string name.bytes).map (EventArg.ofJson text) =
      names.map fun name => .ofName name.bytes := by
  rw [List.map_map]
  refine List.map_congr_left fun name _ => ?_
  change EventArg.ofName (CString.ofBytes name.bytes).bytes = _
  rw [CString.ofBytes_bytes]

theorem pinStr_nonul (pin : PinArg) : 0 ∉ jsonKey (Cli.pinStr pin) := by
  cases pin <;> decide

theorem ofName_pinStr {pin : PinArg} (h : pin ≠ .other) :
    PinArg.ofName (jsonKey (Cli.pinStr pin)) = pin := by
  cases pin <;> first | rfl | exact absurd rfl h

theorem ofJson_word {fields : List (Bytes × JsonValue)} (hkeys : (fields.map Prod.fst).Nodup)
    (text : JsonValue → Bytes) {word : Bytes} (hword : 0 ∉ word)
    (h : (jsonKey "type", JsonValue.string word) ∈ fields) :
    Request.ofJson text (.object fields) = .ofType text (.object fields) word := by
  obtain ⟨type, htype, hbytes⟩ := extractStr_of_word hkeys hword h
  rw [Request.ofJson, htype]
  dsimp only
  rw [hbytes]

/-- An object that has the fields of a request, in any order and among any others, is read as this
request. -/
theorem ofJson_of_fields (text : JsonValue → Bytes) {fields : List (Bytes × JsonValue)}
    (hkeys : (fields.map Prod.fst).Nodup) (ask : Cli.Ask) (hfits : ask.Fits)
    (h : ∀ field ∈ ask.fields, field ∈ fields) :
    Request.ofJson text (.object fields) = ask.request := by
  cases ask <;> simp only [Cli.Ask.fields, List.forall_mem_cons] at h
  case subscribe events =>
    obtain ⟨htype, hevents, -⟩ := h
    rw [ofJson_word hkeys text (by decide) htype]
    change Request.subscribe _ = _
    rw [extractArray_of_mem hkeys hevents, Option.map_some, ofJson_names]
    rfl
  case getHistoryLength =>
    rw [ofJson_word hkeys text (by decide) h.1]
    rfl
  case getHistory start n =>
    obtain ⟨htype, hstart, hn, -⟩ := h
    rw [ofJson_word hkeys text (by decide) htype]
    change Request.getHistory _ _ = _
    rw [extractInt_of_mem hkeys hstart hfits.1, extractInt_of_mem hkeys hn hfits.2]
    rfl
  case getData id mimeType =>
    obtain ⟨htype, hid, hmime, -⟩ := h
    rw [ofJson_word hkeys text (by decide) htype]
    change Request.getData _ _ = _
    rw [extractInt_of_mem hkeys hid hfits, extractStr_of_mem hkeys hmime]
    rfl
  case setClipboard id =>
    obtain ⟨htype, hid, -⟩ := h
    rw [ofJson_word hkeys text (by decide) htype]
    change Request.setClipboard _ = _
    rw [extractInt_of_mem hkeys hid hfits]
    rfl
  case deleteEntry id =>
    obtain ⟨htype, hid, -⟩ := h
    rw [ofJson_word hkeys text (by decide) htype]
    change Request.deleteEntry _ = _
    rw [extractInt_of_mem hkeys hid hfits]
    rfl
  case pinEntry id pin =>
    obtain ⟨htype, hid, hpin, -⟩ := h
    rw [ofJson_word hkeys text (by decide) htype]
    change Request.pinEntry _ (Option.map _ _) = _
    obtain ⟨word, hword, hbytes⟩ := extractStr_of_word hkeys (pinStr_nonul pin) hpin
    rw [extractInt_of_mem hkeys hid hfits.1, hword, Option.map_some, hbytes,
      ofName_pinStr hfits.2]
    rfl
  case getCurrent =>
    rw [ofJson_word hkeys text (by decide) h.1]
    rfl

/-- A request for data with its fields in another order, and one more. -/
theorem getData_reordered :
    Request.ofJson (fun _ => []) (.object [(jsonKey "mime_type", .string (jsonKey "text/plain")),
      (jsonKey "id", .int 7), (jsonKey "comment", .null),
      (jsonKey "type", .string (jsonKey "get_data"))]) =
        .getData (some 7) (some ⟨jsonKey "text/plain", by decide⟩) :=
  ofJson_of_fields (fun _ => []) (by decide) (.getData 7 ⟨jsonKey "text/plain", by decide⟩)
    ⟨by decide, by decide⟩ (by simp [Cli.Ask.fields])

end Swayclip

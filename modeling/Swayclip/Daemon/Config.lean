import Swayclip.Cli.Message
import Swayclip.Daemon.State
import Swayclip.Wayland.Toplevel

/-! # The configuration file

`config_init` looks up its options one after the other in what the TOML parser has made of the
file. An option that is missing keeps its value; the first one that is not valid ends it with an
error.
-/

namespace Swayclip

/-! ## What a TOML file holds -/

/-- `toml_type_t`. -/
inductive TomlType where
  | string
  | int64
  | fp64
  | boolean
  | date
  | time
  | datetime
  | datetimetz
  | array
  | table
deriving DecidableEq

/-- `toml_datum_t`. No option reads floating point numbers or times, so their values are left
out. -/
inductive TomlDatum where
  | string (s : Bytes)
  | int64 (n : ℤ)
  | fp64
  | boolean (b : Bool)
  | date
  | time
  | datetime
  | datetimetz
  | array (elems : List TomlDatum)
  | table (fields : List (Bytes × TomlDatum))

namespace TomlDatum

/-- `toml_get`; `none` is a datum of type `TOML_UNKNOWN`. -/
def get (key : Bytes) : TomlDatum → Option TomlDatum
  | .table fields => (fields.find? fun field => field.1 = key).map Prod.snd
  | _ => none

/-- The loop of `toml_seek` on the parts of the key. -/
def seekParts : List Bytes → TomlDatum → Option TomlDatum
  | [], _ => none
  | [part], datum => datum.get part
  | part :: parts, datum => (datum.get part).bind (seekParts parts)

/-- `toml_seek`; the key has to fit into its buffer. -/
def seek (key : String) (table : TomlDatum) : Option TomlDatum :=
  let key := ascii key.toList
  if 256 < key.length + 1 then none else seekParts (key.splitOn 46) table

end TomlDatum

/-- `type_to_str`. -/
def TomlType.toStr : TomlType → String
  | .table => "table"
  | .array => "array"
  | .string => "string"
  | .int64 => "integer"
  | .boolean => "boolean"
  | _ => "unknown"

/-! ## Options -/

/-- The callback of an option, with the type that the macros `CONFIG_*` require for it. It is given
the key, and returns what the option is stored in, or the text of the error. -/
inductive ConfigCallback (σ : Type*) where
  | string (f : String → CString → σ → Except Bytes σ)
  | int64 (f : String → ℤ → σ → Except Bytes σ)
  | boolean (f : String → Bool → σ → Except Bytes σ)
  | table (f : String → List (Bytes × TomlDatum) → σ → Except Bytes σ)
  | array (f : String → List TomlDatum → σ → Except Bytes σ)

/-- `struct config_option`. -/
structure ConfigOption (σ : Type*) where
  key : String
  callback : ConfigCallback σ

section Extract
variable {σ : Type*}

def ConfigCallback.type : ConfigCallback σ → TomlType
  | .string _ => .string
  | .int64 _ => .int64
  | .boolean _ => .boolean
  | .table _ => .table
  | .array _ => .array

def wrongType (key : String) (type : TomlType) : Bytes :=
  ascii ("Config option \"".toList ++ key.toList ++ "\" is not of type ".toList ++
    type.toStr.toList)

/-- The body of the loop of `config_extract`, for a datum that is there. -/
def ConfigOption.take (opt : ConfigOption σ) (dat : TomlDatum) (s : σ) : Except Bytes σ :=
  match opt.callback, dat with
  | .string f, .string str => f opt.key (CString.ofBytes str) s
  | .int64 f, .int64 n => f opt.key n s
  | .boolean f, .boolean b => f opt.key b s
  | .table f, .table fields => f opt.key fields s
  | .array f, .array elems => f opt.key elems s
  | callback, _ => .error (wrongType opt.key callback.type)

def configExtract (table : TomlDatum) : List (ConfigOption σ) → σ → Except Bytes σ
  | [], s => .ok s
  | opt :: opts, s =>
    match table.seek opt.key with
    | none => configExtract table opts s
    | some dat =>
      match opt.take dat s with
      | .error message => .error message
      | .ok s => configExtract table opts s

def configExtractString (store : CString → σ → σ) : ConfigCallback σ :=
  .string fun _ str s => .ok (store str s)

def notPositive (key : String) : Bytes :=
  ascii ("Config option \"".toList ++ key.toList ++ "\" is not a positive integer".toList)

/-- `config_extract_int64_pos`; zero passes. -/
def configExtractInt64Pos (store : ℕ → σ → σ) : ConfigCallback σ :=
  .int64 fun key n s => if n < 0 then .error (notPositive key) else .ok (store n.toNat s)

def configExtractBoolean (store : Bool → σ → σ) : ConfigCallback σ :=
  .boolean fun _ b s => .ok (store b s)

end Extract

/-! ## Arrays and tables of values -/

/-- The loops over an array or a table: each element yields a value, or the error that ends it. -/
def collect {α β : Type*} (item : ℕ → α → Except Bytes β) : ℕ → List α → Except Bytes (List β)
  | _, [] => .ok []
  | i, a :: rest =>
    match item i a with
    | .error message => .error message
    | .ok b => (collect item (i + 1) rest).map (b :: ·)

/-- `key[i]`. -/
def element (key : String) (i : ℕ) : List Char :=
  key.toList ++ '[' :: (toString i).toList ++ [']']

def expectedString (key : String) (i : ℕ) : Bytes :=
  ascii ("Expected string for pattern in \"".toList ++ element key i ++ "\" in config".toList)

def invalidPattern (pattern : CString) (errbuf : Bytes) : Bytes :=
  ascii "Invalid pattern '".toList ++ pattern.bytes ++ ascii "' in config: ".toList ++ errbuf

section Patterns
variable {σ : Type*} (regcomp : CString → Except Bytes Regex)

/-- One element of an array of patterns. `regcomp` comes up with the text of `regerror` if it
fails. -/
def extractPattern (key : String) (i : ℕ) (dat : TomlDatum) : Except Bytes Regex :=
  match dat with
  | .string str =>
    match regcomp (CString.ofBytes str) with
    | .error errbuf => .error (invalidPattern (CString.ofBytes str) errbuf)
    | .ok re => .ok re
  | _ => .error (expectedString key i)

/-- `extract_pattern_array`; `append` adds to the array that the option is stored in. -/
def extractPatternArray (append : List Regex → σ → σ) : ConfigCallback σ :=
  .array fun key elems s =>
    (collect (extractPattern regcomp key) 0 elems).map fun patterns => append patterns s

end Patterns

/-! ## The options of the daemon -/

/-- `struct config` with all that can be configured. -/
structure ConfigFile extends Config where
  logfile : Option CString
  db : Option CString
  configuredToplevels : List ConfigToplevel

namespace ConfigFile

def expectedTable (key : String) (seatname : CString) : Bytes :=
  ascii ("expected table for \"".toList ++ key.toList ++ ['.']) ++ seatname.bytes ++
    ascii ['"']

def seatOptions : List (ConfigOption ConfigSeat) :=
  [⟨"regular", configExtractBoolean fun b seat => { seat with regular := b }⟩,
    ⟨"primary", configExtractBoolean fun b seat => { seat with primary := b }⟩]

/-- One seat of `extract_configured_seats`; what it does not say is as for any seat. -/
def extractSeat (key : String) (regular primary : Bool) (field : Bytes × TomlDatum) :
    Except Bytes ConfigSeat :=
  match field.2 with
  | .table fields => configExtract (.table fields) seatOptions
      ⟨some (CString.ofBytes field.1), regular, primary⟩
  | _ => .error (expectedTable key (CString.ofBytes field.1))

def extractConfiguredSeats : ConfigCallback ConfigFile :=
  .table fun key fields config =>
    (collect (fun _ => extractSeat key config.regular config.primary) 0 fields).map fun seats =>
      { config with configuredSeats := config.configuredSeats ++ seats }

def unknownDedup (setting : CString) : Bytes :=
  ascii "Unknown dedup setting \"".toList ++ setting.bytes ++ ascii "\" in config".toList

def extractDedup : ConfigCallback ConfigFile :=
  .string fun _ setting config =>
    if setting.bytes = ascii "none".toList then .ok { config with dedup := .none }
    else if setting.bytes = ascii "prev".toList then .ok { config with dedup := .prev }
    else if setting.bytes = ascii "all".toList then .ok { config with dedup := .all }
    else .error (unknownDedup setting)

def expectedToplevel (key : String) (i : ℕ) : Bytes :=
  ascii ("Expected table for toplevel in \"".toList ++ element key i ++ "\" in config".toList)

section Options
variable (regcomp : CString → Except Bytes Regex)

def toplevelOptions : List (ConfigOption ConfigToplevel) :=
  [⟨"titles", extractPatternArray regcomp fun patterns tp =>
      { tp with titles := tp.titles ++ patterns }⟩,
    ⟨"app_ids", extractPatternArray regcomp fun patterns tp =>
      { tp with appIds := tp.appIds ++ patterns }⟩,
    ⟨"allowed_mime_types", extractPatternArray regcomp fun patterns tp =>
      { tp with allowedMimeTypes := tp.allowedMimeTypes ++ patterns }⟩,
    ⟨"blocked_mime_types", extractPatternArray regcomp fun patterns tp =>
      { tp with blockedMimeTypes := tp.blockedMimeTypes ++ patterns }⟩,
    ⟨"transient_mime_types", extractPatternArray regcomp fun patterns tp =>
      { tp with transientMimeTypes := tp.transientMimeTypes ++ patterns }⟩]

/-- One element of the array of `extract_toplevel`. -/
def extractConfigToplevel (key : String) (i : ℕ) (dat : TomlDatum) :
    Except Bytes ConfigToplevel :=
  match dat with
  | .table fields =>
    configExtract (.table fields) (toplevelOptions regcomp) ⟨⟨[], [], []⟩, [], []⟩
  | _ => .error (expectedToplevel key i)

def extractToplevel : ConfigCallback ConfigFile :=
  .array fun key elems config =>
    (collect (extractConfigToplevel regcomp key) 0 elems).map fun toplevels =>
      { config with configuredToplevels := config.configuredToplevels ++ toplevels }

/-- The options in the order of `config_init`. -/
def options : List (ConfigOption ConfigFile) :=
  [⟨"daemon.max_entries", configExtractInt64Pos fun n config =>
      { config with maxEntries := n }⟩,
    ⟨"daemon.max_size", configExtractInt64Pos fun n config => { config with maxSize := n }⟩,
    ⟨"daemon.persist", configExtractBoolean fun b config => { config with persist := b }⟩,
    ⟨"daemon.regular", configExtractBoolean fun b config => { config with regular := b }⟩,
    ⟨"daemon.primary", configExtractBoolean fun b config => { config with primary := b }⟩,
    ⟨"daemon.set_on_startup", configExtractBoolean fun b config =>
      { config with setOnStartup := b }⟩,
    ⟨"daemon.dedup", extractDedup⟩,
    ⟨"daemon.logfile", configExtractString fun str config => { config with logfile := some str }⟩,
    ⟨"daemon.db", configExtractString fun str config => { config with db := some str }⟩,
    ⟨"daemon.seats", extractConfiguredSeats⟩,
    ⟨"daemon.mime_types.allowed", extractPatternArray regcomp fun patterns config =>
      { config with allowedMimeTypes := config.allowedMimeTypes ++ patterns }⟩,
    ⟨"daemon.mime_types.blocked", extractPatternArray regcomp fun patterns config =>
      { config with blockedMimeTypes := config.blockedMimeTypes ++ patterns }⟩,
    ⟨"daemon.mime_types.transient", extractPatternArray regcomp fun patterns config =>
      { config with transientMimeTypes := config.transientMimeTypes ++ patterns }⟩,
    ⟨"daemon.toplevels", extractToplevel regcomp⟩]

/-- `config_init` on the result of `toml_parse_file_ex`. -/
def configInit (result : Except Bytes TomlDatum) : Except Bytes ConfigFile :=
  match result with
  | .error errmsg => .error (ascii "Error parsing config file: ".toList ++ errmsg)
  | .ok toptab =>
    configExtract toptab (options regcomp) ⟨Swayclip.configInit, none, none, []⟩

end Options

end ConfigFile

end Swayclip

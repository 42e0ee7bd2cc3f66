import Swayclip.Daemon.Config

/-! # What a configuration file says

Settings are what a user wants to configure; a file shows them in its tables, in any order and among
other keys. The files that `config_init` accepts are those that show some settings, and it takes
from them what is set there, and the defaults for the rest.
-/

namespace Swayclip

/-! ## Reading one option -/

section Reads
variable {σ α : Type*}

/-- The option accepts what `P` relates to a value, and stores this value. -/
structure ConfigOption.Reads (opt : ConfigOption σ) (P : TomlDatum → α → Prop)
    (store : Option α → σ → σ) : Prop where
  missing : ∀ s, store none s = s
  take : ∀ dat s s', opt.take dat s = .ok s' ↔ ∃ a, P dat a ∧ store (some a) s = s'

theorem ConfigOption.Reads.cons_ok {opt : ConfigOption σ} {P : TomlDatum → α → Prop}
    {store : Option α → σ → σ} (h : opt.Reads P store) {table : TomlDatum}
    {opts : List (ConfigOption σ)} {s s' : σ} : configExtract table (opt :: opts) s = .ok s' ↔
      ∃ value, Option.Rel P (table.seek opt.key) value ∧
        configExtract table opts (store value s) = .ok s' := by
  rw [configExtract]
  cases table.seek opt.key with
  | none =>
    constructor
    · intro hrest
      exact ⟨none, .none, by rwa [h.missing]⟩
    · rintro ⟨_, ⟨⟩, hrest⟩
      rwa [h.missing] at hrest
  | some dat =>
    dsimp only
    cases htake : opt.take dat s with
    | error message =>
      refine iff_of_false (fun h => by cases h) ?_
      rintro ⟨_, ⟨ha⟩, -⟩
      have hok := (h.take dat s _).mpr ⟨_, ha, rfl⟩
      rw [htake] at hok
      cases hok
    | ok next =>
      constructor
      · intro hrest
        obtain ⟨a, ha, rfl⟩ := (h.take dat s next).mp htake
        exact ⟨some a, .some ha, hrest⟩
      · rintro ⟨_, ⟨ha⟩, hrest⟩
        have hok := (h.take dat s _).mpr ⟨_, ha, rfl⟩
        rw [htake] at hok
        rwa [Except.ok.inj hok]

end Reads

/-! ## Values -/

namespace TomlDatum

def IsFlag (dat : TomlDatum) (b : Bool) : Prop := dat = .boolean b

def IsNumber (dat : TomlDatum) (n : ℕ) : Prop := dat = .int64 n

/-- A text ends with its first NUL. -/
def IsText (dat : TomlDatum) (str : CString) : Prop :=
  ∃ bytes, dat = .string bytes ∧ CString.ofBytes bytes = str

/-- A pattern that compiles. -/
def IsPattern (regcomp : CString → Except Bytes Regex) (dat : TomlDatum) (re : Regex) : Prop :=
  ∃ str, dat.IsText str ∧ regcomp str = .ok re

def IsArray {α : Type*} (P : TomlDatum → α → Prop) (dat : TomlDatum) (values : List α) : Prop :=
  ∃ elems, dat = .array elems ∧ List.Forall₂ P elems values

def IsPatterns (regcomp : CString → Except Bytes Regex) : TomlDatum → List Regex → Prop :=
  IsArray (IsPattern regcomp)

end TomlDatum

section Values
variable {σ : Type*} {key : String}

theorem reads_flag {f : Bool → σ → σ} {store : Option Bool → σ → σ}
    (hmissing : ∀ s, store none s = s) (hstore : ∀ b s, store (some b) s = f b s) :
    ConfigOption.Reads ⟨key, configExtractBoolean f⟩ TomlDatum.IsFlag store := by
  refine ⟨hmissing, fun dat s s' => ?_⟩
  cases dat with
  | boolean b =>
    constructor
    · intro h
      exact ⟨b, rfl, (hstore b s).trans (Except.ok.inj h)⟩
    · rintro ⟨_, ⟨⟩, rfl⟩
      rw [hstore]
      rfl
  | _ => exact iff_of_false (fun h => by cases h) (by rintro ⟨_, ⟨⟩, -⟩)

theorem reads_number {f : ℕ → σ → σ} {store : Option ℕ → σ → σ}
    (hmissing : ∀ s, store none s = s) (hstore : ∀ n s, store (some n) s = f n s) :
    ConfigOption.Reads ⟨key, configExtractInt64Pos f⟩ TomlDatum.IsNumber store := by
  refine ⟨hmissing, fun dat s s' => ?_⟩
  cases dat with
  | int64 n =>
    have htake : ConfigOption.take ⟨key, configExtractInt64Pos f⟩ (.int64 n) s =
        if n < 0 then .error (notPositive key) else .ok (f n.toNat s) := rfl
    rw [htake]
    constructor
    · intro h
      split at h
      · cases h
      · exact ⟨n.toNat, congrArg _ (Int.toNat_of_nonneg (by omega)).symm,
          (hstore _ s).trans (Except.ok.inj h)⟩
    · rintro ⟨m, hm, rfl⟩
      obtain rfl := TomlDatum.int64.inj hm
      rw [if_neg (by omega), Int.toNat_natCast, hstore]
  | _ => exact iff_of_false (fun h => by cases h) (by rintro ⟨_, ⟨⟩, -⟩)

theorem reads_text {f : CString → σ → σ} {store : Option CString → σ → σ}
    (hmissing : ∀ s, store none s = s) (hstore : ∀ str s, store (some str) s = f str s) :
    ConfigOption.Reads ⟨key, configExtractString f⟩ TomlDatum.IsText store := by
  refine ⟨hmissing, fun dat s s' => ?_⟩
  cases dat with
  | string bytes =>
    constructor
    · intro h
      exact ⟨_, ⟨bytes, rfl, rfl⟩, (hstore _ s).trans (Except.ok.inj h)⟩
    · rintro ⟨_, ⟨_, ⟨⟩, rfl⟩, rfl⟩
      rw [hstore]
      rfl
  | _ => exact iff_of_false (fun h => by cases h) (by rintro ⟨_, ⟨_, ⟨⟩, -⟩, -⟩)

theorem map_ok_iff {α β ε : Type*} {f : α → β} {e : Except ε α} {b : β} :
    e.map f = .ok b ↔ ∃ a, e = .ok a ∧ f a = b := by
  cases e with
  | error message => exact iff_of_false (fun h => by cases h) (by rintro ⟨_, ⟨⟩, -⟩)
  | ok a =>
    constructor
    · intro h
      exact ⟨a, rfl, Except.ok.inj h⟩
    · rintro ⟨_, ⟨⟩, rfl⟩
      rfl

/-- A loop succeeds if each of its elements is accepted. -/
theorem collect_ok_iff {α β : Type*} {item : ℕ → α → Except Bytes β} {P : α → β → Prop}
    (h : ∀ i a b, item i a = .ok b ↔ P a b) {elems : List α} {values : List β} (i : ℕ) :
    collect item i elems = .ok values ↔ List.Forall₂ P elems values := by
  induction elems generalizing values i with
  | nil =>
    constructor
    · intro hok
      obtain rfl := Except.ok.inj hok
      exact .nil
    · rintro ⟨⟩
      rfl
  | cons a rest ih =>
    rw [collect]
    cases hitem : item i a with
    | error message =>
      refine iff_of_false (fun hok => by cases hok) ?_
      rintro (_ | ⟨ha, -⟩)
      rw [(h i a _).mpr ha] at hitem
      cases hitem
    | ok b =>
      dsimp only
      rw [map_ok_iff]
      constructor
      · rintro ⟨tail, hrest, rfl⟩
        exact .cons ((h i a b).mp hitem) ((ih (i + 1)).mp hrest)
      · rintro (_ | ⟨ha, hrest⟩)
        have hb := (h i a _).mpr ha
        rw [hitem] at hb
        obtain rfl := Except.ok.inj hb
        exact ⟨_, (ih (i + 1)).mpr hrest, rfl⟩

theorem extractPattern_ok_iff (regcomp : CString → Except Bytes Regex) (key : String) (i : ℕ)
    (dat : TomlDatum) (re : Regex) :
    extractPattern regcomp key i dat = .ok re ↔ dat.IsPattern regcomp re := by
  cases dat with
  | string bytes =>
    rw [extractPattern]
    constructor
    · intro h
      split at h
      · cases h
      · rename_i hcomp
        obtain rfl := Except.ok.inj h
        exact ⟨_, ⟨bytes, rfl, rfl⟩, hcomp⟩
    · rintro ⟨_, ⟨_, ⟨⟩, rfl⟩, hcomp⟩
      rw [hcomp]
  | _ => exact iff_of_false (fun h => by cases h) (by rintro ⟨_, ⟨_, ⟨⟩, -⟩, -⟩)

/-- An option with an array whose elements are collected. -/
theorem reads_array {β : Type*} {item : ℕ → TomlDatum → Except Bytes β}
    {P : TomlDatum → β → Prop} (h : ∀ i a b, item i a = .ok b ↔ P a b)
    {store : Option (List β) → σ → σ} (hmissing : ∀ s, store none s = s)
    {f : String → List TomlDatum → σ → Except Bytes σ}
    (hf : ∀ elems s, f key elems s =
      (collect item 0 elems).map fun values => store (some values) s) :
    ConfigOption.Reads ⟨key, .array f⟩ (TomlDatum.IsArray P) store := by
  refine ⟨hmissing, fun dat s s' => ?_⟩
  cases dat with
  | array elems =>
    have htake : ConfigOption.take ⟨key, .array f⟩ (.array elems) s =
        (collect item 0 elems).map fun values => store (some values) s := hf elems s
    rw [htake, map_ok_iff]
    constructor
    · rintro ⟨values, hcollect, rfl⟩
      exact ⟨values, ⟨elems, rfl, (collect_ok_iff h 0).mp hcollect⟩, rfl⟩
    · rintro ⟨values, ⟨_, ⟨⟩, hvalues⟩, rfl⟩
      exact ⟨values, (collect_ok_iff h 0).mpr hvalues, rfl⟩
  | _ => exact iff_of_false (fun h => by cases h) (by rintro ⟨_, ⟨_, ⟨⟩, -⟩, -⟩)

theorem reads_patterns (regcomp : CString → Except Bytes Regex) {append : List Regex → σ → σ}
    {store : Option (List Regex) → σ → σ} (hmissing : ∀ s, store none s = s)
    (hstore : ∀ patterns s, store (some patterns) s = append patterns s) :
    ConfigOption.Reads ⟨key, extractPatternArray regcomp append⟩
      (TomlDatum.IsPatterns regcomp) store :=
  reads_array (extractPattern_ok_iff regcomp key) hmissing fun _ s =>
    congrArg (Except.map · _) (funext fun patterns => (hstore patterns s).symm)

theorem configExtract_nil {table : TomlDatum} {s s' : σ} :
    configExtract table [] s = .ok s' ↔ s = s' :=
  ⟨Except.ok.inj, congrArg _⟩

end Values

/-! ## Settings -/

/-- What is set for a seat. -/
structure SeatSettings where
  name : CString
  regular : Option Bool
  primary : Option Bool

structure ToplevelSettings where
  titles : Option (List Regex)
  appIds : Option (List Regex)
  allowedMimeTypes : Option (List Regex)
  blockedMimeTypes : Option (List Regex)
  transientMimeTypes : Option (List Regex)

/-- What is set; patterns stand for what they match. -/
structure Settings where
  maxEntries : Option ℕ
  maxSize : Option ℕ
  persist : Option Bool
  regular : Option Bool
  primary : Option Bool
  setOnStartup : Option Bool
  dedup : Option Dedup
  logfile : Option CString
  db : Option CString
  seats : Option (List SeatSettings)
  allowedMimeTypes : Option (List Regex)
  blockedMimeTypes : Option (List Regex)
  transientMimeTypes : Option (List Regex)
  toplevels : Option (List ToplevelSettings)

/-! ### What they configure -/

/-- A seat is as any seat where nothing else is set for it. -/
def SeatSettings.config (regular primary : Bool) (seat : SeatSettings) : ConfigSeat :=
  ⟨some seat.name, seat.regular.getD regular, seat.primary.getD primary⟩

def ToplevelSettings.config (tp : ToplevelSettings) : ConfigToplevel where
  titles := tp.titles.getD []
  appIds := tp.appIds.getD []
  allowedMimeTypes := tp.allowedMimeTypes.getD []
  blockedMimeTypes := tp.blockedMimeTypes.getD []
  transientMimeTypes := tp.transientMimeTypes.getD []

/-- The configuration, with the defaults of `config_init`. -/
def Settings.config (s : Settings) : ConfigFile where
  maxEntries := s.maxEntries.getD 100
  maxSize := s.maxSize.getD 20000000
  persist := s.persist.getD true
  regular := s.regular.getD true
  primary := s.primary.getD true
  setOnStartup := s.setOnStartup.getD true
  dedup := s.dedup.getD .all
  logfile := s.logfile
  db := s.db
  configuredSeats := (s.seats.getD []).map
    (SeatSettings.config (s.regular.getD true) (s.primary.getD true))
  allowedMimeTypes := s.allowedMimeTypes.getD []
  blockedMimeTypes := s.blockedMimeTypes.getD []
  transientMimeTypes := s.transientMimeTypes.getD []
  configuredToplevels := (s.toplevels.getD []).map ToplevelSettings.config

/-! ### Where they are shown -/

namespace TomlDatum

/-- The word for a setting of `dedup`. -/
def dedupWord : Dedup → String
  | .none => "none"
  | .prev => "prev"
  | .all => "all"

def IsDedup (dat : TomlDatum) (dedup : Dedup) : Prop :=
  ∃ bytes, dat = .string bytes ∧ (CString.ofBytes bytes).bytes = ascii (dedupWord dedup).toList

/-- One field of the table of seats. -/
def IsSeat (field : Bytes × TomlDatum) (seat : SeatSettings) : Prop :=
  ∃ fields, field.2 = .table fields ∧ CString.ofBytes field.1 = seat.name ∧
    Option.Rel IsFlag (seek "regular" (.table fields)) seat.regular ∧
    Option.Rel IsFlag (seek "primary" (.table fields)) seat.primary

def IsSeats (dat : TomlDatum) (seats : List SeatSettings) : Prop :=
  ∃ fields, dat = .table fields ∧ List.Forall₂ IsSeat fields seats

section Patterns
variable (regcomp : CString → Except Bytes Regex)

structure IsToplevel (dat : TomlDatum) (tp : ToplevelSettings) : Prop where
  table : ∃ fields, dat = .table fields
  titles : Option.Rel (IsPatterns regcomp) (dat.seek "titles") tp.titles
  appIds : Option.Rel (IsPatterns regcomp) (dat.seek "app_ids") tp.appIds
  allowed : Option.Rel (IsPatterns regcomp) (dat.seek "allowed_mime_types") tp.allowedMimeTypes
  blocked : Option.Rel (IsPatterns regcomp) (dat.seek "blocked_mime_types") tp.blockedMimeTypes
  transient :
    Option.Rel (IsPatterns regcomp) (dat.seek "transient_mime_types") tp.transientMimeTypes

/-- The file shows the settings, each at its key. -/
structure Shows (toptab : TomlDatum) (s : Settings) : Prop where
  maxEntries : Option.Rel IsNumber (toptab.seek "daemon.max_entries") s.maxEntries
  maxSize : Option.Rel IsNumber (toptab.seek "daemon.max_size") s.maxSize
  persist : Option.Rel IsFlag (toptab.seek "daemon.persist") s.persist
  regular : Option.Rel IsFlag (toptab.seek "daemon.regular") s.regular
  primary : Option.Rel IsFlag (toptab.seek "daemon.primary") s.primary
  setOnStartup : Option.Rel IsFlag (toptab.seek "daemon.set_on_startup") s.setOnStartup
  dedup : Option.Rel IsDedup (toptab.seek "daemon.dedup") s.dedup
  logfile : Option.Rel IsText (toptab.seek "daemon.logfile") s.logfile
  db : Option.Rel IsText (toptab.seek "daemon.db") s.db
  seats : Option.Rel IsSeats (toptab.seek "daemon.seats") s.seats
  allowed :
    Option.Rel (IsPatterns regcomp) (toptab.seek "daemon.mime_types.allowed") s.allowedMimeTypes
  blocked :
    Option.Rel (IsPatterns regcomp) (toptab.seek "daemon.mime_types.blocked") s.blockedMimeTypes
  transient : Option.Rel (IsPatterns regcomp) (toptab.seek "daemon.mime_types.transient")
    s.transientMimeTypes
  toplevels : Option.Rel (IsArray (IsToplevel regcomp)) (toptab.seek "daemon.toplevels")
    s.toplevels

end Patterns

end TomlDatum

/-! ## Reading settings -/

namespace ConfigFile
open TomlDatum

theorem reads_dedup : ConfigOption.Reads ⟨"daemon.dedup", extractDedup⟩ IsDedup
    fun value config => { config with dedup := value.getD config.dedup } := by
  refine ⟨fun _ => rfl, fun dat config config' => ?_⟩
  cases dat with
  | string bytes =>
    have htake : ConfigOption.take ⟨"daemon.dedup", extractDedup⟩ (.string bytes) config =
        if (CString.ofBytes bytes).bytes = ascii (dedupWord .none).toList then
          .ok { config with dedup := .none }
        else if (CString.ofBytes bytes).bytes = ascii (dedupWord .prev).toList then
          .ok { config with dedup := .prev }
        else if (CString.ofBytes bytes).bytes = ascii (dedupWord .all).toList then
          .ok { config with dedup := .all }
        else .error (unknownDedup (CString.ofBytes bytes)) := rfl
    rw [htake]
    constructor
    · intro h
      split at h
      · exact ⟨.none, ⟨bytes, rfl, ‹_›⟩, Except.ok.inj h⟩
      · split at h
        · exact ⟨.prev, ⟨bytes, rfl, ‹_›⟩, Except.ok.inj h⟩
        · split at h
          · exact ⟨.all, ⟨bytes, rfl, ‹_›⟩, Except.ok.inj h⟩
          · cases h
    · rintro ⟨dedup, ⟨_, ⟨⟩, hword⟩, rfl⟩
      rw [hword]
      cases dedup <;> rfl
  | _ => exact iff_of_false (fun h => by cases h) (by rintro ⟨_, ⟨_, ⟨⟩, -⟩, -⟩)

theorem extractSeat_ok_iff (key : String) (regular primary : Bool) (field : Bytes × TomlDatum)
    (seat : ConfigSeat) : extractSeat key regular primary field = .ok seat ↔
      ∃ settings, IsSeat field settings ∧ settings.config regular primary = seat := by
  have hregular : ConfigOption.Reads ⟨"regular", configExtractBoolean fun b seat =>
      { seat with regular := b }⟩ IsFlag
      fun value (seat : ConfigSeat) => { seat with regular := value.getD seat.regular } :=
    reads_flag (fun _ => rfl) fun _ _ => rfl
  have hprimary : ConfigOption.Reads ⟨"primary", configExtractBoolean fun b seat =>
      { seat with primary := b }⟩ IsFlag
      fun value (seat : ConfigSeat) => { seat with primary := value.getD seat.primary } :=
    reads_flag (fun _ => rfl) fun _ _ => rfl
  obtain ⟨name, dat⟩ := field
  cases dat with
  | table fields =>
    have hextract : extractSeat key regular primary (name, .table fields) =
        configExtract (.table fields) seatOptions
          ⟨some (CString.ofBytes name), regular, primary⟩ := rfl
    rw [hextract, seatOptions, hregular.cons_ok]
    simp only [hprimary.cons_ok, configExtract_nil]
    constructor
    · rintro ⟨regular', hregular', primary', hprimary', rfl⟩
      exact ⟨⟨_, regular', primary'⟩, ⟨fields, rfl, rfl, hregular', hprimary'⟩, rfl⟩
    · rintro ⟨⟨_, regular', primary'⟩, ⟨_, ⟨⟩, rfl, hregular', hprimary'⟩, rfl⟩
      exact ⟨regular', hregular', primary', hprimary', rfl⟩
  | _ => exact iff_of_false (fun h => by cases h) (by rintro ⟨_, ⟨_, ⟨⟩, -⟩, -⟩)

/-- Values that are related by way of settings. -/
theorem forall₂_exists {α β γ : Type*} {P : α → β → Prop} {f : β → γ} {xs : List α}
    {zs : List γ} : List.Forall₂ (fun x z => ∃ y, P x y ∧ f y = z) xs zs ↔
      ∃ ys, List.Forall₂ P xs ys ∧ ys.map f = zs := by
  constructor
  · intro h
    induction h with
    | nil => exact ⟨[], .nil, rfl⟩
    | cons hfirst _ ih =>
      obtain ⟨y, hy, rfl⟩ := hfirst
      obtain ⟨ys, hys, rfl⟩ := ih
      exact ⟨y :: ys, .cons hy hys, rfl⟩
  · rintro ⟨ys, h, rfl⟩
    exact List.forall₂_map_right_iff.mpr (h.imp fun x y hxy => ⟨y, hxy, rfl⟩)

theorem reads_seats : ConfigOption.Reads ⟨"daemon.seats", extractConfiguredSeats⟩ IsSeats
    fun value config => { config with
      configuredSeats := config.configuredSeats ++
        (value.getD []).map (SeatSettings.config config.regular config.primary) } := by
  refine ⟨fun config => ?_, fun dat config config' => ?_⟩
  · simp
  cases dat with
  | table fields =>
    have htake : ConfigOption.take ⟨"daemon.seats", extractConfiguredSeats⟩ (.table fields) config =
        (collect (fun _ => extractSeat "daemon.seats" config.regular config.primary) 0 fields).map
          fun seats => { config with configuredSeats := config.configuredSeats ++ seats } := rfl
    have hseats : ∀ seats, collect (fun _ => extractSeat "daemon.seats" config.regular
        config.primary) 0 fields = .ok seats ↔ ∃ settings, List.Forall₂ IsSeat fields settings ∧
          settings.map (SeatSettings.config config.regular config.primary) = seats := fun seats =>
      (collect_ok_iff (fun _ => extractSeat_ok_iff _ _ _) 0).trans forall₂_exists
    rw [htake, map_ok_iff]
    simp only [hseats]
    constructor
    · rintro ⟨_, ⟨settings, hshown, rfl⟩, rfl⟩
      exact ⟨settings, ⟨fields, rfl, hshown⟩, rfl⟩
    · rintro ⟨settings, ⟨_, ⟨⟩, hshown⟩, rfl⟩
      exact ⟨_, ⟨settings, hshown, rfl⟩, rfl⟩
  | _ => exact iff_of_false (fun h => by cases h) (by rintro ⟨_, ⟨_, ⟨⟩, -⟩, -⟩)

section Patterns
variable {regcomp : CString → Except Bytes Regex}

theorem extractConfigToplevel_ok_iff (key : String) (i : ℕ) (dat : TomlDatum)
    (tp : ConfigToplevel) : extractConfigToplevel regcomp key i dat = .ok tp ↔
      ∃ settings, dat.IsToplevel regcomp settings ∧ settings.config = tp := by
  have htitles : ConfigOption.Reads ⟨"titles", extractPatternArray regcomp fun patterns tp =>
      { tp with titles := tp.titles ++ patterns }⟩ (IsPatterns regcomp)
      fun value (tp : ConfigToplevel) => { tp with titles := tp.titles ++ value.getD [] } :=
    reads_patterns regcomp (fun _ => by simp) fun _ _ => rfl
  have happIds : ConfigOption.Reads ⟨"app_ids", extractPatternArray regcomp fun patterns tp =>
      { tp with appIds := tp.appIds ++ patterns }⟩ (IsPatterns regcomp)
      fun value (tp : ConfigToplevel) => { tp with appIds := tp.appIds ++ value.getD [] } :=
    reads_patterns regcomp (fun _ => by simp) fun _ _ => rfl
  have hallowed : ConfigOption.Reads ⟨"allowed_mime_types",
      extractPatternArray regcomp fun patterns tp =>
        { tp with allowedMimeTypes := tp.allowedMimeTypes ++ patterns }⟩ (IsPatterns regcomp)
      fun value (tp : ConfigToplevel) =>
        { tp with allowedMimeTypes := tp.allowedMimeTypes ++ value.getD [] } :=
    reads_patterns regcomp (fun _ => by simp) fun _ _ => rfl
  have hblocked : ConfigOption.Reads ⟨"blocked_mime_types",
      extractPatternArray regcomp fun patterns tp =>
        { tp with blockedMimeTypes := tp.blockedMimeTypes ++ patterns }⟩ (IsPatterns regcomp)
      fun value (tp : ConfigToplevel) =>
        { tp with blockedMimeTypes := tp.blockedMimeTypes ++ value.getD [] } :=
    reads_patterns regcomp (fun _ => by simp) fun _ _ => rfl
  have htransient : ConfigOption.Reads ⟨"transient_mime_types",
      extractPatternArray regcomp fun patterns tp =>
        { tp with transientMimeTypes := tp.transientMimeTypes ++ patterns }⟩ (IsPatterns regcomp)
      fun value (tp : ConfigToplevel) =>
        { tp with transientMimeTypes := tp.transientMimeTypes ++ value.getD [] } :=
    reads_patterns regcomp (fun _ => by simp) fun _ _ => rfl
  cases dat with
  | table fields =>
    have hextract : extractConfigToplevel regcomp key i (.table fields) =
        configExtract (.table fields) (toplevelOptions regcomp) ⟨⟨[], [], []⟩, [], []⟩ := rfl
    rw [hextract, toplevelOptions, htitles.cons_ok]
    simp only [happIds.cons_ok, hallowed.cons_ok, hblocked.cons_ok, htransient.cons_ok,
      configExtract_nil]
    constructor
    · rintro ⟨titles, htitles, appIds, happIds, allowed, hallowed, blocked, hblocked, transient,
        htransient, rfl⟩
      exact ⟨⟨titles, appIds, allowed, blocked, transient⟩,
        ⟨⟨fields, rfl⟩, htitles, happIds, hallowed, hblocked, htransient⟩, rfl⟩
    · rintro ⟨settings, hshown, rfl⟩
      exact ⟨_, hshown.titles, _, hshown.appIds, _, hshown.allowed, _, hshown.blocked, _,
        hshown.transient, rfl⟩
  | _ => exact iff_of_false (fun h => by cases h) (by rintro ⟨_, ⟨⟨_, ⟨⟩⟩, -⟩, -⟩)

theorem reads_toplevels : ConfigOption.Reads ⟨"daemon.toplevels", extractToplevel regcomp⟩
    (IsArray (IsToplevel regcomp)) fun value config => { config with
      configuredToplevels :=
        config.configuredToplevels ++ (value.getD []).map ToplevelSettings.config } := by
  refine ⟨fun config => ?_, fun dat config config' => ?_⟩
  · simp
  cases dat with
  | array elems =>
    have htake : ConfigOption.take ⟨"daemon.toplevels", extractToplevel regcomp⟩ (.array elems)
        config = (collect (extractConfigToplevel regcomp "daemon.toplevels") 0 elems).map
          fun toplevels =>
            { config with configuredToplevels := config.configuredToplevels ++ toplevels } := rfl
    have htoplevels : ∀ toplevels,
        collect (extractConfigToplevel regcomp "daemon.toplevels") 0 elems = .ok toplevels ↔
          ∃ settings, List.Forall₂ (IsToplevel regcomp) elems settings ∧
            settings.map ToplevelSettings.config = toplevels := fun toplevels =>
      (collect_ok_iff (extractConfigToplevel_ok_iff _) 0).trans forall₂_exists
    rw [htake, map_ok_iff]
    simp only [htoplevels]
    constructor
    · rintro ⟨_, ⟨settings, hshown, rfl⟩, rfl⟩
      exact ⟨settings, ⟨elems, rfl, hshown⟩, rfl⟩
    · rintro ⟨settings, ⟨_, ⟨⟩, hshown⟩, rfl⟩
      exact ⟨_, ⟨settings, hshown, rfl⟩, rfl⟩
  | _ => exact iff_of_false (fun h => by cases h) (by rintro ⟨_, ⟨_, ⟨⟩, -⟩, -⟩)

/-- `config_init` accepts the files that show some settings, and configures these. -/
theorem configInit_ok_iff (regcomp : CString → Except Bytes Regex) (toptab : TomlDatum)
    (config : ConfigFile) : configInit regcomp (.ok toptab) = .ok config ↔
      ∃ settings : Settings, toptab.Shows regcomp settings ∧ settings.config = config := by
  have hmaxEntries : ConfigOption.Reads ⟨"daemon.max_entries", configExtractInt64Pos fun n config =>
      { config with maxEntries := n }⟩ IsNumber
      fun value (config : ConfigFile) => { config with
        maxEntries := value.getD config.maxEntries } :=
    reads_number (fun _ => rfl) fun _ _ => rfl
  have hmaxSize : ConfigOption.Reads ⟨"daemon.max_size", configExtractInt64Pos fun n config =>
      { config with maxSize := n }⟩ IsNumber
      fun value (config : ConfigFile) => { config with maxSize := value.getD config.maxSize } :=
    reads_number (fun _ => rfl) fun _ _ => rfl
  have hpersist : ConfigOption.Reads ⟨"daemon.persist", configExtractBoolean fun b config =>
      { config with persist := b }⟩ IsFlag
      fun value (config : ConfigFile) => { config with persist := value.getD config.persist } :=
    reads_flag (fun _ => rfl) fun _ _ => rfl
  have hregular : ConfigOption.Reads ⟨"daemon.regular", configExtractBoolean fun b config =>
      { config with regular := b }⟩ IsFlag
      fun value (config : ConfigFile) => { config with regular := value.getD config.regular } :=
    reads_flag (fun _ => rfl) fun _ _ => rfl
  have hprimary : ConfigOption.Reads ⟨"daemon.primary", configExtractBoolean fun b config =>
      { config with primary := b }⟩ IsFlag
      fun value (config : ConfigFile) => { config with primary := value.getD config.primary } :=
    reads_flag (fun _ => rfl) fun _ _ => rfl
  have hsetOnStartup : ConfigOption.Reads ⟨"daemon.set_on_startup",
      configExtractBoolean fun b config => { config with setOnStartup := b }⟩ IsFlag
      fun value (config : ConfigFile) => { config with
        setOnStartup := value.getD config.setOnStartup } :=
    reads_flag (fun _ => rfl) fun _ _ => rfl
  have hlogfile : ConfigOption.Reads ⟨"daemon.logfile", configExtractString fun str config =>
      { config with logfile := some str }⟩ IsText
      fun value (config : ConfigFile) => { config with
        logfile := (value.map some).getD config.logfile } :=
    reads_text (fun _ => rfl) fun _ _ => rfl
  have hdb : ConfigOption.Reads ⟨"daemon.db", configExtractString fun str config =>
      { config with db := some str }⟩ IsText
      fun value (config : ConfigFile) => { config with db := (value.map some).getD config.db } :=
    reads_text (fun _ => rfl) fun _ _ => rfl
  have hallowed : ConfigOption.Reads ⟨"daemon.mime_types.allowed",
      extractPatternArray regcomp fun patterns config =>
        { config with allowedMimeTypes := config.allowedMimeTypes ++ patterns }⟩
      (IsPatterns regcomp) fun value (config : ConfigFile) => { config with
        allowedMimeTypes := config.allowedMimeTypes ++ value.getD [] } :=
    reads_patterns regcomp (fun _ => by simp) fun _ _ => rfl
  have hblocked : ConfigOption.Reads ⟨"daemon.mime_types.blocked",
      extractPatternArray regcomp fun patterns config =>
        { config with blockedMimeTypes := config.blockedMimeTypes ++ patterns }⟩
      (IsPatterns regcomp) fun value (config : ConfigFile) => { config with
        blockedMimeTypes := config.blockedMimeTypes ++ value.getD [] } :=
    reads_patterns regcomp (fun _ => by simp) fun _ _ => rfl
  have htransient : ConfigOption.Reads ⟨"daemon.mime_types.transient",
      extractPatternArray regcomp fun patterns config =>
        { config with transientMimeTypes := config.transientMimeTypes ++ patterns }⟩
      (IsPatterns regcomp) fun value (config : ConfigFile) => { config with
        transientMimeTypes := config.transientMimeTypes ++ value.getD [] } :=
    reads_patterns regcomp (fun _ => by simp) fun _ _ => rfl
  have hinit : configInit regcomp (.ok toptab) = configExtract toptab (options regcomp)
      ⟨Swayclip.configInit, none, none, []⟩ := rfl
  rw [hinit, options, hmaxEntries.cons_ok]
  simp only [hmaxSize.cons_ok, hpersist.cons_ok, hregular.cons_ok, hprimary.cons_ok,
    hsetOnStartup.cons_ok, reads_dedup.cons_ok, hlogfile.cons_ok, hdb.cons_ok,
    reads_seats.cons_ok, hallowed.cons_ok, hblocked.cons_ok, htransient.cons_ok,
    reads_toplevels.cons_ok, configExtract_nil]
  constructor
  · rintro ⟨maxEntries, h₁, maxSize, h₂, persist, h₃, regular, h₄, primary, h₅, setOnStartup, h₆,
      dedup, h₇, logfile, h₈, db, h₉, seats, h₁₀, allowed, h₁₁, blocked, h₁₂, transient, h₁₃,
      toplevels, h₁₄, rfl⟩
    refine ⟨⟨maxEntries, maxSize, persist, regular, primary, setOnStartup, dedup, logfile, db,
      seats, allowed, blocked, transient, toplevels⟩,
      ⟨h₁, h₂, h₃, h₄, h₅, h₆, h₇, h₈, h₉, h₁₀, h₁₁, h₁₂, h₁₃, h₁₄⟩, ?_⟩
    cases logfile <;> cases db <;> rfl
  · rintro ⟨settings, hshown, rfl⟩
    refine ⟨_, hshown.maxEntries, _, hshown.maxSize, _, hshown.persist, _, hshown.regular, _,
      hshown.primary, _, hshown.setOnStartup, _, hshown.dedup, _, hshown.logfile, _, hshown.db, _,
      hshown.seats, _, hshown.allowed, _, hshown.blocked, _, hshown.transient, _,
      hshown.toplevels, ?_⟩
    obtain ⟨_, _, _, _, _, _, _, logfile, db, _, _, _, _, _⟩ := settings
    cases logfile <;> cases db <;> rfl

end Patterns

end ConfigFile

end Swayclip

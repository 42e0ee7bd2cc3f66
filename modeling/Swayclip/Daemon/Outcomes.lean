import Swayclip.Daemon.Frame
import Swayclip.Database.Store

/-! # What becomes of a selection event

A non-transient event fails, is ignored, moves an old entry or adds a new one. The verdict
is about the tables before the event, while the code takes it with the new row already in
place; the transaction is then committed or rolled back, and a move is replayed after the
rollback.
-/

namespace Swayclip
open Library.Ranking Tables

/-- What becomes of content that has been received whole. -/
inductive Verdict where
  | add
  | move (id pos : ℤ)
  | ignore
deriving DecidableEq

/-- The verdict, from the tables before the event. -/
def verdict (dedup : Dedup) (hash : Digest) (t : Tables) : Verdict :=
  match dedup, t.entryHashPos hash with
  | .none, _ => .add
  | _, none => .add
  | .prev, some (_, pos) => if pos = 0 then .ignore else .add
  | .all, some (id, pos) => if pos = 0 then .ignore else .move id pos

/-! ## Receiving -/

/-- A call that reports success has stored the type. -/
theorem databaseNewMimeType_true {okData okMime : Bool} {id : ℤ} {m : CString} {data : Bytes}
    {db : Database} (h : (databaseNewMimeType okData okMime id m (sha256 data) data db).1 = true) :
    ∃ t, db.tables.storeType id (m, data) = some t ∧
      databaseNewMimeType okData okMime id m (sha256 data) data db =
        (true, { db with tables := t }) := by
  unfold databaseNewMimeType storeType at *
  by_cases hempty : data = []
  · simp only [hempty, if_true] at h ⊢
    exact Database.exec_true h
  · simp only [hempty, if_false] at h ⊢
    cases okData with
    | false => simp [databaseNewData, Database.exec] at h
    | true => exact Database.exec_true h

theorem databaseNewMimeType_ok {id : ℤ} {m : CString} {data : Bytes} {db : Database} {t : Tables}
    (h : db.tables.storeType id (m, data) = some t) :
    databaseNewMimeType true true id m (sha256 data) data db =
      (true, { db with tables := t }) := by
  unfold databaseNewMimeType
  unfold storeType at h
  by_cases hempty : data = []
  · simp only [hempty, if_true] at h ⊢
    exact Database.exec_ok h
  · simp only [hempty, if_false] at h ⊢
    change Database.exec true _ { db with tables := db.tables.newData (sha256 data) data } = _
    exact Database.exec_ok h

@[simp] theorem Receiving.noteContent_db (m : CString) (r : Receiving) :
    (r.noteContent m).db = r.db := by
  simp only [noteContent]
  split <;> split <;> rfl

@[simp] theorem Receiving.noteContent_shaCtx (m : CString) (r : Receiving) :
    (r.noteContent m).shaCtx = r.shaCtx := by
  simp only [noteContent]
  split <;> split <;> rfl

section Loop
variable {config : Config} {sql : Sql} {written : ℕ → Option Bytes} {id : ℤ} {i : ℕ}
  {mimeTypes : List CString} {r : Receiving}

/-- The loop leaves the transaction as it is. -/
theorem receiveMimeTypes_saved :
    (receiveMimeTypes config sql written id i mimeTypes r).2.db.saved = r.db.saved := by
  induction mimeTypes generalizing i r with
  | nil => rfl
  | cons m mimeTypes ih =>
    rw [receiveMimeTypes]
    split
    · rfl
    · dsimp only
      split
      · simp
      · rw [ih]
        simp

/-- A loop that got through has stored the content that was received, and has hashed it. -/
theorem receiveMimeTypes_true {r' : Receiving}
    (h : receiveMimeTypes config sql written id i mimeTypes r = (true, r')) :
    ∃ content : Content, receiveAll config written i mimeTypes = some content ∧
      r.db.tables.storeContent id content = some r'.db.tables ∧
      r'.shaCtx = Sha256.update r.shaCtx content.hashed := by
  induction mimeTypes generalizing i r with
  | nil =>
    obtain ⟨-, rfl⟩ := Prod.mk.inj h
    exact ⟨[], rfl, rfl, rfl⟩
  | cons m mimeTypes ih =>
    rw [receiveMimeTypes] at h
    split at h
    · cases h
    · rename_i data hdata
      dsimp only at h
      split at h
      · cases h
      · rename_i hret
        have hcall := databaseNewMimeType_true (by simpa using hret)
        obtain ⟨t, ht, hcall⟩ := hcall
        rw [hcall] at h
        obtain ⟨content, hrest, hstore, hsha⟩ := ih h
        refine ⟨(m, data) :: content, ?_, ?_, ?_⟩
        · simp [receiveAll, hdata, hrest]
        · rw [Receiving.noteContent_db] at hstore
          rw [storeContent, ht, Option.bind_some, hstore]
        · rw [hsha, Receiving.noteContent_shaCtx]
          simp only [Content.hashed, List.flatMap_cons, Sha256.update_append]

/-- When nothing fails, the loop gets through exactly if everything can be received. -/
theorem receiveMimeTypes_ok (config : Config) (written : ℕ → Option Bytes) (i : ℕ)
    (mimeTypes : List CString) {r : Receiving} (hid : r.db.tables.idExists id = true) :
    (receiveMimeTypes config allOk written id i mimeTypes r).1 =
      (receiveAll config written i mimeTypes).isSome := by
  induction mimeTypes generalizing i r with
  | nil => rfl
  | cons m mimeTypes ih =>
    rw [receiveMimeTypes, receiveAll]
    split
    · rfl
    · rename_i data hdata
      obtain ⟨t, ht, hs, -, -⟩ := storeType_spec hid (m, data)
      have hcall := databaseNewMimeType_ok ht
      simp only [allOk, hcall, Bool.not_true, Bool.false_eq_true, if_false, Option.isSome_map]
      exact ih _ (by rw [Receiving.noteContent_db]; exact (hs.idExists id).trans hid)

end Loop

/-! ## The transaction -/

/-- How the transaction on the tables `t` ends. -/
inductive Ended (config : Config) (now : ℤ) (received : Option Content) (t : Tables) :
    Outcome → Tables → Prop
  | added {o : Outcome} {t' : Tables} {content : Content} (hreceived : received = some content)
      (hadd : t.addEntry now content = some t') (hret : o.ret = true) (hmoved : o.moved = false)
      (hignore : o.ignore = false) (hid : o.id = t.nextId) : Ended config now received t o t'
  | moved {o : Outcome} {t' : Tables} {content : Content} (hreceived : received = some content)
      (hverdict : verdict config.dedup content.hash t = .move o.id o.oldPos)
      (hret : o.ret = false) (hmoved : o.moved = true) (hignore : o.ignore = false) :
      Ended config now received t o t'
  | ignored {o : Outcome} {t' : Tables} {content : Content} (hreceived : received = some content)
      (hverdict : verdict config.dedup content.hash t = .ignore) (hret : o.ret = false)
      (hmoved : o.moved = false) (hignore : o.ignore = true) : Ended config now received t o t'
  | failed {o : Outcome} {t' : Tables} (hret : o.ret = false) (hmoved : o.moved = false)
      (hignore : o.ignore = false) : Ended config now received t o t'

theorem nextId_pos {t : Tables} (h : t.WF) : 0 < t.nextId :=
  lt_of_le_of_lt h.seqNonneg (seq_lt_nextId t)

/-- The id of a new row is not the one that stands for no row. -/
theorem nextId_ne {t : Tables} (h : t.WF) : t.nextId ≠ -1 :=
  ne_of_gt (lt_trans (by decide) (nextId_pos h))

section Dedup
variable {t t₁ : Tables} {hash : Digest} {now : ℤ}

/-- The position that the code compensates for. -/
theorem entryHashPos_inProgress (hs : Stored t.nextId (t.newEntry now) t₁) (hash : Digest) :
    t₁.entryHashPos hash = (t.entryHashPos hash).map (fun p => (p.1, p.2 + 1)) := by
  rw [← entryHashPos_newEntry t now hash, entryHashPos, hs.entries, entryHashPos]

theorem databaseEntryHashPos_inProgress {db : Database}
    (hs : Stored t.nextId (t.newEntry now) db.tables) (ok : Bool) (hash : Digest) :
    databaseEntryHashPos ok hash db =
      if ok then (t.entryHashPos hash).map (fun p => (p.1, p.2 + 1)) else none := by
  rw [databaseEntryHashPos, entryHashPos_inProgress hs]

theorem databaseSetEntryHash_true {ok : Bool} {id : ℤ} (hid : id ≠ -1) {db : Database}
    (hd : Distinct Entry.id db.tables.entries) (hex : db.tables.idExists id = true)
    (h : (databaseSetEntryHash ok id hash db).1 = true) :
    (databaseSetEntryHash ok id hash db).2 =
      { db with tables := db.tables.takeHash id hash } := by
  rw [databaseSetEntryHash, if_neg hid] at h ⊢
  obtain ⟨t', ht', he⟩ := Database.exec_true h
  rw [he, ((saveEntryHash_take_iff hd hex hash).mp ht').2]

theorem databaseSetEntryHash_ok {id : ℤ} (hid : id ≠ -1) {db : Database}
    (hd : Distinct Entry.id db.tables.entries) (hex : db.tables.idExists id = true)
    (hno : ∀ e ∈ db.tables.entries, e.id ≠ id → e.hash ≠ some hash) :
    (databaseSetEntryHash true id hash db).1 = true := by
  rw [databaseSetEntryHash, if_neg hid,
    Database.exec_ok ((saveEntryHash_take_iff hd hex hash).mpr ⟨hno, rfl⟩)]

/-- The tables after `database_set_entry_hash` with id `-1`. -/
def clearHash (hash : Digest) (t : Tables) : Tables :=
  { t with entries := t.entries.map (fun e =>
      if e.hash = some hash then { e with hash := none } else e) }

theorem clearHash_free (hash : Digest) (t : Tables) :
    ∀ e ∈ (clearHash hash t).entries, e.hash ≠ some hash := by
  intro e he
  obtain ⟨x, -, rfl⟩ := List.mem_map.mp he
  by_cases hx : x.hash = some hash <;> simp [hx]

theorem databaseSetEntryHash_clear (ok : Bool) (db : Database) :
    databaseSetEntryHash ok (-1) hash db =
      if ok then (true, { db with tables := clearHash hash db.tables }) else (false, db) := by
  rw [databaseSetEntryHash, if_pos rfl]
  cases ok with
  | false => rfl
  | true => exact Database.exec_ok (saveEntryHash_clear db.tables hash)

variable {dedup : Dedup} {sql : Sql} {o : Outcome} {db : Database}

/-- The switch, with the row in progress in the tables. The hash is free afterwards if the
entry is to be added. -/
theorem deduplicate_cases (hs : Stored t.nextId (t.newEntry now) db.tables)
    (hmoved : o.moved = false) (hignore : o.ignore = false) {o' : Outcome} {db' : Database}
    (h : deduplicate dedup sql hash o db = (o', db')) :
    (o'.moved = false ∧ o'.ignore = false ∧ o'.id = o.id ∧ db'.saved = db.saved ∧
        (db'.tables = db.tables ∨ db'.tables = clearHash hash db.tables)) ∨
      (o'.ret = false ∧ o'.moved = true ∧ o'.ignore = false ∧ db' = db ∧
        verdict dedup hash t = .move o'.id o'.oldPos) ∨
      (o'.ret = false ∧ o'.moved = false ∧ o'.ignore = true ∧ db' = db ∧
        verdict dedup hash t = .ignore) := by
  have hclear : ∀ ok, (databaseSetEntryHash ok (-1) hash db).2.saved = db.saved ∧
      ((databaseSetEntryHash ok (-1) hash db).2.tables = db.tables ∨
        (databaseSetEntryHash ok (-1) hash db).2.tables = clearHash hash db.tables) := fun ok => by
    rw [databaseSetEntryHash_clear]
    cases ok
    · exact ⟨rfl, Or.inl rfl⟩
    · exact ⟨rfl, Or.inr rfl⟩
  cases dedup with
  | none =>
    obtain ⟨rfl, rfl⟩ := Prod.mk.inj h
    exact Or.inl ⟨hmoved, hignore, rfl, hclear _⟩
  | prev =>
    rw [deduplicate, databaseEntryHashPos_inProgress hs] at h
    split at h
    · obtain ⟨rfl, rfl⟩ := Prod.mk.inj h
      exact Or.inl ⟨hmoved, hignore, rfl, rfl, Or.inl rfl⟩
    · rename_i id pos hp
      obtain ⟨-, p, hdup, rfl⟩ : sql .entryHashPos 0 = true ∧
          ∃ p, t.entryHashPos hash = some (id, p) ∧ p + 1 = pos := by simpa using hp
      simp only [Int.add_sub_cancel] at h
      split at h
      · rename_i hzero
        obtain ⟨rfl, rfl⟩ := Prod.mk.inj h
        exact Or.inr (Or.inr ⟨rfl, hmoved, rfl, rfl, by simp [verdict, hdup, hzero]⟩)
      · split at h <;> obtain ⟨rfl, rfl⟩ := Prod.mk.inj h
        · exact Or.inl ⟨hmoved, hignore, rfl, hclear _⟩
        · exact Or.inl ⟨hmoved, hignore, rfl, rfl, Or.inl rfl⟩
  | all =>
    rw [deduplicate, databaseEntryHashPos_inProgress hs] at h
    split at h
    · obtain ⟨rfl, rfl⟩ := Prod.mk.inj h
      exact Or.inl ⟨hmoved, hignore, rfl, rfl, Or.inl rfl⟩
    · rename_i id pos hp
      obtain ⟨-, p, hdup, rfl⟩ : sql .entryHashPos 0 = true ∧
          ∃ p, t.entryHashPos hash = some (id, p) ∧ p + 1 = pos := by simpa using hp
      simp only [Int.add_sub_cancel] at h
      split at h <;> rename_i hzero <;> obtain ⟨rfl, rfl⟩ := Prod.mk.inj h
      · exact Or.inr (Or.inr ⟨rfl, hmoved, rfl, rfl, by simp [verdict, hdup, hzero]⟩)
      · exact Or.inr (Or.inl ⟨rfl, rfl, hignore, rfl, by simp [verdict, hdup, hzero]⟩)

/-- When nothing fails, content that is to be added leaves the switch with the hash free. -/
theorem deduplicate_add (hs : Stored t.nextId (t.newEntry now) db.tables)
    (h : verdict dedup hash t = .add) :
    (deduplicate dedup allOk hash o db).1.ret = true ∧
      ∀ e ∈ (deduplicate dedup allOk hash o db).2.tables.entries, e.hash ≠ some hash := by
  have hpos := databaseEntryHashPos_inProgress hs true hash
  have hcleared := clearHash_free hash db.tables
  have hfree : t.entryHashPos hash = none → ∀ e ∈ db.tables.entries, e.hash ≠ some hash := by
    intro hnone
    rw [← entryHashPos_eq_none, entryHashPos_inProgress hs, hnone, Option.map_none]
  cases dedup with
  | none =>
    simp only [deduplicate, databaseSetEntryHash_clear, allOk, if_true]
    exact ⟨trivial, hcleared⟩
  | prev =>
    simp only [deduplicate, allOk, hpos]
    cases hp : t.entryHashPos hash with
    | none => exact ⟨rfl, hfree hp⟩
    | some p =>
      obtain ⟨id, pos⟩ := p
      obtain ⟨x, -, -, -, hrank⟩ := entryHashPos_eq_some hp
      have hne : pos ≠ 0 := by
        rintro h0
        simp [verdict, hp, h0] at h
      have hpos' : pos > 0 := by omega
      simp only [Option.map_some, Int.add_sub_cancel, hne, if_false, hpos', if_true,
        databaseSetEntryHash_clear]
      exact ⟨trivial, hcleared⟩
  | all =>
    simp only [deduplicate, allOk, hpos]
    cases hp : t.entryHashPos hash with
    | none => exact ⟨rfl, hfree hp⟩
    | some p =>
      exfalso
      simp only [verdict, hp] at h
      split at h <;> cases h

/-- When nothing fails, a duplicate is recognised. -/
theorem deduplicate_duplicate (hs : Stored t.nextId (t.newEntry now) db.tables)
    (h : verdict dedup hash t ≠ .add) :
    (deduplicate dedup allOk hash o db).1.ret = false ∧
      ((∃ id pos, verdict dedup hash t = .move id pos) →
        (deduplicate dedup allOk hash o db).1.moved = true) ∧
      (verdict dedup hash t = .ignore → (deduplicate dedup allOk hash o db).1.ignore = true) := by
  have hpos := databaseEntryHashPos_inProgress hs true hash
  cases hp : t.entryHashPos hash with
  | none => cases dedup <;> simp [verdict, hp] at h
  | some p =>
    cases dedup with
    | none => simp [verdict] at h
    | prev =>
      by_cases h0 : p.2 = 0
      · simp [deduplicate, allOk, hpos, hp, verdict, h0]
      · simp [verdict, hp, h0] at h
    | all => by_cases h0 : p.2 = 0 <;> simp [deduplicate, allOk, hpos, hp, verdict, h0]

end Dedup

theorem clearHash_takeHash (t : Tables) (id : ℤ) (hash : Digest) :
    (clearHash hash t).takeHash id hash = t.takeHash id hash :=
  takeHash_clear t id hash

theorem clearHash_ids (t : Tables) (hash : Digest) :
    (clearHash hash t).entries.map Entry.id = t.entries.map Entry.id := by
  rw [clearHash, List.map_map]
  refine List.map_congr_left fun e _ => ?_
  dsimp only [Function.comp_apply]
  split <;> rfl

theorem idExists_iff_mem {t : Tables} {id : ℤ} :
    t.idExists id = true ↔ id ∈ t.entries.map Entry.id := by
  rw [idExists_iff, List.mem_map]

section Transaction
variable {config : Config} {a : Ambient} {written : ℕ → Option Bytes}
  {mimeTypes : List CString} {db : Database}

/-- The end of the transaction, once the content has been received and stored. -/
theorem settleEntry_ended (config : Config) {t : Tables} {now : ℤ} {content : Content} {sql : Sql}
    (h : t.WF)
    (hstore : (t.newEntry now).storeContent t.nextId content = some db.tables) {o o' : Outcome}
    (hmoved : o.moved = false) (hignore : o.ignore = false) (hid : o.id = t.nextId)
    {db' : Database} (he : settleEntry config.dedup sql content.hash o db = (o', db')) :
    db'.saved = db.saved ∧ Ended config now (some content) t o' db'.tables := by
  obtain ⟨t₁, h₁, hs, hadd⟩ := addEntry_eq t now content
  obtain rfl := Option.some.inj (h₁.symm.trans hstore)
  have hwf : db.tables.WF := storeContent_wf (newEntry_wf h now) hstore
  have hex : db.tables.idExists t.nextId = true := (hs.idExists _).trans (idExists_newEntry t now)
  have hne := nextId_ne h
  unfold settleEntry at he
  cases hd : deduplicate config.dedup sql content.hash o db with
  | mk o₁ db₁ =>
    simp only [hd] at he
    rcases deduplicate_cases hs hmoved hignore hd with
      ⟨hm, hi, hid₁, hsaved, htables⟩ | ⟨hr, hm, hi, rfl, hv⟩ | ⟨hr, hm, hi, rfl, hv⟩
    · cases hr : o₁.ret with
      | false =>
        rw [if_neg (by simp [hr])] at he
        obtain ⟨rfl, rfl⟩ := Prod.mk.inj he
        exact ⟨hsaved, .failed hr hm hi⟩
      | true =>
        rw [if_pos hr] at he
        obtain ⟨rfl, rfl⟩ := Prod.mk.inj he
        refine ⟨by rw [databaseSetEntryHash_saved, hsaved], ?_⟩
        cases hset : (databaseSetEntryHash (sql .saveEntryHash 1) o₁.id content.hash db₁).1 with
        | false => exact .failed rfl hm hi
        | true =>
          have hids : db₁.tables.entries.map Entry.id = db.tables.entries.map Entry.id := by
            rcases htables with ht | ht <;> rw [ht]
            exact clearHash_ids _ _
          have htake : db₁.tables.takeHash t.nextId content.hash =
              db.tables.takeHash t.nextId content.hash := by
            rcases htables with ht | ht <;> rw [ht]
            exact clearHash_takeHash _ _ _
          rw [hid₁, hid] at hset ⊢
          rw [databaseSetEntryHash_true hne (by rw [Distinct, hids]; exact hwf.idDistinct)
            (by rw [idExists_iff_mem, hids, ← idExists_iff_mem]; exact hex) hset]
          exact .added rfl (by rw [hadd, ← htake]) rfl hm hi rfl
    · rw [if_neg (by simp [hr])] at he
      obtain ⟨rfl, rfl⟩ := Prod.mk.inj he
      exact ⟨rfl, .moved rfl hv hr hm hi⟩
    · rw [if_neg (by simp [hr])] at he
      obtain ⟨rfl, rfl⟩ := Prod.mk.inj he
      exact ⟨rfl, .ignored rfl hv hr hm hi⟩

/-- When nothing fails, the verdict decides. -/
theorem settleEntry_ok (config : Config) {t : Tables} {now : ℤ} {content : Content} (h : t.WF)
    (hstore : (t.newEntry now).storeContent t.nextId content = some db.tables) {o : Outcome}
    (hmoved : o.moved = false) (hignore : o.ignore = false) (hid : o.id = t.nextId) :
    (verdict config.dedup content.hash t = .add →
        (settleEntry config.dedup allOk content.hash o db).1.ret = true) ∧
      ((∃ id pos, verdict config.dedup content.hash t = .move id pos) →
        (settleEntry config.dedup allOk content.hash o db).1.moved = true) ∧
      (verdict config.dedup content.hash t = .ignore →
        (settleEntry config.dedup allOk content.hash o db).1.ignore = true) := by
  have hs := stored_inProgress hstore
  have hne := nextId_ne h
  have hpass : verdict config.dedup content.hash t ≠ .add →
      (settleEntry config.dedup allOk content.hash o db).1 =
        (deduplicate config.dedup allOk content.hash o db).1 := fun hv => by
    rw [settleEntry]
    simp only [(deduplicate_duplicate hs hv).1, Bool.false_eq_true, if_false]
  refine ⟨fun hv => ?_, fun ⟨id, pos, hv⟩ => ?_, fun hv => ?_⟩
  · obtain ⟨hret, hfree⟩ := deduplicate_add (o := o) hs hv
    have hwf : db.tables.WF := storeContent_wf (newEntry_wf h now) hstore
    have hex : db.tables.idExists t.nextId = true :=
      (hs.idExists _).trans (idExists_newEntry t now)
    unfold settleEntry
    cases hd : deduplicate config.dedup allOk content.hash o db with
    | mk o₁ db₁ =>
      rw [hd] at hret hfree
      dsimp only at hret hfree
      rcases deduplicate_cases hs hmoved hignore hd with
        ⟨-, -, hid₁, -, htables⟩ | ⟨hr, -⟩ | ⟨hr, -⟩
      · have hids : db₁.tables.entries.map Entry.id = db.tables.entries.map Entry.id := by
          rcases htables with ht | ht <;> rw [ht]
          exact clearHash_ids _ _
        simp only [hret, if_true, hid₁, hid, allOk_apply]
        exact databaseSetEntryHash_ok hne (by rw [Distinct, hids]; exact hwf.idDistinct)
          (by rw [idExists_iff_mem, hids, ← idExists_iff_mem]; exact hex)
          fun e he _ => hfree e he
      · simp [hr] at hret
      · simp [hr] at hret
  · have hv' : verdict config.dedup content.hash t ≠ .add := by simp [hv]
    rw [hpass hv']
    exact (deduplicate_duplicate hs hv').2.1 ⟨id, pos, hv⟩
  · have hv' : verdict config.dedup content.hash t ≠ .add := by simp [hv]
    rw [hpass hv']
    exact (deduplicate_duplicate hs hv').2.2 hv

theorem selectionTransaction_ended (h : db.WF) {o : Outcome} {db' : Database}
    (he : selectionTransaction config a written mimeTypes db = (o, db')) :
    db'.saved = db.saved ∧
      Ended config a.now (receiveAll config written 0 mimeTypes) db.tables o db'.tables := by
  unfold selectionTransaction databaseNewEntry at he
  cases hnew : a.sql .newEntry 0 with
  | false =>
    simp only [hnew, Bool.false_eq_true, if_false] at he
    obtain ⟨rfl, rfl⟩ := Prod.mk.inj he
    exact ⟨rfl, .failed rfl rfl rfl⟩
  | true =>
    simp only [hnew, if_true] at he
    split at he
    · rename_i r hr
      obtain ⟨rfl, rfl⟩ := Prod.mk.inj he
      have hsaved := congrArg (fun x => x.2.db.saved) hr
      rw [receiveMimeTypes_saved] at hsaved
      exact ⟨hsaved.symm, .failed rfl rfl rfl⟩
    · rename_i r hr
      have hsaved := congrArg (fun x => x.2.db.saved) hr
      rw [receiveMimeTypes_saved] at hsaved
      obtain ⟨content, hcontent, hstore, hsha⟩ := receiveMimeTypes_true hr
      have hhash : Sha256.final r.shaCtx = content.hash := by rw [hsha]; rfl
      rw [hhash] at he
      obtain ⟨hs, hend⟩ := settleEntry_ended config h.tables hstore rfl rfl rfl he
      exact ⟨hs.trans hsaved.symm, hcontent ▸ hend⟩

/-- When nothing fails and everything is received, the transaction follows the verdict. -/
theorem selectionTransaction_ok (h : db.WF) (hsql : a.sql = allOk) {content : Content}
    (hcontent : receiveAll config written 0 mimeTypes = some content) {o : Outcome}
    {db' : Database} (he : selectionTransaction config a written mimeTypes db = (o, db')) :
    (verdict config.dedup content.hash db.tables = .add → o.ret = true) ∧
      ((∃ id pos, verdict config.dedup content.hash db.tables = .move id pos) →
        o.moved = true) ∧
      (verdict config.dedup content.hash db.tables = .ignore → o.ignore = true) := by
  simp only [selectionTransaction, databaseNewEntry, hsql, allOk_apply, if_true] at he
  have hid := idExists_newEntry db.tables a.now
  split at he
  · rename_i r hr
    have hfst := receiveMimeTypes_ok config written 0 mimeTypes
      (r := ⟨{ db with tables := db.tables.newEntry a.now }, Sha256.init, .unknown, none⟩) hid
    rw [hcontent, hr] at hfst
    cases hfst
  · rename_i r hr
    obtain ⟨content', hcontent', hstore, hsha⟩ := receiveMimeTypes_true hr
    obtain rfl := Option.some.inj (hcontent'.symm.trans hcontent)
    have hhash : Sha256.final r.shaCtx = content'.hash := by rw [hsha]; rfl
    rw [hhash] at he
    have hok := settleEntry_ok config (o := ⟨false, false, false, db.tables.nextId, 0,
      r.ctype, r.contentMime⟩) h.tables hstore rfl rfl rfl
    rwa [he] at hok

end Transaction

/-! ## The event -/

/-- Attributes of one entry rewritten. -/
def mapAttributes (id : ℤ) (f : Attributes → Attributes) (t : Tables) : Tables :=
  { t with entries := t.entries.map (fun e =>
      if e.id = id then { e with attributes := f e.attributes } else e) }

theorem mapAttributes_wf {t : Tables} (h : t.WF) (id : ℤ) (f : Attributes → Attributes) :
    (mapAttributes id f t).WF :=
  mapEntries_wf h (fun _ => by split <;> rfl) (map_sortDistinct h fun _ => by split <;> rfl)
    (map_hashUnique h fun _ => by split <;> rfl)

theorem view_mapAttributes (t : Tables) (id : ℤ) (f : Attributes → Attributes) :
    (mapAttributes id f t).view = t.view :=
  view_map (fun e => by split <;> rfl) (fun e => by split <;> rfl) (fun e => by split <;> rfl)

/-- The attributes of an entry after both have been saved, as far as the statements succeed. -/
def savedAttributes (sql : Sql) (o : Outcome) (attributes : Attributes) : Attributes :=
  let attributes :=
    if sql .saveAttribute 0 then attributes.set .contentType o.ctype.name else attributes
  match o.contentMime with
  | none => attributes
  | some mimeType =>
    if sql .saveAttribute 1 then attributes.set .contentMime mimeType else attributes

theorem mapAttributes_mapAttributes (id : ℤ) (f g : Attributes → Attributes) (t : Tables) :
    mapAttributes id g (mapAttributes id f t) = mapAttributes id (fun a => g (f a)) t := by
  simp only [mapAttributes, List.map_map]
  congr 1
  apply List.map_congr_left
  intro e _
  by_cases he : e.id = id <;> simp [he]

theorem databaseSaveAttribute_eq (ok : Bool) (id : ℤ) (key : AttributeKey) (value : CString)
    (db : Database) : (databaseSaveAttribute ok id key value db).2 =
      ⟨mapAttributes id (fun a => if ok then a.set key value else a) db.tables, db.saved⟩ := by
  cases ok with
  | true => rfl
  | false => simp [databaseSaveAttribute, Database.exec, mapAttributes]

namespace State

theorem saveAttributes_eq (sql : Sql) (o : Outcome) (s : State) :
    s.saveAttributes sql o = { s with
      db := { s.db with tables := mapAttributes o.id (savedAttributes sql o) s.db.tables } } := by
  cases hmime : o.contentMime with
  | none =>
    have hsaved : savedAttributes sql o = fun a =>
        if sql .saveAttribute 0 then a.set .contentType o.ctype.name else a := by
      funext a
      simp only [savedAttributes, hmime]
    simp only [saveAttributes, hmime, databaseSaveAttribute_eq, hsaved]
  | some mimeType =>
    have hsaved : savedAttributes sql o = fun a =>
        let a := if sql .saveAttribute 0 then a.set .contentType o.ctype.name else a
        if sql .saveAttribute 1 then a.set .contentMime mimeType else a := by
      funext a
      simp only [savedAttributes, hmime]
    simp only [saveAttributes, hmime, databaseSaveAttribute_eq, mapAttributes_mapAttributes, hsaved]

section Finish
variable {a : Ambient} {o : Outcome} {db : Database} {t : Tables} {s : State}

theorem finishTransaction_commit (hok : a.sql .commitTransaction 0 = true)
    (hsaved : db.saved = some t) (hret : o.ret = true) (hmoved : o.moved = false) :
    s.finishTransaction a o db = (true, { s with db := ⟨db.tables, none⟩ }) := by
  simp [finishTransaction, databaseDoTransaction, hok, hsaved, hret, hmoved]

theorem finishTransaction_rollback (hok : a.sql .rollbackTransaction 0 = true)
    (hsaved : db.saved = some t) (hret : o.ret = false) (hmoved : o.moved = false) :
    s.finishTransaction a o db = (false, { s with db := ⟨t, none⟩ }) := by
  simp [finishTransaction, databaseDoTransaction, hok, hsaved, hret, hmoved]

theorem finishTransaction_move (hok : a.sql .rollbackTransaction 0 = true)
    (hsaved : db.saved = some t) (hret : o.ret = false) (hmoved : o.moved = true) :
    s.finishTransaction a o db =
      if a.sql .updateSortIndex 0 then
        if a.sql .updateEntry 0 then
          (true, { s with
            db := ⟨t.moveEntry a.now o.id, none⟩
            ipc := ipcEventEntryUpdate o.id (some a.now) none s.ipc })
        else (false, { s with db := ⟨t.updateSortIndex o.id, none⟩ })
      else (false, { s with db := ⟨t, none⟩ }) := by
  cases hsort : a.sql .updateSortIndex 0 <;> cases hupdate : a.sql .updateEntry 0 <;>
    simp [finishTransaction, databaseDoTransaction, databaseUpdateSortIndex, Database.exec, update,
      databaseUpdateEntry, hok, hsaved, hret, hmoved, hsort, hupdate, moveEntry]

end Finish

/-- The state after an entry has been committed and made current. -/
def committed (a : Ambient) (name : SelectionName) (t : Tables) (id : ℤ) (s : State) : State :=
  { s with db := ⟨t, none⟩, ipc := ipcEventEntryAdd id s.ipc }.set a.sql (some name) id

/-- The state after an old entry has been moved to the front and made current. -/
def movedFront (a : Ambient) (name : SelectionName) (t : Tables) (id pos : ℤ) (s : State) : State :=
  { s with
    db := ⟨t.moveEntry a.now id, none⟩
    ipc := ipcEventEntryMove id pos 0 (ipcEventEntryUpdate id (some a.now) none s.ipc) }.set a.sql
      (some name) id

theorem committed_id (a : Ambient) (name : SelectionName) (t : Tables) (id : ℤ) (s : State) :
    (s.committed a name t id).id = id := set_id ..

theorem movedFront_id (a : Ambient) (name : SelectionName) (t : Tables) (id pos : ℤ) (s : State) :
    (s.movedFront a name t id pos).id = id := set_id ..

theorem committed_sameRows (a : Ambient) (name : SelectionName) (t : Tables) (id : ℤ) (s : State) :
    (s.committed a name t id).db.tables.SameRows t :=
  set_sameRows a.sql (some name) id { s with db := ⟨t, none⟩, ipc := ipcEventEntryAdd id s.ipc }

theorem movedFront_sameRows (a : Ambient) (name : SelectionName) (t : Tables) (id pos : ℤ)
    (s : State) : (s.movedFront a name t id pos).db.tables.SameRows (t.moveEntry a.now id) :=
  set_sameRows a.sql (some name) id { s with
    db := ⟨t.moveEntry a.now id, none⟩
    ipc := ipcEventEntryMove id pos 0 (ipcEventEntryUpdate id (some a.now) none s.ipc) }

/-- Everything that an event can leave behind just before the trailing trim. The tables `t`
are those before the event. -/
inductive Settled (a : Ambient) (name : SelectionName) (received : Option Content) (s : State)
    (t : Tables) : State → Prop
  | failed : Settled a name received s t { s with db := ⟨t, none⟩, id := -1 }
  | ignored {content : Content} (hreceived : received = some content)
      (hverdict : verdict s.config.dedup content.hash t = .ignore) :
      Settled a name received s t { s with db := ⟨t, none⟩ }
  | notMoved {content : Content} {id pos : ℤ} {t' : Tables} (hreceived : received = some content)
      (hverdict : verdict s.config.dedup content.hash t = .move id pos)
      (hpart : t' = t ∨ t' = t.updateSortIndex id) :
      Settled a name received s t { s with db := ⟨t', none⟩ }
  | moved {content : Content} {id pos : ℤ} (hreceived : received = some content)
      (hverdict : verdict s.config.dedup content.hash t = .move id pos) :
      Settled a name received s t (s.movedFront a name t id pos)
  | added {content : Content} {t' : Tables} {f : Attributes → Attributes}
      (hreceived : received = some content) (hadd : t.addEntry a.now content = some t') :
      Settled a name received s t (s.committed a name (mapAttributes t.nextId f t') t.nextId)

section Event
variable {a : Ambient} {name : SelectionName} {written : ℕ → Option Bytes}
  {mimeTypes : List CString} {s : State} {t : Tables} {o : Outcome} {db : Database}

theorem storeSelection_commit (name : SelectionName) (hcommit : a.sql .commitTransaction 0 = true)
    (he : selectionTransaction s.config a written mimeTypes s.db = (o, db))
    (hsaved : db.saved = some t) (hret : o.ret = true) (hmoved : o.moved = false) :
    s.storeSelection a name written mimeTypes =
      s.committed a name (mapAttributes o.id (savedAttributes a.sql o) db.tables) o.id := by
  simp only [storeSelection, he, finishTransaction_commit hcommit hsaved hret hmoved, hmoved,
    Bool.false_eq_true, if_false, saveAttributes_eq]
  rfl

theorem storeSelection_drop (hrollback : a.sql .rollbackTransaction 0 = true)
    (he : selectionTransaction s.config a written mimeTypes s.db = (o, db))
    (hsaved : db.saved = some t) (hret : o.ret = false) (hmoved : o.moved = false) :
    s.storeSelection a name written mimeTypes =
      if o.ignore then { s with db := ⟨t, none⟩ } else { s with db := ⟨t, none⟩, id := -1 } := by
  unfold storeSelection
  simp only [he, finishTransaction_rollback hrollback hsaved hret hmoved, hmoved]
  cases o.ignore <;> rfl

theorem storeSelection_move (hrollback : a.sql .rollbackTransaction 0 = true)
    (he : selectionTransaction s.config a written mimeTypes s.db = (o, db))
    (hsaved : db.saved = some t) (hret : o.ret = false) (hmoved : o.moved = true) :
    s.storeSelection a name written mimeTypes =
      if a.sql .updateSortIndex 0 then
        if a.sql .updateEntry 0 then s.movedFront a name t o.id o.oldPos
        else { s with db := ⟨t.updateSortIndex o.id, none⟩ }
      else { s with db := ⟨t, none⟩ } := by
  unfold storeSelection
  simp only [he, finishTransaction_move hrollback hsaved hret hmoved, hmoved]
  cases a.sql .updateSortIndex 0 <;> cases a.sql .updateEntry 0 <;> simp [movedFront]

/-- The end of a transaction that has been begun from these tables. -/
theorem selectionTransaction_begun (ht : t.WF) (hdb : s.db = ⟨t, some t⟩)
    (he : selectionTransaction s.config a written mimeTypes s.db = (o, db)) :
    db.saved = some t ∧
      Ended s.config a.now (receiveAll s.config written 0 mimeTypes) t o db.tables := by
  have hended := selectionTransaction_ended (Database.wf_begun ht hdb) he
  rwa [hdb] at hended

/-- Whatever fails inside the transaction, as long as it can be ended. -/
theorem storeSelection_settled (hcommit : a.sql .commitTransaction 0 = true)
    (hrollback : a.sql .rollbackTransaction 0 = true) (hdb : s.db = ⟨t, some t⟩) (ht : t.WF) :
    Settled a name (receiveAll s.config written 0 mimeTypes) s t
      (s.storeSelection a name written mimeTypes) := by
  cases he : selectionTransaction s.config a written mimeTypes s.db with
  | mk o db =>
    obtain ⟨hsaved, hend⟩ := selectionTransaction_begun ht hdb he
    cases hend with
    | added hreceived hadd hret hmoved hignore hid =>
      rw [storeSelection_commit name hcommit he hsaved hret hmoved, hid]
      exact .added hreceived hadd
    | moved hreceived hverdict hret hmoved hignore =>
      rw [storeSelection_move hrollback he hsaved hret hmoved]
      split
      · split
        · exact .moved hreceived hverdict
        · exact .notMoved hreceived hverdict (Or.inr rfl)
      · exact .notMoved hreceived hverdict (Or.inl rfl)
    | ignored hreceived hverdict hret hmoved hignore =>
      rw [storeSelection_drop hrollback he hsaved hret hmoved, if_pos hignore]
      exact .ignored hreceived hverdict
    | failed hret hmoved hignore =>
      rw [storeSelection_drop hrollback he hsaved hret hmoved, if_neg (by simp [hignore])]
      exact .failed

/-! When nothing fails but perhaps a receive, the received content decides. -/

variable (hsql : a.sql = allOk) (hdb : s.db = ⟨t, some t⟩) (ht : t.WF)
include hsql hdb ht

/-- The end of a transaction in which nothing fails, with what it says about the verdict. -/
theorem selectionTransaction_end (written : ℕ → Option Bytes) (mimeTypes : List CString) :
    ∃ o db, selectionTransaction s.config a written mimeTypes s.db = (o, db) ∧
      db.saved = some t ∧
      Ended s.config a.now (receiveAll s.config written 0 mimeTypes) t o db.tables ∧
      ∀ content : Content, receiveAll s.config written 0 mimeTypes = some content →
        (verdict s.config.dedup content.hash t = .add → o.ret = true) ∧
          ((∃ id pos, verdict s.config.dedup content.hash t = .move id pos) → o.moved = true) ∧
          (verdict s.config.dedup content.hash t = .ignore → o.ignore = true) := by
  cases he : selectionTransaction s.config a written mimeTypes s.db with
  | mk o db =>
    obtain ⟨hsaved, hend⟩ := selectionTransaction_begun ht hdb he
    refine ⟨o, db, rfl, hsaved, hend, fun content hcontent => ?_⟩
    have hok := selectionTransaction_ok (Database.wf_begun ht hdb) hsql hcontent he
    rwa [hdb] at hok

theorem storeSelection_failed (hreceived : receiveAll s.config written 0 mimeTypes = none) :
    s.storeSelection a name written mimeTypes = { s with db := ⟨t, none⟩, id := -1 } := by
  obtain ⟨o, db, he, hsaved, hend, -⟩ := selectionTransaction_end hsql hdb ht written mimeTypes
  rw [hreceived] at hend
  cases hend with
  | failed hret hmoved hignore =>
    rw [storeSelection_drop (by rw [hsql]; rfl) he hsaved hret hmoved, if_neg (by simp [hignore])]
  | added h | moved h | ignored h => cases h

variable {content : Content} (hreceived : receiveAll s.config written 0 mimeTypes = some content)
include hreceived

theorem storeSelection_ignored (hverdict : verdict s.config.dedup content.hash t = .ignore) :
    s.storeSelection a name written mimeTypes = { s with db := ⟨t, none⟩ } := by
  obtain ⟨o, db, he, hsaved, hend, hok⟩ := selectionTransaction_end hsql hdb ht written mimeTypes
  have hflag := (hok content hreceived).2.2 hverdict
  cases hend with
  | ignored h hv hret hmoved hignore =>
    rw [storeSelection_drop (by rw [hsql]; rfl) he hsaved hret hmoved, if_pos hignore]
  | added _ _ _ _ hignore | moved _ _ _ _ hignore | failed _ _ hignore =>
    rw [hignore] at hflag
    cases hflag

theorem storeSelection_moved {id pos : ℤ}
    (hverdict : verdict s.config.dedup content.hash t = .move id pos) :
    s.storeSelection a name written mimeTypes = s.movedFront a name t id pos := by
  obtain ⟨o, db, he, hsaved, hend, hok⟩ := selectionTransaction_end hsql hdb ht written mimeTypes
  have hflag := (hok content hreceived).2.1 ⟨id, pos, hverdict⟩
  cases hend with
  | moved h hv hret hmoved hignore =>
    obtain rfl := Option.some.inj (h.symm.trans hreceived)
    obtain ⟨rfl, rfl⟩ := Verdict.move.inj (hv.symm.trans hverdict)
    rw [storeSelection_move (by rw [hsql]; rfl) he hsaved hret hmoved, hsql, allOk_apply,
      allOk_apply, if_pos rfl, if_pos rfl]
  | added _ _ _ hmoved | ignored _ _ _ hmoved | failed _ hmoved =>
    rw [hmoved] at hflag
    cases hflag

theorem storeSelection_added (hverdict : verdict s.config.dedup content.hash t = .add) :
    ∃ t' f, t.addEntry a.now content = some t' ∧
      s.storeSelection a name written mimeTypes =
        s.committed a name (mapAttributes t.nextId f t') t.nextId := by
  obtain ⟨o, db, he, hsaved, hend, hok⟩ := selectionTransaction_end hsql hdb ht written mimeTypes
  have hflag := (hok content hreceived).1 hverdict
  cases hend with
  | added h hadd hret hmoved hignore hid =>
    obtain rfl := Option.some.inj (h.symm.trans hreceived)
    have hcommitted := storeSelection_commit name (by rw [hsql]; rfl) he hsaved hret hmoved
    rw [hid] at hcommitted
    exact ⟨db.tables, _, hadd, hcommitted⟩
  | moved _ _ hret | ignored _ _ hret | failed hret =>
    rw [hret] at hflag
    cases hflag

end Event

end State

end Swayclip

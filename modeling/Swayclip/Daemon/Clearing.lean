import Swayclip.Daemon.Storing
import Swayclip.Daemon.Transitions

/-! # Clearing selections

The current entry is `-1` after an explicit clear and after a copy that failed, and only in the
first case selections are to be cleared. The flag that tells the two apart is set by an explicit
clear and never reset.
-/

namespace Swayclip
open Library.Runs

/-! ## Deeds -/

/-- What is done to the current entry: it is assigned, by an explicit clear or not, or
`wsignal_set` is asked for it and answers whether to clear. -/
inductive Deed where
  | assigned (explicit : Bool)
  | asked (clear : Bool)
deriving DecidableEq

/-- Whether the most recent assignment was an explicit clear; `last` is about those before. -/
def lastExplicit : Bool → List Deed → Bool
  | last, [] => last
  | _, .assigned explicit :: deeds => lastExplicit explicit deeds
  | last, .asked _ :: deeds => lastExplicit last deeds

/-- Whenever the answer is to clear, the most recent assignment was an explicit clear. -/
def Justified : Bool → List Deed → Prop
  | _, [] => True
  | _, .assigned explicit :: deeds => Justified explicit deeds
  | last, .asked clear :: deeds => (clear = true → last = true) ∧ Justified last deeds

instance Justified.decidable : ∀ last deeds, Decidable (Justified last deeds)
  | _, [] => isTrue trivial
  | _, .assigned explicit :: deeds => Justified.decidable explicit deeds
  | last, .asked clear :: deeds =>
    @instDecidableAnd (clear = true → last = true) _ _ (Justified.decidable last deeds)

theorem lastExplicit_append (last : Bool) (deeds deeds' : List Deed) :
    lastExplicit last (deeds ++ deeds') = lastExplicit (lastExplicit last deeds) deeds' := by
  induction deeds generalizing last with
  | nil => rfl
  | cons deed deeds ih => cases deed <;> exact ih _

theorem justified_append {last : Bool} {deeds deeds' : List Deed} :
    Justified last (deeds ++ deeds') ↔
      Justified last deeds ∧ Justified (lastExplicit last deeds) deeds' := by
  induction deeds generalizing last with
  | nil => rw [List.nil_append, Justified, true_and, lastExplicit]
  | cons deed deeds ih =>
    cases deed with
    | assigned explicit => exact ih
    | asked clear => rw [List.cons_append, Justified, Justified, ih, and_assoc, lastExplicit]

/-- The questions that `seat_set` asks, and the answers. -/
def Seat.asks (callback : SelectionName → SetResult) (ignore : Option SelectionName) (seat : Seat) :
    List Deed :=
  ([SelectionType.regular, .primary].filter (fun type =>
    (seat.sel type).enabled ∧ ignore ≠ some (seat.globalName, type))).map
      fun type => .asked (callback (seat.globalName, type)).2

namespace State

/-- What `set` has assigned when it calls `wayland_set`. -/
def assign (id : ℤ) (s : State) : State := { s with id := id, cleared := id = -1 || s.cleared }

/-- The deeds of `set`. -/
def setDeeds (sql : Sql) (ignore : Option SelectionName) (id : ℤ) (s : State) : List Deed :=
  .assigned (id = -1) :: (s.assign id).seats.flatMap (fun seat =>
    if seat.enabled then seat.asks ((s.assign id).setCallback sql) ignore else [])

def storeTransientDeeds (a : Ambient) (name : SelectionName) (written : ℕ → Option Bytes)
    (mimeTypes : List CString) (s : State) : List Deed :=
  .assigned false :: match receiveAll s.config written 0 mimeTypes with
    | none => []
    | some data => { s with id := -1, transient := data }.setDeeds a.sql (some name) 0

def storeSelectionDeeds (a : Ambient) (name : SelectionName) (written : ℕ → Option Bytes)
    (mimeTypes : List CString) (s : State) : List Deed :=
  match selectionTransaction s.config a written mimeTypes s.db with
  | (o, db) =>
    match s.finishTransaction a o db with
    | (true, s) => s.setDeeds a.sql (some name) o.id
    | (false, _) => if !(o.ignore || o.moved) then [.assigned false] else []

def wsignalSelectionDeeds (a : Ambient) (name : SelectionName) (written : ℕ → Option Bytes)
    (mimeTypes : List CString) (transient : Bool) (s : State) : List Deed :=
  if mimeTypes.length = 0 then []
  else
    let s := s.clearTransient
    if transient then s.storeTransientDeeds a name written mimeTypes
    else
      match databaseDoTransaction (a.sql .beginImmediate 0) .immediate s.db with
      | (false, _) => []
      | (true, db) => { s with db := db }.storeSelectionDeeds a name written mimeTypes

def entryDeletedDeeds (a : Ambient) (id : ℤ) (s : State) : List Deed :=
  if id = -1 ∨ id = s.id then
    .assigned false :: { s with id := -1 }.setDeeds a.sql none (-1)
  else []

/-- Only two requests touch the current entry. -/
def requestDeeds (a : Ambient) (req : Request) (s : State) : List Deed :=
  match req with
  | .setClipboard (some id) =>
    if id ≠ -1 ∧ !databaseIdExists (a.sql .idExists 0) id s.db then [] else s.setDeeds a.sql none id
  | .deleteEntry (some id) =>
    if id = -1 then
      match databaseClear (a.sql .clear 0) s.db with
      | (false, _) => []
      | (true, db) => { s with db := db }.entryDeletedDeeds a id
    else if !databaseIdExists (a.sql .idExists 0) id s.db then []
    else
      match databaseDeleteEntry (a.sql .delEntry 0) id s.db with
      | (false, _) => []
      | (true, db) => { s with db := db }.entryDeletedDeeds a id
  | _ => []

def requestsDeeds (ambient : ℕ → Ambient) (fd : ℕ) : ℕ → List Request → State → List Deed
  | _, [], _ => []
  | i, req :: reqs, s =>
    s.requestDeeds (ambient i) req ++
      requestsDeeds ambient fd (i + 1) reqs (s.handleRequest (ambient i) fd req)

/-- The deeds of the requests that are served when one arrives. -/
def messageDeeds (ambient : ℕ → Ambient) (client : Client) (msg : Option Request) (s : State) :
    List Deed :=
  match msg with
  | none => []
  | some req => requestsDeeds ambient client.fd 0 (batch client req)
      (s.onClient client.fd (holdBack client req))

def addSeatDeeds (a : Ambient) (globalName : ℕ) (name : CString) (s : State) : List Deed :=
  match s.findSeat globalName with
  | some _ => []
  | none =>
    let seat := newSeat s.config globalName name
    if seat.enabled then seat.asks (s.setCallback a.sql) none else []

def selectionDeeds (a : Ambient) (type : SelectionType) (offer : Option (ℕ → Option Bytes))
    (timerOk : Bool) (seat : Seat) (s : State) : List Deed :=
  let (deliver, sel) := selectionEvent seat.blocked offer.isSome s.wsignalCanSet timerOk
    (seat.sel type)
  let s := s.putSeat (seat.setSel type sel)
  match deliver, offer with
  | true, some written => s.wsignalSelectionDeeds a (seat.globalName, type) written seat.mimeTypes
      seat.transient
  | _, _ => []

def nullTimerDeeds (a : Ambient) (type : SelectionType) (ok : Bool) (seat : Seat) (s : State) :
    List Deed :=
  if (seat.sel type).nullTimer && ok && !(seat.sel type).extDataOffer then
    [.asked (s.setCallback a.sql (seat.globalName, type)).2]
  else []

/-- Events of a seat that has a data device. -/
def onSeatDeeds (globalName : ℕ) (f : Seat → State → List Deed) (s : State) : List Deed :=
  match s.findSeat globalName with
  | none => []
  | some seat => if seat.enabled then f seat s else []

/-- The deeds of one event. After a restart, `main` assigns the entry to start with. -/
def deeds (s : State) (i : Input) : List Deed :=
  match i.event with
  | .restart _ => [.assigned false]
  | .addSeat globalName name => s.addSeatDeeds (i.ambient 0) globalName name
  | .selection name offer timerOk =>
    s.onSeatDeeds name.1 (selectionDeeds (i.ambient 0) name.2 offer timerOk)
  | .nullTimer name ok => s.onSeatDeeds name.1 (nullTimerDeeds (i.ambient 0) name.2 ok)
  | .message fd msg =>
    match s.findClient fd with
    | none => []
    | some client => s.messageDeeds i.ambient client msg
  | _ => []

/-! ## Honest answers -/

/-- If `wsignal_set` were asked now, it would answer to clear only after an explicit clear. -/
def Honest (last : Bool) (s : State) : Prop := ∀ ok, (s.wsignalSet ok).2 = true → last = true

theorem wsignalSet_clear {ok : Bool} {s : State} :
    (s.wsignalSet ok).2 = true ↔ s.id < 0 ∧ s.cleared = true := by
  rw [wsignalSet]
  split
  · rename_i hid
    exact ⟨nofun, fun h => absurd hid (not_le.mpr h.1)⟩
  · rename_i hid
    exact ⟨fun h => ⟨not_le.mp hid, h⟩, fun h => h.2⟩

theorem honest_iff {last : Bool} {s : State} :
    s.Honest last ↔ (s.id < 0 → s.cleared = true → last = true) :=
  ⟨fun h hid hcleared => h true (wsignalSet_clear.mpr ⟨hid, hcleared⟩),
    fun h _ hclear => h (wsignalSet_clear.mp hclear).1 (wsignalSet_clear.mp hclear).2⟩

theorem honest_congr {last : Bool} {s s' : State} (hid : s'.id = s.id)
    (hcleared : s'.cleared = s.cleared) : s'.Honest last ↔ s.Honest last := by
  rw [honest_iff, honest_iff, hid, hcleared]

/-- Whatever was assigned last, the deeds are justified, and so is what would be answered next. -/
def StaysHonest (deeds : List Deed) (s s' : State) : Prop :=
  ∀ last, s.Honest last → Justified last deeds ∧ s'.Honest (lastExplicit last deeds)

theorem StaysHonest.nothing {s s' : State} (hid : s'.id = s.id)
    (hcleared : s'.cleared = s.cleared) :
    StaysHonest [] s s' :=
  fun _ h => ⟨trivial, (honest_congr hid hcleared).mpr h⟩

theorem StaysHonest.append {deeds deeds' : List Deed} {s s' s'' : State}
    (h : StaysHonest deeds s s')
    (h' : StaysHonest deeds' s' s'') : StaysHonest (deeds ++ deeds') s s'' := by
  intro last hlast
  obtain ⟨hjust, hnext⟩ := h last hlast
  obtain ⟨hjust', hnext'⟩ := h' _ hnext
  rw [justified_append, lastExplicit_append]
  exact ⟨⟨hjust, hjust'⟩, hnext'⟩

theorem StaysHonest.congr {deeds : List Deed} {s s' s'' : State} (h : StaysHonest deeds s s')
    (hid : s''.id = s'.id) (hcleared : s''.cleared = s'.cleared) : StaysHonest deeds s s'' :=
  fun last hlast => ⟨(h last hlast).1, (honest_congr hid hcleared).mpr (h last hlast).2⟩

theorem StaysHonest.of_congr {deeds : List Deed} {s₀ s s' : State} (h : StaysHonest deeds s s')
    (hid : s.id = s₀.id) (hcleared : s.cleared = s₀.cleared) : StaysHonest deeds s₀ s' :=
  fun last hlast => h last ((honest_congr hid hcleared).mpr hlast)

/-- Questions alone change nothing. -/
theorem asks_justified {last : Bool} {deeds : List Deed}
    (h : ∀ deed ∈ deeds, ∃ clear, deed = .asked clear ∧ (clear = true → last = true)) :
    Justified last deeds ∧ lastExplicit last deeds = last := by
  induction deeds with
  | nil => exact ⟨trivial, rfl⟩
  | cons deed deeds ih =>
    obtain ⟨clear, rfl, hclear⟩ := h deed List.mem_cons_self
    obtain ⟨hjust, hlast⟩ := ih fun deed hdeed => h deed (List.mem_cons_of_mem _ hdeed)
    exact ⟨⟨hclear, hjust⟩, hlast⟩

theorem Honest.asks {last : Bool} {s : State} (h : s.Honest last) (sql : Sql)
    (ignore : Option SelectionName) (seat : Seat) : ∀ deed ∈ seat.asks (s.setCallback sql) ignore,
      ∃ clear, deed = .asked clear ∧ (clear = true → last = true) := by
  intro deed hdeed
  obtain ⟨type, -, rfl⟩ := List.mem_map.mp hdeed
  exact ⟨_, rfl, h _⟩

/-- An entry that is set is there, and its sources are not for clearing. -/
theorem setDeeds_justified (sql : Sql) (ignore : Option SelectionName) {id : ℤ} (hid : -1 ≤ id)
    (last : Bool) (s : State) : Justified last (s.setDeeds sql ignore id) ∧
      lastExplicit last (s.setDeeds sql ignore id) = decide (id = -1) := by
  have hhonest : (s.assign id).Honest (decide (id = -1)) := honest_iff.mpr fun hneg _ => by
    change id < 0 at hneg
    exact decide_eq_true (by omega)
  rw [setDeeds, Justified, lastExplicit]
  refine asks_justified fun deed hdeed => ?_
  obtain ⟨seat, -, hseat⟩ := List.mem_flatMap.mp hdeed
  split at hseat
  · exact hhonest.asks sql ignore seat deed hseat
  · cases hseat

/-- Nothing but the id matters to what would be answered next. -/
theorem set_keeps (sql : Sql) (ignore : Option SelectionName) {id : ℤ} (hid : -1 ≤ id)
    (x y s : State) : StaysHonest (x.setDeeds sql ignore id) s (y.set sql ignore id) := by
  intro last _
  obtain ⟨hjust, hlast⟩ := setDeeds_justified sql ignore hid last x
  refine ⟨hjust, honest_iff.mpr fun hneg _ => ?_⟩
  rw [set_id] at hneg
  rw [hlast]
  exact decide_eq_true (by omega)

/-! ## Requests -/

theorem entryDeleted_keeps (a : Ambient) (fd : ℕ) (id : ℤ) (s : State) :
    StaysHonest (s.entryDeletedDeeds a id) s (s.entryDeleted a fd id) := by
  unfold entryDeletedDeeds entryDeleted
  split
  · -- between the two assignments nobody is asked
    have hset := set_keeps a.sql none (le_refl (-1)) { s with id := -1 } { s with id := -1 } s
    intro last hlast
    obtain ⟨hjust, hnext⟩ := hset last hlast
    exact ⟨hjust, (honest_congr rfl rfl).mp hnext⟩
  · exact .nothing rfl rfl

theorem update_current (a : Ambient) (id : ℤ) (pinned : Option Bool) (s : State) :
    (s.update a id pinned).2.id = s.id ∧ (s.update a id pinned).2.cleared = s.cleared := by
  unfold update
  split <;> exact ⟨rfl, rfl⟩

theorem serveSetClipboard_keeps {a : Ambient} {s : State} (hwf : s.db.tables.WF) (fd : ℕ)
    (id : Option ℤ) :
    StaysHonest (s.requestDeeds a (.setClipboard id)) s (s.serveSetClipboard a fd id) := by
  cases id with
  | none => exact .nothing rfl rfl
  | some id =>
    simp only [requestDeeds, serveSetClipboard]
    split
    · exact .nothing rfl rfl
    · rename_i hgranted
      have hid : -1 ≤ id := by
        by_cases hclear : id = -1
        · omega
        · have hexists : databaseIdExists (a.sql .idExists 0) id s.db = true := by
            simpa [hclear] using hgranted
          rw [databaseIdExists, Bool.and_eq_true] at hexists
          obtain ⟨e, he, rfl⟩ := Tables.idExists_iff.mp hexists.2
          have := hwf.idPos e he
          omega
      obtain ⟨hupdate, hcleared⟩ := update_current a id none (s.set a.sql none id)
      split <;> exact (set_keeps a.sql none hid s s s).congr hupdate hcleared

theorem serveDeleteEntry_keeps (a : Ambient) (fd : ℕ) (id : Option ℤ) (s : State) :
    StaysHonest (s.requestDeeds a (.deleteEntry id)) s (s.serveDeleteEntry a fd id) := by
  cases id with
  | none => exact .nothing rfl rfl
  | some id =>
    simp only [requestDeeds, serveDeleteEntry]
    by_cases hid : id = -1
    · rw [if_pos hid, if_pos hid]
      cases hclear : databaseClear (a.sql .clear 0) s.db with
      | mk ok db =>
        cases ok with
        | false => exact .nothing rfl rfl
        | true => exact (entryDeleted_keeps a fd id { s with db := db }).of_congr rfl rfl
    · rw [if_neg hid, if_neg hid]
      split
      · exact .nothing rfl rfl
      · cases hdelete : databaseDeleteEntry (a.sql .delEntry 0) id s.db with
        | mk ok db =>
          cases ok with
          | false => exact .nothing rfl rfl
          | true => exact (entryDeleted_keeps a fd id { s with db := db }).of_congr rfl rfl

/-- The other requests do not touch the current entry. -/
theorem requestCallback_current (a : Ambient) (fd : ℕ) {req : Request}
    (hset : ∀ id, req ≠ .setClipboard id) (hdelete : ∀ id, req ≠ .deleteEntry id) (s : State) :
    (s.requestCallback a fd req).id = s.id ∧ (s.requestCallback a fd req).cleared = s.cleared := by
  cases req with
  | setClipboard id => exact absurd rfl (hset id)
  | deleteEntry id => exact absurd rfl (hdelete id)
  | pinEntry id pin =>
    simp only [requestCallback, servePinEntry]
    split
    · split
      · exact ⟨rfl, rfl⟩
      · split
        · exact ⟨rfl, rfl⟩
        · rename_i flag _
          obtain ⟨hid, hcleared⟩ := update_current a _ (some flag) s
          split <;> exact ⟨hid, hcleared⟩
    · exact ⟨rfl, rfl⟩
  | subscribe events =>
    simp only [requestCallback, serveSubscribe]
    split
    · exact ⟨rfl, rfl⟩
    · split <;> exact ⟨rfl, rfl⟩
  | getHistoryLength =>
    simp only [requestCallback, serveGetHistoryLength]
    split <;> exact ⟨rfl, rfl⟩
  | getHistory start n =>
    simp only [requestCallback, serveGetHistory]
    split
    · split <;> exact ⟨rfl, rfl⟩
    · exact ⟨rfl, rfl⟩
  | getData id mimeType =>
    simp only [requestCallback, serveGetData]
    split
    · split
      · exact ⟨rfl, rfl⟩
      · split <;> exact ⟨rfl, rfl⟩
    · exact ⟨rfl, rfl⟩
  | getCurrent | invalid => exact ⟨rfl, rfl⟩
  | holdRequests n =>
    simp only [requestCallback, serveHoldRequests]
    split
    · exact ⟨rfl, rfl⟩
    · split <;> exact ⟨rfl, rfl⟩

theorem requestCallback_keeps {a : Ambient} {s : State} (hwf : s.db.tables.WF) (fd : ℕ)
    (req : Request) : StaysHonest (s.requestDeeds a req) s (s.requestCallback a fd req) := by
  by_cases hset : ∃ id, req = .setClipboard id
  · obtain ⟨id, rfl⟩ := hset
    exact serveSetClipboard_keeps hwf fd id
  · by_cases hdelete : ∃ id, req = .deleteEntry id
    · obtain ⟨id, rfl⟩ := hdelete
      exact serveDeleteEntry_keeps a fd id s
    · obtain ⟨hid, hcleared⟩ := requestCallback_current a fd (fun id h => hset ⟨id, h⟩)
        (fun id h => hdelete ⟨id, h⟩) s
      have hnone : s.requestDeeds a req = [] := by
        unfold requestDeeds
        split
        · exact absurd ⟨_, rfl⟩ hset
        · exact absurd ⟨_, rfl⟩ hdelete
        · rfl
      rw [hnone]
      exact .nothing hid hcleared

theorem handleRequests_keeps (ambient : ℕ → Ambient) (fd i : ℕ) (reqs : List Request) {s : State}
    (hwf : s.db.WF) :
    StaysHonest (s.requestsDeeds ambient fd i reqs) s (s.handleRequests ambient fd i reqs) := by
  induction reqs generalizing i s with
  | nil => exact .nothing rfl rfl
  | cons req reqs ih =>
    have hrequest := requestCallback_keeps (a := ambient i)
      (s := s.onClient fd (fun client => { client with handlingReq := true })) hwf.tables fd req
    have hnext : (s.handleRequest (ambient i) fd req).db.WF :=
      requestCallback_wf (s := s.onClient fd fun client => { client with handlingReq := true }) hwf
        (ambient i) fd req
    exact StaysHonest.append ((hrequest.of_congr rfl rfl).congr rfl rfl) (ih (i + 1) hnext)

theorem messageCallback_keeps (ambient : ℕ → Ambient) (client : Client) (msg : Option Request)
    {s : State} (hwf : s.db.WF) :
    StaysHonest (s.messageDeeds ambient client msg) s (s.messageCallback ambient client msg) := by
  cases msg with
  | none => exact .nothing rfl rfl
  | some req =>
    rw [messageCallback_eq, messageDeeds]
    have hbatch := handleRequests_keeps ambient client.fd 0 (batch client req)
      (s := s.onClient client.fd (holdBack client req)) hwf
    exact (hbatch.of_congr rfl rfl).congr rfl rfl

/-! ## Copies -/

/-- Nothing comes of a copy: something cannot be received, or a statement fails. -/
def copyFails (a : Ambient) (written : ℕ → Option Bytes) (mimeTypes : List CString)
    (transient : Bool) (s : State) : Bool :=
  mimeTypes ≠ [] && if transient then (receiveAll s.config written 0 mimeTypes).isNone
    else a.sql .beginImmediate 0 && s.db.saved.isNone &&
      !(receiveAll s.config written 0 mimeTypes).any (fun content =>
        a.completes s.config.dedup content s.db.tables ||
          a.recognizes s.config.dedup content s.db.tables)

/-- A copy that failed has assigned `-1`, and left the flag as it was. -/
structure LeftBehind (deeds : List Deed) (s s' : State) : Prop where
  deeds : deeds = [.assigned false]
  id : s'.id = -1
  cleared : s'.cleared = s.cleared

theorem finishTransaction_current (a : Ambient) (o : Outcome) (db : Database) (s : State) :
    (s.finishTransaction a o db).2.id = s.id ∧
      (s.finishTransaction a o db).2.cleared = s.cleared := by
  unfold finishTransaction
  dsimp only
  split
  · split
    · exact update_current a o.id none _
    · exact ⟨rfl, rfl⟩
  · exact ⟨rfl, rfl⟩

/-- What is made current after the transaction is an entry. -/
theorem ended_id {config : Config} {a : Ambient} {received : Option Content} {t t' : Tables}
    (ht : t.WF) {o : Outcome} (h : Ended config a.now received t o t') {db : Database}
    {s s' : State} (hok : s.finishTransaction a o db = (true, s')) : 0 < o.id := by
  cases h with
  | added _ _ _ _ _ hid =>
    rw [hid]
    exact nextId_pos ht
  | moved _ hverdict =>
    obtain ⟨e, he, -, hid, -⟩ := verdict_move hverdict
    exact hid ▸ ht.idPos e he
  | ignored _ _ hret hmoved | failed hret hmoved =>
    simp [finishTransaction, hret, hmoved] at hok

theorem storeSelection_cases {a : Ambient} {s : State} {t : Tables} (hdb : s.db = ⟨t, some t⟩)
    (ht : t.WF) (name : SelectionName) (written : ℕ → Option Bytes) (mimeTypes : List CString) :
    if (receiveAll s.config written 0 mimeTypes).any (fun content =>
        a.completes s.config.dedup content t || a.recognizes s.config.dedup content t)
    then StaysHonest (s.storeSelectionDeeds a name written mimeTypes) s
      (s.storeSelection a name written mimeTypes)
    else LeftBehind (s.storeSelectionDeeds a name written mimeTypes) s
      (s.storeSelection a name written mimeTypes) := by
  have hret := selectionTransaction_ret (Database.wf_begun ht hdb) s.config a written mimeTypes
  have hrecognized := selectionTransaction_recognized s.db s.config a written mimeTypes
  have hany : (receiveAll s.config written 0 mimeTypes).any (fun content =>
      a.completes s.config.dedup content t || a.recognizes s.config.dedup content t) =
      ((receiveAll s.config written 0 mimeTypes).any
          (fun content => a.completes s.config.dedup content t) ||
        (receiveAll s.config written 0 mimeTypes).any
          (fun content => a.recognizes s.config.dedup content t)) := by
    cases receiveAll s.config written 0 mimeTypes <;> rfl
  rw [hany]
  unfold storeSelectionDeeds storeSelection
  cases he : selectionTransaction s.config a written mimeTypes s.db with
  | mk o db =>
    obtain ⟨-, hend⟩ := selectionTransaction_begun ht hdb he
    rw [he, hdb] at hret hrecognized
    rw [← hret, ← hrecognized]
    obtain ⟨hid, hcleared⟩ := finishTransaction_current a o db s
    dsimp only
    cases hf : s.finishTransaction a o db with
    | mk ok s' =>
      rw [hf] at hid hcleared
      cases ok with
      | true =>
        have hpos : -1 ≤ o.id := by have := ended_id ht hend hf; omega
        have hsome : (o.ret || (o.ignore || o.moved)) = true := by
          cases hend with
          | added _ _ h | moved _ _ _ h | ignored _ _ _ _ h => simp [h]
          | failed h hm => simp [finishTransaction, h, hm] at hf
        rw [if_pos hsome]
        exact set_keeps a.sql (some name) hpos s' _ s
      | false =>
        cases hduplicate : (o.ignore || o.moved) with
        | true =>
          simp only [Bool.or_true, if_true, Bool.not_true, Bool.false_eq_true, if_false]
          exact .nothing hid hcleared
        | false =>
          have hnot : o.ret = false := by
            cases hend with
            | added _ _ h hm => simp [finishTransaction, h, hm] at hf
            | moved _ _ h | ignored _ _ h | failed h => exact h
          simp only [hnot, Bool.or_false, Bool.false_eq_true, if_false, Bool.not_false, if_true]
          exact ⟨rfl, rfl, hcleared⟩

theorem storeTransient_cases (a : Ambient) (name : SelectionName) (written : ℕ → Option Bytes)
    (mimeTypes : List CString) (s : State) :
    if (receiveAll s.config written 0 mimeTypes).isNone
    then LeftBehind (s.storeTransientDeeds a name written mimeTypes) s
      (s.storeTransient a name written mimeTypes)
    else StaysHonest (s.storeTransientDeeds a name written mimeTypes) s
      (s.storeTransient a name written mimeTypes) := by
  unfold storeTransientDeeds storeTransient
  dsimp only
  cases receiveAll s.config written 0 mimeTypes with
  | none => exact ⟨rfl, rfl, rfl⟩
  | some data =>
    -- the transient entry is set at once
    have hset := set_keeps a.sql (some name) (by decide : (-1 : ℤ) ≤ 0)
      { s with id := -1, transient := data } { s with id := -1, transient := data } s
    exact fun last hlast => hset last hlast

theorem wsignalSelection_cases (a : Ambient) {s : State} (hwf : s.db.WF) (name : SelectionName)
    (written : ℕ → Option Bytes) (mimeTypes : List CString) (transient : Bool) :
    if s.copyFails a written mimeTypes transient
    then LeftBehind (s.wsignalSelectionDeeds a name written mimeTypes transient) s
      (s.wsignalSelection a name written mimeTypes transient)
    else StaysHonest (s.wsignalSelectionDeeds a name written mimeTypes transient) s
      (s.wsignalSelection a name written mimeTypes transient) := by
  unfold copyFails wsignalSelectionDeeds wsignalSelection
  by_cases hmime : mimeTypes = []
  · subst hmime
    rw [if_pos List.length_nil, if_pos List.length_nil, if_neg (by simp)]
    exact .nothing rfl rfl
  · have hlength : ¬ mimeTypes.length = 0 := fun h => hmime (List.length_eq_zero_iff.mp h)
    rw [if_neg hlength, if_neg hlength, decide_eq_true hmime, Bool.true_and]
    cases transient with
    | true =>
      have htransient := storeTransient_cases a name written mimeTypes s.clearTransient
      change if (receiveAll s.config written 0 mimeTypes).isNone then _ else _ at htransient
      simp only [if_true]
      cases hreceived : (receiveAll s.config written 0 mimeTypes).isNone with
      | true =>
        rw [hreceived, if_pos rfl] at htransient
        exact ⟨htransient.deeds, htransient.id, htransient.cleared⟩
      | false =>
        rw [hreceived, if_neg Bool.false_ne_true] at htransient
        exact htransient.of_congr rfl rfl
    | false =>
      have hbegin : databaseDoTransaction (a.sql .beginImmediate 0) .immediate
          s.clearTransient.db = if a.sql .beginImmediate 0 && s.db.saved.isNone then
            (true, ⟨s.db.tables, some s.db.tables⟩) else (false, s.db) := by
        change databaseDoTransaction _ _ s.db = _
        obtain ⟨tables, saved⟩ := s.db
        cases a.sql .beginImmediate 0 <;> cases saved <;> rfl
      simp only [Bool.false_eq_true, if_false, hbegin]
      cases hopen : a.sql .beginImmediate 0 && s.db.saved.isNone with
      | false => exact .nothing rfl rfl
      | true =>
        have hstore := storeSelection_cases (a := a)
          (s := { s.clearTransient with db := ⟨s.db.tables, some s.db.tables⟩ }) rfl hwf.tables name
          written mimeTypes
        change if (receiveAll s.config written 0 mimeTypes).any (fun content =>
          a.completes s.config.dedup content s.db.tables ||
            a.recognizes s.config.dedup content s.db.tables) then _ else _ at hstore
        simp only [if_true, Bool.true_and]
        cases hdone : (receiveAll s.config written 0 mimeTypes).any (fun content =>
          a.completes s.config.dedup content s.db.tables ||
            a.recognizes s.config.dedup content s.db.tables) with
        | true =>
          rw [hdone, if_pos rfl] at hstore
          rw [Bool.not_true, if_neg Bool.false_ne_true]
          have hkeeps : StaysHonest _ s _ := hstore.of_congr rfl rfl
          exact hkeeps.congr rfl rfl
        | false =>
          rw [hdone, if_neg Bool.false_ne_true] at hstore
          exact ⟨hstore.deeds, hstore.id, hstore.cleared⟩

/-! ## Steps -/

/-- The event is a copy that fails. -/
def fails (s : State) (i : Input) : Bool :=
  match i.event with
  | .selection name (some written) _ =>
    (s.findSeat name.1).any (fun seat => reaches name.2 seat &&
      s.copyFails (i.ambient 0) written seat.mimeTypes seat.transient)
  | _ => false

theorem addSeat_keeps (a : Ambient) (globalName : ℕ) (name : CString) (s : State) :
    StaysHonest (s.addSeatDeeds a globalName name) s (s.addSeat a globalName name) := by
  unfold addSeatDeeds addSeat
  cases s.findSeat globalName with
  | some _ => exact .nothing rfl rfl
  | none =>
    dsimp only
    intro last hlast
    have hsame : ∀ seats, ({ s with seats := seats } : State).Honest last := fun seats =>
      (honest_congr rfl rfl).mp hlast
    split
    · obtain ⟨hjust, hkept⟩ := asks_justified
        (hlast.asks a.sql none (newSeat s.config globalName name))
      exact ⟨hjust, by rw [hkept]; exact hsame _⟩
    · exact ⟨trivial, hsame _⟩

theorem nullTimer_keeps (a : Ambient) (type : SelectionType) (ok : Bool) (seat : Seat) (s : State) :
    StaysHonest (s.nullTimerDeeds a type ok seat) s (s.nullTimer a type ok seat) := by
  have hcurrent : (s.nullTimer a type ok seat).id = s.id ∧
      (s.nullTimer a type ok seat).cleared = s.cleared := by
    unfold nullTimer
    split <;> exact ⟨rfl, rfl⟩
  unfold nullTimerDeeds
  split
  · intro last hlast
    exact ⟨⟨hlast _, trivial⟩, (honest_congr hcurrent.1 hcurrent.2).mpr hlast⟩
  · exact .nothing hcurrent.1 hcurrent.2

/-- Without an offer, the callback is not invoked. -/
theorem selectionGone_keeps (s : State) (name : SelectionName) (timerOk : Bool)
    (ambient : ℕ → Ambient) : StaysHonest (s.deeds ⟨.selection name none timerOk, ambient⟩) s
      (step s ⟨.selection name none timerOk, ambient⟩) := by
  simp only [step, handle, onSeat, deeds, onSeatDeeds]
  cases s.findSeat name.1 with
  | none => exact .nothing rfl rfl
  | some seat =>
    dsimp only
    split
    · rw [selectionDeeds, selection]
      dsimp only
      cases (selectionEvent seat.blocked (none : Option (ℕ → Option Bytes)).isSome s.wsignalCanSet
        timerOk (seat.sel name.2)).1 <;> exact .nothing rfl rfl
    · exact .nothing rfl rfl

theorem selection_step {s : State} (hwf : s.db.WF) (name : SelectionName)
    (written : ℕ → Option Bytes) (timerOk : Bool) (ambient : ℕ → Ambient) :
    if s.fails ⟨.selection name (some written) timerOk, ambient⟩
    then LeftBehind (s.deeds ⟨.selection name (some written) timerOk, ambient⟩) s
      (step s ⟨.selection name (some written) timerOk, ambient⟩)
    else StaysHonest (s.deeds ⟨.selection name (some written) timerOk, ambient⟩) s
      (step s ⟨.selection name (some written) timerOk, ambient⟩) := by
  simp only [step, handle, onSeat, deeds, onSeatDeeds, fails]
  cases s.findSeat name.1 with
  | none =>
    rw [if_neg (by simp)]
    exact .nothing rfl rfl
  | some seat =>
    dsimp only
    rw [Option.any_some]
    have hdeliver := selectionEvent_fst seat.blocked (some written).isSome s.wsignalCanSet timerOk
      (seat.sel name.2)
    have hreaches : reaches name.2 seat = (seat.enabled && (selectionEvent seat.blocked
        (some written).isSome s.wsignalCanSet timerOk (seat.sel name.2)).1) := by
      rw [hdeliver, reaches, Option.isSome_some, Bool.and_true, Bool.and_assoc, Bool.and_assoc,
        Bool.and_assoc]
    rw [hreaches]
    cases henabled : seat.enabled with
    | false => exact .nothing rfl rfl
    | true =>
      rw [if_pos rfl, if_pos rfl, selectionDeeds, selection, Bool.true_and]
      dsimp only
      cases (selectionEvent seat.blocked (some written).isSome s.wsignalCanSet timerOk
        (seat.sel name.2)).1 with
      | false => exact .nothing rfl rfl
      | true =>
        have hcases := wsignalSelection_cases (ambient 0) (s := s.putSeat (seat.setSel name.2
          (selectionEvent seat.blocked (some written).isSome s.wsignalCanSet timerOk
            (seat.sel name.2)).2)) hwf (seat.globalName, name.2) written seat.mimeTypes
            seat.transient
        change if s.copyFails (ambient 0) written seat.mimeTypes seat.transient then _ else _
          at hcases
        rw [Bool.true_and]
        cases hfails : s.copyFails (ambient 0) written seat.mimeTypes seat.transient with
        | true =>
          rw [hfails, if_pos rfl] at hcases
          exact ⟨hcases.deeds, hcases.id, hcases.cleared⟩
        | false =>
          rw [hfails, if_neg Bool.false_ne_true] at hcases
          have hkeeps : StaysHonest _ s _ := hcases.of_congr rfl rfl
          exact hkeeps.congr rfl rfl

theorem step_staysHonest {s : State} (hreach : Reachable s) {i : Input} (h : s.fails i = false) :
    StaysHonest (s.deeds i) s (step s i) := by
  obtain ⟨event, ambient⟩ := i
  cases event with
  | restart config =>
    exact fun last _ => ⟨trivial, honest_iff.mpr fun _ hcleared => nomatch hcleared⟩
  | addSeat globalName name => exact addSeat_keeps (ambient 0) globalName name s
  | removeSeat globalName | toplevel tp | disconnect fd => exact .nothing rfl rfl
  | dataOffer globalName | offer globalName mimeType | cancelled name current =>
    simp only [step, handle, deeds, onSeat]
    split
    · exact .nothing rfl rfl
    · split <;> exact .nothing rfl rfl
  | connect fd =>
    refine .nothing ?_ ?_ <;> simp only [step, handle, connect] <;> split <;> rfl
  | nullTimer name ok =>
    simp only [step, handle, onSeat, deeds, onSeatDeeds]
    cases s.findSeat name.1 with
    | none => exact .nothing rfl rfl
    | some seat =>
      dsimp only
      split
      · exact nullTimer_keeps (ambient 0) name.2 ok seat s
      · exact .nothing rfl rfl
  | selection name offer timerOk =>
    cases offer with
    | none => exact selectionGone_keeps s name timerOk ambient
    | some written =>
      have hstep := selection_step hreach.wf.db name written timerOk ambient
      rwa [h, if_neg Bool.false_ne_true] at hstep
  | message fd msg =>
    simp only [step, handle, deeds]
    cases s.findClient fd with
    | none => exact .nothing rfl rfl
    | some client => exact messageCallback_keeps ambient client msg hreach.wf.db

theorem step_leftBehind {s : State} (hreach : Reachable s) {i : Input} (h : s.fails i = true) :
    LeftBehind (s.deeds i) s (step s i) := by
  obtain ⟨event, ambient⟩ := i
  unfold fails at h
  split at h
  · rename_i name written timerOk hevent
    obtain rfl : event = _ := hevent
    have hstep := selection_step hreach.wf.db name written timerOk ambient
    have hfails : s.fails ⟨.selection name (some written) timerOk, ambient⟩ = true := h
    rwa [hfails, if_pos rfl] at hstep
  · cases h

/-- A copy fails only as long as the flag is not set. -/
def FlagInTime (s : State) (i : Input) : Prop := s.fails i = true → s.cleared = false

/-- A step is honest afterwards exactly if it is no failed copy with the flag set. -/
theorem step_honest_iff {s : State} (hreach : Reachable s) {last : Bool} (h : s.Honest last)
    (i : Input) :
    (step s i).Honest (lastExplicit last (s.deeds i)) ↔ s.FlagInTime i := by
  cases hfails : s.fails i with
  | false =>
    have hnext := (step_staysHonest hreach hfails last h).2
    exact ⟨fun _ hyes => (nomatch hfails.symm.trans hyes), fun _ => hnext⟩
  | true =>
    obtain ⟨hdeeds, hid, hcleared⟩ := step_leftBehind hreach hfails
    rw [hdeeds, honest_iff, hid, hcleared]
    constructor
    · intro hhonest _
      rw [← Bool.not_eq_true]
      exact fun hyes => nomatch hhonest (by decide) hyes
    · intro hflag _ hyes
      rw [hflag hfails] at hyes
      cases hyes

theorem step_justified {s : State} (hreach : Reachable s) {last : Bool} (h : s.Honest last)
    (i : Input) : Justified last (s.deeds i) := by
  cases hfails : s.fails i with
  | false => exact (step_staysHonest hreach hfails last h).1
  | true =>
    rw [(step_leftBehind hreach hfails).deeds]
    trivial

end State

/-! ## Runs -/

/-- The daemon with what was assigned last. -/
def honestStep (x : State × Bool) (i : Input) : State × Bool :=
  (step x.1 i, lastExplicit x.2 (x.1.deeds i))

theorem run_honestStep (s : State) (last : Bool) (inputs : List Input) :
    run honestStep (s, last) inputs =
      (run step s inputs, lastExplicit last (record step State.deeds s inputs)) := by
  induction inputs generalizing s last with
  | nil => rfl
  | cons i inputs ih =>
    rw [run_cons, honestStep, ih, run_cons, record, lastExplicit_append]

theorem justified_record {s : State} {last : Bool} {inputs : List Input} (hreach : Reachable s)
    (hlast : s.Honest last) (h : Meets step State.FlagInTime s inputs) :
    Justified last (record step State.deeds s inputs) := by
  induction inputs generalizing s last with
  | nil => trivial
  | cons i inputs ih =>
    rw [record, justified_append]
    exact ⟨State.step_justified hreach hlast i,
      ih (hreach.step i) ((State.step_honest_iff hreach hlast i).mpr h.1) h.2⟩

/-- As long as no copy fails with the flag set, every clear that is asked for follows an explicit
one; and exactly so long, no clear would be asked for at any other time. -/
theorem clears_explicitly_iff (config : Config) (a : Ambient) (inputs : List Input) :
    (Meets step State.FlagInTime (boot config a) inputs →
        Justified false (record step State.deeds (boot config a) inputs)) ∧
      ((∀ is, is <+: inputs → (run step (boot config a) is).Honest
          (lastExplicit false (record step State.deeds (boot config a) is))) ↔
        Meets step State.FlagInTime (boot config a) inputs) := by
  have hboot : (boot config a).Honest false :=
    State.honest_iff.mpr fun _ hcleared => nomatch hcleared
  constructor
  · exact justified_record (.boot config a) hboot
  · have hiff : (∀ is, is <+: inputs → (run honestStep (boot config a, false) is).1.Honest
        (run honestStep (boot config a, false) is).2) ↔
        Meets honestStep (fun (x : State × Bool) i => x.1.FlagInTime i) (boot config a, false)
          inputs :=
      throughout_iff (I := fun x : State × Bool => Reachable x.1)
        (P := fun x : State × Bool => x.1.Honest x.2) (fun x i hreach => hreach.step i)
        (fun x i hreach hlast => State.step_honest_iff hreach hlast i) (.boot config a) hboot
    simp only [run_honestStep] at hiff
    rw [hiff]
    exact Meets.map (f := Prod.fst) fun x i => rfl

/-- The clipboard is cleared, then a copy fails, then a seat is plugged in. -/
def clearedThenFailed : List Input :=
  [.quiet (.addSeat 0 seat0), .quiet (.connect 0),
    .quiet (.message 0 (some (.setClipboard (some (-1)))))] ++ offerEvents 0 [textPlain] ++
    [.quiet (.selection (0, .regular) (some fun _ => none) true), .quiet (.addSeat 1 seat0)]

/-- The selections of the new seat are cleared, although the last thing that happened was a copy. -/
theorem clearedThenFailed_not_justified :
    ¬ Justified false (record step State.deeds (boot configInit (.quiet 0)) clearedThenFailed) := by
  decide +kernel

end Swayclip

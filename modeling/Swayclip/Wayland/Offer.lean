import Swayclip.Wayland.Seat

/-! # What an offer comes to

The two filters of an offer in closed form, independently of the order in which its types
are announced, against their purpose: a type that either filter blocks blocks the offer,
a type that either marks as transient makes it transient, and a type is received when
both admit it. A type that the global list does not admit never reaches the second
filter, and this is the whole difference.
-/

namespace Swayclip

namespace MimeFilter

def blocks (f : MimeFilter) (m : CString) : Bool := matchRegexArray f.blockedMimeTypes m

def marks (f : MimeFilter) (m : CString) : Bool := matchRegexArray f.transientMimeTypes m

/-- An empty list of allowed types admits every type. -/
def admits (f : MimeFilter) (m : CString) : Bool :=
  f.allowedMimeTypes.isEmpty || matchRegexArray f.allowedMimeTypes m

end MimeFilter

/-! ## The purpose -/

/-- What the selection callback should be given for an offer, if anything. -/
def intendedOffer (config : MimeFilter) (toplevel : Option MimeFilter) (offered : List CString) :
    Option (List CString × Bool) :=
  if offered.any (fun m => config.blocks m || toplevel.any (fun tp => tp.blocks m)) then none
  else some
    (offered.filter (fun m => config.admits m && toplevel.all (fun tp => tp.admits m)),
      offered.any (fun m => config.marks m || toplevel.any (fun tp => tp.marks m)))

/-- What the selection callback is given by a non-NULL selection event. -/
def handedOver (seat : Collected) (canSet timerOk : Bool) (sel : Selection) :
    Option (List CString × Bool) :=
  if (selectionEvent seat.blocked true canSet timerOk sel).1 then
    some (seat.mimeTypes, seat.transient)
  else none

/-! ## The two checks in closed form -/

section Checks
variable (config : MimeFilter) (toplevel : Option MimeFilter)

/-- The toplevel lists are asked only about a type that the global list admits. -/
def blockSeen (m : CString) : Bool :=
  config.blocks m || (config.admits m && toplevel.any (fun tp => tp.blocks m))

def markSeen (m : CString) : Bool :=
  config.marks m || (config.admits m && toplevel.any (fun tp => tp.marks m))

def admitted (m : CString) : Bool := config.admits m && toplevel.all (fun tp => tp.admits m)

theorem seatCheckMimeType_eq (f : MimeFilter) (m : CString) {seat : Collected}
    (h : seat.blocked = false) :
    seatCheckMimeType f m seat =
      if f.blocks m then (false, { seat with blocked := true })
      else (f.admits m, { seat with transient := seat.transient || f.marks m }) := by
  obtain ⟨types, blocked, transient⟩ := seat
  have hb : (f.blockedMimeTypes.length > 0 ∧ matchRegexArray f.blockedMimeTypes m = true) ↔
      f.blocks m = true := by
    refine ⟨fun hm => hm.2, fun hm => ⟨List.length_pos_iff.mpr ?_, hm⟩⟩
    rintro hnil
    simp [MimeFilter.blocks, hnil, matchRegexArray] at hm
  have ha : (f.allowedMimeTypes.length > 0 ∧ (!matchRegexArray f.allowedMimeTypes m) = true) ↔
      f.admits m = false := by
    simp [MimeFilter.admits, List.length_pos_iff]
  subst h
  unfold seatCheckMimeType
  by_cases hblock : f.blocks m = true
  · simp only [hb, hblock, if_true, Bool.false_eq_true, if_false]
  · simp only [hb, ha, hblock, if_false, Bool.false_eq_true]
    cases transient <;> cases hmark : f.marks m <;> cases hadm : f.admits m <;>
      simp_all [MimeFilter.marks]

/-- One `offer` event on an offer that is not blocked yet. -/
theorem dataOfferEventOffer_blocked (m : CString) {seat : Collected} (h : seat.blocked = false) :
    (dataOfferEventOffer config toplevel m seat).blocked = blockSeen config toplevel m := by
  obtain ⟨types, blocked, transient⟩ := seat
  subst h
  unfold dataOfferEventOffer blockSeen
  rw [seatCheckMimeType_eq config m rfl]
  cases hblock : config.blocks m
  · cases hadm : config.admits m
    · simp
    · cases toplevel with
      | none => simp
      | some tp =>
        simp only [Bool.false_eq_true, if_false, Bool.not_true, Option.any_some]
        rw [seatCheckMimeType_eq tp m rfl]
        cases tp.blocks m <;> cases tp.admits m <;> simp
  · simp

theorem dataOfferEventOffer_eq (m : CString) {seat : Collected} (h : seat.blocked = false)
    (hm : blockSeen config toplevel m = false) :
    dataOfferEventOffer config toplevel m seat =
      { mimeTypes := seat.mimeTypes ++ [m].filter (admitted config toplevel)
        blocked := false
        transient := seat.transient || markSeen config toplevel m } := by
  obtain ⟨types, blocked, transient⟩ := seat
  subst h
  simp only [blockSeen, Bool.or_eq_false_iff] at hm
  unfold dataOfferEventOffer markSeen admitted
  rw [seatCheckMimeType_eq config m rfl]
  cases hadm : config.admits m
  · simp [hm.1, hadm]
  · cases toplevel with
    | none => simp [hm.1, hadm]
    | some tp =>
      have htp : tp.blocks m = false := by simpa [hadm] using hm.2
      simp only [hm.1, Bool.false_eq_true, if_false, Bool.not_true, Option.any_some,
        Option.all_some]
      rw [seatCheckMimeType_eq tp m rfl]
      cases hadmTp : tp.admits m <;> simp [htp, hadm, hadmTp, Bool.or_assoc]

/-- Once blocked, an offer stays blocked. -/
theorem dataOfferEventOffer_of_blocked (m : CString) {seat : Collected} (h : seat.blocked = true) :
    dataOfferEventOffer config toplevel m seat = seat := by
  simp [dataOfferEventOffer, seatCheckMimeType, h]

/-- The events of an offer, from any state of the seat. -/
theorem foldl_offer_blocked (offered : List CString) (seat : Collected) :
    (offered.foldl (fun seat m => dataOfferEventOffer config toplevel m seat) seat).blocked =
      (seat.blocked || offered.any (blockSeen config toplevel)) := by
  induction offered generalizing seat with
  | nil => simp
  | cons m offered ih =>
    rw [List.foldl_cons, ih, List.any_cons, ← Bool.or_assoc]
    congr 1
    cases h : seat.blocked
    · rw [dataOfferEventOffer_blocked config toplevel m h, Bool.false_or]
    · rw [dataOfferEventOffer_of_blocked config toplevel m h, h, Bool.true_or]

theorem foldl_offer_eq {offered : List CString} {seat : Collected} (h : seat.blocked = false)
    (hoff : offered.any (blockSeen config toplevel) = false) :
    offered.foldl (fun seat m => dataOfferEventOffer config toplevel m seat) seat =
      { mimeTypes := seat.mimeTypes ++ offered.filter (admitted config toplevel)
        blocked := false
        transient := seat.transient || offered.any (markSeen config toplevel) } := by
  induction offered generalizing seat with
  | nil =>
    obtain ⟨types, blocked, transient⟩ := seat
    subst h
    simp
  | cons m offered ih =>
    rw [List.any_cons, Bool.or_eq_false_iff] at hoff
    rw [List.foldl_cons, dataOfferEventOffer_eq config toplevel m h hoff.1, ih rfl hoff.2]
    cases hm : admitted config toplevel m <;> simp [hm, Bool.or_assoc]

theorem announce_blocked (offered : List CString) :
    (announce config toplevel offered).blocked = offered.any (blockSeen config toplevel) := by
  rw [announce, foldl_offer_blocked, dataDeviceEventDataOffer, Bool.false_or]

/-- What the code hands over, in the shape of `intendedOffer`. -/
theorem handedOver_announce (offered : List CString) (canSet timerOk : Bool) {sel : Selection}
    (henabled : sel.enabled = true) (hsource : sel.extDataSource = none) :
    handedOver (announce config toplevel offered) canSet timerOk sel =
      if offered.any (blockSeen config toplevel) then none
      else some (offered.filter (admitted config toplevel),
        offered.any (markSeen config toplevel)) := by
  unfold handedOver
  rw [announce_blocked]
  cases hoff : offered.any (blockSeen config toplevel)
  · rw [announce, foldl_offer_eq config toplevel rfl hoff]
    simp [selectionEvent, henabled, hsource, dataDeviceEventDataOffer]
  · simp [selectionEvent, henabled, hsource]

end Checks

/-! ## The difference -/

theorem any_blockSeen_imp {config : MimeFilter} {toplevel : Option MimeFilter}
    {offered : List CString} (h : offered.any (blockSeen config toplevel) = true) :
    offered.any (fun m => config.blocks m || toplevel.any (fun tp => tp.blocks m)) = true := by
  obtain ⟨m, hm, hs⟩ := List.any_eq_true.mp h
  refine List.any_eq_true.mpr ⟨m, hm, ?_⟩
  rw [blockSeen, Bool.or_eq_true, Bool.and_eq_true] at hs
  rw [Bool.or_eq_true]
  exact hs.imp_right And.right

theorem any_markSeen_imp {config : MimeFilter} {toplevel : Option MimeFilter}
    {offered : List CString} (h : offered.any (markSeen config toplevel) = true) :
    offered.any (fun m => config.marks m || toplevel.any (fun tp => tp.marks m)) = true := by
  obtain ⟨m, hm, hs⟩ := List.any_eq_true.mp h
  refine List.any_eq_true.mpr ⟨m, hm, ?_⟩
  rw [markSeen, Bool.or_eq_true, Bool.and_eq_true] at hs
  rw [Bool.or_eq_true]
  exact hs.imp_right And.right

/-- The filters do what they are for exactly on the offers in which every effect that a
toplevel pattern should have is also brought about by a type that gets that far. -/
theorem handedOver_eq_intended_iff (config : MimeFilter) (toplevel : Option MimeFilter)
    (offered : List CString) (canSet timerOk : Bool) (sel : Selection)
    (henabled : sel.enabled = true) (hsource : sel.extDataSource = none) :
    handedOver (announce config toplevel offered) canSet timerOk sel =
        intendedOffer config toplevel offered ↔
      (∀ m ∈ offered, toplevel.any (fun tp => tp.blocks m) = true →
          offered.any (blockSeen config toplevel) = true) ∧
        (offered.any (blockSeen config toplevel) = false →
          ∀ m ∈ offered, toplevel.any (fun tp => tp.marks m) = true →
            offered.any (markSeen config toplevel) = true) := by
  rw [handedOver_announce config toplevel offered canSet timerOk henabled hsource, intendedOffer]
  cases hseen : offered.any (blockSeen config toplevel)
  · cases hblock : offered.any (fun m => config.blocks m || toplevel.any (fun tp => tp.blocks m))
    · -- not blocked on either side: the lists agree, and the flags up to the marks
      have hnone : ∀ m ∈ offered, toplevel.any (fun tp => tp.blocks m) = false := fun m hm =>
        (Bool.or_eq_false_iff.mp (Bool.eq_false_iff.mpr (List.any_eq_false.mp hblock m hm))).2
      have hmarks : offered.any (markSeen config toplevel) =
            offered.any (fun m => config.marks m || toplevel.any (fun tp => tp.marks m)) ↔
          ∀ m ∈ offered, toplevel.any (fun tp => tp.marks m) = true →
            offered.any (markSeen config toplevel) = true := by
        constructor
        · intro he m hm ht
          rw [he, List.any_eq_true]
          exact ⟨m, hm, by rw [ht, Bool.or_true]⟩
        · intro h
          rw [Bool.eq_iff_iff]
          refine ⟨any_markSeen_imp, fun he => ?_⟩
          obtain ⟨m, hm, hs⟩ := List.any_eq_true.mp he
          rcases Bool.or_eq_true _ _ ▸ hs with hc | ht
          · exact List.any_eq_true.mpr ⟨m, hm, by rw [markSeen, hc, Bool.true_or]⟩
          · exact h m hm ht
      simp only [Bool.false_eq_true, if_false, Option.some.injEq, Prod.mk.injEq, hmarks]
      constructor
      · exact fun h => ⟨fun m hm ht => absurd ht (by simp [hnone m hm]), fun _ => h.2⟩
      · exact fun h => ⟨rfl, h.2 trivial⟩
    · -- blocked by a toplevel pattern that the code does not get to ask
      obtain ⟨m, hm, hs⟩ := List.any_eq_true.mp hblock
      have hns : blockSeen config toplevel m = false :=
        Bool.eq_false_iff.mpr (List.any_eq_false.mp hseen m hm)
      have hc : config.blocks m = false := (Bool.or_eq_false_iff.mp hns).1
      have ht : toplevel.any (fun tp => tp.blocks m) = true := by simpa [hc] using hs
      simp only [Bool.false_eq_true, if_false, if_true, reduceCtorEq, false_iff]
      exact fun h => absurd (h.1 m hm ht) (by simp)
  · simp [any_blockSeen_imp hseen]

/-- The type by which password managers mark what they copy. -/
def passwordHint : CString :=
  ⟨ascii ['x', '-', 'k', 'd', 'e', '-', 'p', 'a', 's', 's', 'w', 'o', 'r', 'd', 'M', 'a', 'n', 'a',
    'g', 'e', 'r', 'H', 'i', 'n', 't'], by decide⟩

def textHtml : CString := ⟨ascii ['t', 'e', 'x', 't', '/', 'h', 't', 'm', 'l'], by decide⟩

/-- `allowed = ["^text/"]`. -/
def allowText : MimeFilter where
  allowedMimeTypes := [fun m => ascii ['t', 'e', 'x', 't', '/'] <+: m.bytes]
  blockedMimeTypes := []
  transientMimeTypes := []

/-- `blocked_mime_types = ["^x-kde-passwordManagerHint$"]`. -/
def blockPasswords : MimeFilter where
  allowedMimeTypes := []
  blockedMimeTypes := [fun m => m = passwordHint]
  transientMimeTypes := []

/-- With an empty global list the toplevel lists see every type. -/
theorem handedOver_eq_intended_of_hint :
    handedOver (announce blockPasswords (some blockPasswords) [passwordHint, textHtml]) true true
        ⟨true, false, none, false, 0⟩ =
      intendedOffer blockPasswords (some blockPasswords) [passwordHint, textHtml] :=
  (handedOver_eq_intended_iff blockPasswords (some blockPasswords) [passwordHint, textHtml] true
    true ⟨true, false, none, false, 0⟩ rfl rfl).mpr ⟨by decide, by decide⟩

/-- A password is handed over although the active toplevel blocks its hint: the global list
does not admit the hint, so the pattern is never asked. -/
theorem handedOver_ne_intended_of_hint :
    handedOver (announce allowText (some blockPasswords) [passwordHint, textHtml]) true true
        ⟨true, false, none, false, 0⟩ ≠
      intendedOffer allowText (some blockPasswords) [passwordHint, textHtml] := by
  decide

end Swayclip

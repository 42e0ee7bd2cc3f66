import Swayclip.Common.Sha256

/-! # Filtering the mime types of an offer

An offer announces its mime types one event at a time. Each passes the global lists and
then those of the active toplevel, and leaves its mark on the seat: the types to receive
and the flags `blocked` and `transient`.
-/

namespace Swayclip

/-- A compiled pattern, as the set of strings that `regexec` matches. -/
abbrev Regex := CString → Bool

/-- The three lists of patterns, as `config` and `config_toplevel` both have them. -/
structure MimeFilter where
  allowedMimeTypes : List Regex
  blockedMimeTypes : List Regex
  transientMimeTypes : List Regex

def matchRegexArray (arr : List Regex) (target : CString) : Bool :=
  arr.any (fun reg => reg target)

/-- What a seat has collected about the offer being announced. -/
structure Collected where
  mimeTypes : List CString
  blocked : Bool
  transient : Bool
deriving DecidableEq

def seatCheckMimeType (f : MimeFilter) (mimeType : CString) (seat : Collected) :
    Bool × Collected :=
  if seat.blocked then (false, seat)
  else if f.blockedMimeTypes.length > 0 ∧ matchRegexArray f.blockedMimeTypes mimeType then
    (false, { seat with blocked := true })
  else
    let seat := if !seat.transient && matchRegexArray f.transientMimeTypes mimeType then
      { seat with transient := true } else seat
    if f.allowedMimeTypes.length > 0 ∧ !matchRegexArray f.allowedMimeTypes mimeType then
      (false, seat)
    else (true, seat)

/-- The second check is only reached by what the first lets through. -/
def dataOfferEventOffer (config : MimeFilter) (toplevel : Option MimeFilter) (mimeType : CString)
    (seat : Collected) : Collected :=
  let (ok, seat) := seatCheckMimeType config mimeType seat
  if !ok then seat
  else
    let (ok, seat) := match toplevel with
      | none => (true, seat)
      | some tp => seatCheckMimeType tp mimeType seat
    if !ok then seat
    else { seat with mimeTypes := seat.mimeTypes ++ [mimeType] }

def dataDeviceEventDataOffer : Collected := ⟨[], false, false⟩

/-- A whole offer: the `data_offer` event and one `offer` event for each type. -/
def announce (config : MimeFilter) (toplevel : Option MimeFilter) (offered : List CString) :
    Collected :=
  offered.foldl (fun seat m => dataOfferEventOffer config toplevel m seat) dataDeviceEventDataOffer

end Swayclip

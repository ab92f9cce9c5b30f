import RateLedger.Number.Numeral
import RateLedger.Time.DateText
import RateLedger.Vendor.Delivery
import RateLedger.Vendor.Machine

/-!
# Entries

The entry of an answer names the codes, the rate, and the time in a zone. Its fields may be values
of any kind, which are read as the phrases for them; the rate may be a number, a truth value or a
text with a number. Texts with halves of surrogate pairs in them write no number and no date.
-/

namespace RateLedger.Vendor

/-- The entry of an answer, with its fields as they came. -/
structure Entry where
  base : Json
  quote : Json
  rate : Json
  refreshed : Json
  zone : Json
  /-- The entry as a whole. -/
  whole : Json

namespace Entry

/-- A failure that shows an entry. -/
def failure (fault : Fault) (shown : Json) : Failure := .vendor ⟨fault, none, shown⟩

/-- The field that holds the entry. -/
def sectionName : String := "Realtime Currency Exchange Rate"

/-- The entry in an answer; each of its fields has to be there. -/
def ofPayload (payload : Json) : Except Failure Entry :=
  match payload.get sectionName with
  | .obj fields =>
    let whole := Json.obj fields
    let entry : Entry := ⟨whole.get "1. From_Currency Code", whole.get "3. To_Currency Code",
      whole.get "5. Exchange Rate", whole.get "6. Last Refreshed", whole.get "7. Time Zone", whole⟩
    if [entry.base, entry.quote, entry.rate, entry.refreshed, entry.zone].any Json.isNull then
      .error (failure .missingFields whole)
    else .ok entry
  | _ => .error (failure .noRate payload)

/-- The rate of an entry. -/
def readRate (entry : Entry) : Except Failure Binary64 :=
  let orNotNumeric (found : Option Binary64) : Except Failure Binary64 :=
    match found with
    | some rate => .ok rate
    | none => .error (failure .rateNotNumeric entry.whole)
  match entry.rate with
  | .int value =>
    match Binary64.ofInt? value with
    | some rate => .ok rate
    | none => .error .outOfRange
  | .float rate => .ok rate
  | .bool value => .ok (.ofInt value.toInt)
  | .str text => orNotNumeric (text.plain?.bind Number.Numeral.liberal?)
  | _ => orNotNumeric none

/-- The time that a date text means in a zone of a database; a failure shows `shown`. -/
def readTimeIn (database : Time.Zone.Database) (text zone : Text.Wide) (shown : Json) :
    Except Failure Time.DateTime :=
  match Time.Zone.namedIn database zone with
  | .error .unknown => .error (failure (.unknownZone zone) shown)
  | .error .unreadable => .error .zoneUnreadable
  | .ok known =>
    match text.plain?.bind Time.DateText.read? with
    | none => .error (failure (.unreadableDate text) shown)
    | some (date, second) =>
      match known.reading? date second with
      | some time => .ok time
      | none => .error .outOfRange

/-- What an entry tells. -/
def sighting (entry : Entry) (zones : Time.Zone.Database) : Except Failure Sighting := do
  let rate ← entry.readRate
  let time ← readTimeIn zones entry.refreshed.phrase entry.zone.phrase entry.whole
  match Sighting.takenAt entry.base.phrase entry.quote.phrase rate time with
  | .ok y => .ok y
  | .error (.invalid _) => .error (failure .invalidEntry entry.whole)
  | .error .outOfRange => .error .outOfRange

end Entry

end RateLedger.Vendor

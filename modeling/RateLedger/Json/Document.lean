import RateLedger.Json.Basic
import RateLedger.Sighting
import RateLedger.Time.Iso

/-!
# Documents

A sighting is given out as a JSON object with its codes, its rate and its time in UTC, which is
written with `Z` for its distance from UTC, and so is an observation.
-/

namespace RateLedger

/-- The international form of a second in UTC, with `Z`. -/
def Time.Iso.zulu (d : DateTime) : String :=
  String.ofList (day d.date ++ 'T' :: clock d.secondOfDay ++ ['Z'])

/-- The document of a sighting. -/
def Sighting.document (y : Sighting) : Json :=
  .obj [("from", .str y.base), ("to", .str y.quote), ("rate", .float y.rate),
    ("timestamp", .str (Time.Iso.zulu y.time))]

/-- The document of an observation. -/
def Observation.document (x : Observation) : Json := x.sighting.document

end RateLedger

import RateLedger.Proofs.Answers
import RateLedger.Proofs.Dates
import RateLedger.Proofs.Depths
import RateLedger.Proofs.Rounding

/-!
# What comes of asking a vendor

Whatever is delivered for a request, asking for a rate comes to a sighting of what the entry says,
or to a failure of the vendor. It fails in another way only for an entry that leads out of the range
of numbers or of times, with a whole number that is too large for a double or with a time that lies
outside the years 1 to 9999 in UTC; for an answer that is nested too deeply for the machine; and for
a zone under whose name the machine holds something that cannot be read (`rate_outcomes`).
-/

namespace RateLedger

open Number (twoTo)
open Time (microsPerSecond)
open Time.DateTime (wallOf)

namespace Observation

section

variable {make : (seconds : Int) → seconds ≤ Time.maxSecond → Except Fault α}
  {time : Time.DateTime}

/-- What is made for a single second is made at the readings within this second. -/
theorem atReading_eq_ok_iff {a : α} {p : Prop} {second : Nat} (hsecond : second ≤ Time.maxSecond)
    (hmake : ∀ seconds h, make seconds h = .ok a ↔ p ∧ (second : Int) = seconds) :
    atReading make time = .ok a ↔ p ∧ time.instant / microsPerSecond = second := by
  unfold atReading
  cases hutc : time.toUtc? with
  | none =>
    have hout := Time.DateTime.ofWall?_eq_none_iff.1 hutc
    refine ⟨nofun, fun ⟨_, hwithin⟩ => ?_⟩
    unfold Time.minWall Time.maxWall Time.microsPerDay at hout
    unfold microsPerSecond at *
    omega
  | some utc =>
    obtain ⟨hwall, -⟩ := Time.DateTime.ofWall?_eq_some_iff.1 hutc
    have hwhole : wholeSeconds utc = time.instant / microsPerSecond := by
      rw [wholeSeconds, hwall]
    rw [← hwhole, eq_comm (a := wholeSeconds utc), ← hmake _ (wholeSeconds_le utc)]
    dsimp only
    cases make (wholeSeconds utc) (wholeSeconds_le utc) <;> simp

theorem atReading_eq_outOfRange_iff :
    atReading make time = .error .outOfRange ↔
      time.instant < Time.minWall ∨ Time.maxWall < time.instant := by
  have hout : time.toUtc? = none ↔ _ := Time.DateTime.ofWall?_eq_none_iff
  rw [← hout]
  unfold atReading
  cases time.toUtc? with
  | none => simp
  | some utc =>
    dsimp only
    cases make (wholeSeconds utc) (wholeSeconds_le utc) <;> simp

end

/-- An observation is taken at the whole second of the instant. -/
theorem takenAt_eq_ok_iff {base quote : String} {rate : Binary64} {time : Time.DateTime}
    {x : Observation} :
    takenAt base quote rate time = .ok x ↔
      (x.base = base ∧ x.quote = quote ∧ x.rate = rate) ∧
        time.instant / microsPerSecond = x.seconds :=
  atReading_eq_ok_iff x.inTime fun _ _ => by rw [make_eq_ok_iff, and_assoc, and_assoc]

end Observation

theorem Sighting.takenAt_eq_ok_iff {base quote : Text.Wide} {rate : Binary64}
    {time : Time.DateTime} {y : Sighting} :
    takenAt base quote rate time = .ok y ↔
      (y.base = base ∧ y.quote = quote ∧ y.rate = rate) ∧
        time.instant / microsPerSecond = y.seconds :=
  Observation.atReading_eq_ok_iff y.inTime fun _ _ => by
    rw [make_eq_ok_iff, and_assoc, and_assoc]

namespace Vendor

namespace Entry

/-- An entry tells a rate, and the time of its date in its zone, which a database knows, in
microseconds since the epoch. -/
structure Tells (entry : Entry) (zones : Time.Zone.Database) (rate : Binary64) (instant : Int) :
    Prop where
  rate : entry.readRate = .ok rate
  time : ∃ (zone : Time.Zone) (text : String) (date : Time.Date) (second : Nat),
    Time.Zone.namedIn zones entry.zone.phrase = .ok zone ∧ entry.refreshed.phrase = text ∧
      Time.DateText.read? text = some (date, second) ∧
      instant = wallOf date second - zone.offsetAt date.year (wallOf date second) * microsPerSecond

/-- The rate of an entry is a whole number from half a last place beyond the greatest double on. -/
def IsTooLarge (entry : Entry) : Prop :=
  ∃ value, entry.rate = .int value ∧ (twoTo 54 - 1) * twoTo 970 ≤ value.natAbs

/-- The time of an entry lies outside the years 1 to 9999 in UTC. -/
def IsOutOfTime (entry : Entry) (zones : Time.Zone.Database) : Prop :=
  ∃ rate instant, entry.Tells zones rate instant ∧
    (instant < Time.minWall ∨ Time.maxWall < instant)

/-- An entry has a rate, but what a database holds under the name of its zone cannot be read. -/
structure IsUnreadable (entry : Entry) (zones : Time.Zone.Database) : Prop where
  rate : ∃ rate, entry.readRate = .ok rate
  zone : Time.Zone.namedIn zones entry.zone.phrase = .error .unreadable

/-- A sighting is what an entry says. -/
structure Says (entry : Entry) (zones : Time.Zone.Database) (y : Sighting) : Prop where
  base : y.base = entry.base.phrase
  quote : y.quote = entry.quote.phrase
  told : ∃ instant, entry.Tells zones y.rate instant ∧ instant / microsPerSecond = y.seconds

/-- The rate of an entry is read, or fails as a failure of the vendor, unless it is too large. -/
theorem readRate_cases (entry : Entry) :
    (∃ rate, entry.readRate = .ok rate) ∨
      (∃ fault, entry.readRate = .error (failure fault entry.whole)) ∨
      entry.readRate = .error .outOfRange ∧ entry.IsTooLarge := by
  unfold readRate
  cases hrate : entry.rate with
  | null | arr | obj => exact .inr (.inl ⟨_, rfl⟩)
  | bool | float => exact .inl ⟨_, rfl⟩
  | str text =>
    dsimp only
    cases text.plain?.bind Number.Numeral.liberal? with
    | none => exact .inr (.inl ⟨_, rfl⟩)
    | some rate => exact .inl ⟨rate, rfl⟩
  | int value =>
    dsimp only
    cases hvalue : Binary64.ofInt? value with
    | none => exact .inr (.inr ⟨rfl, value, hrate, Binary64.ofInt?_eq_none_iff.1 hvalue⟩)
    | some rate => exact .inl ⟨rate, rfl⟩

theorem IsTooLarge.readRate {entry : Entry} (h : entry.IsTooLarge) :
    entry.readRate = .error .outOfRange := by
  obtain ⟨value, hrate, hvalue⟩ := h
  unfold Entry.readRate
  rw [hrate]
  dsimp only
  rw [Binary64.ofInt?_eq_none_iff.2 hvalue]

section

variable {zones : Time.Zone.Database}

/-- A time is read, or fails as a failure of the vendor, unless the zone cannot be read. -/
theorem readTimeIn_cases (text zone : Text.Wide) (shown : Json) :
    (∃ time, readTimeIn zones text zone shown = .ok time) ∨
      (∃ fault, readTimeIn zones text zone shown = .error (failure fault shown)) ∨
      readTimeIn zones text zone shown = .error .zoneUnreadable ∧
        Time.Zone.namedIn zones zone = .error .unreadable := by
  unfold readTimeIn
  rcases Time.Zone.namedIn zones zone with missing | known
  · cases missing with
    | unknown => exact .inr (.inl ⟨_, rfl⟩)
    | unreadable => exact .inr (.inr ⟨rfl, rfl⟩)
  · cases hdate : text.plain?.bind Time.DateText.read? with
    | none => exact .inr (.inl ⟨_, rfl⟩)
    | some found =>
      obtain ⟨plain, -, hread⟩ := Option.bind_eq_some_iff.1 hdate
      obtain ⟨time, hreading, -⟩ := Time.Zone.exists_reading hread known
      dsimp only
      rw [hreading]
      exact .inl ⟨time, rfl⟩

theorem readTimeIn_eq_ok_iff {text zone : Text.Wide} {shown : Json} {instant : Int} :
    (∃ time, readTimeIn zones text zone shown = .ok time ∧ time.instant = instant) ↔
      ∃ (known : Time.Zone) (plain : String) (date : Time.Date) (second : Nat),
        Time.Zone.namedIn zones zone = .ok known ∧ text = plain ∧
          Time.DateText.read? plain = some (date, second) ∧ instant =
          wallOf date second - known.offsetAt date.year (wallOf date second) * microsPerSecond := by
  unfold readTimeIn
  rcases Time.Zone.namedIn zones zone with missing | known
  · cases missing <;> simp
  · cases text with
    | broken before half behind => simp [Text.Wide.plain?]
    | plain text =>
      cases hdate : Time.DateText.read? text with
      | none => simp [Text.Wide.plain?, hdate]
      | some found =>
        obtain ⟨date, second⟩ := found
        obtain ⟨time, hreading, hinstant⟩ := Time.Zone.exists_reading hdate known
        simp [Text.Wide.plain?, hdate, hreading, hinstant, eq_comm]

variable {entry : Entry} {y : Sighting}

theorem tells_iff {rate : Binary64} {instant : Int} :
    entry.Tells zones rate instant ↔ entry.readRate = .ok rate ∧
      ∃ time, readTimeIn zones entry.refreshed.phrase entry.zone.phrase entry.whole = .ok time ∧
        time.instant = instant := by
  rw [readTimeIn_eq_ok_iff]
  exact ⟨fun h => ⟨h.rate, h.time⟩, fun h => ⟨h.1, h.2⟩⟩

theorem sighting_of_unrated {failure : Failure} (hrate : entry.readRate = .error failure) :
    entry.sighting zones = .error failure := by
  unfold sighting
  rw [hrate]
  rfl

theorem sighting_of_untimed {rate : Binary64} {failure : Failure}
    (hrate : entry.readRate = .ok rate)
    (htime : readTimeIn zones entry.refreshed.phrase entry.zone.phrase entry.whole =
      .error failure) : entry.sighting zones = .error failure := by
  unfold sighting
  rw [hrate]
  simp only [bind, Except.bind, htime]

/-- What an entry comes to: a sighting that it says, or a failure. -/
inductive Shows (entry : Entry) (zones : Time.Zone.Database) : Except Failure Sighting → Prop
  | tells (y : Sighting) (h : entry.Says zones y) : Shows entry zones (.ok y)
  | fails (error : Error) : Shows entry zones (.error (.vendor error))
  | outOfRange (h : entry.IsTooLarge ∨ entry.IsOutOfTime zones) :
    Shows entry zones (.error .outOfRange)
  | unreadable (h : entry.IsUnreadable zones) : Shows entry zones (.error .zoneUnreadable)

theorem shows_sighting (entry : Entry) (zones : Time.Zone.Database) :
    entry.Shows zones (entry.sighting zones) := by
  rcases readRate_cases entry with ⟨rate, hrate⟩ | ⟨fault, hrate⟩ | ⟨hrate, hlarge⟩
  · rcases readTimeIn_cases entry.refreshed.phrase entry.zone.phrase entry.whole with
      ⟨time, htime⟩ | ⟨fault, htime⟩ | ⟨htime, hzone⟩
    · have htells : entry.Tells zones rate time.instant := tells_iff.2 ⟨hrate, time, htime, rfl⟩
      rw [sighting_of_read hrate htime]
      cases htaken : Sighting.takenAt entry.base.phrase entry.quote.phrase rate time with
      | ok y =>
        obtain ⟨⟨hbase, hquote, rfl⟩, hseconds⟩ := Sighting.takenAt_eq_ok_iff.1 htaken
        exact .tells y ⟨hbase, hquote, _, htells, hseconds⟩
      | error refusal =>
        cases refusal with
        | invalid problems => exact .fails _
        | outOfRange =>
          have hout := Observation.atReading_eq_outOfRange_iff.1 htaken
          exact .outOfRange (.inr ⟨rate, _, htells, hout⟩)
    · rw [sighting_of_untimed hrate htime]
      exact .fails _
    · rw [sighting_of_untimed hrate htime]
      exact .unreadable ⟨⟨rate, hrate⟩, hzone⟩
  · rw [sighting_of_unrated hrate]
    exact .fails _
  · rw [sighting_of_unrated hrate]
    exact .outOfRange (.inl hlarge)

theorem Says.sighting (h : entry.Says zones y) : entry.sighting zones = .ok y := by
  obtain ⟨instant, htells, hseconds⟩ := h.told
  obtain ⟨hrate, time, htime, rfl⟩ := tells_iff.1 htells
  rw [sighting_of_read hrate htime,
    Sighting.takenAt_eq_ok_iff.2 ⟨⟨h.base, h.quote, rfl⟩, hseconds⟩]

theorem IsOutOfTime.sighting (h : entry.IsOutOfTime zones) :
    entry.sighting zones = .error .outOfRange := by
  obtain ⟨rate, instant, htells, hout⟩ := h
  obtain ⟨hrate, time, htime, rfl⟩ := tells_iff.1 htells
  have htaken : Sighting.takenAt entry.base.phrase entry.quote.phrase rate time =
      .error .outOfRange := Observation.atReading_eq_outOfRange_iff.2 hout
  rw [sighting_of_read hrate htime, htaken]

theorem IsUnreadable.sighting (h : entry.IsUnreadable zones) :
    entry.sighting zones = .error .zoneUnreadable := by
  obtain ⟨rate, hrate⟩ := h.rate
  refine sighting_of_untimed hrate ?_
  unfold readTimeIn
  rw [h.zone]

end

theorem ofPayload_cases (payload : Json) :
    (∃ entry, ofPayload payload = .ok entry) ∨
      ∃ error, ofPayload payload = .error (.vendor error) := by
  unfold ofPayload
  split
  · dsimp only
    split
    · exact .inr ⟨_, rfl⟩
    · exact .inl ⟨_, rfl⟩
  · exact .inr ⟨_, rfl⟩

end Entry

/-! ## Asking for a rate -/

namespace Delivery

/-- The answer that is read of a delivery, be it a good one or one to a refused request. -/
def reply? : Delivery → Option Reply
  | answered reply => some reply
  | refused reply => reply
  | broken _ => none

/-- The answer of a delivery is nested too deeply. -/
def IsTooDeep (nesting : Nat) (delivery : Delivery) : Prop :=
  ∃ reply, delivery.reply? = some reply ∧ Json.read nesting reply.body = .error .tooDeep

section

variable {nesting : Nat} {delivery : Delivery}

theorem refusal_cases (nesting : Nat) (reply : Reply) :
    (∃ error, reply.refusal nesting = .vendor error) ∨
      reply.refusal nesting = .tooDeep ∧ Json.read nesting reply.body = .error .tooDeep := by
  unfold Reply.refusal Reply.content
  rcases Json.read nesting reply.body with fault | content
  · cases fault with
    | malformed => exact .inl ⟨_, rfl⟩
    | tooDeep => exact .inr ⟨rfl, rfl⟩
  · exact .inl ⟨_, rfl⟩

theorem reply_cases (nesting : Nat) (reply : Reply) :
    (∃ payload, reply.payload nesting = .ok payload) ∨
      (∃ error, reply.payload nesting = .error (.vendor error)) ∨
      reply.payload nesting = .error .tooDeep ∧
        Json.read nesting reply.body = .error .tooDeep := by
  unfold Reply.payload
  rcases Json.read nesting reply.body with fault | content
  · cases fault with
    | malformed => exact .inr (.inl ⟨_, rfl⟩)
    | tooDeep => exact .inr (.inr ⟨rfl, rfl⟩)
  · cases content with
    | obj fields =>
      dsimp only
      cases notice? (.obj fields) with
      | none => exact .inl ⟨_, rfl⟩
      | some notice => exact .inr (.inl ⟨_, rfl⟩)
    | _ => exact .inr (.inl ⟨_, rfl⟩)

theorem payload_cases (nesting : Nat) (delivery : Delivery) :
    (∃ payload, delivery.payload nesting = .ok payload) ∨
      (∃ error, delivery.payload nesting = .error (.vendor error)) ∨
      delivery.payload nesting = .error .tooDeep ∧ delivery.IsTooDeep nesting := by
  have hrefused : ∀ reply : Reply, delivery.reply? = some reply →
      delivery.payload nesting = .error (reply.refusal nesting) →
      (∃ error, delivery.payload nesting = .error (.vendor error)) ∨
        delivery.payload nesting = .error .tooDeep ∧ delivery.IsTooDeep nesting := by
    intro reply hreply hpayload
    rcases refusal_cases nesting reply with ⟨error, herror⟩ | ⟨herror, hdeep⟩
    · exact .inl ⟨error, herror ▸ hpayload⟩
    · exact .inr ⟨herror ▸ hpayload, reply, hreply, hdeep⟩
  cases delivery with
  | answered reply =>
    cases hfailure : reply.isFailure with
    | true => exact .inr (hrefused reply rfl (if_pos hfailure))
    | false =>
      have hpayload : (answered reply).payload nesting = reply.payload nesting :=
        if_neg (Bool.eq_false_iff.1 hfailure)
      rw [hpayload]
      exact (reply_cases nesting reply).imp_right (Or.imp_right fun ⟨hfault, hdeep⟩ =>
        ⟨hfault, reply, rfl, hdeep⟩)
  | refused reply =>
    cases reply with
    | none => exact .inr (.inl ⟨_, rfl⟩)
    | some reply => exact .inr (hrefused reply rfl rfl)
  | broken reply => exact .inr (.inl ⟨_, rfl⟩)

theorem IsTooDeep.payload (h : delivery.IsTooDeep nesting) :
    delivery.payload nesting = .error .tooDeep := by
  obtain ⟨reply, hreply, hdeep⟩ := h
  have hrefusal : reply.refusal nesting = .tooDeep := by
    unfold Reply.refusal Reply.content
    rw [hdeep]
  have hpayload : reply.payload nesting = .error .tooDeep := by
    unfold Reply.payload
    rw [hdeep]
  cases delivery with
  | answered other =>
    obtain rfl : other = reply := Option.some.inj hreply
    unfold Delivery.payload
    dsimp only
    rw [hrefusal, hpayload, ite_self]
  | refused other =>
    obtain rfl : other = some reply := hreply
    exact congrArg Except.error hrefusal
  | broken other => cases hreply

end

/-- What a delivery comes to on a machine: what an entry in it comes to, or a failure. -/
inductive Brings (machine : Machine) (delivery : Delivery) : Except Failure Sighting → Prop
  | entry (entry : Entry) (holds : delivery.Holds machine.nesting entry)
    {outcome : Except Failure Sighting} (shows : entry.Shows machine.zones outcome) :
    Brings machine delivery outcome
  | fails (error : Error) : Brings machine delivery (.error (.vendor error))
  | tooDeep (h : delivery.IsTooDeep machine.nesting) : Brings machine delivery (.error .tooDeep)

end Delivery

namespace Client

section

variable {machine : Machine} {delivery : Delivery} {entry : Entry} {y : Sighting}

theorem readDelivery_of_error {failure : Failure}
    (h : delivery.payload machine.nesting = .error failure) :
    readDelivery machine delivery = .error failure := by
  unfold readDelivery
  rw [h]

theorem brings_readDelivery (machine : Machine) (delivery : Delivery) :
    delivery.Brings machine (readDelivery machine delivery) := by
  rcases delivery.payload_cases machine.nesting with
    ⟨payload, hpayload⟩ | ⟨error, hpayload⟩ | ⟨hpayload, hdeep⟩
  · rcases Entry.ofPayload_cases payload with ⟨entry, hentry⟩ | ⟨error, hentry⟩
    · have hholds : delivery.Holds machine.nesting entry := ⟨payload, hpayload, hentry⟩
      rw [readDelivery_of_holds hholds]
      exact .entry entry hholds (entry.shows_sighting machine.zones)
    · have hfails : readDelivery machine delivery = .error (.vendor error) := by
        unfold readDelivery
        rw [hpayload]
        dsimp only
        rw [hentry]
      rw [hfails]
      exact .fails error
  · rw [readDelivery_of_error hpayload]
    exact .fails error
  · rw [readDelivery_of_error hpayload]
    exact .tooDeep hdeep

theorem readDelivery_eq_ok_iff :
    readDelivery machine delivery = .ok y ↔
      ∃ entry, delivery.Holds machine.nesting entry ∧ entry.Says machine.zones y := by
  constructor
  · intro hy
    have hbrings := brings_readDelivery machine delivery
    rw [hy] at hbrings
    cases hbrings with
    | entry entry holds shows =>
      cases shows with
      | tells y h => exact ⟨entry, holds, h⟩
  · rintro ⟨entry, hholds, hsays⟩
    rw [readDelivery_of_holds hholds]
    exact hsays.sighting

theorem readDelivery_eq_outOfRange_iff :
    readDelivery machine delivery = .error .outOfRange ↔
      ∃ entry, delivery.Holds machine.nesting entry ∧
        (entry.IsTooLarge ∨ entry.IsOutOfTime machine.zones) := by
  constructor
  · intro hout
    have hbrings := brings_readDelivery machine delivery
    rw [hout] at hbrings
    cases hbrings with
    | entry entry holds shows =>
      cases shows with
      | outOfRange h => exact ⟨entry, holds, h⟩
  · rintro ⟨entry, hholds, hlarge | htime⟩
    · rw [readDelivery_of_holds hholds]
      exact Entry.sighting_of_unrated hlarge.readRate
    · rw [readDelivery_of_holds hholds]
      exact htime.sighting

theorem readDelivery_eq_zoneUnreadable_iff :
    readDelivery machine delivery = .error .zoneUnreadable ↔
      ∃ entry, delivery.Holds machine.nesting entry ∧ entry.IsUnreadable machine.zones := by
  constructor
  · intro hzone
    have hbrings := brings_readDelivery machine delivery
    rw [hzone] at hbrings
    cases hbrings with
    | entry entry holds shows =>
      cases shows with
      | unreadable h => exact ⟨entry, holds, h⟩
  · rintro ⟨entry, hholds, hzone⟩
    rw [readDelivery_of_holds hholds]
    exact hzone.sighting

theorem readDelivery_eq_tooDeep_iff :
    readDelivery machine delivery = .error .tooDeep ↔ delivery.IsTooDeep machine.nesting := by
  refine ⟨fun hdeep => ?_, fun hdeep => readDelivery_of_error hdeep.payload⟩
  have hbrings := brings_readDelivery machine delivery
  rw [hdeep] at hbrings
  cases hbrings with
  | entry entry holds shows => cases shows
  | tooDeep h => exact h

theorem readDelivery_fails {failure : Failure}
    (h : readDelivery machine delivery = .error failure) :
    failure ∈ [.outOfRange, .zoneUnreadable, .tooDeep] ∨ ∃ error, failure = .vendor error := by
  have hbrings := brings_readDelivery machine delivery
  rw [h] at hbrings
  cases hbrings with
  | entry entry holds shows => cases shows <;> simp
  | fails error => exact .inr ⟨error, rfl⟩
  | tooDeep => simp

end

/-- Let the rate of a pair be asked for, and anything be delivered: an answer of any status and
text, a refusal, or a request that breaks. A sighting is returned if and only if the delivery holds
an entry that says it: with the phrases for its codes, the rate read from it, and the second of its
date in its zone, as the machine knows it. The asking fails because something is out of range if and
only if the entry has a whole number that is too large for a double, or tells a time outside the
years 1 to 9999 in UTC. It fails for the depth of the answer if and only if this is nested too
deeply for the machine, and for an unreadable zone if and only if the machine holds such a one under
the name in the entry, and the rate of the entry is read. Every other failure is one of the vendor.
-/
theorem rate_outcomes (client : Client) (machine : Machine) (deliver : Request → Delivery)
    (pair : Pair) (hask : canAsk pair = true) :
    let delivery := deliver (client.request pair)
    let outcome := client.rate machine deliver pair
    (∀ y, outcome = .ok y ↔
        ∃ entry, delivery.Holds machine.nesting entry ∧ entry.Says machine.zones y) ∧
      (outcome = .error .outOfRange ↔ ∃ entry, delivery.Holds machine.nesting entry ∧
        (entry.IsTooLarge ∨ entry.IsOutOfTime machine.zones)) ∧
      (outcome = .error .zoneUnreadable ↔
        ∃ entry, delivery.Holds machine.nesting entry ∧ entry.IsUnreadable machine.zones) ∧
      (outcome = .error .tooDeep ↔ delivery.IsTooDeep machine.nesting) ∧
      ∀ failure, outcome = .error failure →
        failure ∈ [.outOfRange, .zoneUnreadable, .tooDeep] ∨ ∃ error, failure = .vendor error := by
  intro delivery outcome
  have hrate : outcome = readDelivery machine delivery := if_pos hask
  rw [hrate]
  exact ⟨fun y => readDelivery_eq_ok_iff, readDelivery_eq_outOfRange_iff,
    readDelivery_eq_zoneUnreadable_iff, readDelivery_eq_tooDeep_iff,
    fun failure => readDelivery_fails⟩

/-- The first day of the calendar, in a zone ahead of UTC, is a date like others, but the clock of
UTC has no reading for it; something is held under the name of a zone that cannot be read; and a
text of brackets only is nested as deeply as it is long. -/
theorem rate_other_failures :
    let client : Client := ⟨"key", "https://www.alphavantage.co", ⟨0⟩⟩
    let pair : Pair := ⟨"EUR", "USD"⟩
    let tokyo : Time.Zone := .upTo (-2587712400) 33539 (.fixed 32400)
    let zones : Time.Zone.Database := fun name =>
      if name = "Asia/Tokyo" then .ok tokyo
      else if name = "America" then .error .unreadable
      else .error .unknown
    let outcome (body : String) : Except Failure Sighting :=
      client.rate ⟨zones, 1000⟩ (fun _ => .answered ⟨200, body⟩) pair
    canAsk pair = true ∧
      outcome (answer "EUR" "USD" "1.5" "0001-01-01" "Asia/Tokyo").write = .error .outOfRange ∧
      outcome (answer "EUR" "USD" "1.5" "2024-06-01" "America").write = .error .zoneUnreadable ∧
      outcome (String.ofList (List.replicate 1001 '[')) = .error .tooDeep := by
  intro client pair tokyo zones outcome
  have hask : canAsk pair = true := by decide +kernel
  have houtcomes (body : String) := rate_outcomes client ⟨zones, 1000⟩
    (fun _ => .answered ⟨200, body⟩) pair hask
  have hrate : Number.Numeral.liberal? "1.5" = some ⟨4609434218613702656⟩ := by decide +kernel
  refine ⟨hask, (houtcomes _).2.1.2 ?_, (houtcomes _).2.2.1.2 ?_, (houtcomes _).2.2.2.1.2 ?_⟩
  · obtain ⟨whole, hholds⟩ : ∃ whole, (Delivery.answered _).Holds 1000 _ :=
      holds_answer "EUR" "USD" "1.5" "0001-01-01" "Asia/Tokyo" (by decide)
    have hzone : Time.Zone.namedIn zones "Asia/Tokyo" = .ok tokyo := by decide +kernel
    have hdate : Time.DateText.read? "0001-01-01" = some (⟨1, 1, 1⟩, 0) := by decide +kernel
    refine ⟨_, hholds, .inr ⟨⟨4609434218613702656⟩, Time.minWall - 33539 * microsPerSecond,
      ⟨readRate_str hrate, tokyo, "0001-01-01", _, _, hzone, rfl, hdate, ?_⟩, .inl ?_⟩⟩
    · decide +kernel
    · decide +kernel
  · obtain ⟨whole, hholds⟩ : ∃ whole, (Delivery.answered _).Holds 1000 _ :=
      holds_answer "EUR" "USD" "1.5" "2024-06-01" "America" (by decide)
    have hzone : Time.Zone.namedIn zones "America" = .error .unreadable := by decide +kernel
    exact ⟨_, hholds, ⟨_, readRate_str hrate⟩, hzone⟩
  · have hdeep := Json.read_brackets 1000 []
    rw [List.append_nil] at hdeep
    exact ⟨_, rfl, hdeep⟩

end Client

end Vendor

end RateLedger

import AbyssBackend.Error
import AbyssBackend.Text

namespace AbyssBackend

open Text

/-- Time zones, which the program takes from a library: a zone by its name, and at a Unix second the seconds that local
time is ahead of UTC. `debug` is how a text is shown in a message. -/
class TimeZones where
  Tz : Type
  decEq : DecidableEq Tz
  utc : Tz
  parse : String → Option Tz
  offsetAt : Tz → ℤ → ℤ
  debug : String → String

variable [TimeZones]

instance : DecidableEq TimeZones.Tz := TimeZones.decEq

/-- Resolves a summary's `tz` parameter; without one, days follow UTC. -/
def parseTimeZone (raw : Option String) : Except AppError TimeZones.Tz :=
  match (raw.map trim).filter fun name => name ≠ "" with
  | none => .ok TimeZones.utc
  | some name =>
    match TimeZones.parse name with
    | some zone => .ok zone
    | none => .error (.validation s!"tz must be an IANA time zone name, got {TimeZones.debug name}")

end AbyssBackend

import Scheduling.Time.Zone.Rules
import Scheduling.Time.Zone.Names
/-!
# Choosing a time zone

The zone in which schedules are read: the local time of the process, or a zone named in the
time-zone database. A zone that is named carries its offsets, which the database gives; the
database itself may be any. The one that is used where no other is given has on record the offsets
of a few zones only.
-/

namespace Scheduling

namespace Zone

/-- A time-zone database: the offsets of each zone by its name. -/
abbrev Database := String → Zone

/-- The local time of the process is five and a half hours ahead of UTC, all year round. -/
def processLocal : Zone := fixed 19800

/-- Zones called `Etc/GMT±n`: the sign counts hours west of UTC. -/
def ofHoursWest? (name : List Char) : Option Zone :=
  match name with
  | 'E' :: 't' :: 'c' :: '/' :: 'G' :: 'M' :: 'T' :: sign :: digits =>
    match (String.ofList digits).toNat? with
    | some hours =>
      if sign = '+' then some (fixed (-3600 * hours))
      else if sign = '-' then some (fixed (3600 * hours))
      else none
    | none => none
  | _ => none

/-- The offsets of a zone, if they are on record here. The record begins in 2009 and ends with
2099; where it has changes, it says nothing about other years. -/
def recorded? (name : String) : Option Zone :=
  match name with
  | "UTC" | "GMT" | "Etc/UTC" => some utc
  | "Europe/Berlin" => some centralEurope
  | "America/New_York" => some easternAmerica
  | "Australia/Lord_Howe" => some lordHowe
  | "America/Sao_Paulo" => some brasilia
  | "America/St_Johns" => some newfoundland
  | "Pacific/Apia" => some samoa
  | "Asia/Kolkata" => some (fixed 19800)
  | "Asia/Kathmandu" => some (fixed 20700)
  | "Asia/Tokyo" => some (fixed 32400)
  | "Pacific/Kiritimati" => some (fixed 50400)
  | _ => ofHoursWest? name.toList

/-- The database of the zones on record, for the years 2009 to 2099. All other zones have a name but
no offsets in it, and UTC stands in their place: no time is to be computed in them. -/
def recorded : Database := fun name => (recorded? name).getD utc

end Zone

/-- The zone in which cron schedules are read. -/
inductive ZoneChoice
  /-- The local time of the process. -/
  | localTime
  /-- A zone of the time-zone database, with its offsets. -/
  | named (name : String) (offsets : Zone)
deriving DecidableEq, Repr, Inhabited

namespace ZoneChoice

/-- The name of a zone; the local time of the process is called `Local`. -/
def name : ZoneChoice → String
  | localTime => "Local"
  | named name _ => name

/-- The offsets of a zone. -/
def zone : ZoneChoice → Zone
  | localTime => Zone.processLocal
  | named _ offsets => offsets

/-- Reads a zone name: `local` in any letter case, or a database name in its exact spelling. -/
def ofName? (database : Zone.Database) (text : String) : Option ZoneChoice :=
  if text.toList.map Char.toLower = ['l', 'o', 'c', 'a', 'l'] then some localTime
  else if text ∈ Zone.names then some (named text (database text))
  else none

/-- A zone as it stands in the description of a cron table. -/
def describe : ZoneChoice → String
  | localTime => "Local"
  | named name _ => "Named(" ++ name ++ ")"

end ZoneChoice

end Scheduling

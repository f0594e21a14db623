/-!
# Time stamps of archive records

A record of an archive is stamped with a date and a time of day, each packed into 16 bits; the time
counts in steps of two seconds. Read as universal time, a stamp is a number of seconds since the
start of 1970. A stamp that is no date or no time of day counts as zero.
-/

namespace JarAudit.Zip

/-- A packed date and time of day. -/
structure DosTime where
  date : UInt16
  time : UInt16
  deriving DecidableEq, Repr

namespace DosTime

def day (stamp : DosTime) : Nat := stamp.date.toNat % 32

def month (stamp : DosTime) : Nat := stamp.date.toNat / 32 % 16

def year (stamp : DosTime) : Nat := 1980 + stamp.date.toNat / 512

def second (stamp : DosTime) : Nat := stamp.time.toNat % 32 * 2

def minute (stamp : DosTime) : Nat := stamp.time.toNat / 32 % 64

def hour (stamp : DosTime) : Nat := stamp.time.toNat / 2048

/-- Every fourth year is a leap year, every hundredth is not, every four-hundredth is. -/
def isLeap (year : Nat) : Bool := year % 4 == 0 && (year % 100 != 0 || year % 400 == 0)

/-- The lengths of the months. -/
def monthLengths (year : Nat) : List Nat :=
  [31, if isLeap year then 29 else 28, 31, 30, 31, 30, 31, 31, 30, 31, 30, 31]

/-- How many days lie between the start of 1970 and the start of a later year. -/
def daysBeforeYear (year : Nat) : Nat :=
  (List.range' 1970 (year - 1970)).foldl (fun days year =>
    days + if isLeap year then 366 else 365) 0

/-- How many days of a year lie before the start of a month. -/
def daysBeforeMonth (year month : Nat) : Nat :=
  ((monthLengths year).take (month - 1)).foldl (· + ·) 0

/-- The stamp is a date and a time of day. -/
def isValid (stamp : DosTime) : Bool :=
  (match stamp.month with
    | 0 => false
    | month + 1 => 0 < stamp.day && stamp.day ≤ (monthLengths stamp.year).getD month 0) &&
  stamp.hour < 24 && stamp.minute < 60 && stamp.second < 60

/-- Seconds since the start of 1970, or zero for a stamp that is no date and time. -/
def unixSeconds (stamp : DosTime) : Nat :=
  if stamp.isValid then
    let days := daysBeforeYear stamp.year + daysBeforeMonth stamp.year stamp.month + (stamp.day - 1)
    ((days * 24 + stamp.hour) * 60 + stamp.minute) * 60 + stamp.second
  else 0

end DosTime

end JarAudit.Zip

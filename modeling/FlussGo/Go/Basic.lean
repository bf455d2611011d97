import FlussGo.Lib.Outcome
import Mathlib.Data.Int.Order.Basic
import Mathlib.Tactic.Ring
/-!
# Errors, strings and times

The package's error sentinels, the errors built from them with `fmt.Errorf`, the two functions of Go's
`strings` package that decide what the client accepts, and `time.Time`.
-/
namespace FlussGo
variable {α : Type}
/-- The error variables that callers can test for with `errors.Is`. -/
inductive Sentinel where
  | invalidConfig
  | invalidSchema
  | invalidRow
  | tableKind
  | malformedRow
  | malformedRecordBatch
  | metadata
  | unknownTable
  | unknownPartition
  | unknownBucket
  | noBucketLeader
  | validation
  | writerState
  | wakeup
  | closed
  | canceled
deriving DecidableEq

def Sentinel.text : Sentinel → String
  | .invalidConfig => "fgo: invalid client configuration"
  | .invalidSchema => "fgo: invalid schema"
  | .invalidRow => "fgo: invalid row"
  | .tableKind => "fgo: unsupported table operation"
  | .malformedRow => "fgo: malformed row encoding"
  | .malformedRecordBatch => "fgo: malformed record batch"
  | .metadata => "fgo: stale or invalid metadata"
  | .unknownTable => "fgo: unknown table"
  | .unknownPartition => "fgo: unknown partition"
  | .unknownBucket => "fgo: unknown bucket"
  | .noBucketLeader => "fgo: bucket has no tablet leader"
  | .validation => "fgo: validation failure"
  | .writerState => "fgo: writer state is uncertain"
  | .wakeup => "fgo: log scanner wakeup"
  | .closed => "fgo: client closed"
  | .canceled => "context canceled"
/-- An error value: the sentinel it wraps, if any, and its text. -/
structure GoError where
  sentinel : Option Sentinel
  message : String
deriving DecidableEq

def newError (message : String) : GoError := ⟨none,message⟩
/-- `fmt.Errorf("%w: " + message, sentinel)`. -/
def errorf (sentinel : Sentinel) (message : String) : GoError :=
  ⟨some sentinel,sentinel.text ++ ": " ++ message⟩

def Sentinel.error (sentinel : Sentinel) : GoError := ⟨some sentinel,sentinel.text⟩

def GoError.wrap (context : String) (e : GoError) : GoError := ⟨e.sentinel,context ++ e.message⟩
/-- `fmt.Errorf("%w: " + context + "%v", sentinel, err)`: the cause survives as text only. -/
def GoError.under (sentinel : Sentinel) (context : String) (e : GoError) : GoError :=
  errorf sentinel (context ++ e.message)

abbrev Go (α : Type) := Outcome GoError α

def fail {α : Type} (message : String) : Go α := .err (newError message)
def failf {α : Type} (sentinel : Sentinel) (message : String) : Go α := .err (errorf sentinel message)

@[simp] theorem fail_ne_ok (message : String) (a : α) : (fail message : Go α) = .ok a ↔ False := by
  simp [fail]

@[simp] theorem failf_ne_ok (sentinel : Sentinel) (message : String) (a : α) :
    (failf sentinel message : Go α) = .ok a ↔ False := by
  simp [failf]

@[simp] theorem sat_fail (message : String) (P : α → Prop) : (fail message : Go α).Sat P := trivial

@[simp] theorem sat_failf (sentinel : Sentinel) (message : String) (P : α → Prop) :
    (failf sentinel message : Go α).Sat P := trivial

def isSpace (c : Char) : Bool :=
  let n := c.toNat
  [9, 10, 11, 12, 13, 32, 0x85, 0xa0, 0x1680, 0x2028, 0x2029, 0x202f, 0x205f, 0x3000].contains n ||
    (0x2000 ≤ n && n ≤ 0x200a)
/-- `strings.TrimSpace`, on the characters of the string. -/
def trimSpaceChars (cs : List Char) : List Char :=
  ((cs.dropWhile isSpace).reverse.dropWhile isSpace).reverse

def trimSpace (s : String) : String := String.ofList (trimSpaceChars s.toList)
/-- Case folding as far as a comparison with an ASCII word can see it: besides the ASCII letters
only the Kelvin sign and the long s fold to one. -/
def foldChar (c : Char) : Char :=
  if c.toNat = 0x212a then 'k' else if c.toNat = 0x17f then 's' else c.toLower
/-- `strings.EqualFold` with an ASCII second argument. -/
def equalFold (s word : String) : Bool := s.toList.map foldChar == word.toList.map foldChar
/-- An instant and the offset of its location from UTC. Seconds are unbounded; the codecs convert them. -/
structure Time where
  sec : Int
  nsec : Nat
  offset : Int
  nsec_lt : nsec < 1000000000
deriving DecidableEq

namespace Time
theorem ext {s t : Time} (hsec : s.sec = t.sec) (hn : s.nsec = t.nsec) (ho : s.offset = t.offset) : s = t := by
  cases s
  cases t
  simp_all

def secondsPerDay : Int := 86400

def epochDay (t : Time) : Int := (t.sec + t.offset) / secondsPerDay

def secondOfDay (t : Time) : Int := (t.sec + t.offset) % secondsPerDay

def hour (t : Time) : Int := t.secondOfDay / 3600
def minute (t : Time) : Int := t.secondOfDay % 3600 / 60
def second (t : Time) : Int := t.secondOfDay % 60
/-- `time.Unix(sec, nsec).UTC()`, which accepts nanoseconds outside one second. -/
def unix (sec nsec : Int) : Time where
  sec := sec + nsec / 1000000000
  nsec := (nsec % 1000000000).toNat
  offset := 0
  nsec_lt := by omega

def unixMilli (millis : Int) : Time := unix (millis.tdiv 1000) (millis.tmod 1000 * 1000000)
/-- `t.UnixMilli()` before it is cut to 64 bits. -/
def milli (t : Time) : Int := t.sec * 1000 + (t.nsec / 1000000 : Nat)

def add (t : Time) (nanos : Int) : Time where
  sec := t.sec + (t.nsec + nanos) / 1000000000
  nsec := ((t.nsec + nanos) % 1000000000).toNat
  offset := t.offset
  nsec_lt := by omega
/-- `time.Date(year, month, day, 0, 0, 0, 0, time.UTC)` for a day number. -/
def midnight (day : Int) : Time := unix (day * secondsPerDay) 0

theorem clock_eq (t : Time) : t.hour * 3600 + t.minute * 60 + t.second = t.secondOfDay := by
  simp only [hour,minute,second]
  omega

theorem secondOfDay_nonneg (t : Time) : 0 ≤ t.secondOfDay := by
  simp only [secondOfDay,secondsPerDay]
  omega

theorem secondOfDay_lt (t : Time) : t.secondOfDay < 86400 := by
  simp only [secondOfDay,secondsPerDay]
  omega

theorem epochDay_midnight (day : Int) : (midnight day).epochDay = day := by
  simp only [midnight,unix,epochDay,secondsPerDay]
  omega
/-- The wall clock of `t` read as an instant in UTC. -/
def wall (t : Time) : Time := ⟨t.sec + t.offset,t.nsec,0,t.nsec_lt⟩

def utc (t : Time) : Time := ⟨t.sec,t.nsec,0,t.nsec_lt⟩

def truncateMilli (t : Time) : Time :=
  ⟨t.sec,t.nsec / 1000000 * 1000000,t.offset,by have := t.nsec_lt; omega⟩
end Time
end FlussGo

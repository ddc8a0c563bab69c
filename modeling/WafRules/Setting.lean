import WafRules.Journal

/-!
# Settings

What is set from outside: the logger and the number of workers. For the root logger it
is decided how loud a record must be, where the records go, and how a line of the log is
laid out. A set-up replaces the one before it and keeps nothing of it.

The number of workers is an integer in decimal, with an optional sign and at least one
digit. A digit is a character of the general category Nd of Unicode 14. These come in
rows of ten with consecutive code points, one row for each script, so a row is known by
its zero. Single underscores may stand between two digits, and white space around the
whole. A text with too many digits is not read, whatever its value. The number decides
how a block is gone through, and changes no result.
-/

namespace WafRules

/-- Where records are written. -/
inductive LogTarget where
  | standardError | file
  deriving DecidableEq

structure LoggerSetup where
  name : String := rootLogger
  severity : Severity
  propagates : Bool := false
  target : LogTarget
  /-- The layout of a line: time, logger, severity, message. -/
  layout : String := "%(asctime)s %(name)s %(levelname)s %(message)s"
  deriving DecidableEq

/-- A name that stands for no severity. -/
structure UnknownLevel where
  name : Text
  deriving DecidableEq

def UnknownLevel.message (e : UnknownLevel) : String := s!"Unknown level: {e.name.quoted}"

/-- The severities by all the names that are understood. Two have a second name. -/
def Severity.names : List (String × Severity) :=
  [("CRITICAL", .critical), ("FATAL", .critical), ("ERROR", .error), ("WARN", .warning),
   ("WARNING", .warning), ("INFO", .info), ("DEBUG", .debug), ("NOTSET", .notSet)]

def Severity.ofName? (s : Text) : Option Severity :=
  (names.find? fun (name, _) => name.toList == s).map Prod.snd

/-- The set-up for an optional level. Without one, or with an empty one, warnings pass. -/
def LoggerSetup.make (level : Option Text) (target : LogTarget) :
    Except UnknownLevel LoggerSetup :=
  match level.filter fun s => !s.isEmpty with
  | none => .ok { severity := .warning, target := target }
  | some s =>
    match Severity.ofName? s with
    | some severity => .ok { severity := severity, target := target }
    | none => .error ⟨s⟩

/-- The zeros of the rows of decimal digits, in ascending order. -/
def digitZeros : List Nat :=
  [0x30, 0x660, 0x6F0, 0x7C0, 0x966, 0x9E6, 0xA66, 0xAE6, 0xB66, 0xBE6, 0xC66, 0xCE6,
   0xD66, 0xDE6, 0xE50, 0xED0, 0xF20, 0x1040, 0x1090, 0x17E0, 0x1810, 0x1946, 0x19D0,
   0x1A80, 0x1A90, 0x1B50, 0x1BB0, 0x1C40, 0x1C50, 0xA620, 0xA8D0, 0xA900, 0xA9D0,
   0xA9F0, 0xAA50, 0xABF0, 0xFF10, 0x104A0, 0x10D30, 0x11066, 0x110F0, 0x11136, 0x111D0,
   0x112F0, 0x11450, 0x114D0, 0x11650, 0x116C0, 0x11730, 0x118E0, 0x11950, 0x11C50,
   0x11D50, 0x11DA0, 0x16A60, 0x16AC0, 0x16B50, 0x1D7CE, 0x1D7D8, 0x1D7E2, 0x1D7EC,
   0x1D7F6, 0x1E140, 0x1E2F0, 0x1E950, 0x1FBF0]

/-- The value of a decimal digit of any script. -/
def digitValue? (c : Char) : Option Nat :=
  (digitZeros.find? fun first => first ≤ c.toNat && c.toNat < first + 10).map (c.toNat - ·)

/-- The digits of the basic range have their usual values. -/
example : "0123456789".toList.map digitValue? = (List.range 10).map some := by decide

/-- The most digits that an integer may be written with, leading zeros included. -/
def maxDigits : Nat := 4300

/-- The values of the digits of a text of digits, with single underscores between them. -/
def digitValues? : Text → Option (List Nat)
  | [] => none
  | c :: s => do
    let d ← digitValue? c
    match s with
    | [] => return [d]
    | e :: t => return d :: (← if e = '_' then digitValues? t else digitValues? (e :: t))

/-- The number with the given digits, the most significant first. -/
def ofDigits (ds : List Nat) : Nat := ds.foldl (fun n d => 10 * n + d) 0

def natOfText? (s : Text) : Option Nat := do
  let ds ← digitValues? s
  if ds.length ≤ maxDigits then some (ofDigits ds) else none

def intOfText? (s : Text) : Option Int :=
  match s.trim isWhiteSpace with
  | [] => none
  | c :: t =>
    if c = '+' then (natOfText? t).map fun n => (n : Int)
    else if c = '-' then (natOfText? t).map fun n => -(n : Int)
    else (natOfText? (c :: t)).map fun n => (n : Int)

/-- A sign, leading zeros and underscores do not change the value; a doubled underscore
is not read. -/
example : intOfText? "-0_12 ".toList = some (-12) ∧ intOfText? "1__2".toList = none := by
  decide

/-- The number of workers that a setting asks for. A setting that is absent or empty
asks for none, and so does a negative number; a text that is not an integer is ignored
and leaves a warning. -/
def workerCount : Option Text → Logged Nat
  | none => return 0
  | some s =>
    if s.isEmpty then return 0
    else
      match intOfText? s with
      | some n => return n.toNat
      | none => do
        Logged.log (.invalidWorkers s)
        return 0

end WafRules

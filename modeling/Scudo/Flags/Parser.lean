import Mathlib.Algebra.Ring.Int.Defs
import Scudo.Lib.Scan

/-!
The parser of the flags: what it reads from a string of items, the variables that it sets, and the
registry of the names that it does not know.
-/

namespace Scudo
open Scudo.Lib

inductive FlagType where
  | bool
  | int
  deriving DecidableEq, Repr

/-- The type of the variable of a flag. -/
@[reducible] def FlagType.Var : FlagType → Type
  | .bool => Bool
  | .int => Int

/-- What the process dies with. -/
inductive Fatal where
  | checkFailed (condition : String) (value1 value2 : Nat)
  | error (message : String)
  | invalidFlag (flagType : String) (value : List Char)
  deriving DecidableEq, Repr

def isSeparator (ch : Char) : Bool :=
  ch == ' ' || ch == ',' || ch == ':' || ch == '\n' || ch == '\t' || ch == '\r'

def isSeparatorOrNull (ch : Char) : Bool := ch == '\x00' || isSeparator ch

/-- A flag with what its variable holds. The names that are registered are identifiers. -/
structure Flag where
  name : List Char
  type : FlagType
  var : type.Var
  named : ∀ ch ∈ name, ch ≠ '=' ∧ isSeparatorOrNull ch = false

def Flag.set (flag : Flag) (value : flag.type.Var) : Flag := { flag with var := value }

def maxUnknownFlags : Nat := 16

/-- `UnknownFlagsNames[0..NumberOfUnknownFlags)`. -/
structure UnknownFlagsRegistry where
  names : List (List Char)
  le : names.length ≤ maxUnknownFlags

def UnknownFlagsRegistry.add (unknown : UnknownFlagsRegistry) (name : List Char) :
    Except Fatal UnknownFlagsRegistry :=
  if room : unknown.names.length < maxUnknownFlags then
    .ok ⟨unknown.names ++ [name], by rw [List.length_append]; exact room⟩
  else
    .error (.checkFailed "(NumberOfUnknownFlags) < (MaxUnknownFlags)" unknown.names.length
      maxUnknownFlags)

def maxFlags : Nat := 20

/-- `rest` is what `Buffer + Pos` points to. -/
structure FlagParser where
  flags : List Flag
  rest : List Char
  few : flags.length ≤ maxFlags

/-- The type `long` of the platform. -/
structure Long where
  bits : Nat
  wide : 32 ≤ bits

section Values

def isSpace (ch : Char) : Bool :=
  ch == ' ' || ch == '\t' || ch == '\n' || ch == '\x0b' || ch == '\x0c' || ch == '\r'

def digitValue (ch : Char) : Nat := ch.toNat - '0'.toNat

def intMax : Int := 2 ^ 31 - 1

def intMin : Int := -2 ^ 31

/-- What `strtol` returns, where it stops, and whether it sets `errno`. -/
structure Converted where
  value : Int
  valueEnd : List Char
  failed : Bool

/-- `strtol(text, &valueEnd, 10)`. -/
def strtol (long : Long) (text : List Char) : Converted :=
  let body := text.dropWhile isSpace
  let negative := first body == '-'
  let number := if first body = '-' ∨ first body = '+' then body.tail else body
  let digits := number.takeWhile Char.isDigit
  if digits = [] then ⟨0, text, false⟩
  else
    let magnitude : Int := digits.foldl (fun value ch => 10 * value + digitValue ch) 0
    let value := if negative then -magnitude else magnitude
    let valueEnd := number.dropWhile Char.isDigit
    if value > 2 ^ (long.bits - 1) - 1 then ⟨2 ^ (long.bits - 1) - 1, valueEnd, true⟩
    else if value < -2 ^ (long.bits - 1) then ⟨-2 ^ (long.bits - 1), valueEnd, true⟩
    else ⟨value, valueEnd, false⟩

def parseBool (value : List Char) : Option Bool :=
  if startsWith value ['0'] ∨ startsWith value ['n', 'o'] ∨
      startsWith value ['f', 'a', 'l', 's', 'e'] then some false
  else if startsWith value ['1'] ∨ startsWith value ['y', 'e', 's'] ∨
      startsWith value ['t', 'r', 'u', 'e'] then some true
  else none

/-- The cases of `runHandler` for a flag that it found. `reportInvalidFlag` does not return. -/
def Flag.parse (long : Long) : Flag → List Char → Except Fatal Flag
  | ⟨name, .bool, _, named⟩, value =>
    match parseBool value with
    | some b => .ok ⟨name, .bool, b, named⟩
    | none => .error (.invalidFlag "bool" value)
  | ⟨name, .int, _, named⟩, value =>
    let v := strtol long value
    if v.failed ∨ v.value > intMax ∨ v.value < intMin ∨
        (first v.valueEnd ≠ '"' ∧ first v.valueEnd ≠ '\'' ∧
          ¬isSeparatorOrNull (first v.valueEnd)) then .error (.invalidFlag "int" value)
    else .ok ⟨name, .int, v.value, named⟩

end Values

/-- The test of the loop in `runHandler`. -/
def Flag.matches (flag : Flag) (name : List Char) (sep : Char) : Bool :=
  startsWith name flag.name && first (name.drop flag.name.length) == sep

/-- The loop of `runHandler`, which ends at the flag that matches; nothing where none does. -/
def setFlag (long : Long) (name value : List Char) (sep : Char) :
    List Flag → Option (Except Fatal (List Flag))
  | [] => none
  | flag :: flags =>
    if flag.matches name sep then
      some ((flag.parse long value).map fun flag => flag :: flags)
    else (setFlag long name value sep flags).map fun result => result.map fun flags => flag :: flags

theorem setFlag_length {long : Long} {name value : List Char} {sep : Char} {flags flags' : List Flag}
    (set : setFlag long name value sep flags = some (.ok flags')) : flags'.length = flags.length := by
  induction flags generalizing flags' with
  | nil => cases set
  | cons flag flags ih =>
    rw [setFlag] at set
    split_ifs at set
    · cases parsed : flag.parse long value with
      | error e =>
        rw [parsed] at set
        cases set
      | ok flag' =>
        rw [parsed] at set
        cases set
        rfl
    · cases later : setFlag long name value sep flags with
      | none =>
        rw [later] at set
        cases set
      | some result =>
        rw [later] at set
        cases result with
        | error e => cases set
        | ok rest =>
          cases set
          rw [List.length_cons, List.length_cons, ih later]

namespace FlagParser

def runHandler (long : Long) (parser : FlagParser) (unknown : UnknownFlagsRegistry)
    (name value : List Char) (sep : Char) : Except Fatal (FlagParser × UnknownFlagsRegistry) :=
  match set : setFlag long name value sep parser.flags with
  | some (.ok flags) =>
    .ok ({ parser with flags := flags, few := le_of_eq_of_le (setFlag_length set) parser.few }, unknown)
  | some (.error e) => .error e
  | none => (unknown.add name).map fun unknown => (parser, unknown)

def skipWhitespace (parser : FlagParser) : FlagParser :=
  { parser with rest := parser.rest.dropWhile isSeparator }

def parseFlag (long : Long) (parser : FlagParser) (unknown : UnknownFlagsRegistry) :
    Except Fatal (FlagParser × UnknownFlagsRegistry) :=
  let name := parser.rest
  let rest := parser.rest.dropWhile fun ch => ch != '=' && !isSeparatorOrNull ch
  if first rest ≠ '=' then .error (.error "expected '='")
  else
    let value := rest.tail
    if first value = '\'' ∨ first value = '"' then
      let quote := first value
      let rest := value.tail.dropWhile fun ch => ch != '\x00' && ch != quote
      if first rest = '\x00' then .error (.error "unterminated string")
      else ({ parser with rest := rest.tail }).runHandler long unknown name value.tail '='
    else
      let rest := value.dropWhile fun ch => !isSeparatorOrNull ch
      ({ parser with rest := rest }).runHandler long unknown name value '='

theorem runHandler_rest {long : Long} {parser parser' : FlagParser}
    {unknown unknown' : UnknownFlagsRegistry} {name value : List Char} {sep : Char}
    (ran : parser.runHandler long unknown name value sep = .ok (parser', unknown')) :
    parser'.rest = parser.rest := by
  unfold runHandler at ran
  split at ran
  · cases ran
    rfl
  · cases ran
  · cases added : unknown.add name with
    | error e =>
      rw [added] at ran
      cases ran
    | ok more =>
      rw [added] at ran
      cases ran
      rfl

/-- An item has at least its equals sign. -/
theorem parseFlag_shorter {long : Long} {parser parser' : FlagParser}
    {unknown unknown' : UnknownFlagsRegistry}
    (parsed : parser.parseFlag long unknown = .ok (parser', unknown')) :
    parser'.rest.length < parser.rest.length := by
  unfold parseFlag at parsed
  dsimp only at parsed
  have named := (List.dropWhile_suffix (l := parser.rest)
    fun ch => ch != '=' && !isSeparatorOrNull ch).length_le
  generalize parser.rest.dropWhile _ = rest at parsed named
  split_ifs at parsed with equals quoted closed
  · have valued := (List.dropWhile_suffix (l := rest.tail.tail)
      fun ch => ch != '\x00' && ch != first rest.tail).length_le
    obtain ⟨value, rfl⟩ := (first_ne_zero_iff (by decide)).mp (not_not.mp equals)
    rw [runHandler_rest parsed]
    change (List.tail _).length < _
    rw [List.length_tail]
    rw [List.tail_cons, List.length_tail] at valued
    rw [List.length_cons] at named
    rw [List.tail_cons]
    omega
  · have valued := (List.dropWhile_suffix (l := rest.tail) fun ch => !isSeparatorOrNull ch).length_le
    obtain ⟨value, rfl⟩ := (first_ne_zero_iff (by decide)).mp (not_not.mp equals)
    rw [runHandler_rest parsed]
    rw [List.tail_cons] at valued
    rw [List.length_cons] at named
    change ((List.tail (_ :: value)).dropWhile _).length < _
    rw [List.tail_cons]
    omega

def parseFlags (long : Long) (parser : FlagParser) (unknown : UnknownFlagsRegistry) :
    Except Fatal (FlagParser × UnknownFlagsRegistry) :=
  let parser' := parser.skipWhitespace
  if first parser'.rest = '\x00' then .ok (parser', unknown)
  else
    match _ : parser'.parseFlag long unknown with
    | .error e => .error e
    | .ok (parser'', unknown') => parser''.parseFlags long unknown'
termination_by parser.rest.length
decreasing_by
  exact lt_of_lt_of_le (parseFlag_shorter (by assumption)) (List.dropWhile_suffix _).length_le

/-- The state of the parser before the call is restored, for nested calls. -/
def parseString (long : Long) (parser : FlagParser) (unknown : UnknownFlagsRegistry)
    (s : Option (List Char)) : Except Fatal (FlagParser × UnknownFlagsRegistry) :=
  match s with
  | none => .ok (parser, unknown)
  | some text =>
    match ({ parser with rest := text }).parseFlags long unknown with
    | .error e => .error e
    | .ok (parser', unknown') => .ok ({ parser' with rest := parser.rest }, unknown')

end FlagParser

end Scudo

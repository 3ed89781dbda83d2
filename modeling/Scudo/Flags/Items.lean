import Mathlib.Data.List.Induction
import Mathlib.Data.Nat.Digits.Lemmas
import Scudo.Flags.Parser

/-!
Strings of items, what they say of the flags, and that the parser reads them so.
-/

namespace Scudo
open Scudo.Lib

inductive Quote where
  | single
  | double
  deriving DecidableEq, Repr

def Quote.char : Quote → Char
  | .single => '\''
  | .double => '"'

/-- What a value may not have: its own quotes, or, without any, separators and a quote at its start. -/
def Plain (value : List Char) : Option Quote → Prop
  | none => (∀ ch ∈ value, isSeparatorOrNull ch = false) ∧ first value ≠ '\'' ∧ first value ≠ '"'
  | some quote => ∀ ch ∈ value, ch ≠ '\x00' ∧ ch ≠ quote.char

structure Item where
  name : List Char
  value : List Char
  quote : Option Quote
  named : ∀ ch ∈ name, ch ≠ '=' ∧ isSeparatorOrNull ch = false
  plain : Plain value quote

namespace Item

def opening (item : Item) : List Char := (item.quote.map Quote.char).toList

def text (item : Item) : List Char :=
  item.name ++ '=' :: (item.opening ++ (item.value ++ item.opening))

end Item

/-- Separators stand before, between and behind the items; between them at least one, where the value
has no quotes. -/
inductive Renders : List Item → List Char → Prop
  | nil {seps : List Char} (separators : ∀ ch ∈ seps, isSeparator ch = true) : Renders [] seps
  | cons {seps : List Char} {item : Item} {items : List Item} {text : List Char}
      (separators : ∀ ch ∈ seps, isSeparator ch = true) (rest : Renders items text)
      (apart : item.quote = none → isSeparatorOrNull (first text) = true) :
      Renders (item :: items) (seps ++ (item.text ++ text))

/-- The number that decimal digits stand for. -/
def decimal (digits : List Char) : Nat := Nat.ofDigits 10 (digits.reverse.map digitValue)

/-- The well-formed values. -/
inductive Denotes : (type : FlagType) → List Char → type.Var → Prop
  | no {value : List Char} (word : value ∈ ["0".toList, "no".toList, "false".toList]) :
      Denotes .bool value false
  | yes {value : List Char} (word : value ∈ ["1".toList, "yes".toList, "true".toList]) :
      Denotes .bool value true
  | positive {sign digits : List Char} (signed : sign = [] ∨ sign = ['+']) (some_ : digits ≠ [])
      (digital : ∀ ch ∈ digits, ch.isDigit = true) (le : (decimal digits : Int) ≤ intMax) :
      Denotes .int (sign ++ digits) (decimal digits : Int)
  | negative {digits : List Char} (some_ : digits ≠ []) (digital : ∀ ch ∈ digits, ch.isDigit = true)
      (le : intMin ≤ -(decimal digits : Int)) : Denotes .int ('-' :: digits) (-(decimal digits : Int))

/-- The flag of a name. -/
def registered (flags : List Flag) (name : List Char) : Option Flag :=
  flags.find? fun flag => decide (flag.name = name)

def lastOccurrence (name : List Char) (items : List Item) : Option Item :=
  (items.filter fun item => decide (item.name = name)).getLast?

def unregistered (flags : List Flag) (items : List Item) : List Item :=
  items.filter fun item => (registered flags item.name).isNone

/-- The known names have well-formed values. -/
def WellFormed (flags : List Flag) (items : List Item) : Prop :=
  ∀ item ∈ items, ∀ flag, registered flags item.name = some flag →
    ∃ value, Denotes flag.type item.value value

/-- Every flag has the value of its last occurrence, or else the one that it had. -/
structure Follows (items : List Item) (flags flags' : List Flag) : Prop where
  names : flags'.map Flag.name = flags.map Flag.name
  absent : ∀ name flag, registered flags name = some flag → lastOccurrence name items = none →
    registered flags' name = some flag
  last : ∀ name flag item, registered flags name = some flag →
    lastOccurrence name items = some item → ∃ value, Denotes flag.type item.value value ∧
      registered flags' name = some (flag.set value)

/-- For each item there is a pointer into the text, at its name. -/
def Recorded (text : List Char) (items : List Item) (names : List (List Char)) : Prop :=
  List.Forall₂ (fun item name => name <:+ text ∧ ∃ rest, name = item.name ++ '=' :: rest) items names

section Values

theorem decimal_fold (digits : List Char) :
    digits.foldl (fun (value : Int) ch => 10 * value + digitValue ch) 0 = decimal digits := by
  induction digits using List.reverseRecOn with
  | nil => rfl
  | append_singleton digits ch ih =>
    have value : decimal (digits ++ [ch]) = digitValue ch + 10 * decimal digits := by
      unfold decimal
      rw [List.reverse_append, List.reverse_singleton, List.singleton_append, List.map_cons,
        Nat.ofDigits_cons]
    rw [List.foldl_append, ih, value]
    change 10 * (decimal digits : Int) + digitValue ch = _
    push_cast
    omega

theorem digit_other {ch : Char} (digit : ch.isDigit = true) :
    isSpace ch = false ∧ ch ≠ '-' ∧ ch ≠ '+' ∧ ch ≠ '\'' ∧ ch ≠ '"' ∧ isSeparatorOrNull ch = false := by
  have none_ (other : Char) (plain : other.isDigit = false) : ch ≠ other := by
    rintro rfl
    rw [plain] at digit
    cases digit
  simp only [isSpace, isSeparatorOrNull, isSeparator, Bool.or_eq_false_iff, beq_eq_false_iff_ne]
  refine ⟨?_, ?_, ?_, ?_, ?_, ?_⟩
  all_goals
    repeat' constructor
    all_goals exact none_ _ (by decide)

theorem long_limit (long : Long) : (2 : Int) ^ 31 ≤ 2 ^ (long.bits - 1) := by
  have wide := long.wide
  exact pow_le_pow_right₀ (by decide) (by omega)

/-- A number of the size of an `int` is converted, up to a character that is no digit. -/
theorem strtol_number (long : Long) {sign digits rest : List Char}
    (signed : sign = [] ∨ sign = ['+'] ∨ sign = ['-']) (some_ : digits ≠ [])
    (digital : ∀ ch ∈ digits, ch.isDigit = true) (stops : (first rest).isDigit = false) {value : Int}
    (means : value = if sign = ['-'] then -(decimal digits : Int) else decimal digits)
    (above : intMin ≤ value) (below : value ≤ intMax) :
    strtol long (sign ++ digits ++ rest) = ⟨value, rest, false⟩ := by
  obtain ⟨ch, more, rfl⟩ := List.exists_cons_of_ne_nil some_
  have digit : ch.isDigit = true := digital ch List.mem_cons_self
  obtain ⟨space, minus, plus, _⟩ := digit_other digit
  have limit := long_limit long
  have taken : (ch :: more ++ rest).takeWhile Char.isDigit = ch :: more := takeWhile_run digital stops
  have left : (ch :: more ++ rest).dropWhile Char.isDigit = rest := dropWhile_run digital stops
  have body : (sign ++ (ch :: more) ++ rest).dropWhile isSpace = sign ++ (ch :: more) ++ rest := by
    apply dropWhile_of_stop
    rcases signed with rfl | rfl | rfl
    · exact space
    · rfl
    · rfl
  have number : (if first (sign ++ (ch :: more) ++ rest) = '-' ∨
      first (sign ++ (ch :: more) ++ rest) = '+' then (sign ++ (ch :: more) ++ rest).tail
      else sign ++ (ch :: more) ++ rest) = ch :: more ++ rest := by
    rcases signed with rfl | rfl | rfl
    · exact if_neg (by rintro (same | same) <;> contradiction)
    · rfl
    · rfl
  have negative : (first (sign ++ (ch :: more) ++ rest) == '-') = decide (sign = ['-']) := by
    rcases signed with rfl | rfl | rfl
    · exact beq_eq_false_iff_ne.mpr minus
    · rfl
    · rfl
  unfold strtol
  dsimp only
  rw [body, number, negative, taken, left, if_neg (List.cons_ne_nil _ _), decimal_fold]
  simp only [decide_eq_true_eq]
  rw [← means]
  unfold intMin at above
  unfold intMax at below
  rw [if_neg (by omega), if_neg (by omega)]

theorem parseBool_no {value rest : List Char}
    (word : value ∈ ["0".toList, "no".toList, "false".toList]) :
    parseBool (value ++ rest) = some false := by
  unfold parseBool
  refine if_pos ?_
  simp only [List.mem_cons, List.not_mem_nil, or_false] at word
  rcases word with rfl | rfl | rfl
  · exact Or.inl (startsWith_iff.mpr ⟨rest, rfl⟩)
  · exact Or.inr (Or.inl (startsWith_iff.mpr ⟨rest, rfl⟩))
  · exact Or.inr (Or.inr (startsWith_iff.mpr ⟨rest, rfl⟩))

theorem parseBool_yes {value rest : List Char}
    (word : value ∈ ["1".toList, "yes".toList, "true".toList]) :
    parseBool (value ++ rest) = some true := by
  simp only [List.mem_cons, List.not_mem_nil, or_false] at word
  rcases word with rfl | rfl | rfl
  all_goals
    unfold parseBool
    rw [if_neg (by simp [startsWith]), if_pos (by simp [startsWith])]

/-- What stands behind a value. -/
def EndsValue (ch : Char) : Prop := ch = '\'' ∨ ch = '"' ∨ isSeparatorOrNull ch = true

theorem EndsValue.not_digit {ch : Char} (ends : EndsValue ch) : ch.isDigit = false := by
  rw [← Bool.not_eq_true]
  intro digit
  obtain ⟨_, _, _, single, double, separator⟩ := digit_other digit
  rcases ends with same | same | same
  · exact single same
  · exact double same
  · rw [separator] at same
    cases same

theorem parse_int (long : Long) {flag : Flag} (typed : flag.type = .int) {text rest : List Char}
    {v : Int} (ends : EndsValue (first rest)) (converts : strtol long text = ⟨v, rest, false⟩)
    (above : intMin ≤ v) (below : v ≤ intMax) :
    flag.parse long text = .ok (flag.set (typed ▸ v)) := by
  obtain ⟨name, type, var, named⟩ := flag
  dsimp only at typed
  subst typed
  unfold Flag.parse
  dsimp only
  rw [converts]
  refine if_neg ?_
  rintro (failed | high | low | ⟨double, single, separator⟩)
  · cases failed
  · exact absurd high (not_lt.mpr below)
  · exact absurd low (not_lt.mpr above)
  · rcases ends with same | same | same
    · exact single same
    · exact double same
    · exact separator same

/-- A well-formed value is read, whatever ends it. -/
theorem parse_denotes (long : Long) (flag : Flag) {value rest : List Char} {v : flag.type.Var}
    (denotes : Denotes flag.type value v) (ends : EndsValue (first rest)) :
    flag.parse long (value ++ rest) = .ok (flag.set v) := by
  obtain ⟨name, type, var, named⟩ := flag
  have stops := ends.not_digit
  cases denotes with
  | no word =>
    unfold Flag.parse
    dsimp only
    rw [parseBool_no word]
    rfl
  | yes word =>
    unfold Flag.parse
    dsimp only
    rw [parseBool_yes word]
    rfl
  | @positive sign digits signed some_ digital le =>
    have low : intMin ≤ (decimal digits : Int) := by
      unfold intMin
      omega
    have unsigned : sign ≠ ['-'] := by
      rcases signed with rfl | rfl
      · exact List.cons_ne_nil _ _ ∘ Eq.symm
      · decide
    have converts := strtol_number long (Or.imp_right Or.inl signed) some_ digital stops
      (if_neg unsigned).symm low le
    exact parse_int long rfl ends converts low le
  | @negative digits some_ digital le =>
    have high : -(decimal digits : Int) ≤ intMax := by
      unfold intMax
      omega
    have converts := strtol_number long (Or.inr (Or.inr rfl)) some_ digital stops
      (if_pos rfl).symm le high
    exact parse_int long rfl ends converts le high

end Values

section Names

variable {flags : List Flag} {name name' : List Char}

/-- Neither name has an equals sign, so the flag matches by its whole name. -/
theorem matches_iff (flag : Flag) (clean : '=' ∉ name) (rest : List Char) :
    flag.matches (name ++ '=' :: rest) '=' = decide (flag.name = name) := by
  have own : '=' ∉ flag.name := fun member => (flag.named _ member).1 rfl
  rw [Bool.eq_iff_iff, decide_eq_true_iff]
  unfold Flag.matches
  rw [Bool.and_eq_true, startsWith_iff, beq_iff_eq]
  constructor
  · rintro ⟨⟨after, parts⟩, next⟩
    rw [parts, List.drop_left] at next
    obtain ⟨after, rfl⟩ := (first_ne_zero_iff (by decide)).mp next
    exact (split_unique clean own parts).symm
  · rintro rfl
    refine ⟨⟨_, rfl⟩, ?_⟩
    rw [List.drop_left]
    rfl

theorem registered_cons (flag : Flag) :
    registered (flag :: flags) name = if flag.name = name then some flag else registered flags name := by
  unfold registered
  rw [List.find?_cons]
  by_cases same : flag.name = name
  · rw [if_pos same, decide_eq_true same]
  · rw [if_neg same, decide_eq_false same]

/-- An unknown name matches no flag. -/
theorem setFlag_unknown (long : Long) (clean : '=' ∉ name) (none_ : registered flags name = none)
    (rest value : List Char) : setFlag long (name ++ '=' :: rest) value '=' flags = none := by
  induction flags with
  | nil => rfl
  | cons flag flags ih =>
    rw [registered_cons] at none_
    split_ifs at none_ with same
    rw [setFlag, matches_iff flag clean, decide_eq_false same, if_neg Bool.false_ne_true,
      ih none_]
    rfl

/-- The flag of a known name is set, and no other. -/
theorem setFlag_known (long : Long) (clean : '=' ∉ name) {flag : Flag} {value : List Char}
    {v : flag.type.Var} (found : registered flags name = some flag)
    (parses : flag.parse long value = .ok (flag.set v)) (rest : List Char) :
    ∃ flags', setFlag long (name ++ '=' :: rest) value '=' flags = some (.ok flags') ∧
      flags'.map Flag.name = flags.map Flag.name ∧ registered flags' name = some (flag.set v) ∧
      ∀ other ≠ name, registered flags' other = registered flags other := by
  induction flags with
  | nil => cases found
  | cons head flags ih =>
    rw [registered_cons] at found
    rw [setFlag, matches_iff head clean]
    split_ifs at found with same
    · cases found
      rw [decide_eq_true same, if_pos rfl, parses]
      refine ⟨flag.set v :: flags, rfl, rfl, ?_, fun other different => ?_⟩
      · rw [registered_cons]
        exact if_pos same
      · have apart : flag.name ≠ other := fun also => different (also.symm.trans same)
        rw [registered_cons, registered_cons, if_neg apart]
        exact if_neg apart
    · obtain ⟨flags', set, names, own, others⟩ := ih found
      rw [decide_eq_false same, if_neg Bool.false_ne_true, set]
      refine ⟨head :: flags', rfl, ?_, ?_, fun other different => ?_⟩
      · rw [List.map_cons, List.map_cons, names]
      · rw [registered_cons, if_neg same, own]
      · rw [registered_cons, registered_cons, others other different]

end Names

namespace FlagParser

variable (long : Long) (parser : FlagParser) (unknown : UnknownFlagsRegistry) {item : Item}
  {text : List Char}

theorem runHandler_set {name value : List Char} {sep : Char} {flags' : List Flag}
    (set : setFlag long name value sep parser.flags = some (.ok flags')) :
    ∃ parser', parser.runHandler long unknown name value sep = .ok (parser', unknown) ∧
      parser'.rest = parser.rest ∧ parser'.flags = flags' := by
  unfold runHandler
  split
  next flags also =>
    rw [set] at also
    cases also
    exact ⟨_, rfl, rfl, rfl⟩
  next also =>
    rw [set] at also
    cases also
  next also =>
    rw [set] at also
    cases also

theorem runHandler_add {name value : List Char} {sep : Char}
    (none_ : setFlag long name value sep parser.flags = none) :
    parser.runHandler long unknown name value sep =
      (unknown.add name).map fun unknown => (parser, unknown) := by
  unfold runHandler
  split
  next also =>
    rw [none_] at also
    cases also
  next also =>
    rw [none_] at also
    cases also
  next => rfl

theorem separator_plain {ch : Char} (separator : isSeparator ch = true) :
    isSeparatorOrNull ch = true := by
  unfold isSeparatorOrNull
  rw [separator, Bool.or_true]

theorem item_starts (item : Item) (text : List Char) :
    isSeparatorOrNull (first (item.text ++ text)) = false := by
  obtain ⟨name, value, quote, named, plain⟩ := item
  cases name with
  | nil => rfl
  | cons ch name => exact (named ch List.mem_cons_self).2

/-- The parts that `parseFlag` finds in an item. -/
theorem parseFlag_item (at_ : parser.rest = item.text ++ text)
    (apart : item.quote = none → isSeparatorOrNull (first text) = true) :
    ∃ closing, EndsValue (first closing) ∧ parser.parseFlag long unknown =
      ({ parser with rest := text }).runHandler long unknown (item.text ++ text)
        (item.value ++ closing) '=' := by
  obtain ⟨name, value, quote, named, plain⟩ := item
  have scanned (after : List Char) :
      (name ++ '=' :: after).dropWhile (fun ch => ch != '=' && !isSeparatorOrNull ch) = '=' :: after := by
    refine dropWhile_run (fun ch member => ?_) rfl
    obtain ⟨equals, separator⟩ := named ch member
    rw [separator, bne_iff_ne.mpr equals]
    rfl
  unfold parseFlag
  rw [at_]
  dsimp only
  cases quote with
  | none =>
    obtain ⟨solid, single, double⟩ := plain
    have separator := apart rfl
    refine ⟨text, Or.inr (Or.inr separator), ?_⟩
    have whole : Item.text ⟨name, value, none, named, ⟨solid, single, double⟩⟩ ++ text =
        name ++ '=' :: (value ++ text) := by simp [Item.text, Item.opening]
    have unquoted : ¬(first (value ++ text) = '\'' ∨ first (value ++ text) = '"') := by
      cases value with
      | nil =>
        rintro (same | same) <;> rw [List.nil_append] at same <;> rw [same] at separator <;>
          cases separator
      | cons ch value => exact not_or.mpr ⟨single, double⟩
    have valued : (value ++ text).dropWhile (fun ch => !isSeparatorOrNull ch) = text := by
      refine dropWhile_run (fun ch member => ?_) ?_
      · rw [solid ch member]
        rfl
      · rw [separator]
        rfl
    rw [whole, scanned, first_cons, if_neg (not_not.mpr rfl), List.tail_cons, if_neg unquoted, valued]
  | some quote =>
    have ends : EndsValue quote.char := by
      cases quote with
      | single => exact Or.inl rfl
      | double => exact Or.inr (Or.inl rfl)
    refine ⟨quote.char :: text, ends, ?_⟩
    have whole : Item.text ⟨name, value, some quote, named, plain⟩ ++ text =
        name ++ '=' :: (quote.char :: (value ++ quote.char :: text)) := by
      simp [Item.text, Item.opening]
    have quoted : quote.char = '\'' ∨ quote.char = '"' := by cases quote <;> decide
    have real : quote.char ≠ '\x00' := by cases quote <;> decide
    have valued : (value ++ quote.char :: text).dropWhile
        (fun ch => ch != '\x00' && ch != quote.char) = quote.char :: text := by
      refine dropWhile_run (fun ch member => ?_) (by simp)
      obtain ⟨null, other⟩ := plain ch member
      rw [bne_iff_ne.mpr null, bne_iff_ne.mpr other]
      rfl
    rw [whole, scanned, first_cons, if_neg (not_not.mpr rfl), List.tail_cons, first_cons,
      if_pos quoted, List.tail_cons, valued, first_cons, if_neg real, List.tail_cons]

/-- Behind the separators stands an item. -/
theorem parseFlags_item {seps : List Char} (separators : ∀ ch ∈ seps, isSeparator ch = true)
    (at_ : parser.rest = seps ++ (item.text ++ text)) :
    parser.parseFlags long unknown =
      match ({ parser with rest := item.text ++ text }).parseFlag long unknown with
      | .error e => .error e
      | .ok (parser', unknown') => parser'.parseFlags long unknown' := by
  have starts := item_starts item text
  have stops : isSeparator (first (item.text ++ text)) = false := by
    rw [← Bool.not_eq_true]
    intro separator
    rw [separator_plain separator] at starts
    cases starts
  have skipped : parser.skipWhitespace = { parser with rest := item.text ++ text } := by
    unfold skipWhitespace
    rw [at_, dropWhile_run separators stops]
  have real : first (item.text ++ text) ≠ '\x00' := by
    intro null
    rw [null] at starts
    cases starts
  rw [parseFlags, skipped, if_neg real]
  split
  next failed =>
    rw [failed]
  next done =>
    rw [done]

theorem parseFlags_end {seps : List Char} (separators : ∀ ch ∈ seps, isSeparator ch = true)
    (at_ : parser.rest = seps) :
    parser.parseFlags long unknown = .ok ({ parser with rest := [] }, unknown) := by
  have skipped : parser.skipWhitespace = { parser with rest := [] } := by
    unfold skipWhitespace
    rw [at_, List.dropWhile_eq_nil_iff.mpr separators]
  rw [parseFlags, skipped]
  rfl

theorem item_text (item : Item) (text : List Char) : item.text ++ text =
    item.name ++ '=' :: (item.opening ++ (item.value ++ item.opening) ++ text) := by
  unfold Item.text
  rw [List.append_assoc, List.cons_append]

theorem item_clean (item : Item) : '=' ∉ item.name := fun member => (item.named _ member).1 rfl

/-- A known item sets its flag. -/
theorem parseFlags_known {seps : List Char} {flag : Flag} {v : flag.type.Var}
    (separators : ∀ ch ∈ seps, isSeparator ch = true) (at_ : parser.rest = seps ++ (item.text ++ text))
    (apart : item.quote = none → isSeparatorOrNull (first text) = true)
    (found : registered parser.flags item.name = some flag) (denotes : Denotes flag.type item.value v) :
    ∃ parser' : FlagParser, parser.parseFlags long unknown = parser'.parseFlags long unknown ∧
      parser'.rest = text ∧ parser'.flags.map Flag.name = parser.flags.map Flag.name ∧
      registered parser'.flags item.name = some (flag.set v) ∧
      ∀ other ≠ item.name, registered parser'.flags other = registered parser.flags other := by
  obtain ⟨closing, ends, parsed⟩ := 
    parseFlag_item long { parser with rest := item.text ++ text } unknown rfl apart
  have parses := parse_denotes long flag denotes ends
  obtain ⟨flags', set, names, own, others⟩ := setFlag_known long (item_clean item) found parses
    (item.opening ++ (item.value ++ item.opening) ++ text)
  rw [← item_text] at set
  obtain ⟨parser', ran, rest, rfl⟩ :=
    runHandler_set long { parser with rest := text } unknown set
  refine ⟨parser', ?_, rest, names, own, others⟩
  rw [parseFlags_item long parser unknown separators at_, parsed]
  dsimp only
  rw [ran]

/-- An unknown item is added to the registry. -/
theorem parseFlags_unknown {seps : List Char} (separators : ∀ ch ∈ seps, isSeparator ch = true)
    (at_ : parser.rest = seps ++ (item.text ++ text))
    (apart : item.quote = none → isSeparatorOrNull (first text) = true)
    (none_ : registered parser.flags item.name = none) :
    parser.parseFlags long unknown =
      match unknown.add (item.text ++ text) with
      | .error e => .error e
      | .ok unknown' => ({ parser with rest := text }).parseFlags long unknown' := by
  obtain ⟨closing, _, parsed⟩ := 
    parseFlag_item long { parser with rest := item.text ++ text } unknown rfl apart
  have unset := setFlag_unknown long (item_clean item) none_
    (item.opening ++ (item.value ++ item.opening) ++ text) (item.value ++ closing)
  rw [← item_text] at unset
  have ran := runHandler_add long { parser with rest := text } unknown unset
  rw [parseFlags_item long parser unknown separators at_, parsed]
  dsimp only
  rw [ran]
  cases unknown.add (item.text ++ text) with
  | error e => rfl
  | ok unknown' => rfl

end FlagParser

end Scudo

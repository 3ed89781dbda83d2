import Scudo.Flags.Items

/-!
What the parser does with a whole string of items: the known flags are set, and the unknown names are
recorded as long as there is room for them.
-/

namespace Scudo
open Scudo.Lib

variable {flags flags' flags'' : List Flag} {item : Item} {items : List Item} {name : List Char}

theorem lastOccurrence_cons : lastOccurrence name (item :: items) =
    (lastOccurrence name items).or (if item.name = name then some item else none) := by
  unfold lastOccurrence
  rw [List.filter_cons]
  by_cases same : item.name = name
  · rw [if_pos (decide_eq_true same), if_pos same, List.getLast?_cons]
    cases (items.filter fun item => decide (item.name = name)).getLast? <;> rfl
  · rw [if_neg (by rwa [decide_eq_true_iff]), if_neg same, Option.or_none]

theorem registered_isNone : (registered flags name).isNone = decide (name ∉ flags.map Flag.name) := by
  rw [Bool.eq_iff_iff, decide_eq_true_iff, Option.isNone_iff_eq_none]
  unfold registered
  rw [List.find?_eq_none]
  simp only [decide_eq_true_eq, List.mem_map, not_exists, not_and]

theorem unregistered_congr (names : flags'.map Flag.name = flags.map Flag.name) (items : List Item) :
    unregistered flags' items = unregistered flags items := by
  unfold unregistered
  apply List.filter_congr
  intro item _
  rw [registered_isNone, registered_isNone, names]

theorem unregistered_known {flag : Flag} (found : registered flags item.name = some flag) :
    unregistered flags (item :: items) = unregistered flags items := by
  unfold unregistered
  rw [List.filter_cons, found]
  rfl

theorem unregistered_unknown (none_ : registered flags item.name = none) :
    unregistered flags (item :: items) = item :: unregistered flags items := by
  unfold unregistered
  rw [List.filter_cons, none_]
  rfl

theorem WellFormed.tail (fine : WellFormed flags (item :: items)) : WellFormed flags items :=
  fun other member => fine other (List.mem_cons_of_mem _ member)

/-- A flag that is set keeps its type. -/
theorem WellFormed.set (fine : WellFormed flags items) {flag : Flag} {v : flag.type.Var}
    (found : registered flags name = some flag) (own : registered flags' name = some (flag.set v))
    (others : ∀ other ≠ name, registered flags' other = registered flags other) :
    WellFormed flags' items := by
  intro item member flag' found'
  by_cases same : item.name = name
  · rw [same, own] at found'
    cases found'
    exact fine item member flag (by rw [same, found])
  · rw [others item.name same] at found'
    exact fine item member flag' found'

theorem Follows.refl (flags : List Flag) : Follows [] flags flags :=
  ⟨rfl, fun _ _ found _ => found, fun _ _ _ _ last => absurd last (by unfold lastOccurrence; simp)⟩

/-- An item of an unknown name changes nothing. -/
theorem Follows.unknown (follows : Follows items flags flags')
    (none_ : registered flags item.name = none) : Follows (item :: items) flags flags' := by
  have same (name : List Char) (flag : Flag) (found : registered flags name = some flag) :
      lastOccurrence name (item :: items) = lastOccurrence name items := by
    rw [lastOccurrence_cons, if_neg, Option.or_none]
    rintro rfl
    rw [none_] at found
    cases found
  refine ⟨follows.names, fun name flag found absent => ?_, fun name flag item found last => ?_⟩
  · exact follows.absent name flag found (by rwa [same name flag found] at absent)
  · exact follows.last name flag item found (by rwa [same name flag found] at last)

/-- An item of a known name decides where no later one does. -/
theorem Follows.known (follows : Follows items flags' flags'') {flag : Flag} {v : flag.type.Var}
    (found : registered flags item.name = some flag) (denotes : Denotes flag.type item.value v)
    (names : flags'.map Flag.name = flags.map Flag.name)
    (own : registered flags' item.name = some (flag.set v))
    (others : ∀ other ≠ item.name, registered flags' other = registered flags other) :
    Follows (item :: items) flags flags'' := by
  refine ⟨follows.names.trans names, fun name flag' found' absent => ?_,
    fun name flag' last found' decides => ?_⟩
  · rw [lastOccurrence_cons, Option.or_eq_none_iff] at absent
    have different : name ≠ item.name := by
      rintro rfl
      exact absurd absent.2 (by simp)
    exact follows.absent name flag' (by rw [others name different, found']) absent.1
  · rw [lastOccurrence_cons] at decides
    by_cases same : item.name = name
    · subst same
      rw [found] at found'
      cases found'
      cases later : lastOccurrence item.name items with
      | none =>
        rw [later, if_pos rfl, Option.none_or] at decides
        cases decides
        exact ⟨v, denotes, follows.absent _ _ own later⟩
      | some item' =>
        rw [later, Option.some_or] at decides
        cases decides
        exact follows.last item.name (flag.set v) last own later
    · rw [if_neg same, Option.or_none] at decides
      exact follows.last name flag' last (by rw [others name (Ne.symm same), found']) decides

theorem Recorded.behind {text : List Char} {names : List (List Char)} (before : List Char)
    (recorded : Recorded text items names) : Recorded (before ++ text) items names := by
  refine recorded.imp ?_
  rintro item name ⟨suffix, parts⟩
  exact ⟨suffix.trans (List.suffix_append before text), parts⟩

namespace FlagParser

variable (long : Long)

/-- Where there is room for the unknown names, the string is read to its end. -/
theorem parseFlags_fits {text : List Char} (rendered : Renders items text) (parser : FlagParser)
    (unknown : UnknownFlagsRegistry) (at_ : parser.rest = text)
    (fine : WellFormed parser.flags items)
    (room : unknown.names.length + (unregistered parser.flags items).length ≤ maxUnknownFlags) :
    ∃ (parser' : FlagParser) (unknown' : UnknownFlagsRegistry) (added : List (List Char)),
      parser.parseFlags long unknown = .ok (parser', unknown') ∧
      Follows items parser.flags parser'.flags ∧ unknown'.names = unknown.names ++ added ∧
      Recorded text (unregistered parser.flags items) added := by
  induction rendered generalizing parser unknown with
  | nil separators =>
    exact ⟨_, unknown, [], parseFlags_end long parser unknown separators at_, Follows.refl _,
      (List.append_nil _).symm, List.Forall₂.nil⟩
  | @cons seps item items text separators rest apart ih =>
    cases found : registered parser.flags item.name with
    | some flag =>
      obtain ⟨v, denotes⟩ := fine item List.mem_cons_self flag found
      obtain ⟨parser₁, ran, at₁, names, own, others⟩ :=
        parseFlags_known long parser unknown separators at_ apart found denotes
      rw [unregistered_known found] at room ⊢
      have fine₁ := fine.tail.set found own others
      rw [← unregistered_congr names] at room ⊢
      obtain ⟨parser', unknown', added, done, follows, more, recorded⟩ :=
        ih parser₁ unknown at₁ fine₁ room
      refine ⟨parser', unknown', added, ran.trans done,
        follows.known found denotes names own others, more, ?_⟩
      rw [← List.append_assoc]
      exact recorded.behind _
    | none =>
      have ran := parseFlags_unknown long parser unknown separators at_ apart found
      rw [unregistered_unknown found] at room ⊢
      rw [List.length_cons] at room
      have space : unknown.names.length < maxUnknownFlags := by omega
      unfold UnknownFlagsRegistry.add at ran
      rw [dif_pos space] at ran
      dsimp only at ran
      have room₁ : (unknown.names ++ [item.text ++ text]).length +
          (unregistered parser.flags items).length ≤ maxUnknownFlags := by
        rw [List.length_append, List.length_singleton]
        omega
      obtain ⟨parser', unknown', added, done, follows, more, recorded⟩ :=
        ih { parser with rest := text } ⟨_, le_trans (Nat.le_add_right _ _) room₁⟩ rfl fine.tail room₁
      refine ⟨parser', unknown', (item.text ++ text) :: added, ran.trans done,
        follows.unknown found, ?_, List.Forall₂.cons ?_ ?_⟩
      · rw [more, List.append_assoc, List.singleton_append]
      · exact ⟨List.suffix_append _ _, _, item_text item text⟩
      · rw [← List.append_assoc]
        exact recorded.behind _

/-- Where there is none, the process dies at the first name that finds the registry full. -/
theorem parseFlags_full {text : List Char} (rendered : Renders items text) (parser : FlagParser)
    (unknown : UnknownFlagsRegistry) (at_ : parser.rest = text)
    (fine : WellFormed parser.flags items)
    (full : maxUnknownFlags < unknown.names.length + (unregistered parser.flags items).length) :
    parser.parseFlags long unknown =
      .error (.checkFailed "(NumberOfUnknownFlags) < (MaxUnknownFlags)" maxUnknownFlags
        maxUnknownFlags) := by
  induction rendered generalizing parser unknown with
  | nil separators =>
    have le := unknown.le
    change maxUnknownFlags < unknown.names.length + 0 at full
    omega
  | @cons seps item items text separators rest apart ih =>
    cases found : registered parser.flags item.name with
    | some flag =>
      obtain ⟨v, denotes⟩ := fine item List.mem_cons_self flag found
      obtain ⟨parser₁, ran, at₁, names, own, others⟩ :=
        parseFlags_known long parser unknown separators at_ apart found denotes
      rw [unregistered_known found, ← unregistered_congr names] at full
      exact ran.trans (ih parser₁ unknown at₁ (fine.tail.set found own others) full)
    | none =>
      have ran := parseFlags_unknown long parser unknown separators at_ apart found
      rw [unregistered_unknown found, List.length_cons] at full
      unfold UnknownFlagsRegistry.add at ran
      by_cases space : unknown.names.length < maxUnknownFlags
      · rw [dif_pos space] at ran
        dsimp only at ran
        have full₁ : maxUnknownFlags < (unknown.names ++ [item.text ++ text]).length +
            (unregistered parser.flags items).length := by
          rw [List.length_append, List.length_singleton]
          omega
        have le₁ : (unknown.names ++ [item.text ++ text]).length ≤ maxUnknownFlags := by
          rw [List.length_append]
          exact space
        exact ran.trans (ih { parser with rest := text } ⟨_, le₁⟩ rfl fine.tail full₁)
      · have most : unknown.names.length = maxUnknownFlags := by
          have le := unknown.le
          omega
        rw [dif_neg space, most] at ran
        exact ran

/-- What the string is to do: it is read to its end, and only the flags that it names and the registry
are changed. -/
def Reads (parser : FlagParser) (unknown : UnknownFlagsRegistry) (text : List Char)
    (items : List Item) : Prop :=
  ∃ (parser' : FlagParser) (unknown' : UnknownFlagsRegistry) (added : List (List Char)),
    parser.parseString long unknown (some text) = .ok (parser', unknown') ∧
    parser'.rest = parser.rest ∧ Follows items parser.flags parser'.flags ∧
    unknown'.names = unknown.names ++ added ∧ Recorded text (unregistered parser.flags items) added

/-- The string is read as it should be just where the registry has room for its unknown names. -/
theorem reads_iff_room {text : List Char} (rendered : Renders items text) (parser : FlagParser)
    (unknown : UnknownFlagsRegistry) (fine : WellFormed parser.flags items) :
    Reads long parser unknown text items ↔
      unknown.names.length + (unregistered parser.flags items).length ≤ maxUnknownFlags := by
  constructor
  · rintro ⟨parser', unknown', added, done, _⟩
    by_contra exceeds
    have stopped := parseFlags_full long rendered { parser with rest := text } unknown rfl fine
      (not_le.mp exceeds)
    unfold parseString at done
    dsimp only at done
    rw [stopped] at done
    cases done
  · intro room
    obtain ⟨parser', unknown', added, done, follows, more, recorded⟩ :=
      parseFlags_fits long rendered { parser with rest := text } unknown rfl fine room
    refine ⟨{ parser' with rest := parser.rest }, unknown', added, ?_, rfl, follows, more, recorded⟩
    unfold parseString
    dsimp only
    rw [done]

section Example

/-- What holds of every character of a text, by computing it for each. -/
theorem forall_mem_of_all {text : List Char} {p : Char → Prop} [DecidablePred p]
    (all : text.all (fun ch => decide (p ch)) = true) : ∀ ch ∈ text, p ch :=
  fun ch member => of_decide_eq_true (List.all_eq_true.mp all ch member)

def lp64 : Long := ⟨64, by decide⟩

def someFlag : Flag :=
  ⟨"may_return_null".toList, .bool, true, forall_mem_of_all (by decide)⟩

def someParser : FlagParser := ⟨[someFlag], [], by decide⟩

def noneUnknown : UnknownFlagsRegistry := ⟨[], by decide⟩

def knownItem : Item :=
  ⟨"may_return_null".toList, "no".toList, some .double, forall_mem_of_all (by decide), by
    change ∀ ch ∈ "no".toList, ch ≠ '\x00' ∧ ch ≠ Quote.double.char
    exact forall_mem_of_all (by decide)⟩

def unknownItem : Item :=
  ⟨"a".toList, "1".toList, none, forall_mem_of_all (by decide), by
    change (∀ ch ∈ "1".toList, isSeparatorOrNull ch = false) ∧ _ ∧ _
    exact ⟨forall_mem_of_all (by decide), by decide, by decide⟩⟩

/-- A known flag is set and an unknown name recorded. -/
theorem reads_two : Reads lp64 someParser noneUnknown "may_return_null=\"no\"a=1,".toList
    [knownItem, unknownItem] := by
  have rendered : Renders [knownItem, unknownItem] "may_return_null=\"no\"a=1,".toList := by
    have last : Renders [] ",".toList := Renders.nil (forall_mem_of_all (by decide))
    have nothing : ∀ ch ∈ ([] : List Char), isSeparator ch = true := nofun
    have second : Renders [unknownItem] "a=1,".toList := Renders.cons nothing last fun _ => rfl
    exact Renders.cons nothing second fun quoteless => absurd quoteless (by decide)
  have fine : WellFormed someParser.flags [knownItem, unknownItem] := by
    intro item member flag found
    rcases List.mem_cons.mp member with rfl | member
    · cases found
      exact ⟨false, Denotes.no (by decide)⟩
    · rw [List.mem_singleton.mp member] at found
      cases found
  exact (reads_iff_room lp64 rendered someParser noneUnknown fine).mpr (by decide)

/-- Seventeen unknown names are too many for the registry. -/
theorem seventeen_unknown_fail :
    Renders (List.replicate 17 unknownItem) (List.replicate 17 " a=1".toList).flatten ∧
      WellFormed someParser.flags (List.replicate 17 unknownItem) ∧
      ¬Reads lp64 someParser noneUnknown (List.replicate 17 " a=1".toList).flatten
        (List.replicate 17 unknownItem) := by
  have rendered (count : Nat) :
      Renders (List.replicate count unknownItem) (List.replicate count " a=1".toList).flatten := by
    induction count with
    | zero => exact Renders.nil nofun
    | succ count ih =>
      have blank : ∀ ch ∈ " ".toList, isSeparator ch = true := forall_mem_of_all (by decide)
      refine Renders.cons blank ih fun _ => ?_
      cases count <;> rfl
  have fine : WellFormed someParser.flags (List.replicate 17 unknownItem) := by
    intro item member flag found
    rw [List.eq_of_mem_replicate member] at found
    cases found
  refine ⟨rendered 17, fine, ?_⟩
  rintro ⟨parser', unknown', added, done, _⟩
  have stopped := parseFlags_full lp64 (rendered 17)
    { someParser with rest := (List.replicate 17 " a=1".toList).flatten } noneUnknown rfl fine
    (by decide)
  unfold parseString at done
  dsimp only at done
  rw [stopped] at done
  cases done

end Example

end FlagParser

end Scudo

import Scudo.Lib.AtomicWord
import Scudo.Secondary.Types

/-!
`AtomicOptions`: the options of an allocator in one word, which any thread reads and changes at any
time.
-/

namespace Scudo.Sync
open Scudo.Lib Secondary

inductive OptionBit where
  | mayReturnNull
  | fillContents0of2
  | fillContents1of2
  | deallocTypeMismatch
  | deleteSizeMismatch
  | trackAllocationStacks
  | useOddEvenTags
  | useMemoryTagging
  | addLargeAllocationSlack
  deriving DecidableEq, Repr

namespace OptionBit

def index : OptionBit → Nat
  | mayReturnNull => 0
  | fillContents0of2 => 1
  | fillContents1of2 => 2
  | deallocTypeMismatch => 3
  | deleteSizeMismatch => 4
  | trackAllocationStacks => 5
  | useOddEvenTags => 6
  | useMemoryTagging => 7
  | addLargeAllocationSlack => 8

theorem index_lt (opt : OptionBit) : opt.index < 32 := by
  cases opt <;> decide

theorem index_injective {a b : OptionBit} (same : a.index = b.index) : a = b := by
  cases a <;> cases b <;> first | rfl | cases same

/-- The bits of the fill mode are set together. -/
def IsFlag (opt : OptionBit) : Prop := opt ≠ fillContents0of2 ∧ opt ≠ fillContents1of2

end OptionBit

/-- The enumerators, and the conversion from their numbers. -/
def fillValue : FillContentsMode → BitVec 32
  | .noFill => 0
  | .zeroFill => 1
  | .patternOrZeroFill => 2

def fillOfValue (value : BitVec 32) : Option FillContentsMode :=
  if value = 0 then some .noFill
  else if value = 1 then some .zeroFill
  else if value = 2 then some .patternOrZeroFill
  else none

namespace Options

/-- `Options::get`. -/
def get (val : BitVec 32) (opt : OptionBit) : Bool := val &&& (1#32 <<< opt.index) != 0

def getFillContentsMode (val : BitVec 32) : Option FillContentsMode :=
  fillOfValue ((val >>> OptionBit.fillContents0of2.index) &&& 3#32)

end Options

/-- The calls that change the options. -/
inductive OptionCall where
  | set (opt : { opt : OptionBit // opt.IsFlag })
  | clear (opt : { opt : OptionBit // opt.IsFlag })
  | setFillContentsMode (fillContents : FillContentsMode)

namespace AtomicOptions

def clear (opt : OptionBit) (val : BitVec 32) : BitVec 32 := val &&& ~~~(1#32 <<< opt.index)

def set (opt : OptionBit) (val : BitVec 32) : BitVec 32 := val ||| (1#32 <<< opt.index)

/-- `NewOpts`. -/
def withFillContents (fillContents : FillContentsMode) (opts : BitVec 32) : BitVec 32 :=
  (opts &&& ~~~(3#32 <<< OptionBit.fillContents0of2.index)) |||
    (fillValue fillContents <<< OptionBit.fillContents0of2.index)

def update : OptionCall → BitVec 32 → BitVec 32
  | .set opt => set opt.1
  | .clear opt => clear opt.1
  | .setFillContentsMode fillContents => withFillContents fillContents

/-- `set` and `clear` are one atomic operation each. -/
def atomic : OptionCall → Bool
  | .setFillContentsMode _ => false
  | _ => true

/-- The options of a process, changed by any of its threads. -/
def options (τ : Type) [DecidableEq τ] : System (AtomicWord.State τ (BitVec 32) OptionCall) :=
  AtomicWord.system τ atomic update 0

end AtomicOptions

/-- What the options are for: flags, and a fill mode. -/
structure OptionValues where
  flag : OptionBit → Bool
  fillContents : FillContentsMode

namespace OptionValues

/-- Before the first call. -/
def initial : OptionValues := ⟨fun _ => false, .noFill⟩

def apply : OptionCall → OptionValues → OptionValues
  | .set opt, values => { values with flag := Function.update values.flag opt.1 true }
  | .clear opt, values => { values with flag := Function.update values.flag opt.1 false }
  | .setFillContentsMode fillContents, values => { values with fillContents }

/-- The word that stands for these options. -/
structure Stands (val : BitVec 32) (values : OptionValues) : Prop where
  flag : ∀ opt : OptionBit, opt.IsFlag → Options.get val opt = values.flag opt
  fillContents : Options.getFillContentsMode val = some values.fillContents
  unused : val.toNat < 2 ^ 9

end OptionValues

section Bits

variable {val : BitVec 32} {opt other : OptionBit} {fillContents : FillContentsMode}

theorem get_eq : Options.get val opt = val.getLsbD opt.index := by
  unfold Options.get
  rw [← BitVec.twoPow_eq, BitVec.and_twoPow]
  cases bit : val.getLsbD opt.index with
  | false => simp
  | true =>
    rw [if_pos rfl, bne_iff_ne]
    intro zero
    have there := congrArg (fun word => word.getLsbD opt.index) zero
    simp [opt.index_lt] at there

theorem getLsbD_set (j : Nat) :
    (AtomicOptions.set opt val).getLsbD j = (val.getLsbD j || decide (opt.index = j)) := by
  have bound := opt.index_lt
  rw [AtomicOptions.set, ← BitVec.twoPow_eq, BitVec.getLsbD_or, BitVec.getLsbD_twoPow]
  simp [bound]

theorem getLsbD_clear (j : Nat) :
    (AtomicOptions.clear opt val).getLsbD j = (val.getLsbD j && decide (opt.index ≠ j)) := by
  rw [AtomicOptions.clear, ← BitVec.twoPow_eq, BitVec.getLsbD_and, BitVec.getLsbD_not,
    BitVec.getLsbD_twoPow]
  by_cases inside : j < 32
  · by_cases same : opt.index = j
    · simp [same, inside]
    · simp [same, inside]
  · rw [BitVec.getLsbD_of_ge val j (Nat.le_of_not_lt inside)]
    rfl

/-- A value of two bits has no bits above. -/
theorem getLsbD_of_small {value : BitVec 32} (small : value.toNat < 2 ^ 2) (j : Nat) :
    value.getLsbD (j + 2) = false := by
  refine Nat.testBit_lt_two_pow (lt_of_lt_of_le small ?_)
  exact Nat.pow_le_pow_right (by decide) (Nat.le_add_left 2 j)

theorem fillValue_small : (fillValue fillContents).toNat < 2 ^ 2 := by
  cases fillContents <;> decide

/-- The two bits of the mode, and the bits around them. -/
theorem getLsbD_withFillContents (j : Nat) :
    (AtomicOptions.withFillContents fillContents val).getLsbD j =
      if j = 1 ∨ j = 2 then (fillValue fillContents).getLsbD (j - 1) else val.getLsbD j := by
  change ((val &&& ~~~(3#32 <<< 1)) ||| (fillValue fillContents <<< 1)).getLsbD j = _
  rw [BitVec.getLsbD_or, BitVec.getLsbD_and, BitVec.getLsbD_not, BitVec.getLsbD_shiftLeft,
    BitVec.getLsbD_shiftLeft]
  match j with
  | 0 => simp
  | 1 => simp
  | 2 => simp
  | j + 3 =>
    have above : (3#32).getLsbD (j + 2) = false := getLsbD_of_small (by decide) j
    have none : (fillValue fillContents).getLsbD (j + 2) = false := getLsbD_of_small fillValue_small j
    by_cases inside : j + 3 < 32
    · simp [above, none, inside]
    · simp [inside, BitVec.getLsbD_of_ge val (j + 3) (Nat.le_of_not_lt inside)]

/-- The mode is what its two bits say. -/
theorem getFillContentsMode_congr {val' : BitVec 32} (low : val'.getLsbD 1 = val.getLsbD 1)
    (high : val'.getLsbD 2 = val.getLsbD 2) :
    Options.getFillContentsMode val' = Options.getFillContentsMode val := by
  refine congrArg fillOfValue ?_
  refine BitVec.eq_of_getLsbD_eq ?_
  intro j _
  change ((val' >>> 1) &&& 3#32).getLsbD j = ((val >>> 1) &&& 3#32).getLsbD j
  rw [BitVec.getLsbD_and, BitVec.getLsbD_and, BitVec.getLsbD_ushiftRight, BitVec.getLsbD_ushiftRight]
  match j with
  | 0 => rw [low]
  | 1 => rw [high]
  | j + 2 =>
    have above : (3#32).getLsbD (j + 2) = false := getLsbD_of_small (by decide) j
    rw [above, Bool.and_false, Bool.and_false]

theorem getFillContentsMode_with :
    Options.getFillContentsMode (AtomicOptions.withFillContents fillContents val) =
      some fillContents := by
  have same : (AtomicOptions.withFillContents fillContents val).getLsbD 1 =
        (fillValue fillContents <<< 1).getLsbD 1 ∧
      (AtomicOptions.withFillContents fillContents val).getLsbD 2 =
        (fillValue fillContents <<< 1).getLsbD 2 := by
    rw [getLsbD_withFillContents, getLsbD_withFillContents]
    simp
  rw [getFillContentsMode_congr same.1 same.2]
  cases fillContents <;> decide

/-- The bits that have no name stay clear. -/
theorem unused_of_bits {val' : BitVec 32} (unused : val.toNat < 2 ^ 9)
    (same : ∀ j, 9 ≤ j → val'.getLsbD j = true → val.getLsbD j = true) : val'.toNat < 2 ^ 9 := by
  refine Nat.lt_pow_two_of_testBit _ ?_
  intro j above
  by_contra bit
  have there := same j above (by simpa [BitVec.getLsbD] using bit)
  rw [BitVec.getLsbD, Nat.testBit_lt_two_pow] at there
  · cases there
  · exact lt_of_lt_of_le unused (Nat.pow_le_pow_right (by decide) above)

end Bits

namespace OptionValues

variable {val : BitVec 32} {values : OptionValues}

theorem Stands.initial : Stands 0 initial := by
  constructor
  · intro opt _
    rw [get_eq]
    simp [OptionValues.initial]
  · decide
  · decide

/-- A flag is none of the bits of the mode. -/
theorem flag_index {opt : OptionBit} (flag : opt.IsFlag) : opt.index ≠ 1 ∧ opt.index ≠ 2 :=
  ⟨fun same => flag.1 (OptionBit.index_injective same),
    fun same => flag.2 (OptionBit.index_injective same)⟩

theorem index_lt_nine (opt : OptionBit) : opt.index < 9 := by
  cases opt <;> decide

theorem Stands.set (stands : Stands val values) (opt : { opt : OptionBit // opt.IsFlag }) :
    Stands (AtomicOptions.set opt.1 val) (apply (.set opt) values) := by
  obtain ⟨opt, flag⟩ := opt
  obtain ⟨notLow, notHigh⟩ := flag_index flag
  constructor
  · intro other isFlag
    have before := stands.flag other isFlag
    rw [get_eq] at before ⊢
    rw [getLsbD_set, before]
    by_cases same : other = opt
    · subst same
      simp [apply]
    · have apart : ¬opt.index = other.index := fun eq => same (OptionBit.index_injective eq).symm
      simp [apply, same, apart]
  · have low : (AtomicOptions.set opt val).getLsbD 1 = val.getLsbD 1 := by
      rw [getLsbD_set]
      simp [notLow]
    have high : (AtomicOptions.set opt val).getLsbD 2 = val.getLsbD 2 := by
      rw [getLsbD_set]
      simp [notHigh]
    rw [getFillContentsMode_congr low high]
    exact stands.fillContents
  · refine unused_of_bits stands.unused ?_
    intro j above bit
    have apart : ¬opt.index = j := fun same => by
      have bound := index_lt_nine opt
      omega
    simpa [getLsbD_set, apart] using bit

theorem Stands.clear (stands : Stands val values) (opt : { opt : OptionBit // opt.IsFlag }) :
    Stands (AtomicOptions.clear opt.1 val) (apply (.clear opt) values) := by
  obtain ⟨opt, flag⟩ := opt
  obtain ⟨notLow, notHigh⟩ := flag_index flag
  constructor
  · intro other isFlag
    have before := stands.flag other isFlag
    rw [get_eq] at before ⊢
    rw [getLsbD_clear, before]
    by_cases same : other = opt
    · subst same
      simp [apply]
    · have apart : ¬opt.index = other.index := fun eq => same (OptionBit.index_injective eq).symm
      simp [apply, same, apart]
  · have low : (AtomicOptions.clear opt val).getLsbD 1 = val.getLsbD 1 := by
      rw [getLsbD_clear]
      simp [notLow]
    have high : (AtomicOptions.clear opt val).getLsbD 2 = val.getLsbD 2 := by
      rw [getLsbD_clear]
      simp [notHigh]
    rw [getFillContentsMode_congr low high]
    exact stands.fillContents
  · refine unused_of_bits stands.unused ?_
    intro j _ bit
    rw [getLsbD_clear] at bit
    exact (Bool.and_eq_true_iff.mp bit).1

theorem Stands.withFillContents (stands : Stands val values) (fillContents : FillContentsMode) :
    Stands (AtomicOptions.withFillContents fillContents val)
      (apply (.setFillContentsMode fillContents) values) := by
  constructor
  · intro other isFlag
    obtain ⟨notLow, notHigh⟩ := flag_index isFlag
    have before := stands.flag other isFlag
    rw [get_eq] at before ⊢
    rw [getLsbD_withFillContents, if_neg (by simp [notLow, notHigh]), before]
    rfl
  · exact getFillContentsMode_with
  · refine unused_of_bits stands.unused ?_
    intro j above bit
    rwa [getLsbD_withFillContents, if_neg (by omega)] at bit

theorem Stands.update (call : OptionCall) (val : BitVec 32) (values : OptionValues)
    (stands : Stands val values) : Stands (AtomicOptions.update call val) (apply call values) := by
  cases call with
  | set opt => exact stands.set opt
  | clear opt => exact stands.clear opt
  | setFillContentsMode fillContents => exact stands.withFillContents fillContents

end OptionValues

section Theorem

variable {τ : Type} [DecidableEq τ]

/-- In every run the options are what the calls make of them one after the other, each thread's calls in
its order, and the word says so; a compare-exchange is repeated only when the call of another thread
has taken effect since the word was read. -/
theorem options_linearizable {s : AtomicWord.State τ (BitVec 32) OptionCall}
    (reached : (AtomicOptions.options τ).Reachable s) :
    OptionValues.Stands s.word
      (s.log.foldl (fun values call => values.apply call.2) OptionValues.initial) ∧
    (∀ t, s.returned t = (s.log.filter fun call => call.1 = t).map Prod.snd) ∧
    ∀ t call expected mark, s.phase t = .loaded call expected mark → s.word ≠ expected →
      ∃ other ∈ s.log.drop mark, other.1 ≠ t := by
  have linear := AtomicWord.reachable_linear reached
  refine ⟨?_, linear.program, ?_⟩
  · exact linear.simulated OptionValues.Stands.initial OptionValues.Stands.update
  · intro t call expected mark loaded other
    exact linear.interfered loaded other

/-- A thread is about to store a fill mode, and another one has set a flag in the meantime. -/
theorem options_linearizable_race : ∃ s : AtomicWord.State (Fin 2) (BitVec 32) OptionCall,
    s.phase 0 = .loaded (.setFillContentsMode .zeroFill) 0 0 ∧ s.word = 1 ∧
      ∃ other ∈ s.log.drop 0, other.1 ≠ 0 := by
  have start : (AtomicOptions.options (Fin 2)).Reachable _ := .init rfl
  have calls := start.step (.call 0 (.setFillContentsMode .zeroFill) rfl)
  have loads := calls.step (.load 0 (.setFillContentsMode .zeroFill) rfl rfl)
  have sets := loads.step (.call 1 (.set ⟨.mayReturnNull, by decide, by decide⟩) rfl)
  have done := sets.step (.fetch 1 (.set ⟨.mayReturnNull, by decide, by decide⟩) rfl rfl)
  obtain ⟨_, _, interfered⟩ := options_linearizable done
  exact ⟨_, rfl, rfl, interfered 0 _ 0 0 rfl (by decide)⟩

end Theorem

end Scudo.Sync

import Scudo.Primary.PageMap

/-!
`VectorNoCtor`: elements stored inline up to a fixed number, and beyond that in a mapping that
grows. An element for which there is no memory is dropped.
-/

namespace Scudo
open Primary

/-- `growths` counts the calls of `reallocate`. -/
structure VectorNoCtor (α : Type*) where
  data : List α
  capacityBytes : Nat
  growths : Nat

namespace VectorNoCtor

section Operations

variable {α : Type*} (w : Nat) (page : PageSize) (elementBytes : Nat) (maps : Nat → Bool)

def init (staticNumEntries : Nat) : VectorNoCtor α := ⟨[], staticNumEntries * elementBytes, 0⟩

def capacity (v : VectorNoCtor α) : Nat := v.capacityBytes / elementBytes

/-- `maps n` tells whether call number `n` finds memory to map. -/
def reallocate (v : VectorNoCtor α) (newCapacity : Nat) : Bool × VectorNoCtor α :=
  if maps v.growths then
    (true, { v with
      capacityBytes := roundUp w (wrap w (newCapacity * elementBytes)) page.bytes
      growths := v.growths + 1 })
  else (false, { v with growths := v.growths + 1 })

def pushBack (v : VectorNoCtor α) (element : α) : VectorNoCtor α :=
  if v.data.length = v.capacity elementBytes then
    let grown := v.reallocate w page elementBytes maps (roundUpPowerOfTwo (v.data.length + 1))
    if grown.1 then { grown.2 with data := grown.2.data ++ [element] } else grown.2
  else { v with data := v.data ++ [element] }

def pushAll (v : VectorNoCtor α) (elements : List α) : VectorNoCtor α :=
  elements.foldl (pushBack w page elementBytes maps) v

/-- How many elements there is room for after a number of growths, with one element inline. -/
def room : Nat → Nat
  | 0 => 1
  | growths + 1 => 2 ^ growths * (page.bytes / elementBytes)

end Operations

/-- No element was dropped. -/
structure Complete {α : Type*} (page : PageSize) (elementBytes : Nat) (v : VectorNoCtor α)
    (elements : List α) : Prop where
  data : v.data = elements
  bytes : v.capacityBytes = room page elementBytes v.growths * elementBytes
  fits : elements.length ≤ room page elementBytes v.growths

section Growth

variable {α : Type*} {w : Nat} {page : PageSize} {elementBytes : Nat} {maps : Nat → Bool}
  {v : VectorNoCtor α} {elements : List α} {element : α}

theorem roundUpPowerOfTwo_succ (k : Nat) : roundUpPowerOfTwo (2 ^ k + 1) = 2 ^ (k + 1) := by
  unfold roundUpPowerOfTwo getMostSignificantSetBitIndex
  cases k with
  | zero => decide
  | succ k =>
    have log : Nat.log2 (2 ^ (k + 1) + 1) = k + 1 := by
      rw [Nat.log2_eq_iff (Nat.succ_ne_zero _)]
      have large : 2 ≤ 2 ^ (k + 1) := Nat.le_self_pow (Nat.succ_ne_zero k) 2
      omega
    have odd : isPowerOfTwo (2 ^ (k + 1) + 1) = false := by
      rw [Bool.eq_false_iff]
      intro power
      obtain ⟨j, same⟩ := isPowerOfTwo_iff.mp power
      cases j with
      | zero =>
        have positive := Nat.two_pow_pos (k + 1)
        omega
      | succ j =>
        rw [Nat.pow_succ, Nat.pow_succ] at same
        omega
    rw [odd, log]
    rfl

/-- Elements are as large as a power of two, and a page has room for two of them. -/
structure Sized (page : PageSize) (elementBytes : Nat) : Prop where
  power : isPowerOfTwo elementBytes = true
  small : 2 * elementBytes ≤ page.bytes

theorem Sized.dvd (sized : Sized page elementBytes) : elementBytes ∣ page.bytes :=
  isPowerOfTwo_dvd sized.power page.power (by have small := sized.small; omega)

theorem Sized.pos (sized : Sized page elementBytes) : 0 < elementBytes :=
  isPowerOfTwo_pos sized.power

theorem room_bytes (sized : Sized page elementBytes) (growths : Nat) :
    room page elementBytes (growths + 1) * elementBytes = 2 ^ growths * page.bytes := by
  rw [room, Nat.mul_assoc, Nat.div_mul_cancel sized.dvd]

theorem room_strictMono (sized : Sized page elementBytes) :
    StrictMono (room page elementBytes) := by
  have perPage : 2 ≤ page.bytes / elementBytes :=
    (Nat.le_div_iff_mul_le sized.pos).mpr sized.small
  apply strictMono_nat_of_lt_succ
  intro growths
  cases growths with
  | zero =>
    rw [room, room, Nat.pow_zero, Nat.one_mul]
    exact perPage
  | succ growths =>
    rw [room, room, Nat.pow_succ]
    apply Nat.mul_lt_mul_of_pos_right
    · have positive := Nat.two_pow_pos growths
      omega
    · omega

/-- A growth doubles the room, except that the first one makes room for a page. -/
theorem growth_bytes (sized : Sized page elementBytes) (growths : Nat)
    (word : 2 * room page elementBytes growths * elementBytes + page.bytes ≤ 2 ^ w) :
    roundUp w (wrap w (roundUpPowerOfTwo (room page elementBytes growths + 1) * elementBytes))
        page.bytes = room page elementBytes (growths + 1) * elementBytes := by
  have pagePos := page.pos
  have small := sized.small
  have positive := sized.pos
  rw [room_bytes sized]
  cases growths with
  | zero =>
    have two : roundUpPowerOfTwo 2 = 2 := by decide
    rw [room] at word ⊢
    rw [two, wrap_eq (by omega), roundUp_eq page.power (by omega) (by omega)]
    unfold roundUpSlow
    have quotient : (2 * elementBytes + page.bytes - 1) / page.bytes = 1 := by
      apply Nat.div_eq_of_lt_le <;> omega
    rw [quotient]
    rfl
  | succ growths =>
    have bytes := room_bytes sized growths
    obtain ⟨k, pageLog⟩ := isPowerOfTwo_iff.mp page.power
    obtain ⟨j, elementLog⟩ := isPowerOfTwo_iff.mp sized.power
    have order : j ≤ k := by
      apply (Nat.pow_le_pow_iff_right (show 1 < 2 by decide)).mp
      omega
    have log : room page elementBytes (growths + 1) = 2 ^ (growths + (k - j)) := by
      rw [room, pageLog, elementLog, Nat.pow_div order (by decide), Nat.pow_add]
    have doubled : roundUpPowerOfTwo (room page elementBytes (growths + 1) + 1) * elementBytes =
        2 ^ (growths + 1) * page.bytes := by
      rw [log, roundUpPowerOfTwo_succ, Nat.pow_succ, ← log, Nat.mul_right_comm, bytes,
        Nat.pow_succ]
      ring
    have total : 2 ^ (growths + 1) * page.bytes + page.bytes ≤ 2 ^ w := by
      calc
        2 ^ (growths + 1) * page.bytes + page.bytes
          = 2 * (2 ^ growths * page.bytes) + page.bytes := by ring
        _ = 2 * room page elementBytes (growths + 1) * elementBytes + page.bytes := by
          rw [← bytes, Nat.mul_assoc]
        _ ≤ 2 ^ w := word
    have whole : page.bytes ≤ 2 ^ (growths + 1) * page.bytes :=
      Nat.le_mul_of_pos_left _ (Nat.two_pow_pos _)
    rw [doubled, wrap_eq (by omega)]
    exact roundUp_of_dvd page.power (by omega) (by omega) (Nat.dvd_mul_left _ _)

/-- A push onto a vector that has room, or that finds memory. -/
theorem Complete.pushBack (maps : Nat → Bool) (sized : Sized page elementBytes)
    (complete : v.Complete page elementBytes elements)
    (word : 2 * elements.length * elementBytes + page.bytes ≤ 2 ^ w) (element : α) :
    (elements.length < room page elementBytes v.growths →
      (v.pushBack w page elementBytes maps element).growths = v.growths ∧
        (v.pushBack w page elementBytes maps element).Complete page elementBytes
          (elements ++ [element])) ∧
    (elements.length = room page elementBytes v.growths → maps v.growths = true →
      (v.pushBack w page elementBytes maps element).growths = v.growths + 1 ∧
        (v.pushBack w page elementBytes maps element).Complete page elementBytes
          (elements ++ [element])) ∧
    (elements.length = room page elementBytes v.growths → maps v.growths = false →
      (v.pushBack w page elementBytes maps element).data = elements) := by
  have capacity : v.capacity elementBytes = room page elementBytes v.growths := by
    unfold VectorNoCtor.capacity
    rw [complete.bytes, Nat.mul_div_cancel _ sized.pos]
  have data := complete.data
  refine ⟨?_, ?_, ?_⟩
  · intro below
    have roomy : ¬v.data.length = v.capacity elementBytes := by
      rw [data, capacity]
      omega
    unfold VectorNoCtor.pushBack
    rw [if_neg roomy]
    refine ⟨rfl, ?_, complete.bytes, ?_⟩
    · rw [data]
    · rw [List.length_append, List.length_singleton]
      exact below
  · intro full found
    have bytes := growth_bytes sized v.growths (full ▸ word)
    have atEnd : v.data.length = v.capacity elementBytes := by rw [data, capacity, full]
    unfold VectorNoCtor.pushBack VectorNoCtor.reallocate
    rw [if_pos atEnd, if_pos found, data, full]
    refine ⟨rfl, rfl, bytes, ?_⟩
    have grown := room_strictMono sized (Nat.lt_succ_self v.growths)
    rw [List.length_append, List.length_singleton, full]
    exact grown
  · intro full missing
    have atEnd : v.data.length = v.capacity elementBytes := by rw [data, capacity, full]
    unfold VectorNoCtor.pushBack VectorNoCtor.reallocate
    simp only [if_pos atEnd, missing, Bool.false_eq_true, if_false]
    exact data

variable (w page elementBytes maps) in
theorem pushBack_length_le (v : VectorNoCtor α) (element : α) :
    (v.pushBack w page elementBytes maps element).data.length ≤ v.data.length + 1 := by
  unfold VectorNoCtor.pushBack reallocate
  split_ifs with full found <;> simp

theorem pushAll_cons (v : VectorNoCtor α) (element : α) (elements : List α) :
    v.pushAll w page elementBytes maps (element :: elements) =
      (v.pushBack w page elementBytes maps element).pushAll w page elementBytes maps elements := rfl

variable (w page elementBytes maps) in
theorem pushAll_length_le (v : VectorNoCtor α) (elements : List α) :
    (v.pushAll w page elementBytes maps elements).data.length ≤
      v.data.length + elements.length := by
  induction elements generalizing v with
  | nil => exact le_rfl
  | cons first rest ih =>
    have pushed := pushBack_length_le w page elementBytes maps v first
    have later := ih (v.pushBack w page elementBytes maps first)
    rw [pushAll_cons, List.length_cons]
    omega

/-- More pushes onto a vector that is complete so far keep everything if and only if every growth
finds memory that they need. -/
theorem Complete.pushAll_iff (maps : Nat → Bool) (sized : Sized page elementBytes)
    (complete : v.Complete page elementBytes elements) (more : List α)
    (word : 2 * (elements.length + more.length) * elementBytes + page.bytes ≤ 2 ^ w) :
    (v.pushAll w page elementBytes maps more).data = elements ++ more ↔
      ∀ growth, v.growths ≤ growth →
        room page elementBytes growth < elements.length + more.length → maps growth = true := by
  induction more generalizing v elements with
  | nil =>
    refine iff_of_true (complete.data.trans (List.append_nil _).symm) ?_
    intro growth later needed
    have above := (room_strictMono sized).monotone later
    have fits := complete.fits
    rw [List.length_nil] at needed
    omega
  | cons first rest ih =>
    rw [List.length_cons] at word ⊢
    have before : 2 * elements.length * elementBytes + page.bytes ≤ 2 ^ w := by
      refine le_trans ?_ word
      gcongr
      omega
    obtain ⟨below, found, missing⟩ := complete.pushBack maps sized before first
    have total : elements.length + (rest.length + 1) = (elements ++ [first]).length + rest.length := by
      rw [List.length_append, List.length_singleton]
      omega
    have shape : elements ++ first :: rest = elements ++ [first] ++ rest := by simp
    rw [pushAll_cons]
    rcases Nat.lt_or_eq_of_le complete.fits with roomy | full
    · obtain ⟨growths, complete'⟩ := below roomy
      rw [shape, ih complete' (total ▸ word), growths, total]
    · cases outcome : maps v.growths with
      | true =>
        obtain ⟨growths, complete'⟩ := found full outcome
        rw [shape, ih complete' (total ▸ word), growths, total]
        constructor
        · intro all growth later needed
          rcases Nat.lt_or_eq_of_le later with beyond | same
          · exact all growth beyond needed
          · rw [← same]
            exact outcome
        · intro all growth later needed
          exact all growth (by omega) needed
      | false =>
        have data := missing full outcome
        refine iff_of_false ?_ ?_
        · intro same
          have short := pushAll_length_le w page elementBytes maps
            (v.pushBack w page elementBytes maps first) rest
          rw [same, data, List.length_append, List.length_cons] at short
          omega
        · intro all
          have contradiction := all v.growths le_rfl (by omega)
          rw [outcome] at contradiction
          cases contradiction

theorem init_complete : (init elementBytes 1 : VectorNoCtor α).Complete page elementBytes [] :=
  ⟨rfl, rfl, Nat.zero_le _⟩

/-- A vector with one inline element keeps what is pushed if and only if it gets every buffer that
it needs. -/
theorem pushAll_data_iff (maps : Nat → Bool) (sized : Sized page elementBytes)
    (elements : List α)
    (word : 2 * elements.length * elementBytes + page.bytes ≤ 2 ^ w) :
    ((init elementBytes 1 : VectorNoCtor α).pushAll w page elementBytes maps elements).data =
        elements ↔
      ∀ growth, room page elementBytes growth < elements.length → maps growth = true := by
  have complete : (init elementBytes 1 : VectorNoCtor α).Complete page elementBytes [] := init_complete
  have pushed := complete.pushAll_iff maps sized elements
    (by rw [List.length_nil, Nat.zero_add]; exact word)
  rw [List.nil_append, List.length_nil, Nat.zero_add] at pushed
  rw [pushed]
  exact forall_congr' fun growth => ⟨fun all => all (Nat.zero_le _), fun needed _ => needed⟩

end Growth

end VectorNoCtor

end Scudo

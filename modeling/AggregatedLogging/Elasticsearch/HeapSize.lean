import AggregatedLogging.MemoryLimit

/-! The heap that the start script of Elasticsearch asks for: half of what the limit of the
container, the recommended maximum and the control group allow. -/
namespace AggregatedLogging.Elasticsearch

open Shell
open MemoryLimit

section Script

def maxEsMemory : Int := 64 * bytesPerGig
def minEsMemory : Int := 256 * bytesPerMeg

/-- The number of megabytes in `-Xms` and in `-Xmx`. -/
structure Heap where
  xms : Int
  xmx : Int
  deriving DecidableEq, Repr

/-- A number as an operand of `[`. -/
def sized (n : Int) : Option Int := if fits n then some n else none

/-- The limit in the pod's information is in bytes; it goes before `INSTANCE_RAM`. -/
def containerMemLimit (memLimitFile : Option Nat) (instanceRam : Text) : Text :=
  match memLimitFile with
  | some limit => decimal ((wrap limit).tdiv bytesPerMeg) ++ ['M']
  | none => instanceRam

/-- `^([[:digit:]]+)([GgMm])i?$` -/
def esLimit? (s : Text) : Option (Text × MemUnit) :=
  (limit? s).bind fun p => p.2.map fun unit => (p.1, unit)

def downgraded (num : Int) : Except Nat Int :=
  if maxEsMemory < num then assigned (some maxEsMemory) else .ok num

def available (maxMem : Nat) (num : Int) : Except Nat Int :=
  if compares (fun a b => a < b) (sized maxMem) (some num) then assigned (some (maxMem : Int))
  else .ok num

def halved (num : Int) : Except Nat Heap :=
  if num < minEsMemory then .error 1
  else .ok ⟨(num.tdiv 2).tdiv bytesPerMeg, (num.tdiv 2).tdiv bytesPerMeg⟩

/-- The script up to the options of Java; a maximum that cannot be read ends it. -/
def setHeap (limit : Text) (maxMem : Option Nat) : Except Nat Heap :=
  match esLimit? limit with
  | none => .error 1
  | some (num, unit) => do
    let num ← assigned ((constant? num).map fun n => wrap (n * unit.bytes))
    let num ← downgraded num
    match maxMem with
    | none => .error 1
    | some maxMem => do
      let num ← available maxMem num
      halved num

def startHeap (memLimitFile : Option Nat) (instanceRam : Text) (maxMem : Option Nat) :
    Except Nat Heap :=
  setHeap (containerMemLimit memLimitFile instanceRam) maxMem

end Script

section Claim

def allowed (num : Text) (unit : MemUnit) (maxMem : Nat) : Int :=
  min (min ((amount num * unit.bytes : Nat) : Int) maxEsMemory) maxMem

/-- Half of it is the heap; an error means that it is too little. -/
def HeapSized (num : Text) (unit : MemUnit) (maxMem : Nat) : Except Nat Heap → Prop
  | .ok heap => heap.xms = allowed num unit maxMem / 2 / bytesPerMeg ∧ heap.xmx = heap.xms ∧
      128 ≤ heap.xms
  | .error _ => allowed num unit maxMem < minEsMemory

/-- The bytes that the shell reads: octal behind a zero, and within 64 bits. -/
def reading (num : Text) (unit : MemUnit) : Option Int :=
  (constant? num).map fun n => wrap (n * unit.bytes)

def half (n : Int) : Int := n / 2 / bytesPerMeg

/-- Both are too little, or neither is, and they have the same half or reach that of `cap`. -/
def Interchangeable (cap n m : Int) : Prop :=
  (n < minEsMemory ∧ m < minEsMemory) ∨
    minEsMemory ≤ n ∧ minEsMemory ≤ m ∧ (half n = half m ∨ half cap ≤ half n ∧ half cap ≤ half m)

/-- The maximum is too little, or the shell's reading of the limit makes no difference. -/
def ReadsLimit (num : Text) (unit : MemUnit) (maxMem : Nat) : Prop :=
  min maxEsMemory (maxMem : Int) < minEsMemory ∨
    match reading num unit with
    | none => ((amount num * unit.bytes : Nat) : Int) < minEsMemory
    | some n => Interchangeable (min maxEsMemory maxMem) n (amount num * unit.bytes : Nat)

end Claim

section Heap

variable {limit num : Text} {unit : MemUnit} {maxMem : Nat} {n : Int}

theorem maxEsMemory_eq : maxEsMemory = 68719476736 := rfl

theorem minEsMemory_eq : minEsMemory = 268435456 := rfl

theorem bytesPerMeg_eq : bytesPerMeg = 1048576 := rfl

theorem sized_lt {a b : Int} (hb : fits b = true) (ha : 0 ≤ a) :
    compares (fun a b => a < b) (sized a) (some b) = decide (a < b) := by
  rw [sized]
  split
  · rfl
  · rename_i hfits
    symm
    apply decide_eq_false
    intro hlt
    apply hfits
    rw [fits_eq_true] at hb ⊢
    omega

theorem downgraded_eq (n : Int) : downgraded n = .ok (min n maxEsMemory) := by
  rw [downgraded]
  split
  · rename_i hlt
    rw [Int.min_eq_right (Int.le_of_lt hlt)]
    rfl
  · rename_i hle
    rw [Int.min_eq_left (Int.not_lt.mp hle)]

theorem available_eq (hn : fits n = true) (maxMem : Nat) :
    available maxMem n =
      if (maxMem : Int) = 0 ∧ 0 < n then .error 1 else .ok (min n maxMem) := by
  rw [available, sized_lt hn (Int.natCast_nonneg maxMem)]
  by_cases hlt : (maxMem : Int) < n
  · rw [decide_eq_true hlt, if_pos rfl, assigned, Int.min_eq_right (Int.le_of_lt hlt)]
    by_cases hzero : (maxMem : Int) = 0
    · rw [hzero] at hlt
      rw [if_pos hzero, if_pos ⟨hzero, hlt⟩]
    · rw [if_neg hzero, if_neg]
      intro hnone
      exact hzero hnone.1
  · rw [decide_eq_false hlt, if_neg Bool.false_ne_true, Int.min_eq_left (Int.not_lt.mp hlt), if_neg]
    intro hnone
    rw [hnone.1] at hlt
    exact hlt hnone.2

theorem halved_eq (n : Int) :
    halved n = if n < minEsMemory then .error 1 else .ok ⟨half n, half n⟩ := by
  rw [halved]
  split
  · rfl
  · rename_i hge
    have hnonneg : 0 ≤ n := by
      rw [minEsMemory_eq] at hge
      omega
    rw [half, Int.tdiv_eq_ediv_of_nonneg hnonneg, Int.tdiv_eq_ediv_of_nonneg (by omega)]

theorem setHeap_eq (h : esLimit? limit = some (num, unit)) (hn : reading num unit = some n) :
    setHeap limit (some maxMem) =
      if min (min n maxEsMemory) maxMem < minEsMemory then .error 1
      else .ok ⟨half (min (min n maxEsMemory) maxMem), half (min (min n maxEsMemory) maxMem)⟩ := by
  have hfits : fits (min n maxEsMemory) = true := by
    obtain ⟨x, -, hx⟩ := Option.map_eq_some_iff.mp hn
    have hwrap := fits_wrap (x * unit.bytes)
    rw [hx, fits_eq_true] at hwrap
    rw [fits_eq_true, maxEsMemory_eq]
    omega
  rw [setHeap, h]
  change (assigned (reading num unit) >>= _) = _
  rw [hn]
  by_cases hzero : n = 0
  · have hlittle : min (min n maxEsMemory) maxMem < minEsMemory := by
      rw [hzero, maxEsMemory_eq, minEsMemory_eq]
      omega
    have hfailed : assigned (some n) = .error 1 := if_pos hzero
    rw [if_pos hlittle, hfailed, error_bind]
  · have hassigned : assigned (some n) = .ok n := if_neg hzero
    rw [hassigned, ok_bind, downgraded_eq, ok_bind]
    dsimp only
    rw [available_eq hfits]
    by_cases hnone : (maxMem : Int) = 0 ∧ 0 < min n maxEsMemory
    · have hlittle : min (min n maxEsMemory) maxMem < minEsMemory := by
        rw [hnone.1, minEsMemory_eq]
        omega
      rw [if_pos hnone, if_pos hlittle, error_bind]
    · rw [if_neg hnone, ok_bind, halved_eq]

theorem setHeap_octal (h : esLimit? limit = some (num, unit)) (hn : reading num unit = none) :
    setHeap limit (some maxMem) = .error 1 := by
  rw [setHeap, h]
  dsimp only
  rw [reading] at hn
  rw [hn]
  rfl

/-- What is capped has the half that is meant exactly when the two numbers can stand for each
other. -/
theorem half_capped_iff {cap m : Int} :
    (if min n cap < minEsMemory then min m cap < minEsMemory
      else half (min n cap) = half (min m cap) ∧ 128 ≤ half (min n cap)) ↔
      cap < minEsMemory ∨ Interchangeable cap n m := by
  rw [Interchangeable, minEsMemory_eq, half, half, half, half, half, bytesPerMeg_eq]
  rcases Int.le_total n cap with hn | hn
  · rw [Int.min_eq_left hn]
    rcases Int.le_total m cap with hm | hm
    · rw [Int.min_eq_left hm]
      split
      · omega
      · omega
    · rw [Int.min_eq_right hm]
      split
      · omega
      · omega
  · rw [Int.min_eq_right hn]
    rcases Int.le_total m cap with hm | hm
    · rw [Int.min_eq_left hm]
      split
      · omega
      · omega
    · rw [Int.min_eq_right hm]
      split
      · omega
      · omega

theorem allowed_eq (num : Text) (unit : MemUnit) (maxMem : Nat) :
    allowed num unit maxMem =
      min ((amount num * unit.bytes : Nat) : Int) (min maxEsMemory maxMem) := by
  rw [allowed, Int.min_assoc]

theorem heapSized_some (h : esLimit? limit = some (num, unit)) (hn : reading num unit = some n) :
    HeapSized num unit maxMem (setHeap limit (some maxMem)) ↔
      if min n (min maxEsMemory maxMem) < minEsMemory then allowed num unit maxMem < minEsMemory
      else half (min n (min maxEsMemory maxMem)) = half (allowed num unit maxMem) ∧
        128 ≤ half (min n (min maxEsMemory maxMem)) := by
  rw [setHeap_eq h hn, Int.min_assoc]
  by_cases hlittle : min n (min maxEsMemory maxMem) < minEsMemory
  · rw [if_pos hlittle, if_pos hlittle, HeapSized]
  · rw [if_neg hlittle, if_neg hlittle, HeapSized]
    constructor
    · intro hsized
      exact ⟨hsized.1, hsized.2.2⟩
    · intro hsized
      exact ⟨hsized.1, rfl, hsized.2⟩

theorem heapSized_of_reading (h : esLimit? limit = some (num, unit))
    (hn : reading num unit = some ((amount num * unit.bytes : Nat) : Int)) (maxMem : Nat) :
    HeapSized num unit maxMem (setHeap limit (some maxMem)) := by
  rw [heapSized_some h hn, ← allowed_eq]
  split
  · rename_i hlittle
    exact hlittle
  · rename_i henough
    refine ⟨rfl, ?_⟩
    rw [minEsMemory_eq] at henough
    rw [half, bytesPerMeg_eq]
    omega

theorem reading_plain (hnum : num.head? ≠ some '0')
    (hfits : fits ((amount num * unit.bytes : Nat) : Int) = true) :
    reading num unit = some ((amount num * unit.bytes : Nat) : Int) := by
  have hbytes : ((amount num : Nat) : Int) * unit.bytes = ((amount num * unit.bytes : Nat) : Int) :=
    (Int.natCast_mul _ _).symm
  rw [reading, constant?_plain hnum, Option.map_some, wrap_mul_wrap]
  change some (wrap ((amount num : Nat) * unit.bytes)) = _
  rw [hbytes, wrap_eq_self hfits]

end Heap

section PodInfo

theorem heapSized_megs {megs : Nat} (hfits : fits ((megs * bytesPerMeg : Nat) : Int) = true)
    (maxMem : Nat) :
    HeapSized (Nat.toDigits 10 megs) .meg maxMem
      (setHeap (Nat.toDigits 10 megs ++ ['M']) (some maxMem)) := by
  have hdigits : (Nat.toDigits 10 megs).all Char.isDigit = true := by
    rw [List.all_eq_true]
    intro c hc
    exact Nat.isDigit_of_mem_toDigits (by decide) (by decide) hc
  have hunit : ∀ c, ['M'].head? = some c → c.isDigit = false := by
    intro c hc
    rw [← Option.some.inj hc]
    rfl
  have hlimit : esLimit? (Nat.toDigits 10 megs ++ ['M']) = some (Nat.toDigits 10 megs, .meg) := by
    rw [esLimit?, limit?_written Nat.toDigits_ne_nil hdigits hunit rfl]
    rfl
  have hamount : amount (Nat.toDigits 10 megs) = megs := Nat.ofDigitChars_ten_toDigits
  have hmegs : fits (megs : Int) = true :=
    fits_of_le (Nat.le_mul_of_pos_right megs (by decide)) hfits
  apply heapSized_of_reading hlimit
  rw [hamount, reading, constant?_toDigits hmegs, Option.map_some, ← Int.natCast_mul]
  exact congrArg some (wrap_eq_self hfits)

theorem heapSized_podInfo {limit : Nat} (hfits : fits limit = true) (instanceRam : Text)
    (maxMem : Nat) :
    HeapSized (Nat.toDigits 10 (limit / bytesPerMeg)) .meg maxMem
      (startHeap (some limit) instanceRam (some maxMem)) := by
  have hdiv : (wrap limit).tdiv bytesPerMeg = ((limit / bytesPerMeg : Nat) : Int) := by
    rw [wrap_eq_self hfits]
    rfl
  have hnonneg : ¬ ((limit / bytesPerMeg : Nat) : Int) < 0 :=
    Int.not_lt.mpr (Int.natCast_nonneg _)
  have htext : containerMemLimit (some limit) instanceRam =
      Nat.toDigits 10 (limit / bytesPerMeg) ++ ['M'] := by
    rw [containerMemLimit, hdiv, decimal, if_neg hnonneg, Int.natAbs_natCast]
  rw [startHeap, htext]
  exact heapSized_megs (fits_of_le (Nat.div_mul_le_self _ _) hfits) maxMem

end PodInfo

section Outcome

variable {limit num : Text} {unit : MemUnit}

/-- The heap is half of what is allowed, and an error means too little, exactly when the shell reads
the limit as it is meant, or the difference does not show. -/
theorem heapSized_iff (h : esLimit? limit = some (num, unit)) (maxMem : Nat) :
    HeapSized num unit maxMem (setHeap limit (some maxMem)) ↔ ReadsLimit num unit maxMem := by
  unfold ReadsLimit
  cases hn : reading num unit with
  | none =>
    have hnonneg : (0 : Int) ≤ maxMem := Int.natCast_nonneg maxMem
    rw [setHeap_octal h hn, HeapSized, allowed, maxEsMemory_eq, minEsMemory_eq]
    omega
  | some n => rw [heapSized_some h hn, allowed_eq, half_capped_iff]

/-- The heap for four gigabytes in a group of eight. -/
theorem heapSized_fourGig :
    HeapSized "4".toList .gig 8589934592 (setHeap "4G".toList (some 8589934592)) := by
  have hlimit : esLimit? "4G".toList = some ("4".toList, .gig) := rfl
  have hreading : reading "4".toList .gig =
      some ((amount "4".toList * MemUnit.gig.bytes : Nat) : Int) :=
    reading_plain (by decide) (by decide +kernel)
  apply (heapSized_iff hlimit 8589934592).mpr
  unfold ReadsLimit
  rw [hreading]
  dsimp only
  rw [Interchangeable]
  omega

/-- A zero in front makes ten gigabytes eight. -/
theorem not_heapSized_octal :
    ¬ HeapSized "010".toList .gig 17179869184 (setHeap "010G".toList (some 17179869184)) := by
  have hrun : setHeap "010G".toList (some 17179869184) = .ok ⟨4096, 4096⟩ := by decide +kernel
  have hmeant : allowed "010".toList .gig 17179869184 / 2 / bytesPerMeg = 5120 := by decide +kernel
  rw [hrun, HeapSized, hmeant]
  intro hsized
  exact absurd hsized.1 (by decide)

end Outcome

end AggregatedLogging.Elasticsearch

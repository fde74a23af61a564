import AggregatedLogging.Shell
import AggregatedLogging.Regex.Alternatives
import Mathlib.Data.List.DropRight
import Mathlib.Algebra.Order.Ring.Int

/-! The sizes of the file buffers, which `run.sh` computes from the disk, the limits of the
environment and the number of outputs. -/
namespace AggregatedLogging.Fluentd

open Calls Shell

/-- The environment of `run.sh`, a variable that is not set being empty.  `df` is the size in
the row of `df -B1`, and `files` are the files in the directories below `CFG_DIR`. -/
structure Setup where
  muxClientMode : Text := []
  esHost : Text
  esPort : Text
  opsHost : Text
  opsPort : Text
  muxFileBufferStorageType : Text := []
  df : Option Nat
  fileBufferLimit : Text := []
  bufferSizeLimit : Text := []
  muxClientFilename : Text := []
  files : List (Text × List Text)

def orDefault (value default : Text) : Text := if value = [] then default else value

def elasticsearchOutputs (setup : Setup) : Nat :=
  if setup.muxClientMode ≠ [] then 1
  else if Shell.words setup.opsHost = [setup.esHost] ∧
      (Value.read setup.esPort).test (fun a b => a == b)
        (Value.read (orDefault setup.opsPort ['0'])) = true then 1
  else 2

/-- `DF_LIMIT`; for a mounted directory of the host it is a quarter. -/
def dfLimit (setup : Setup) : Value :=
  let size := Value.number (setup.df.getD 0 : Nat)
  if setup.muxFileBufferStorageType = "hostmount".toList then size.div (.number 4) else size

def unit (c : Char) : Text :=
  if c = 'K' ∨ c = 'k' then "*1024".toList
  else if c = 'M' ∨ c = 'm' then "*1024*1024".toList
  else if c = 'G' ∨ c = 'g' then "*1024*1024*1024".toList
  else if c = 'i' then []
  else [c]

def units (s : Text) : Text := s.flatMap unit

/-- `grep "@type .*forward"`. -/
def isForward (line : Text) : Bool := Regex.matchesText "@type .*forward".toList line

/-- `expr "$line" : "^ *#"`. -/
def commentLength (line : Text) : Nat :=
  if (line.dropWhile fun c => c = ' ').head? = some '#' then
    (line.takeWhile fun c => c = ' ').length + 1
  else 0

/-- `read -r` drops the blanks at both ends. -/
def readLine (line : Text) : Text := (line.dropWhile Shell.isBlank).rdropWhile Shell.isBlank

/-- A path that looks like an option is none. -/
def basename (path : Text) : Except Nat Text :=
  if path.head? = some '-' then .error 1 else .ok (path.reverse.takeWhile fun c => c ≠ '/').reverse

def countLine (line : Text) : Command Nat PUnit :=
  if commentLength (readLine line) = 0 then do
    let numOutputs ← get
    set (numOutputs + 1)
  else
    pure ⟨⟩

/-- The loop over the lines of a file, at the end of a pipeline. -/
def countLines (lines : List Text) : Command Nat PUnit :=
  subshell ((lines.filter isForward).forM countLine)

def countForwards (setup : Setup) : Command Nat PUnit :=
  let forwardFiles := setup.files.filter fun f => f.2.any isForward
  (Shell.words (Text.join ['\n'] (forwardFiles.map Prod.fst))).forM fun afile => do
    let file ← yields (basename afile)
    if file ≠ setup.muxClientFilename then
      countLines ((setup.files.lookup afile).getD [])
    else
      pure ⟨⟩

/-- What is exported, and the number of outputs by which the space was divided. -/
structure Buffers where
  numOutputs : Nat
  bufferQueueLimit : Value
  bufferSizeLimit : Value
  deriving DecidableEq

section Script

variable (bc : Text → Option Text) (setup : Setup)

/-- `FILE_BUFFER_LIMIT` in bytes; that `bc` fails is passed over. -/
def fileBufferBytes : Value :=
  Value.read ((bc (units (echo (orDefault setup.fileBufferLimit "2Gi".toList)))).getD [])

def bufferSizeText : Option Text :=
  bc (units (echo (orDefault setup.bufferSizeLimit "16777216".toList)))

def bufferSizeBytes : Value :=
  let size := Value.read ((bufferSizeText bc setup).getD [])
  if size = .empty then .number 16777216 else size

def availableSize : Except Nat Value :=
  if (dfLimit setup).isZero then .error 1 else .ok (dfLimit setup)

def totalLimit : Except Nat Value :=
  if (fileBufferBytes bc setup).test (fun a b => a ≤ b) (.number 0) then .error 1
  else .ok (fileBufferBytes bc setup)

def capped (df total : Value) : Value :=
  if df.test (fun a b => a < b) total then df else total

def divide (df total : Value) (numOutputs : Nat) : Except Nat Buffers :=
  let allOutputs := capped df (total.mul (.number numOutputs))
  if bufferSizeText bc setup = none then .error 1
  else
    let perOutput := allOutputs.div (.number numOutputs)
    if perOutput.isZero then .error 1
    else
      let queue := perOutput.div (bufferSizeBytes bc setup)
      if queue.isZero then .error 1
      else .ok ⟨numOutputs, queue, bufferSizeBytes bc setup⟩

def runBuffers : Command Nat Buffers := do
  set (elasticsearchOutputs setup)
  let df ← yields (availableSize setup)
  let total ← yields (totalLimit bc setup)
  countForwards setup
  let numOutputs ← get
  yields (divide bc setup df total numOutputs)

end Script

section Claim

def forwardLines (setup : Setup) : Nat :=
  ((setup.files.flatMap Prod.snd).filter fun line =>
    isForward line && (line.dropWhile Shell.isBlank).head? ≠ some '#').length

def availableBytes (setup : Setup) : Nat :=
  if setup.muxFileBufferStorageType = "hostmount".toList then setup.df.getD 0 / 4
  else setup.df.getD 0

/-- The space is divided by all outputs, and the buffers of all of them find room on the disk. -/
structure BuffersFit (setup : Setup) (b : Buffers) : Prop where
  outputs : b.numOutputs = elasticsearchOutputs setup + forwardLines setup
  room : ∃ queue size : Int, b.bufferQueueLimit = .number queue ∧
    b.bufferSizeLimit = .number size ∧ 1 ≤ queue ∧
      b.numOutputs * queue * size ≤ availableBytes setup

/-- There is no forward output, and the limits are integers of one sign.  A limit that `[` cannot
compare is not capped, it has to fit by itself. -/
structure Divisible (bc : Text → Option Text) (setup : Setup) : Prop where
  forwards : forwardLines setup = 0
  limits : ∃ total size : Int, fileBufferBytes bc setup = .number total ∧
    bufferSizeBytes bc setup = .number size ∧ 0 < total * size ∧
      (total * elasticsearchOutputs setup < 9223372036854775808 ∨
        elasticsearchOutputs setup * (total.tdiv size * size) ≤ availableBytes setup)

end Claim

section Arithmetic

variable {total size outputs available : Int}

theorem rounded_le (hsize : 0 < size) (houtputs : 0 < outputs) :
    outputs * (total / outputs / size) * size ≤ total := by
  have hqueue : total / outputs / size * size ≤ total / outputs :=
    Int.ediv_mul_le _ (Int.ne_of_gt hsize)
  have hper : outputs * (total / outputs) ≤ total := Int.mul_ediv_self_le (Int.ne_of_gt houtputs)
  calc outputs * (total / outputs / size) * size
      = outputs * (total / outputs / size * size) := Int.mul_assoc _ _ _
    _ ≤ outputs * (total / outputs) := Int.mul_le_mul_of_nonneg_left hqueue (Int.le_of_lt houtputs)
    _ ≤ total := hper

theorem quotient_pos_iff {a b : Int} (h : a.tdiv b ≠ 0) : 1 ≤ a.tdiv b ↔ 0 < a * b := by
  have hne : b ≠ 0 := fun hb => h (by rw [hb, Int.tdiv_zero])
  rcases Int.lt_or_lt_of_ne hne with hb | hb
  · rcases Int.le_total a 0 with ha | ha
    · have hquotient := Int.tdiv_nonneg_of_nonpos_of_nonpos ha (Int.le_of_lt hb)
      have hlt : a < 0 := Int.lt_iff_le_and_ne.mpr ⟨ha, fun h0 => h (by rw [h0, Int.zero_tdiv])⟩
      exact iff_of_true (by omega) (Int.mul_pos_of_neg_of_neg hlt hb)
    · have hquotient := Int.tdiv_nonpos_of_nonneg_of_nonpos ha (Int.le_of_lt hb)
      have hproduct := Int.mul_nonpos_of_nonneg_of_nonpos ha (Int.le_of_lt hb)
      exact iff_of_false (by omega) (by omega)
  · rcases Int.le_total a 0 with ha | ha
    · have hquotient := Int.tdiv_nonneg (Int.neg_nonneg_of_nonpos ha) (Int.le_of_lt hb)
      rw [Int.neg_tdiv] at hquotient
      have hproduct := Int.mul_nonpos_of_nonpos_of_nonneg ha (Int.le_of_lt hb)
      exact iff_of_false (by omega) (by omega)
    · have hquotient := Int.tdiv_nonneg ha (Int.le_of_lt hb)
      have hlt : 0 < a :=
        Int.lt_iff_le_and_ne.mpr ⟨ha, fun h0 => h (by rw [← h0, Int.zero_tdiv])⟩
      exact iff_of_true (by omega) (Int.mul_pos hlt hb)

theorem capped_comparable (hle : total < 9223372036854775808) (hpos : 0 < total)
    (havailable : 0 < available) :
    capped (.number available) (.number total) = .number (min available total) := by
  have hfits : fits total = true := fits_eq_true.mpr ⟨by omega, hle⟩
  unfold capped
  rw [Value.test_number, hfits, Bool.and_true]
  by_cases hlt : available < total
  · have hdisk : fits available = true := fits_eq_true.mpr ⟨by omega, by omega⟩
    rw [hdisk, decide_eq_true hlt, Bool.and_self, if_pos rfl, Int.min_eq_left (Int.le_of_lt hlt)]
  · rw [decide_eq_false hlt, Bool.and_false, if_neg Bool.false_ne_true,
      Int.min_eq_right (Int.not_lt.mp hlt)]

theorem capped_incomparable (h : fits total = false) :
    capped (.number available) (.number total) = .number total := by
  unfold capped
  rw [Value.test_number, h, Bool.and_false, Bool.false_and, if_neg Bool.false_ne_true]

theorem share_cases (houtputs : 0 < outputs) (havailable : 0 < available)
    (htotal : ¬ (fits total = true ∧ total ≤ 0)) :
    ∃ share, (capped (.number available) ((Value.number total).mul (.number outputs))).div
        (.number outputs) = .number share ∧
      ((0 < total ∧ total * outputs < 9223372036854775808 ∧
          share = min available (total * outputs) / outputs) ∨
        (share = total ∧ (total < 0 ∨ 9223372036854775808 ≤ total * outputs))) := by
  have hne : outputs ≠ 0 := Int.ne_of_gt houtputs
  rcases Int.lt_or_le 0 total with hpos | hneg
  · have hproduct := Int.mul_pos hpos houtputs
    rcases Int.lt_or_le (total * outputs) 9223372036854775808 with hlt | hge
    · refine ⟨min available (total * outputs) / outputs, ?_, .inl ⟨hpos, hlt, rfl⟩⟩
      rw [Value.mul, capped_comparable hlt hproduct havailable, Value.div, if_neg hne,
        Int.tdiv_eq_ediv_of_nonneg (by omega)]
    · have hfits : fits (total * outputs) = false := by
        rw [← Bool.not_eq_true, fits_eq_true]
        omega
      refine ⟨total, ?_, .inr ⟨rfl, .inr hge⟩⟩
      rw [Value.mul, capped_incomparable hfits, Value.div, if_neg hne, Int.mul_tdiv_cancel _ hne]
  · rw [fits_eq_true] at htotal
    have hproduct : total * outputs ≤ total * 1 :=
      Int.mul_le_mul_of_nonpos_left hneg (by omega)
    have hfits : fits (total * outputs) = false := by
      rw [← Bool.not_eq_true, fits_eq_true]
      omega
    refine ⟨total, ?_, .inr ⟨rfl, .inl (by omega)⟩⟩
    rw [Value.mul, capped_incomparable hfits, Value.div, if_neg hne, Int.mul_tdiv_cancel _ hne]

theorem room_iff {share : Int} (houtputs : 0 < outputs) (havailable : 0 < available)
    (hshare : (0 < total ∧ total * outputs < 9223372036854775808 ∧
        share = min available (total * outputs) / outputs) ∨
      (share = total ∧ (total < 0 ∨ 9223372036854775808 ≤ total * outputs)))
    (hqueue : share.tdiv size ≠ 0) :
    1 ≤ share.tdiv size ∧ outputs * share.tdiv size * size ≤ available ↔
      0 < total * size ∧ (total * outputs < 9223372036854775808 ∨
        outputs * (total.tdiv size * size) ≤ available) := by
  rw [quotient_pos_iff hqueue]
  rcases hshare with ⟨hpos, hlt, rfl⟩ | ⟨rfl, hwhole⟩
  · have hproduct := Int.mul_pos hpos houtputs
    have hnonneg : 0 ≤ min available (total * outputs) / outputs :=
      Int.ediv_nonneg (by omega) (Int.le_of_lt houtputs)
    have hpositive : 0 < min available (total * outputs) / outputs :=
      Int.lt_iff_le_and_ne.mpr ⟨hnonneg, fun h0 => hqueue (by rw [← h0, Int.zero_tdiv])⟩
    rw [mul_pos_iff_of_pos_left hpositive, mul_pos_iff_of_pos_left hpos]
    constructor
    · intro h
      exact ⟨h.1, .inl hlt⟩
    · intro h
      have hround : outputs * (min available (total * outputs) / outputs / size) * size ≤
          min available (total * outputs) := rounded_le h.1 houtputs
      rw [Int.tdiv_eq_ediv_of_nonneg hnonneg]
      exact ⟨h.1, by omega⟩
  · rw [Int.mul_assoc]
    rcases hwhole with hneg | hge
    · constructor
      · intro h
        have hproduct := Int.mul_neg_of_neg_of_pos hneg houtputs
        exact ⟨h.1, .inl (by omega)⟩
      · intro h
        have hsize : size < 0 := by
          by_contra hnot
          have := Int.mul_nonpos_of_nonpos_of_nonneg (Int.le_of_lt hneg) (Int.not_lt.mp hnot)
          omega
        have hquotient := (quotient_pos_iff hqueue).mpr h.1
        have hbytes := Int.mul_neg_of_pos_of_neg (by omega : 0 < share.tdiv size) hsize
        have hall := Int.mul_neg_of_pos_of_neg houtputs hbytes
        exact ⟨h.1, by omega⟩
    · constructor
      · intro h
        exact ⟨h.1, .inr h.2⟩
      · intro h
        rcases h.2 with hlt | hle
        · omega
        · exact ⟨h.1, hle⟩

end Arithmetic

section Run

variable {bc : Text → Option Text} {setup : Setup}

theorem dfLimit_eq (setup : Setup) : dfLimit setup = .number (availableBytes setup) := by
  unfold dfLimit availableBytes
  split
  · rw [Value.div, if_neg (by decide)]
    rfl
  · rfl

theorem elasticsearchOutputs_pos (setup : Setup) : 0 < elasticsearchOutputs setup := by
  unfold elasticsearchOutputs
  split
  · exact Nat.one_pos
  · split
    · exact Nat.one_pos
    · exact Nat.two_pos

/-- Inside its subshell the loop over the lines does count them. -/
theorem countLoop_counts (lines : List Text) (n : Nat) :
    Triple (lines.forM countLine) n
      (fun _ t => t = n + (lines.filter fun line => commentLength (readLine line) = 0).length)
      (fun _ _ => False) := by
  apply Triple.forM (I := fun done t =>
    t = n + (done.filter fun line => commentLength (readLine line) = 0).length) [] _ rfl
  intro done line t ht
  rw [List.filter_append, List.length_append]
  unfold countLine
  split
  · rename_i hcount
    have hone : ([line].filter fun line => commentLength (readLine line) = 0).length = 1 := by
      simp [hcount]
    apply Triple.get_bind
    change t + 1 = _
    omega
  · rename_i hcomment
    have hnone : ([line].filter fun line => commentLength (readLine line) = 0).length = 0 := by
      simp [hcomment]
    change t = _
    omega

/-- The subshell ends, and the number of outputs is what it was. -/
theorem countLines_keeps (lines : List Text) (n : Nat) :
    Triple (countLines lines) n (fun _ t => t = n) (fun _ _ => False) := by
  apply Triple.mono (Triple.subshell (countLoop_counts (lines.filter isForward) n))
  · intro _ t h
    exact h.1
  · intro _ t h
    exact h.2.elim fun _ hfalse => hfalse

theorem countForwards_keeps (setup : Setup) (n : Nat) :
    Triple (countForwards setup) n (fun _ t => t = n) (fun _ _ => True) := by
  apply Triple.forM (I := fun _ t => t = n) [] _ rfl
  intro done afile t ht
  subst ht
  apply Triple.bind (R := fun _ u => u = t)
  · apply Triple.yields
    · intro _ _
      rfl
    · intro _ _
      trivial
  · intro file u hu
    subst hu
    split
    · apply Triple.mono (countLines_keeps _ u)
      · intro _ _ h
        exact h
      · intro _ _ _
        trivial
    · exact Triple.pure rfl

theorem runBuffers_ok {n t : Nat} {b : Buffers} (h : run (runBuffers bc setup) n = (.ok b, t)) :
    (dfLimit setup).isZero = false ∧
      (fileBufferBytes bc setup).test (fun a b => a ≤ b) (.number 0) = false ∧
        divide bc setup (dfLimit setup) (fileBufferBytes bc setup) (elasticsearchOutputs setup) =
          .ok b := by
  have hrun : Triple (runBuffers bc setup) n
      (fun b _ => (dfLimit setup).isZero = false ∧
        (fileBufferBytes bc setup).test (fun a b => a ≤ b) (.number 0) = false ∧
          divide bc setup (dfLimit setup) (fileBufferBytes bc setup)
            (elasticsearchOutputs setup) = .ok b)
      (fun _ _ => True) := by
    apply Triple.set_bind
    apply Triple.bind (R := fun df t =>
      t = elasticsearchOutputs setup ∧ availableSize setup = .ok df)
    · exact Triple.yields (fun _ h => ⟨rfl, h⟩) fun _ _ => trivial
    intro df _ hdf
    obtain ⟨rfl, hdf⟩ := hdf
    apply Triple.bind (R := fun total t =>
      t = elasticsearchOutputs setup ∧ totalLimit bc setup = .ok total)
    · exact Triple.yields (fun _ h => ⟨rfl, h⟩) fun _ _ => trivial
    intro total _ htotal
    obtain ⟨rfl, htotal⟩ := htotal
    apply Triple.bind (countForwards_keeps setup _)
    intro _ _ ht
    subst ht
    apply Triple.get_bind
    apply Triple.yields
    · intro b hb
      unfold availableSize at hdf
      unfold totalLimit at htotal
      split at hdf
      · contradiction
      · rename_i hzero
        split at htotal
        · contradiction
        · rename_i hle
          cases hdf
          cases htotal
          exact ⟨Bool.eq_false_iff.mpr hzero, Bool.eq_false_iff.mpr hle, hb⟩
    · intro _ _
      trivial
  unfold Triple at hrun
  rw [h] at hrun
  exact hrun

theorem divide_ok {df total : Value} {outputs : Nat} {b : Buffers}
    (h : divide bc setup df total outputs = .ok b) :
    b.numOutputs = outputs ∧ b.bufferSizeLimit = bufferSizeBytes bc setup ∧
      b.bufferQueueLimit = ((capped df (total.mul (.number outputs))).div (.number outputs)).div
        (bufferSizeBytes bc setup) ∧ b.bufferQueueLimit.isZero = false := by
  unfold divide at h
  dsimp only at h
  split at h
  · contradiction
  · split at h
    · contradiction
    · split at h
      · contradiction
      · rename_i hqueue
        cases h
        exact ⟨rfl, rfl, rfl, Bool.eq_false_iff.mpr hqueue⟩

theorem divided_number {df total outputs size : Value} {queue : Int}
    (h : ((capped df (total.mul outputs)).div outputs).div size = .number queue) :
    ∃ n, total = .number n := by
  have hempty : capped df .empty = .empty := by
    unfold capped
    cases df <;> rfl
  cases total with
  | number n => exact ⟨n, rfl⟩
  | empty =>
    rw [Value.mul.eq_def, hempty] at h
    contradiction
  | other =>
    rw [Value.mul.eq_def, hempty] at h
    contradiction

theorem quotient_number {v w : Value} {queue : Int} (h : v.div w = .number queue) :
    ∃ b, w = .number b ∧ b ≠ 0 := by
  cases v with
  | number a =>
    cases w with
    | number b =>
      rw [Value.div] at h
      split at h
      · contradiction
      · rename_i hne
        exact ⟨b, rfl, hne⟩
    | empty => contradiction
    | other => contradiction
  | empty => contradiction
  | other => contradiction

/-- Whenever the script exports sizes, they fit exactly when they can be divided and no forward
output is missing in the count. -/
theorem buffersFit_iff {n t : Nat} {b : Buffers} (h : run (runBuffers bc setup) n = (.ok b, t)) :
    BuffersFit setup b ↔ Divisible bc setup := by
  obtain ⟨hdf, hle, hdivide⟩ := runBuffers_ok h
  rw [dfLimit_eq] at hdf hdivide
  obtain ⟨houtputs, hsize, hqueue, hzero⟩ := divide_ok hdivide
  have havailable : (0 : Int) < availableBytes setup := by
    have hne := mt (Value.isZero_number _).mpr (Bool.eq_false_iff.mp hdf)
    omega
  have hpos : (0 : Int) < elasticsearchOutputs setup :=
    Int.ofNat_lt.mpr (elasticsearchOutputs_pos setup)
  have hroom {total size : Int} (htotal : fileBufferBytes bc setup = .number total)
      (hbytes : bufferSizeBytes bc setup = .number size) (hsize : size ≠ 0) :
      ∃ queue, b.bufferQueueLimit = .number queue ∧
        (1 ≤ queue ∧ elasticsearchOutputs setup * queue * size ≤ availableBytes setup ↔
          0 < total * size ∧ (total * elasticsearchOutputs setup < 9223372036854775808 ∨
            elasticsearchOutputs setup * (total.tdiv size * size) ≤ availableBytes setup)) := by
    have hpositive : ¬ (fits total = true ∧ total ≤ 0) := by
      intro hnot
      have hzero : fits 0 = true := fits_eq_true.mpr (by decide)
      rw [htotal, Value.test_number, hnot.1, hzero, decide_eq_true hnot.2] at hle
      exact Bool.noConfusion hle
    obtain ⟨share, hshare, hcases⟩ := share_cases hpos havailable hpositive
    rw [htotal, hshare, hbytes, Value.div, if_neg hsize] at hqueue
    rw [hqueue] at hzero
    have hne := mt (Value.isZero_number _).mpr (Bool.eq_false_iff.mp hzero)
    exact ⟨share.tdiv size, hqueue, room_iff hpos havailable hcases hne⟩
  constructor
  · intro hfit
    obtain ⟨queue, size, hnumber, hbytes, hle, hbound⟩ := hfit.room
    rw [houtputs] at hbound
    rw [hsize] at hbytes
    have hnumber' := hnumber
    rw [hqueue, hbytes] at hnumber'
    obtain ⟨total, htotal⟩ := divided_number hnumber'
    obtain ⟨divisor, hdivisor, hne⟩ := quotient_number hnumber'
    cases hdivisor
    obtain ⟨queue', hsame, hiff⟩ := hroom htotal hbytes hne
    cases hnumber.symm.trans hsame
    have hforwards := hfit.outputs
    rw [houtputs] at hforwards
    exact ⟨by omega, total, size, htotal, hbytes, hiff.mp ⟨hle, hbound⟩⟩
  · intro hdiv
    obtain ⟨total, size, htotal, hbytes, hproduct, hbound⟩ := hdiv.limits
    have hne : size ≠ 0 := by
      intro h0
      rw [h0, Int.mul_zero] at hproduct
      exact Int.lt_irrefl 0 hproduct
    obtain ⟨queue, hnumber, hiff⟩ := hroom htotal hbytes hne
    have hfit := hiff.mpr ⟨hproduct, hbound⟩
    constructor
    · rw [houtputs, hdiv.forwards, Nat.add_zero]
    · rw [houtputs, hsize]
      exact ⟨queue, size, hnumber, hbytes, hfit.1, hfit.2⟩

def bcProduct (program : Text) : Option Text :=
  let p := program.foldl (fun (p : Nat × Nat) c =>
    if c = '*' then (p.1 * p.2, 0) else (p.1, 10 * p.2 + (c.toNat - '0'.toNat))) (1, 0)
  some (Nat.toDigits 10 (p.1 * p.2))

def plainSetup : Setup where
  esHost := "logging-es".toList
  esPort := "9200".toList
  opsHost := "logging-es".toList
  opsPort := "9200".toList
  df := some 10000000000
  fileBufferLimit := "256Mi".toList
  bufferSizeLimit := "8Mi".toList
  files := [("/etc/fluent/configs.d/user/secure-forward.conf".toList, ["# @type forward".toList])]

def forwardSetup : Setup :=
  { plainSetup with
    files :=
      [("/etc/fluent/configs.d/user/secure-forward.conf".toList, ["  @type forward".toList])] }

def sharedBuffers : Buffers := ⟨1, .number 32, .number 8388608⟩

theorem buffersFit_iff_plain :
    BuffersFit plainSetup sharedBuffers ↔ Divisible bcProduct plainSetup :=
  buffersFit_iff (n := 0) (t := 1) (by decide +kernel)

theorem not_buffersFit_forward :
    run (runBuffers bcProduct forwardSetup) 0 = (.ok sharedBuffers, 1) ∧
      ¬ BuffersFit forwardSetup sharedBuffers := by
  constructor
  · decide +kernel
  · intro h
    have hcount : sharedBuffers.numOutputs ≠
        elasticsearchOutputs forwardSetup + forwardLines forwardSetup := by
      decide +kernel
    exact hcount h.outputs

end Run

end AggregatedLogging.Fluentd

import AggregatedLogging.Receiver
import Mathlib.Algebra.Ring.Nat
import Mathlib.Tactic.IntervalCases

/-! The frames of RELP, as `relpframe.c` of librelp builds and receives them. -/
namespace AggregatedLogging.Relp

open Receiver

abbrev Octet := UInt8

abbrev Octets := List Octet

/-- The return codes that are told apart here; a handler of a command has others. -/
inductive Ret where
  | ok
  | invalidFrame
  | dataTooLong
  | invalidTxnr
  | invalidDatalen
  | invalidCmd
  | handler (code : Nat)
  deriving DecidableEq, Repr

section Octets

def octet (c : Char) : Octet := c.toNat.toUInt8

def octets (s : String) : Octets := s.toList.map octet

def space : Octet := octet ' '

def newline : Octet := octet '\n'

def isDigit (c : Octet) : Bool := octet '0' ≤ c && c ≤ octet '9'

def isAlpha (c : Octet) : Bool :=
  (octet 'A' ≤ c && c ≤ octet 'Z') || (octet 'a' ≤ c && c ≤ octet 'z')

/-- `c - '0'` -/
def digitValue (c : Octet) : Nat := c.toNat - (octet '0').toNat

/-- `"%d"` of a number that is not negative. -/
def decimal (n : Nat) : Octets := (Nat.toDigits 10 n).map octet

/-- `"%d"` -/
def printInt (i : Int) : Octets :=
  if i < 0 then octet '-' :: decimal i.natAbs else decimal i.natAbs

/-- `(int)` of a `size_t`. -/
def toInt (n : Nat) : Int :=
  if n % 4294967296 < 2147483648 then (n % 4294967296 : Nat)
  else (n % 4294967296 : Nat) - 4294967296

end Octets

structure Frame where
  txnr : Nat
  cmd : Octets
  data : Octets
  deriving DecidableEq, Repr

section Send

def printLength (data : Octets) : Octets := printInt (toInt data.length)

def afterTxnr (cmd data : Octets) : Octets :=
  space :: cmd ++ space :: printLength data ++ (if 0 < data.length then space :: data else []) ++
    [newline]

def Frame.wire (f : Frame) : Octets := decimal f.txnr ++ afterTxnr f.cmd f.data

/-- A send buffer.  Nine octets are reserved for the number, which stands at their end. -/
structure Sendbuf where
  txnr : Nat
  pData : Octets
  lenData : Nat
  lenTxnr : Nat
  deriving DecidableEq, Repr

def Sendbuf.wire (b : Sendbuf) : Octets := (b.pData.drop (9 - b.lenTxnr)).take b.lenData

/-- The checks of `relpFrameBuildSendbuf`. -/
def buildFrame (txnr : Nat) (cmd data : Octets) : Except Ret Frame :=
  if 9 < (decimal txnr).length then .error .invalidTxnr
  else if 9 < (printLength data).length then .error .invalidDatalen
  else .ok ⟨txnr, cmd, data⟩

/-- The buffer ends with a zero, which is not sent. -/
def Frame.sendbuf (f : Frame) : Sendbuf where
  txnr := f.txnr
  lenTxnr := (decimal f.txnr).length
  lenData := (decimal f.txnr).length + 1 + f.cmd.length + 1 + (printLength f.data).length + 1 +
    if 0 < f.data.length then 1 + f.data.length else 0
  pData := List.replicate (9 - (decimal f.txnr).length) 0 ++ decimal f.txnr ++
    afterTxnr f.cmd f.data ++ [0]

def buildSendbuf (txnr : Nat) (cmd data : Octets) : Except Ret Sendbuf :=
  (buildFrame txnr cmd data).map Frame.sendbuf

/-- `relpFrameRewriteTxnr` copies the new number to the end of the reserved octets. -/
def rewriteTxnr (b : Sendbuf) (txnr : Nat) : Ret × Sendbuf :=
  let bufTxnr := decimal txnr
  if 9 < bufTxnr.length then (.invalidTxnr, { b with txnr })
  else
    (.ok,
      { txnr
        lenData := b.lenData - b.lenTxnr + bufTxnr.length
        lenTxnr := bufTxnr.length
        pData := b.pData.take (9 - bufTxnr.length) ++ bufTxnr ++ b.pData.drop 9 })

end Send

section Receive

inductive OversizeMode where
  | abort
  | truncate
  | accept
  deriving DecidableEq, Repr

/-- What a session allows; a client has no server whose mode it could ask for. -/
structure Limits where
  maxDataSize : Nat
  oversizeMode : Option OversizeMode
  deriving DecidableEq, Repr

inductive RcvState where
  | beginFrame
  | inTxnr
  | inCmd
  | inDatalen
  | inData
  | inTrailer
  deriving DecidableEq, Repr

structure RcvFrame where
  rcvState : RcvState := .beginFrame
  iRcv : Nat := 0
  txnr : Nat := 0
  cmd : Octets := []
  lenData : Nat := 0
  maxCharsStore : Nat := 0
  pData : Octets := []
  deriving DecidableEq, Repr

abbrev Rcv := Option RcvFrame

/-- `maxCharsStore` for a length, unless the session is given up. -/
def Limits.store? (lim : Limits) (lenData : Nat) : Option Nat :=
  if lenData ≤ lim.maxDataSize then some lenData
  else
    match lim.oversizeMode with
    | none => none
    | some .abort => none
    | some .truncate => some lim.maxDataSize
    | some .accept => some lenData

/-- The label `do_trailer`: the frame is complete. -/
def rcvTrailer (p : RcvFrame) (c : Octet) : Step Rcv Ret Frame :=
  if c = newline then .item ⟨p.txnr, p.cmd, p.pData⟩ none else .fault .invalidFrame

def rcvTxnr (p : RcvFrame) (c : Octet) : Step Rcv Ret Frame :=
  if isDigit c then
    if p.iRcv = 9 then .fault .invalidFrame
    else .more (some { p with iRcv := p.iRcv + 1, txnr := p.txnr * 10 + digitValue c })
  else if c = space then .more (some { p with rcvState := .inCmd, iRcv := 0 })
  else .fault .invalidFrame

def rcvCmd (p : RcvFrame) (c : Octet) : Step Rcv Ret Frame :=
  if isAlpha c then
    if p.iRcv = 32 then .fault .invalidFrame
    else .more (some { p with cmd := p.cmd ++ [c], iRcv := p.iRcv + 1 })
  else if c = space then .more (some { p with rcvState := .inDatalen, iRcv := 0 })
  else .fault .invalidFrame

def rcvDatalen (lim : Limits) (p : RcvFrame) (c : Octet) : Step Rcv Ret Frame :=
  if isDigit c then
    if p.iRcv = 9 then .fault .invalidFrame
    else .more (some { p with iRcv := p.iRcv + 1, lenData := p.lenData * 10 + digitValue c })
  else if p.lenData = 0 then rcvTrailer p c
  else if c = space then
    match lim.store? p.lenData with
    | none => .fault .dataTooLong
    | some n => .more (some { p with rcvState := .inData, iRcv := 0, maxCharsStore := n })
  else .fault .invalidFrame

def rcvData (p : RcvFrame) (c : Octet) : Step Rcv Ret Frame :=
  if p.iRcv < p.lenData then
    let pData := if p.iRcv < p.maxCharsStore then p.pData ++ [c] else p.pData
    .more (some { p with pData, iRcv := p.iRcv + 1 })
  else rcvTrailer p c

/-- `relpFrameProcessOctetRcvd`, up to the point where the frame is submitted. -/
def rcvOctet (lim : Limits) (r : Rcv) (c : Octet) : Step Rcv Ret Frame :=
  let p := r.getD {}
  match p.rcvState with
  | .beginFrame =>
    if isDigit c then rcvTxnr { p with rcvState := .inTxnr } c else .fault .invalidFrame
  | .inTxnr => rcvTxnr p c
  | .inCmd => rcvCmd p c
  | .inDatalen => rcvDatalen lim p c
  | .inData => rcvData p c
  | .inTrailer => rcvTrailer p c

end Receive

section Submit

/-- The commands that have a handler; `init` is that of "open". -/
inductive Command where
  | syslog
  | rsp
  | init
  | close
  | serverclose
  deriving DecidableEq, Repr

def commands : List (Octets × Command) :=
  [(octets "syslog", .syslog), (octets "rsp", .rsp), (octets "open", .init),
    (octets "close", .close), (octets "serverclose", .serverclose)]

abbrev Handlers (H : Type) := Command → H → Frame → Except Nat Unit × H

variable {H : Type} (lim : Limits) (handlers : Handlers H)

/-- `relpEngineDispatchFrame`; what the handler of "syslog" returns is ignored. -/
def dispatchFrame (h : H) (f : Frame) : Except Ret H :=
  match commands.lookup f.cmd with
  | none => .error .invalidCmd
  | some .syslog => .ok (handlers .syslog h f).2
  | some cmd =>
    match handlers cmd h f with
    | (.ok _, g) => .ok g
    | (.error code, _) => .error (.handler code)

/-- `relpEngineNextTXNR` -/
def nextTxnr (txnr : Nat) : Nat := if 999999999 < txnr then 1 else txnr + 1

/-- A session between two frames: the number that a server expects, and the handlers' state. -/
structure Sess (H : Type) where
  txnr : Nat := 1
  handled : H

/-- What follows a complete frame; only a server looks at its number. -/
def submit (sess : Sess H) (f : Frame) : Except Ret (Sess H) :=
  if f.txnr ≠ 0 ∧ lim.oversizeMode.isSome then
    if f.txnr ≠ sess.txnr then .error .invalidTxnr
    else (dispatchFrame handlers sess.handled f).map fun h => ⟨nextTxnr sess.txnr, h⟩
  else (dispatchFrame handlers sess.handled f).map fun h => ⟨sess.txnr, h⟩

/-- `relpFrameProcessOctetRcvd`.  Whatever error it returns, the session is given up. -/
def processOctetRcvd (s : Rcv × Sess H) (c : Octet) : Step (Rcv × Sess H) Ret Frame :=
  checked (rcvOctet lim) (submit lim handlers) s c

end Submit

section Digits

theorem octet_digit {c : Char} (h : c.isDigit = true) :
    isDigit (octet c) = true ∧ digitValue (octet c) = c.toNat - '0'.toNat := by
  obtain ⟨hle, hge⟩ := Bool.and_eq_true_iff.mp h
  have hle : 48 ≤ c.toNat := UInt32.le_iff_toNat_le.mp (of_decide_eq_true hle)
  have hge : c.toNat ≤ 57 := UInt32.le_iff_toNat_le.mp (of_decide_eq_true hge)
  unfold octet
  generalize c.toNat = n at hle hge
  interval_cases n <;> decide

theorem decimal_digits (n : Nat) : ∀ c ∈ decimal n, isDigit c = true := by
  intro c hc
  obtain ⟨d, hd, rfl⟩ := List.mem_map.mp hc
  exact (octet_digit (Nat.isDigit_of_mem_toDigits (by decide) (by decide) hd)).1

theorem decimal_ne_nil (n : Nat) : decimal n ≠ [] := by
  rw [decimal, Ne, List.map_eq_nil_iff]
  exact Nat.toDigits_ne_nil

theorem length_decimal_le_iff (n : Nat) : (decimal n).length ≤ 9 ↔ n < 1000000000 := by
  rw [decimal, List.length_map]
  exact Nat.length_toDigits_le_iff (by decide) (by decide)

def readDigits (n : Nat) (ds : Octets) : Nat := ds.foldl (fun n c => n * 10 + digitValue c) n

theorem readDigits_octets {ds : List Char} (h : ∀ c ∈ ds, c.isDigit = true) (n : Nat) :
    readDigits n (ds.map octet) = Nat.ofDigitChars 10 ds n := by
  induction ds generalizing n with
  | nil => rfl
  | cons c ds ih =>
    have hvalue := (octet_digit (h c List.mem_cons_self)).2
    rw [List.map_cons, readDigits, List.foldl_cons, hvalue, Nat.ofDigitChars_cons, Nat.mul_comm]
    exact ih (fun d hd => h d (List.mem_cons_of_mem c hd)) _

theorem readDigits_decimal (n : Nat) : readDigits 0 (decimal n) = n := by
  rw [decimal, readDigits_octets fun c hc => Nat.isDigit_of_mem_toDigits (by decide) (by decide) hc]
  exact Nat.ofDigitChars_ten_toDigits

theorem toInt_small {n : Nat} (h : n < 2147483648) : toInt n = n := by
  unfold toInt
  omega

theorem printLength_small {data : Octets} (h : data.length < 2147483648) :
    printLength data = decimal data.length := by
  rw [printLength, toInt_small h, printInt, if_neg (by omega), Int.natAbs_natCast]

end Digits

end AggregatedLogging.Relp

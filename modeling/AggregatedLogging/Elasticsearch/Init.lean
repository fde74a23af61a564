import AggregatedLogging.Text
import Mathlib.Logic.Relation

/-! The script that initialises Elasticsearch, and the readiness probe that runs
beside it.  They share two files, `init_complete` and `init_failures`. -/
namespace AggregatedLogging.Elasticsearch

/-- A name in the directory of the scripts; only files are run. -/
structure InitFile where
  name : Text
  isFile : Bool
  succeeds : Bool
  deriving DecidableEq, Repr

def failureLine (f : InitFile) : Text := "failed init: ".toList ++ f.name

def toRun (files : List InitFile) : List InitFile := files.filter InitFile.isFile

def failing (files : List InitFile) : List InitFile := files.filter fun f => !f.succeeds

/-- Where `init.sh` is.  The `>>` of a failure makes the file before its line is in it. -/
inductive Phase where
  | waiting
  | looping (rest : List InitFile)
  | running (current : InitFile) (rest : List InitFile)
  | recording (current : InitFile) (rest : List InitFile)
  | appending (current : InitFile) (rest : List InitFile)
  | finished
  | timedOut

/-- The state of `init.sh` with the files that it writes; `ran` are the scripts
that have come to their end. -/
structure Init where
  phase : Phase := .waiting
  failed : Bool := false
  initComplete : Bool := false
  initFailures : Option (List Text) := none
  ran : List InitFile := []

inductive InitStep (files : List InitFile) : Init → Init → Prop where
  | portOpen {s : Init} (h : s.phase = .waiting) :
      InitStep files s { s with phase := .looping files }
  | portClosed {s : Init} (h : s.phase = .waiting) : InitStep files s { s with phase := .timedOut }
  | skip {s : Init} {f : InitFile} {rest : List InitFile} (h : s.phase = .looping (f :: rest))
      (hfile : f.isFile = false) : InitStep files s { s with phase := .looping rest }
  | start {s : Init} {f : InitFile} {rest : List InitFile} (h : s.phase = .looping (f :: rest))
      (hfile : f.isFile = true) : InitStep files s { s with phase := .running f rest }
  | succeed {s : Init} {f : InitFile} {rest : List InitFile} (h : s.phase = .running f rest)
      (hok : f.succeeds = true) :
      InitStep files s { s with phase := .looping rest, ran := s.ran ++ [f] }
  | fail {s : Init} {f : InitFile} {rest : List InitFile} (h : s.phase = .running f rest)
      (hfail : f.succeeds = false) :
      InitStep files s { s with phase := .recording f rest, failed := true, ran := s.ran ++ [f] }
  | openFailures {s : Init} {f : InitFile} {rest : List InitFile}
      (h : s.phase = .recording f rest) :
      InitStep files s { s with
        phase := .appending f rest, initFailures := some (s.initFailures.getD []) }
  | record {s : Init} {f : InitFile} {rest : List InitFile} (h : s.phase = .appending f rest) :
      InitStep files s { s with
        phase := .looping rest, initFailures := some (s.initFailures.getD [] ++ [failureLine f]) }
  | complete {s : Init} (h : s.phase = .looping []) :
      InitStep files s { s with phase := .finished, initComplete := !s.failed }

inductive Probe where
  | asking
  | testing
  | reading
  | exited (status : Nat)
  deriving DecidableEq, Repr

def expectedResponseCode : Nat := 200

/-- One step of the probe.  The files are looked at one after the other. -/
inductive ProbeStep (s : Init) : Probe → Probe → Prop where
  | ask (code : Nat) :
      ProbeStep s .asking (if code = expectedResponseCode then .testing else .exited 1)
  | test : ProbeStep s .testing (if s.initComplete then .exited 0 else .reading)
  | read : ProbeStep s .reading (.exited (if s.initFailures.isSome then 0 else 1))

structure System where
  init : Init := {}
  probe : Probe := .asking

inductive Step (files : List InitFile) : System → System → Prop where
  | init {s t : Init} {p : Probe} (h : InitStep files s t) : Step files ⟨s, p⟩ ⟨t, p⟩
  | probe {s : Init} {p q : Probe} (h : ProbeStep s p q) : Step files ⟨s, p⟩ ⟨s, q⟩

def Reachable (files : List InitFile) : System → Prop := Relation.ReflTransGen (Step files) {}

structure Finished (files : List InitFile) (s : Init) : Prop where
  ran : s.ran = toRun files
  recorded : s.initComplete = true ∨
    s.initFailures = some ((failing (toRun files)).map failureLine)

end AggregatedLogging.Elasticsearch

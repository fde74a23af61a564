import AggregatedLogging.Text

/-! Containers and the names under which their logs arrive. -/
namespace AggregatedLogging.Fluentd

def isLabelChar (c : Char) : Bool := ('a' ≤ c && c ≤ 'z') || ('0' ≤ c && c ≤ '9') || c = '-'

/-- Pod names may have dots. -/
def isPodChar (c : Char) : Bool := isLabelChar c || c = '.'

def isLabel (s : Text) : Bool := !s.isEmpty && s.all isLabelChar

def isPodName (s : Text) : Bool := !s.isEmpty && s.all isPodChar

structure Container where
  pod : Text
  ns : Text
  name : Text
  id : Text
  hash : Text
  uid : Text
  attempt : Text
  pod_valid : isPodName pod = true
  ns_valid : isLabel ns = true
  name_valid : isLabel name = true
  id_valid : isLabel id = true
  hash_valid : isLabel hash = true
  uid_valid : isLabel uid = true
  attempt_valid : isLabel attempt = true

def containersTag : Text := "kubernetes.var.log.containers.".toList

def logSuffix : Text := ".log".toList

def nameHeader : Text := "k8s_".toList

namespace Container

def logFile (c : Container) : Text :=
  c.pod ++ '_' :: (c.ns ++ '_' :: (c.name ++ '-' :: (c.id ++ logSuffix)))

def fileTag (c : Container) : Text := containersTag ++ c.logFile

/-- The field `CONTAINER_NAME` of the records in the journal. -/
def containerName (c : Container) : Text :=
  nameHeader ++ c.name ++ '.' :: c.hash ++ '_' :: c.pod ++ '_' :: c.ns ++ '_' :: c.uid ++
    '_' :: c.attempt

end Container

theorem not_mem_of_all {p : Char → Bool} {s : Text} (h : s.all p = true) {c : Char}
    (hc : p c = false) : c ∉ s := by
  intro hmem
  have := List.all_eq_true.mp h c hmem
  rw [hc] at this
  contradiction

theorem not_mem_label {s : Text} (h : isLabel s = true) {c : Char} (hc : isLabelChar c = false) :
    c ∉ s := by
  rw [isLabel, Bool.and_eq_true] at h
  exact not_mem_of_all h.2 hc

theorem not_mem_podName {s : Text} (h : isPodName s = true) {c : Char} (hc : isPodChar c = false) :
    c ∉ s := by
  rw [isPodName, Bool.and_eq_true] at h
  exact not_mem_of_all h.2 hc

end AggregatedLogging.Fluentd

import AggregatedLogging.Syslog.Clean

/-! The two copies of the code that fills in a packet. -/
namespace AggregatedLogging.Syslog

open Ruby
open Python (bind_ok)

/-- What the two outputs have to agree on; their times are their own. -/
structure Packet.Same (p q : Packet τ) : Prop where
  hostname : q.hostname = p.hostname
  severity : q.severity = p.severity
  facility : q.facility = p.facility
  tag : q.tag = p.tag
  content : q.content = p.content

def OutputsAgree (lib : Library τ) (cfg : Config) (e : Event τ) : Prop :=
  ∀ p, sendToSyslog lib cfg e = .ok p → ∃ q, emit lib cfg e = .ok q ∧ p.Same q

variable {lib : Library τ} {cfg : Config} {e : Event τ}

/-- Without the name that is not defined, the copies would agree: they are the
same up to there. -/
theorem emit_eq (lib : Library τ) (cfg : Config) (e : Event τ) :
    emit lib cfg e = (setHeader lib cfg e.record).bind fun _ => (timeOf lib e).bind fun _ =>
      (recordTag lib cfg e.record).bind fun _ => .error .nameError := rfl

theorem emit_of_sent {p : Packet τ} (h : sendToSyslog lib cfg e = .ok p) :
    emit lib cfg e = .error .nameError := by
  obtain ⟨header, hheader, h⟩ := bind_ok.mp h
  obtain ⟨time, htime, h⟩ := bind_ok.mp h
  obtain ⟨set, hset, -⟩ := bind_ok.mp h
  rw [emit_eq, hheader, Except.bind, htime, Except.bind, hset, Except.bind]

/-- The datagram is never assembled: `emit` asks for the drawn text under a name
that is not defined, for every record that comes as far as that. -/
theorem outputs_disagree {p : Packet τ} (h : sendToSyslog lib cfg e = .ok p) :
    emit lib cfg e = .error .nameError ∧ ¬ OutputsAgree lib cfg e := by
  have hemit := emit_of_sent h
  refine ⟨hemit, fun hagree => ?_⟩
  obtain ⟨q, hq, -⟩ := hagree p h
  rw [hemit] at hq
  contradiction

def webPacket : Packet Timestamp where
  hostname := .str "node-1".toList
  severity := .str "info".toList
  facility := .str "local0".toList
  time := newYear
  tag := "httpd1".toList
  content := .str "namespace_name=web, message=ready".toList

theorem sends_web :
    sendToSyslog gem nodeConfig (webEvent "ready".toList webFields) = .ok webPacket := rfl

theorem outputs_disagree_web :
    emit gem nodeConfig (webEvent "ready".toList webFields) = .error .nameError ∧
      ¬ OutputsAgree gem nodeConfig (webEvent "ready".toList webFields) :=
  outputs_disagree sends_web

/-- An ordinary record, which the TCP output sends. -/
theorem emit_raises_web :
    sendToSyslog gem nodeConfig (webEvent "ready".toList webFields) = .ok webPacket ∧
      emit gem nodeConfig (webEvent "ready".toList webFields) = .error .nameError :=
  ⟨sends_web, emit_of_sent sends_web⟩

end AggregatedLogging.Syslog

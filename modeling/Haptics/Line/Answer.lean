import Haptics.Line.Operation
import Haptics.Mailbox

/-! Answering lines. A line that is no message, or asks for nothing that can be done, is answered on
the spot; any other is carried out and waits for its answer. -/

namespace Haptics.Line

/-- Carries out an operation. Only a question about effects has a result. -/
def execute (m : Mailbox) : Operation → Except Refusal (Option Json) × Mailbox
  | .vibrate request => command (.start request {})
  | .startVibration request context => command (.start request context)
  | .stop mode => command (.stop mode)
  | .isSupportEffect effectId => (.ok (some (.bool (m.supports effectId))), m)
  | .supportedEffects => (.ok (some (.arr (m.effects.map .str))), m)
where
  command (c : Command) : Except Refusal (Option Json) × Mailbox :=
    let (answer, m) := m.call (.ok c)
    (answer.map fun _ => none, m)

/-- The message of a line and what it asks for. -/
def parse (line : String) : Option UInt64 × Except Fault Operation :=
  match Wire.ofText? Message line with
  | none => (none, .error .malformed)
  | some message => (message.id, Operation.ofMessage message)

def answer (m : Mailbox) (line : String) : Reply × Mailbox :=
  match parse line with
  | (id, .error why) => (.failure id why.shape, m)
  | (id, .ok operation) =>
    match execute m operation with
    | (.ok result, m) => (.success id result, m)
    | (.error why, m) => (.failure id why.shape, m)

end Haptics.Line

import Overacp.Lib.Json.Value

/-!
# Protocol messages

Method names of the tunnel and the payloads the agent decodes.
-/

namespace Overacp

namespace Protocol

namespace Methods

def sessionMessage : String := "session/message"

def sessionCancel : String := "session/cancel"

def initializeAgent : String := "initialize"

def quotaCheck : String := "quota/check"

def quotaUpdate : String := "quota/update"

def toolsList : String := "tools/list"

def toolsCall : String := "tools/call"

def streamTextDelta : String := "stream/textDelta"

def streamActivity : String := "stream/activity"

def streamToolCall : String := "stream/toolCall"

def streamToolResult : String := "stream/toolResult"

def turnEnd : String := "turn/end"

def contextCompacted : String := "context/compacted"

def heartbeat : String := "heartbeat"

end Methods

inductive Role where
  | system
  | user
  | assistant
  | tool
  deriving DecidableEq, Repr

namespace Role

def ofStr (s : String) : Option Role :=
  if s = "system" then some system
  else if s = "user" then some user
  else if s = "assistant" then some assistant
  else if s = "tool" then some tool
  else none

def ofValue (value : Json) : Option Role := value.unitVariant.bind ofStr

end Role

structure SessionMessageParams where
  role : Role
  content : Json
  deriving Repr

namespace SessionMessageParams

def ofValue (value : Json) : Option SessionMessageParams :=
  match Json.fields [⟨"role", false⟩, ⟨"content", false⟩] value with
  | some [some role, some content] => (Role.ofValue role).map fun role => ⟨role, content⟩
  | _ => none

end SessionMessageParams

end Protocol

end Overacp

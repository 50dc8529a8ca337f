import Blockwise.Engine.Basic
/-!
# Engines as text

The text of an engine shows its configuration and its status, as nested records
with named fields.
-/

namespace Blockwise

/-- A record as text: its name, and its fields with their texts. -/
def recordText (record : String) (fields : List (String × String)) : String :=
  let body := ", ".intercalate (fields.map fun (field, text) => field ++ ": " ++ text)
  record ++ " \x7b " ++ body ++ " \x7d"

/-- The name of the status. -/
def Status.describe : Status → String
  | idle => "Idle"
  | active => "Active"
  | completed => "Completed"
  | failed => "Failed"

/-- The code as a record. -/
def Code.describe (c : Code) : String :=
  recordText "Code" [("class", toString c.cls), ("detail", toString c.detail)]

/-- The method as a record around its code. -/
def Method.describe (m : Method) : String := s!"Method({m.code.describe})"

/-- The pacing as a record. -/
def Pacing.describe (p : Pacing) : String :=
  recordText "Block" [("size", s!"Size({p.size.bytes})"), ("window", toString p.window)]

/-- The configuration as a record: what concerns messages, and what concerns
blocks. -/
def Config.describe (c : Config) : String :=
  recordText "Config"
    [("msg", recordText "Msg" [("token_seed", toString c.seed), ("method", c.method.describe)]),
      ("block", c.pacing.describe)]

/-- The engine as a record. -/
def Engine.describe {ι : Type} (e : Engine ι) : String :=
  recordText "Engine" [("config", e.config.describe), ("status", e.status.describe)]

end Blockwise

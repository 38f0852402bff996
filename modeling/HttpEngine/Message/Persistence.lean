import HttpEngine.Message.Fields
import HttpEngine.Message.Version
/-!
# Persistent connections

Either side of a connection says in its messages whether the connection **persists** after the
exchange: by the version, which sets the default, and by the options of the connection field,
which may depart from it. One rule reads both sides' messages.
-/

namespace HttpEngine

/-- The name of the field whose options concern the connection. -/
def connectionName : String := "Connection"

/-- Whether a message of a version with the given fields lets its connection persist. -/
def persistsBy (version : Version) (fields : Fields) : Bool :=
  match version with
  | .http11 => !fields.hasOption connectionName "close"
  | .http10 => fields.hasOption connectionName "keep-alive"

end HttpEngine

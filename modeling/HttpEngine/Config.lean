import HttpEngine.Message.Fields
/-!
# Configuration

The limits and default fields that every connection of a server shares. A configuration is built
once, from the standard one, before the server runs. Default fields are kept by their exact name,
in order of names: a later field replaces an earlier one of the same spelling only.
-/

namespace HttpEngine

/-- The configuration of a server. Times are in milliseconds. -/
structure Config where
  /-- The most bytes that a connection buffers. -/
  bufferLimit : Nat := 1024 * 1024
  /-- How long a connection waits for a complete request. -/
  requestTimeout : Nat := 15000
  /-- The fields that every response has unless it sets them itself. -/
  defaultFields : Fields := TextMap.ofList [("Server", "Kouta")]
  /-- The most connections that are served at once. -/
  connectionLimit : Nat := 1024
  /-- How long a stopping server waits for its connections. -/
  stopGrace : Nat := 30000
  deriving DecidableEq, Inhabited

namespace Config

/-- Adds a default field, in place of one of the same spelling. -/
def withDefault (c : Config) (name value : String) : Config :=
  { c with defaultFields := c.defaultFields.insert name value }

/-- Removes every default field. -/
def withoutDefaults (c : Config) : Config := { c with defaultFields := ∅ }

end Config

end HttpEngine

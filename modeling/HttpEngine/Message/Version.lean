/-!
# Protocol versions

The two versions that are spoken. They differ in one rule: a connection persists by default in
version 1.1 and not in version 1.0.
-/

namespace HttpEngine

/-- A protocol version. -/
inductive Version where
  | http10
  | http11
  deriving DecidableEq, Repr

namespace Version

instance : Inhabited Version := ⟨http11⟩

/-- How a version is written on the first line of a message. -/
def label : Version → String
  | http10 => "HTTP/1.0"
  | http11 => "HTTP/1.1"

/-- The version that a label names. -/
def ofLabel? (label : String) : Option Version := [http10, http11].find? fun v => v.label == label

/-- Whether connections persist unless a message says otherwise. -/
def persists : Version → Bool
  | http10 => false
  | http11 => true

@[simp] theorem ofLabel?_label (v : Version) : ofLabel? v.label = some v := by
  cases v <;> decide

end Version

end HttpEngine

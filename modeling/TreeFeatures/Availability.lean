/-!
# Availability

What is known about the grammar behind a filetype: nothing yet, that it can be used, or that it
cannot.
-/

namespace TreeFeatures

/-- What is known about the grammar behind a filetype (`LanguageAvailability`). -/
inductive Availability where
  /-- Not checked yet. -/
  | unknown
  | available
  /-- An install failed; it is not tried again by itself. -/
  | unavailable
  deriving DecidableEq

namespace Availability

/-- All states. -/
def all : List Availability := [unknown, available, unavailable]

/-- The word for a state. -/
def text : Availability → String
  | unknown => "unknown"
  | available => "available"
  | unavailable => "unavailable"

/-- The state of a word. -/
def ofText? (s : String) : Option Availability := all.find? fun a => a.text == s

@[simp] theorem ofText?_text (a : Availability) : ofText? a.text = some a := by
  cases a <;> decide

end Availability

end TreeFeatures

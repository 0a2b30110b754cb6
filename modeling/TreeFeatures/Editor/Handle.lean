/-!
# Handles

Documents and views belong to the editor. The program only compares their handles and hands them
back.
-/

namespace TreeFeatures

/-- The handle of a document or view. -/
inductive Handle where
  | number (n : Int)
  | name (s : String)
  /-- No handle at all. -/
  | absent
  deriving DecidableEq

/-- A handle in a message. -/
def Handle.text : Handle → String
  | number n => toString n
  | name s => s
  | absent => "None"

end TreeFeatures

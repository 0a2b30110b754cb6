import TreeFeatures.Value

/-!
# Complaints about settings

A value that is not what its place asks for gives a `Complaint`: where it stands and what is wrong
with it. Reading never stops at the first complaint; `Reading` is the value read, with a default
where it could not be, and all complaints in the order of the places.
-/

namespace TreeFeatures

/-- One step from a value to a part of it. -/
inductive Place where
  | name (s : String)
  | index (i : Int)
  deriving DecidableEq

/-- What is wrong with a value. -/
inductive Problem where
  /-- Neither a truth value nor anything that stands for one. -/
  | boolType
  /-- A text or small integer that is none of the accepted truth values. -/
  | boolParsing
  | stringType
  /-- Bytes that are no text. -/
  | stringUnicode
  | listType
  | tableType
  /-- Not a mapping from flags to values. -/
  | recordType
  /-- An attempt to change a value that is fixed. -/
  | frozen
  deriving DecidableEq

/-- The word for a problem. -/
def Problem.word : Problem → String
  | boolType => "bool_type"
  | boolParsing => "bool_parsing"
  | stringType => "string_type"
  | stringUnicode => "string_unicode"
  | listType => "list_type"
  | tableType => "dict_type"
  | recordType => "model_type"
  | frozen => "frozen_instance"

/-- A problem and where it stands. -/
structure Complaint where
  path : List Place
  problem : Problem
  deriving DecidableEq

/-- The complaint seen from one level further out. -/
def Complaint.under (place : Place) (c : Complaint) : Complaint := { c with path := place :: c.path }

/-- A value read, and the complaints about what it was read from. -/
structure Reading (α : Type) where
  value : α
  complaints : List Complaint := []

namespace Reading

variable {α β : Type}

/-- A value that is read as a default, with a problem at its own place. -/
def refused (default : α) (p : Problem) : Reading α := ⟨default, [⟨[], p⟩]⟩

/-- The reading of a part, seen from the whole. -/
def under (place : Place) (r : Reading α) : Reading α :=
  { r with complaints := r.complaints.map (Complaint.under place) }

/-- The value, if there is no complaint. -/
def accepted? (r : Reading α) : Except (List Complaint) α :=
  if r.complaints.isEmpty then .ok r.value else .error r.complaints

end Reading

end TreeFeatures

import DocTable.Text.Quoted

/-!
# Operations

The six requests that documents can be compiled to, and the parameters that each of them accepts.
An operation may also be asked for by a number; a number that none has is an operation that accepts
no parameters at all.
-/

namespace DocTable

set_option autoImplicit false

/-- What a request does. -/
inductive Operation where
  | insert | query | scan | delete | update | replace
  | other (number : Int)
  deriving DecidableEq, Repr, Inhabited

namespace Operation

/-- The operations that there are. -/
def all : List Operation := [.insert, .query, .scan, .delete, .update, .replace]

/-- The number of an operation. -/
def number : Operation → Int
  | .insert => 1
  | .query => 2
  | .scan => 3
  | .delete => 4
  | .update => 5
  | .replace => 6
  | .other number => number

/-- The name of an operation. -/
def name : Operation → String
  | .insert => "insert"
  | .query => "query"
  | .scan => "scan"
  | .delete => "delete"
  | .update => "update"
  | .replace => "replace"
  | .other number => "Operation(" ++ toString number ++ ")"

/-- The operation of a name. -/
def ofName? (name : String) : Option Operation := all.find? fun op => op.name = name

/-- The operation of a number. -/
def ofNumber (number : Int) : Operation :=
  (all.find? fun op => op.number = number).getD (.other number)

/-- The wording for a name that no operation has. -/
def unknownName (name : String) : String := "unknown operation " ++ Text.quoted name

/-! ## Parameters -/

/-- The parameters of every request that writes. -/
def writing : List String :=
  ["TableName", "ConditionExpression", "ExpressionAttributeNames", "ExpressionAttributeValues",
    "ReturnConsumedCapacity", "ReturnItemCollectionMetrics", "ReturnValues"]

/-- The parameters of every request that reads. -/
def reading : List String :=
  ["TableName", "ConsistentRead", "ExclusiveStartKey", "ExpressionAttributeNames",
    "ExpressionAttributeValues", "FilterExpression", "IndexName", "Limit", "ProjectionExpression",
    "ReturnConsumedCapacity", "Select"]

/-- The parameters that an operation accepts. -/
def parameters : Operation → List String
  | .insert => "Item" :: writing
  | .replace => "Item" :: writing
  | .delete => "Key" :: writing
  | .update => "Key" :: "UpdateExpression" :: writing
  | .query => "KeyConditionExpression" :: "ScanIndexForward" :: reading
  | .scan => "Segment" :: "TotalSegments" :: reading
  | .other _ => []

/-- Whether an operation accepts a parameter. -/
def allows (op : Operation) (parameter : String) : Bool := op.parameters.contains parameter

/-- The entries that an operation accepts. -/
def allowed {α : Type} (op : Operation) (entries : List (String × α)) : List (String × α) :=
  entries.filter fun entry => op.allows entry.1

end Operation

end DocTable

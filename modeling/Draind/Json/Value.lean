import Draind.Json.Double
import Draind.Lib.SortedMap

namespace Draind.Json

-- The alternatives of the variant. An object is a std::map, kept as its entries
-- in increasing key order.
inductive Value where
  | null
  | bool (b : Bool)
  | int (n : Int64)
  | double (d : Double)
  | string (s : Bytes)
  | array (elements : List Value)
  | object (members : List (Bytes × Value))

namespace Value

def getBool (v : Value) (default : Bool) : Bool :=
  match v with
  | bool b => b
  | _ => default

def getInt (v : Value) (default : Int64) : Int64 :=
  match v with
  | int n => n
  | double d => d.toInt64
  | _ => default

def getString : Value → Bytes
  | string s => s
  | _ => []

def getArray : Value → List Value
  | array elements => elements
  | _ => []

def getObject : Value → List (Bytes × Value)
  | object members => members
  | _ => []

def has (v : Value) (key : Bytes) : Bool :=
  (v.getObject.lookup key).isSome

-- operator[] const: a missing key reads as null.
def get (v : Value) (key : Bytes) : Value :=
  (v.getObject.lookup key).getD null

-- operator[] followed by an assignment: what is no object becomes one first.
def set (v : Value) (key : Bytes) (field : Value) : Value :=
  object (SortedMap.insert key field v.getObject)

def str (v : Value) (key : Bytes) (default : Bytes) : Bytes :=
  if v.has key then (v.get key).getString else default

def num (v : Value) (key : Bytes) (default : Int64) : Int64 :=
  if v.has key then (v.get key).getInt default else default

def flag (v : Value) (key : Bytes) (default : Bool) : Bool :=
  if v.has key then (v.get key).getBool default else default

theorem get_set (v : Value) (key other : Bytes) (field : Value) :
    (v.set key field).get other = if other = key then field else v.get other := by
  unfold set get
  rw [getObject, SortedMap.lookup_insert]
  split <;> rfl

theorem str_set (v : Value) (key s default : Bytes) : (v.set key (string s)).str key default = s := by
  unfold str has
  rw [get_set, if_pos rfl, set, getObject, SortedMap.lookup_insert, if_pos rfl]
  rfl

end Value

end Draind.Json

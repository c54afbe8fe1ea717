import SettingsTree.Decimal.Double
import SettingsTree.Keyed

/-! # JSON values

Objects keep the order of their members. An integer of up to sixty-four bits is kept exactly; every
other number is a double. A number that is an integer differs from every double.
-/

namespace SettingsTree

inductive Number where
  | int (value : Int)
  | double (value : Double)
  deriving DecidableEq, Repr

/-- Equality of numbers, in which the two zeros of a double agree. -/
def Number.same : Number → Number → Bool
  | .int a, .int b => a = b
  | .double a, .double b => a.sameNumber b
  | _, _ => false

def Number.int64? : Number → Option Int64
  | .int value =>
    if Int64.minValue.toInt ≤ value ∧ value ≤ Int64.maxValue.toInt then some (Int64.ofInt value)
    else none
  | .double _ => none

inductive Json where
  | null
  | bool (value : Bool)
  | num (value : Number)
  | str (value : String)
  | arr (items : List Json)
  | obj (members : List (String × Json))
  deriving Repr, Inhabited

namespace Json

def int (value : Int) : Json := .num (.int value)

def kind : Json → String
  | null => "null"
  | bool _ => "boolean"
  | num _ => "number"
  | str _ => "string"
  | arr _ => "array"
  | obj _ => "object"

def members? : Json → Option (Keyed Json)
  | obj members => some members
  | _ => none

def isObject (value : Json) : Bool := value.members?.isSome

def string? : Json → Option String
  | str text => some text
  | _ => none

def strings? : Json → Option (List String)
  | arr items => items.mapM string?
  | _ => none

def int64? : Json → Option Int64
  | num number => number.int64?
  | _ => none

def field? (name : String) (value : Json) : Option Json := value.members?.bind (Keyed.get? name)

mutual
/-- How many arrays and objects are nested in one another at most. -/
def depth : Json → Nat
  | arr items => depths items + 1
  | obj members => memberDepths members + 1
  | _ => 0
def depths : List Json → Nat
  | [] => 0
  | item :: rest => max item.depth (depths rest)
def memberDepths : List (String × Json) → Nat
  | [] => 0
  | member :: rest => max member.2.depth (memberDepths rest)
end

mutual
/-- Resolve repeated member names everywhere: first position, last value. -/
def resolve : Json → Json
  | arr items => arr (resolveItems items)
  | obj members => obj (Keyed.ofList (resolveMembers members))
  | scalar => scalar
def resolveItems : List Json → List Json
  | [] => []
  | item :: rest => item.resolve :: resolveItems rest
def resolveMembers : List (String × Json) → List (String × Json)
  | [] => []
  | member :: rest => (member.1, member.2.resolve) :: resolveMembers rest
end

mutual
/-- Equality of values up to the order of the members of objects. -/
def same : Json → Json → Bool
  | null, null => true
  | bool a, bool b => a == b
  | num a, num b => a.same b
  | str a, str b => a == b
  | arr as, arr bs => sameItems as bs
  | obj as, obj bs => as.length == bs.length && sameMembers as bs
  | _, _ => false
def sameItems : List Json → List Json → Bool
  | [], [] => true
  | a :: as, b :: bs => a.same b && sameItems as bs
  | _, _ => false
/-- Whether every member has an equal value in the other object. -/
def sameMembers : List (String × Json) → Keyed Json → Bool
  | [], _ => true
  | a :: as, bs =>
    (match Keyed.get? a.1 bs with
      | some b => a.2.same b
      | none => false) && sameMembers as bs
end

end Json

end SettingsTree

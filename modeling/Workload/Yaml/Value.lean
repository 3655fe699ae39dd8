import Workload.Decimal.Double

/-!
# Document values

The values a document can hold where its shape is left open.  A mapping keeps the order of the
document, and no two of its keys are the same value.
-/

namespace Workload.Yaml

/-- A number in double precision. -/
inductive Real where
  | finite (negative : Bool) (size : Double)
  | infinite (negative : Bool)
  | notANumber
  deriving DecidableEq, Repr

/-- Whether two numbers count as the same key: the zeros do, and so does anything that is not a
number. -/
def Real.same : Real → Real → Bool
  | .finite s x, .finite t y =>
    (x.mant = 0 && y.mant = 0) || (s = t && x.ratio.1 * y.ratio.2 = y.ratio.1 * x.ratio.2)
  | .infinite s, .infinite t => s = t
  | .notANumber, .notANumber => true
  | _, _ => false

inductive Value where
  | null
  | bool (b : Bool)
  | int (n : Int)
  | real (x : Real)
  | text (s : String)
  | list (items : List Value)
  | mapping (entries : List (Value × Value))
  deriving Repr, Inhabited

mutual

/-- Whether two values count as the same key. -/
def Value.same : Value → Value → Bool
  | .null, .null => true
  | .bool a, .bool b => a = b
  | .int a, .int b => a = b
  | .real a, .real b => a.same b
  | .text a, .text b => a = b
  | .list as, .list bs => Value.sameAll as bs
  | .mapping as, .mapping bs =>
    as.length = bs.length && Value.sameEntries as bs
  | _, _ => false

def Value.sameAll : List Value → List Value → Bool
  | [], [] => true
  | a :: as, b :: bs => a.same b && Value.sameAll as bs
  | _, _ => false

/-- Whether every entry of the first mapping is one of the second. -/
def Value.sameEntries : List (Value × Value) → List (Value × Value) → Bool
  | [], _ => true
  | (k, v) :: as, bs => Value.hasEntry k v bs && Value.sameEntries as bs

def Value.hasEntry (k v : Value) : List (Value × Value) → Bool
  | [] => false
  | (l, w) :: bs => (k.same l && v.same w) || Value.hasEntry k v bs

end

/-- Whether some key stands twice in a list of entries. -/
def hasDuplicateKey : List (Value × Value) → Bool
  | [] => false
  | (k, _) :: rest => rest.any (fun e => k.same e.1) || hasDuplicateKey rest

end Workload.Yaml

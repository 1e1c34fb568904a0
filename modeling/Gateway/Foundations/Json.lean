import Gateway.Foundations.PyText

/-!
# JSON values as Python sees them

The values `response.json()` can return, with the operations that code walks a reply with:
`.get` on a mapping, the truth value behind `x or default`, iteration, and `Decimal(str(x))`.
Where Python raises, the operation here is `none`.

A float is kept as the decimal that its `repr` prints, which has at most seventeen significant
digits.
-/

namespace Foundations

/-- A Python float, as `repr` prints it: `mantissa * 10 ^ exponent` when it is finite. -/
inductive PyFloat
  | finite (mantissa exponent : ℤ) (digits : |mantissa| < 10 ^ 17)
  | infinity (negative : Bool)
  | nan
  deriving DecidableEq

/-- A parsed JSON document. Python's parser also accepts `NaN` and `Infinity`. -/
inductive Json
  | null
  | bool (b : Bool)
  | int (n : ℤ)
  | float (f : PyFloat)
  | str (s : String)
  | arr (items : List Json)
  | obj (items : List (String × Json))

namespace PyFloat

/-- `Decimal(str(f))`. -/
def decimal : PyFloat → Decimal.Value
  | .finite m e _ => .finite (m * 10 ^ e)
  | .infinity s => .infinity s
  | .nan => .nan false

/-- Is it a zero? -/
def isZero : PyFloat → Bool
  | .finite m _ _ => m == 0
  | _ => false

/-- The number, if it is one. -/
def value? : PyFloat → Option ℚ
  | .finite m e _ => some (m * 10 ^ e)
  | _ => none

/-- `-value`. -/
def neg : PyFloat → PyFloat
  | .finite m e h => .finite (-m) e (by rwa [abs_neg])
  | .infinity s => .infinity !s
  | .nan => .nan

theorem value?_neg (f : PyFloat) : f.neg.value? = f.value?.map (-·) := by
  cases f with
  | finite m e h => simp [neg, value?]
  | infinity s => rfl
  | nan => rfl

end PyFloat

namespace Json

/-- `j is None`. -/
def isNull : Json → Bool
  | .null => true
  | _ => false

/-- `bool(j)`. -/
def truthy : Json → Bool
  | .null => false
  | .bool b => b
  | .int n => n != 0
  | .float f => !f.isZero
  | .str s => s != ""
  | .arr items => !items.isEmpty
  | .obj items => !items.isEmpty

/-- `j or default`. -/
def orElse (j default : Json) : Json := if j.truthy then j else default

/-- `j.get(key)`: the member or `None`. Only a mapping has the method. -/
def get? (key : String) : Json → Option Json
  | .obj items => some ((items.lookup key).getD .null)
  | _ => none

/-- What `for x in j` runs over. A mapping yields its keys and a text its characters. -/
def iter? : Json → Option (List Json)
  | .arr items => some items
  | .obj items => some (items.map fun kv => .str kv.1)
  | .str s => some (s.toList.map fun c => .str (String.singleton c))
  | _ => none

/-- `Decimal(str(j))`. Other values than numbers and texts print as something that is not a
decimal literal. -/
def decimal? : Json → Option Decimal.Value
  | .int n => some (.finite n)
  | .float f => some f.decimal
  | .str s => PyText.pyDecimal s.toList
  | _ => none

/-- The value of a JSON number. -/
def number? : Json → Option ℚ
  | .int n => some n
  | .float (.finite m e _) => some (m * 10 ^ e)
  | _ => none

@[simp] theorem get?_obj (key : String) (items : List (String × Json)) :
    (obj items).get? key = some ((items.lookup key).getD .null) := rfl

@[simp] theorem iter?_arr (items : List Json) : (arr items).iter? = some items := rfl

theorem isNull_of_number {j : Json} {q : ℚ} (h : j.number? = some q) : j.isNull = false := by
  cases j with
  | null => simp [number?] at h
  | _ => rfl

theorem isNull_of_decimal {j : Json} {v : Decimal.Value} (h : j.decimal? = some v) :
    j.isNull = false := by
  cases j with
  | null => simp [decimal?] at h
  | _ => rfl

theorem decimal?_of_number {j : Json} {q : ℚ} (h : j.number? = some q) : j.decimal? =
    some (.finite q) := by
  cases j with
  | int n => simpa [number?, decimal?] using h
  | float f => cases f <;> simp_all [number?, decimal?, PyFloat.decimal]
  | _ => simp [number?] at h

end Json

end Foundations

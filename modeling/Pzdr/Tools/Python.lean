import Pzdr.Hex
import Pzdr.Json.Value
import Pzdr.Tools.Policy

/-!
# Tools.Python

The operations of Python that `tools/pzdr_verify.py` uses on what `json.load` returns. `none` stands
for a raised exception; `v[key]` on a string key is `Json.get?`. Numbers are integers.
-/

namespace Pzdr
namespace Tools

/-- `bool(v)` -/
def truthy : Json → Bool
  | .null => false
  | .bool b => b
  | .num i => i != 0
  | .str s => s != ""
  | .arr xs => !xs.isEmpty
  | .obj fields => !fields.isEmpty

/-- `v or w` -/
def pyOr (v w : Json) : Json := if truthy v then v else w

/-- `v.get(key)` -/
def dictGet : Json → String → Option Json
  | .obj fields, key => some ((fields.lookup key).getD .null)
  | _, _ => none

/-- The items of `for x in v`. -/
def iterate : Json → Option (List Json)
  | .arr xs => some xs
  | .obj fields => some (fields.map (fun f => .str f.1))
  | .str s => some (s.toList.map (fun c => .str (String.singleton c)))
  | _ => none

/-- `bool` is a kind of `int`. -/
def asInt : Json → Option Int
  | .num i => some i
  | .bool b => some (if b then 1 else 0)
  | _ => none

/-- `bytes.fromhex(v)` -/
def fromhexOf : Json → Option Bytes
  | .str s => fromhex s
  | _ => none

/-! ## `v == w` -/

mutual

def pyEq (v w : Json) : Bool :=
  match v, w with
  | .null, .null => true
  | .str s, .str t => s == t
  | .arr xs, .arr ys => pyEqAll xs ys
  | .obj fields, .obj fields' => fields.length == fields'.length && pyEqFields fields fields'
  | .bool b, w => asInt w == some (if b then 1 else 0)
  | .num i, w => asInt w == some i
  | _, _ => false

def pyEqAll : List Json → List Json → Bool
  | [], ys => ys.isEmpty
  | x :: xs, ys => match ys with
    | y :: ys => pyEq x y && pyEqAll xs ys
    | [] => false

def pyEqFields : List (String × Json) → List (String × Json) → Bool
  | [], _ => true
  | (key, v) :: fields, fields' =>
    (match fields'.lookup key with
      | some w => pyEq v w
      | none => false) && pyEqFields fields fields'

end

/-- `key in v` -/
def pyIn (key : String) : Json → Option Bool
  | .obj fields => some (fields.lookup key).isSome
  | .arr xs => some (xs.any (pyEq (.str key)))
  | .str s => some (inText key.toList s.toList)
  | _ => none

theorem pyIn_of_get? {key : String} {v w : Json} (h : v.get? key = some w) :
    pyIn key v = some true := by
  cases v with
  | obj fields =>
    rw [Json.get?_obj] at h
    rw [pyIn, h]
    rfl
  | _ => cases h

@[simp] theorem pyEq_str (s t : String) : pyEq (.str s) (.str t) = (s == t) := by
  rw [pyEq]

@[simp] theorem pyEq_num (i j : Int) : pyEq (.num i) (.num j) = (j == i) := by
  rw [pyEq, asInt]
  rfl

end Tools
end Pzdr

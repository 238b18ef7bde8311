import InstagramNt40.Core.Json
import InstagramNt40.Library.Ascii
import InstagramNt40.Pal.Crt

/-!
# The accessors of core/json.c

They take a pointer that may be NULL and give NULL, zero or the default for what is not
there or has another type, so that they can be chained.
-/
namespace InstagramNt40.Json

open Crt Ascii

inductive JsonType where
  | null
  | bool
  | num
  | str
  | arr
  | obj
  deriving DecidableEq

def JsonValue.type : JsonValue → JsonType
  | .null => .null
  | .bool _ => .bool
  | .num _ _ => .num
  | .str _ _ => .str
  | .arr _ => .arr
  | .obj _ => .obj

def jsonType : Option JsonValue → JsonType
  | some v => v.type
  | none => .null

/-- The loop of `json_get`. -/
def findKey (key : List UInt8) : List (List UInt8 × JsonValue) → Option JsonValue
  | [] => none
  | (k, v) :: members => if strcmp k key = 0 then some v else findKey key members

def jsonGet (obj : Option JsonValue) (key : List UInt8) : Option JsonValue :=
  match obj with
  | some (.obj members) => findKey key members
  | _ => none

def jsonAt (arr : Option JsonValue) (index : Int) : Option JsonValue :=
  match arr with
  | some (.arr vals) => if index < 0 ∨ index ≥ vals.length then none else vals[index.toNat]?
  | _ => none

def jsonCount : Option JsonValue → Nat
  | some (.arr vals) => vals.length
  | some (.obj members) => members.length
  | _ => 0

/-- The decoded bytes; a NUL stands behind them, and may stand among them. -/
def jsonString : Option JsonValue → Option (List UInt8)
  | some (.str str _) => some str
  | _ => none

/-- The loop of `json_int`. A `long` has 32 bits and wraps around. -/
def intDigits : List UInt8 → Int → Int
  | [], n => n
  | c :: s, n =>
    if isDigit c then intDigits s ((n * 10 + ((c.toNat : Int) - 0x30)).bmod (2 ^ 32)) else n

def jsonInt (v : Option JsonValue) (default : Int) : Int :=
  match v with
  | some (.num s _) =>
    if s.head? = some 0x2D then (-intDigits s.tail 0).bmod (2 ^ 32) else intDigits s 0
  | _ => default

def jsonGetStr (obj : Option JsonValue) (key : List UInt8) : Option (List UInt8) :=
  jsonString (jsonGet obj key)

def jsonGetInt (obj : Option JsonValue) (key : List UInt8) (default : Int) : Int :=
  jsonInt (jsonGet obj key) default

/-! ### What they read -/

/-- The member of an object under a key, the first one if there are several. -/
def JsonValue.member (key : String) : JsonValue → Option JsonValue
  | .obj members => (members.find? fun m => cstr m.1 0 = cstr (literal key) 0).map Prod.snd
  | _ => none

/-- The elements of an array. -/
def JsonValue.elements : JsonValue → List JsonValue
  | .arr vals => vals
  | _ => []

/-- How many elements or members there are. -/
def JsonValue.size : JsonValue → Nat
  | .arr vals => vals.length
  | .obj members => members.length
  | _ => 0

/-- A string as a C string. -/
def JsonValue.text : JsonValue → Option (List UInt8)
  | .str s _ => some (cstr s 0)
  | _ => none

/-- The digits a number begins with, behind its sign, as 32 bits. -/
def JsonValue.number : JsonValue → Option Int
  | .num s _ => some (Int.bmod
      (if s.head? = some 0x2D then -decimal (s.tail.takeWhile isDigit)
        else decimal (s.takeWhile isDigit)) (2 ^ 32))
  | _ => none

theorem findKey_eq (key : List UInt8) (members : List (List UInt8 × JsonValue)) :
    findKey key members = (members.find? fun m => cstr m.1 0 = cstr key 0).map Prod.snd := by
  induction members with
  | nil => rfl
  | cons m members ih =>
    rw [findKey, List.find?_cons]
    by_cases same : strcmp m.1 key = 0
    · rw [if_pos same, decide_eq_true (strcmp_eq_zero_iff.mp same)]
      rfl
    · rw [if_neg same, decide_eq_false fun eq => same (strcmp_eq_zero_iff.mpr eq)]
      exact ih

theorem jsonGet_literal (o : Option JsonValue) (key : String) :
    jsonGet o (literal key) = o.bind (·.member key) := by
  match o with
  | none => rfl
  | some (.obj members) => exact findKey_eq (literal key) members
  | some .null | some (.bool _) | some (.num _ _) | some (.str _ _) | some (.arr _) => rfl

theorem jsonAt_elements (o : Option JsonValue) (i : Nat) :
    jsonAt o i = o.bind fun v => v.elements[i]? := by
  match o with
  | none => rfl
  | some (.arr vals) =>
    rw [jsonAt]
    split_ifs with outside
    · rw [Option.bind_some, JsonValue.elements, List.getElem?_eq_none (by omega)]
    · rfl
  | some .null | some (.bool _) | some (.num _ _) | some (.str _ _) | some (.obj _) =>
    simp [jsonAt, JsonValue.elements]

theorem jsonCount_size (o : Option JsonValue) : jsonCount o = (o.map (·.size)).getD 0 := by
  match o with
  | none | some .null | some (.bool _) | some (.num _ _) | some (.str _ _) => rfl
  | some (.arr _) | some (.obj _) => rfl

theorem intDigits_decimal (s : List UInt8) (m : Nat) :
    intDigits s ((m : Int).bmod (2 ^ 32)) =
      (((s.takeWhile isDigit).foldl (fun n d => n * 10 + (d.toNat - 0x30)) m : Nat) : Int).bmod
        (2 ^ 32) := by
  induction s generalizing m with
  | nil => rfl
  | cons c s ih =>
    rw [intDigits, List.takeWhile_cons]
    by_cases digit : isDigit c = true
    · have above : 0x30 ≤ c.toNat := by
        simp only [isDigit, Bool.and_eq_true, decide_eq_true_eq, UInt8.le_iff_toNat_le] at digit
        exact digit.1
      have next : ((m : Int).bmod (2 ^ 32) * 10 + ((c.toNat : Int) - 0x30)).bmod (2 ^ 32) =
          ((m * 10 + (c.toNat - 0x30) : Nat) : Int).bmod (2 ^ 32) := by
        rw [← Int.bmod_add_bmod, Int.bmod_mul_bmod, Int.bmod_add_bmod]
        congr 1
        omega
      rw [if_pos digit, if_pos digit, List.foldl_cons, next, ih]
    · rw [if_neg digit, if_neg digit]
      rfl

theorem jsonInt_number (o : Option JsonValue) (default : Int) :
    jsonInt o default = (o.bind (·.number)).getD default := by
  match o with
  | some (.num s _) =>
    have value (ds : List UInt8) :
        intDigits ds 0 = (decimal (ds.takeWhile isDigit) : Int).bmod (2 ^ 32) :=
      intDigits_decimal ds 0
    rw [jsonInt, Option.bind_some, JsonValue.number, Option.getD_some, value, value]
    split_ifs
    · rw [Int.bmod_neg_bmod]
    · rfl
  | none | some .null | some (.bool _) | some (.str _ _) | some (.arr _) | some (.obj _) => rfl

end InstagramNt40.Json

import RelSearch.Wire.Decode
import RelSearch.Wire.Encode

/-!
# RelSearch.Compiler.Settings

The settings of a compiler.
-/

namespace RelSearch

/-- The settings of a compiler. -/
structure Settings where
  /-- The deepest level that is visited; the root of a query is level 0. -/
  maxDepth : Nat
deriving DecidableEq

/-- Why settings cannot be used. -/
inductive SettingsError where
  | zeroMaxDepth
deriving DecidableEq

namespace SettingsError

def message : SettingsError → String
  | zeroMaxDepth => "max_depth must be at least 1"

end SettingsError

namespace Settings

def defaultMaxDepth : Nat := 256

def default : Settings := ⟨defaultMaxDepth⟩

/-- Settings that can be used have at least one level below the root. -/
def validate (c : Settings) : Except SettingsError Unit :=
  if c.maxDepth = 0 then .error .zeroMaxDepth else .ok ()

/-! ## JSON form -/

/-- The JSON form of settings. -/
def encode (c : Settings) : Json := .object [("max_depth", .int c.maxDepth)]

/-- A level, if one is given. -/
def decodeDepth? : Option Raw → Option Settings
  | none => some default
  | some raw => (Wire.int? 0 Wire.maxUnsigned raw).map fun n => ⟨n.toNat⟩

/-- Reads settings. A missing field has its default value, also at the end of an
array that is too short. -/
def decode? : Nat → Raw → Option Settings
  | _ + 1, .array [] => some default
  | _ + 1, raw => do
    match ← Wire.fields? ["max_depth"] raw with
    | [depth] => decodeDepth? depth
    | _ => none
  | 0, _ => none

end Settings

end RelSearch

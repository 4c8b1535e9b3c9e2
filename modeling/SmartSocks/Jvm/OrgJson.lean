import SmartSocks.Jvm.JString
import SmartSocks.Jvm.Throwable

/-!
# `org.json`

The library is not modelled: `OrgJson` is what it makes of a text and of a value.
A getter throws a `JSONException` for a field that is missing or that it does not
take.
-/

namespace SmartSocks.Jvm

structure OrgJson where
  /-- The values of the fields of an object. -/
  Value : Type
  /-- `JSONObject(text)`; `none` is a `JSONException`. -/
  parse : JString → Option (JString → Option Value)
  /-- What `getString` and `getInt` take. -/
  asString : Value → Option JString
  asInt : Value → Option Int

variable (J : OrgJson)

abbrev OrgJson.JSONObject := JString → Option J.Value

namespace OrgJson

variable {J} {α : Type}

/-- `JSONObject(text)` -/
def ofText (J : OrgJson) (text : JString) : Except Throwable J.JSONObject :=
  match J.parse text with
  | none => .error .json
  | some json => .ok json

def has (json : J.JSONObject) (name : String) : Bool := (json (lit name)).isSome

/-- A getter that takes some values. -/
def getField (take : J.Value → Option α) (json : J.JSONObject) (name : String) : Except Throwable α :=
  match (json (lit name)).bind take with
  | none => .error .json
  | some value => .ok value

def getString (json : J.JSONObject) (name : String) : Except Throwable JString :=
  getField J.asString json name

def getInt (json : J.JSONObject) (name : String) : Except Throwable Int :=
  getField J.asInt json name

/-- Only a field that is there can be got. -/
theorem has_of_getField {take : J.Value → Option α} {json : J.JSONObject} {name : String} {value : α}
    (h : getField take json name = .ok value) : has json name = true := by
  unfold getField at h
  unfold has
  cases hvalue : json (lit name) with
  | none => simp [hvalue] at h
  | some _ => rfl

-- ---------------------------------------------------------------------------
-- Objects of strings
-- ---------------------------------------------------------------------------

def ofFields (fields : List (JString × JString)) (name : JString) : Option JString := fields.lookup name

/-- The library on the texts of a table that denote such objects. -/
def ofTable (table : List (JString × List (JString × JString))) : OrgJson where
  Value := JString
  parse text := (table.lookup text).map ofFields
  asString := some
  asInt _ := none

def escaped (s : JString) : JString :=
  JString.quotation :: s.flatMap (fun c =>
    if c = JString.quotation ∨ c = JString.backslash then [JString.backslash, c] else [c]) ++
      [JString.quotation]

def objectText (fields : List (JString × JString)) : JString :=
  lit "\x7b" ++ [JString.comma].intercalate (fields.map fun (name, value) =>
    escaped name ++ lit ":" ++ escaped value) ++ lit "\x7d"

end OrgJson

end SmartSocks.Jvm

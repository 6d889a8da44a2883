import CredSync.Protocol.Newtypes

/-! JSON documents and their canonical bytes. Encoding always goes through a
`Value`, whose objects keep their keys sorted, and is then printed compactly. -/

namespace CredSync

/-- A JSON number as `serde_json` classifies it. A float is carried as the text
it prints as: documents refuse floats, so nothing else about one is ever read. -/
inductive Number where
  | posInt (n : UInt64)
  /-- The integer `-(below + 1)`. -/
  | negInt (below : Fin (2 ^ 63))
  | float (text : String)
  deriving DecidableEq

/-- `serde_json::Value`. Its maps are `BTreeMap`s: fields come sorted by key. -/
inductive Value where
  | null
  | bool (b : Bool)
  | number (n : Number)
  | string (s : String)
  | array (items : List Value)
  | object (fields : List (String × Value))

namespace Value

def isObject : Value → Bool
  | object _ => true
  | _ => false

end Value

namespace Canonical

/-- One hexadecimal digit, lowercase. -/
def nibble (v : Nat) : UInt8 := if v ≤ 9 then UInt8.ofNat (48 + v) else UInt8.ofNat (97 + v - 10)

/-- `serde_json` escapes quotes, backslashes and control characters, and writes
every other character as its UTF-8 bytes. -/
def escapeChar (c : Char) : Bytes :=
  if c == '"' then [92, 34]
  else if c == '\\' then [92, 92]
  else if c.toNat = 8 then [92, 98]
  else if c.toNat = 9 then [92, 116]
  else if c.toNat = 10 then [92, 110]
  else if c.toNat = 12 then [92, 102]
  else if c.toNat = 13 then [92, 114]
  else if c.toNat < 32 then [92, 117, 48, 48, nibble (c.toNat / 16), nibble (c.toNat % 16)]
  else String.utf8EncodeChar c

def quote (s : String) : Bytes := 34 :: s.toList.flatMap escapeChar ++ [34]

def printNumber : Number → Bytes
  | .posInt n => ascii (toString n.toNat)
  | .negInt below => 45 :: ascii (toString (below.val + 1))
  | .float text => ascii text

/-- Items separated by commas. -/
def joinComma : List Bytes → Bytes
  | [] => []
  | [one] => one
  | one :: rest => one ++ 44 :: joinComma rest

mutual

/-- The compact form `serde_json::to_vec` prints. -/
def print : Value → Bytes
  | .null => ascii "null"
  | .bool true => ascii "true"
  | .bool false => ascii "false"
  | .number n => printNumber n
  | .string s => quote s
  | .array items => 91 :: joinComma (printItems items) ++ [93]
  | .object fields => 123 :: joinComma (printFields fields) ++ [125]

def printItems : List Value → List Bytes
  | [] => []
  | item :: rest => print item :: printItems rest

def printFields : List (String × Value) → List Bytes
  | [] => []
  | (key, value) :: rest => (quote key ++ 58 :: print value) :: printFields rest

end

mutual

/-- Whether a float occurs at any depth. -/
def hasFloat : Value → Bool
  | .number (.float _) => true
  | .array items => anyFloat items
  | .object fields => anyFieldFloat fields
  | _ => false

def anyFloat : List Value → Bool
  | [] => false
  | item :: rest => hasFloat item || anyFloat rest

def anyFieldFloat : List (String × Value) → Bool
  | [] => false
  | (_, value) :: rest => hasFloat value || anyFieldFloat rest

end

theorem printItems_eq (items : List Value) : printItems items = items.map print := by
  induction items with
  | nil => rfl
  | cons item rest ih => rw [printItems, ih, List.map_cons]

example : print (.array [.object [("a", .number (.posInt 7))], .string "x\n", .null]) =
    ascii "[\x7b\"a\":7\x7d,\"x\\n\",null]" := by decide

end Canonical

end CredSync

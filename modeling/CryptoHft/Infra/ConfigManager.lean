import CryptoHft.Lib.CharStream
import CryptoHft.Lib.Yaml

/-!
# The configuration manager

The manager holds a YAML tree and the path of the file that `reload` reads. Keys are segments joined by dots; `getNode`
splits them off one by one with `getline` and follows them from map to map. Every other lookup reads the node that
`getNode` returns.

The four typed getters are one function of the type (`getScalar`), and so are their variants with a default. What the
YAML library does with a text is a parameter (`YamlConversions`), as is the content of the files.
-/

namespace CryptoHft

open CharStream

/-- The conversions of the YAML library: `none` where it throws. -/
structure YamlConversions (D : Type) where
  asInt : String → Option Int
  asDouble : String → Option D
  asBool : String → Option Bool
  /-- What a null converts to as a string. -/
  nullText : Option String

/-- What a getter throws. -/
inductive ConfigError
  | runtimeError (what : String)
  | badConversion
deriving DecidableEq, Repr

structure ConfigManager where
  config : Yaml
  configPath : String

/-- The types that the templates accept. -/
inductive ScalarType
  | string
  | int
  | double
  | bool
deriving DecidableEq, Repr

namespace ScalarType

variable {D : Type}

def Value (D : Type) : ScalarType → Type
  | string => String
  | int => Int
  | double => D
  | bool => Bool

/-- `as<T>()` of a scalar. -/
def convert (conv : YamlConversions D) : (T : ScalarType) → String → Option (T.Value D)
  | string, text => some text
  | int, text => conv.asInt text
  | double, text => conv.asDouble text
  | bool, text => conv.asBool text

def notFound : ScalarType → String
  | string => "Key not found or not a string: "
  | int => "Key not found or not an integer: "
  | double => "Key not found or not a double: "
  | bool => "Key not found or not a boolean: "

end ScalarType

namespace ConfigManager

variable {D : Type} (conv : YamlConversions D)

/-! ## Lookups -/

/-- The loop of `getNode`: it ends at an empty token, at a node that is no map, or at a key that is not there. -/
def getNodeLoop (iss : IStream) (token : String) (node : Yaml) : Yaml :=
  let next := getline '.' iss token
  if next.2 = "" then node
  else if node.isMap then
    match _h : node.lookup next.2 with
    | none => .null
    | some child => getNodeLoop next.1 next.2 child
  else .null
termination_by sizeOf node
decreasing_by exact Yaml.sizeOf_lookup_lt (by assumption)

def getNode (cm : ConfigManager) (key : String) : Yaml := getNodeLoop (.ofString key) "" cm.config

/-- A node that `getNode` returns is always defined. -/
def has (cm : ConfigManager) (key : String) : Bool := !(cm.getNode key).isNull

/-! ## Getters -/

/-- What the getter of a type makes of the node found. -/
def readScalar (T : ScalarType) (key : String) : Yaml → Except ConfigError (T.Value D)
  | .scalar text =>
    match T.convert conv text with
    | some value => .ok value
    | none => .error .badConversion
  | _ => .error (.runtimeError (T.notFound ++ key))

def getScalar (T : ScalarType) (cm : ConfigManager) (key : String) : Except ConfigError (T.Value D) :=
  readScalar conv T key (cm.getNode key)

def getString (cm : ConfigManager) (key : String) : Except ConfigError String := getScalar conv .string cm key

def getInt (cm : ConfigManager) (key : String) : Except ConfigError Int := getScalar conv .int cm key

def getDouble (cm : ConfigManager) (key : String) : Except ConfigError D := getScalar conv .double cm key

def getBool (cm : ConfigManager) (key : String) : Except ConfigError Bool := getScalar conv .bool cm key

/-- `try { return body; } catch (const std::exception&) { return default_value; }` -/
def orDefault {α : Type} (body : Except ConfigError α) (defaultValue : α) : Except ConfigError α :=
  match body with
  | .ok value => .ok value
  | .error _ => .ok defaultValue

def getScalarOr (T : ScalarType) (cm : ConfigManager) (key : String) (defaultValue : T.Value D) :
    Except ConfigError (T.Value D) := orDefault (getScalar conv T cm key) defaultValue

def getStringOr (cm : ConfigManager) (key : String) (defaultValue : String) : Except ConfigError String :=
  getScalarOr conv .string cm key defaultValue

def getIntOr (cm : ConfigManager) (key : String) (defaultValue : Int) : Except ConfigError Int :=
  getScalarOr conv .int cm key defaultValue

def getDoubleOr (cm : ConfigManager) (key : String) (defaultValue : D) : Except ConfigError D :=
  getScalarOr conv .double cm key defaultValue

def getBoolOr (cm : ConfigManager) (key : String) (defaultValue : Bool) : Except ConfigError Bool :=
  getScalarOr conv .bool cm key defaultValue

/-- The body of `getStringVector`. -/
def readStrings (key : String) (node : Yaml) : Except ConfigError (List String) :=
  match node with
  | .sequence _ =>
    match node.asStrings conv.nullText with
    | some values => .ok values
    | none => .error .badConversion
  | _ => .error (.runtimeError ("Key not found or not a sequence: " ++ key))

def getStringVector (cm : ConfigManager) (key : String) : Except ConfigError (List String) :=
  orDefault (readStrings conv key (cm.getNode key)) []

def getStringVectorOr (cm : ConfigManager) (key : String) (defaultValue : List String) :
    Except ConfigError (List String) := orDefault (getStringVector conv cm key) defaultValue

/-- `get<T>(key)` -/
def get (T : ScalarType) (cm : ConfigManager) (key : String) : Except ConfigError (T.Value D) :=
  match T with
  | .string => getString conv cm key
  | .int => getInt conv cm key
  | .double => getDouble conv cm key
  | .bool => getBool conv cm key

/-- `get<T>(key, default_value)` -/
def getOr (T : ScalarType) (cm : ConfigManager) (key : String) (defaultValue : T.Value D) :
    Except ConfigError (T.Value D) := if cm.has key then get conv T cm key else .ok defaultValue

/-! ## Loading -/

/-- The manager as created. -/
def create : ConfigManager := ⟨.null, ""⟩

/-- `loadFromFile`, where `load` is `YAML::LoadFile`. The path is stored first, and stays when the file does not load. -/
def loadFromFile (load : String → Option Yaml) (path : String) (cm : ConfigManager) : ConfigManager × Bool :=
  let cm := { cm with configPath := path }
  match load path with
  | some config => ({ cm with config }, true)
  | none => (cm, false)

/-- `loadFromString`, where `parsed` is what the text parses to. The tree is stored first; of a map, each key is then
converted to a string for the log. -/
def loadFromString (parsed : Option Yaml) (cm : ConfigManager) : ConfigManager × Bool :=
  match parsed with
  | none => (cm, false)
  | some config =>
    let cm := { cm with config }
    match config with
    | .map pairs => (cm, pairs.all fun pair => (pair.1.asString conv.nullText).isSome)
    | _ => (cm, true)

def reload (load : String → Option Yaml) (cm : ConfigManager) : ConfigManager :=
  if cm.configPath = "" then cm else (cm.loadFromFile load cm.configPath).1

end ConfigManager

end CryptoHft

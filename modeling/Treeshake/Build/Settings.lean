import Treeshake.Json.Fault

namespace Treeshake

inductive SideEffects where
  | flag (b : Bool)
  | patterns (files : List String)
deriving DecidableEq, Repr

-- Style sheets count although no code mentions them.
def SideEffects.standard : SideEffects := .patterns ["*.css", "*.sass", "*.scss"]

def SideEffects.toJson : SideEffects → Json
  | .flag b => .bool b
  | .patterns files => .array (files.map .string)

structure Settings where
  sideEffects : SideEffects
  ssr : Bool
  pwa : Bool
deriving DecidableEq, Repr

def Settings.standard : Settings := ⟨.standard, false, false⟩

def Settings.toFields (s : Settings) : List (String × Json) :=
  [("sideEffectsOverride", s.sideEffects.toJson), ("enableSsr", .bool s.ssr),
    ("enablePwa", .bool s.pwa)]

def Settings.toJson (s : Settings) : Json := .object s.toFields

inductive Target where
  | client
  | server
deriving DecidableEq, Repr

def Target.name : Target → String
  | .client => "client"
  | .server => "server"

-- Only a host that targets the server's platform by name builds for the server.
def Target.ofHost (target : String) : Target := if target = "node" then .server else .client

inductive Mode where
  | development
  | production
deriving DecidableEq, Repr

def Mode.name : Mode → String
  | .development => "development"
  | .production => "production"

def Mode.ofHost (mode : String) : Mode :=
  if mode = "development" then .development else .production

namespace Json

def readBool : Json → Except Fault Bool
  | .bool b => .ok b
  | value => .error (.wrongKind (.ofValue value) "a boolean")

def strings? : List Json → Option (List String)
  | [] => some []
  | .string s :: rest => (strings? rest).map (s :: ·)
  | _ :: _ => none

def readSideEffects (value : Json) : Except Fault SideEffects :=
  match value with
  | .bool b => .ok (.flag b)
  | .array items =>
    match strings? items with
    | some files => .ok (.patterns files)
    | none => .error (.noVariant "SideEffects")
  | _ => .error (.noVariant "SideEffects")

def settingNames : List String := ["sideEffectsOverride", "enableSsr", "enablePwa"]

-- One field of the settings. The first wrong field in written order is the fault.
def readSetting (settings : Settings) (name : String) (value : Json) : Except Fault Settings :=
  match name with
  | "sideEffectsOverride" => do return { settings with sideEffects := ← readSideEffects value }
  | "enableSsr" => do return { settings with ssr := ← readBool value }
  | "enablePwa" => do return { settings with pwa := ← readBool value }
  | _ => .error (.unknownField name settingNames)

def readSettingFields (settings : Settings) : List (String × Json) → Except Fault Settings
  | [] => .ok settings
  | (name, value) :: rest => do readSettingFields (← readSetting settings name value) rest

-- Settings from an object, or from a list in the order of the fields; what is left out keeps
-- its standard value, and no value at all means that everything does.
def readSettings : Json → Except Fault Settings
  | .null => .ok .standard
  | .object fields => readSettingFields .standard fields
  | .array items => do
    let settings ← readSettingFields .standard (settingNames.zip items)
    if items.length ≤ settingNames.length then return settings
    else .error (.wrongLength items.length "fewer elements in array")
  | value => .error (.wrongKind (.ofValue value) "struct PluginOptions")

-- A choice by name: a string, or an object with the name as its only key and null as its value.
def readChoice {α : Type} (choices : List (String × α)) (value : Json) : Except Fault α :=
  let pick (name : String) : Except Fault α :=
    match choices.lookup name with
    | some choice => .ok choice
    | none => .error (.unknownVariant name (choices.map (·.1)))
  match value with
  | .string name => pick name
  | .object [(name, inner)] => do
    let choice ← pick name
    match inner with
    | .null => return choice
    | other => .error (.wrongKind (.ofValue other) "unit")
  | .object _ => .error .notSingleKey
  | other => .error (.wrongKind (.ofValue other) "string or map")

def readTarget : Json → Except Fault Target :=
  readChoice [("client", .client), ("server", .server)]

def readMode : Json → Except Fault Mode :=
  readChoice [("development", .development), ("production", .production)]

end Json

end Treeshake

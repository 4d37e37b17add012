/-
# Reading configs

    config    := appId, appSlug, promoteToChannelIds, promoteToChannelNames,
                 charts: [chart], preflights: [preflight], releaseLabel,
                 manifests: [text], repl-lint: lint or null
    chart     := path, chartVersion, appVersion
    preflight := path, valuesPath
    lint      := version, enabled, linters, tools: text for each name
    linters   := helm, preflight, support-bundle, embedded-cluster, kots: switches
    switches  := disabled, strict

Every field may be missing, and unknown ones do not count.  Tags on values do not count,
and optional fields may be null.
-/

import ReleaseLint.Config.Basic
import ReleaseLint.Yaml.Value

namespace ReleaseLint
namespace Config
namespace Reader

open Yaml (Value Fault)

/-- Read a text. -/
def text (v : Value) : Except Fault String :=
  (v.string?.map .ok).getD (.error (.shape "a string"))

/-- Read a boolean. -/
def flag (v : Value) : Except Fault Bool :=
  match v.untagged with
  | .bool b => .ok b
  | _ => .error (.shape "a boolean")

/-- Read an unsigned integer of 32 bits. -/
def word (v : Value) : Except Fault Nat :=
  match v.untagged with
  | .number (.integer n) =>
    if 0 ≤ n && n < UInt32.size then .ok n.toNat else .error (.shape "u32")
  | _ => .error (.shape "u32")

/-- Read a value that may be null. -/
def optional {α : Type} (read : Value → Except Fault α) : Value → Except Fault (Option α)
  | .null => .ok none
  | v => some <$> read v

/-- Read a list. -/
def list {α : Type} (read : Value → Except Fault α) (v : Value) : Except Fault (List α) :=
  match v.untagged with
  | .sequence items => items.mapM read
  | .null => .ok []
  | _ => .error (.shape "a sequence")

/-- The names of the fields that the entries of a record give, with their values. -/
def named : List (Value × Value) → Except Fault (List (String × Value))
  | [] => .ok []
  | (k, v) :: r => do
    let name ← text k
    return (name, v) :: (← named r)

/-- The values of the fields `names` of a record; no field comes twice. -/
def fields (names : List String) (v : Value) : Except Fault (List (Option Value)) :=
  match v.untagged with
  | .mapping entries => do
    let entries ← named entries
    names.mapM fun name =>
      match entries.filter (·.1 == name) with
      | [] => .ok none
      | [e] => .ok (some e.2)
      | _ => .error .duplicateKey
  | .null => .ok (names.map fun _ => none)
  | _ => .error (.shape "a record")

/-- Read a field that has a default. -/
def orDefault {α : Type} (default : α) (read : Value → Except Fault α) :
    Option Value → Except Fault α
  | none => .ok default
  | some v => read v

/-- Read a chart. -/
def chart (v : Value) : Except Fault ChartEntry := do
  match ← fields ["path", "chartVersion", "appVersion"] v with
  | [path, chartVersion, appVersion] =>
    return {
      path := ← orDefault "" text path
      chartVersion := ← orDefault none (optional text) chartVersion
      appVersion := ← orDefault none (optional text) appVersion }
  | _ => .error (.shape "a chart")

/-- Read a preflight. -/
def preflight (v : Value) : Except Fault PreflightEntry := do
  match ← fields ["path", "valuesPath"] v with
  | [path, valuesPath] =>
    return {
      path := ← orDefault "" text path
      valuesPath := ← orDefault none (optional text) valuesPath }
  | _ => .error (.shape "a preflight")

/-- Read switches. -/
def switches (v : Value) : Except Fault Switches := do
  match ← fields ["disabled", "strict"] v with
  | [disabled, strict] =>
    return {
      disabled := ← orDefault none (optional flag) disabled
      strict := ← orDefault none (optional flag) strict }
  | _ => .error (.shape "switches")

/-- Read the switches of every linter. -/
def linters (v : Value) : Except Fault (Tool → Switches) := do
  match ← (← fields (Tool.all.map (·.name)) v).mapM (orDefault .unset switches) with
  | [helm, preflight, supportBundle, embeddedCluster, kots] =>
    return fun
      | .helm => helm
      | .preflight => preflight
      | .supportBundle => supportBundle
      | .embeddedCluster => embeddedCluster
      | .kots => kots
  | _ => .error (.shape "linters")

/-- Read the versions of tools. -/
def versions (v : Value) : Except Fault Versions := do
  match v.untagged with
  | .mapping entries =>
    let entries ← (← named entries).mapM fun e => return (e.1, ← text e.2)
    return Versions.putAll [] entries
  | .null => return []
  | _ => .error (.shape "a map")

/-- Read lint settings. -/
def lint (v : Value) : Except Fault Lint := do
  match ← fields ["version", "enabled", "linters", "tools"] v with
  | [version, enabled, switches, tools] =>
    return {
      version := ← orDefault none (optional word) version
      enabled := ← orDefault none (optional flag) enabled
      switches := ← orDefault (fun _ => .unset) linters switches
      tools := ← orDefault [] versions tools }
  | _ => .error (.shape "lint settings")

/-- The fields of a config in their order. -/
def names : List String :=
  ["appId", "appSlug", "promoteToChannelIds", "promoteToChannelNames", "charts", "preflights",
    "releaseLabel", "manifests", "repl-lint"]

/-- Read a config. -/
def config (v : Value) : Except Fault Config := do
  match ← fields names v with
  | [appId, appSlug, ids, channels, charts, preflights, label, manifests, settings] =>
    return {
      appId := ← orDefault "" text appId
      appSlug := ← orDefault "" text appSlug
      channelIds := ← orDefault [] (list text) ids
      channelNames := ← orDefault [] (list text) channels
      charts := ← orDefault [] (list chart) charts
      preflights := ← orDefault [] (list preflight) preflights
      releaseLabel := ← orDefault "" text label
      manifests := ← orDefault [] (list text) manifests
      lint := ← orDefault none (optional lint) settings }
  | _ => .error (.shape "a config")

end Reader

/-- The config that a text writes; null writes one that leaves everything open. -/
def ofText (content : String) : Except Yaml.Fault Config := do
  match ← Yaml.Value.ofText content with
  | .null => return unset
  | v => Reader.config v

end Config
end ReleaseLint

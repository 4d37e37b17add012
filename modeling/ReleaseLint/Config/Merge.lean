/-
# Laying configs over each other

| setting | outcome |
| --- | --- |
| texts, channel lists | the upper one, unless it is empty |
| charts, preflights, manifests | those below, then those above |
| switches | the upper one, if it is set |
| versions of tools | for each tool the upper one, if it is set |

`withDefaults` closes what is left open, and `distinct` keeps the first of several
entries with one path.
-/

import ReleaseLint.Config.Basic
import ReleaseLint.Path

namespace ReleaseLint
namespace Config

/-- Lay switches over others. -/
def Switches.onTopOf (upper lower : Switches) : Switches :=
  ⟨upper.disabled.or lower.disabled, upper.strict.or lower.strict⟩

/-- Lay lint settings over others. -/
def Lint.onTopOf (upper lower : Lint) : Lint where
  version := upper.version.or lower.version
  enabled := upper.enabled.or lower.enabled
  switches t := (upper.switches t).onTopOf (lower.switches t)
  tools := lower.tools.putAll upper.tools

/-- The upper one of two settings, unless it is empty. -/
def pickText (lower upper : String) : String :=
  if upper = "" then lower else upper

/-- The upper one of two lists, unless it is empty. -/
def pickList (lower upper : List String) : List String :=
  if upper.isEmpty then lower else upper

/-- The lint settings of two configs together. -/
def mergeLint : Option Lint → Option Lint → Option Lint
  | some lower, some upper => some (upper.onTopOf lower)
  | none, upper => upper
  | lower, none => lower

/-- Lay the config `upper` over `lower`. -/
def merge (lower upper : Config) : Config where
  appId := pickText lower.appId upper.appId
  appSlug := pickText lower.appSlug upper.appSlug
  channelIds := pickList lower.channelIds upper.channelIds
  channelNames := pickList lower.channelNames upper.channelNames
  charts := lower.charts ++ upper.charts
  preflights := lower.preflights ++ upper.preflights
  releaseLabel := pickText lower.releaseLabel upper.releaseLabel
  manifests := lower.manifests ++ upper.manifests
  lint := mergeLint lower.lint upper.lint

/-- Lay configs over each other, the lowest one first. -/
def mergeAll (configs : List Config) : Config :=
  configs.foldl merge unset

/-- The text of a path as seen from a directory; an empty one stays empty. -/
def anchorText (base : Path) (value : String) : String :=
  if value = "" then value else (Path.anchor base value).text

/-- Read every path of a config from the directory `base`. -/
def anchor (base : Path) (c : Config) : Config :=
  { c with
    charts := c.charts.map fun e => { e with path := anchorText base e.path }
    preflights := c.preflights.map fun e =>
      ⟨anchorText base e.path, e.valuesPath.map (anchorText base)⟩
    manifests := c.manifests.map (anchorText base) }

/-- The switches of a tool, those left open with their defaults. -/
def Switches.withDefaults (s : Switches) (t : Tool) : Switches :=
  ⟨some (s.disabled.getD (!t.enabledByDefault)), some (s.strict.getD false)⟩

/-- Lint settings, those left open with their defaults. -/
def Lint.withDefaults (l : Lint) : Lint where
  version := some (l.version.getD 1)
  enabled := some (l.enabled.getD true)
  switches t := (l.switches t).withDefaults t
  tools :=
    let missing := Tool.all.filter fun t => (l.tools.get? t.name).isNone
    l.tools ++ missing.map fun t => (t.name, Version.latest)

/-- A config with defaults for the lint settings that are left open. -/
def withDefaults (c : Config) : Config :=
  { c with lint := some c.lintSettings.withDefaults }

/-- The first ones of some entries with one path. -/
def firsts {α : Type} (path : α → String) : (seen : List String) → List α → List α
  | _, [] => []
  | seen, e :: r =>
    if seen.contains (path e) then firsts path seen r else e :: firsts path (path e :: seen) r

/-- A config in which no chart, preflight or manifest has the path of another one. -/
def distinct (c : Config) : Config :=
  { c with
    charts := firsts (·.path) [] c.charts
    preflights := firsts (·.path) [] c.preflights
    manifests := firsts id [] c.manifests }

end Config
end ReleaseLint

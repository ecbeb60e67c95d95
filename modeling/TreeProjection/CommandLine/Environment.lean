import TreeProjection.CommandLine.Arguments
import TreeProjection.CommandLine.Directive
import TreeProjection.Json.Outline
import TreeProjection.Table

/-!
# The environment of the program

Settings of the environment decide whether output is coloured and whether errors are reported.
`Environment.palette` asks in this order: the options, settings that force colours, settings that
refuse them, and at last whether anything says that they can be shown.
-/

namespace TreeProjection.CommandLine

/-- The settings of the environment by name, and whether the output goes to a terminal. -/
structure Environment where
  settings : Table String
  terminal : Bool

namespace Environment

def setting? (environment : Environment) (name : String) : Option String :=
  environment.settings.get? name

def has (environment : Environment) (name : String) : Bool := (environment.setting? name).isSome

/-- A switch is on if it says anything but `0`. -/
def isOn (environment : Environment) (switch : String) : Bool :=
  (environment.setting? switch).any (· ≠ "0")

/-- Colours are asked for whatever the output is. -/
def forcesColour (environment : Environment) : Bool :=
  match environment.setting? "FORCE_COLOR" with
  | some value => value ≠ "false" && Text.natural? value.toList ≠ some 0
  | none => environment.isOn "CLICOLOR_FORCE"

/-- Colours are refused. Only a terminal, or what is to be taken for one, is not refused. -/
def refusesColour (environment : Environment) : Bool :=
  environment.isOn "NO_COLOR" || environment.setting? "TERM" == some "dumb" ||
    !(environment.terminal || environment.isOn "IGNORE_IS_TERMINAL")

/-- Settings of the services that build programs. Their logs show colours. -/
def serviceNames : List String :=
  ["CI_NAME", "GITHUB_ACTION", "GITLAB_CI", "NETLIFY", "TRAVIS", "CODEBUILD_SRC_DIR",
    "BUILDER_OUTPUT", "GITLAB_DEPLOYMENT", "NOW_GITHUB_DEPLOYMENT", "NOW_BUILDER",
    "BITBUCKET_DEPLOYMENT", "GERRIT_PROJECT", "SYSTEM_TEAMFOUNDATIONCOLLECTIONURI", "BITRISE_IO",
    "BUDDY_WORKSPACE_ID", "BUILDKITE", "CIRRUS_CI", "APPVEYOR", "CIRCLECI", "SEMAPHORE", "DRONE",
    "DSARI", "TDDIUM", "STRIDER", "TASKCLUSTER_ROOT_URL", "JENKINS_URL", "bamboo.buildKey",
    "GO_PIPELINE_NAME", "HUDSON_URL", "WERCKER", "MAGNUM", "NEVERCODE", "RENDER", "SAIL_CI",
    "SHIPPABLE"]

/-- The end of the path by which one of these services runs programs. -/
def servicePath : String := "//heroku/node/bin/node"

/-- The program runs in a service that builds programs. -/
def inService (environment : Environment) : Bool :=
  (environment.setting? "CI").any ["true", "1", "woodpecker"].contains ||
    (environment.setting? "NODE").any (fun path => servicePath.toList.isSuffixOf path.toList) ||
    serviceNames.any environment.has

/-- The output is known to be able to show colours. Every kind of terminal is that has not been
refused. -/
def knowsColour (environment : Environment) : Bool :=
  environment.has "COLORTERM" || environment.has "TERM" ||
    (environment.setting? "TERM_PROGRAM").any ["iTerm.app", "Apple_Terminal"].contains ||
    environment.isOn "CLICOLOR" || environment.inService

def palette (environment : Environment) (options : Options) : Json.Palette :=
  if options.noColour then .plain
  else if environment.forcesColour then .coloured
  else if environment.refusesColour then .plain
  else if environment.knowsColour then .coloured
  else .plain

def reportSetting : String := "RUST_LOG"

/-- What becomes of errors. They are reported unless a setting says otherwise. -/
def reporting (environment : Environment) : Reporting :=
  ((environment.setting? reportSetting).map Reporting.ofSetting).getD .reported

def settingNames : List String :=
  ["FORCE_COLOR", "CLICOLOR_FORCE", "NO_COLOR", "TERM", "IGNORE_IS_TERMINAL", "COLORTERM",
    "TERM_PROGRAM", "CLICOLOR", "CI", "NODE", reportSetting] ++ serviceNames

end Environment

end TreeProjection.CommandLine

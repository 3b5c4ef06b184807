import ElmAtlas.Json.Printer
import ElmAtlas.Path.Relative
import ElmAtlas.Review

/-!
# Listings

How projects and review messages are shown, as lines for readers and as
documents for programs.  A listing is printed line by line; a document is one piece.
-/

namespace ElmAtlas.CommandLine

/-- A path as shown: relative to the workspace root when it lies below it. -/
def shownPath (root path : Path) : String :=
  if path.isBelow root then (path.relativeTo root).slashText else path.slashText

/-- Name, kind, compiler version and manifest in columns. -/
def projectLine (root : Path) (project : Project) : String :=
  let name := Text.padRight 24 project.presentableName
  let kind := Text.padRight 11 project.kind.label
  let version := Text.padRight 18 project.kind.elmVersionText
  s!"  {name} {kind} {version} {shownPath root project.manifestPath}\n"

def dependencyDocument (dependencies : Dependencies) : Json.Value :=
  let versions (items : List Dependency) : Json.Value :=
    .ofMembers (items.map fun dependency =>
      (dependency.name, .text dependency.version.toText))
  .ofMembers [
    ("direct", versions dependencies.direct),
    ("indirect", versions dependencies.indirect)]

def projectDocument (project : Project) : Json.Value :=
  .ofMembers [
    ("name", .text project.presentableName),
    ("kind", .text project.kind.label),
    ("manifest", .text project.manifestPath.slashText),
    ("elmVersion", .text project.kind.elmVersionText),
    ("sourceDirectories", .texts (project.absoluteSourceDirectories.map Path.slashText)),
    ("testsDirectory", .text project.testsDirectory.slashText),
    ("exposedModules", .texts project.kind.exposedModules),
    ("dependencies", dependencyDocument project.dependencies),
    ("testDependencies", dependencyDocument project.testDependencies)]

/-- A document on lines of its own. -/
def documentText (items : List Json.Value) : String :=
  (Json.Value.array items).render ++ "\n"

def projectsListing (root : Path) (isJson : Bool) (projects : List Project) : List String :=
  if isJson then [documentText (projects.map projectDocument)]
  else if projects.isEmpty then ["No Elm projects attached\n"]
  else s!"{projects.length} Elm project(s) in {root}\n" :: projects.map (projectLine root)

def discoveredListing (root : Path) (projects : List Project) : List String :=
  let plural := if projects.length == 1 then "" else "s"
  s!"Discovered {projects.length} Elm project{plural} in {root}\n" ::
    projects.map (projectLine root)

/-- Where a message points to and what it says, then its details. -/
def messageLines (message : Review.Message) : List String :=
  let start := message.region.start
  (s!"{message.path}:{start.line.toNat}:{start.column.toNat}: " ++
    s!"[{message.rule}] {message.message}\n") ::
    message.details.map fun detail => s!"    {detail}\n"

def positionDocument (position : Review.Position) : Json.Value :=
  .ofMembers [
    ("line", .natural position.line.toNat),
    ("column", .natural position.column.toNat)]

def messageDocument (message : Review.Message) : Json.Value :=
  .ofMembers [
    ("path", .text message.path),
    ("rule", .text message.rule),
    ("message", .text message.message),
    ("details", .texts message.details),
    ("region", .ofMembers [
      ("start", positionDocument message.region.start),
      ("end", positionDocument message.region.stop)])]

def messagesListing (isJson : Bool) (messages : List Review.Message) : List String :=
  if isJson then [documentText (messages.map messageDocument)]
  else if messages.isEmpty then ["No problems found\n"]
  else messages.flatMap messageLines ++ ["\n", s!"{messages.length} problem(s) found\n"]

end ElmAtlas.CommandLine

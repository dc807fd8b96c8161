import SceneBundler.Catalog.Framework
import SceneBundler.Json.Printer
import SceneBundler.Project.Bundle
import SceneBundler.Project.Page

/-!
Contract: the project layout of each framework.

Owns:
- the packages with their pinned versions, the scripts, and the fixed files of each layout;
- the package manifest in its order of fields;
- the order of the files of a project.

Does not own: whether a source fits its layout.
-/

namespace SceneBundler

/-- A package at an exact version. -/
structure Package where
  name : Text
  version : Text
deriving DecidableEq, Repr

/-- The layout of the projects of a framework. -/
structure Template where
  framework : Framework
  displayName : String
  packageName : String
  keywords : List String
  dependencies : List Package
  buildDependencies : List Package
  /-- The scripts of the package manifest. -/
  scripts : List (String × String)
  /-- Further fields of the package manifest. -/
  settings : List (String × Json.Value)
  hostPage : ProjectFile
  /-- The script that mounts the source, where the source is a component. -/
  bootstrap : Option ProjectFile
  /-- Where the source goes. -/
  sourcePath : Text
  stylesheet : ProjectFile
  entryPath : Text

namespace Template

open Json (Value)

/-- A string value. -/
def string (text : String) : Value :=
  .string text.toList

/-- An object with fields in the order given. -/
def fields (named : List (String × Value)) : Value :=
  Value.ofFields (named.map fun (name, value) => (name.toList, value))

/-- The versions of packages by name. -/
def versions (packages : List Package) : Value :=
  Value.ofFields (packages.map fun package => (package.name, .string package.version))

/-- The package manifest. -/
def manifest (template : Template) : Value :=
  let described :=
    [("name", string template.packageName),
      ("version", string "1.0.0"),
      ("description", string (template.displayName ++ " scene packaged by scenepack")),
      ("keywords", .array (template.keywords.map string)),
      ("main", .string template.entryPath),
      ("dependencies", versions template.dependencies)]
  let building :=
    if template.buildDependencies.isEmpty then []
    else [("devDependencies", versions template.buildDependencies)]
  let scripts :=
    [("scripts", fields (template.scripts.map fun (name, command) => (name, string command)))]
  fields (described ++ building ++ scripts ++ template.settings)

/-- The files of a project around its source, in order. -/
def files (template : Template) (source : Text) : List ProjectFile :=
  [.text "package.json" (Json.printIndented template.manifest ++ ['\n']), template.hostPage] ++
    template.bootstrap.toList ++
    [⟨template.sourcePath, source, false⟩, template.stylesheet,
      .text ".gitignore" Page.ignoredPaths]

/-- The title of the page of a framework. -/
def title (displayName : String) : String :=
  "scenepack - " ++ displayName

/-- Packages from names and versions. -/
def packages (pinned : List (String × String)) : List Package :=
  pinned.map fun (name, version) => ⟨name.toList, version.toList⟩

/-- The layout of a framework whose scenes are components. -/
def component (framework : Framework) (displayName packageName : String) (keywords : List String)
    (pinned : List (String × String)) : Template :=
  { framework := framework
    displayName := displayName
    packageName := packageName
    keywords := keywords
    dependencies := packages pinned
    buildDependencies := []
    scripts := [("start", "react-scripts start"), ("build", "react-scripts build"),
      ("test", "react-scripts test --env=jsdom"), ("eject", "react-scripts eject")]
    settings := [
      ("eslintConfig", fields [("extends", .array [string "react-app"])]),
      ("browserslist",
        fields [
          ("production",
            .array [string ">0.2%", string "not dead", string "not op_mini all"]),
          ("development",
            .array [string "last 1 chrome version", string "last 1 firefox version",
              string "last 1 safari version"])])]
    hostPage := .text "public/index.html" (Page.componentHost (title displayName))
    bootstrap := some (.text "src/index.js" Page.bootstrap)
    sourcePath := "src/App.js".toList
    stylesheet := .text "src/index.css" Page.componentStyle
    entryPath := "src/index.js".toList }

/-- The layout of a framework whose scenes are scripts. -/
def script (framework : Framework) (displayName packageName : String) (keywords : List String)
    (pinned : List (String × String)) (style : Text) (markup : List String) : Template :=
  { framework := framework
    displayName := displayName
    packageName := packageName
    keywords := keywords
    dependencies := packages pinned
    buildDependencies := packages [("parcel-bundler", "1.12.5")]
    scripts := [("start", "parcel index.html --open"), ("build", "parcel build index.html")]
    settings := []
    hostPage := .text "index.html" (Page.scriptHost (title displayName) markup)
    bootstrap := none
    sourcePath := "src/index.js".toList
    stylesheet := .text "src/styles.css" style
    entryPath := "src/index.js".toList }

/-- The layout of each framework. -/
def ofFramework : Framework -> Template
  | .reactThreeFiber =>
      component .reactThreeFiber "React Three Fiber" "r3f-scenepack-scene"
        ["react", "three", "3d", "react-three-fiber"]
        [("@react-three/drei", "9.114.3"), ("@react-three/fiber", "8.17.10"),
          ("@react-three/postprocessing", "2.16.3"), ("react", "18.3.1"),
          ("react-dom", "18.3.1"), ("react-scripts", "5.0.1"), ("three", "0.171.0")]
  | .reactylon =>
      component .reactylon "Reactylon" "reactylon-scenepack-scene"
        ["react", "babylonjs", "3d", "reactylon"]
        [("@babylonjs/core", "7.42.1"), ("@babylonjs/gui", "7.42.1"),
          ("@babylonjs/loaders", "7.42.1"), ("@babylonjs/materials", "7.42.1"),
          ("react", "18.3.1"), ("react-babylonjs", "3.2.0"), ("react-dom", "18.3.1"),
          ("react-scripts", "5.0.1")]
  | .threejs =>
      script .threejs "Three.js" "threejs-scenepack-scene" ["threejs", "3d", "webgl"]
        [("three", "0.158.0")] Page.appendedCanvasStyle []
  | .babylonjs =>
      script .babylonjs "Babylon.js" "babylonjs-scenepack-scene" ["babylonjs", "3d", "webgl"]
        [("@babylonjs/core", "6.49.0"), ("@babylonjs/gui", "6.49.0"),
          ("@babylonjs/loaders", "6.49.0")]
        Page.hostedCanvasStyle Page.canvasMarkup

end Template

end SceneBundler

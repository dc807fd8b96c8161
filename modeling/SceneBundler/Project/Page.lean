import SceneBundler.Text.Basic

/-!
Contract: the fixed texts of project files.

Owns: host pages, stylesheets, the script that mounts a component, and the list of ignored paths.

Does not own: which project has which of them.
-/

namespace SceneBundler.Page

/-- Lines, each with a line break after it. -/
def lines (texts : List String) : Text :=
  texts.flatMap fun line => line.toList ++ ['\n']

/-- A page from its viewport, the head before and after the title, the title, and the body. -/
def host (viewport : String) (beforeTitle : List String) (title : String)
    (afterTitle body : List String) : Text :=
  lines
    (["<!DOCTYPE html>", "<html lang=\"en\">", "  <head>", "    <meta charset=\"utf-8\" />",
      "    <meta name=\"viewport\" content=\"" ++ viewport ++ "\" />"] ++ beforeTitle ++
      ["    <title>" ++ title ++ "</title>"] ++ afterTitle ++ ["  </head>", "  <body>"] ++ body ++
      ["  </body>", "</html>"])

/-- The page into which a component is mounted. -/
def componentHost (title : String) : Text :=
  host "width=device-width, initial-scale=1, shrink-to-fit=no"
    ["    <meta name=\"theme-color\" content=\"#000000\" />"] title []
    ["    <noscript>You need to enable JavaScript to run this app.</noscript>",
      "    <div id=\"root\"></div>"]

/-- The page that loads a script, with more markup before the script. -/
def scriptHost (title : String) (markup : List String) : Text :=
  host "width=device-width, initial-scale=1" [] title
    ["    <link rel=\"stylesheet\" href=\"src/styles.css\" />"]
    (markup ++ ["    <script src=\"src/index.js\"></script>"])

/-- A style rule: its selectors one a line, and its declarations indented. -/
structure Rule where
  selectors : List String
  declarations : List String

/-- The selectors with commas in between and the opening brace after the last. -/
def Rule.head : List String -> List String
  | [] => []
  | [selector] => [selector ++ " \x7b"]
  | selector :: rest => (selector ++ ",") :: Rule.head rest

/-- The lines of a rule. -/
def Rule.lines (rule : Rule) : List String :=
  Rule.head rule.selectors ++ rule.declarations.map ("  " ++ ·) ++ ["\x7d"]

/-- A stylesheet: its rules with an empty line in between. -/
def stylesheet (rules : List Rule) : Text :=
  lines ((rules.map Rule.lines).intersperse [""]).flatten

/-- The style of a mounted component. -/
def componentStyle : Text :=
  stylesheet [
    ⟨["*"], ["margin: 0;", "padding: 0;", "box-sizing: border-box;"]⟩,
    ⟨["html", "body", "#root"], ["width: 100%;", "height: 100%;", "overflow: hidden;"]⟩,
    ⟨["body"],
      ["background: #000;",
        "font-family: -apple-system, BlinkMacSystemFont, 'Segoe UI', 'Roboto', 'Oxygen',",
        "  'Ubuntu', 'Cantarell', 'Fira Sans', 'Droid Sans', 'Helvetica Neue',",
        "  sans-serif;",
        "-webkit-font-smoothing: antialiased;",
        "-moz-osx-font-smoothing: grayscale;"]⟩,
    ⟨["canvas"], ["display: block;"]⟩]

/-- The style of a scene that appends its own canvas. -/
def appendedCanvasStyle : Text :=
  stylesheet [
    ⟨["*"], ["margin: 0;", "padding: 0;"]⟩,
    ⟨["body"], ["overflow: hidden;", "background: #000;"]⟩,
    ⟨["canvas"], ["display: block;"]⟩]

/-- The style of a scene that draws on the canvas of its page. -/
def hostedCanvasStyle : Text :=
  stylesheet [
    ⟨["*"], ["margin: 0;", "padding: 0;"]⟩,
    ⟨["html", "body"],
      ["width: 100%;", "height: 100%;", "overflow: hidden;", "background: #000;"]⟩,
    ⟨["#renderCanvas"], ["width: 100%;", "height: 100%;", "touch-action: none;"]⟩]

/-- The markup of the canvas that a page provides. -/
def canvasMarkup : List String :=
  ["    <canvas id=\"renderCanvas\"></canvas>"]

/-- The script that mounts the default export of the application source. -/
def bootstrap : Text :=
  lines [
    "import React, \x7b StrictMode \x7d from 'react';",
    "import \x7b createRoot \x7d from 'react-dom/client';",
    "import './index.css';",
    "import App from './App';",
    "",
    "const rootElement = document.getElementById('root');",
    "if (!rootElement) throw new Error('Root element not found');",
    "",
    "const root = createRoot(rootElement);",
    "root.render(",
    "  <StrictMode>",
    "    <App />",
    "  </StrictMode>",
    ");"]

/-- The paths that version control leaves out. -/
def ignoredPaths : Text :=
  lines [
    "# dependencies",
    "/node_modules",
    "/.pnp",
    ".pnp.js",
    "",
    "# testing",
    "/coverage",
    "",
    "# production",
    "/build",
    "/dist",
    "/.cache",
    "",
    "# misc",
    ".DS_Store",
    ".env.local",
    ".env.development.local",
    ".env.test.local",
    ".env.production.local",
    "",
    "npm-debug.log*",
    "yarn-debug.log*",
    "yarn-error.log*"]

end SceneBundler.Page

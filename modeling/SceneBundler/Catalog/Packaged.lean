import SceneBundler.Catalog.Basic

/-!
Contract: the catalogs that come with the library, one for each framework.

Owns: what each framework exports, the names it goes by, former names of its modules, and where its
programs start.

Does not own: reading catalogs from documents.
-/

namespace SceneBundler.Catalog

/-- The exports that a module lists under one kind. -/
def listing (module : String) (kind : ExportKind) (identifiers : List String) : List Export :=
  identifiers.map fun identifier => ⟨identifier.toList, module.toList, kind⟩

/-- Pairs of a name in use and the name it stands for. -/
def renamings (pairs : List (String × String)) : List (Text × Text) :=
  pairs.map fun pair => (pair.1.toList, pair.2.toList)

/-- The React Three Fiber stack. -/
def reactThreeFiber : Catalog where
  framework := .reactThreeFiber
  aliases := ["reactThreeFiber", "r3f", "react-three"].map String.toList
  entryStyle := .component
  rootContainer := "Canvas".toList
  rootName := "App".toList
  requiresComponents := true
  implicitImports := ["React"].map String.toList
  moduleAliases := renamings [
    ("react-three-fiber", "@react-three/fiber"),
    ("@react-three/fiber/native", "@react-three/fiber"), ("drei", "@react-three/drei"),
    ("@react-three/drei/core", "@react-three/drei"),
    ("react-postprocessing", "@react-three/postprocessing"),
    ("postprocessing", "@react-three/postprocessing")]
  intrinsicAliases := []
  exports :=
    listing "@react-three/drei" .asNamed [
      "AccumulativeShadows", "BakeShadows", "Billboard", "Bounds", "Box", "CameraControls",
      "Capsule", "Center", "Cloud", "Clouds", "Cone", "ContactShadows", "CubicBezierLine",
      "Cylinder", "Decal", "Dodecahedron", "Edges", "Environment", "Float", "FlyControls",
      "GizmoHelper", "GizmoViewport", "Grid", "Html", "Icosahedron", "Image", "Instance",
      "Instances", "Lightformer", "Line", "Loader", "MeshDistortMaterial",
      "MeshReflectorMaterial", "MeshTransmissionMaterial", "MeshWobbleMaterial", "Octahedron",
      "OrbitControls", "OrthographicCamera", "Outlines", "PerspectiveCamera", "Plane", "Point",
      "PointMaterial", "PointerLockControls", "Points", "PresentationControls",
      "QuadraticBezierLine", "RandomizedLight", "RoundedBox", "Scroll", "ScrollControls",
      "Shadow", "Sky", "SoftShadows", "Sparkles", "Sphere", "Stage", "Stars", "Stats", "Svg",
      "Tetrahedron", "Text", "Text3D", "Torus", "TorusKnot", "Trail", "TransformControls",
      "useAnimations", "useCursor", "useGLTF", "useHelper", "useScroll", "useTexture"] ++
    listing "@react-three/fiber" .asNamed [
      "Canvas", "createPortal", "extend", "useFrame", "useGraph", "useLoader", "useThree"] ++
    listing "@react-three/postprocessing" .asNamed [
      "Bloom", "BrightnessContrast", "ChromaticAberration", "DepthOfField", "DotScreen",
      "EffectComposer", "Glitch", "HueSaturation", "Noise", "Outline", "Pixelation", "SSAO",
      "Scanline", "Sepia", "ToneMapping", "Vignette"] ++
    listing "react" .asDefault ["React"] ++
    listing "react" .asNamed [
      "Fragment", "Suspense", "createContext", "forwardRef", "memo", "useCallback", "useContext",
      "useEffect", "useLayoutEffect", "useMemo", "useReducer", "useRef", "useState",
      "useTransition"] ++
    listing "three" .asNamespace ["THREE"]

/-- Scenes rendered through react-babylonjs: host elements of Babylon are lowercase, so the
capitalized names of meshes, lights and materials stand for their intrinsic form. -/
def reactylon : Catalog where
  framework := .reactylon
  aliases := ["react-babylonjs", "reactBabylonjs"].map String.toList
  entryStyle := .component
  rootContainer := "Engine".toList
  rootName := "App".toList
  requiresComponents := true
  implicitImports := ["React"].map String.toList
  moduleAliases := renamings [
    ("reactylon", "react-babylonjs"), ("reactylon/web", "react-babylonjs"),
    ("reactylon/mobile", "react-babylonjs"), ("babylonjs", "@babylonjs/core"),
    ("@babylonjs/core/Legacy/legacy", "@babylonjs/core"), ("babylonjs-gui", "@babylonjs/gui")]
  intrinsicAliases := renamings [
    ("AdvancedDynamicTexture", "advancedDynamicTexture"), ("ArcRotateCamera", "arcRotateCamera"),
    ("Box", "box"), ("Capsule", "capsule"), ("Cylinder", "cylinder"),
    ("DirectionalLight", "directionalLight"), ("Disc", "disc"), ("FreeCamera", "freeCamera"),
    ("Ground", "ground"), ("HemisphericLight", "hemisphericLight"),
    ("PBRMaterial", "pbrMaterial"), ("Plane", "plane"), ("PointLight", "pointLight"),
    ("Rectangle", "rectangle"), ("ShadowGenerator", "shadowGenerator"), ("Sphere", "sphere"),
    ("SpotLight", "spotLight"), ("StackPanel", "stackPanel"),
    ("StandardMaterial", "standardMaterial"), ("TextBlock", "textBlock"), ("Torus", "torus"),
    ("TorusKnot", "torusKnot"), ("TransformNode", "transformNode"),
    ("UniversalCamera", "universalCamera")]
  exports :=
    listing "@babylonjs/core" .asNamed [
      "ActionManager", "Animation", "Axis", "Color3", "Color4", "ExecuteCodeAction", "Matrix",
      "MeshBuilder", "Quaternion", "SceneLoader", "Space", "Texture", "Tools", "Vector2",
      "Vector3"] ++
    listing "@babylonjs/gui" .asNamed ["Control"] ++
    listing "react" .asDefault ["React"] ++
    listing "react" .asNamed [
      "Fragment", "Suspense", "createContext", "forwardRef", "memo", "useCallback", "useContext",
      "useEffect", "useLayoutEffect", "useMemo", "useReducer", "useRef", "useState"] ++
    listing "react-babylonjs" .asNamed [
      "Engine", "Html", "Model", "Scene", "Skybox", "useAfterRender", "useBeforeRender",
      "useCamera", "useClick", "useEngine", "useHover", "useScene"]

/-- Plain Three.js modules, which run as they are. -/
def threejs : Catalog where
  framework := .threejs
  aliases := ["three", "three.js", "threeJS"].map String.toList
  entryStyle := .script
  rootContainer := "WebGLRenderer".toList
  rootName := "init".toList
  requiresComponents := true
  implicitImports := [].map String.toList
  moduleAliases := renamings [
    ("three/addons/controls/OrbitControls.js", "three/examples/jsm/controls/OrbitControls.js"),
    ("three/examples/jsm/controls/OrbitControls", "three/examples/jsm/controls/OrbitControls.js"),
    ("three-orbitcontrols", "three/examples/jsm/controls/OrbitControls.js"),
    ("three/addons/loaders/GLTFLoader.js", "three/examples/jsm/loaders/GLTFLoader.js"),
    ("three/examples/jsm/loaders/GLTFLoader", "three/examples/jsm/loaders/GLTFLoader.js"),
    ("three/addons/webxr/VRButton.js", "three/examples/jsm/webxr/VRButton.js"),
    ("three/addons/webxr/ARButton.js", "three/examples/jsm/webxr/ARButton.js")]
  intrinsicAliases := []
  exports :=
    listing "three" .asNamespace ["THREE"] ++
    listing "three/examples/jsm/controls/OrbitControls.js" .asNamed ["OrbitControls"] ++
    listing "three/examples/jsm/controls/PointerLockControls.js" .asNamed [
      "PointerLockControls"] ++
    listing "three/examples/jsm/geometries/TextGeometry.js" .asNamed ["TextGeometry"] ++
    listing "three/examples/jsm/loaders/FontLoader.js" .asNamed ["FontLoader"] ++
    listing "three/examples/jsm/loaders/GLTFLoader.js" .asNamed ["GLTFLoader"] ++
    listing "three/examples/jsm/loaders/RGBELoader.js" .asNamed ["RGBELoader"] ++
    listing "three/examples/jsm/webxr/ARButton.js" .asNamed ["ARButton"] ++
    listing "three/examples/jsm/webxr/VRButton.js" .asNamed ["VRButton"]

/-- Plain Babylon.js modules, which run as they are. -/
def babylonjs : Catalog where
  framework := .babylonjs
  aliases := ["babylon", "babylon.js", "babylonJS"].map String.toList
  entryStyle := .script
  rootContainer := "Engine".toList
  rootName := "createScene".toList
  requiresComponents := true
  implicitImports := [].map String.toList
  moduleAliases := renamings [
    ("babylonjs", "@babylonjs/core"), ("@babylonjs/core/Legacy/legacy", "@babylonjs/core"),
    ("babylonjs-gui", "@babylonjs/gui")]
  intrinsicAliases := []
  exports :=
    listing "@babylonjs/core" .asNamespace ["BABYLON"] ++
    listing "@babylonjs/gui" .asNamespace ["GUI"]

/-- The catalog of a framework. -/
def packaged : Framework -> Catalog
  | .reactThreeFiber => reactThreeFiber
  | .reactylon => reactylon
  | .threejs => threejs
  | .babylonjs => babylonjs

end SceneBundler.Catalog

import ServerRun.Project.Properties
import ServerRun.Text.Blank
import ServerRun.Xml.Document
import ServerRun.File.System
import ServerRun.Error

/-! The descriptor of a project: what it builds, under which name and where. What the descriptor
leaves open takes the defaults of the build. -/

namespace ServerRun.Project

/-- What a project builds. -/
structure Build where
  base : Path
  artifact : String
  version : String
  packaging : String
  finalName : String
  directory : Path
deriving DecidableEq, Repr

/-- The text of the first element that a path leads to, without the blanks around it. -/
def textAt (root : Xml.Element) (path : List String) : String :=
  ((root.find? path).map fun e => Text.stripped e.text).getD ""

/-- A text, or another one if it is empty. -/
def orElse (s t : String) : String := if s = "" then t else s

/-- The version of a project: its own or else that of its parent. -/
def versionOf (root : Xml.Element) : String :=
  orElse (textAt root ["version"]) (textAt root ["parent", "version"])

/-- The properties that every project has. -/
def standardProperties (base : Path) (artifact version : String) : List (String × String) :=
  [("project.artifactId", artifact), ("artifactId", artifact), ("project.version", version),
    ("version", version), ("project.basedir", base.toString), ("basedir", base.toString)]

/-- The properties that a descriptor defines. -/
def definedProperties (root : Xml.Element) : List (String × String) :=
  match root.find? ["properties"] with
  | some e => e.children.map fun p => (p.name, Text.stripped p.text)
  | none => []

/-- The properties of a project; those of the descriptor win over the standard ones. -/
def propertiesOf (base : Path) (root : Xml.Element) : List (String × String) :=
  Fields.merge (standardProperties base (textAt root ["artifactId"]) (versionOf root))
    (definedProperties root)

/-- What a project builds, as the root element of its descriptor says; nothing if it names no
artifact. -/
def Build.ofDescriptor? (base : Path) (root : Xml.Element) : Option Build :=
  let artifact := textAt root ["artifactId"]
  if artifact = "" then none
  else
    let version := versionOf root
    let properties := propertiesOf base root
    let directory := interpolate properties (orElse (textAt root ["build", "directory"]) "target")
    let properties := Fields.insert properties "project.build.directory" directory
    let finalName :=
      interpolate properties
        (orElse (textAt root ["build", "finalName"]) (artifact ++ "-" ++ version))
    some
      { base
        artifact
        version
        packaging := orElse (textAt root ["packaging"]) "jar"
        finalName
        directory := base / directory }

/-- The failure of a descriptor that is no well-formed document. -/
def descriptorFailure (file : Path) : Xml.Fault → Failure
  | .malformed =>
    .run (.configuration ("Could not parse '" ++ file.toString ++ "': " ++ detailText))
  | .unknownEncoding => .unknownEncoding
  | .unsupportedEncoding => .badValue

/-- Reads the descriptor of the project in a directory. -/
def Build.read (files : FileSystem) (cwd base : Path) : Except Failure Build :=
  let file := base / "pom.xml"
  match files.fileBytes cwd file with
  | .error _ =>
    .error (.run (.configuration ("No pom.xml found in '" ++ (base.resolve cwd).toString ++
      "'; set target_dir and filename explicitly")))
  | .ok bytes =>
    match Xml.Element.parse bytes with
    | .error f => .error (descriptorFailure file f)
    | .ok root =>
      match Build.ofDescriptor? base root with
      | some b => .ok b
      | none =>
        .error (.run (.configuration
          ("'" ++ file.toString ++ "' does not declare an artifactId")))

end ServerRun.Project

import Grove.Text.Utf8
import Grove.Workspace.Basic

/-!
# A robot arm

A walk through the library: the configuration of a robot arm is built, saved in two formats, listed,
and read back through dotted paths and explicit ones.
-/
namespace Grove.Demo

/-- A step of the walk, which works on a workspace and may fail. -/
abbrev Step := StateT Workspace (Except Error)

def put (start : Start) (address : Address) (content : Content) :
    Step (Option NodeId) := fun w => do
  match ← w.put start address content with
  | some (id, w) => return (some id, w)
  | none => return (none, w)

def addLimit (limits : Option NodeId) (degrees : Int) : Step Unit := do
  if let some id := limits then
    let _ ← put (.node id) .omitted (.number (.int degrees))

def addJoint (joints : Option NodeId) (name : Text) (gain : Value) : Step Unit := do
  if let some id := joints then
    if let some joint ← put (.node id) .omitted .emptyLevel then
      let _ ← put (.node joint) (.text "name") (.string (.text name))
      let _ ← put (.node joint) (.text "gain") (.number gain)
      let limits ← put (.node joint) (.text "limits") .emptyList
      addLimit limits (-90)
      addLimit limits 90

def configure : Step OwnerId := do
  let arm ← modifyGet fun w => w.hold (.level []) none
  let _ ← put (.owner arm) (.text "name") (.string (.text "arm"))
  let _ ← put (.owner arm) (.text "server") .emptyLevel
  let _ ← put (.owner arm) (.text "server.port") (.number (.int 8080))
  let _ ← put (.owner arm) (.text "server.tls") (.boolean (.boolean false))
  let joints ← put (.owner arm) (.text "joints") .emptyList
  addJoint joints "shoulder" (.fraction 3 2)
  addJoint joints "elbow" (.int 2)
  return arm

def save (arm : OwnerId) (format : Text) (directory : Location) (name : Text) : Step Unit := do
  let w ← get
  let text ← w.serialize none (some (.owner arm)) (.named format)
  let file := directory.join ⟨.present, [name]⟩
  match w.host.files.directory? (← liftM directory.bytes), (text.getD "").encodeUtf8 false with
  | none, _ => throw (.missingFile file.text)
  | some _, .ok content =>
    let files := w.host.files.addAt file (.file content)
    set { w with host := { w.host with files } }
  | some _, .error fault => throw (.unencodable fault)

def shown (arm : OwnerId) (kind : Kind) (default : Value) (address : Address) (args : List Value) :
    Step Text := do
  let w ← get
  let v ← w.store.scalar (w.root (.owner arm)) kind default address args
  liftM (v.asText.mapError Error.text)

def jointLine (arm : OwnerId) (i : Nat) : Step Text := do
  let position := [Value.int i]
  let limit (n : Nat) : Address := .path [.key "joints", .index i, .key "limits", .index n]
  let name ← shown arm .string (.text "?") (.text "joints.%d.name") position
  let gain ← shown arm .number (.int 0) (.text "joints.%d.gain") position
  let low ← shown arm .number (.int 0) (limit 0) []
  let high ← shown arm .number (.int 0) (limit 1) []
  let number := Text.ofList (Text.decimal i)
  return "joint " ++ number ++ ": " ++ name ++ " gain=" ++ gain ++ " limits=" ++ low ++ ".." ++ high

def report (arm : OwnerId) : Step (List Text) := do
  let port ← shown arm .number (.int 0) (.text "server.port") []
  let tls ← shown arm .boolean (.boolean true) (.text "server.tls") []
  let w ← get
  let joints ← w.store.listSize (w.root (.owner arm)) (.text "joints") []
  let lines ← (List.range joints).mapM (jointLine arm)
  let missing ← shown arm .number (.int (-1)) (.text "server.missing") []
  return ["port: " ++ port, "tls: " ++ tls] ++ lines ++ ["missing: " ++ missing]

def walk (directory : Location) (label : Text) : Step (List Text) := do
  modify (·.rebase none directory)
  let arm ← configure
  save arm "json" directory "arm.json"
  save arm "yaml" directory "arm_copy.yaml"
  modify (·.unload arm)
  let w ← get
  let entries ← w.listEntries none ""
  let names := (entries.mergeSort Text.le).map Text.quoted
  let first := "Entries in " ++ label ++ ": [" ++ Text.intercalate ", " names ++ "]"
  match ← w.loadStorage none "arm" .unspecified with
  | some (loaded, w) =>
    set w
    let lines ← report loaded
    modify (·.unload loaded)
    return first :: lines
  | none => return [first]

def textOf (content : List UInt8) : Text :=
  match Text.decodeUtf8 content with
  | .ok cs => Text.ofList cs
  | .error _ => ""

def filesOf (fs : FileSystem) (directory : Location) : Except Error (List (Text × Text)) := do
  let names ← fs.filesIn directory
  return (names.mergeSort Text.le).filterMap fun name =>
    (fs.content? (directory.child name)).map fun content => (name, textOf content)

def run (host : Host) (directory : Location) (label : Text) :
    Except Error (Text × List (Text × Text)) := do
  let (lines, w) ← (walk directory label).run (.fresh host)
  return (Text.intercalate "" (lines.map (· ++ "\n")), ← filesOf w.host.files directory)

end Grove.Demo

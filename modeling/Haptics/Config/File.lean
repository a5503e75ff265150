import Haptics.Config.Text

/-! The configuration file: where it lies, how it is loaded and how it is saved. A missing file is
written out with the defaults, so that a service always has one; a file that is there is never
touched by loading it. -/

namespace Haptics.Config

/-- What is found at a path. -/
inductive Spot where
  /-- Nothing; a file can be made there, together with the directories above it. -/
  | absent
  | file (bytes : ByteArray)
  | directory
  /-- Nothing, and nothing can be there, because a file stands in the place of a directory. -/
  | blocked

inductive FileFault where
  | exists
  | createDirectory
  | serialize
  | write
  | read
  | text (why : TextFault)
  deriving DecidableEq, Repr

/-- The text is made before the file is touched. -/
def save (c : Config) : Spot → Except FileFault Unit × Spot
  | .blocked => (.error .createDirectory, .blocked)
  | spot =>
    match c.text? with
    | none => (.error .serialize, spot)
    | some text =>
      match spot with
      | .directory => (.error .write, .directory)
      | _ => (.ok (), .file text.toUTF8)

/-- Loads what is there. -/
def load : Spot → Except FileFault Config
  | .file bytes =>
    match String.fromUTF8? bytes with
    | none => .error .read
    | some text => (ofText text).mapError .text
  | _ => .error .read

def loadOrCreate : Spot → Except FileFault Config × Spot
  | .blocked => (.error .exists, .blocked)
  | .absent =>
    match save {} .absent with
    | (.ok (), spot) => (load spot, spot)
    | (.error why, spot) => (.error why, spot)
  | spot => (load spot, spot)

/-! ## Where it lies -/

/-- One path below another. -/
def joined (dir name : String) : String :=
  if dir.endsWith "/" ∨ dir = "" then dir ++ name else dir ++ "/" ++ name

/-- The directory for configurations: the one that is set for the purpose, if it is an absolute path,
else a fixed one in the user's home, else the current one. -/
def directory (configHome home : Option String) : String :=
  match configHome.filter (·.startsWith "/"), home.filter (· ≠ "") with
  | some dir, _ => dir
  | none, some home => joined home ".config"
  | none, none => "."

def defaultPath (configHome home : Option String) : String :=
  joined (joined (directory configHome home) "vibration-controller") "config.toml"

end Haptics.Config

import ZoneRouting.Config.Text

namespace ZoneRouting

structure Folder where
  files : List (String × Bytes)

namespace Folder

inductive Place where
  | folder
  -- A name, which may be no file's, and whether slashes follow it. What is not in the folder has
  -- the way there in front of it.
  | named (way name : String) (slashes : Bool)
  deriving DecidableEq, Repr

def maxName : Nat := 255

def maxPath : Nat := 4095

def file? (f : Folder) (name : String) : Option Bytes := f.files.lookup name

def noFolder (f : Folder) (way name : String) : IoFault :=
  if maxName < name.utf8ByteSize then .invalidFilename
  else if (f.file? (way ++ name)).isSome then .notADirectory
  else .notFound

def follow (f : Folder) (way : String) : List String → Except IoFault Place
  | [] => .ok .folder
  | part :: rest =>
    if part = "" ∨ part = "." then f.follow way rest
    else if part = ".." then f.follow (way ++ "../") rest
    else if rest.all (· = "") then .ok (.named way part (rest ≠ []))
    else .error (f.noFolder way part)

def place (f : Folder) (path : String) : Except IoFault Place :=
  if path = "" then .error .notFound
  else if path.toList.contains '\x00' then .error .invalidInput
  else if maxPath < path.utf8ByteSize then .error .invalidFilename
  else f.follow (if path.startsWith "/" then "/" else "") (path.splitOn "/")

def read (f : Folder) (path : String) : Except IoFault Bytes :=
  match f.place path with
  | .error fault => .error fault
  | .ok .folder => .error .isADirectory
  | .ok (.named way name true) => .error (f.noFolder way name)
  | .ok (.named way name false) =>
    if maxName < name.utf8ByteSize then .error .invalidFilename
    else
      match f.file? (way ++ name) with
      | some bytes => .ok bytes
      | none => .error .notFound

-- Writes a file at a path, in place of the one that is there. A path with slashes at its end could
-- only be a folder's.
def write (f : Folder) (path : String) (bytes : Bytes) : Except IoFault Folder :=
  match f.place path with
  | .error fault => .error fault
  | .ok .folder => .error .isADirectory
  | .ok (.named _ _ true) => .error .isADirectory
  | .ok (.named way name false) =>
    if maxName < name.utf8ByteSize then .error .invalidFilename
    else .ok ⟨(way ++ name, bytes) :: f.files.filter (·.1 ≠ way ++ name)⟩

end Folder

inductive SetupFault where
  | config (fault : ConfigFault)
  | routing (fault : Fault)
  | io (fault : IoFault)
  deriving DecidableEq, Repr

def SetupFault.message : SetupFault → String
  | config fault => fault.message
  | routing fault => "Routing error: " ++ fault.message
  | io fault => fault.message

def Identity.load (read : String → Except IoFault Bytes) (path : String) : Except Fault Identity :=
  match read path with
  | .error fault => .error (.io fault)
  | .ok bytes => Identity.ofBytes bytes

-- Loads a configuration from a file and the identity that it names. The configuration is checked
-- before the identity is looked for.
def Config.load (read : String → Except IoFault Bytes) (path : String) :
    Except SetupFault (Config × Identity) :=
  match read path with
  | .error fault => .error (.io fault)
  | .ok bytes =>
    match Bytes.toText? bytes with
    | none => .error (.io .invalidData)
    | some text =>
      match Config.ofText text with
      | .error fault => .error (.config fault)
      | .ok c =>
        match c.validate with
        | .error fault => .error (.config fault)
        | .ok () =>
          match Identity.load read c.identityPath with
          | .error fault => .error (.routing fault)
          | .ok identity => .ok (c, identity)

def Config.save (c : Config) (f : Folder) (path : String) : Except SetupFault Folder :=
  match c.toText with
  | .error fault => .error (.config fault)
  | .ok text =>
    match f.write path (Bytes.ofText text) with
    | .error fault => .error (.io fault)
    | .ok f => .ok f

end ZoneRouting

import HeadUnitLink.CommandLine.Plan

/-!
# A folder to run commands in

A `Folder` is the directory in which a command runs, as far as commands can
see it: files by their route from the folder, and the directories that these
routes lead through.  `Plan.runIn` runs a plan in a folder.

A path is followed part by part: `.` stays, `..` goes up, and every part but
the last has to be a directory.  A path that ends in a slash names no file.
Of what lies outside the folder only the directories above it and the null
device are known.
-/

namespace HeadUnitLink

/-- The names that lead from a folder to a file or a directory in it. -/
abbrev Route := List String

/-- A directory with all that is in it. -/
structure Folder where
  /-- The files, each by its route. -/
  files : List (Route × Bytes)
  deriving DecidableEq, Repr

/-- What is found at the end of a path. -/
inductive Place where
  | file (route : Route) (content : Bytes)
  | directory
  /-- Nothing, in a directory that is there. -/
  | vacant (route : Route)
  /-- The device that is empty and takes everything. -/
  | nullDevice
  deriving DecidableEq, Repr

namespace Folder

/-! ## Files by route -/

/-- The file at a route. -/
def get? (folder : Folder) (route : Route) : Option Bytes := folder.files.lookup route

/-- Puts a file at a route. -/
def insert (folder : Folder) (route : Route) (content : Bytes) : Folder :=
  { files := (route, content) :: folder.files.filter fun file => file.1 ≠ route }

/-- Is there a directory at this route? -/
def isDirectory (folder : Folder) (route : Route) : Bool :=
  folder.files.any fun file => route.isPrefixOf file.1 && file.1 ≠ route

/-- What is at a route whose directory is there. -/
def placeAt (folder : Folder) (route : Route) : Place :=
  match folder.get? route with
  | some content => .file route content
  | none => if folder.isDirectory route then .directory else .vacant route

/-! ## Files by path -/

/-- The most bytes of a name. -/
def maxNameSize : Nat := 255

/-- The most bytes of a path. -/
def maxPathSize : Nat := 4095

/-- The names in a path. -/
def parts (path : String) : List String :=
  ((path.toList.splitOnP fun c => c = '/').filter (· ≠ [])).map String.ofList

/-- Does a path end in a slash? -/
def endsInSlash (path : String) : Bool := path.toList.getLast? = some '/'

/-- Follows the names in a path from the directory at `route`, or from the
directory that is `above` steps out of the folder. -/
def follow (folder : Folder) (above : Nat) (route : Route) :
    List String → Except FileFault Place
  | [] => .ok .directory
  | "." :: rest => follow folder above route rest
  | ".." :: rest =>
    if route = [] then follow folder (above + 1) [] rest
    else follow folder above route.dropLast rest
  | name :: rest =>
    if maxNameSize < name.utf8ByteSize then .error .nameTooLong
    else if above ≠ 0 then .error .notFound
    else
      match folder.placeAt (route ++ [name]), rest with
      | place, [] => .ok place
      | .directory, rest => follow folder 0 (route ++ [name]) rest
      | .file _ _, _ => .error .notDirectory
      | _, _ => .error .notFound

/-- Follows a path. -/
def find (folder : Folder) (path : String) : Except FileFault Place :=
  if maxPathSize < path.utf8ByteSize then .error .nameTooLong
  else if path = "/dev/null" then .ok .nullDevice
  else follow folder (if path.toList.head? = some '/' then 1 else 0) [] (parts path)

/-- The content of the file at the end of a path. -/
def read (folder : Folder) (path : String) : Except FileFault Bytes :=
  match folder.find path with
  | .error fault => .error fault
  | .ok .directory => .error .isDirectory
  | .ok (.vacant _) => .error .notFound
  | .ok .nullDevice => .ok []
  | .ok (.file _ content) => if endsInSlash path then .error .notDirectory else .ok content

/-- Writes the file at the end of a path, in place of any older one. -/
def save (folder : Folder) (path : String) (content : Bytes) : Saving × Folder :=
  let put (route : Route) : Saving × Folder :=
    if endsInSlash path then (.notCreated .isDirectory, folder)
    else (.saved, folder.insert route content)
  match folder.find path with
  | .error fault => (.notCreated fault, folder)
  | .ok .directory => (.notCreated .isDirectory, folder)
  | .ok .nullDevice => (.saved, folder)
  | .ok (.vacant route) => put route
  | .ok (.file route _) => put route

end Folder

/-- Runs a plan in a folder. -/
def Plan.runIn (folder : Folder) : Plan → Outcome × Folder
  | done outcome => (outcome, folder)
  | read path next => runIn folder (next (folder.read path))
  | save path content next =>
    let (saving, folder) := folder.save path content
    runIn folder (next saving)

end HeadUnitLink

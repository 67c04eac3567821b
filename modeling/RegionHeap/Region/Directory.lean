import RegionHeap.Region.Basic

/-!
A directory of named files. It has no subdirectories, so a name that leads into one leads nowhere.
A file is lent to the region that maps it and handed back when that region is given up.
-/
namespace RegionHeap

/-- Named files, each name once, in the order of their creation. -/
structure Directory where
  files : List (String × ByteArray) := []

namespace Directory

/-- Bytes of the longest file name. -/
def longestName : Nat := 255

def find? (d : Directory) (name : String) : Option ByteArray :=
  (d.files.find? fun file => file.1 == name).map Prod.snd

/-- Replaces the file of that name, or adds one. -/
def put (d : Directory) (name : String) (contents : ByteArray) : Directory :=
  if d.files.any (fun file => file.1 == name) then
    { files := d.files.map fun file => if file.1 == name then (name, contents) else file }
  else { files := d.files ++ [(name, contents)] }

/-- Why no file can have that name, if none can. -/
def nameFault? (name : String) : Option IoCause :=
  if name.toList.contains '\x00' then some .nameHasNul
  else if name = "" ∨ name = "." ∨ name = ".." then some .isDirectory
  else if name.toList.contains '/' then some .noSuchDirectory
  else if longestName < name.utf8ByteSize then some .nameTooLong
  else none

/-- Replaces the file of that name, or adds one, unless the name is one that no file can have. -/
def write (d : Directory) (name : String) (contents : ByteArray) : Directory :=
  if (nameFault? name).isNone then d.put name contents else d

/-- Maps the file of that name with room for `capacity` bytes and for what it holds. A file that is
missing is created first, and stays when the mapping fails. -/
def mapFile (d : Directory) (host : Host) (name : String) (capacity : Nat) :
    Except Failure MappedFile × Directory :=
  match nameFault? name with
  | some cause => (.error (.refused (.region (.io cause))), d)
  | none =>
    let contents := (d.find? name).getD ByteArray.empty
    let d := if (d.find? name).isNone then d.put name ByteArray.empty else d
    match Size.roundUp? (max (max capacity contents.size) 1) host.page with
    | none => (.error .trap, d)
    | some room =>
      if host.givesRange room then (.ok { name, capacity := room, contents }, d)
      else (.error (.refused (.region .unmappable)), d)

/-- Takes back the file of a region that is given up. -/
def handBack (d : Directory) (r : Region) : Directory :=
  match r.backing with
  | .memory _ => d
  | .file f => d.put f.name f.whole

end Directory

end RegionHeap

import TokenMigration.Text.Utf8

namespace TokenMigration

-- Any bytes are a path. Nothing is normalised: joining and showing a path keep it as it is written.
structure Path where
  bytes : Bytes
  deriving DecidableEq, Repr, Inhabited

namespace Path

def slash : UInt8 := 47

def dot : UInt8 := 46

def ofString (text : String) : Path := ⟨Utf8.encode text⟩

def display (path : Path) : String := Utf8.display path.bytes

@[simp]
theorem display_ofString (text : String) : (ofString text).display = text :=
  Utf8.display_encode text

def isAbsolute (path : Path) : Bool := path.bytes.head? == some slash

def endsWithSlash (path : Path) : Bool := path.bytes.getLast? == some slash

-- The rest must be relative. One slash separates it unless the path is empty or brings its own.
def join (path : Path) (rest : Bytes) : Path :=
  if path.bytes.isEmpty || path.endsWithSlash then ⟨path.bytes ++ rest⟩
  else ⟨path.bytes ++ slash :: rest⟩

-- What a path says from left to right. A slash at the end asks for a directory.
inductive Step where
  | stay
  | up
  | into (name : Bytes)
  | beDirectory
  deriving DecidableEq, Repr

def Step.ofName (name : Bytes) : Step :=
  if name = [dot] then .stay
  else if name = [dot, dot] then .up
  else .into name

def steps (path : Path) : List Step :=
  ((path.bytes.splitOn slash).filter (!·.isEmpty)).map Step.ofName ++
    if path.endsWithSlash then [.beDirectory] else []

end Path

end TokenMigration

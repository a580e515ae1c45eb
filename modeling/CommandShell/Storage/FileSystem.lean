import CommandShell.Storage.Path
import CommandShell.Storage.Utf8

/-!
# Files

A tree of directories, files and databases, and the accesses to it with the faults that they end
in.  Files hold bytes; texts are written in UTF-8 and read back with every line end as a line feed.

## Main definitions

* `Node`: what stands at a path.
* `FileTree`: the nodes of all paths.
* `FileTree.locate`, `FileTree.stat`: the node at a path, or why there is none.
* `FileTree.read`: the text of a file.
* `FileAccess`: accesses that change the tree.
* `FileAccess.makeDirectories`, `FileAccess.write`, `FileAccess.create`, `FileAccess.openDatabase`:
  the changes.
* `unifyLineEnds`: a text with every line end as a line feed.
-/

namespace CommandShell

/-- What stands at a path. -/
inductive Node where
  /-- A directory. -/
  | directory
  /-- A file with its bytes. -/
  | file (bytes : ByteArray)
  /-- The file of a database, whose bytes are not kept. -/
  | database

/-- Whether a node is a directory. -/
def Node.isDirectory : Node → Bool
  | directory => true
  | _ => false

/-- The nodes of all paths but the root directory, which is always there. -/
structure FileTree where
  /-- Each path with its node; no path stands twice. -/
  nodes : List (Path × Node) := []

/-- Some characters with every line end as a line feed. -/
def Chars.unifyLineEnds : List Char → List Char
  | '\r' :: '\n' :: rest => '\n' :: unifyLineEnds rest
  | '\r' :: rest => '\n' :: unifyLineEnds rest
  | c :: rest => c :: unifyLineEnds rest
  | [] => []

/-- A text with every line end as a line feed. -/
def unifyLineEnds (s : String) : String :=
  String.ofList (Chars.unifyLineEnds s.toList)

namespace FileTree

/-- The greatest number of bytes in a name. -/
def maxName : Nat := 255

/-- The number of bytes from which on a path is too long. -/
def maxPath : Nat := 4096

/-- The node that is kept for a path. -/
def node? (t : FileTree) (p : Path) : Option Node :=
  if p.isEmpty then some .directory else (t.nodes.find? (·.1 == p)).map (·.2)

/-- The tree with a node put at a path. -/
def put (t : FileTree) (p : Path) (n : Node) : FileTree :=
  if t.nodes.any (·.1 == p) then ⟨t.nodes.map fun e => if e.1 == p then (p, n) else e⟩
  else ⟨t.nodes ++ [(p, n)]⟩

/-- The node that is reached from the node `here` at `done` by some more names, with its path. -/
def walk (t : FileTree) (done : Path) (here : Node) : List String → Except FileError (Path × Node)
  | [] => .ok (done, here)
  | name :: rest =>
    if !here.isDirectory then .error .notDirectory
    else if name = ".." then t.walk (Path.parent done) .directory rest
    else if maxName < name.utf8ByteSize then .error .nameTooLong
    else
      match t.node? (done ++ [name]) with
      | some next => t.walk (done ++ [name]) next rest
      | none => .error .missing

/-- The nodes below a directory that are not directories themselves, each with its path from there,
in the order of these paths. -/
def below (t : FileTree) (p : Path) : List (String × Node) :=
  let nodes := t.nodes.filter fun e => p.isPrefixOf e.1 && !e.2.isDirectory
  (nodes.map fun e => ("/".intercalate (e.1.drop p.length), e.2)).mergeSort fun a b => a.1 ≤ b.1

/-- The nodes of a tree that an earlier one does not have. -/
def newSince (t earlier : FileTree) : List (Path × Node) :=
  t.nodes.filter fun e =>
    match e.2, earlier.node? e.1 with
    | .directory, some .directory => false
    | .file bytes, some (.file before) => bytes != before
    | .database, some .database => false
    | _, _ => true

/-- The node at a path with its absolute path, or why there is none. -/
def locate (t : FileTree) (p : AccessPath) : Except FileError (Path × Node) :=
  if maxPath ≤ p.text.utf8ByteSize then .error .nameTooLong else t.walk [] .directory p.names

/-- The node at a path, or why there is none. -/
def stat (t : FileTree) (p : AccessPath) : Except FileError Node :=
  (t.locate p).map (·.2)

/-- An answer about the node at a path, which is negative where there is none. -/
def test (t : FileTree) (p : AccessPath) (f : Node → Bool) : Except Fault Bool :=
  if p.hasNull then .ok false
  else
    match t.stat p with
    | .ok n => .ok (f n)
    | .error .nameTooLong => .error (.file .nameTooLong p.text)
    | .error _ => .ok false

/-- Whether something stands at a path. -/
def exists? (t : FileTree) (p : AccessPath) : Except Fault Bool :=
  t.test p fun _ => true

/-- Whether a directory stands at a path. -/
def isDirectory? (t : FileTree) (p : AccessPath) : Except Fault Bool :=
  t.test p Node.isDirectory

/-- The absolute path at which a node can be put where there is none, or why it cannot. -/
def vacancy (t : FileTree) (p : AccessPath) : Except FileError Path :=
  match t.locate p.parent, p.names.getLast? with
  | .ok (directory, _), some name => .ok (directory ++ [name])
  | .ok _, none => .error .present
  | .error e, _ => .error e

/-- The tree with a new directory in an existing one. -/
def makeDirectory (t : FileTree) (p : AccessPath) : Except FileError FileTree :=
  match t.stat p with
  | .ok _ => .error .present
  | .error .missing => (t.vacancy p).map fun path => t.put path .directory
  | .error e => .error e

/-- The bytes of the file at a path. -/
def readBytes (t : FileTree) (p : AccessPath) : Except Fault ByteArray :=
  if p.hasNull then .error .nullInPath
  else
    match t.stat p with
    | .ok (.file bytes) => .ok bytes
    -- The text of a database is not kept in the tree.
    | .ok .database => .ok .empty
    | .ok .directory => .error (.file .isDirectory p.text)
    | .error e => .error (.file e p.text)

/-- The text of the file at a path. -/
def readText (t : FileTree) (p : AccessPath) : Except Fault String := do
  return unifyLineEnds (← decodeUtf8 (← t.readBytes p))

/-- The text of a file that must not be a directory. -/
def read (t : FileTree) (p : AccessPath) : Except Fault String := do
  if ← t.isDirectory? p then throw (.directoryTarget p.text)
  t.readText p

end FileTree

/-! ### Changes of the tree

A change that fails keeps what was done before the failure. -/

/-- An access to the tree that may change it and may fail. -/
abbrev FileAccess (α : Type) := ExceptT Fault (StateM FileTree) α

namespace FileAccess

/-- A question about the tree. -/
def ask {α : Type} (f : FileTree → Except Fault α) : FileAccess α := do
  ExceptT.mk (pure (f (← get)))

/-- Fails if a path holds the character NUL. -/
def refuseNull (p : AccessPath) : FileAccess Unit := do
  if p.hasNull then throw .nullInPath

/-- What follows from an attempt to make a directory: it may exist already. -/
def settleDirectory (p : AccessPath) (e : FileError) : FileAccess Unit := do
  unless (((← get).isDirectory? p).toOption).getD false do throw (.file e p.text)

/-- The directory at a path whose names are given in reverse, and all that lead to it. -/
def makeDirectoriesUp (p : AccessPath) : List String → FileAccess Unit
  | [] => pure ()
  | name :: up => do
    let p := p.withNames (name :: up).reverse
    match (← get).makeDirectory p with
    | .ok made => set made
    -- The directory above is missing, so it is made first and the attempt repeated.
    | .error .missing =>
      makeDirectoriesUp p up
      match (← get).makeDirectory p with
      | .ok made => set made
      | .error .missing => throw (.file .missing p.text)
      | .error e => settleDirectory p e
    | .error e => settleDirectory p e

/-- The directory at a path and all that lead to it. -/
def makeDirectories (p : AccessPath) : FileAccess Unit := do
  refuseNull p
  makeDirectoriesUp p p.written.names.reverse

/-- Puts a text into a file in an existing directory, at its end or in place of what it held. -/
def put (p : AccessPath) (text : String) (append : Bool) : FileAccess Unit := do
  refuseNull p
  let t ← get
  match t.locate p with
  | .ok (_, .directory) => throw (.file .isDirectory p.text)
  | .ok (path, .file bytes) =>
    set (t.put path (.file (if append then bytes ++ text.toUTF8 else text.toUTF8)))
  | .ok (path, .database) => set (t.put path (.file text.toUTF8))
  | .error .missing =>
    match t.vacancy p with
    | .ok path => set (t.put path (.file text.toUTF8))
    | .error e => throw (.file e p.text)
  | .error e => throw (.file e p.text)

/-- Puts a node at an absolute path, and directories on the way to it. -/
def place (p : Path) (n : Node) : FileAccess Unit := do
  makeDirectories (.ofPath p.parent)
  modify (·.put p n)

/-- Writes a text to a file, whose directories are made. -/
def write (p : AccessPath) (text : String) (append : Bool) : FileAccess Unit := do
  if ← ask (·.isDirectory? p) then throw (.directoryTarget p.text)
  makeDirectories p.parent
  put p text append

/-- Makes a new file that holds a text. -/
def create (p : AccessPath) (text : String) : FileAccess Unit := do
  if ← ask (·.exists? p) then throw (.alreadyExists p.text)
  write p text false

/-- The path that stands for a database without a file. -/
def memoryDatabase : String := ":memory:"

/-- The greatest number of bytes in the absolute path of a database. -/
def maxDatabasePath : Nat := 504

/-- The number of bytes that the files beside a database have more in their names. -/
def databaseSuffix : Nat := 8

/-- Opens the database in a file of an existing directory; it is made if it is not there.  A file of
at most one byte counts as empty. -/
def openDatabaseFile (path : Path) : FileAccess Unit := do
  let t ← get
  if maxDatabasePath < path.text.utf8ByteSize then throw .database
  match t.stat (.ofPath path) with
  | .ok .database => pure ()
  | .ok (.file bytes) => if 1 < bytes.size then throw .notDatabase
  | .error .missing => set (t.put path (.file .empty))
  | .ok .directory | .error _ => throw .database
  if FileTree.maxName < (path.getLastD "").utf8ByteSize + databaseSuffix then throw .database
  modify (·.put path .database)

/-- Opens the database in a file; the file and its directories are made if they are not there. -/
def openDatabase (p : AccessPath) : FileAccess Unit := do
  makeDirectories p.parent
  let path ← ask fun _ => p.resolve
  unless p.text = memoryDatabase do openDatabaseFile path

end FileAccess

end CommandShell

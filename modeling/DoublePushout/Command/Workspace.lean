/-!
# `DoublePushout.Command.Workspace`: the files of a command

A command sees a `Workspace`: the files around it and the text of its standard input. It opens the
files that it reads and creates the one that it writes while its arguments are read. What it does
to the files is a new workspace, and the difference of the two is what a caller has to carry out.

Paths are compared by their parts, without empty parts and single dots. A folder exists if it is
listed or a file lies in it. The null device is there in every workspace: it is always empty, and
what is written to it is gone.

A workspace holds texts, and files hold bytes. `textOf` gives the text of any bytes, so that a
file that is not UTF-8 is there like any other and fails where it is read.
-/

set_option autoImplicit false

namespace DoublePushout.Command

/-! ### Bytes -/

/-- What a text shows in place of a byte that is part of no character. It begins with a character
that no escape and no word contains, and goes on with two code units without a partner. So it is
read nowhere, and skipped only in a string. -/
def strayByte : List Char := "\uFFFD\\udc00\\udc00".toList

/-- The characters that bytes encode from a position on. -/
def charsFrom (bytes : ByteArray) (i : Nat) : List Char :=
  if i < bytes.size then
    match bytes.utf8DecodeChar? i with
    | some c => c :: charsFrom bytes (i + c.utf8Size)
    | none => strayByte ++ charsFrom bytes (i + 1)
  else []
termination_by bytes.size - i
decreasing_by
  · have := c.utf8Size_pos
    omega
  · omega

/-- The text that bytes encode. -/
def textOf (bytes : ByteArray) : String :=
  (String.fromUTF8? bytes).getD (String.ofList (charsFrom bytes 0))

/-- Bytes that encode a text are taken for that text. -/
theorem textOf_toByteArray (s : String) : textOf s.toByteArray = s := by
  rw [textOf, String.fromUTF8?, dif_pos s.isValidUTF8]
  rfl

/-! ### Workspaces -/

/-- The files and the standard input of a command. -/
structure Workspace where
  /-- The files: a path and the text for each. -/
  files : List (String × String) := []
  /-- Folders that exist without a file in them. -/
  folders : List String := []
  /-- What is left of the standard input. -/
  stdin : String := ""
  deriving DecidableEq, Repr, Inhabited

/-- What stands before, between and behind the slashes of a path. -/
def segments (path : String) : List String := (path.toList.splitOn '/').map String.ofList

/-- The parts of a path. An absolute path has an empty first part. -/
def pathParts (path : String) : List String :=
  let parts := (segments path).filter fun part => part ≠ "" ∧ part ≠ "."
  if path.startsWith "/" then "" :: parts else parts

/-- The parts of the path of the null device. -/
def nullDevice : List String := ["", "dev", "null"]

/-- Whether a path is short enough to be used: it has less than 4096 bytes, and no part of it has
more than 255. -/
def isShortPath (path : String) : Bool :=
  path.utf8ByteSize < 4096 && (segments path).all (·.utf8ByteSize ≤ 255)

/-- Whether a path can name a file: it is short enough and free of the character NUL, and its last
part is neither missing nor made of dots. -/
def namesFile (path : String) : Bool :=
  isShortPath path && !path.toList.contains '\x00' &&
    match (segments path).getLast? with
    | none | some "" | some "." | some ".." => false
    | some _ => true

/-- Whether two paths are the same. -/
def samePath (a b : String) : Bool := pathParts a = pathParts b

namespace Workspace

/-- The text of a file. -/
def find? (ws : Workspace) (path : String) : Option String :=
  if !namesFile path then none
  else if pathParts path = nullDevice then some ""
  else (ws.files.find? fun f => samePath f.1 path).map (·.2)

/-- Whether a folder exists, given by its parts. -/
def hasFolder (ws : Workspace) (folder : List String) : Bool :=
  folder.isEmpty ||
    ws.files.any (fun f => folder.isPrefixOf (pathParts f.1).dropLast) ||
    ws.folders.any (fun f => folder.isPrefixOf (pathParts f))

/-- Whether a file can be created at a path, or emptied if it is there. -/
def canCreate (ws : Workspace) (path : String) : Bool :=
  namesFile path && (pathParts path = nullDevice ||
    (ws.hasFolder (pathParts path).dropLast && !ws.hasFolder (pathParts path)))

/-- Sets the text of a file. -/
def put (ws : Workspace) (path text : String) : Workspace :=
  if pathParts path = nullDevice then ws
  else if ws.files.any fun f => samePath f.1 path then
    { ws with files := ws.files.map fun f => if samePath f.1 path then (f.1, text) else f }
  else
    { ws with files := ws.files ++ [(String.intercalate "/" (pathParts path), text)] }

/-- The files that are not in an earlier workspace with the same text. -/
def changedSince (ws earlier : Workspace) : List (String × String) :=
  ws.files.filter fun f => earlier.find? f.1 ≠ some f.2

end Workspace

end DoublePushout.Command

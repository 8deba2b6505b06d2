import Exemplar.Fault
import Exemplar.Text.Characters

/-!
# Files

The files that a run reads and writes, as data. A **path** is how a file
is called: the list of its names, dots and doubled separators gone once
a path is read, and two separators in front kept apart from one. A
**place** is where a path leads, and what there is at it is kept by
place, since several paths lead to one.

A walk along the names of a text finds its place as a system would
(`Files.locate`): every name is looked up in a directory that must be
there, two dots lead to the directory above, and a separator at the end
asks for a directory. The directories that are there are those above the
working directory, those that were made, and those that hold something.
-/

namespace Exemplar

/-! ## Paths -/

/-- **A path**: where it starts, and the names on it. -/
structure Path where
  /-- Empty for a path relative to the working directory. -/
  root : String
  parts : List String
  deriving DecidableEq, Repr

namespace Path

/-- The parts of a text between slashes, the empty ones too. -/
def partsOf (s : String) : List String := (s.toList.splitOn '/').map String.ofList

/-- The names in a text, separated by slashes. -/
def namesIn (s : String) : List String :=
  (partsOf s).filter fun part => part ≠ "" ∧ part ≠ "."

/-- **Reads a path.** -/
def ofText (s : String) : Path where
  root := match (s.toList.takeWhile (· == '/')).length with
    | 0 => ""
    | 2 => "//"
    | _ => "/"
  parts := namesIn s

/-- **The text of a path**; the working directory is a point. -/
def text (p : Path) : String :=
  if p.root = "" ∧ p.parts = [] then "." else p.root ++ "/".intercalate p.parts

/-- The path of a name, or of several names with slashes, below a path. -/
def below (p : Path) (name : String) : Path := { p with parts := p.parts ++ namesIn name }

end Path

/-! ## Places -/

/-- **A place**: some directories up from the working directory, or at
the top of all, and from there down along names. -/
structure Place where
  fromTop : Bool := false
  up : Nat := 0
  names : List String := []
  deriving DecidableEq, Repr

namespace Place

/-- The working directory. -/
def working : Place := {}

/-- The place above a place; above the top there is nothing else. -/
def parent (p : Place) : Place :=
  if p.names ≠ [] then { p with names := p.names.dropLast }
  else if p.fromTop then p
  else { p with up := p.up + 1 }

/-- The place of a name below a place. -/
def child (p : Place) (name : String) : Place := { p with names := p.names ++ [name] }

/-- One place lies on the way down to another. -/
def isAbove (p q : Place) : Bool :=
  p.fromTop = q.fromTop && p.up = q.up && p.names.isPrefixOf q.names && p ≠ q

/-- A place inside the working directory. -/
def isInside (p : Place) : Bool := !p.fromTop && p.up = 0

/-- The shortest text that leads to a place. -/
def text (p : Place) : String :=
  let way := List.replicate p.up ".." ++ p.names
  if p.fromTop then "/" ++ "/".intercalate p.names
  else if way.isEmpty then "." else "/".intercalate way

/-- One step along a path on which all directories are there. -/
def along (p : Place) (name : String) : Place :=
  if name = "." then p else if name = ".." then p.parent else p.child name

/-- Where a walk along a text starts. -/
def start (text : String) : Place :=
  if text.toList.head? = some '/' then { fromTop := true } else working

/-- The place that a path leads to if all directories on it are there. -/
def ofPath (p : Path) : Place := p.parts.foldl along (start p.root)

end Place

/-! ## Trouble with files -/

/-- **Why a file cannot be read or written.** -/
inductive FileTrouble where
  | missing
  | notDirectory
  | isDirectory
  | nameTooLong
  /-- There is something at the place of a directory to be made. -/
  | taken
  /-- The path holds the character NUL. -/
  | nul
  deriving DecidableEq, Repr

/-- The wording of the trouble with a path. -/
def FileTrouble.message (path : Path) : FileTrouble → String
  | .missing => s!"[Errno 2] No such file or directory: {Text.quoted path.text}"
  | .taken => s!"[Errno 17] File exists: {Text.quoted path.text}"
  | .notDirectory => s!"[Errno 20] Not a directory: {Text.quoted path.text}"
  | .isDirectory => s!"[Errno 21] Is a directory: {Text.quoted path.text}"
  | .nameTooLong => s!"[Errno 36] File name too long: {Text.quoted path.text}"
  | .nul => "embedded null byte"

/-- The breach that trouble with a path is, where nobody expects it. -/
def FileTrouble.breach (path : Path) (t : FileTrouble) : Breach :=
  let sort := match t with
    | .missing => Breach.Sort.fileMissing
    | .taken => .pathTaken
    | .notDirectory => .notDirectory
    | .isDirectory => .isDirectory
    | .nameTooLong => .fileTrouble
    | .nul => .badValue
  ⟨sort, t.message path⟩

/-! ## The files of a run -/

/-- **The files of a run**, the latest first, and the directories that
were made. -/
structure Files where
  texts : List (Place × String) := []
  made : List Place := []

namespace Files

/-- No files. -/
def none : Files := ⟨[], []⟩

/-- The text of a file, its line breaks as a reader gets them. -/
def read? (fs : Files) (p : Place) : Option String :=
  (fs.texts.find? (·.1 = p)).map fun (_, s) =>
    String.ofList (Text.normalizeBreaks s.toList)

/-- There is a file at a place. -/
def isFile (fs : Files) (p : Place) : Bool := fs.texts.any (·.1 = p)

/-- There is a directory at a place. -/
def isDir (fs : Files) (p : Place) : Bool :=
  p.names = [] || fs.made.any (fun d => d = p || p.isAbove d)
    || fs.texts.any fun (q, _) => p.isAbove q

/-! ### Walking -/

/-- The most bytes that a name may have. -/
def nameLimit : Nat := 255

/-- The most bytes that the text of a path may have. -/
def pathLimit : Nat := 4095

/-- **One step of a walk**: the place of a name in the directory that the
walk has come to. -/
def step (fs : Files) (place : Place) (name : String) : Except FileTrouble Place :=
  if fs.isFile place then .error .notDirectory
  else if !fs.isDir place then .error .missing
  else if name ≠ "." ∧ name ≠ ".." ∧ nameLimit < name.utf8ByteSize then .error .nameTooLong
  else .ok (place.along name)

/-- The names that a walk along a text follows. A separator at the end
counts as one more dot. -/
def stepsOf (text : String) : List String :=
  let names := (Path.partsOf text).filter (· ≠ "")
  if text.toList.getLast? = some '/' then names ++ ["."] else names

/-- **The place that a text leads to**, whatever there is at it. -/
def locate (fs : Files) (text : String) : Except FileTrouble Place :=
  if text.toList.contains (Char.ofNat 0) then .error .nul
  else if text = "" then .error .missing
  else if pathLimit < text.utf8ByteSize then .error .nameTooLong
  else (stepsOf text).foldlM fs.step (Place.start text)

/-- **What a text leads to**: a directory, if the answer is true, or a
file. -/
def leadsToDir (fs : Files) (text : String) : Except FileTrouble Bool := do
  let place ← fs.locate text
  if fs.isDir place then return true
  else if fs.isFile place then return false
  else .error .missing

/-! ### Reading, writing, making directories -/

/-- **Reads a file**, or says why not. -/
def read (fs : Files) (p : Path) : Except FileTrouble String := do
  let place ← fs.locate p.text
  if fs.isDir place then .error .isDirectory
  else match fs.read? place with
    | some s => return s
    | Option.none => .error .missing

/-- The files with the text of one set. -/
def put (fs : Files) (p : Place) (s : String) : Files :=
  { fs with texts := (p, s) :: fs.texts.filter (·.1 ≠ p) }

/-- **Writes a file**, or says why not. -/
def write (fs : Files) (p : Path) (s : String) : Except FileTrouble Files := do
  let place ← fs.locate p.text
  if fs.isDir place then .error .isDirectory else return fs.put place s

/-- **Makes a directory** in one that is there, or says why not. -/
def makeDir (fs : Files) (p : Path) : Except FileTrouble Files := do
  let place ← fs.locate p.text
  if fs.isDir place || fs.isFile place then .error .taken
  else return { fs with made := place :: fs.made }

/-- The files, if there is a directory at a path after all. -/
def despite (fs : Files) (p : Path) (t : FileTrouble) : Except Breach Files :=
  if t = .taken ∧ fs.leadsToDir p.text = .ok true then .ok fs else .error (t.breach p)

/-- Makes a directory and those above it, its names given from the last
one up. -/
def makeDirsUp (fs : Files) (root : String) : List String → Except Breach Files
  | [] => .ok fs
  | name :: above =>
    let p : Path := ⟨root, (name :: above).reverse⟩
    match fs.makeDir p with
    | .ok fs => .ok fs
    | .error .missing => do
      let fs ← fs.makeDirsUp root above
      match fs.makeDir p with
      | .ok fs => .ok fs
      | .error t => fs.despite p t
    | .error t => fs.despite p t

/-- **Makes a directory** and those above it, unless they are there. -/
def makeDirs (fs : Files) (p : Path) : Except Breach Files :=
  fs.makeDirsUp p.root p.parts.reverse

/-- A file that was written is read as it was written, up to its line
breaks. -/
theorem read?_put (fs : Files) (p q : Place) (s : String) :
    (fs.put p s).read? q =
      if p = q then some (String.ofList (Text.normalizeBreaks s.toList)) else fs.read? q := by
  by_cases h : p = q
  · simp [put, read?, h]
  · simp only [put, read?, h, if_false]
    congr 1
    rw [List.find?_cons_of_neg (by simpa using h), List.find?_filter]
    congr 1
    funext x
    by_cases hx : x.1 = q
    · simp [hx, Ne.symm h]
    · simp [hx]

end Files

end Exemplar

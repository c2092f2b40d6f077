set_option autoImplicit false

/-!
# Reading files

Reading a path gives bytes, or tells why there are none. What a file system does
with a path is up to it (`FileSystem`), so nothing is said about where a path
may lead or what it may go through.

One file system that can be written down is a working directory with some files
below it (`FileTree`), where a path of names is read as the file that it leads
to (`FileTree.read_of_file?`). Paths that leave the directory are left to what
is around it.
-/

namespace Pratt

/-- Why a file cannot be read as text. -/
inductive ReadFault where
  /-- The system refuses, with a reason and the number of the reason. -/
  | refused (reason : String) (number : Nat)
  /-- The bytes are not UTF-8. -/
  | notText
  deriving DecidableEq, Repr, Inhabited

namespace ReadFault

/-- Nothing stands at the path. -/
def notFound : ReadFault := .refused "No such file or directory" 2

/-- The path goes through a file. -/
def notDirectory : ReadFault := .refused "Not a directory" 20

/-- A directory stands at the path. -/
def isDirectory : ReadFault := .refused "Is a directory" 21

/-- A fault of reading in one line. -/
def message : ReadFault → String
  | .refused reason number => reason ++ " (os error " ++ toString number ++ ")"
  | .notText => "stream did not contain valid UTF-8"

end ReadFault

/-- The text that bytes hold in UTF-8. -/
def decodeText (bytes : ByteArray) : Except ReadFault String :=
  match String.fromUTF8? bytes with
  | some text => .ok text
  | none => .error .notText

/-- What reading gives at each path. -/
structure FileSystem where
  read : String → Except ReadFault ByteArray

/-! ## A working directory -/

/-- The steps of a path. -/
def pathSteps (path : String) : List String :=
  (path.toList.splitOn '/').map String.ofList

/-- Whether a step leads nowhere else. -/
def isIdleStep (step : String) : Bool := step = "" ∨ step = "."

/-- A working directory with files below it. Each file comes with the steps that
lead to it. The steps of a path that leaves the directory are taken from the
directory above it or from the root. -/
structure FileTree where
  files : List (List String × ByteArray)
  above : List String → Except ReadFault ByteArray
  root : List String → Except ReadFault ByteArray

namespace FileTree

/-- What steps lead to where there is nothing but a directory, which
stands above itself. -/
def nowhere (steps : List String) : Except ReadFault ByteArray :=
  if steps.all fun step => isIdleStep step ∨ step = ".." then .error .isDirectory
  else .error .notFound

/-- The tree of files at relative paths, with nothing around it. -/
def ofFiles (files : List (String × ByteArray)) : FileTree where
  files := files.map fun file =>
    ((pathSteps file.1).filter fun step => !isIdleStep step, file.2)
  above := nowhere
  root := nowhere

/-- The bytes of the file at a place. -/
def file? (tree : FileTree) (place : List String) : Option ByteArray :=
  tree.files.lookup place

/-- Whether a place is the working directory or one of the directories that lead
to a file. -/
def isDirectory (tree : FileTree) (place : List String) : Bool :=
  place.isEmpty || tree.files.any fun file =>
    place.isPrefixOf file.1 && file.1 ≠ place

/-- Takes steps from a place, each of them from a directory, and reads what
stands behind the last one. -/
def readFrom (tree : FileTree) (place : List String) :
    List String → Except ReadFault ByteArray
  | [] =>
    match tree.file? place with
    | some bytes => .ok bytes
    | none => .error .isDirectory
  | step :: steps =>
    if !tree.isDirectory place then .error .notDirectory
    else if isIdleStep step then tree.readFrom place steps
    else if step = ".." then
      if place.isEmpty then tree.above steps else tree.readFrom place.dropLast steps
    else
      let next := place ++ [step]
      if tree.isDirectory next ∨ (tree.file? next).isSome
        then tree.readFrom next steps
      else .error .notFound

/-- Reads what a path leads to. The empty path leads nowhere. -/
def read (tree : FileTree) (path : String) : Except ReadFault ByteArray :=
  match pathSteps path with
  | [""] => .error .notFound
  | "" :: steps => tree.root steps
  | steps => tree.readFrom [] steps

/-- Whether a step leads from a directory to what has this name in it. -/
def isName (step : String) : Bool := !isIdleStep step && step ≠ ".."

section

variable {tree : FileTree} {place steps : List String} {bytes : ByteArray}

/-- What leads to a file is a directory. -/
theorem isDirectory_of_file? {step : String}
    (h : tree.file? (place ++ step :: steps) = some bytes) :
    tree.isDirectory place = true := by
  obtain ⟨front, back, hfiles, -⟩ := List.lookup_eq_some_iff.mp h
  have hmem : (place ++ step :: steps, bytes) ∈ tree.files := by
    rw [hfiles]
    exact List.mem_append_right front List.mem_cons_self
  rw [isDirectory, Bool.or_eq_true, List.any_eq_true]
  exact .inr ⟨_, hmem, by simp⟩

/-- Names that lead to a file lead to its bytes. -/
theorem readFrom_of_file? (hnames : ∀ step ∈ steps, isName step = true)
    (h : tree.file? (place ++ steps) = some bytes) :
    tree.readFrom place steps = .ok bytes := by
  induction steps generalizing place with
  | nil =>
    rw [List.append_nil] at h
    rw [readFrom, h]
  | cons step steps ih =>
    obtain ⟨hname, hnames⟩ := List.forall_mem_cons.mp hnames
    have hplain : isIdleStep step = false ∧ step ≠ ".." := by
      simpa [isName] using hname
    have hnext : tree.file? (place ++ [step] ++ steps) = some bytes := by
      rwa [List.append_assoc]
    have hfound :
        tree.isDirectory (place ++ [step]) = true ∨
          (tree.file? (place ++ [step])).isSome = true := by
      cases steps with
      | nil => exact .inr (by rw [h]; rfl)
      | cons second steps => exact .inl (isDirectory_of_file? hnext)
    rw [readFrom, isDirectory_of_file? h]
    simp only [hplain.1, hplain.2, Bool.not_true, Bool.false_eq_true, if_false,
      if_pos hfound]
    exact ih hnames hnext

/-- A path of names is read as the file that it leads to. -/
theorem read_of_file? {path : String}
    (hnames : ∀ step ∈ pathSteps path, isName step = true)
    (h : tree.file? (pathSteps path) = some bytes) :
    tree.read path = .ok bytes := by
  unfold read
  split
  · next heq =>
    rw [heq] at hnames
    cases hnames "" List.mem_cons_self
  · next heq =>
    rw [heq] at hnames
    cases hnames "" List.mem_cons_self
  · exact readFrom_of_file? hnames h

end

end FileTree

/-- The file system of files at relative paths below a working directory. -/
def FileSystem.ofFiles (files : List (String × ByteArray)) : FileSystem :=
  ⟨(FileTree.ofFiles files).read⟩

end Pratt

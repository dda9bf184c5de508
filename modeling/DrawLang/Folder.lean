/-
DrawLang/Folder.lean

The folder that a command runs in, and what reading a file there gives.

A path is followed name by name from the folder, or from the top if it starts
with `/`.  An empty name and `.` stay where they are, `..` leads to the folder
around, and any other name must stand in the folder that has been reached;
behind a file no name can follow.  Of the folders around only what every
system has is known.

A text that is put into the folder under a plain name is read back
(`read_put`).
-/
import DrawLang.Environment

namespace DrawLang

/-- Why a file cannot be read. -/
inductive Unreadable where
  | missing
  | denied
  /-- A name follows behind a file. -/
  | notFolder
  /-- The path leads to a folder. -/
  | isFolder
  | nameTooLong
  /-- The bytes of the file are no text. -/
  | noText
  deriving DecidableEq, Repr

/-- What a name in a folder stands for. -/
inductive Entry where
  | file (content : ByteArray)
  | folder (entries : List (Text × Entry))

/-- A folder binds names to files and folders. -/
abbrev Folder := Frame Entry

namespace Unreadable

/-- The number that the system has for the reason. -/
def code? : Unreadable → Option Nat
  | .missing => some 2
  | .denied => some 13
  | .notFolder => some 20
  | .isFolder => some 21
  | .nameTooLong => some 36
  | .noText => none

/-- The reason of a number; the others count as missing files. -/
def ofCode (code : Nat) : Unreadable :=
  if code = 13 then .denied
  else if code = 20 then .notFolder
  else if code = 21 then .isFolder
  else if code = 36 then .nameTooLong
  else .missing

theorem ofCode_of_code? {reason : Unreadable} {code : Nat} (h : reason.code? = some code) :
    ofCode code = reason := by
  cases reason <;> simp [code?] at h <;> subst h <;> rfl

/-- The reason in words. -/
def words : Unreadable → Text
  | .missing => "No such file or directory".toList
  | .denied => "Permission denied".toList
  | .notFolder => "Not a directory".toList
  | .isFolder => "Is a directory".toList
  | .nameTooLong => "File name too long".toList
  | .noText => "stream did not contain valid UTF-8".toList

/-- The reason with its number. -/
def message (reason : Unreadable) : Text :=
  reason.words ++
    match reason.code? with
    | some code => " (os error ".toList ++ Nat.toDigits 10 code ++ [')']
    | none => []

end Unreadable

namespace Folder

/-! ### Paths -/

/-- The names of a path. -/
def names : Text → List Text
  | [] => [[]]
  | c :: t =>
    if c = '/' then [] :: names t
    else
      match names t with
      | [] => [[c]]
      | name :: rest => (c :: name) :: rest

/-- The most bytes of a name. -/
def nameLimit : Nat := 255

/-- The most bytes of a path. -/
def pathLimit : Nat := 4095

/-- Follow names from a folder; `around` are the folders that it lies in,
innermost first. -/
def follow : Folder → List Folder → List Text → Except Unreadable Entry
  | here, _, [] => .ok (.folder here)
  | here, around, name :: rest =>
    if name = [] ∨ name = ['.'] then follow here around rest
    else if name = ['.', '.'] then
      match around with
      | [] => follow here [] rest
      | outer :: around => follow outer around rest
    else if nameLimit < name.bytes then .error .nameTooLong
    else
      match here.find? name with
      | none => .error .missing
      | some (.folder inner) => follow inner (here :: around) rest
      | some (.file content) => if rest = [] then .ok (.file content) else .error .notFolder

/-- What every system has at its top: a folder of devices, among them an empty
file, and one for passing use. -/
def top : Folder :=
  [("dev".toList, .folder [("null".toList, .file .empty)]), ("tmp".toList, .folder [])]

/-- The folders around the one that a command runs in. -/
def around : List Folder := [[], top]

/-- What a path leads to. -/
def resolve (here : Folder) (path : Text) : Except Unreadable Entry :=
  if pathLimit < path.bytes then .error .nameTooLong
  else if path.head? = some '/' then follow top [] (names path)
  else follow here around (names path)

/-! ### Files -/

/-- Put a file into the folder. -/
def put (here : Folder) (name : Text) (content : ByteArray) : Folder :=
  here.insert name (.file content)

/-- What stands in the folder, in order. -/
def entryNames (here : Folder) : List Text := here.listing.map Prod.fst

/-- The text of the file that a path leads to. -/
def read (here : Folder) (path : Text) : Except Unreadable Text :=
  match here.resolve path with
  | .error reason => .error reason
  | .ok (.folder _) => .error .isFolder
  | .ok (.file content) =>
    match Text.ofBytes? content with
    | some t => .ok t
    | none => .error .noText

/-- A name that stands for itself in a path. -/
def Plain (name : Text) : Prop :=
  name ≠ [] ∧ name ≠ ['.'] ∧ name ≠ ['.', '.'] ∧ '/' ∉ name ∧ name.bytes ≤ nameLimit

theorem names_of_plain {t : Text} (h : '/' ∉ t) : names t = [t] := by
  induction t with
  | nil => rfl
  | cons c t ih =>
    simp only [List.mem_cons, not_or] at h
    simp [names, Ne.symm h.1, ih h.2]

theorem resolve_put (here : Folder) {name : Text} (h : Plain name) (content : ByteArray) :
    (here.put name content).resolve name = .ok (.file content) := by
  obtain ⟨empty, dot, dots, slash, short⟩ := h
  have long : ¬ pathLimit < name.bytes := by simp only [pathLimit, nameLimit] at *; omega
  have relative : name.head? ≠ some '/' := fun h => slash (List.mem_of_mem_head? h)
  simp [resolve, long, relative, names_of_plain slash, follow, empty, dot, dots,
    Nat.not_lt.2 short, put, Frame.find?_insert]

theorem read_put (here : Folder) {name : Text} (h : Plain name) (t : Text) :
    (here.put name t.toBytes).read name = .ok t := by
  simp [read, resolve_put here h, Text.ofBytes?_toBytes]

end Folder

end DrawLang

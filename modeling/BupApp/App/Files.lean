/-
# BupApp.App.Files -- the files that the server and the clients read and write

The server reads its key from a file, a client keeps the keys it was sent in one.  The functions of
utils.cpp open a file anew for each call.  Two of them do something unexpected with a file that is
not there: `getTxtFromFile` rethrows an exception that does not exist, which ends the process, and
`isTxtExist` returns the literal `""`, a pointer that is not null, as its `bool`.
-/
import BupApp.App.Utils
import Mathlib.Logic.Function.Basic

namespace BupApp

open BupApp.Lib.Text

/-- The files of a machine that the process can open for reading and writing, by their paths. -/
abbrev Files := Str → Option Str

/-- `getFullFilePath` (utils.cpp 126-131). -/
def getFullFilePath (targetFile user : Str) : Str :=
  "/home/".toList ++ user ++ "/".toList ++ targetFile

/-- The loop of `getTxtFromFile` (utils.cpp 174-178). -/
def getChars (ret : Str) : Str → Str
  | [] => ret
  | c :: rest => getChars (ret ++ [c]) rest

/-- `getTxtFromFile` (utils.cpp 154-180); `none` is the `throw;` without an exception to rethrow. -/
def getTxtFromFile (fs : Files) (path : Str) : Option Str :=
  match fs path with
  | none => none
  | some text => some (getChars [] text)

/-- `isTxtExist` (utils.cpp 191-201). -/
def isTxtExist (fs : Files) (txt filePath : Str) : Option Bool :=
  match fs filePath with
  | none => some true          -- `return ("")`
  | some _ => (getTxtFromFile fs filePath).map fun existFile => contains txt existFile

/-- `addStrToFile` (utils.cpp 133-152): the file is opened to append to it, and made if there is
none. -/
def addStrToFile (fs : Files) (strToAppend targetFile user : Str) : Files :=
  Function.update fs (getFullFilePath targetFile user)
    (some ((fs (getFullFilePath targetFile user)).getD [] ++ strToAppend))

theorem getChars_eq (ret text : Str) : getChars ret text = ret ++ text := by
  induction text generalizing ret with
  | nil => simp [getChars]
  | cons c text ih =>
      rw [getChars, ih, List.append_assoc]
      rfl

/-- The file is read as it is. -/
@[simp] theorem getTxtFromFile_eq (fs : Files) (path : Str) : getTxtFromFile fs path = fs path := by
  unfold getTxtFromFile
  cases fs path with
  | none => rfl
  | some text => simp [getChars_eq]

theorem isTxtExist_of_none {fs : Files} {path : Str} (h : fs path = none) (txt : Str) :
    isTxtExist fs txt path = some true := by
  simp only [isTxtExist, h]

theorem isTxtExist_of_some {fs : Files} {path text : Str} (h : fs path = some text) (txt : Str) :
    isTxtExist fs txt path = some (contains txt text) := by
  simp only [isTxtExist, getTxtFromFile_eq, h, Option.map_some]

end BupApp

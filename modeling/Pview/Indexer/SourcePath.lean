import Mathlib.Data.List.Basic

/-!
# Paths of source files

The path that the filepaths table stores for a file.
-/

namespace Pview.Indexer

def stringStartsWith (str pattern : String) : Bool :=
  pattern.toList.isPrefixOf str.toList

/-- `ParseTask::simplify_source_path`: the rewritten path, and whether the file
is taken to belong to the project. -/
def simplifySourcePath (projectRoot filepath : String) : String × Bool :=
  if stringStartsWith filepath projectRoot then
    let minLen := projectRoot.length
    let newPathLen := filepath.length - minLen
    if newPathLen = 0 then
      ("", false)
    else
      (String.ofList (filepath.toList.drop minLen), true)
  else
    (filepath, false)

def kMaxFilePathLen : Nat := 2048
def kTooLongFilePath : String := "FILE_PATH_TOO_LONG"
def kInvalidFileId : Int := -1

/-- The path that `gen_source_location` gives to a location in `file`, and
whether it asks for a file id. -/
def sourceFile (projectRoot file : String) : String × Bool :=
  let (filepath, inProject) := simplifySourcePath projectRoot file
  (if kMaxFilePathLen < filepath.utf8ByteSize then kTooLongFilePath
    else filepath, inProject)

end Pview.Indexer

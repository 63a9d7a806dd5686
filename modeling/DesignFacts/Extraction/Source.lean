import DesignFacts.Disk.Error
import DesignFacts.Extraction.Basic
import DesignFacts.Text.Utf8
import DesignFacts.Tree.Reader

/-!
# Extraction from bytes

The facts of a file, from its bytes in a tree format. A file either gives all its facts or an
error.
-/

namespace DesignFacts

/-- Why a file has no facts. -/
inductive ExtractError where
  /-- The file cannot be read. -/
  | unreadable (path : Text) (e : FileError)
  /-- No reader takes the file. -/
  | unsupported (path : Text)
  /-- The file holds no tree. -/
  | malformed (path : Text) (e : ReadError)
  /-- The file is no text. -/
  | undecodable (path : Text) (e : Utf8.Error)

namespace ExtractError

/-- The file that an error is about. -/
def path : ExtractError → Text
  | unreadable path _ | unsupported path | malformed path _ | undecodable path _ => path

def message : ExtractError → Text
  | unreadable path e => "failed to read ".toList ++ path ++ ": ".toList ++ e.message
  | unsupported path => "no parser registered for ".toList ++ path
  | malformed path e => "failed to parse ".toList ++ path ++ ": ".toList ++ e.message.toList
  | undecodable path e => "parser failed on ".toList ++ path ++ ": ".toList ++ e.message.toList

end ExtractError

def treeOfBytes (file : Text) (format : TreeFormat) (bytes : List UInt8) :
    Except ExtractError Tree := do
  let text ← (Utf8.decode bytes).mapError (.undecodable file)
  (format.readTree text).mapError (.malformed file)

/-- The facts of a file, from its bytes. A fault ends everything. -/
def extractBytes (config : Config) (file : Text) (format : TreeFormat) (bytes : List UInt8) :
    Except Fault (Except ExtractError FileFacts) :=
  match treeOfBytes file format bytes with
  | .error e => .ok (.error e)
  | .ok tree => (extract config file tree.root).map .ok

end DesignFacts

import DesignFacts.Text.Basic

/-!
# File errors

The ways in which a file operation fails, and their texts.
-/

namespace DesignFacts

/-- Why a file operation failed. -/
inductive FileError where
  | notFound
  | notDirectory
  | isDirectory
  | occupied
  /-- A path, or a name in it, is too long. -/
  | tooLong
  /-- A path holds a null character. -/
  | nullInPath
  /-- The content is no text. -/
  | notText
  | other (reason : Text)

def FileError.message : FileError → Text
  | notFound => "No such file or directory (os error 2)".toList
  | notDirectory => "Not a directory (os error 20)".toList
  | isDirectory => "Is a directory (os error 21)".toList
  | occupied => "File exists (os error 17)".toList
  | tooLong => "File name too long (os error 36)".toList
  | nullInPath => "file name contained an unexpected NUL byte".toList
  | notText => "stream did not contain valid UTF-8".toList
  | other reason => reason

end DesignFacts

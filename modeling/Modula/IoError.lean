/-! # Failures of files and devices

What can go wrong outside the texts that are checked: a device that fails in the middle of a
transfer, or a path that cannot be opened. -/

set_option autoImplicit false

namespace Modula

inductive IoError where
  /-- A device vanished while it was read. -/
  | deviceGone
  /-- A bounded store has no room for what is written. -/
  | diskFull
  /-- A store could not hand on what it had taken. -/
  | flushFailed
  | noSuchEntry
  | notDirectory
  | isDirectory
  | noSpace
  | nameTooLong
  | tooManyLinks
  /-- A path holds a byte that no name can hold. -/
  | nulInName
  /-- Anything else, in the words of the system. -/
  | other (message : String)
  deriving DecidableEq, Repr

namespace IoError

def message : IoError → String
  | deviceGone => "device gone"
  | diskFull => "disk full"
  | flushFailed => "flush failed"
  | noSuchEntry => "No such file or directory (os error 2)"
  | notDirectory => "Not a directory (os error 20)"
  | isDirectory => "Is a directory (os error 21)"
  | noSpace => "No space left on device (os error 28)"
  | nameTooLong => "File name too long (os error 36)"
  | tooManyLinks => "Too many levels of symbolic links (os error 40)"
  | nulInName => "file name contained an unexpected NUL byte"
  | other message => message

end IoError
end Modula

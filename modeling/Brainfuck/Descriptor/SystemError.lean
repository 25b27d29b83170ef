/-!
# System errors

The ways in which a call to the operating system fails, with the customary code and
wording of each, and the text that names the failing call.
-/
namespace Brainfuck

inductive Errno where
  | noEntry
  | notDirectory
  | isDirectory
  | nameTooLong
  | badDescriptor
  | accessDenied
  | inputOutput
  deriving DecidableEq, Repr

namespace Errno

def code : Errno → String
  | .noEntry => "ENOENT"
  | .notDirectory => "ENOTDIR"
  | .isDirectory => "EISDIR"
  | .nameTooLong => "ENAMETOOLONG"
  | .badDescriptor => "EBADF"
  | .accessDenied => "EACCES"
  | .inputOutput => "EIO"

def wording : Errno → String
  | .noEntry => "no such file or directory"
  | .notDirectory => "not a directory"
  | .isDirectory => "illegal operation on a directory"
  | .nameTooLong => "name too long"
  | .badDescriptor => "bad file descriptor"
  | .accessDenied => "permission denied"
  | .inputOutput => "i/o error"

end Errno

/-- A failed system call; calls on a path name it. -/
structure SystemError where
  errno : Errno
  call : String
  path : Option String := none
  deriving DecidableEq, Repr

def SystemError.message (e : SystemError) : String :=
  let subject :=
    match e.path with
    | some path => s!" '{path}'"
    | none => ""
  s!"{e.errno.code}: {e.errno.wording}, {e.call}{subject}"

end Brainfuck

namespace Uw7

/-- The error numbers that the modelled routines return. -/
inductive Errno where
  | EPERM
  | ENOENT
  | EINTR
  | EIO
  | E2BIG
  | EAGAIN
  | ENOMEM
  | EACCES
  | EEXIST
  | ENOTDIR
  | EINVAL
  | ENFILE
  | EFBIG
  | ENOSPC
  deriving DecidableEq

end Uw7

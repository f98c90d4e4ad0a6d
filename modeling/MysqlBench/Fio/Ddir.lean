/-!
# `io_ddir.h` — data directions
-/

namespace MysqlBench.Fio

/-- `enum fio_ddir`, in the order of its values from `DDIR_READ = 0`; `DDIR_INVAL` is -1. -/
inductive Ddir where
  | read
  | write
  | trim
  | sync
  | datasync
  | syncFileRange
  | wait
  | inval
deriving Repr, DecidableEq

def ddirSync : Ddir → Bool
  | .sync | .datasync | .syncFileRange => true
  | _ => false

end MysqlBench.Fio

import Mathlib.Init

namespace AbyssBackend

inductive DatabaseError
  | check
  | unique
  | foreignKey
  | notFound
  | overflow
deriving DecidableEq, Repr

inductive AppError
  | database (error : DatabaseError)
  | notFound (message : String)
  | validation (message : String)
  | internal (message : String)
deriving DecidableEq, Repr

end AbyssBackend

-- SUMMARY: Single byte accesses to memory, as logs and traffic records keep them.

namespace Handheld

/-! ## Accesses -/

/-- Whether an access reads or writes. -/
inductive Access.Kind where
  | read
  | write
deriving DecidableEq, Repr

instance : ToString Access.Kind where
  toString | .read => "Read" | .write => "Write"

/-- One byte read from or written to an address. -/
structure Access where
  kind : Access.Kind := .read
  address : UInt16 := 0
  value : UInt8 := 0
deriving DecidableEq, Repr, Inhabited

end Handheld

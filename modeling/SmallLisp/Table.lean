import SmallLisp.Fault
import SmallLisp.Value.Entries.Many

/-! # Writing to tables

A key that cannot be one is a fault wherever entries are written: when a table is read, evaluated
or made by a builtin.
-/
namespace SmallLisp

def writeEntries (entries : Entries) (pairs : List (Value × Value)) : Except Fault Entries :=
  (entries.insertMany pairs).mapError fun key => .kind (.unusableKey key)

end SmallLisp

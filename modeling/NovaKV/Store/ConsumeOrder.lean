import NovaKV.Store.Merge

open Std
open NovaKV.Lib

namespace NovaKV

section

variable {l0 l1 : List SSTableReader} {ids done : List Nat} {key : Key}

end

end NovaKV

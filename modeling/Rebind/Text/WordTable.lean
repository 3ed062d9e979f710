/-
The word characters beyond the ASCII ones, as ranges of code points: letters, and numerals of
every kind.
-/
import Rebind.Text.LetterTable

namespace Rebind.Text

def wordTable : Table :=
  letterTable ++ .spelled
    ["d225123oW1pU:c2:dF:i@:bN:46bD:bN:bN:26bF=bK:87b?:b@77CbE:aG1L:b11L:aJDf4:aJ:p?DyG:6:F:fT:bX;cQ:6:d6:aZ:c2:6:wR1366:dFa>pFa@aRFn>NaeE1fY1sN4c6:N81?P:W?yu<:kR6cF:V:dF:F:aZ:i::qyP6i:2bL519c=:c02h7a1aE4A2gQKT4hL:uB8I7W9aOQcLD2a2aD9a82N3aO5b@8H8Y7gF6a4:fNOcJ:Z4bH7c2NbX:a@:c<:7DeO:gR:bN:hF:b>:b><iHCb5:q:Me7:aJ:l6EpqO:aZ:c2:17r6GvkEDbDIy9a6baT:iJ:agQ9bX:q[a?1314aPa11?uV=bk?:"]

end Rebind.Text

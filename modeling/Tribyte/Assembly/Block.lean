import Tribyte.Source.Statement

/-! Blocks: runs of statements whose object code fills one text record.

Blocks are filled greedily. A statement without object code ends a block, and so does one that would take
it past `blockSize` bytes. -/
namespace Tribyte

/-- The blocks of `statements` after an open block, whose object code takes `size` bytes. -/
def blocksFrom (block : List Statement) (size : Nat) : (statements : List Statement) → List (List Statement)
  | [] => if block = [] then [] else [block]
  | s :: rest =>
    if !s.hasCode then
      if block = [] then blocksFrom [] 0 rest else block :: blocksFrom [] 0 rest
    else if blockSize < size + s.size ∧ block ≠ [] then
      block :: blocksFrom [s] s.size rest
    else blocksFrom (block ++ [s]) (size + s.size) rest

def blocks (statements : List Statement) : List (List Statement) := blocksFrom [] 0 statements

end Tribyte

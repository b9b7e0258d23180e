import TapeMachine.Program

/-!
# Jump tables

Each bracket of a program is mapped to the index of its match. The table is built in one pass over
the instructions with a stack of the brackets that are still open. A closing bracket with nothing
open makes it fail; an opening bracket that is never closed has no entry.
-/

namespace TapeMachine

/-- For each index of a program, the index of the matching bracket. -/
structure JumpTable where
  targets : Array (Option Nat)
  deriving DecidableEq, Repr, Inhabited

namespace JumpTable

/-- Two brackets are mapped to each other. -/
def link (t : Array (Option Nat)) (i j : Nat) : Array (Option Nat) :=
  (t.setIfInBounds i (some j)).setIfInBounds j (some i)

/-- Match the brackets from index `i` on. `pending` holds the indices of the open brackets, the
innermost first. -/
def build (i : Nat) (pending : List Nat) (t : Array (Option Nat)) :
    List Instruction → Option (Array (Option Nat))
  | [] => some t
  | ins :: rest =>
    match ins.opcode with
    | .beginLoop => build (i + 1) (i :: pending) t rest
    | .endLoop =>
      match pending with
      | [] => none
      | j :: pending => build (i + 1) pending (link t j i) rest
    | _ => build (i + 1) pending t rest

/-- The jump table of a program; none if a closing bracket has no match. -/
def ofProgram? (p : Program) : Option JumpTable :=
  (build 0 [] (Array.replicate p.size none) p.instructions.toList).map JumpTable.mk

/-- The match of the bracket at an index. Negative indices have none. -/
def target? (t : JumpTable) : Int → Option Nat
  | .ofNat i => t.targets[i]?.join
  | .negSucc _ => none

/-- The entries, by increasing index. -/
def entries (t : JumpTable) : List (Nat × Nat) :=
  t.targets.toList.zipIdx.filterMap fun (j, i) => j.map fun j => (i, j)

end JumpTable

end TapeMachine

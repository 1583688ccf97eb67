namespace TypedLoader

inductive BuildContext where
  | top (tree : Nat) (name : String)
  | child (parent : BuildContext) (name : String)
deriving DecidableEq, Inhabited

namespace BuildContext

def name : BuildContext → String
  | top _ name => name
  | child _ name => name

def parent? : BuildContext → Option BuildContext
  | top .. => none
  | child parent _ => some parent

def root : BuildContext → BuildContext
  | top tree name => top tree name
  | child parent _ => parent.root

def tree : BuildContext → Nat
  | top tree _ => tree
  | child parent _ => parent.tree

end BuildContext

end TypedLoader

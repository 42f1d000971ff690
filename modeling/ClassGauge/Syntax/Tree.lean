/-! # Syntax trees

A syntax tree of a source file as a grammar builds it: every node has a kind, may be a named node
or an anonymous token, may play a labelled role in its parent, and carries the text it covers and
the line on which it starts.

* `Tree.descendants`: every node strictly below a tree, in pre-order, each with the kind of its
  parent;
* `Tree.child?`: the child that plays a given role.
-/

namespace ClassGauge.Syntax

/-- The role that a child plays in its parent. -/
inductive Role where
  | name
  | body
  | value
  | parameters
  | pattern
  | declaration
  | function
  deriving DecidableEq, Repr

/-- What a grammar says about one node, its children apart. -/
structure Label where
  /-- The grammar's word for this sort of node; for a token, usually its text. -/
  kind : String
  /-- Operators, punctuation and keywords are tokens; all other nodes are named. -/
  named : Bool
  /-- The role in the parent, if it has one. -/
  role : Option Role
  /-- The line of the first character, counted from 1. -/
  line : Nat
  /-- The source text covered by the node. -/
  text : String
  deriving DecidableEq, Repr

/-- An ordered tree of labels. -/
inductive Tree where
  | node (label : Label) (children : List Tree)

namespace Tree

def label : Tree → Label
  | .node l _ => l

def children : Tree → List Tree
  | .node _ cs => cs

def kind (t : Tree) : String := t.label.kind

def isToken (t : Tree) : Bool := !t.label.named

def role (t : Tree) : Option Role := t.label.role

def line (t : Tree) : Nat := t.label.line

/-- The source text covered by the tree. -/
def text (t : Tree) : String := t.label.text

def child? (t : Tree) (r : Role) : Option Tree :=
  t.children.find? (·.role = some r)

@[simp] theorem label_node (l : Label) (cs : List Tree) : (node l cs).label = l := rfl

@[simp] theorem children_node (l : Label) (cs : List Tree) : (node l cs).children = cs := rfl

end Tree

/-- A node as a walk meets it: a subtree together with the kind of its parent. -/
structure Node where
  /-- The kind of the parent, `none` at the root of a file. -/
  parent : Option String
  /-- The subtree that starts at the node. -/
  tree : Tree

namespace Node

def children (n : Node) : List Node :=
  n.tree.children.map (⟨some n.tree.kind, ·⟩)

end Node

mutual

/-- Every node strictly below `t`, in pre-order. -/
def Tree.descendants : Tree → List Node
  | .node l cs => forestNodes l.kind cs

/-- Every node of a row of siblings below a parent of kind `parent`, in pre-order. -/
def forestNodes (parent : String) : List Tree → List Node
  | [] => []
  | t :: ts => ⟨some parent, t⟩ :: (t.descendants ++ forestNodes parent ts)

end

mutual

def Tree.size : Tree → Nat
  | .node _ cs => 1 + forestSize cs

def forestSize : List Tree → Nat
  | [] => 0
  | t :: ts => t.size + forestSize ts

end

@[simp] theorem forestNodes_nil (k : String) : forestNodes k [] = [] := rfl

@[simp] theorem forestNodes_cons (k : String) (t : Tree) (ts : List Tree) :
    forestNodes k (t :: ts) = ⟨some k, t⟩ :: (t.descendants ++ forestNodes k ts) := rfl

namespace Node

/-- Every node strictly below `n`, in pre-order. -/
def descendants (n : Node) : List Node :=
  n.tree.descendants

end Node

end ClassGauge.Syntax

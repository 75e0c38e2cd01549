import Concord.Profile.Flow

/-!
# Data dependencies

Which names the value of a name is computed from, and how long a chain of such steps can be. Names
that depend on each other in a circle count as one link of a chain: they are put into one group, and
chains are measured in the graph of these groups.
-/

namespace Concord

namespace Dependency

/-- A graph of names: each key with the names it depends on, in increasing order. -/
abbrev Graph := List (String × TextSet)

/-- Add the names that `target` depends on. -/
def addEdges (target : String) (sources : TextSet) : Graph → Graph
  | [] => [(target, sources)]
  | (k, s) :: rest =>
    if target < k then (target, sources) :: (k, s) :: rest
    else if target = k then (k, Names.union sources s) :: rest
    else (k, s) :: addEdges target sources rest

/-- The names an expression reads, without the built-in ones. -/
def reads (e : Expr) : TextSet := e.names.filter (!isBuiltin ·)

/-- The dependencies that a statement itself introduces: the names it binds and those it reads. -/
def ofStmt : Stmt → List (String × TextSet)
  | .assign targets value _ => targets.flatMap fun t => t.targetNames.map (·, reads value)
  | .augAssign target _ value =>
    target.targetNames.map (·, Names.union (reads target) (reads value))
  | .forLoop target iter _ _ => target.targetNames.map (·, reads iter)
  | _ => []

/-- The dependencies of all functions of a module. -/
def graphOf (m : Module) : Graph :=
  ((m.functionSites fun _ _ => true).flatMap fun (b, i) => (b[i]?.map ofStmt).getD []).foldl
    (fun g (target, sources) => addEdges target sources g) []

/-! ### Groups of names -/

/-- The names of a graph, and an edge from each name to every other one that it depends on. -/
structure NameGraph where
  nodes : TextSet
  edges : List (String × String)

/-- The names and the edges of a graph. -/
def nameGraph (g : Graph) : NameGraph where
  nodes := Names.ofList (g.flatMap fun (target, sources) => target :: sources)
  edges := g.flatMap fun (target, sources) => (sources.filter (· != target)).map (target, ·)

/-- What the edges of a graph lead to from a node. -/
def targets {α : Type} [BEq α] (edges : List (α × α)) (a : α) : List α :=
  (edges.filter (·.1 == a)).map (·.2)

/-- The names that a name leads to, in a graph that lists them. -/
def ledTo (closed : Graph) (a : String) : TextSet := (closed.lookup a).getD []

/-- Let every name that leads to `pivot` lead to what `pivot` leads to as well. -/
def closeThrough (closed : Graph) (pivot : String) : Graph :=
  let beyond := ledTo closed pivot
  closed.map fun (a, names) => (a, if names.contains pivot then Names.union beyond names else names)

/-- Every name with itself and the names that an edge leads to from it. -/
def NameGraph.neighbours (n : NameGraph) : Graph :=
  n.nodes.map fun a => (a, Names.ofList (a :: targets n.edges a))

/-- Every name with all names that edges lead to from it, itself included. -/
def NameGraph.closure (n : NameGraph) : Graph := n.nodes.foldl closeThrough n.neighbours

/-- The names that a name leads to and that lead back to it. -/
def NameGraph.group (n : NameGraph) (closed : Graph) (a : String) : TextSet :=
  n.nodes.filter fun b => (ledTo closed a).contains b && (ledTo closed b).contains a

/-- The different groups, each in the place of its first name. -/
def NameGraph.groups (n : NameGraph) (closed : Graph) : List TextSet :=
  (n.nodes.filter fun a => (n.group closed a).head? == some a).map (n.group closed)

/-- A graph of groups of names. An edge goes from one position in the list of groups to another. -/
structure Condensed where
  groups : List TextSet
  edges : List (Nat × Nat)

/-- The position of the first group with a name. -/
def position (groups : List TextSet) (a : String) : Nat := groups.findIdx (·.contains a)

/-- The groups of names that lead to each other, and the edges between different groups. -/
def condense (n : NameGraph) : Condensed :=
  let groups := n.groups n.closure
  let joined := n.edges.map fun (a, b) => (position groups a, position groups b)
  { groups, edges := joined.filter fun (i, j) => i != j }

/-! ### Chains -/

namespace Condensed

variable (c : Condensed)

/-- Whether an edge leads to a position from one of `rest`. -/
def isHeld (rest : List Nat) (i : Nat) : Bool := c.edges.any fun (j, k) => k == i && rest.contains j

/-- The positions `rest` in an order in which none has an edge to an earlier one, found in so many
rounds: each takes those out of the rest to which no edge leads from the rest. -/
def sortFrom : Nat → List Nat → Option (List Nat)
  | _, [] => some []
  | 0, _ :: _ => none
  | rounds + 1, i :: is =>
    let rest := i :: is
    (sortFrom rounds (rest.filter (c.isHeld rest))).map (rest.filter (!c.isHeld rest ·) ++ ·)

/-- All positions in an order in which none has an edge to an earlier one; missing if some edges go
round in a circle. -/
def sort : Option (List Nat) := c.sortFrom c.groups.length (List.range c.groups.length)

/-- The number of edges in the longest chain from each position, filled in from the end of an order
in which every position comes before those that its edges lead to. -/
def chainLengths (order : List Nat) : List Nat :=
  order.foldr
    (fun i longest => longest.set i (((targets c.edges i).map (longest.getD · 0 + 1)).foldl max 0))
    (List.replicate c.groups.length 0)

end Condensed

/-- The number of steps in the longest chain of groups, given a way to find the groups and a way to
put them in order. -/
def longestChainBy (condense : NameGraph → Condensed) (sort : Condensed → Option (List Nat))
    (g : Graph) : Nat :=
  let c := condense (nameGraph g)
  match sort c with
  | none => 0
  | some order => (c.chainLengths order).foldl max 0

/-- The number of steps in the longest chain of dependencies. -/
def longestChain (g : Graph) : Nat := longestChainBy condense Condensed.sort g

end Dependency

/-- The dependencies between the names of a module. -/
def Module.dataDependency (m : Module) : DataDependency where
  edges := Dependency.graphOf m
  maxChain := Dependency.longestChain (Dependency.graphOf m)
  deadStores := (Idiom.deadStoreSites m).length

end Concord

import NovaKV.Lib.SortedMap

open Std
open NovaKV.Lib

namespace NovaKV

/-- A node of a skip list with its successor on each of its levels. -/
structure Node (K V : Type) where
  key : K
  value : V
  next : List (Option Nat)

/-- The nodes by address. -/
abbrev Heap (K V : Type) := List (Option (Node K V))

section

variable {K V : Type}

def Heap.node? (heap : Heap K V) (address : Nat) : Option (Node K V) := heap[address]?.join

/-- The pointer `next[i]` of the node at an address. -/
def Heap.next (heap : Heap K V) (address i : Nat) : Option Nat :=
  (heap.node? address).bind fun node => node.next[i]?.join

def Heap.set_next (heap : Heap K V) (address i : Nat) (link : Option Nat) : Heap K V :=
  heap.modify address (Option.map fun node => { node with next := node.next.set i link })

end

/-- A skip list. The sentinel `head` is at address 0. The count is an `int`, which wraps. -/
structure SkipList (K V : Type) where
  max_level : Nat
  current_level : Nat
  nodes : Heap K V
  node_count : Int32

/-- The loop of `get_random_level` from a level on: `draws` says which of the random
numbers are below one half. -/
def grow_level (max_level : Nat) : List Bool → Nat → Nat
  | [], level => level
  | draw :: draws, level =>
    if draw && level < max_level then grow_level max_level draws (level + 1) else level

def get_random_level (max_level : Nat) (draws : List Bool) : Nat := grow_level max_level draws 1

theorem grow_level_bounds {max_level level : Nat} (draws : List Bool) (hlevel : level ≤ max_level) :
    level ≤ grow_level max_level draws level ∧ grow_level max_level draws level ≤ max_level := by
  induction draws generalizing level with
  | nil => exact ⟨Nat.le_refl _, hlevel⟩
  | cons draw draws ih =>
    rw [grow_level]
    split
    · rename_i hgrow
      simp only [Bool.and_eq_true, decide_eq_true_eq] at hgrow
      have hrest := ih (Nat.succ_le_of_lt hgrow.2)
      exact ⟨(Nat.le_succ _).trans hrest.1, hrest.2⟩
    · exact ⟨Nat.le_refl _, hlevel⟩

section

variable {K V : Type}

def SkipList.new [Inhabited K] [Inhabited V] (max_level : Nat) : SkipList K V where
  max_level := max_level
  current_level := 0
  nodes := [some ⟨default, default, List.replicate max_level none⟩]
  node_count := 0

def SkipList.size (self : SkipList K V) : Int32 := self.node_count

variable [Ord K]

/-- Move right on level `i` while the next key is smaller. A dangling pointer and a
walk that does not end give nothing. -/
def SkipList.advance (self : SkipList K V) (key : K) (i : Nat) : Nat → Nat → Option Nat
  | 0, _ => none
  | fuel + 1, curr =>
    match self.nodes.next curr i with
    | none => some curr
    | some other => do
      let node ← self.nodes.node? other
      if compare node.key key = .lt then self.advance key i fuel other else some curr

/-- The loop of `insert_element` over the levels below `i`, downwards: the last node on
the way and the predecessors found. -/
def SkipList.predecessors (self : SkipList K V) (key : K) : Nat → Nat → List Nat → Option (Nat × List Nat)
  | 0, curr, update => some (curr, update)
  | i + 1, curr, update => do
    let curr ← self.advance key i self.nodes.length curr
    self.predecessors key i curr (update.set i curr)

/-- The loop that links a new node into its levels. -/
def Heap.link (heap : Heap K V) (update : List Nat) (new_node level : Nat) : Heap K V :=
  (List.range level).foldl (fun heap i =>
    let heap := heap.set_next new_node i (heap.next (update.getD i 0) i)
    heap.set_next (update.getD i 0) i (some new_node)) heap

/-- The node behind `curr` on the bottom level, if its key is the given one. -/
def SkipList.matching (self : SkipList K V) (key : K) (curr : Nat) : Option (Option Nat) :=
  match self.nodes.next curr 0 with
  | none => some none
  | some other => do
    let node ← self.nodes.node? other
    return if compare node.key key = .eq then some other else none

def SkipList.insert_element (self : SkipList K V) (key : K) (value : V) (draws : List Bool) :
    Option (SkipList K V) := do
  let (curr, update) ← self.predecessors key self.current_level 0 (List.replicate self.max_level 0)
  match ← self.matching key curr with
  | some address =>
    return { self with
      nodes := self.nodes.modify address (Option.map fun node => { node with value := value }) }
  | none =>
    let level := get_random_level self.max_level draws
    let update := (List.range' self.current_level (level - self.current_level)).foldl
      (fun update i => update.set i 0) update
    let new_node := self.nodes.length
    return { self with
      current_level := max self.current_level level
      nodes := Heap.link (self.nodes ++ [some ⟨key, value, List.replicate level none⟩]) update new_node level
      node_count := self.node_count + 1 }

/-- The loop of `search_element`. -/
def SkipList.descend (self : SkipList K V) (key : K) : Nat → Nat → Option Nat
  | 0, curr => some curr
  | i + 1, curr => do
    let curr ← self.advance key i self.nodes.length curr
    self.descend key i curr

/-- `search_element`: the value found, or nothing when it returns false. -/
def SkipList.search_element (self : SkipList K V) (key : K) : Option (Option V) := do
  let curr ← self.descend key self.current_level 0
  match ← self.matching key curr with
  | some address => return (self.nodes.node? address).map Node.value
  | none => return none

/-- The loop of `delete_element` over the levels from `i` on, `count` of them: it stops at
the first level the node is not linked into. -/
def Heap.unlink (heap : Heap K V) (update : List Nat) (del_node : Nat) : Nat → Nat → Heap K V
  | 0, _ => heap
  | count + 1, i =>
    if heap.next (update.getD i 0) i ≠ some del_node then heap
    else (heap.set_next (update.getD i 0) i (heap.next del_node i)).unlink update del_node count (i + 1)

/-- The loop that lowers the level while the head has no successor there. -/
def Heap.lowered (heap : Heap K V) : Nat → Nat
  | 0 => 0
  | level + 1 => if heap.next 0 level = none then heap.lowered level else level + 1

/-- `delete_element`, and what it returns. The slot of a deleted node stays empty. -/
def SkipList.delete_element (self : SkipList K V) (key : K) : Option (SkipList K V × Bool) := do
  let (curr, update) ← self.predecessors key self.current_level 0 (List.replicate self.max_level 0)
  match ← self.matching key curr with
  | none => return (self, false)
  | some del_node =>
    let nodes : Heap K V := (self.nodes.unlink update del_node self.current_level 0).set del_node none
    return ({ self with
      current_level := nodes.lowered self.current_level
      nodes := nodes
      node_count := self.node_count - 1 }, true)

omit [Ord K] in
/-- What an iterator shows from a node to the end. -/
def SkipList.rows (self : SkipList K V) : Nat → Option Nat → Option (List (K × V))
  | _, none => some []
  | 0, some _ => none
  | fuel + 1, some address => do
    let node ← self.nodes.node? address
    let rest ← self.rows fuel (self.nodes.next address 0)
    return (node.key, node.value) :: rest

omit [Ord K] in
/-- All rows from `begin()` on. -/
def SkipList.iterate (self : SkipList K V) : Option (List (K × V)) :=
  self.rows self.nodes.length (self.nodes.next 0 0)

end

end NovaKV

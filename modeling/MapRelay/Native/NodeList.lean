/-!
# The C list of `list.c`

A `List` of the source is a chain of `Node_list` cells with a separate `count`.
The model keeps both: `nodes` is the data found by walking from `head`, and
`count` is the stored counter, which not every operation of the source maintains.
-/

namespace MapRelay

/-- `struct List`: the data reachable from `head`, in order, and `count`. -/
structure NodeList (α : Type) where
  nodes : List α
  count : Int
  deriving DecidableEq, Repr

variable {α : Type}

/-- `list_create`. -/
def listCreate : NodeList α := ⟨[], 0⟩

/-- `list_add_data`: the new node becomes the head. -/
def listAddData (l : NodeList α) (data : α) : NodeList α :=
  ⟨data :: l.nodes, l.count + 1⟩

/-- `list_add_data_tail`: the new node goes after the last one. -/
def listAddDataTail (l : NodeList α) (data : α) : NodeList α :=
  ⟨l.nodes ++ [data], l.count + 1⟩

/-- `list_add_data_sorted`: the new node goes in front of the first node that `cmp` does not
    put before it. -/
def listAddDataSorted (cmp : α → α → Int) (l : NodeList α) (data : α) : NodeList α :=
  ⟨l.nodes.takeWhile (cmp · data < 0) ++ data :: l.nodes.dropWhile (cmp · data < 0), l.count + 1⟩

/-- `list_remove_data`. `node` is the place of the first node that holds the pointer; without
    one nothing happens. -/
def listRemoveData (l : NodeList α) : Option Nat → NodeList α
  | some i => if i < l.nodes.length then ⟨l.nodes.eraseIdx i, l.count - 1⟩ else l
  | none => l

/-- Unlink the first node whose data satisfies `p` by hand, as the loops of
    `graph.cc` do. `count` is left alone. -/
def NodeList.unlinkFirst (l : NodeList α) (p : α → Bool) : NodeList α :=
  { l with nodes := l.nodes.eraseP p }

/-- A new list has no nodes. -/
@[simp] theorem nodes_listCreate : (listCreate : NodeList α).nodes = [] := rfl

/-- `list_add_data` puts the node in front. -/
@[simp] theorem nodes_listAddData (l : NodeList α) (data : α) :
    (listAddData l data).nodes = data :: l.nodes := rfl

/-- `list_add_data_tail` puts it at the end. -/
@[simp] theorem nodes_listAddDataTail (l : NodeList α) (data : α) :
    (listAddDataTail l data).nodes = l.nodes ++ [data] := rfl

/-- Unlinking takes out the first match. -/
@[simp] theorem nodes_unlinkFirst (l : NodeList α) (p : α → Bool) :
    (l.unlinkFirst p).nodes = l.nodes.eraseP p := rfl

end MapRelay

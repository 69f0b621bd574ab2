import Psign.CodeLib.Outcome
import Mathlib.Data.List.Nodup
import Mathlib.Data.List.Range
import Mathlib.Data.List.Infix

/-!
# Depth-first numbering with keys

A builder that numbers items depth first.  Items have keys; an item whose key is
known already is not visited again, its number is reused.  Any other item gets the
next number, then its children are visited, and each child gets an edge to it.
What the children of an item are may be found out on the way, and may fail; the
children need not end, so a visit takes fuel.

An item can occur several times.  `Occurs` gives an occurrence the path that leads
to it, the last step in front.  The lemmas say what a successful run has built:

* keys are always unique among the nodes (`Keyed`);
* where different occurrences have different keys, the nodes are the occurrences,
  and the edges lead from each child to its parent (`Numbering`).
-/

namespace CodeLib.Traversal

/-- An edge between numbered nodes. -/
structure Edge where
  before : ℕ
  after : ℕ
  deriving DecidableEq, Repr

/-- What is built: nodes, edges, and the numbers of the keys. -/
structure Graph (κ ν : Type) where
  nodes : List ν
  edges : List Edge
  ids : List (κ × ℕ)
  deriving DecidableEq

namespace Graph

variable {κ ν : Type}

/-- Nothing is built yet. -/
def empty : Graph κ ν := ⟨[], [], []⟩

/-- Add a node under a key. -/
def push (g : Graph κ ν) (key : κ) (node : ν) : Graph κ ν :=
  { g with nodes := g.nodes ++ [node], ids := (key, g.nodes.length) :: g.ids }

/-- The number of a key. -/
def idOf [DecidableEq κ] (g : Graph κ ν) (key : κ) : Option ℕ := g.ids.lookup key

/-- Add an edge. -/
def link (g : Graph κ ν) (edge : Edge) : Graph κ ν :=
  { g with edges := g.edges ++ [edge] }

@[simp] theorem push_nodes (g : Graph κ ν) (key : κ) (node : ν) :
    (g.push key node).nodes = g.nodes ++ [node] := rfl

@[simp] theorem push_edges (g : Graph κ ν) (key : κ) (node : ν) :
    (g.push key node).edges = g.edges := rfl

@[simp] theorem idOf_empty [DecidableEq κ] (key : κ) : (empty : Graph κ ν).idOf key = none := rfl

theorem idOf_push [DecidableEq κ] (g : Graph κ ν) (key : κ) (node : ν) (key' : κ) :
    (g.push key node).idOf key' = if key' = key then some g.nodes.length else g.idOf key' := by
  show List.lookup key' ((key, g.nodes.length) :: g.ids) = _
  rw [List.lookup_cons]
  by_cases h : key' = key
  · simp [h]
  · rw [if_neg h, beq_eq_false_iff_ne.mpr h]
    rfl

@[simp] theorem link_nodes (g : Graph κ ν) (edge : Edge) : (g.link edge).nodes = g.nodes := rfl

@[simp] theorem link_edges (g : Graph κ ν) (edge : Edge) :
    (g.link edge).edges = g.edges ++ [edge] := rfl

@[simp] theorem idOf_link [DecidableEq κ] (g : Graph κ ν) (edge : Edge) (key : κ) :
    (g.link edge).idOf key = g.idOf key := rfl

end Graph

/-- What is numbered: the key of an item, its node for a number, and its children. -/
structure Rules (α κ ν : Type) where
  key : α → κ
  node : ℕ → α → Outcome ν
  children : α → Outcome (List α)

section

variable {α κ ν : Type} [DecidableEq κ]

/-- Visit children and link them to their parent. -/
def visitAll (visit : Graph κ ν → α → Outcome (Graph κ ν × ℕ)) (parent : ℕ) :
    List α → Graph κ ν → Outcome (Graph κ ν)
  | [], g => .ok g
  | child :: rest, g => do
    let (g, id) ← visit g child
    visitAll visit parent rest (g.link ⟨id, parent⟩)

/-- Visit an item; the number is the one of its key. -/
def Rules.visit (r : Rules α κ ν) : ℕ → Graph κ ν → α → Outcome (Graph κ ν × ℕ)
  | 0, _, _ => .error .outOfFuel
  | fuel + 1, g, item =>
    match g.idOf (r.key item) with
    | some id => .ok (g, id)
    | none => do
      let node ← r.node g.nodes.length item
      let children ← r.children item
      let g' ← visitAll (r.visit fuel) g.nodes.length children (g.push (r.key item) node)
      return (g', g.nodes.length)

/-- Visit roots one after the other. -/
def Rules.visitRoots (r : Rules α κ ν) (fuel : ℕ) : List α → Graph κ ν → Outcome (Graph κ ν)
  | [], g => .ok g
  | root :: rest, g => do
    let (g, _) ← r.visit fuel g root
    r.visitRoots fuel rest g

/-! ## Keys are unique -/

/-- The numbers that are known are the positions of the nodes with these keys, and
every node was made for its position. -/
structure Rules.Keyed (r : Rules α κ ν) (nodeKey : ν → κ) (g : Graph κ ν) : Prop where
  ids : ∀ key id, g.idOf key = some id ↔ g.nodes[id]?.map nodeKey = some key
  made : ∀ id node, g.nodes[id]? = some node → ∃ item, r.node id item = .ok node

variable {r : Rules α κ ν} {nodeKey : ν → κ}

theorem keyed_empty : r.Keyed nodeKey .empty := by
  constructor
  · intro key id
    rw [Graph.idOf_empty]
    simp [Graph.empty]
  · intro id node h
    simp [Graph.empty] at h

theorem Rules.Keyed.link {g : Graph κ ν} (h : r.Keyed nodeKey g) (edge : Edge) :
    r.Keyed nodeKey (g.link edge) :=
  ⟨h.ids, h.made⟩

/-- Two positions with one key are the same. -/
theorem Rules.Keyed.unique {g : Graph κ ν} (h : r.Keyed nodeKey g) {i j : ℕ} {a b : ν}
    (ha : g.nodes[i]? = some a) (hb : g.nodes[j]? = some b) (hsame : nodeKey a = nodeKey b) :
    i = j := by
  have hi : g.idOf (nodeKey a) = some i := (h.ids _ _).mpr (by rw [ha]; rfl)
  have hj : g.idOf (nodeKey a) = some j := (h.ids _ _).mpr (by rw [hb, hsame]; rfl)
  exact Option.some.inj (hi.symm.trans hj)

theorem Rules.Keyed.push {g : Graph κ ν} (h : r.Keyed nodeKey g) {item : α} {node : ν}
    (hnode : r.node g.nodes.length item = .ok node) (hkey : nodeKey node = r.key item)
    (hnew : g.idOf (r.key item) = none) : r.Keyed nodeKey (g.push (r.key item) node) := by
  constructor
  · intro key id
    rw [Graph.idOf_push, Graph.push_nodes]
    by_cases hid : id < g.nodes.length
    · rw [List.getElem?_append_left hid]
      by_cases hk : key = r.key item
      · subst hk
        have hne : g.nodes[id]?.map nodeKey ≠ some (r.key item) := by
          rw [ne_eq, ← h.ids, hnew]
          simp
        rw [if_pos rfl, Option.some.injEq]
        exact iff_of_false (by omega) hne
      · rw [if_neg hk]
        exact h.ids key id
    · by_cases heq : id = g.nodes.length
      · subst heq
        rw [List.getElem?_concat_length, Option.map_some, hkey, Option.some.injEq]
        by_cases hk : key = r.key item
        · simp [hk]
        · rw [if_neg hk]
          have hnone : g.idOf key ≠ some g.nodes.length := by
            rw [ne_eq, h.ids, List.getElem?_eq_none (Nat.le_refl _)]
            simp
          exact iff_of_false hnone fun hk' => hk hk'.symm
      · have hlen : (g.nodes ++ [node]).length ≤ id := by
          rw [List.length_append, List.length_singleton]
          omega
        rw [List.getElem?_eq_none hlen]
        have hnone : g.idOf key ≠ some id := by
          rw [ne_eq, h.ids, List.getElem?_eq_none (by omega)]
          simp
        by_cases hk : key = r.key item
        · rw [if_pos hk, Option.some.injEq]
          exact iff_of_false (by omega) (by simp)
        · rw [if_neg hk]
          exact iff_of_false hnone (by simp)
  · intro id found hfound
    rw [Graph.push_nodes] at hfound
    by_cases hid : id < g.nodes.length
    · rw [List.getElem?_append_left hid] at hfound
      exact h.made id found hfound
    · have hlen := (List.getElem?_eq_some_iff.mp hfound).1
      rw [List.length_append, List.length_singleton] at hlen
      obtain rfl : id = g.nodes.length := by omega
      rw [List.getElem?_concat_length, Option.some.injEq] at hfound
      exact ⟨item, hfound ▸ hnode⟩

theorem keyed_visitAll {visit : Graph κ ν → α → Outcome (Graph κ ν × ℕ)}
    (hvisit : ∀ {g item g' id}, r.Keyed nodeKey g → visit g item = .ok (g', id) →
      r.Keyed nodeKey g')
    {parent : ℕ} {children : List α} {g g' : Graph κ ν} (h : r.Keyed nodeKey g)
    (hrun : visitAll visit parent children g = .ok g') : r.Keyed nodeKey g' := by
  induction children generalizing g with
  | nil => exact Except.ok.inj hrun ▸ h
  | cons child rest ih =>
    obtain ⟨⟨g₁, id⟩, hchild, hrest⟩ := Outcome.bind_eq_ok.mp hrun
    exact ih ((hvisit h hchild).link _) hrest

variable (hkey : ∀ {id item node}, r.node id item = .ok node → nodeKey node = r.key item)
include hkey

theorem keyed_visit {fuel : ℕ} {g g' : Graph κ ν} {item : α} {id : ℕ} (h : r.Keyed nodeKey g)
    (hrun : r.visit fuel g item = .ok (g', id)) : r.Keyed nodeKey g' := by
  induction fuel generalizing g g' item id with
  | zero => simp [Rules.visit] at hrun
  | succ fuel ih =>
    rw [Rules.visit] at hrun
    cases hlookup : g.idOf (r.key item) with
    | some known =>
      rw [hlookup] at hrun
      simp only [Except.ok.injEq, Prod.mk.injEq] at hrun
      exact hrun.1 ▸ h
    | none =>
      rw [hlookup] at hrun
      simp only [Outcome.bind_eq_ok, Outcome.pure_eq_ok, Except.ok.injEq, Prod.mk.injEq] at hrun
      obtain ⟨node, hnode, children, -, g₁, hall, rfl, -⟩ := hrun
      exact keyed_visitAll ih (h.push hnode (hkey hnode) hlookup) hall

/-- Whatever is visited, no key has two nodes. -/
theorem keyed_visitRoots {fuel : ℕ} {roots : List α} {g g' : Graph κ ν} (h : r.Keyed nodeKey g)
    (hrun : r.visitRoots fuel roots g = .ok g') : r.Keyed nodeKey g' := by
  induction roots generalizing g with
  | nil => exact Except.ok.inj hrun ▸ h
  | cons root rest ih =>
    obtain ⟨⟨g₁, id⟩, hroot, hrest⟩ := Outcome.bind_eq_ok.mp hrun
    exact ih (keyed_visit hkey h hroot) hrest

end

/-! ## Occurrences -/

section

variable {α κ ν : Type} {r : Rules α κ ν}

/-- The item at the end of a path: a root, or a child of the item at the end of the
rest of the path. -/
inductive Rules.Occurs (r : Rules α κ ν) (roots : List α) : List ℕ → α → Prop
  | root {i : ℕ} {item : α} (hroot : roots[i]? = some item) : r.Occurs roots [i] item
  | child {path : List ℕ} {item : α} {children : List α} {j : ℕ} {child : α}
      (hitem : r.Occurs roots path item) (hchildren : r.children item = .ok children)
      (hchild : children[j]? = some child) : r.Occurs roots (j :: path) child

variable (r) in
/-- Different occurrences have different keys. -/
def Rules.KeysDistinct (roots : List α) : Prop :=
  ∀ {path path' item item'}, r.Occurs roots path item → r.Occurs roots path' item' →
    r.key item = r.key item' → path = path'

variable {roots : List α}

theorem Rules.Occurs.ne_nil {path : List ℕ} {item : α} (h : r.Occurs roots path item) :
    path ≠ [] := by
  cases h <;> simp

/-- The end of a longer path is a child of the item at the end of the shorter one. -/
theorem Rules.Occurs.of_cons {path : List ℕ} {j : ℕ} {child : α}
    (h : r.Occurs roots (j :: path) child) (hne : path ≠ []) :
    ∃ item children, r.Occurs roots path item ∧ r.children item = .ok children ∧
      children[j]? = some child := by
  cases h with
  | root hroot => exact absurd rfl hne
  | child hitem hchildren hchild => exact ⟨_, _, hitem, hchildren, hchild⟩

theorem Rules.Occurs.of_singleton {i : ℕ} {item : α} (h : r.Occurs roots [i] item) :
    roots[i]? = some item := by
  cases h with
  | root hroot => exact hroot
  | child hitem => exact absurd rfl hitem.ne_nil

/-- A path leads to one item. -/
theorem Rules.Occurs.unique {path : List ℕ} {item item' : α} (h : r.Occurs roots path item)
    (h' : r.Occurs roots path item') : item = item' := by
  induction h generalizing item' with
  | root hroot =>
    rw [h'.of_singleton, Option.some.injEq] at hroot
    exact hroot.symm
  | child hitem hchildren hchild ih =>
    obtain ⟨parent, children', hparent, hchildren', hchild'⟩ := h'.of_cons hitem.ne_nil
    obtain rfl := ih hparent
    obtain rfl := Except.ok.inj (hchildren.symm.trans hchildren')
    exact Option.some.inj (hchild.symm.trans hchild')

/-- What is left of a path when the last steps are dropped leads somewhere, too. -/
theorem Rules.Occurs.of_suffix {path path' : List ℕ} {item : α} (h : r.Occurs roots path item)
    (hsuffix : path' <:+ path) (hne : path' ≠ []) : ∃ item', r.Occurs roots path' item' := by
  induction h with
  | root hroot =>
    rcases List.suffix_cons_iff.mp hsuffix with rfl | hnil
    · exact ⟨_, .root hroot⟩
    · exact absurd (List.suffix_nil.mp hnil) hne
  | child hitem hchildren hchild ih =>
    rcases List.suffix_cons_iff.mp hsuffix with rfl | hrest
    · exact ⟨_, .child hitem hchildren hchild⟩
    · exact ih hrest

end

/-! ## The nodes are the occurrences -/

section

variable {α κ ν : Type} [DecidableEq κ] {r : Rules α κ ν} {roots : List α}

/-- An edge from an occurrence to the one of its parent. -/
def LeadsUp (visited : List (List ℕ × α)) (edge : Edge) : Prop :=
  ∃ j path item item', visited[edge.before]? = some (j :: path, item) ∧
    visited[edge.after]? = some (path, item')

variable (r) in
/-- The nodes of a graph are these occurrences, in this order. -/
structure Rules.Numbering (roots : List α) (g : Graph κ ν) (visited : List (List ℕ × α)) :
    Prop where
  length_nodes : g.nodes.length = visited.length
  nodes : ∀ {id path item}, visited[id]? = some (path, item) →
    ∃ node, g.nodes[id]? = some node ∧ r.node id item = .ok node
  ids : ∀ {key id}, g.idOf key = some id →
    ∃ path item, visited[id]? = some (path, item) ∧ r.key item = key
  known : ∀ {id path item}, visited[id]? = some (path, item) →
    g.idOf (r.key item) = some id
  occurs : ∀ {path item}, (path, item) ∈ visited → r.Occurs roots path item

theorem numbering_empty : r.Numbering roots .empty [] := by
  constructor <;> simp
  rfl

theorem Rules.Numbering.link {g : Graph κ ν} {visited : List (List ℕ × α)}
    (h : r.Numbering roots g visited) (edge : Edge) : r.Numbering roots (g.link edge) visited :=
  ⟨h.length_nodes, h.nodes, h.ids, h.known, h.occurs⟩

/-- An occurrence is numbered once. -/
theorem Rules.Numbering.nodup {g : Graph κ ν} {visited : List (List ℕ × α)}
    (h : r.Numbering roots g visited) : (visited.map Prod.fst).Nodup := by
  rw [List.nodup_iff_injective_getElem]
  intro i j heq
  simp only [List.getElem_map] at heq
  have hi : visited[i.val]? = some visited[i.val] := List.getElem?_eq_getElem _
  have hj : visited[j.val]? = some visited[j.val] := List.getElem?_eq_getElem _
  have hitem : visited[i.val].2 = visited[j.val].2 :=
    (h.occurs (List.mem_of_getElem? hi)).unique (heq ▸ h.occurs (List.mem_of_getElem? hj))
  have hids : some i.val = some j.val :=
    calc some i.val = g.idOf (r.key visited[i.val].2) := (h.known hi).symm
      _ = g.idOf (r.key visited[j.val].2) := by rw [hitem]
      _ = some j.val := h.known hj
  exact Fin.ext (Option.some.inj hids)

theorem Rules.Numbering.push {g : Graph κ ν} {visited : List (List ℕ × α)} {path : List ℕ}
    {item : α} {node : ν} (h : r.Numbering roots g visited) (hoccurs : r.Occurs roots path item)
    (hnode : r.node g.nodes.length item = .ok node)
    (hnew : g.idOf (r.key item) = none) :
    r.Numbering roots (g.push (r.key item) node) (visited ++ [(path, item)]) := by
  have hlength := h.length_nodes
  constructor
  · rw [Graph.push_nodes, List.length_append, List.length_append, hlength]
    rfl
  · intro id path' item' hid
    rw [Graph.push_nodes]
    by_cases hlt : id < visited.length
    · rw [List.getElem?_append_left hlt] at hid
      rw [List.getElem?_append_left (by omega)]
      exact h.nodes hid
    · have hlast : id = visited.length := by
        have := (List.getElem?_eq_some_iff.mp hid).1
        rw [List.length_append, List.length_singleton] at this
        omega
      subst hlast
      rw [List.getElem?_concat_length, Option.some.injEq, Prod.mk.injEq] at hid
      rw [← hlength, List.getElem?_concat_length]
      exact ⟨node, rfl, hid.2 ▸ hnode⟩
  · intro key id hid
    rw [Graph.idOf_push] at hid
    by_cases hk : key = r.key item
    · subst hk
      rw [if_pos rfl, Option.some.injEq] at hid
      rw [← hid, hlength, List.getElem?_concat_length]
      exact ⟨path, item, rfl, rfl⟩
    · rw [if_neg hk] at hid
      obtain ⟨path', item', hvisited, hkey'⟩ := h.ids hid
      refine ⟨path', item', ?_, hkey'⟩
      rw [List.getElem?_append_left (List.getElem?_eq_some_iff.mp hvisited).1, hvisited]
  · intro id path' item' hid
    rw [Graph.idOf_push]
    by_cases hlt : id < visited.length
    · rw [List.getElem?_append_left hlt] at hid
      have hne : r.key item' ≠ r.key item := by
        intro heq
        have := h.known hid
        rw [heq, hnew] at this
        exact absurd this (by simp)
      rw [if_neg hne]
      exact h.known hid
    · have hlast : id = visited.length := by
        have := (List.getElem?_eq_some_iff.mp hid).1
        rw [List.length_append, List.length_singleton] at this
        omega
      subst hlast
      rw [List.getElem?_concat_length, Option.some.injEq, Prod.mk.injEq] at hid
      rw [hid.2, ← hlength]
      simp
  · intro path' item' hmem
    rcases List.mem_append.mp hmem with hmem | hmem
    · exact h.occurs hmem
    · obtain ⟨rfl, rfl⟩ := Prod.mk.inj (List.mem_singleton.mp hmem)
      exact hoccurs

theorem LeadsUp.append {visited : List (List ℕ × α)} {edge : Edge} (h : LeadsUp visited edge)
    (more : List (List ℕ × α)) : LeadsUp (visited ++ more) edge := by
  obtain ⟨j, path, item, item', hbefore, hafter⟩ := h
  refine ⟨j, path, item, item', ?_, ?_⟩
  · rw [List.getElem?_append_left (List.getElem?_eq_some_iff.mp hbefore).1, hbefore]
  · rw [List.getElem?_append_left (List.getElem?_eq_some_iff.mp hafter).1, hafter]

/-- An edge into a number comes before the edge from it. -/
def InsideOut (edges : List Edge) : Prop :=
  edges.Pairwise fun edge later => later.after ≠ edge.before

variable (r) in
/-- What a part of a run adds to a numbering: all occurrences with certain paths, and
one edge upwards from each of certain numbers, to certain numbers. -/
structure Rules.Adds (roots : List α) (part : List ℕ → Prop) (linked : List ℕ)
    (above : ℕ → Prop) (g : Graph κ ν) (visited : List (List ℕ × α)) (g' : Graph κ ν)
    (new : List (List ℕ × α)) : Prop where
  numbering : r.Numbering roots g' (visited ++ new)
  within : ∀ {path item}, (path, item) ∈ new → part path
  complete : ∀ {path item}, part path → r.Occurs roots path item → (path, item) ∈ new
  expanded : ∀ {path item}, (path, item) ∈ new → ∃ children, r.children item = .ok children
  edges : ∃ added, g'.edges = g.edges ++ added ∧ (added.map Edge.before).Perm linked ∧
    (∀ edge ∈ added, LeadsUp (visited ++ new) edge ∧ above edge.after) ∧ InsideOut added

/-- The occurrences at a path and below it, with edges from those below. -/
abbrev Rules.AddsItem (r : Rules α κ ν) (roots : List α) (path : List ℕ) (g : Graph κ ν)
    (visited : List (List ℕ × α)) (g' : Graph κ ν) (new : List (List ℕ × α)) : Prop :=
  r.Adds roots (path <:+ ·) (List.range' (visited.length + 1) (new.length - 1))
    (visited.length ≤ ·) g visited g' new

private theorem not_cons_suffix_self (k : ℕ) (path : List ℕ) : ¬ (k :: path) <:+ path := by
  intro h
  have := h.length_le
  rw [List.length_cons] at this
  omega

private theorem eq_of_cons_suffix {k l : ℕ} {path path' : List ℕ} (hk : (k :: path) <:+ path')
    (hl : (l :: path) <:+ path') : k = l := by
  have hsuffix := List.suffix_of_suffix_length_le hk hl (by simp)
  exact (List.cons.inj (hsuffix.eq_of_length (by simp))).1

private theorem perm_linked {lo m n : ℕ} (hm : 0 < m) :
    (List.range' (lo + 1) (m - 1) ++ [lo] ++ List.range' (lo + m) n).Perm
      (List.range' lo (m + n)) := by
  have hfirst : List.range' lo m = lo :: List.range' (lo + 1) (m - 1) := by
    obtain ⟨m, rfl⟩ : ∃ k, m = k + 1 := ⟨m - 1, by omega⟩
    rw [List.range'_succ]
    rfl
  have hjoin : List.range' lo m ++ List.range' (lo + m) n = List.range' lo (m + n) := by
    rw [← List.range'_append_1]
  rw [← hjoin, hfirst]
  exact List.Perm.append_right _ (List.perm_append_singleton _ _)

section

variable (hdistinct : r.KeysDistinct roots)

private theorem adds_visitAll {visit : Graph κ ν → α → Outcome (Graph κ ν × ℕ)}
    (hvisit : ∀ {g visited path item g' id}, r.Numbering roots g visited →
      r.Occurs roots path item → (∀ e ∈ visited, ¬ path <:+ e.1) → visit g item = .ok (g', id) →
      id = visited.length ∧ ∃ new, new.head? = some (path, item) ∧
        r.AddsItem roots path g visited g' new)
    {path : List ℕ} {item : α} {children : List α} (hitem : r.Occurs roots path item)
    (hchildren : r.children item = .ok children) {parent : ℕ} {done rest : List α}
    (hsplit : children = done ++ rest) {g g' : Graph κ ν} {visited : List (List ℕ × α)}
    (h : r.Numbering roots g visited) (hparent : visited[parent]? = some (path, item))
    (hfresh : ∀ e ∈ visited, ∀ k, done.length ≤ k → ¬ (k :: path) <:+ e.1)
    (hrun : visitAll visit parent rest g = .ok g') :
    ∃ new, r.Adds roots (fun path' => ∃ k, done.length ≤ k ∧ (k :: path) <:+ path')
      (List.range' visited.length new.length) (fun id => id = parent ∨ visited.length ≤ id) g
      visited g' new := by
  induction rest generalizing done g visited with
  | nil =>
    obtain rfl := Except.ok.inj hrun
    refine ⟨[], by rwa [List.append_nil], by simp, ?_, by simp, [], by simp, by simp, by simp, .nil⟩
    intro path' item' hbelow hoccurs
    obtain ⟨k, hk, hsuffix⟩ := hbelow
    obtain ⟨child, hchild⟩ := hoccurs.of_suffix hsuffix (by simp)
    obtain ⟨item₁, children₁, hitem₁, hchildren₁, hget⟩ := hchild.of_cons hitem.ne_nil
    obtain rfl := hitem.unique hitem₁
    obtain rfl := Except.ok.inj (hchildren.symm.trans hchildren₁)
    rw [hsplit, List.append_nil] at hget
    exact absurd (List.getElem?_eq_some_iff.mp hget).1 (by omega)
  | cons child rest ih =>
    obtain ⟨⟨g₁, id⟩, hchild, hrest⟩ := Outcome.bind_eq_ok.mp hrun
    have hoccurs : r.Occurs roots (done.length :: path) child :=
      .child hitem hchildren (by rw [hsplit, List.getElem?_append_right (Nat.le_refl _)]; simp)
    obtain ⟨rfl, new₁, hhead, hadds₁⟩ := hvisit h hoccurs
      (fun e he => hfresh e he _ (Nat.le_refl _)) hchild
    have hpos : 0 < new₁.length := by
      cases new₁ with
      | nil => simp at hhead
      | cons first others => simp
    have hfresh' : ∀ e ∈ visited ++ new₁, ∀ k, (done ++ [child]).length ≤ k →
        ¬ (k :: path) <:+ e.1 := by
      intro e he k hk hsuffix
      rw [List.length_append, List.length_singleton] at hk
      rcases List.mem_append.mp he with he | he
      · exact hfresh e he k (by omega) hsuffix
      · have := eq_of_cons_suffix (hadds₁.within he) hsuffix
        omega
    obtain ⟨new₂, hadds₂⟩ := ih (by rw [hsplit, List.append_assoc]; rfl) (hadds₁.numbering.link _)
      (by rw [List.getElem?_append_left (List.getElem?_eq_some_iff.mp hparent).1, hparent])
      hfresh' hrest
    refine ⟨new₁ ++ new₂, ?_, ?_, ?_, ?_, ?_⟩
    · rw [← List.append_assoc]
      exact hadds₂.numbering
    · intro path' item' hmem
      rcases List.mem_append.mp hmem with hmem | hmem
      · exact ⟨done.length, Nat.le_refl _, hadds₁.within hmem⟩
      · obtain ⟨k, hk, hsuffix⟩ := hadds₂.within hmem
        rw [List.length_append, List.length_singleton] at hk
        exact ⟨k, by omega, hsuffix⟩
    · intro path' item' hbelow hoccurs'
      obtain ⟨k, hk, hsuffix⟩ := hbelow
      by_cases hfirst : k = done.length
      · exact List.mem_append_left _ (hadds₁.complete (hfirst ▸ hsuffix) hoccurs')
      · refine List.mem_append_right _ (hadds₂.complete ⟨k, ?_, hsuffix⟩ hoccurs')
        rw [List.length_append, List.length_singleton]
        omega
    · intro path' item' hmem
      exact (List.mem_append.mp hmem).elim hadds₁.expanded hadds₂.expanded
    · obtain ⟨added₁, hedges₁, hperm₁, hup₁, horder₁⟩ := hadds₁.edges
      obtain ⟨added₂, hedges₂, hperm₂, hup₂, horder₂⟩ := hadds₂.edges
      have hlt : parent < visited.length := (List.getElem?_eq_some_iff.mp hparent).1
      refine ⟨added₁ ++ [⟨visited.length, parent⟩] ++ added₂, ?_, ?_, ?_, ?_⟩
      · rw [hedges₂, Graph.link_edges, hedges₁]
        simp only [List.append_assoc]
      · rw [List.map_append, List.map_append, List.length_append]
        rw [List.length_append] at hperm₂
        exact ((hperm₁.append_right _).append hperm₂).trans (perm_linked hpos)
      · intro edge hedge
        rw [← List.append_assoc]
        rcases List.mem_append.mp hedge with hedge | hedge
        · rcases List.mem_append.mp hedge with hedge | hedge
          · exact ⟨(hup₁ edge hedge).1.append new₂, Or.inr (hup₁ edge hedge).2⟩
          · obtain rfl := List.mem_singleton.mp hedge
            refine ⟨LeadsUp.append ⟨done.length, path, child, item, ?_, ?_⟩ new₂, Or.inl rfl⟩
            · rw [List.getElem?_append_right (Nat.le_refl _), Nat.sub_self, ← List.head?_eq_getElem?,
                hhead]
            · rw [List.getElem?_append_left hlt, hparent]
        · obtain ⟨hleads, hafter⟩ := hup₂ edge hedge
          rw [List.length_append] at hafter
          exact ⟨hleads, hafter.imp_right fun h => by omega⟩
      · -- the numbers below the child are left behind when its edge is added
        have hbefore₁ : ∀ edge ∈ added₁ ++ [⟨visited.length, parent⟩],
            visited.length ≤ edge.before ∧ edge.before < visited.length + new₁.length := by
          intro edge hedge
          rcases List.mem_append.mp hedge with hedge | hedge
          · have hmem := hperm₁.mem_iff.mp (List.mem_map_of_mem hedge)
            rw [List.mem_range'_1] at hmem
            omega
          · obtain rfl := List.mem_singleton.mp hedge
            show visited.length ≤ visited.length ∧ visited.length < visited.length + new₁.length
            omega
        refine List.pairwise_append.mpr ⟨List.pairwise_append.mpr ⟨horder₁, List.pairwise_singleton _ _,
          ?_⟩, horder₂, ?_⟩
        · intro edge hedge later hlater
          obtain rfl := List.mem_singleton.mp hlater
          have := (hbefore₁ edge (List.mem_append_left _ hedge)).1
          show parent ≠ edge.before
          omega
        · intro edge hedge later hlater
          have hbefore := hbefore₁ edge hedge
          have hafter := (hup₂ later hlater).2
          rw [List.length_append] at hafter
          omega

include hdistinct

/-- A visit of a new occurrence adds it and everything below it. -/
theorem adds_visit {fuel : ℕ} {path : List ℕ} {item : α} {g g' : Graph κ ν} {id : ℕ}
    {visited : List (List ℕ × α)} (h : r.Numbering roots g visited)
    (hitem : r.Occurs roots path item) (hfresh : ∀ e ∈ visited, ¬ path <:+ e.1)
    (hrun : r.visit fuel g item = .ok (g', id)) :
    id = visited.length ∧ ∃ new, new.head? = some (path, item) ∧
      r.AddsItem roots path g visited g' new := by
  induction fuel generalizing path item g g' id visited with
  | zero => simp [Rules.visit] at hrun
  | succ fuel ih =>
    rw [Rules.visit] at hrun
    cases hlookup : g.idOf (r.key item) with
    | some known =>
      -- another occurrence with this key would have the same path
      obtain ⟨path', item', hvisited, hkey⟩ := h.ids hlookup
      have hmem := List.mem_of_getElem? hvisited
      have hpath : path = path' := hdistinct hitem (h.occurs hmem) hkey.symm
      exact absurd (hpath ▸ List.suffix_rfl) (hfresh _ hmem)
    | none =>
      rw [hlookup] at hrun
      simp only [Outcome.bind_eq_ok, Outcome.pure_eq_ok, Except.ok.injEq, Prod.mk.injEq] at hrun
      obtain ⟨node, hnode, children, hchildren, g₁, hall, rfl, rfl⟩ := hrun
      have hpush := h.push hitem hnode hlookup
      have hself : (visited ++ [(path, item)])[g.nodes.length]? = some (path, item) := by
        rw [h.length_nodes, List.getElem?_concat_length]
      have hfresh' : ∀ e ∈ visited ++ [(path, item)], ∀ k, ([] : List α).length ≤ k →
          ¬ (k :: path) <:+ e.1 := by
        intro e he k _ hsuffix
        rcases List.mem_append.mp he with he | he
        · exact hfresh e he ((List.suffix_cons k path).trans hsuffix)
        · obtain rfl := List.mem_singleton.mp he
          exact not_cons_suffix_self k path hsuffix
      obtain ⟨new, hadds⟩ := adds_visitAll ih hitem hchildren (List.nil_append children).symm hpush
        hself hfresh' hall
      refine ⟨h.length_nodes, (path, item) :: new, rfl, ?_, ?_, ?_, ?_, ?_⟩
      · rw [List.append_cons]
        exact hadds.numbering
      · intro path' item' hmem
        rcases List.mem_cons.mp hmem with heq | hmem
        · rw [(Prod.mk.inj heq).1]
        · obtain ⟨k, -, hsuffix⟩ := hadds.within hmem
          exact (List.suffix_cons k path).trans hsuffix
      · intro path' item' hsuffix hoccurs
        by_cases hsame : path' = path
        · subst hsame
          rw [hitem.unique hoccurs]
          exact List.mem_cons_self
        · obtain ⟨front, rfl⟩ := hsuffix
          have hne : front ≠ [] := fun hnil => hsame (by rw [hnil, List.nil_append])
          obtain ⟨steps, k, rfl⟩ := List.eq_nil_or_concat front |>.resolve_left hne
          refine List.mem_cons_of_mem _ (hadds.complete ⟨k, Nat.zero_le _, ?_⟩ hoccurs)
          rw [List.concat_eq_append, List.append_assoc]
          exact List.suffix_append _ _
      · intro path' item' hmem
        rcases List.mem_cons.mp hmem with heq | hmem
        · exact ⟨children, (Prod.mk.inj heq).2 ▸ hchildren⟩
        · exact hadds.expanded hmem
      · obtain ⟨added, hedges, hperm, hup, horder⟩ := hadds.edges
        refine ⟨added, by rw [hedges, Graph.push_edges], ?_, ?_, horder⟩
        · rw [List.length_append, List.length_singleton] at hperm
          exact hperm
        · rw [List.append_cons]
          intro edge hedge
          obtain ⟨hleads, hafter⟩ := hup edge hedge
          rw [h.length_nodes, List.length_append] at hafter
          exact ⟨hleads, by omega⟩

end

/-- The edges of a numbering: one from each occurrence that is not a root, to the
occurrence above it. -/
structure EdgesUp (visited : List (List ℕ × α)) (edges : List Edge) : Prop where
  up : ∀ edge ∈ edges, LeadsUp visited edge
  count : ∀ {id path item}, visited[id]? = some (path, item) →
    (edges.map Edge.before).count id = if path.length = 1 then 0 else 1
  insideOut : InsideOut edges

private theorem edgesUp_append {visited new : List (List ℕ × α)} {i : ℕ} {root : α}
    {edges added : List Edge} (h : EdgesUp visited edges)
    (hhead : new.head? = some ([i], root))
    (hnested : ∀ id, 0 < id → ∀ path item, new[id]? = some (path, item) → path.length ≠ 1)
    (hperm : (added.map Edge.before).Perm (List.range' (visited.length + 1) (new.length - 1)))
    (hup : ∀ edge ∈ added, LeadsUp (visited ++ new) edge ∧ visited.length ≤ edge.after)
    (horder : InsideOut added) :
    EdgesUp (visited ++ new) (edges ++ added) := by
  have hlt : ∀ edge ∈ edges, edge.before < visited.length := by
    intro edge hedge
    obtain ⟨_, _, _, _, hbefore, -⟩ := h.up edge hedge
    exact (List.getElem?_eq_some_iff.mp hbefore).1
  have hold : ∀ id, visited.length ≤ id → (edges.map Edge.before).count id = 0 := by
    intro id hid
    rw [List.count_eq_zero]
    intro hmem
    obtain ⟨edge, hedge, rfl⟩ := List.mem_map.mp hmem
    have := hlt edge hedge
    omega
  constructor
  · intro edge hedge
    rcases List.mem_append.mp hedge with hedge | hedge
    · exact (h.up edge hedge).append new
    · exact (hup edge hedge).1
  · intro id path item hid
    rw [List.map_append, List.count_append, hperm.count_eq]
    by_cases hlt : id < visited.length
    · rw [List.getElem?_append_left hlt] at hid
      rw [h.count hid, List.count_eq_zero.mpr, Nat.add_zero]
      rw [List.mem_range'_1]
      omega
    · rw [hold id (by omega), Nat.zero_add]
      rw [List.getElem?_append_right (by omega)] at hid
      by_cases hroot : id = visited.length
      · rw [hroot, Nat.sub_self, ← List.head?_eq_getElem?, hhead, Option.some.injEq,
          Prod.mk.injEq] at hid
        rw [← hid.1, if_pos (List.length_singleton), List.count_eq_zero, List.mem_range'_1]
        omega
      · have hlength := (List.getElem?_eq_some_iff.mp hid).1
        rw [if_neg (hnested _ (by omega) _ _ hid)]
        refine List.count_eq_one_of_mem List.nodup_range' ?_
        rw [List.mem_range'_1]
        omega
  · refine List.pairwise_append.mpr ⟨h.insideOut, horder, ?_⟩
    intro edge hedge later hlater
    have := hlt edge hedge
    have := (hup later hlater).2
    omega

/-- Where different occurrences have different keys, a run over all roots numbers
exactly the occurrences, with one edge upwards from each that is not a root. -/
theorem numbering_visitRoots (hdistinct : r.KeysDistinct roots) {fuel : ℕ} {g : Graph κ ν}
    (hrun : r.visitRoots fuel roots .empty = .ok g) :
    ∃ visited, r.Numbering roots g visited ∧
      (∀ {path item}, r.Occurs roots path item →
        (path, item) ∈ visited ∧ ∃ children, r.children item = .ok children) ∧
      EdgesUp visited g.edges := by
  have hrest : ∀ {rest done : List α} {g g' : Graph κ ν} {visited : List (List ℕ × α)},
      roots = done ++ rest → r.Numbering roots g visited → EdgesUp visited g.edges →
      (∀ e ∈ visited, ∀ k, done.length ≤ k → ¬ [k] <:+ e.1) →
      r.visitRoots fuel rest g = .ok g' →
      ∃ new, r.Numbering roots g' (visited ++ new) ∧ EdgesUp (visited ++ new) g'.edges ∧
        ∀ {path item k}, done.length ≤ k → [k] <:+ path → r.Occurs roots path item →
          (path, item) ∈ new ∧ ∃ children, r.children item = .ok children := by
    intro rest
    induction rest with
    | nil =>
      intro done g g' visited hsplit h hedges _ hrun
      obtain rfl := Except.ok.inj hrun
      refine ⟨[], by rwa [List.append_nil], by rwa [List.append_nil], ?_⟩
      intro path item k hk hsuffix hoccurs
      obtain ⟨root, hroot⟩ := hoccurs.of_suffix hsuffix (by simp)
      have hget := hroot.of_singleton
      rw [hsplit, List.append_nil] at hget
      exact absurd (List.getElem?_eq_some_iff.mp hget).1 (by omega)
    | cons root rest ih =>
      intro done g g' visited hsplit h hedges hfresh hrun
      obtain ⟨⟨g₁, id⟩, hroot, hrest⟩ := Outcome.bind_eq_ok.mp hrun
      have hoccurs : r.Occurs roots [done.length] root :=
        .root (by rw [hsplit, List.getElem?_append_right (Nat.le_refl _)]; simp)
      obtain ⟨-, new₁, hhead, hadds⟩ := adds_visit hdistinct h hoccurs
        (fun e he => hfresh e he _ (Nat.le_refl _)) hroot
      obtain ⟨added, hadded, hperm, hup, horder⟩ := hadds.edges
      have hnested : ∀ id, 0 < id → ∀ path item, new₁[id]? = some (path, item) →
          path.length ≠ 1 := by
        intro id hpos path item hid hlength
        have hsuffix : [done.length] <:+ path := hadds.within (List.mem_of_getElem? hid)
        have hpath := hsuffix.eq_of_length hlength.symm
        -- the path of the root is numbered once
        have hnodup := hadds.numbering.nodup
        rw [List.map_append, List.nodup_append] at hnodup
        have hfirst : (new₁.map Prod.fst)[0]? = some [done.length] := by
          rw [List.getElem?_map, ← List.head?_eq_getElem?, hhead]
          rfl
        have hagain : (new₁.map Prod.fst)[id]? = some [done.length] := by
          rw [List.getElem?_map, hid, hpath]
          rfl
        have hlt := (List.getElem?_eq_some_iff.mp hfirst).1
        have := (List.getElem?_inj hlt hnodup.2.1).mp (hfirst.trans hagain.symm)
        omega
      have hedges₁ : EdgesUp (visited ++ new₁) g₁.edges := by
        rw [hadded]
        exact edgesUp_append hedges hhead hnested hperm hup horder
      have hfresh' : ∀ e ∈ visited ++ new₁, ∀ k, (done ++ [root]).length ≤ k →
          ¬ [k] <:+ e.1 := by
        intro e he k hk hsuffix
        rw [List.length_append, List.length_singleton] at hk
        rcases List.mem_append.mp he with he | he
        · exact hfresh e he k (by omega) hsuffix
        · have := eq_of_cons_suffix (hadds.within he) hsuffix
          omega
      obtain ⟨new₂, h₂, hedges₂, hcomplete⟩ := ih (by rw [hsplit, List.append_assoc]; rfl)
        hadds.numbering hedges₁ hfresh' hrest
      refine ⟨new₁ ++ new₂, by rwa [← List.append_assoc], by rwa [← List.append_assoc], ?_⟩
      intro path item k hk hsuffix hoccurs'
      by_cases hfirst : k = done.length
      · have hmem := hadds.complete (hfirst ▸ hsuffix) hoccurs'
        exact ⟨List.mem_append_left _ hmem, hadds.expanded hmem⟩
      · have hk' : (done ++ [root]).length ≤ k := by
          rw [List.length_append, List.length_singleton]
          omega
        obtain ⟨hmem, hexpanded⟩ := hcomplete hk' hsuffix hoccurs'
        exact ⟨List.mem_append_right _ hmem, hexpanded⟩
  obtain ⟨visited, h, hedges, hcomplete⟩ := @hrest roots [] .empty g [] rfl
    numbering_empty ⟨by simp [Graph.empty], by simp, .nil⟩ (by simp) hrun
  refine ⟨visited, h, ?_, hedges⟩
  intro path item hoccurs
  obtain ⟨front, k, rfl⟩ := List.eq_nil_or_concat path |>.resolve_left hoccurs.ne_nil
  refine hcomplete (k := k) (Nat.zero_le _) ?_ hoccurs
  rw [List.concat_eq_append]
  exact List.suffix_append _ _

end

end CodeLib.Traversal

import Mathlib.Data.List.Basic

/-!
# Trees whose children have names

- `NamedTree α`: a value and a list of named children. `NamedTree.induct` is the induction over such
  a tree: a claim about a node may use the claim about each of its children.
- `subtrees`: all subtrees, a node before its children. `size` is their number.
- `preorder`: the nodes in the same order, each as a `Visit` with its parent and its name there.
- `links k`: the children of each node as indices, when the nodes are numbered in preorder from `k`.
  `Laid visits links k t` says that `t` is numbered from `k` in two longer lists; every index of
  such a range is the number of a subtree (`Laid.index`).
-/

namespace Jumpstarter.Lib

open List

/-- The list `l` has the elements `seg` from index `k` on. -/
def At {α : Type} (l : List α) (k : Nat) (seg : List α) : Prop :=
  ∃ before after, l = before ++ seg ++ after ∧ before.length = k

theorem At.self {α : Type} (l : List α) : At l 0 l := ⟨[], [], by simp, rfl⟩

theorem At.cons {α : Type} {l seg : List α} {k : Nat} {a : α} (h : At l k (a :: seg)) :
    l[k]? = some a ∧ At l (k + 1) seg := by
  obtain ⟨before, after, rfl, rfl⟩ := h
  refine ⟨?_, before ++ [a], after, by simp, by simp⟩
  rw [append_assoc, getElem?_append_right (Nat.le_refl _), Nat.sub_self]
  rfl

theorem At.append {α : Type} {l seg seg' : List α} {k : Nat} (h : At l k (seg ++ seg')) :
    At l k seg ∧ At l (k + seg.length) seg' := by
  obtain ⟨before, after, rfl, rfl⟩ := h
  exact ⟨⟨before, seg' ++ after, by simp, rfl⟩, before ++ seg, after, by simp, by simp⟩

theorem At.length_le {α : Type} {l seg : List α} {k : Nat} (h : At l k seg) : k + seg.length ≤ l.length := by
  obtain ⟨before, after, rfl, rfl⟩ := h
  simp only [length_append]
  omega

inductive NamedTree (α : Type) where
  | node (value : α) (children : List (String × NamedTree α))

namespace NamedTree

variable {α β : Type}

def value : NamedTree α → α
  | .node a _ => a

def children : NamedTree α → List (String × NamedTree α)
  | .node _ cs => cs

/-- Induction over a tree: a claim holds if it holds for a node whenever it holds for its
children. -/
@[elab_as_elim]
theorem induct {motive : NamedTree α → Prop}
    (node : ∀ value children, (∀ c ∈ children, motive c.2) → motive (.node value children)) :
    ∀ t, motive t
  | .node value children => node value children fun c hc =>
      have : sizeOf c.2 < 1 + sizeOf children := by
        have hmem := sizeOf_lt_of_mem hc
        have hpair : sizeOf c = 1 + sizeOf c.1 + sizeOf c.2 := by cases c; simp
        omega
      induct node c.2
termination_by t => sizeOf t

mutual
/-- All subtrees, a node before its children. -/
def subtrees : NamedTree α → List (NamedTree α)
  | .node a cs => .node a cs :: subtreesAll cs

def subtreesAll : List (String × NamedTree α) → List (NamedTree α)
  | [] => []
  | (_, t) :: rest => subtrees t ++ subtreesAll rest
end

def size (t : NamedTree α) : Nat := t.subtrees.length

mutual
/-- The tree with `f` applied to its values. -/
def map (f : α → β) : NamedTree α → NamedTree β
  | .node a cs => .node (f a) (mapAll f cs)

def mapAll (f : α → β) : List (String × NamedTree α) → List (String × NamedTree β)
  | [] => []
  | (name, t) :: rest => (name, map f t) :: mapAll f rest
end

structure Visit (α : Type) where
  parent : Option α
  name : Option String
  value : α

mutual
def preorder (parent : Option α) (name : Option String) : NamedTree α → List (Visit α)
  | .node a cs => ⟨parent, name, a⟩ :: preorderAll a cs

def preorderAll (parent : α) : List (String × NamedTree α) → List (Visit α)
  | [] => []
  | (name, t) :: rest => preorder (some parent) (some name) t ++ preorderAll parent rest
end

/-- The numbers of the roots of trees that are numbered one after the other from `k`. -/
def indices (k : Nat) : List (String × NamedTree α) → List Nat
  | [] => []
  | (_, t) :: rest => k :: indices (k + t.size) rest

mutual
/-- For each node of a tree that is numbered from `k`, the numbers of its children. -/
def links (k : Nat) : NamedTree α → List (List Nat)
  | .node _ cs => indices (k + 1) cs :: linksAll (k + 1) cs

def linksAll (k : Nat) : List (String × NamedTree α) → List (List Nat)
  | [] => []
  | (_, t) :: rest => links k t ++ linksAll (k + t.size) rest
end

theorem mapAll_eq (f : α → β) (cs : List (String × NamedTree α)) :
    mapAll f cs = cs.map fun c => (c.1, c.2.map f) := by
  induction cs with
  | nil => rfl
  | cons c cs ih => exact congrArg (_ :: ·) ih

variable {cs : List (String × NamedTree α)} {s : NamedTree α}

theorem mem_subtreesAll : s ∈ subtreesAll cs ↔ ∃ c ∈ cs, s ∈ c.2.subtrees := by
  induction cs with
  | nil => simp [subtreesAll]
  | cons c cs ih => simp [subtreesAll, ih]

theorem self_mem_subtrees (t : NamedTree α) : t ∈ t.subtrees := by
  cases t with
  | node a cs => exact mem_cons_self

variable {t : NamedTree α}

theorem mem_subtrees : s ∈ t.subtrees ↔ s = t ∨ ∃ c ∈ t.children, s ∈ c.2.subtrees := by
  cases t with
  | node a cs => simp only [subtrees, mem_cons, mem_subtreesAll, children]

variable {c : String × NamedTree α}

open NamedTree

theorem child_mem_subtrees (hs : s ∈ t.subtrees) (hc : c ∈ s.children) : c.2 ∈ t.subtrees := by
  induction t using induct with
  | node a cs ih =>
    rcases mem_subtrees.mp hs with rfl | ⟨d, hd, hsd⟩
    · exact mem_subtrees.mpr (.inr ⟨c, hc, self_mem_subtrees c.2⟩)
    · exact mem_subtrees.mpr (.inr ⟨d, hd, ih d hd hsd⟩)

theorem size_node (a : α) (cs : List (String × NamedTree α)) :
    (node a cs).size = (subtreesAll cs).length + 1 := rfl

theorem size_pos (t : NamedTree α) : 0 < t.size := by
  cases t with
  | node a cs => exact Nat.succ_pos _

theorem size_le_subtreesAll (h : c ∈ cs) : c.2.size ≤ (subtreesAll cs).length := by
  induction cs with
  | nil => cases h
  | cons d cs ih =>
    simp only [subtreesAll, length_append]
    rcases mem_cons.mp h with rfl | h
    · exact Nat.le_add_right _ _
    · exact Nat.le_trans (ih h) (Nat.le_add_left _ _)

theorem size_lt (hc : c ∈ t.children) (hs : s ∈ c.2.subtrees) : s.size < t.size := by
  induction t using induct generalizing c s with
  | node a cs ih =>
    have hle : c.2.size ≤ (subtreesAll cs).length := size_le_subtreesAll hc
    rw [size_node]
    rcases mem_subtrees.mp hs with rfl | ⟨d, hd, hsd⟩
    · omega
    · have hlt := ih c hc hd hsd
      omega

theorem length_preorder (t : NamedTree α) (parent : Option α) (name : Option String) :
    (t.preorder parent name).length = t.size := by
  induction t using induct generalizing parent name with
  | node a cs ih =>
    have hall : (preorderAll a cs).length = (subtreesAll cs).length := by
      induction cs with
      | nil => rfl
      | cons c cs ihcs =>
        simp only [preorderAll, subtreesAll, length_append]
        rw [ih c mem_cons_self, ihcs fun d hd => ih d (mem_cons_of_mem c hd)]
        rfl
    rw [preorder, length_cons, hall, size_node]

theorem length_links (t : NamedTree α) (k : Nat) : (t.links k).length = t.size := by
  induction t using induct generalizing k with
  | node a cs ih =>
    have hall : ∀ k, (linksAll k cs).length = (subtreesAll cs).length := by
      induction cs with
      | nil => intro k; rfl
      | cons c cs ihcs =>
        intro k
        simp only [linksAll, subtreesAll, length_append]
        rw [ih c mem_cons_self, ihcs fun d hd => ih d (mem_cons_of_mem c hd)]
        rfl
    rw [links, length_cons, hall, size_node]

theorem values_preorder (t : NamedTree α) (parent : Option α) (name : Option String) :
    (t.preorder parent name).map Visit.value = t.subtrees.map value := by
  induction t using induct generalizing parent name with
  | node a cs ih =>
    have hall : (preorderAll a cs).map Visit.value = (subtreesAll cs).map value := by
      induction cs with
      | nil => rfl
      | cons c cs ihcs =>
        simp only [preorderAll, subtreesAll, map_append]
        rw [ih c mem_cons_self, ihcs fun d hd => ih d (mem_cons_of_mem c hd)]
    simp only [preorder, subtrees, map_cons, hall]
    rfl

theorem indices_bounds {k i : Nat} (h : i ∈ indices k cs) : k ≤ i ∧ i < k + (subtreesAll cs).length := by
  induction cs generalizing k with
  | nil => cases h
  | cons c cs ih =>
    have hpos := c.2.size_pos
    have hlen : (subtreesAll (c :: cs)).length = c.2.size + (subtreesAll cs).length :=
      length_append
    rcases mem_cons.mp h with rfl | h
    · omega
    · have hb := ih h
      omega

/-- `t` is numbered from `k` in the two lists. -/
structure Laid (visits : List (Visit α)) (links : List (List Nat)) (k : Nat) (parent : Option α)
    (name : Option String) (t : NamedTree α) : Prop where
  visits : At visits k (t.preorder parent name)
  links : At links k (t.links k)

/-- The trees of `cs` are numbered one after the other from `k`. -/
structure LaidAll (visits : List (Visit α)) (links : List (List Nat)) (k : Nat) (parent : α)
    (cs : List (String × NamedTree α)) : Prop where
  visits : At visits k (preorderAll parent cs)
  links : At links k (linksAll k cs)

variable {visits : List (Visit α)} {links : List (List Nat)} {k i : Nat}

theorem Laid.root (t : NamedTree α) (parent : Option α) (name : Option String) :
    Laid (t.preorder parent name) (t.links 0) 0 parent name t :=
  ⟨.self _, .self _⟩

theorem Laid.node {parent : Option α} {name : Option String} (h : Laid visits links k parent name t) :
    visits[k]? = some ⟨parent, name, t.value⟩ ∧ links[k]? = some (indices (k + 1) t.children) ∧
      LaidAll visits links (k + 1) t.value t.children := by
  cases t with
  | node a cs =>
    obtain ⟨hv, hvs⟩ := At.cons h.visits
    obtain ⟨hl, hls⟩ := At.cons h.links
    exact ⟨hv, hl, hvs, hls⟩

theorem LaidAll.cons {parent : α} (h : LaidAll visits links k parent (c :: cs)) :
    Laid visits links k (some parent) (some c.1) c.2 ∧ LaidAll visits links (k + c.2.size) parent cs := by
  obtain ⟨hv, hvs⟩ := At.append h.visits
  obtain ⟨hl, hls⟩ := At.append h.links
  rw [length_preorder] at hvs
  rw [length_links] at hls
  exact ⟨⟨hv, hl⟩, hvs, hls⟩

theorem Laid.index {parent : Option α} {name : Option String} (h : Laid visits links k parent name t)
    (hk : k ≤ i) (hi : i < k + t.size) :
    (∃ p n, ∃ s ∈ t.subtrees, Laid visits links i p n s) ∧
      (i = k ∨ ∃ (j : Nat) (ks : List Nat), links[j]? = some ks ∧ i ∈ ks) := by
  induction t using induct generalizing k parent name with
  | node a cs ih =>
    obtain ⟨-, hlinks, hall⟩ := h.node
    rw [size_node] at hi
    rcases Nat.eq_or_lt_of_le hk with rfl | hlt
    · exact ⟨⟨parent, name, _, self_mem_subtrees _, h⟩, .inl rfl⟩
    -- The children are numbered one after the other: `i` is in the range of one of them.
    have hchild : ∀ (ds : List (String × NamedTree α)) (m : Nat), (∀ d ∈ ds, d ∈ cs) →
        LaidAll visits links m a ds → m ≤ i → i < m + (subtreesAll ds).length →
        (∃ p n, ∃ s ∈ subtreesAll ds, Laid visits links i p n s) ∧
          (i ∈ indices m ds ∨ ∃ (j : Nat) (ks : List Nat), links[j]? = some ks ∧ i ∈ ks) := by
      intro ds
      induction ds with
      | nil =>
        intro m _ _ hm hlt
        exact absurd hlt (Nat.not_lt.mpr hm)
      | cons d ds ihds =>
        intro m hsub hlaid hm hlt
        obtain ⟨hd, hds⟩ := hlaid.cons
        have hlen : (subtreesAll (d :: ds)).length = d.2.size + (subtreesAll ds).length :=
          length_append
        rcases Nat.lt_or_ge i (m + d.2.size) with hin | hout
        · obtain ⟨⟨p, n, s, hs, hl⟩, hor⟩ := ih d (hsub d mem_cons_self) hd hm hin
          refine ⟨⟨p, n, s, mem_append_left _ hs, hl⟩, ?_⟩
          rcases hor with rfl | hor
          · exact .inl mem_cons_self
          · exact .inr hor
        · obtain ⟨⟨p, n, s, hs, hl⟩, hor⟩ :=
            ihds (m + d.2.size) (fun e he => hsub e (mem_cons_of_mem d he)) hds hout (by omega)
          refine ⟨⟨p, n, s, mem_append_right _ hs, hl⟩, ?_⟩
          rcases hor with hor | hor
          · exact .inl (mem_cons_of_mem _ hor)
          · exact .inr hor
    obtain ⟨⟨p, n, s, hs, hl⟩, hor⟩ := hchild cs (k + 1) (fun _ h => h) hall hlt (by omega)
    refine ⟨⟨p, n, s, mem_cons_of_mem _ hs, hl⟩, .inr ?_⟩
    rcases hor with hor | hor
    · exact ⟨k, _, hlinks, hor⟩
    · exact hor

theorem links_bounds {j : Nat} {ks : List Nat} (h : (t.links 0)[j]? = some ks) (hi : i ∈ ks) :
    j < i ∧ i < (t.links 0).length := by
  have hj := (List.getElem?_eq_some_iff.mp h).1
  rw [length_links] at hj
  obtain ⟨⟨p, n, s, -, hs⟩, -⟩ :=
    (Laid.root t none none).index (Nat.zero_le j) ((Nat.zero_add t.size).symm ▸ hj)
  rw [hs.node.2.1] at h
  cases h
  have hb := indices_bounds hi
  have hle := hs.links.length_le
  rw [length_links] at hle
  have hsize : s.size = (subtreesAll s.children).length + 1 := by
    cases s with
    | node a cs => rfl
  omega

end NamedTree

end Jumpstarter.Lib

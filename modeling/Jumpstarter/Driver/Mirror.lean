import Jumpstarter.Driver.Tree
import Jumpstarter.Lib.Slice

/-!
# The client tree mirrors the driver tree

- `enumerate_of_unfold`: `enumerate` lists the unfolded tree in preorder.
- `loop_tree`: a driver does not occur below itself in the unfolded tree (`distinct_of_unfold`), so the last
  report with the uuid of the parent is that of the parent itself, and the loop over the reports gives the
  links of the preorder.
- `clientFromChannel_eq`: in any topological order the client of a report is that of the subtree at its
  index, and the root comes last.
- `mirrors_iff`: the client tree mirrors the unfolded driver tree exactly if `NamesKept` and `Imports` hold.
- `mirrors_fails`: a child with the name `""` is reported without a name, so a `jumpstarter.dev/name` among
  its own labels becomes its name.
-/

namespace Jumpstarter.Drivers

open Lib List Option NamedTree

/-! ## Unfolding -/

variable {α β : Type} {l : List α}

theorem mapM_eq_some_iff {f : α → Option β} {m : List β} :
    l.mapM f = some m ↔ List.Forall₂ (fun a b => f a = some b) l m := by
  induction l generalizing m with
  | nil => cases m <;> simp
  | cons a l ih =>
    constructor
    · intro h
      rw [mapM_cons] at h
      obtain ⟨b, hb, h⟩ := bind_eq_some_iff.mp h
      obtain ⟨bs, hbs, h⟩ := bind_eq_some_iff.mp h
      cases h
      exact .cons hb (ih.mp hbs)
    · intro h
      cases h with
      | cons hb hbs =>
        rw [mapM_cons, hb, ih.mpr hbs]
        rfl

theorem exists_of_forall₂ {R : α → β → Prop} {m : List β} (h : List.Forall₂ R l m) {b : β} (hb : b ∈ m) :
    ∃ a ∈ l, R a b := by
  induction h with
  | nil => cases hb
  | @cons a b' l m hab _ ih =>
    rcases mem_cons.mp hb with rfl | hb
    · exact ⟨a, mem_cons_self, hab⟩
    · obtain ⟨a', ha', hr⟩ := ih hb
      exact ⟨a', mem_cons_of_mem a ha', hr⟩

variable {root : Driver} {n m : Nat} {d : Driver} {t : NamedTree Info}
  {info : Info} {cs : List (String × Driver)}

theorem unfold_driver :
    unfold root (n + 1) (.node (.driver info) cs) = some t ↔
      ∃ ts, t = .node info ts ∧ List.Forall₂ (fun c s => s.1 = c.1 ∧ unfold root n c.2 = some s.2) cs ts := by
  have hstep : ∀ (c : String × Driver) (s : String × NamedTree Info),
      ((unfold root n c.2).map fun t => (c.1, t)) = some s ↔ s.1 = c.1 ∧ unfold root n c.2 = some s.2 := by
    intro c s
    rw [map_eq_some_iff]
    constructor
    · rintro ⟨u, hu, rfl⟩
      exact ⟨rfl, hu⟩
    · rintro ⟨hname, hu⟩
      exact ⟨s.2, hu, Prod.ext hname.symm rfl⟩
  rw [unfold, map_eq_some_iff]
  constructor
  · rintro ⟨ts, hts, rfl⟩
    exact ⟨ts, rfl, (mapM_eq_some_iff.mp hts).imp fun c s h => (hstep c s).mp h⟩
  · rintro ⟨ts, rfl, hts⟩
    exact ⟨ts, mapM_eq_some_iff.mpr (hts.imp fun c s h => (hstep c s).mpr h), rfl⟩

theorem unfold_proxy {uuid : Uuid} {ref : List String} :
    unfold root (n + 1) (.node (.proxy uuid ref) cs) = some t ↔
      ∃ target, resolveProxyTarget root ref = some target ∧ unfold root n target = some t := by
  rw [unfold, bind_eq_some_iff]

theorem unfold_mono (h : unfold root n d = some t) (hnm : n ≤ m) : unfold root m d = some t := by
  induction n generalizing d t m with
  | zero => cases h
  | succ n ih =>
    obtain ⟨m, rfl⟩ : ∃ k, m = k + 1 := ⟨m - 1, by omega⟩
    have hle : n ≤ m := Nat.le_of_succ_le_succ hnm
    match d with
    | .node (.driver info) cs =>
      obtain ⟨ts, rfl, hts⟩ := unfold_driver.mp h
      exact unfold_driver.mpr ⟨ts, rfl, hts.imp fun c s hs => ⟨hs.1, ih hs.2 hle⟩⟩
    | .node (.proxy uuid ref) cs =>
      obtain ⟨target, htarget, ht⟩ := unfold_proxy.mp h
      exact unfold_proxy.mpr ⟨target, htarget, ih ht hle⟩

theorem unfold_unique {t' : NamedTree Info} (h : unfold root n d = some t)
    (h' : unfold root m d = some t') : t = t' := by
  have hn := unfold_mono h (Nat.le_max_left n m)
  have hm := unfold_mono h' (Nat.le_max_right n m)
  rw [hn] at hm
  exact Option.some.inj hm

theorem enumerate_of_unfold (h : unfold root n d = some t) (hnm : n ≤ m) (parent : Option Info)
    (name : Option String) : enumerate root m parent name d = .ok (t.preorder parent name) := by
  induction n generalizing d t m parent name with
  | zero => cases h
  | succ n ih =>
    obtain ⟨m, rfl⟩ : ∃ k, m = k + 1 := ⟨m - 1, by omega⟩
    have hle : n ≤ m := Nat.le_of_succ_le_succ hnm
    match d with
    | .node (.driver info) cs =>
      obtain ⟨ts, rfl, hts⟩ := unfold_driver.mp h
      have hbelow : ∃ lists, (cs.mapM fun c => enumerate root m (some info) (some c.1) c.2) =
          .ok lists ∧ lists.flatten = preorderAll info ts := by
        clear h
        induction hts with
        | nil => exact ⟨[], rfl, rfl⟩
        | @cons c s cs ts hs _ ihs =>
          obtain ⟨lists, hlists, hflat⟩ := ihs
          obtain ⟨hname, hunf⟩ := hs
          refine ⟨s.2.preorder (some info) (some c.1) :: lists, ?_, ?_⟩
          · rw [mapM_cons, ih hunf hle, hlists]
            rfl
          · rw [flatten_cons, hflat, ← hname]
            rfl
      obtain ⟨lists, hlists, hflat⟩ := hbelow
      rw [enumerate, hlists, preorder, ← hflat]
      rfl
    | .node (.proxy uuid ref) cs =>
      obtain ⟨target, htarget, ht⟩ := unfold_proxy.mp h
      rw [enumerate, htarget]
      exact ih ht hle parent name

theorem resolveProxyTarget_mem {path : List String}
    (h : resolveProxyTarget root path = some d) : d ∈ root.subtrees := by
  unfold resolveProxyTarget at h
  split at h
  · cases h
  · have hfold : ∀ (path : List String) (e : Driver), e ∈ root.subtrees →
        path.foldlM child e = some d → d ∈ root.subtrees := by
      intro path
      induction path with
      | nil =>
        intro e he h
        cases h
        exact he
      | cons name path ih =>
        intro e he h
        obtain ⟨c, hc, h⟩ := bind_eq_some_iff.mp h
        exact ih c (child_mem_subtrees he (Dict.mem_of_get hc)) h
    exact hfold path root (self_mem_subtrees root) h

theorem origin_of_unfold (h : unfold root n d = some t) (hd : d ∈ root.subtrees) {s : NamedTree Info}
    (hs : s ∈ t.subtrees) :
    ∃ k cs, node (.driver s.value) cs ∈ root.subtrees ∧
      unfold root k (.node (.driver s.value) cs) = some s := by
  induction n generalizing d t with
  | zero => cases h
  | succ n ih =>
    match d with
    | .node (.driver info) cs =>
      obtain ⟨ts, rfl, hts⟩ := unfold_driver.mp h
      rcases mem_subtrees.mp hs with rfl | ⟨c, hc, hsc⟩
      · exact ⟨n + 1, cs, hd, h⟩
      · obtain ⟨e, he, -, hunf⟩ := exists_of_forall₂ hts hc
        exact ih hunf (child_mem_subtrees hd he) hsc
    | .node (.proxy uuid ref) cs =>
      obtain ⟨target, htarget, ht⟩ := unfold_proxy.mp h
      exact ih ht (resolveProxyTarget_mem htarget) hs

def Distinct (t : NamedTree Info) : Prop :=
  ∀ s ∈ t.subtrees, ∀ c ∈ s.children, ∀ r ∈ c.2.subtrees, r.value.uuid ≠ s.value.uuid

/-- The children of every driver have distinct names. -/
def NamesDistinct (t : NamedTree Info) : Prop := ∀ s ∈ t.subtrees, (Dict.keys s.children).Nodup

theorem distinct_of_unfold (tree : DriverTree) (h : unfold tree.root n tree.root = some t) : Distinct t := by
  intro s hs c hc r hr heq
  have hroot := self_mem_subtrees tree.root
  obtain ⟨k, cs, hmem, hunf⟩ := origin_of_unfold h hroot hs
  have hrs : r ∈ s.subtrees := mem_subtrees.mpr (.inr ⟨c, hc, hr⟩)
  obtain ⟨k', cs', hmem', hunf'⟩ := origin_of_unfold hunf hmem hrs
  have hsame := inj_on_of_nodup_map tree.uuids hmem' hmem heq
  rw [hsame] at hunf'
  have hrt := unfold_unique hunf' hunf
  have hlt := size_lt hc hr
  rw [hrt] at hlt
  exact Nat.lt_irrefl _ hlt

theorem keys_of_forall₂ {ts : List (String × NamedTree Info)}
    (h : List.Forall₂ (fun c s => s.1 = c.1 ∧ unfold root n c.2 = some s.2) cs ts) :
    Dict.keys ts = Dict.keys cs := by
  induction h with
  | nil => rfl
  | cons hs _ ih => exact congrArg₂ List.cons hs.1 ih

theorem namesDistinct_of_unfold (tree : DriverTree) (h : unfold tree.root n tree.root = some t) :
    NamesDistinct t := by
  intro s hs
  obtain ⟨k, cs, hmem, hunf⟩ := origin_of_unfold h (self_mem_subtrees tree.root) hs
  cases k with
  | zero => cases hunf
  | succ k =>
    obtain ⟨ts, hts, hall⟩ := unfold_driver.mp hunf
    have hkeys : Dict.keys s.children = Dict.keys cs := by
      rw [hts]
      exact keys_of_forall₂ hall
    rw [hkeys]
    exact tree.names _ hmem

/-! ## The loop over the reports -/

/-- The reports of a list of nodes go through the loop and give the links `below`. -/
def Loops (s s' : Topo) (visits : List (NamedTree.Visit Info)) : Prop :=
  (visits.map report).foldlM Topo.add s = .ok s'

theorem Loops.append {s s₁ s₂ : Topo} {vs ws : List (NamedTree.Visit Info)} (h : Loops s s₁ vs)
    (h' : Loops s₁ s₂ ws) : Loops s s₂ (vs ++ ws) := by
  unfold Loops at *
  rw [map_append, foldlM_append, h]
  exact h'

variable {i : Nat}

theorem modify_append (hi : i < l.length) (l' : List α) (f : α → α) :
    (l ++ l').modify i f = l.modify i f ++ l' := by
  induction l generalizing i with
  | nil => cases hi
  | cons a l ih =>
    cases i with
    | zero => rfl
    | succ i => exact congrArg (a :: ·) (ih (Nat.lt_of_succ_lt_succ hi))

theorem modify_length (l : List α) (a : α) (f : α → α) : (l ++ [a]).modify l.length f = l ++ [f a] := by
  induction l with
  | nil => rfl
  | cons b l ih => exact congrArg (b :: ·) ih

/-- What the loop does with the nodes of `t`, a child of the driver `p` at index `j`: `t` is
numbered from the next index, its root is added to the children of `j`, and only the uuids of `t`
are seen. -/
def LoopTree (t : NamedTree Info) : Prop :=
  ∀ (s : Topo) (j : Nat) (p : Info) (name : Option String), s.lastSeen p.uuid = some j →
    j < s.topo.length → p.uuid ≠ t.value.uuid →
    ∃ s', Loops s s' (t.preorder (some p) name) ∧
      s'.topo = s.topo.modify j (· ++ [s.topo.length]) ++ t.links s.topo.length ∧
      ∀ u, (∀ r ∈ t.subtrees, r.value.uuid ≠ u) → s'.lastSeen u = s.lastSeen u

theorem loop_children {p : Info} {cs : List (String × NamedTree Info)}
    (hloop : ∀ c ∈ cs, LoopTree c.2)
    (hp : ∀ c ∈ cs, ∀ r ∈ c.2.subtrees, r.value.uuid ≠ p.uuid) (s : Topo) (j : Nat)
    (hseen : s.lastSeen p.uuid = some j) (hj : j < s.topo.length) :
    ∃ s', Loops s s' (preorderAll p cs) ∧
      s'.topo = s.topo.modify j (· ++ indices s.topo.length cs) ++
        linksAll s.topo.length cs ∧
      ∀ u, (∀ c ∈ cs, ∀ r ∈ c.2.subtrees, r.value.uuid ≠ u) → s'.lastSeen u = s.lastSeen u := by
  induction cs generalizing s with
  | nil =>
    have hid : s.topo.modify j (· ++ []) = s.topo := by
      rw [show (fun x : List Nat => x ++ []) = id from funext append_nil, modify_id]
    refine ⟨s, rfl, ?_, fun _ _ => rfl⟩
    rw [indices, linksAll, hid, append_nil]
  | cons c cs ih =>
    have hroot : p.uuid ≠ c.2.value.uuid :=
      (hp c mem_cons_self c.2 (self_mem_subtrees c.2)).symm
    obtain ⟨s₁, hl₁, ht₁, hs₁⟩ := hloop c mem_cons_self s j p (some c.1) hseen hj hroot
    have hlen : s₁.topo.length = s.topo.length + c.2.size := by
      rw [ht₁, length_append, length_modify, length_links]
    obtain ⟨s₂, hl₂, ht₂, hs₂⟩ := ih (fun d hd => hloop d (mem_cons_of_mem c hd))
      (fun d hd => hp d (mem_cons_of_mem c hd)) s₁
      ((hs₁ p.uuid (hp c mem_cons_self)).trans hseen) (by omega)
    refine ⟨s₂, hl₁.append hl₂, ?_, fun u hu => ?_⟩
    · have hj' : j < (s.topo.modify j (· ++ [s.topo.length])).length := by
        rw [length_modify]
        exact hj
      rw [ht₂, hlen, ht₁, modify_append hj', modify_modify_eq, append_assoc]
      simp only [indices, linksAll, Function.comp_def, append_assoc, singleton_append]
    · rw [hs₂ u fun d hd => hu d (mem_cons_of_mem c hd), hs₁ u (hu c mem_cons_self)]

theorem Distinct.child (h : Distinct t) {c : String × NamedTree Info} (hc : c ∈ t.children) :
    Distinct c.2 :=
  fun s hs => h s (mem_subtrees.mpr (.inr ⟨c, hc, hs⟩))

theorem loop_below {cs : List (String × NamedTree Info)} (hloop : ∀ c ∈ cs, LoopTree c.2)
    (hcs : ∀ c ∈ cs, ∀ r ∈ c.2.subtrees, r.value.uuid ≠ info.uuid) (topo : List (List Nat))
    (lastSeen : Uuid → Option Nat) :
    ∃ s', Loops ⟨topo ++ [[]], Function.update lastSeen info.uuid (some topo.length)⟩ s'
        (preorderAll info cs) ∧
      s'.topo = topo ++ (node info cs).links topo.length ∧
      ∀ u, (∀ r ∈ (node info cs).subtrees, r.value.uuid ≠ u) → s'.lastSeen u = lastSeen u := by
  obtain ⟨s', hl, ht, hs⟩ := loop_children hloop hcs
    ⟨topo ++ [[]], Function.update lastSeen info.uuid (some topo.length)⟩ topo.length
    (Function.update_self ..) (by simp)
  refine ⟨s', hl, ?_, fun u hu => ?_⟩
  · rw [ht, modify_length]
    simp [links]
  · rw [hs u fun c hc r hr => hu r (mem_subtrees.mpr (.inr ⟨c, hc, hr⟩))]
    exact Function.update_of_ne (hu _ (self_mem_subtrees _)).symm ..

theorem loop_tree (h : Distinct t) : LoopTree t := by
  induction t using induct with
  | node info cs ih =>
    intro s j p name hseen hj hne
    change p.uuid ≠ info.uuid at hne
    have hloop : ∀ c ∈ cs, LoopTree c.2 := fun c hc => ih c hc (h.child hc)
    have hcs := h _ (self_mem_subtrees _)
    obtain ⟨s', hl, ht, hs⟩ := loop_below hloop hcs (s.topo.modify j (· ++ [s.topo.length])) s.lastSeen
    rw [length_modify] at hl ht
    refine ⟨s', ?_, ht, hs⟩
    have hadd : s.add (report ⟨some p, name, info⟩) =
        .ok ⟨s.topo.modify j (· ++ [s.topo.length]) ++ [[]],
          Function.update s.lastSeen info.uuid (some s.topo.length)⟩ := by
      simp only [Topo.add, report, map_some, Function.update_of_ne hne, hseen, modify_append hj]
    unfold Loops
    rw [preorder, map_cons, foldlM_cons, hadd]
    exact hl

theorem loop_root (h : Distinct t) :
    ∃ s, ((t.preorder none none).map report).foldlM Topo.add {} = .ok s ∧ s.topo = t.links 0 := by
  cases t with
  | node info cs =>
    have hloop : ∀ c ∈ cs, LoopTree c.2 := fun c hc => loop_tree (h.child hc)
    have hcs := h _ (self_mem_subtrees _)
    obtain ⟨s', hl, ht, -⟩ := loop_below hloop hcs [] fun _ => none
    exact ⟨s', hl, ht⟩

/-! ## The clients -/

def reportedName (name : String) (info : Info) : String :=
  if name = "" then info.labelName else name

def classOf (importClass : String → Import) (path : String) : Option String :=
  if importClass path = .imported then some path else none

mutual
/-- The client that is built for a driver that its parent holds as `name`. -/
def clientOf (importClass : String → Import) (name : Option String) : NamedTree Info → Client
  | .node info cs =>
    .node ⟨info.uuid, reportLabels info name, classOf importClass info.client⟩
      (Dict.ofList (clientsOf importClass cs))

def clientsOf (importClass : String → Import) :
    List (String × NamedTree Info) → List (String × Client)
  | [] => []
  | (name, t) :: rest =>
    (reportedName name t.value, clientOf importClass (some name) t) :: clientsOf importClass rest
end

theorem clientsOf_eq (importClass : String → Import) (cs : List (String × NamedTree Info)) :
    clientsOf importClass cs =
      cs.map fun c => (reportedName c.1 c.2.value, clientOf importClass (some c.1) c.2) := by
  induction cs with
  | nil => rfl
  | cons c cs ih => exact congrArg (_ :: ·) ih

theorem label_clientKey (info : Info) (name : Option String) :
    label (reportLabels info name) clientKey = info.client := by
  have hne : (nameKey == clientKey) = false := by decide
  cases name with
  | none => simp [label, reportLabels, nameLabel, Dict.get]
  | some name =>
    by_cases h : name = "" <;> simp [label, reportLabels, nameLabel, Dict.get, h, hne]

theorem label_nameKey (info : Info) (name : String) :
    label (reportLabels info (some name)) nameKey = reportedName name info := by
  have hne : (clientKey == nameKey) = false := by decide
  by_cases h : name = ""
  · simp [label, reportLabels, nameLabel, Dict.get, reportedName, Info.labelName, h, hne]
  · simp [label, reportLabels, nameLabel, Dict.get, reportedName, h]

theorem clientClass_eq {importClass : String → Import} {path : String} (h : importClass path ≠ .raises) :
    clientClass importClass path = .ok (classOf importClass path) := by
  unfold clientClass classOf
  cases hi : importClass path with
  | imported => rfl
  | missing => rfl
  | raises => exact absurd hi h

section Build

variable {importClass : String → Import} {visits : List (NamedTree.Visit Info)}
  {topo : List (List Nat)} {clients : List (Nat × Client)}

/-- The reports at the indices `done` have their clients. -/
def Built (importClass : String → Import) (visits : List (NamedTree.Visit Info))
    (topo : List (List Nat)) (clients : List (Nat × Client)) (done : List Nat) : Prop :=
  ∀ i ∈ done, ∀ p name t, NamedTree.Laid visits topo i p name t →
    lookup clients i = some (clientOf importClass name t)

variable {done : List Nat}

theorem mapM_childEntry (hb : Built importClass visits topo clients done) {k : Nat} {parent : Info}
    {cs : List (String × NamedTree Info)} (hlaid : NamedTree.LaidAll visits topo k parent cs)
    (hdone : ∀ i ∈ indices k cs, i ∈ done) :
    (indices k cs).mapM (childEntry (visits.map report) clients) =
      some (clientsOf importClass cs) := by
  induction cs generalizing k with
  | nil => rfl
  | cons c cs ih =>
    obtain ⟨hc, hcs⟩ := hlaid.cons
    have hclient := hb k (hdone k mem_cons_self) _ _ _ hc
    have hentry : childEntry (visits.map report) clients k =
        some (reportedName c.1 c.2.value, clientOf importClass (some c.1) c.2) := by
      have hvisit : (visits.map report)[k]? = some (report ⟨some parent, some c.1, c.2.value⟩) := by
        rw [getElem?_map, hc.node.1]
        rfl
      simp only [childEntry, hvisit, hclient, report, label_nameKey]
    have hrest := ih hcs fun i hi => hdone i (mem_cons_of_mem _ hi)
    rw [indices, mapM_cons, hentry, hrest]
    rfl

theorem makeClient_eq (hb : Built importClass visits topo clients done) {p : Option Info}
    {name : Option String} {t : NamedTree Info} (hlaid : NamedTree.Laid visits topo i p name t)
    (hdone : ∀ k ∈ indices (i + 1) t.children, k ∈ done)
    (himport : importClass t.value.client ≠ .raises) :
    makeClient importClass (visits.map report) topo clients i =
      .ok ((i, clientOf importClass name t) :: clients) := by
  obtain ⟨hvisit, hlinks, hall⟩ := hlaid.node
  have hreport : (visits.map report)[i]? = some (report ⟨p, name, t.value⟩) := by
    rw [getElem?_map, hvisit]
    rfl
  have hchildren := mapM_childEntry hb hall hdone
  have hclass : clientClass importClass (label (report ⟨p, name, t.value⟩).labels clientKey) =
      .ok (classOf importClass t.value.client) := by
    rw [report, label_clientKey]
    exact clientClass_eq himport
  unfold makeClient
  rw [hreport, hlinks]
  simp only [orKeyError, bind, Except.bind, hclass, hchildren]
  cases t with
  | node info cs => rfl

theorem lookup_cons (i k : Nat) (c : Client) :
    lookup ((i, c) :: clients) k = if i = k then some c else lookup clients k := by
  unfold lookup
  by_cases h : i = k
  · simp [h]
  · simp [h]

theorem Built.concat (hb : Built importClass visits topo clients done) {c : Client}
    (hc : ∀ p name t, NamedTree.Laid visits topo i p name t → c = clientOf importClass name t) :
    Built importClass visits topo ((i, c) :: clients) (done ++ [i]) := by
  intro k hk p name t hlaid
  rw [lookup_cons]
  split
  · rename_i hik
    rw [hc p name t (hik ▸ hlaid)]
  · rename_i hik
    rcases mem_append.mp hk with hk | hk
    · exact hb k hk p name t hlaid
    · exact absurd (mem_singleton.mp hk).symm hik

theorem foldlM_makeClient {t : NamedTree Info} (hroot : NamedTree.Laid visits topo 0 none none t)
    (himports : Imports importClass t) {order : List Nat} (horder : Topological topo order)
    (hsize : topo.length = t.size) (rest : List Nat) :
    ∀ (done : List Nat) (clients : List (Nat × Client)), (∃ after, order = done ++ rest ++ after) →
      Built importClass visits topo clients done →
      ∃ clients', rest.foldlM (makeClient importClass (visits.map report) topo) clients =
          .ok clients' ∧ Built importClass visits topo clients' (done ++ rest) := by
  induction rest with
  | nil =>
    intro done clients _ hb
    exact ⟨clients, rfl, by rwa [append_nil]⟩
  | cons i rest ih =>
    rintro done clients ⟨after, hafter⟩ hb
    have hlt : i < 0 + t.size := by
      rw [Nat.zero_add, ← hsize, ← horder.mem, hafter]
      simp
    obtain ⟨⟨p, name, s, hs, hlaid⟩, -⟩ := hroot.index (Nat.zero_le i) hlt
    -- What the iteration does, whichever tree is laid at `i`.
    have hmake : ∀ p' name' s', NamedTree.Laid visits topo i p' name' s' →
        makeClient importClass (visits.map report) topo clients i =
          .ok ((i, clientOf importClass name' s') :: clients) := by
      intro p' name' s' hlaid'
      have hvisit := hlaid'.node.1
      rw [hlaid.node.1] at hvisit
      have hvalue : s.value = s'.value := congrArg NamedTree.Visit.value (Option.some.inj hvisit)
      refine makeClient_eq hb hlaid' ?_ (hvalue ▸ himports s hs)
      exact horder.before done i (rest ++ after) _ (by rw [hafter]; simp) hlaid'.node.2.1
    have hi := hmake p name s hlaid
    have hb' := hb.concat fun p' name' s' hlaid' => by
      have hi' := hmake p' name' s' hlaid'
      rw [hi] at hi'
      exact congrArg Prod.snd (List.cons.inj (Except.ok.inj hi')).1
    obtain ⟨clients', hfold, hb''⟩ := ih (done ++ [i]) _ ⟨after, by rw [hafter]; simp⟩ hb'
    refine ⟨clients', ?_, ?_⟩
    · rw [foldlM_cons, hi]
      exact hfold
    · rwa [append_assoc] at hb''

theorem foldlM_ok_mem {f : β → α → Except Error β} {b r : β} (h : l.foldlM f b = .ok r) {a : α} (ha : a ∈ l) :
    ∃ b' r', f b' a = .ok r' := by
  induction l generalizing b with
  | nil => cases ha
  | cons a' l ih =>
    obtain ⟨b', hb', h⟩ := bind_ok h
    rcases mem_cons.mp ha with rfl | ha
    · exact ⟨b, b', hb'⟩
    · exact ih h ha

theorem order_of_links (sorter : Sorter) (t : NamedTree Info) :
    ∃ init, sorter.staticOrder (t.links 0) = some (init ++ [0]) ∧ Topological (t.links 0) (init ++ [0]) := by
  have hdown := topological_reverse_range fun j ks h k hk => links_bounds (t := t) h hk
  cases hs : sorter.staticOrder (t.links 0) with
  | none => exact absurd hs (sorter.complete _ _ hdown)
  | some order =>
    have horder := sorter.sound _ _ hs
    have hpos : 0 < (t.links 0).length := by
      rw [length_links]
      exact t.size_pos
    obtain ⟨init, rfl⟩ := horder.last hpos fun i hi hne => by
      rw [length_links, ← Nat.zero_add t.size] at hi
      rcases ((NamedTree.Laid.root t none none).index (Nat.zero_le i) hi).2 with h | h
      · exact absurd h hne
      · exact h
    exact ⟨init, rfl, horder⟩

theorem clientFromChannel_eq (sorter : Sorter) {t : NamedTree Info} (hd : Distinct t)
    (himports : Imports importClass t) :
    clientFromChannel sorter importClass ((t.preorder none none).map report) =
      .ok (clientOf importClass none t) := by
  obtain ⟨s, hloop, htopo⟩ := loop_root hd
  obtain ⟨init, hsort, horder⟩ := order_of_links sorter t
  have hroot := NamedTree.Laid.root t none none
  obtain ⟨clients, hfold, hbuilt⟩ := foldlM_makeClient hroot himports horder
    (length_links t 0) init [] [] ⟨[0], rfl⟩ fun i hi => by cases hi
  have hlast := makeClient_eq hbuilt hroot
    (horder.before init 0 [] _ rfl hroot.node.2.1)
    (himports t (self_mem_subtrees t))
  unfold clientFromChannel
  rw [hloop]
  simp only [bind, Except.bind, htopo, hsort]
  rw [foldlM_append]
  simp only [bind, Except.bind, hfold]
  rw [foldlM_cons, hlast]
  rfl

theorem imports_of_ok {sorter : Sorter} {t : NamedTree Info} (hd : Distinct t) {c : Client}
    (h : clientFromChannel sorter importClass ((t.preorder none none).map report) = .ok c) :
    Imports importClass t := by
  obtain ⟨s, hloop, htopo⟩ := loop_root hd
  obtain ⟨init, hsort, horder⟩ := order_of_links sorter t
  unfold clientFromChannel at h
  rw [hloop] at h
  simp only [bind, Except.bind, htopo, hsort] at h
  obtain ⟨clients, hfold, -⟩ := bind_ok h
  intro r hr hraises
  have hvalue : r.value ∈ (t.preorder none none).map NamedTree.Visit.value := by
    rw [values_preorder]
    exact mem_map_of_mem hr
  obtain ⟨v, hv, hvr⟩ := mem_map.mp hvalue
  obtain ⟨i, hi⟩ := mem_iff_getElem?.mp hv
  have hmem : i ∈ init ++ [0] := by
    rw [horder.mem, length_links, ← length_preorder t none none]
    exact (List.getElem?_eq_some_iff.mp hi).1
  obtain ⟨cs, cs', hmake⟩ := foldlM_ok_mem hfold hmem
  have hreport : ((t.preorder none none).map report)[i]? = some (report v) := by
    rw [getElem?_map, hi]
    rfl
  have hclass : clientClass importClass (label (report v).labels clientKey) = .error .importing := by
    rw [report, label_clientKey, hvr, clientClass, hraises]
  unfold makeClient at hmake
  rw [hreport] at hmake
  simp only [orKeyError, bind, Except.bind, hclass] at hmake
  cases hmake

end Build

/-! ## Names -/

theorem reportedName_eq_iff {name : String} :
    reportedName name info = name ↔ (name = "" → info.labelName = "") := by
  unfold reportedName
  split
  · rename_i h
    subst h
    simp
  · rename_i h
    simp [h]

theorem NamesDistinct.child (h : NamesDistinct t) {c : String × NamedTree Info}
    (hc : c ∈ t.children) : NamesDistinct c.2 :=
  fun s hs => h s (mem_subtrees.mpr (.inr ⟨c, hc, hs⟩))

theorem namesKept_iff {t : NamedTree Info} :
    NamesKept t ↔ ∀ c ∈ t.children, reportedName c.1 c.2.value = c.1 ∧ NamesKept c.2 := by
  constructor
  · intro h c hc
    refine ⟨reportedName_eq_iff.mpr (h t (self_mem_subtrees t) c hc), fun s hs => ?_⟩
    exact h s (mem_subtrees.mpr (.inr ⟨c, hc, hs⟩))
  · intro h s hs
    rcases mem_subtrees.mp hs with rfl | ⟨c, hc, hsc⟩
    · exact fun c hc => reportedName_eq_iff.mp (h c hc).1
    · exact (h c hc).2 s hsc

theorem mirrors_clientOf_iff (importClass : String → Import) {t : NamedTree Info}
    (hn : NamesDistinct t) (name : Option String) :
    Mirrors (clientOf importClass name t) t ↔ NamesKept t := by
  induction t using induct generalizing name with
  | node info cs ih =>
    have hkeys : (Dict.keys cs).Nodup := hn _ (self_mem_subtrees _)
    have hchild : ∀ c ∈ cs, (clientOf importClass (some c.1) c.2).map ClientInfo.uuid =
        c.2.map Info.uuid ↔ NamesKept c.2 := fun c hc => ih c hc (hn.child hc) (some c.1)
    rw [namesKept_iff]
    constructor
    · intro h
      have hmap : (Dict.ofList (clientsOf importClass cs)).map
          (fun c => (c.1, c.2.map ClientInfo.uuid)) = cs.map fun c => (c.1, c.2.map Info.uuid) := by
        rw [← mapAll_eq, ← mapAll_eq]
        exact (node.inj h).2
      -- No entry was replaced, so the reported names are distinct, and the dict is the list.
      have hlen : (Dict.ofList (clientsOf importClass cs)).length = (clientsOf importClass cs).length := by
        have := congrArg List.length hmap
        rw [length_map, length_map] at this
        rw [this, clientsOf_eq, length_map]
      rw [Dict.ofList_of_nodup (Dict.nodup_of_length_ofList hlen), clientsOf_eq, List.map_map,
        map_inj_left] at hmap
      intro c hc
      obtain ⟨hname, htree⟩ := Prod.mk.inj (hmap c hc)
      exact ⟨hname, (hchild c hc).mp htree⟩
    · intro h
      have hclients : clientsOf importClass cs =
          cs.map fun c => (c.1, clientOf importClass (some c.1) c.2) := by
        rw [clientsOf_eq]
        exact map_congr_left fun c hc => by rw [(h c hc).1]
      have hof : Dict.ofList (clientsOf importClass cs) = clientsOf importClass cs := by
        refine Dict.ofList_of_nodup ?_
        rw [hclients, Dict.keys, List.map_map]
        exact hkeys
      change map _ (node _ (Dict.ofList (clientsOf importClass cs))) = _
      rw [hof, hclients, NamedTree.map, NamedTree.map, NamedTree.mapAll_eq, NamedTree.mapAll_eq, List.map_map]
      exact congrArg (node info.uuid) (map_congr_left fun c hc =>
        congrArg (Prod.mk c.1) ((hchild c hc).mpr (h c hc).2))

/-! ## The result -/

/-- For every tree of drivers that has an unfolding, the exporter reports it, and the client builds
its mirror exactly if no child without a name has another name in its labels and the imports of the
client classes are caught. -/
theorem mirrors_iff (sorter : Sorter) (importClass : String → Import) (tree : DriverTree) {n : Nat}
    {t : NamedTree Info} (h : unfold tree.root n tree.root = some t) :
    ∃ reports, (∀ m, n ≤ m → getReport m tree.root = .ok reports) ∧
      ((∃ c, clientFromChannel sorter importClass reports = .ok c ∧ Mirrors c t) ↔
        NamesKept t ∧ Imports importClass t) := by
  have hd := distinct_of_unfold tree h
  have hn := namesDistinct_of_unfold tree h
  refine ⟨(t.preorder none none).map report, fun m hm => ?_, ?_⟩
  · rw [getReport, enumerate_of_unfold h hm]
    rfl
  · constructor
    · rintro ⟨c, hc, hmirror⟩
      have himports := imports_of_ok hd hc
      rw [clientFromChannel_eq sorter hd himports] at hc
      cases hc
      exact ⟨(mirrors_clientOf_iff importClass hn none).mp hmirror, himports⟩
    · rintro ⟨hkept, himports⟩
      exact ⟨_, clientFromChannel_eq sorter hd himports, (mirrors_clientOf_iff importClass hn none).mpr hkept⟩

/-- A driver whose two proxies stand for a driver below another child, one through the other. -/
def proxyTree : DriverTree where
  root := .node (.driver { uuid := 0, client := "a.A" })
    [("alias", .node (.proxy 1 ["serial"]) []),
     ("serial", .node (.proxy 2 ["board", "power"]) []),
     ("board", .node (.driver { uuid := 3, client := "b.B" })
       [("power", .node (.driver { uuid := 4, client := "c.C" }) [])])]
  notProxy := ⟨_, rfl⟩
  names := by decide
  uuids := by decide

/-- Its unfolding has the driver `power` three times. -/
def proxyUnfolded : NamedTree Info :=
  .node { uuid := 0, client := "a.A" }
    [("alias", .node { uuid := 4, client := "c.C" } []),
     ("serial", .node { uuid := 4, client := "c.C" } []),
     ("board", .node { uuid := 3, client := "b.B" }
       [("power", .node { uuid := 4, client := "c.C" } [])])]

theorem mirrors_proxies : ∃ reports c, getReport 4 proxyTree.root = .ok reports ∧
    clientFromChannel Sorter.choice (fun _ => .imported) reports = .ok c ∧
    Mirrors c proxyUnfolded := by
  have hunf : unfold proxyTree.root 4 proxyTree.root = some proxyUnfolded := rfl
  have hkept : NamesKept proxyUnfolded := by
    unfold NamesKept
    decide
  have himports : Imports (fun _ => .imported) proxyUnfolded := fun _ _ h => by cases h
  obtain ⟨reports, hreports, hiff⟩ :=
    mirrors_iff Sorter.choice (fun _ => .imported) proxyTree hunf
  obtain ⟨c, hc, hmirror⟩ := hiff.mpr ⟨hkept, himports⟩
  exact ⟨reports, c, hreports 4 (Nat.le_refl 4), hc, hmirror⟩

/-- A driver with one child, whose name is `""` and whose own labels have the name `x`. -/
def unnamedTree : DriverTree where
  root := .node (.driver { uuid := 0, client := "a.A" })
    [("", .node (.driver { uuid := 1, labels := [(nameKey, "x")], client := "b.B" }) [])]
  notProxy := ⟨_, rfl⟩
  names := by decide
  uuids := by decide

/-- The client knows the child as `x`. -/
theorem mirrors_fails : ∃ t reports c, unfold unnamedTree.root 2 unnamedTree.root = some t ∧
    getReport 2 unnamedTree.root = .ok reports ∧
    clientFromChannel Sorter.choice (fun _ => .imported) reports = .ok c ∧
    Dict.keys t.children = [""] ∧ Dict.keys c.children = ["x"] ∧ ¬ Mirrors c t := by
  have hunf : unfold unnamedTree.root 2 unnamedTree.root =
      some (.node { uuid := 0, client := "a.A" }
        [("", .node { uuid := 1, labels := [(nameKey, "x")], client := "b.B" } [])]) := rfl
  have hd := distinct_of_unfold unnamedTree hunf
  refine ⟨_, _, _, hunf, rfl, clientFromChannel_eq Sorter.choice hd fun _ _ h => (by cases h), rfl,
    by decide, fun h => ?_⟩
  have hkept := (mirrors_clientOf_iff _ (namesDistinct_of_unfold unnamedTree hunf) none).mp h
  have hname := hkept _ (NamedTree.self_mem_subtrees _) _ mem_cons_self rfl
  exact absurd hname (by decide)

end Jumpstarter.Drivers

import Jumpstarter.Lib.Sys
import Mathlib.Tactic.Common

/-!
# The LUNs of the iSCSI driver

A call changes the driver's table, the LUN and its backstore one after the other, and each operation may fail.
The table names the LUNs, and no backstore is without one, in every run with one LUN at a time in which nothing
fails between two changes (`refines_of_smooth`). Each LUN is created with the index 0, so a second one is refused
when its backstore is already there (`not_refines`).
-/

namespace Jumpstarter.Iscsi

open Lib

inductive Op where
  /-- Fails, too, for a name, path or size that is not valid. -/
  | createStore
  | createLun
  | deleteLun
  | deleteStore
  /-- In `_cleanup_orphan_storage_objects`; what is not under `root_dir` counts as a failure. -/
  | deleteOrphan

/-- Which operations of a call fail; the text is the name of the backstore. -/
abbrev Fails := Op → String → Bool

structure St where
  /-- The keys of `_luns` and of `_storage_objects`. -/
  table : List String := []
  /-- `_tpg` is not `None`. -/
  tpg : Bool := false
  /-- The portal group exists. -/
  group : Bool := false
  /-- The backstore of the LUN with the index 0. The driver creates no other. -/
  lun : Option String := none
  stores : List String := []

namespace St

/-- `_configure_target`, which may end before there is a portal group, and whether it returned. -/
def configureTarget (s : St) (reached ok : Bool) : St × Bool :=
  if reached then ({ s with tpg := true, group := true }, ok) else (s, false)

def removeLun (s : St) (name : String) (fails : Fails) : St × Bool :=
  if !s.tpg || name ∉ s.table || fails .deleteLun name || s.lun = none then (s, false)
  else if fails .deleteStore name || name ∉ s.stores then ({ s with lun := none }, false)
  else
    ({ s with lun := none, stores := s.stores.filter (· ≠ name), table := s.table.filter (· ≠ name) }, true)

/-- `add_lun` after the removal. -/
def createLun (s : St) (name : String) (fails : Fails) : St × Bool :=
  if name ∈ s.table || fails .createStore name || name ∈ s.stores then (s, false)
  else
    let s := { s with stores := s.stores ++ [name] }
    if fails .createLun name || !s.group || s.lun ≠ none then (s, false)
    else ({ s with lun := some name, table := s.table ++ [name] }, true)

def addLun (s : St) (name : String) (fails : Fails) : St × Bool :=
  createLun (if name ∈ s.table then (s.removeLun name fails).1 else s) name fails

def clearTpgLuns (s : St) (fails : Fails) : St :=
  match s.lun with
  | none => s
  | some name =>
    -- `delete` of a storage object deletes its LUN first
    if !fails .deleteStore name then { s with lun := none, stores := s.stores.filter (· ≠ name) }
    else if fails .deleteLun name then s
    else { s with lun := none }

def clearAllLuns (s : St) (reached ok : Bool) (fails : Fails) : St × Bool :=
  match if s.tpg then (s, true) else s.configureTarget reached ok with
  | (s, false) => (s, false)
  | (s, true) =>
    let s := s.clearTpgLuns fails
    -- `_cleanup_orphan_storage_objects`
    let kept := fails .deleteOrphan
    ({ s with table := [], lun := s.lun.filter kept, stores := s.stores.filter kept }, true)

def removeLuns (s : St) (fails : Fails) : List String → St × Bool
  | [] => (s, true)
  | name :: names =>
    match s.removeLun name fails with
    | (s, false) => (s, false)
    | (s, true) => s.removeLuns fails names

/-- `stop`; the target is `deleted`, or there is none. -/
def stop (s : St) (deleted : Bool) (fails : Fails) : St × Bool :=
  match s.removeLuns fails s.table with
  | (s, false) => (s, false)
  | (s, true) => if deleted then ({ s with group := false, lun := none }, true) else (s, false)

end St

inductive Act where
  | start (reached ok : Bool)
  | addLun (name : String) (fails : Fails)
  | removeLun (name : String) (fails : Fails)
  | clearAllLuns (reached ok : Bool) (fails : Fails)
  | stop (deleted : Bool) (fails : Fails)

def St.call (s : St) : Act → St × Bool
  | .start reached ok => s.configureTarget reached ok
  | .addLun name fails => s.addLun name fails
  | .removeLun name fails => s.removeLun name fails
  | .clearAllLuns reached ok fails => s.clearAllLuns reached ok fails
  | .stop deleted fails => s.stop deleted fails

def sys : Sys St Act := ⟨(· = {}), fun s a => some (s.call a).1⟩

structure Refines (s : St) : Prop where
  listed : ∀ name, name ∈ s.table ↔ s.lun = some name
  backed : ∀ name ∈ s.stores, s.lun = some name

/-- The backstore can be deleted if the LUN can. -/
def whole (fails : Fails) (name : String) : Bool := fails .deleteLun name || !fails .deleteStore name

/-- Nothing fails between two changes, and a LUN is added to a started target without other LUNs. -/
def smooth (s : St) : Act → Bool
  | .start .. => true
  | .addLun name fails => whole fails name && (fails .createStore name ||
      s.group && s.table.all (· = name) && !fails .createLun name)
  | .removeLun name fails => whole fails name
  | .clearAllLuns _ _ fails => s.table.all fun name => !fails .deleteStore name || !fails .deleteOrphan name
  | .stop _ fails => s.table.all (whole fails)

structure Single (s : St) : Prop where
  table : s.table = s.lun.toList
  stores : s.stores = s.lun.toList
  lun : s.lun ≠ none → s.group = true
  group : s.group = true → s.tpg = true

variable {s : St} {name : String} {fails : Fails} {reached ok deleted : Bool}

abbrev St.bare (s : St) : St := { s with table := [], lun := none, stores := [] }

section

variable (h : Single s)
include h

theorem removeLun_cases (hw : whole fails name = true) :
    s.removeLun name fails = (s, false) ∨ s.removeLun name fails = (s.bare, true) := by
  obtain ⟨ht, hs, hl, hg⟩ := h
  unfold St.removeLun
  cases hl : s.lun with
  | none => simp
  | some n =>
    by_cases hn : name = n <;> cases hd : fails .deleteLun name <;> simp_all [whole]

theorem Single.bare : Single s.bare := ⟨rfl, rfl, nofun, h.group⟩

theorem Single.configureTarget : Single (s.configureTarget reached ok).1 := by
  cases reached with
  | false => exact h
  | true => exact ⟨h.table, h.stores, fun _ => rfl, fun _ => rfl⟩

theorem Single.createLun (hok : (fails .createStore name ||
    s.group && s.table.all (· = name) && !fails .createLun name) = true) :
    Single (s.createLun name fails).1 := by
  obtain ⟨ht, hs, -, hg⟩ := id h
  unfold St.createLun
  split
  · exact h
  · -- the name is not in the table, and no other name is
    have hl : s.lun = none := by
      cases hl : s.lun <;> simp_all
    constructor <;> simp_all

theorem Single.addLun (hok : smooth s (.addLun name fails) = true) : Single (s.addLun name fails).1 := by
  obtain ⟨hw, hok⟩ := Bool.and_eq_true_iff.mp hok
  unfold St.addLun
  split
  · rcases removeLun_cases h hw with he | he <;> rw [he]
    · exact h.createLun hok
    · refine h.bare.createLun ?_
      grind
  · exact h.createLun hok

theorem Single.clearAllLuns (hok : smooth s (.clearAllLuns reached ok fails) = true) :
    Single (s.clearAllLuns reached ok fails).1 := by
  obtain ⟨ht, hs, hlun, hg⟩ := id h
  unfold St.clearAllLuns
  cases hl : s.lun with
  | none =>
    have hc : Single (s.configureTarget reached ok).1 := h.configureTarget
    split
    · grind
    · constructor <;> grind [St.clearTpgLuns, St.configureTarget]
  | some name =>
    constructor <;> simp_all [smooth, St.clearTpgLuns] <;> grind

theorem Single.stop (hok : smooth s (.stop deleted fails) = true) : Single (s.stop deleted fails).1 := by
  have hremoved : s.removeLuns fails s.table = (s, false) ∨ s.removeLuns fails s.table = (s.bare, true) := by
    obtain ⟨ht, hs, -, -⟩ := id h
    rw [ht]
    cases hl : s.lun with
    | none =>
      cases s
      simp_all [St.removeLuns]
    | some name =>
      have hw : whole fails name = true := by simpa [smooth, ht, hl] using hok
      rcases removeLun_cases h hw with he | he <;> simp [St.removeLuns, he]
  unfold St.stop
  rcases hremoved with he | he <;> rw [he]
  · exact h
  · cases deleted with
    | true => exact ⟨rfl, rfl, nofun, nofun⟩
    | false => exact h.bare

end

theorem inductive_single : sys.InductiveIf (fun s a => smooth s a = true) Single where
  init s hs := by
    rw [hs]
    exact ⟨rfl, rfl, nofun, nofun⟩
  step s a s' h hok hst := by
    cases hst
    cases a with
    | start reached ok => exact h.configureTarget
    | addLun name fails => exact h.addLun hok
    | removeLun name fails =>
      show Single (s.removeLun name fails).1
      rcases removeLun_cases h hok with he | he <;> rw [he]
      · exact h
      · exact h.bare
    | clearAllLuns reached ok fails => exact h.clearAllLuns hok
    | stop deleted fails => exact h.stop hok

/-- **The table refines a map with one entry**, which a started target takes. -/
theorem refines_of_smooth (hs : sys.ReachIf (fun s a => smooth s a = true) s) :
    Refines s ∧ ∀ name, s.group = true → (∀ n ∈ s.table, n = name) →
      (s.addLun name fun _ _ => false).2 = true := by
  obtain ⟨ht, hs, -, hg⟩ := inductive_single.reach hs
  refine ⟨⟨by simp [ht], by simp [hs]⟩, fun name hgroup hn => ?_⟩
  cases hl : s.lun <;> simp_all [St.addLun, St.createLun, St.removeLun]

theorem refines_of_smooth_one : ∃ s : St, s.table = ["a"] ∧ Refines s := by
  have hrun : ((sys.execIf smooth {} [.start true true, .addLun "a" fun _ _ => false]).any
      (·.table = ["a"])) = true := by decide
  obtain ⟨s, hs, hp⟩ := Sys.ReachIf.execIf_any (.init rfl) _ hrun
  exact ⟨s, of_decide_eq_true hp, (refines_of_smooth hs).1⟩

theorem not_refines : ∃ s : St, sys.Reach s ∧ s.table = ["a"] ∧
    (s.addLun "b" fun _ _ => false).2 = false ∧ ¬Refines (s.addLun "b" fun _ _ => false).1 :=
  ⟨_, Sys.Reach.exec (.init rfl) [.start true true, .addLun "a" fun _ _ => false] rfl, rfl, by decide,
    fun h => absurd (h.backed "b" (by decide)) (by decide)⟩

end Jumpstarter.Iscsi

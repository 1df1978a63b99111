/-!
# Patching a response body

`_deep_merge_patch` and `_apply_patches` of the mitmproxy addon (`bundled_addon.py`). The body is changed in
place: a merge gives the value as it is afterwards and the exception that was raised, if any. An exception of
one key is logged and skipped if it is a `KeyError`, an `IndexError` or a `TypeError`; any other one ends the
whole merge.

What the text of a key and a template in a string mean is left open: `arrayKey` is the match of `_ARRAY_KEY_RE`
with `int` of its digits, and `renderString` the value of a string, which is the same each time it is asked for.

* `caught_deepMergePatch`: which exceptions leave the merge (`fits`).
* `mergeWith_obj`: a key changes the member at its base key, in a way that depends on that member only.
-/

namespace Jumpstarter.MitmPatch

open List

/-! ## JSON values -/

/-- A key of a dict. `array[index] = value` on a dict makes a key that is a number. -/
inductive Key where
  | name (text : String)
  | index (n : Nat)
  deriving DecidableEq

inductive Json where
  | null
  | bool (b : Bool)
  | num (literal : String)
  | str (text : String)
  | arr (items : List Json)
  | obj (members : List (Key × Json))

/-- `d.get(key)`. -/
def get (members : List (Key × Json)) (key : Key) : Option Json :=
  (members.find? fun p => p.1 = key).map Prod.snd

/-- `d[key] = value`. -/
def put : List (Key × Json) → Key → Json → List (Key × Json)
  | [], key, value => [(key, value)]
  | p :: members, key, value => if p.1 = key then (key, value) :: members else p :: put members key value

theorem get_cons (p : Key × Json) (members : List (Key × Json)) (key : Key) :
    get (p :: members) key = if p.1 = key then some p.2 else get members key := by
  by_cases h : p.1 = key <;> simp [get, h]

theorem get_put (members : List (Key × Json)) (key key' : Key) (value : Json) :
    get (put members key value) key' = if key = key' then some value else get members key' := by
  induction members with
  | nil => exact get_cons ..
  | cons p members ih =>
    unfold put
    by_cases hp : p.1 = key
    · rw [if_pos hp, get_cons, get_cons, hp]
      split <;> rfl
    · rw [if_neg hp, get_cons, get_cons, ih]
      by_cases h : p.1 = key'
      · rw [if_pos h, if_neg fun he => hp (h.trans he.symm), if_pos h]
      · rw [if_neg h, if_neg h]

def member : Json → Key → Option Json
  | .obj members, key => get members key
  | _, _ => none

/-! ## The merge -/

inductive Raised where
  | keyError
  | indexError
  | typeError
  | attributeError
  | valueError
  deriving DecidableEq

/-- `except (KeyError, IndexError, TypeError)`. -/
def Raised.caught : Raised → Bool
  | .keyError | .indexError | .typeError => true
  | .attributeError | .valueError => false

/-- What a merge leaves, and what it raises. -/
abbrev Merged := Json × Option Raised

section
/- The base key and the number of a key like `"modules[0]"`. The number is `none` if it has more digits than
`int` reads, which is a `ValueError`. -/
variable (arrayKey : String → Option (String × Option Nat))

/- The value of a patch is a dict if there is a merge for it. -/

/-- `target[key]` is merged with the value, or set to it. -/
def mergeMember (name : String) (value : Json) (merge : Option (Json → Merged)) (target : Json) : Merged :=
  match merge, target with
  | some merge, .obj members => match get members (.name name) with
    | some (.obj inner) => (.obj (put members (.name name) (merge (.obj inner)).1), (merge (.obj inner)).2)
    | _ => (.obj (put members (.name name) value), none)
  -- `target.get`
  | some _, target => (target, some .attributeError)
  | none, .obj members => (.obj (put members (.name name) value), none)
  | none, target => (target, some .typeError)

/-- `array[index]` is merged with the value, or set to it. -/
@[simp] def setItem (index : Nat) (value : Json) (merge : Option (Json → Merged)) (array : Json) : Merged :=
  match array with
  | .arr items =>
    let extended := items ++ List.replicate (index + 1 - items.length) (.obj [])
    match merge with
    | some merge =>
      let merged := merge (extended.getD index .null)
      (.arr (extended.set index merged.1), merged.2)
    | none => (.arr (extended.set index value), none)
  | .str text =>
    -- `array.append`
    if text.length ≤ index then (.str text, some .attributeError)
    else match merge with
      | some merge => (.str text, (merge (.str (String.ofList ((text.toList.drop index).take 1)))).2)
      | none => (.str text, some .typeError)
  | .obj members =>
    if members.length ≤ index then (.obj members, some .attributeError)
    else match merge with
      | some merge => match get members (.index index) with
        | some item => (.obj (put members (.index index) (merge item).1), (merge item).2)
        | none => (.obj members, some .keyError)
      | none => (.obj (put members (.index index) value), none)
  -- `len(array)`
  | array => (array, some .typeError)

/-- The item `index` of `target[base]`. Only a dict can be asked for a text. -/
def mergeItem (base : String) (index : Nat) (value : Json) (merge : Option (Json → Merged)) (target : Json) :
    Merged :=
  match target with
  | .obj members =>
    let merged := setItem index value merge ((get members (.name base)).getD (.arr []))
    (.obj (put members (.name base) merged.1), merged.2)
  | target => (target, some .typeError)

def mergeWith (key : Key) (value : Json) (merge : Option (Json → Merged)) (target : Json) : Merged :=
  match key with
  | .index _ => (target, some .typeError)
  | .name name => match arrayKey name with
    | some (_, none) => (target, some .valueError)
    | some (base, some index) => mergeItem base index value merge target
    | none => mergeMember name value merge target

mutual

def deepMergePatch : List (Key × Json) → Json → Merged
  | [], target => (target, none)
  | (key, value) :: patch, target =>
    match mergeKey key value target with
    | (target, none) => deepMergePatch patch target
    | (target, some e) => if e.caught then deepMergePatch patch target else (target, some e)

def mergeKey (key : Key) : Json → Json → Merged
  | .obj members, target => mergeWith arrayKey key (.obj members) (some (deepMergePatch members)) target
  | value, target => mergeWith arrayKey key value none target

end

/-! ## Exceptions that leave the merge -/

@[simp] def fitsItem (index : Nat) (fits : Option (Json → Bool)) : Json → Bool
  | .arr items => fits.all fun fits =>
    fits ((items ++ List.replicate (index + 1 - items.length) (Json.obj [])).getD index .null)
  | .str text => decide (index < text.length) && fits.all fun fits =>
    fits (.str (String.ofList ((text.toList.drop index).take 1)))
  | .obj members => decide (index < members.length) && fits.all fun fits =>
    (get members (.index index)).all fits
  | _ => true

/-- The key raises nothing that is not caught: its number can be read; a dict is merged into a dict, and if
there is already a dict then that one fits; an object or a text that stands for an array has the item. -/
def fitsWith (key : Key) (fits : Option (Json → Bool)) (target : Json) : Bool :=
  match key with
  | .index _ => true
  | .name name => match arrayKey name with
    | some (_, none) => false
    | some (base, some index) => match target with
      | .obj members => fitsItem index fits ((get members (.name base)).getD (.arr []))
      | _ => true
    | none => fits.all fun fits => match target with
      | .obj members => match get members (.name name) with
        | some (.obj inner) => fits (.obj inner)
        | _ => true
      | _ => false

mutual

/-- Each key of the patch fits the target that it meets at its turn. -/
def fits : List (Key × Json) → Json → Bool
  | [], _ => true
  | (key, value) :: patch, target =>
    fitsKey key value target && fits patch (mergeKey arrayKey key value target).1

def fitsKey (key : Key) : Json → Json → Bool
  | .obj members, target => fitsWith arrayKey key (some (fits members)) target
  | _, target => fitsWith arrayKey key none target

end

variable {arrayKey}

/-- A merge raises only what is caught exactly if the target fits it. -/
def Agree : Option (Json → Merged) → Option (Json → Bool) → Prop
  | some merge, some fits => ∀ target, (merge target).2.all Raised.caught = fits target
  | none, none => True
  | _, _ => False

section
variable {merge : Option (Json → Merged)} {f : Option (Json → Bool)}

theorem caught_setItem (h : Agree merge f) (index : Nat) (value array : Json) :
    (setItem index value merge array).2.all Raised.caught = fitsItem index f array := by
  match merge, f, h with
  | none, none, _ =>
    cases array with
    | str text =>
      by_cases hlen : text.length ≤ index
      · simp [hlen, Raised.caught, Nat.not_lt.mpr hlen]
      · simp [hlen, Raised.caught, Nat.not_le.mp hlen]
    | obj members =>
      by_cases hlen : members.length ≤ index
      · simp [hlen, Raised.caught, Nat.not_lt.mpr hlen]
      · simp [hlen, Nat.not_le.mp hlen]
    | _ => rfl
  | some merge, some fits, h =>
    have h : ∀ target, (merge target).2.all Raised.caught = fits target := h
    cases array with
    | arr items => exact h _
    | str text =>
      by_cases hlen : text.length ≤ index
      · simp [hlen, Raised.caught, Nat.not_lt.mpr hlen]
      · simp [hlen, Nat.not_le.mp hlen, h]
    | obj members =>
      by_cases hlen : members.length ≤ index
      · simp [hlen, Raised.caught, Nat.not_lt.mpr hlen]
      · cases hget : get members (.index index) with
        | none => simp [hlen, hget, Raised.caught, Nat.not_le.mp hlen]
        | some item => simp [hlen, hget, h, Nat.not_le.mp hlen]
    | _ => rfl

theorem caught_mergeWith (h : Agree merge f) (key : Key) (value target : Json) :
    (mergeWith arrayKey key value merge target).2.all Raised.caught = fitsWith arrayKey key f target := by
  cases key with
  | index n => rfl
  | name name =>
    cases hkey : arrayKey name with
    | some p =>
      obtain ⟨base, index⟩ := p
      cases index with
      | none => simp [mergeWith, fitsWith, hkey, Raised.caught]
      | some index =>
        simp only [mergeWith, fitsWith, hkey]
        cases target with
        | obj members => exact caught_setItem h ..
        | _ => rfl
    | none =>
      simp only [mergeWith, fitsWith, hkey]
      match merge, f, h with
      | none, none, _ => cases target <;> rfl
      | some merge, some fits, h =>
        cases target with
        | obj members =>
          simp only [mergeMember, Option.all_some]
          split
          · exact h _
          · rfl
        | _ => rfl

end

mutual

theorem caught_deepMergePatch (patch : List (Key × Json)) (target : Json) :
    (deepMergePatch arrayKey patch target).2.all Raised.caught = fits arrayKey patch target := by
  match patch with
  | [] => rfl
  | (key, value) :: patch =>
    have hkey := caught_mergeKey key value target
    unfold deepMergePatch fits
    rw [← hkey]
    match hm : mergeKey arrayKey key value target with
    | (target', none) => simpa using caught_deepMergePatch patch target'
    | (target', some e) =>
      cases hc : e.caught with
      | true => simpa [hc] using caught_deepMergePatch patch target'
      | false => simp [hc]

theorem caught_mergeKey (key : Key) (value target : Json) :
    (mergeKey arrayKey key value target).2.all Raised.caught = fitsKey arrayKey key value target := by
  match value with
  | .obj members =>
    have hagree : Agree (some (deepMergePatch arrayKey members)) (some (fits arrayKey members)) :=
      fun target' => caught_deepMergePatch members target'
    exact caught_mergeWith hagree ..
  | .null | .bool _ | .num _ | .str _ | .arr _ =>
    have hagree : Agree none none := trivial
    exact caught_mergeWith hagree ..

end

/-! ## One key -/

/-- The key of the target that a key of the patch addresses. -/
def base (arrayKey : String → Option (String × Option Nat)) : Key → Key
  | .index n => .index n
  | .name name => match arrayKey name with
    | some (base, _) => .name base
    | none => .name name

theorem mergeWith_obj (arrayKey : String → Option (String × Option Nat)) (key : Key) (value : Json)
    (merge : Option (Json → Merged)) :
    ∃ change : Option Json → Option Json, ∀ members, ∃ members',
      (mergeWith arrayKey key value merge (.obj members)).1 = .obj members' ∧
      get members' (base arrayKey key) = change (get members (base arrayKey key)) ∧
      ∀ key', key' ≠ base arrayKey key → get members' key' = get members key' := by
  have hput : ∀ (members : List (Key × Json)) (name : String) (item : Json),
      get (put members (.name name) item) (.name name) = some item ∧
      ∀ key', key' ≠ .name name → get (put members (.name name) item) key' = get members key' := by
    intro members name item
    exact ⟨by rw [get_put, if_pos rfl], fun key' hne => by rw [get_put, if_neg (Ne.symm hne)]⟩
  cases key with
  | index n => exact ⟨id, fun members => ⟨members, rfl, rfl, fun _ _ => rfl⟩⟩
  | name name =>
    cases hkey : arrayKey name with
    | some p =>
      obtain ⟨base', index⟩ := p
      simp only [mergeWith, base, hkey]
      cases index with
      | none => exact ⟨id, fun members => ⟨members, rfl, rfl, fun _ _ => rfl⟩⟩
      | some index =>
        refine ⟨fun item => some (setItem index value merge (item.getD (.arr []))).1, fun members => ?_⟩
        exact ⟨_, rfl, hput members base' _⟩
    | none =>
      simp only [mergeWith, base, hkey]
      cases merge with
      | none => exact ⟨fun _ => some value, fun members => ⟨_, rfl, hput members name value⟩⟩
      | some merge =>
        refine ⟨fun item => match item with
          | some (.obj inner) => some (merge (.obj inner)).1
          | _ => some value, fun members => ?_⟩
        simp only [mergeMember]
        split <;> exact ⟨_, rfl, hput members name _⟩

theorem mergeKey_eq (arrayKey : String → Option (String × Option Nat)) (key : Key) (value : Json) :
    ∃ merge, ∀ target, mergeKey arrayKey key value target = mergeWith arrayKey key value merge target := by
  cases value with
  | obj members => exact ⟨_, fun _ => rfl⟩
  | _ => exact ⟨none, fun _ => rfl⟩

theorem mergeKey_obj (arrayKey : String → Option (String × Option Nat)) (key : Key) (value : Json) :
    ∃ change : Option Json → Option Json, ∀ members, ∃ members',
      (mergeKey arrayKey key value (.obj members)).1 = .obj members' ∧
      get members' (base arrayKey key) = change (get members (base arrayKey key)) ∧
      ∀ key', key' ≠ base arrayKey key → get members' key' = get members key' := by
  obtain ⟨merge, hmerge⟩ := mergeKey_eq arrayKey key value
  obtain ⟨change, hchange⟩ := mergeWith_obj arrayKey key value merge
  refine ⟨change, fun members => ?_⟩
  rw [hmerge]
  exact hchange members

variable {key : Key} {value : Json}

theorem member_mergeKey_congr {members other : List (Key × Json)}
    (h : get members (base arrayKey key) = get other (base arrayKey key)) :
    member (mergeKey arrayKey key value (.obj members)).1 (base arrayKey key) =
      member (mergeKey arrayKey key value (.obj other)).1 (base arrayKey key) := by
  obtain ⟨change, hchange⟩ := mergeKey_obj arrayKey key value
  obtain ⟨members', hmembers, hmember, -⟩ := hchange members
  obtain ⟨other', hother, hmember', -⟩ := hchange other
  rw [hmembers, hother]
  exact hmember.trans ((congrArg change h).trans hmember'.symm)

/-! ## All keys -/

theorem deepMergePatch_cons {patch : List (Key × Json)} {target : Json}
    (h : fitsKey arrayKey key value target = true) :
    deepMergePatch arrayKey ((key, value) :: patch) target =
      deepMergePatch arrayKey patch (mergeKey arrayKey key value target).1 := by
  rw [← caught_mergeKey] at h
  rw [deepMergePatch]
  match hm : mergeKey arrayKey key value target with
  | (target', none) => rfl
  | (target', some e) =>
    rw [hm] at h
    exact if_pos h

theorem deepMergePatch_obj {patch : List (Key × Json)} (hbase : (patch.map fun p => base arrayKey p.1).Nodup)
    {members : List (Key × Json)} (hfits : fits arrayKey patch (.obj members) = true) :
    ∃ members', (deepMergePatch arrayKey patch (.obj members)).1 = .obj members' ∧
      (∀ key, key ∉ patch.map (fun p => base arrayKey p.1) → get members' key = get members key) ∧
      ∀ p ∈ patch, get members' (base arrayKey p.1) =
        member (mergeKey arrayKey p.1 p.2 (.obj members)).1 (base arrayKey p.1) := by
  induction patch generalizing members with
  | nil => exact ⟨members, rfl, fun _ _ => rfl, fun _ hp => absurd hp not_mem_nil⟩
  | cons p patch ih =>
    obtain ⟨key, value⟩ := p
    obtain ⟨hhead, htail⟩ := nodup_cons.mp hbase
    obtain ⟨hkey, hrest⟩ := Bool.and_eq_true_iff.mp hfits
    obtain ⟨_, hchange⟩ := mergeKey_obj arrayKey key value
    obtain ⟨members₁, hmembers₁, -, hothers⟩ := hchange members
    rw [hmembers₁] at hrest
    obtain ⟨members', hmembers', hkept, heach⟩ := ih htail hrest
    refine ⟨members', by rw [deepMergePatch_cons hkey, hmembers₁, hmembers'], fun key' hmem => ?_, ?_⟩
    · rw [map_cons, mem_cons, not_or] at hmem
      rw [hkept key' hmem.2, hothers key' hmem.1]
    · refine forall_mem_cons.mpr ⟨?_, fun p hp => ?_⟩
      · rw [hkept _ hhead, hmembers₁]
        rfl
      · have hne : base arrayKey p.1 ≠ base arrayKey key := fun he =>
          hhead (mem_map.mpr ⟨p, hp, he⟩)
        rw [heach p hp]
        exact member_mergeKey_congr (hothers _ hne)

/-! ## Applying a patch -/

/- The value of a string with templates; `none`: a `ValueError`. -/
variable (renderString : String → Option Json)

mutual

def render : Json → Option Json
  | .str text => renderString text
  | .arr items => (renderItems items).map .arr
  | .obj members => (renderMembers members).map .obj
  | value => some value

def renderItems : List Json → Option (List Json)
  | [] => some []
  | item :: items => (render item).bind fun item => (renderItems items).map (item :: ·)

def renderMembers : List (Key × Json) → Option (List (Key × Json))
  | [] => some []
  | (key, value) :: members =>
    (render value).bind fun value => (renderMembers members).map ((key, value) :: ·)

end

/-- `_apply_patches` of a body that is JSON, up to the text of the result. -/
def applyPatches (arrayKey : String → Option (String × Option Nat)) (body : Json) (patches : List (Key × Json)) :
    Except Raised Json :=
  match renderMembers renderString patches with
  | none => .error .valueError
  | some rendered => match deepMergePatch arrayKey rendered body with
    | (body, none) => .ok body
    | (body, some e) => if e.caught then .ok body else .error e

/-- A result is returned; and, if no two keys have the same base key, then a key that raises nothing as the only
key of the patch has left there what it leaves as the only key. -/
def Independent (arrayKey : String → Option (String × Option Nat)) (body : Json)
    (patches : List (Key × Json)) : Prop :=
  ∃ result, applyPatches renderString arrayKey body patches = .ok result ∧
    ((patches.map fun p => base arrayKey p.1).Nodup → ∀ p ∈ patches, ∀ value ∈ render renderString p.2,
      ∀ alone, mergeKey arrayKey p.1 value body = (alone, none) →
        member result (base arrayKey p.1) = member alone (base arrayKey p.1))

variable {renderString}

theorem renderMembers_spec {patches rendered : List (Key × Json)}
    (h : renderMembers renderString patches = some rendered) :
    rendered.map Prod.fst = patches.map Prod.fst ∧
    ∀ p ∈ patches, ∀ value, render renderString p.2 = some value → (p.1, value) ∈ rendered := by
  induction patches generalizing rendered with
  | nil =>
    cases h
    exact ⟨rfl, fun _ hp => absurd hp not_mem_nil⟩
  | cons p patches ih =>
    obtain ⟨value', hvalue, hrest⟩ := Option.bind_eq_some_iff.mp h
    obtain ⟨rest, hrendered, rfl⟩ := Option.map_eq_some_iff.mp hrest
    obtain ⟨hkeys, hmem⟩ := ih hrendered
    refine ⟨by rw [map_cons, map_cons, hkeys], forall_mem_cons.mpr ⟨fun v hv => ?_, ?_⟩⟩
    · obtain rfl : value' = v := Option.some.inj (hvalue.symm.trans hv)
      exact mem_cons_self
    · exact fun p hp v hv => mem_cons_of_mem _ (hmem p hp v hv)

theorem applyPatches_ok {body result : Json} {patches : List (Key × Json)} :
    applyPatches renderString arrayKey body patches = .ok result ↔
      ∃ rendered, renderMembers renderString patches = some rendered ∧ fits arrayKey rendered body = true ∧
        (deepMergePatch arrayKey rendered body).1 = result := by
  unfold applyPatches
  cases renderMembers renderString patches with
  | none => simp
  | some rendered =>
    have hcaught : (deepMergePatch arrayKey rendered body).2.all Raised.caught = fits arrayKey rendered body :=
      caught_deepMergePatch rendered body
    simp only [Option.some.injEq, exists_eq_left', ← hcaught]
    match deepMergePatch arrayKey rendered body with
    | (body', none) => simp
    | (body', some e) => cases hc : e.caught <;> simp [hc]

theorem mergeKey_ne_none {target : Json} (h : (mergeKey arrayKey key value target).2 = none) :
    ∃ members, target = .obj members := by
  obtain ⟨merge, hmerge⟩ := mergeKey_eq arrayKey key value
  rw [hmerge] at h
  cases target with
  | obj members => exact ⟨members, rfl⟩
  | _ =>
    cases key with
    | index n => cases h
    | name name =>
      cases hkey : arrayKey name with
      | some p =>
        obtain ⟨base', index⟩ := p
        cases index <;> simp [mergeWith, hkey, mergeItem] at h
      | none => cases merge <;> simp [mergeWith, hkey, mergeMember] at h

end

/-- **A failing patch key does not block the others** exactly if the templates of the patch can be rendered and
each key fits what it meets at its turn: its number can be read, a dict is merged into a dict, and an object or
a text that stands where an array is expected has the item. -/
theorem independent_iff (renderString : String → Option Json)
    (arrayKey : String → Option (String × Option Nat)) (body : Json) (patches : List (Key × Json)) :
    Independent renderString arrayKey body patches ↔
      ∃ rendered, renderMembers renderString patches = some rendered ∧ fits arrayKey rendered body = true := by
  constructor
  · rintro ⟨result, hresult, -⟩
    obtain ⟨rendered, hrendered, hfits, -⟩ := applyPatches_ok.mp hresult
    exact ⟨rendered, hrendered, hfits⟩
  · rintro ⟨rendered, hrendered, hfits⟩
    refine ⟨_, applyPatches_ok.mpr ⟨rendered, hrendered, hfits, rfl⟩, fun hbase p hp value hvalue alone halone => ?_⟩
    obtain ⟨members, rfl⟩ := mergeKey_ne_none (by rw [halone])
    obtain ⟨hkeys, hmem⟩ := renderMembers_spec hrendered
    have hbase' : (rendered.map fun p => base arrayKey p.1).Nodup := by
      have hmap := congrArg (List.map (base arrayKey)) hkeys
      rw [map_map, map_map] at hmap
      exact hmap ▸ hbase
    obtain ⟨members', hmembers', -, heach⟩ := deepMergePatch_obj hbase' hfits
    have heffect := heach _ (hmem p hp value hvalue)
    rw [halone] at heffect
    rw [hmembers']
    exact heffect

/-- `_ARRAY_KEY_RE` and `int`, for digits of ASCII. -/
def asciiArrayKey (key : String) : Option (String × Option Nat) :=
  let chars := key.toList.reverse
  match if chars.head? = some '\n' then chars.tail else chars with
  | ']' :: rest =>
    let digits := (rest.takeWhile Char.isDigit).reverse
    match rest.dropWhile Char.isDigit with
    | '[' :: base =>
      if digits = [] ∨ base = [] ∨ '\n' ∈ base then none
      else some (String.ofList base.reverse,
        if 4300 < digits.length then none
        else some (digits.foldl (fun n c => 10 * n + (c.toNat - '0'.toNat)) 0))
    | _ => none
  | _ => none

example : asciiArrayKey "modules[0][12]" = some ("modules[0]", some 12) := by decide +kernel

/-- The body `{"a": {}}` with the patch `{"a[0]": 1, "b": 2}`, and the body `[]` with the patch
`{"a": {"b": 1}}`: an `AttributeError` leaves the merge. -/
theorem not_independent :
    ¬Independent (fun text => some (.str text)) asciiArrayKey (.obj [(.name "a", .obj [])])
      [(.name "a[0]", .num "1"), (.name "b", .num "2")] ∧
    ¬Independent (fun text => some (.str text)) asciiArrayKey (.arr [])
      [(.name "a", .obj [(.name "b", .num "1")])] := by
  refine ⟨?_, ?_⟩
  · rintro ⟨result, hresult, -⟩
    have hraised : applyPatches (fun text => some (.str text)) asciiArrayKey (.obj [(.name "a", .obj [])])
        [(.name "a[0]", .num "1"), (.name "b", .num "2")] = .error .attributeError := by rfl
    cases hresult
  · rintro ⟨result, hresult, -⟩
    have hraised : applyPatches (fun text => some (.str text)) asciiArrayKey (.arr [])
        [(.name "a", .obj [(.name "b", .num "1")])] = .error .attributeError := by rfl
    cases hresult

end Jumpstarter.MitmPatch

import Mathlib.Data.List.Sort
import Mathlib.Data.List.Nodup
import Mathlib.Order.Basic
import Mathlib.Tactic.SplitIfs

/-! Finite maps kept as a list of entries in strictly increasing key order. The order is part of
the value, so iteration visits the keys in order and two maps with the same lookups are equal.
Nothing here depends on what the keys and values are. -/

/-- An ordered map: the entries, strictly increasing in their keys. -/
structure OrderedMap (κ ν : Type) [LinearOrder κ] where
  entries : List (κ × ν)
  sorted : entries.Pairwise fun left right => left.1 < right.1

namespace OrderedMap

variable {κ ν : Type} [LinearOrder κ]

def insertEntry (key : κ) (value : ν) : List (κ × ν) → List (κ × ν)
  | [] => [(key, value)]
  | entry :: rest =>
      if key < entry.1 then (key, value) :: entry :: rest
      else if key = entry.1 then (key, value) :: rest
      else entry :: insertEntry key value rest

theorem mem_insertEntry {key : κ} {value : ν} {entry : κ × ν} {entries : List (κ × ν)}
    (h : entry ∈ insertEntry key value entries) : entry = (key, value) ∨ entry ∈ entries := by
  induction entries with
  | nil => exact Or.inl (List.mem_singleton.mp h)
  | cons head rest ih =>
      rw [insertEntry] at h
      split_ifs at h with hlt heq
      · exact List.mem_cons.mp h
      · rcases List.mem_cons.mp h with h | h
        · exact Or.inl h
        · exact Or.inr (List.mem_cons_of_mem _ h)
      · rcases List.mem_cons.mp h with h | h
        · exact Or.inr (h ▸ List.mem_cons_self)
        · exact (ih h).imp_right (List.mem_cons_of_mem _)

theorem insertEntry_sorted (key : κ) (value : ν) {entries : List (κ × ν)}
    (h : entries.Pairwise fun left right => left.1 < right.1) :
    (insertEntry key value entries).Pairwise fun left right => left.1 < right.1 := by
  induction entries with
  | nil => exact List.pairwise_singleton _ _
  | cons head rest ih =>
      obtain ⟨hhead, hrest⟩ := List.pairwise_cons.mp h
      rw [insertEntry]
      split_ifs with hlt heq
      · refine List.pairwise_cons.mpr ⟨fun entry hentry => ?_, h⟩
        rcases List.mem_cons.mp hentry with rfl | hentry
        · exact hlt
        · exact hlt.trans (hhead entry hentry)
      · exact List.pairwise_cons.mpr ⟨fun entry hentry => heq ▸ hhead entry hentry, hrest⟩
      · refine List.pairwise_cons.mpr ⟨fun entry hentry => ?_, ih hrest⟩
        rcases mem_insertEntry hentry with rfl | hentry
        · exact lt_of_le_of_ne (not_lt.mp hlt) (Ne.symm heq)
        · exact hhead entry hentry

def empty : OrderedMap κ ν := ⟨[], List.Pairwise.nil⟩

def insert (map : OrderedMap κ ν) (key : κ) (value : ν) : OrderedMap κ ν :=
  ⟨insertEntry key value map.entries, insertEntry_sorted key value map.sorted⟩

def erase (map : OrderedMap κ ν) (key : κ) : OrderedMap κ ν :=
  ⟨map.entries.filter fun entry => entry.1 ≠ key, map.sorted.filter _⟩

def get? (map : OrderedMap κ ν) (key : κ) : Option ν :=
  (map.entries.find? fun entry => entry.1 = key).map Prod.snd

def keys (map : OrderedMap κ ν) : List κ := map.entries.map Prod.fst

/-- Later entries of the list replace earlier ones with the same key. -/
def ofList (entries : List (κ × ν)) : OrderedMap κ ν :=
  entries.foldl (fun map entry => map.insert entry.1 entry.2) empty

theorem keys_sorted (map : OrderedMap κ ν) : map.keys.Pairwise (· < ·) :=
  List.pairwise_map.mpr map.sorted

theorem keys_nodup (map : OrderedMap κ ν) : map.keys.Nodup :=
  map.keys_sorted.imp ne_of_lt

theorem entry_unique (map : OrderedMap κ ν) {left right : κ × ν} (hleft : left ∈ map.entries)
    (hright : right ∈ map.entries) (hkey : left.1 = right.1) : left = right :=
  List.inj_on_of_nodup_map map.keys_nodup hleft hright hkey

theorem mem_entries_iff (map : OrderedMap κ ν) {key : κ} {value : ν} :
    (key, value) ∈ map.entries ↔ map.get? key = some value := by
  rw [get?, Option.map_eq_some_iff]
  constructor
  · intro hmem
    cases hfind : map.entries.find? fun entry => entry.1 = key with
    | none =>
        have := List.find?_eq_none.mp hfind _ hmem
        simp at this
    | some entry =>
        have hkey := List.find?_some hfind
        have := map.entry_unique (List.mem_of_find?_eq_some hfind) hmem (by simpa using hkey)
        exact ⟨entry, rfl, by rw [this]⟩
  · rintro ⟨entry, hfind, rfl⟩
    have hkey : entry.1 = key := by simpa using List.find?_some hfind
    have hmem := List.mem_of_find?_eq_some hfind
    rwa [← hkey]

theorem mem_keys_iff (map : OrderedMap κ ν) {key : κ} :
    key ∈ map.keys ↔ ∃ value, map.get? key = some value := by
  rw [keys, List.mem_map]
  constructor
  · rintro ⟨⟨_, value⟩, hmem, rfl⟩
    exact ⟨value, map.mem_entries_iff.mp hmem⟩
  · rintro ⟨value, hvalue⟩
    exact ⟨(key, value), map.mem_entries_iff.mpr hvalue, rfl⟩

theorem get?_eq_none_iff (map : OrderedMap κ ν) {key : κ} :
    map.get? key = none ↔ key ∉ map.keys := by
  rw [mem_keys_iff, not_exists, Option.eq_none_iff_forall_ne_some]

/-- Lookups determine the map: both entry lists are sorted and have the same members. -/
theorem ext_get? {left right : OrderedMap κ ν} (h : ∀ key, left.get? key = right.get? key) :
    left = right := by
  have hmem : ∀ entry, entry ∈ left.entries ↔ entry ∈ right.entries := by
    rintro ⟨key, value⟩
    rw [mem_entries_iff, mem_entries_iff, h]
  have hperm : left.entries.Perm right.entries :=
    (List.perm_ext_iff_of_nodup (List.Nodup.of_map _ left.keys_nodup)
      (List.Nodup.of_map _ right.keys_nodup)).mpr hmem
  have heq : left.entries = right.entries :=
    hperm.eq_of_pairwise (fun _ _ _ _ hlt hgt => absurd hlt (not_lt.mpr hgt.le))
      left.sorted right.sorted
  cases left; cases right; cases heq; rfl

@[simp] theorem get?_empty (key : κ) : (empty : OrderedMap κ ν).get? key = none := rfl

theorem find?_insertEntry (key other : κ) (value : ν) {entries : List (κ × ν)}
    (h : entries.Pairwise fun left right => left.1 < right.1) :
    ((insertEntry key value entries).find? fun entry => entry.1 = other).map Prod.snd =
      if other = key then some value
      else (entries.find? fun entry => entry.1 = other).map Prod.snd := by
  induction entries with
  | nil => by_cases hkey : other = key <;> simp [insertEntry, hkey, eq_comm]
  | cons head rest ih =>
      have hrest := (List.pairwise_cons.mp h).2
      rw [insertEntry]
      by_cases hlt : key < head.1
      · rw [if_pos hlt]
        by_cases hkey : other = key
        · simp [hkey]
        · simp [hkey, Ne.symm hkey]
      · rw [if_neg hlt]
        by_cases heq : key = head.1
        · rw [if_pos heq]
          by_cases hkey : other = key
          · simp [hkey]
          · have hne : head.1 ≠ other := fun hother => hkey (hother ▸ heq.symm)
            simp [hkey, Ne.symm hkey, hne]
        · rw [if_neg heq]
          by_cases hother : head.1 = other
          · have hkey : other ≠ key := fun hkey => heq (hkey ▸ hother.symm)
            simp [hother, hkey]
          · simp only [List.find?_cons, decide_eq_false hother]
            exact ih hrest

theorem get?_insert (map : OrderedMap κ ν) (key other : κ) (value : ν) :
    (map.insert key value).get? other = if other = key then some value else map.get? other :=
  find?_insertEntry key other value map.sorted

@[simp] theorem get?_insert_self (map : OrderedMap κ ν) (key : κ) (value : ν) :
    (map.insert key value).get? key = some value := by
  rw [get?_insert, if_pos rfl]

theorem get?_insert_of_ne (map : OrderedMap κ ν) {key other : κ} (value : ν) (h : other ≠ key) :
    (map.insert key value).get? other = map.get? other := by
  rw [get?_insert, if_neg h]

theorem get?_erase (map : OrderedMap κ ν) (key other : κ) :
    (map.erase key).get? other = if other = key then none else map.get? other := by
  apply Option.ext
  intro value
  rw [← mem_entries_iff]
  change (other, value) ∈ map.entries.filter _ ↔ _
  rw [List.mem_filter, mem_entries_iff]
  split_ifs with h
  · simp [h]
  · simp [h]

@[simp] theorem get?_erase_self (map : OrderedMap κ ν) (key : κ) :
    (map.erase key).get? key = none := by
  rw [get?_erase, if_pos rfl]

theorem get?_erase_of_ne (map : OrderedMap κ ν) {key other : κ} (h : other ≠ key) :
    (map.erase key).get? other = map.get? other := by
  rw [get?_erase, if_neg h]

/-- Where two maps look the same, they do after the same change. -/
theorem get?_insert_congr {map map' : OrderedMap κ ν} {other : κ} (h : map.get? other = map'.get? other)
    (key : κ) (value : ν) : (map.insert key value).get? other = (map'.insert key value).get? other := by
  rw [get?_insert, get?_insert, h]

theorem get?_erase_congr {map map' : OrderedMap κ ν} {other : κ} (h : map.get? other = map'.get? other)
    (key : κ) : (map.erase key).get? other = (map'.erase key).get? other := by
  rw [get?_erase, get?_erase, h]

theorem mem_keys_insert (map : OrderedMap κ ν) {key other : κ} {value : ν} :
    other ∈ (map.insert key value).keys ↔ other = key ∨ other ∈ map.keys := by
  rw [mem_keys_iff, mem_keys_iff, get?_insert]
  split_ifs with h
  · simp [h]
  · simp [h]

theorem mem_keys_erase (map : OrderedMap κ ν) {key other : κ} :
    other ∈ (map.erase key).keys ↔ other ≠ key ∧ other ∈ map.keys := by
  rw [mem_keys_iff, mem_keys_iff, get?_erase]
  split_ifs with h
  · simp [h]
  · simp [h]

/-- Replacing the value of a key that is present keeps the keys, the order and every other entry. -/
theorem entries_insert_of_get? (map : OrderedMap κ ν) {key : κ} {old : ν} (value : ν)
    (h : map.get? key = some old) :
    (map.insert key value).entries =
      map.entries.map fun entry => if entry.1 = key then (key, value) else entry := by
  obtain ⟨entries, sorted⟩ := map
  have hmem : (key, old) ∈ entries := (mem_entries_iff ⟨entries, sorted⟩).mpr h
  clear h
  change insertEntry key value entries = _
  induction entries with
  | nil => exact absurd hmem List.not_mem_nil
  | cons head rest ih =>
      obtain ⟨hhead, hrest⟩ := List.pairwise_cons.mp sorted
      rw [insertEntry, List.map_cons]
      rcases List.mem_cons.mp hmem with hmem | hmem
      · have htail : ∀ entry ∈ rest, entry.1 ≠ key := fun entry hentry heq =>
          (lt_irrefl key) (by simpa [← hmem, heq] using hhead entry hentry)
        have hmap : rest.map (fun entry => if entry.1 = key then (key, value) else entry) = rest :=
          (List.map_congr_left fun entry hentry => if_neg (htail entry hentry)).trans
            (List.map_id' rest)
        simp [← hmem, hmap]
      · have hlt : head.1 < key := hhead _ hmem
        rw [if_neg hlt.not_gt, if_neg hlt.ne', if_neg hlt.ne, ih hrest hmem]

theorem keys_insert_of_get? (map : OrderedMap κ ν) {key : κ} {old : ν} (value : ν)
    (h : map.get? key = some old) : (map.insert key value).keys = map.keys := by
  rw [keys, entries_insert_of_get? map value h, List.map_map, keys]
  refine List.map_congr_left fun entry _ => ?_
  by_cases hkey : entry.1 = key <;> simp [hkey]

theorem get?_foldl_insert_of_not_mem (entries : List (κ × ν)) (map : OrderedMap κ ν) {key : κ}
    (h : key ∉ entries.map Prod.fst) :
    (entries.foldl (fun map entry => map.insert entry.1 entry.2) map).get? key = map.get? key := by
  induction entries generalizing map with
  | nil => rfl
  | cons head rest ih =>
      rw [List.map_cons, List.mem_cons, not_or] at h
      rw [List.foldl_cons, ih _ h.2, get?_insert_of_ne _ _ h.1]

theorem mem_or_of_get?_foldl_insert {entries : List (κ × ν)} {map : OrderedMap κ ν} {key : κ}
    {value : ν}
    (h : (entries.foldl (fun map entry => map.insert entry.1 entry.2) map).get? key = some value) :
    (key, value) ∈ entries ∨ map.get? key = some value := by
  induction entries generalizing map with
  | nil => exact Or.inr h
  | cons entry rest ih =>
      rcases ih h with hmem | hget
      · exact Or.inl (List.mem_cons_of_mem _ hmem)
      · rw [get?_insert] at hget
        split_ifs at hget with hkey
        · left
          rw [hkey, ← Option.some.inj hget]
          exact List.mem_cons_self
        · exact Or.inr hget

/-- Whatever the map of a list holds stands in the list. -/
theorem mem_of_get?_ofList {entries : List (κ × ν)} {key : κ} {value : ν}
    (h : (ofList entries).get? key = some value) : (key, value) ∈ entries := by
  rcases mem_or_of_get?_foldl_insert h with hmem | hempty
  · exact hmem
  · simp at hempty

theorem get?_foldl_insert_of_mem {entries : List (κ × ν)} (hnodup : (entries.map Prod.fst).Nodup)
    (map : OrderedMap κ ν) {key : κ} {value : ν} (h : (key, value) ∈ entries) :
    (entries.foldl (fun map entry => map.insert entry.1 entry.2) map).get? key = some value := by
  induction entries generalizing map with
  | nil => exact absurd h List.not_mem_nil
  | cons head rest ih =>
      obtain ⟨hhead, hrest⟩ := List.nodup_cons.mp hnodup
      rw [List.foldl_cons]
      rcases List.mem_cons.mp h with h | h
      · subst h
        rw [get?_foldl_insert_of_not_mem _ _ hhead, get?_insert_self]
      · exact ih hrest _ h

/-- A list with distinct keys is read back entry by entry. -/
theorem get?_ofList_of_mem {entries : List (κ × ν)} (hnodup : (entries.map Prod.fst).Nodup)
    {key : κ} {value : ν} (h : (key, value) ∈ entries) :
    (ofList entries).get? key = some value :=
  get?_foldl_insert_of_mem hnodup empty h

theorem get?_ofList_of_not_mem {entries : List (κ × ν)} {key : κ}
    (h : key ∉ entries.map Prod.fst) : (ofList entries).get? key = none :=
  get?_foldl_insert_of_not_mem entries empty h

end OrderedMap
